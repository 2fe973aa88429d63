import IpfsNode.Registry
import Mathlib.Data.List.Sort
import Mathlib.Data.String.Basic

/-!
# Where a file belongs

Every node ranks all known nodes for a CID by the same score and takes the
first few, as many as the age of the file asks for and the network has. The
score stands for the hash of peer id and CID; only that all nodes compute the
same one matters.
-/

namespace IpfsNode

/-- Rendezvous score of a node for a CID; higher wins. -/
abbrev Score (Cid : Type) := PeerId → Cid → Nat

structure PlacementTier where
  /-- Smallest file age the tier applies to. -/
  minAgeMs : Nat
  /-- Desired holders, this node included. -/
  copies : Nat
deriving DecidableEq, Repr

/-- The last tier the age has reached; tiers are ordered by age. -/
def copiesForAge (tiers : List PlacementTier) (ageMs : Nat) : Nat :=
  tiers.foldl (fun copies tier => if tier.minAgeMs ≤ ageMs then tier.copies else copies)
    ((tiers.head?.map (·.copies)).getD 1)

def effectiveCopies (desired networkSize : Nat) : Nat :=
  max 1 (min desired networkSize)

section Ranking

variable {Cid : Type} (score : Score Cid) (cid : Cid)

/-- `a` ranks before `b`: a higher score, or the smaller name on a tie. -/
def RanksBefore (a b : PeerId) : Prop :=
  if score a cid = score b cid then a < b else score b cid < score a cid

instance : DecidableRel (RanksBefore score cid) := fun a b => by
  unfold RanksBefore
  infer_instance

/-- The same identifiers, best first. -/
def rankHolders (peerIds : List PeerId) : List PeerId :=
  peerIds.insertionSort (RanksBefore score cid)

theorem mem_rankHolders {peerIds : List PeerId} {peerId : PeerId} :
    peerId ∈ rankHolders score cid peerIds ↔ peerId ∈ peerIds :=
  (List.perm_insertionSort _ _).mem_iff

theorem length_rankHolders (peerIds : List PeerId) :
    (rankHolders score cid peerIds).length = peerIds.length :=
  List.length_insertionSort _ _

end Ranking

/-! ## One ranking on every node -/

section Agreement

variable {Cid : Type} {score : Score Cid} {cid : Cid}

theorem RanksBefore.asymm {a b : PeerId} (h : RanksBefore score cid a b)
    (h' : RanksBefore score cid b a) : False := by
  unfold RanksBefore at h h'
  by_cases heq : score a cid = score b cid
  · rw [if_pos heq] at h
    rw [if_pos heq.symm] at h'
    exact lt_asymm h h'
  · rw [if_neg heq] at h
    rw [if_neg (Ne.symm heq)] at h'
    omega

theorem RanksBefore.trans {a b c : PeerId} (h : RanksBefore score cid a b)
    (h' : RanksBefore score cid b c) : RanksBefore score cid a c := by
  unfold RanksBefore at h h' ⊢
  by_cases hab : score a cid = score b cid <;> by_cases hbc : score b cid = score c cid
  · rw [if_pos hab] at h
    rw [if_pos hbc] at h'
    rw [if_pos (hab.trans hbc)]
    exact lt_trans h h'
  · rw [if_neg hbc] at h'
    rw [hab, if_neg hbc]
    exact h'
  · rw [if_neg hab] at h
    rw [← hbc, if_neg hab]
    exact h
  · rw [if_neg hab] at h
    rw [if_neg hbc] at h'
    rw [if_neg (by omega)]
    omega

/-- Of two nodes one ranks before the other. -/
theorem RanksBefore.total {a b : PeerId} (hne : a ≠ b) :
    RanksBefore score cid a b ∨ RanksBefore score cid b a := by
  unfold RanksBefore
  by_cases heq : score a cid = score b cid
  · rw [if_pos heq, if_pos heq.symm]
    exact lt_or_gt_of_ne hne
  · rw [if_neg heq, if_neg (Ne.symm heq)]
    omega

/-- Where the new node is put, everything before it ranks before it and
everything after it ranks after it. -/
theorem pairwise_orderedInsert {a : PeerId} {l : List PeerId}
    (hl : l.Pairwise (RanksBefore score cid)) (ha : a ∉ l) :
    (l.orderedInsert (RanksBefore score cid) a).Pairwise (RanksBefore score cid) := by
  induction l with
  | nil => simp
  | cons b l ih =>
      rw [List.pairwise_cons] at hl
      rw [List.mem_cons, not_or] at ha
      by_cases hab : RanksBefore score cid a b
      · rw [List.orderedInsert_cons_of_le _ _ hab, List.pairwise_cons, List.pairwise_cons]
        refine ⟨fun c hc => ?_, hl⟩
        rcases List.mem_cons.mp hc with rfl | hc
        · exact hab
        · exact hab.trans (hl.1 c hc)
      · rw [List.orderedInsert_of_not_le _ _ hab, List.pairwise_cons]
        refine ⟨fun c hc => ?_, ih hl.2 ha.2⟩
        rcases (List.mem_orderedInsert _).mp hc with rfl | hc
        · exact (RanksBefore.total ha.1).resolve_left hab
        · exact hl.1 c hc

theorem pairwise_rankHolders {peerIds : List PeerId} (h : peerIds.Nodup) :
    (rankHolders score cid peerIds).Pairwise (RanksBefore score cid) := by
  unfold rankHolders
  induction peerIds with
  | nil => simp
  | cons a l ih =>
      rw [List.nodup_cons] at h
      rw [List.insertionSort_cons]
      exact pairwise_orderedInsert (ih h.2) ((List.mem_insertionSort _).not.mpr h.1)

/-- Nodes that know the same network rank it the same way. -/
theorem rankHolders_eq_of_mem_iff {peerIds peerIds' : List PeerId} (h : peerIds.Nodup)
    (h' : peerIds'.Nodup) (hmem : ∀ peerId, peerId ∈ peerIds ↔ peerId ∈ peerIds') :
    rankHolders score cid peerIds = rankHolders score cid peerIds' := by
  have hperm : (rankHolders score cid peerIds).Perm (rankHolders score cid peerIds') :=
    ((List.perm_insertionSort _ _).trans ((List.perm_ext_iff_of_nodup h h').mpr hmem)).trans
      (List.perm_insertionSort _ _).symm
  exact hperm.eq_of_pairwise (fun a b _ _ hab hba => (hab.asymm hba).elim)
    (pairwise_rankHolders h) (pairwise_rankHolders h')

end Agreement

theorem nodup_eraseDups {α : Type} [DecidableEq α] (l : List α) : l.eraseDups.Nodup := by
  induction h : l.length using Nat.strong_induction_on generalizing l with
  | _ n ih =>
      cases l with
      | nil => simp
      | cons a l =>
          rw [List.eraseDups_cons, List.nodup_cons]
          refine ⟨fun hmem => ?_, ih _ ?_ _ rfl⟩
          · have := List.mem_eraseDups.mp hmem
            simp at this
          · rw [← h, List.length_cons]
            exact Nat.lt_succ_of_le (List.length_filter_le _ _)

structure Placement where
  /-- Holders the age policy asks for, this node included. -/
  desiredCopies : Nat
  /-- Holders that can exist given the size of the network. -/
  copies : Nat
  /-- Designated holders, best first. -/
  holders : List PeerId
  selfIsHolder : Bool
  networkTooSmall : Bool
deriving DecidableEq, Repr

section Place

variable {Cid : Type} (score : Score Cid) (cid : Cid)

def placeFile (ageMs : Nat) (tiers : List PlacementTier) (selfPeerId : PeerId)
    (peerIds : List PeerId) : Placement :=
  let candidates := (selfPeerId :: peerIds).eraseDups
  let desiredCopies := copiesForAge tiers ageMs
  let copies := effectiveCopies desiredCopies candidates.length
  let holders := (rankHolders score cid candidates).take copies
  { desiredCopies, copies, holders
    selfIsHolder := selfPeerId ∈ holders
    networkTooSmall := candidates.length ≤ desiredCopies }

end Place

/-- Designated holders this node should ask, itself excluded. -/
def storageTargets (placement : Placement) (selfPeerId : PeerId) : List PeerId :=
  placement.holders.filter (· ≠ selfPeerId)

def mayDemote (placement : Placement) : Bool :=
  !placement.networkTooSmall && !placement.selfIsHolder

section Targets

variable {Cid : Type} {score : Score Cid} {cid : Cid} {ageMs : Nat}
variable {tiers : List PlacementTier} {selfPeerId peerId : PeerId} {peerIds : List PeerId}

theorem mem_storageTargets {placement : Placement} :
    peerId ∈ storageTargets placement selfPeerId ↔
      peerId ∈ placement.holders ∧ peerId ≠ selfPeerId := by
  simp [storageTargets]

/-- Only known nodes hold a file. -/
theorem mem_of_mem_holders
    (h : peerId ∈ (placeFile score cid ageMs tiers selfPeerId peerIds).holders) :
    peerId = selfPeerId ∨ peerId ∈ peerIds := by
  have := List.mem_of_mem_take h
  rwa [mem_rankHolders, List.mem_eraseDups, List.mem_cons] at this

/-- The holders are the first nodes of the ranking that all nodes share. -/
theorem holders_eq_take {nodes : List PeerId} (hnodes : nodes.Nodup)
    (hmem : ∀ peerId, peerId = selfPeerId ∨ peerId ∈ peerIds ↔ peerId ∈ nodes) :
    (placeFile score cid ageMs tiers selfPeerId peerIds).holders
      = (rankHolders score cid nodes).take
          (placeFile score cid ageMs tiers selfPeerId peerIds).copies := by
  have hsame : rankHolders score cid (selfPeerId :: peerIds).eraseDups
      = rankHolders score cid nodes := by
    refine rankHolders_eq_of_mem_iff (nodup_eraseDups _) hnodes fun peerId => ?_
    rw [List.mem_eraseDups, List.mem_cons]
    exact hmem peerId
  show (rankHolders score cid (selfPeerId :: peerIds).eraseDups).take _ = _
  rw [hsame]
  rfl

theorem length_candidates {nodes : List PeerId} (hnodes : nodes.Nodup)
    (hmem : ∀ peerId, peerId = selfPeerId ∨ peerId ∈ peerIds ↔ peerId ∈ nodes) :
    (selfPeerId :: peerIds).eraseDups.length = nodes.length := by
  refine ((List.perm_ext_iff_of_nodup (nodup_eraseDups _) hnodes).mpr fun peerId => ?_).length_eq
  rw [List.mem_eraseDups, List.mem_cons]
  exact hmem peerId

end Targets

end IpfsNode
