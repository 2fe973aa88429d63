import IpfsNode.Config
import IpfsNode.Maintenance
import IpfsNode.Replication

/-!
# Handing copies over

A node drops its copy of a file that belongs on other nodes: when it is not one
of the designated holders and each of these confirms that it has the file. The
nodes decide on their own, each by its own clock, and the answers are old when
the copy is dropped.

The holders are a prefix of one ranking on every node, and no age asks for fewer
of them than the last tier. So the first nodes of the ranking, as many as the
last tier asks for, are holders whenever anybody decides: they never drop their
copies, and whoever drops one has seen all of theirs. `demotion_keeps_floor` is
the invariant of a network in which any number of such passes are under way.
-/

namespace IpfsNode

/-! ## The pass of one node -/

/-- What a pass asks of its node and of the network. -/
inductive SweepOp (Cid : Type) where
  /-- Some of the settled files this node holds, as many as one pass takes. -/
  | nextSweepBatch
  | now
  /-- Peers are asked at the same time: the order in which they answer. -/
  | answerOrder (holders : List ReplicationPeer)
  | probeHave (peer : ReplicationPeer) (cid : Cid)
  | demoteCopy (record : FileRecord Cid)
  /-- Whatever else happens in the network. -/
  | elsewhere

def SweepOp.Ret {Cid : Type} : SweepOp Cid → Type
  | nextSweepBatch => List (FileRecord Cid)
  | now => Nat
  | answerOrder _ => List ReplicationPeer
  | probeHave .. | demoteCopy _ => Bool
  | elsewhere => Unit

abbrev Sweep (Cid α : Type) := Prog (SweepOp Cid) SweepOp.Ret (LifecycleError Cid) α

structure DemotionReport (Cid : Type) where
  checked : Nat
  /-- Files whose local copy was released because other nodes hold them. -/
  demoted : List Cid
  /-- Files kept because the designated holders did not all confirm. -/
  kept : List Cid
deriving DecidableEq, Repr

/-- The other nodes of the list, one entry for each identity. -/
def getReplicationPeers (nodes : List ReplicationPeer) (selfPeerId : PeerId) :
    List ReplicationPeer :=
  distinctPeers nodes selfPeerId

section Pass

variable {Cid : Type}

/-- What the peers answer, a failed call as `false`. -/
def probeEach (cid : Cid) : List ReplicationPeer → Sweep Cid (List Bool)
  | [] => pure []
  | peer :: peers => do
      let answer ← Prog.attempt (Prog.perform (SweepOp.probeHave peer cid))
      let confirmations ← probeEach cid peers
      pure ((match answer with | .ok has => has | .error _ => false) :: confirmations)

variable (score : Score Cid) (tiers : List PlacementTier) (peers : List ReplicationPeer)
variable (selfPeerId : PeerId) (dryRun : Bool)

def placementFor (record : FileRecord Cid) (now : Nat) : Placement :=
  placeFile score record.cid (now - record.createdAt) tiers selfPeerId (peers.map (·.peerId))

/-- The designated holders this node can ask. -/
def knownHolders (placement : Placement) : List ReplicationPeer :=
  (storageTargets placement selfPeerId).filterMap fun peerId =>
    peers.find? (·.peerId = peerId)

/-- One candidate of a pass. -/
def demoteRecord (report : DemotionReport Cid) (record : FileRecord Cid) :
    Sweep Cid (DemotionReport Cid) := do
  let now : Nat ← Prog.perform SweepOp.now
  let placement := placementFor score tiers peers selfPeerId record now
  let kept : DemotionReport Cid := { report with kept := report.kept ++ [record.cid] }
  let demoted : DemotionReport Cid := { report with demoted := report.demoted ++ [record.cid] }
  if !mayDemote placement then pure report
  else if (knownHolders peers selfPeerId placement).length < placement.copies then pure kept
  else do
    let order ← Prog.perform (SweepOp.answerOrder (knownHolders peers selfPeerId placement))
    let confirmations ← probeEach record.cid order
    if !confirmations.all id then pure kept
    else if dryRun then pure demoted
    else do
      let released : Bool ← Prog.perform (SweepOp.demoteCopy record)
      pure (if released then demoted else report)

def demoteEach (report : DemotionReport Cid) :
    List (FileRecord Cid) → Sweep Cid (DemotionReport Cid)
  | [] => pure report
  | record :: records => do
      let report ← demoteRecord score tiers peers selfPeerId dryRun report record
      demoteEach report records

end Pass

/-- Release local copies of files that belong on other nodes. -/
def demoteReleasableCopies {Cid : Type} (score : Score Cid) (config : ReplicationConfig)
    (nodes : List ReplicationPeer) (selfPeerId : PeerId) (dryRun : Bool) :
    Sweep Cid (DemotionReport Cid) := do
  let report : DemotionReport Cid := { checked := 0, demoted := [], kept := [] }
  if !config.enabled then pure report
  else do
    let candidates : List (FileRecord Cid) ← Prog.perform SweepOp.nextSweepBatch
    demoteEach score config.placement (getReplicationPeers nodes selfPeerId) selfPeerId dryRun
      { report with checked := candidates.length } candidates

/-! ## The network -/

abbrev Network (Cid : Type) := PeerId → World Cid

section Semantics

variable {Cid : Type} [DecidableEq Cid] (content : Content Cid)

/-- What a pass of the node `self` gets. Answers to `have` are truthful, and
copies are only lost by demotion. -/
def sweepSem (self : PeerId) :
    Prog.Sem (SweepOp Cid) SweepOp.Ret (LifecycleError Cid) (Network Cid)
  | .nextSweepBatch, net, r, net' => net' = net ∧ ∀ records : List (FileRecord Cid),
      r = .ok records → ∀ record ∈ records, (net self).files.get record.cid = some record ∧
        isSettledHeldFile (net self).proc record = true
  | .now, net, _, net' => net' = net
  | .answerOrder holders, net, r, net' => net' = net ∧ ∃ order, r = .ok order ∧
      order.Perm holders
  | .probeHave peer cid, net, r, net' => net' = net ∧
      (r = .ok true → (net peer.peerId).holdsDurably cid = true)
  | .demoteCopy record, net, r, net' => ∃ w,
      Prog.Runs (storeSem content anyFault) (demoteCopy record) (net self) r w ∧
        net' = Function.update net self w
  | .elsewhere, net, _, net' => ∀ peerId cid,
      (net peerId).holdsDurably cid = true → (net' peerId).holdsDurably cid = true

/-- The passes of a node are numbered. -/
abbrev SweepTask := PeerId × Nat

/-- The identities of the list. -/
def networkIds (nodes : List ReplicationPeer) : List PeerId :=
  (nodes.map (·.peerId)).eraseDups

/-- The network, with the history of the run. -/
abbrev networkSem (t : SweepTask) :=
  Prog.Pool.traced (sweepSem content t.1) t

/-- What runs in the network: passes of its nodes, which share the list and the
tiers, and everything else. -/
inductive SweepEntry (score : Score Cid) (nodes : List ReplicationPeer)
    (tiers : List PlacementTier) : SweepTask → Sweep Cid Unit → Prop
  | pass {t config dryRun} (hself : t.1 ∈ networkIds nodes) (htiers : config.placement = tiers) :
      SweepEntry score nodes tiers t
        (demoteReleasableCopies score config nodes t.1 dryRun >>= fun _ => pure ())
  | elsewhere {t} : SweepEntry score nodes tiers t (Prog.perform SweepOp.elsewhere)

abbrev SweepEvent (Cid : Type) :=
  Prog.Pool.Event SweepTask (SweepOp Cid) SweepOp.Ret (LifecycleError Cid) (Network Cid)

/-- A copy of the file is dropped. -/
def SweepEvent.Demotes (cid : Cid) : SweepEvent Cid → Prop
  | .request _ (.demoteCopy record) _ _ _ => record.cid = cid
  | _ => False

instance (cid : Cid) : DecidablePred (SweepEvent.Demotes cid) := fun e => by
  unfold SweepEvent.Demotes
  split <;> infer_instance

/-- The node whose pass made the event. -/
def SweepEvent.By (peerId : PeerId) : SweepEvent Cid → Prop
  | .request t _ _ _ _ => t.1 = peerId
  | .reset _ _ => False

/-- The nodes no age of the file ever leaves out. -/
def floorHolders (score : Score Cid) (nodes : List ReplicationPeer)
    (tiers : List PlacementTier) (cid : Cid) : List PeerId :=
  (rankHolders score cid (networkIds nodes)).take
    (min (lastCopies tiers) (networkIds nodes).length)

/-! ## What other files lose -/

variable {content} {w w' : World Cid} {cid : Cid}

/-- Dropping one copy leaves the copies of other files alone. -/
theorem holdsDurably_of_demoteCopy {record : FileRecord Cid} (hne : record.cid ≠ cid)
    {r : Except (LifecycleError Cid) Bool}
    (hruns : Prog.Runs (storeSem content anyFault) (demoteCopy record) w r w')
    (h : w.holdsDurably cid = true) : w'.holdsDurably cid = true := by
  refine holds_durablePolicy.mp (Safe.holds ?_ (holds_durablePolicy.mpr h) hruns)
  refine safe_demoteCopy fun current _ hread _ _ _ => ⟨hne, fun heq => ?_⟩
  exact absurd ((hread.2 current rfl).symm.trans heq) hne

end Semantics

/-! ## The floor -/

section Floor

variable {Cid : Type} {score : Score Cid} {nodes : List ReplicationPeer}
variable {tiers : List PlacementTier} {cid : Cid} {self : PeerId}

theorem nodup_networkIds : (networkIds nodes).Nodup := nodup_eraseDups _

/-- A node and its peers are the network. -/
theorem mem_self_or_peers (hself : self ∈ networkIds nodes) (peerId : PeerId) :
    peerId = self ∨ peerId ∈ (getReplicationPeers nodes self).map (·.peerId) ↔
      peerId ∈ networkIds nodes := by
  unfold networkIds at hself ⊢
  rw [List.mem_eraseDups] at hself ⊢
  constructor
  · rintro (rfl | hpeer)
    · exact hself
    · obtain ⟨peer, hmem, rfl⟩ := List.mem_map.mp hpeer
      exact List.mem_map_of_mem (mem_distinctPeers hmem).1
  · intro hmem
    by_cases heq : peerId = self
    · exact .inl heq
    · obtain ⟨peer, hpeer, rfl⟩ := List.mem_map.mp hmem
      exact .inr (peerId_mem_distinctPeers hpeer heq)

theorem length_floorHolders :
    (floorHolders score nodes tiers cid).length = min (lastCopies tiers) (networkIds nodes).length := by
  unfold floorHolders
  rw [List.length_take, length_rankHolders]
  omega

theorem nodup_floorHolders : (floorHolders score nodes tiers cid).Nodup :=
  (List.take_sublist _ _).nodup
    ((List.perm_insertionSort _ _).nodup_iff.mpr nodup_networkIds)

theorem mem_networkIds_of_floor {peerId : PeerId}
    (h : peerId ∈ floorHolders score nodes tiers cid) : peerId ∈ networkIds nodes :=
  (mem_rankHolders score cid).mp (List.mem_of_mem_take h)

/-- At every age, on every node, the floor is among the designated holders. -/
theorem mem_holders_of_floor (htiers : TiersShrink tiers) (hself : self ∈ networkIds nodes)
    (ageMs : Nat) {peerId : PeerId} (h : peerId ∈ floorHolders score nodes tiers cid) :
    peerId ∈ (placeFile score cid ageMs tiers self
      ((getReplicationPeers nodes self).map (·.peerId))).holders := by
  rw [holders_eq_take nodup_networkIds (mem_self_or_peers hself)]
  refine List.take_subset_take_left _ ?_ h
  have hcandidates := length_candidates nodup_networkIds (mem_self_or_peers hself)
  have hcopies := htiers.lastCopies_le_copiesForAge ageMs
  show _ ≤ effectiveCopies (copiesForAge tiers ageMs) (_ :: _).eraseDups.length
  rw [hcandidates]
  unfold effectiveCopies
  omega

end Floor

/-! ## The invariant -/

abbrev SweepPast (Cid : Type) :=
  Prog.Pool.Past SweepTask (SweepOp Cid) SweepOp.Ret (LifecycleError Cid) (Network Cid)

section Invariant

variable {Cid : Type} [DecidableEq Cid]

def FloorHolds (floor : List PeerId) (cid : Cid) (net : Network Cid) : Prop :=
  ∀ peerId ∈ floor, (net peerId).holdsDurably cid = true

/-- What all others do to the floor: nobody on it loses a permanent copy. -/
def KeepsFloor (floor : List PeerId) (cid : Cid) (net net' : Network Cid) : Prop :=
  ∀ peerId ∈ floor, (net peerId).holdsDurably cid = true → (net' peerId).holdsDurably cid = true

/-- A copy of `cid` is dropped by a node off the floor, while all of it holds the file. -/
def mayDrop (floor : List PeerId) (cid : Cid) (t : SweepTask) :
    SweepOp Cid → SweepPast Cid → Prop
  | .demoteCopy record, past => record.cid = cid → t.1 ∉ floor ∧ FloorHolds floor cid past.1
  | _, _ => True

/-- No copy of the floor was dropped, and since the first copy was dropped
anywhere all of it holds the file. -/
structure FloorKept (floor : List PeerId) (cid : Cid) (past : SweepPast Cid) : Prop where
  spared : ∀ e ∈ past.2, SweepEvent.Demotes cid e → ∀ peerId, SweepEvent.By peerId e →
    peerId ∉ floor
  holds : (∃ e ∈ past.2, SweepEvent.Demotes cid e) → FloorHolds floor cid past.1

variable {content : Content Cid} {floor : List PeerId} {cid : Cid} {t : SweepTask}

theorem KeepsFloor.refl (net : Network Cid) : KeepsFloor floor cid net net :=
  fun _ _ h => h

theorem KeepsFloor.trans {net₁ net₂ net₃ : Network Cid} (h : KeepsFloor floor cid net₁ net₂)
    (h' : KeepsFloor floor cid net₂ net₃) : KeepsFloor floor cid net₁ net₃ :=
  fun peerId hmem hheld => h' peerId hmem (h peerId hmem hheld)

theorem FloorHolds.keeps {net net' : Network Cid} (h : FloorHolds floor cid net)
    (hkeeps : KeepsFloor floor cid net net') : FloorHolds floor cid net' :=
  fun peerId hmem => hkeeps peerId hmem (h peerId hmem)

/-- No step takes a permanent copy from the floor. -/
theorem keepsFloor_of_step {o : SweepOp Cid} {past : SweepPast Cid} {net' : Network Cid}
    {r : Except (LifecycleError Cid) o.Ret} (hpre : mayDrop floor cid t o past)
    (hstep : sweepSem content t.1 o past.1 r net') : KeepsFloor floor cid past.1 net' := by
  cases o with
  | nextSweepBatch => exact hstep.1 ▸ .refl _
  | now =>
      have hsame : net' = past.1 := hstep
      exact hsame ▸ .refl _
  | answerOrder holders => exact hstep.1 ▸ .refl _
  | probeHave peer cid => exact hstep.1 ▸ .refl _
  | elsewhere => exact fun peerId _ hheld => hstep peerId cid hheld
  | demoteCopy record =>
      obtain ⟨w, hruns, rfl⟩ := hstep
      intro peerId hmem hheld
      by_cases hself : peerId = t.1
      · subst hself
        rw [Function.update_self]
        by_cases hcid : record.cid = cid
        · exact absurd hmem (hpre hcid).1
        · exact holdsDurably_of_demoteCopy hcid hruns hheld
      · rw [Function.update_of_ne hself]
        exact hheld

/-- One more event keeps the invariant. -/
theorem FloorKept.snoc {past : SweepPast Cid} (h : FloorKept floor cid past)
    {o : SweepOp Cid} {r : Except (LifecycleError Cid) o.Ret} {net' : Network Cid}
    (hpre : mayDrop floor cid t o past) (hkeeps : KeepsFloor floor cid past.1 net') :
    FloorKept floor cid (net', past.2 ++ [.request t o past.1 r net']) := by
  have hdrop : SweepEvent.Demotes cid (.request t o past.1 r net') →
      t.1 ∉ floor ∧ FloorHolds floor cid past.1 := by
    intro hdemotes
    cases o with
    | demoteCopy record => exact hpre hdemotes
    | _ => exact hdemotes.elim
  refine ⟨?_, ?_⟩
  · intro e hmem hdemotes peerId hby
    rcases List.mem_append.mp hmem with hmem | hmem
    · exact h.spared e hmem hdemotes peerId hby
    · obtain rfl := List.mem_singleton.mp hmem
      obtain rfl : t.1 = peerId := hby
      exact (hdrop hdemotes).1
  · rintro ⟨e, hmem, hdemotes⟩
    rcases List.mem_append.mp hmem with hmem | hmem
    · exact (h.holds ⟨e, hmem, hdemotes⟩).keeps hkeeps
    · obtain rfl := List.mem_singleton.mp hmem
      exact (hdrop hdemotes).2.keeps hkeeps

/-! ## A pass keeps it -/

/-- A part of a pass that drops copies only as `mayDrop` says. -/
abbrev KeepsToFloor {α : Type} (content : Content Cid) (floor : List PeerId) (cid : Cid)
    (t : SweepTask) (p : Sweep Cid α)
    (Q : Except (LifecycleError Cid) α → SweepPast Cid → Prop) : SweepPast Cid → Prop :=
  Prog.wpi (networkSem content t)
    (fun past past' => KeepsFloor floor cid past.1 past'.1) (FloorKept floor cid)
    (mayDrop floor cid t) p Q

/-- Peers of the floor that confirmed the file have it when all have answered. -/
theorem keepsToFloor_probeEach {file : Cid} {peers : List ReplicationPeer}
    (confirmed : PeerId → Prop) {past : SweepPast Cid}
    (h : ∀ peerId ∈ floor, confirmed peerId → (past.1 peerId).holdsDurably cid = true) :
    KeepsToFloor content floor cid t (probeEach file peers) (fun r past' =>
      file = cid → ∀ confirmations, r = .ok confirmations → confirmations.all id = true →
        ∀ peerId ∈ floor, confirmed peerId ∨ peerId ∈ peers.map (·.peerId) →
          (past'.1 peerId).holdsDurably cid = true) past := by
  induction peers generalizing confirmed past with
  | nil =>
      intro _ confirmations _ _ peerId hmem hconfirmed
      refine h peerId hmem (hconfirmed.resolve_right fun hnil => ?_)
      cases hnil
  | cons peer peers ih =>
      refine Prog.wpi_bind.mpr (Prog.wpi_attempt.mpr (Prog.wpi_perform.mpr ?_))
      intro past₁ hkeeps _
      refine ⟨trivial, ?_⟩
      rintro answer past₂ ⟨⟨hsame, htruth⟩, -⟩
      have h₂ : ∀ peerId ∈ floor,
          confirmed peerId ∨ (file = cid ∧ answer = .ok true ∧ peerId = peer.peerId) →
          (past₂.1 peerId).holdsDurably cid = true := by
        rintro peerId hmem (hconfirmed | ⟨rfl, hyes, rfl⟩)
        · rw [hsame]
          exact hkeeps peerId hmem (h peerId hmem hconfirmed)
        · rw [hsame]
          exact htruth hyes
      refine Prog.wpi_bind.mpr (Prog.wpi_mono ?_ (ih _ h₂))
      rintro (err | confirmations) past₃ hrest
      · intro _ _ hok
        cases hok
      · intro hfile all hok hall peerId hmem hpeer
        cases hok
        rw [List.all_cons, Bool.and_eq_true] at hall
        refine hrest hfile confirmations rfl hall.2 peerId hmem ?_
        rcases hpeer with hconfirmed | hpeer
        · exact .inl (.inl hconfirmed)
        · rcases List.mem_cons.mp hpeer with rfl | hpeer
          · left
            right
            refine ⟨hfile, ?_, rfl⟩
            cases answer with
            | error err => exact absurd hall.1 (by simp)
            | ok has =>
                have : has = true := hall.1
                rw [this]
          · exact .inr hpeer

variable {score : Score Cid} {nodes : List ReplicationPeer} {tiers : List PlacementTier}
variable {dryRun : Bool}

/-- A designated holder other than this node is one it can ask. -/
theorem mem_knownHolders {placement : Placement} {peers : List ReplicationPeer}
    {selfPeerId peerId : PeerId} (hholder : peerId ∈ placement.holders)
    (hself : peerId ≠ selfPeerId) (hpeer : peerId ∈ peers.map (·.peerId)) :
    peerId ∈ (knownHolders peers selfPeerId placement).map (·.peerId) := by
  cases hfind : peers.find? (·.peerId = peerId) with
  | none =>
      obtain ⟨peer, hmem, rfl⟩ := List.mem_map.mp hpeer
      have := List.find?_eq_none.mp hfind peer hmem
      simp at this
  | some peer =>
      have hid : peer.peerId = peerId := by simpa using List.find?_some hfind
      rw [← hid]
      exact List.mem_map_of_mem (List.mem_filterMap.mpr
        ⟨peerId, mem_storageTargets.mpr ⟨hholder, hself⟩, hfind⟩)

/-- A candidate is dropped off the floor only, and after the floor was seen. -/
theorem keepsToFloor_demoteRecord (htiers : TiersShrink tiers) (hself : t.1 ∈ networkIds nodes)
    (report : DemotionReport Cid) (record : FileRecord Cid) (past : SweepPast Cid) :
    KeepsToFloor content (floorHolders score nodes tiers cid) cid t
      (demoteRecord score tiers (getReplicationPeers nodes t.1) t.1 dryRun report record)
      (fun _ _ => True) past := by
  set peers := getReplicationPeers nodes t.1 with hpeers
  refine Prog.wpi_bind.mpr (Prog.wpi_perform.mpr fun past₁ _ _ => ⟨trivial, ?_⟩)
  rintro (err | now) past₂ -
  · trivial
  set placement := placementFor score tiers peers t.1 record now with hplacement
  show KeepsToFloor content _ cid t (ite _ _ _) _ past₂
  split
  · trivial
  rename_i hmay
  split
  · trivial
  refine Prog.wpi_bind.mpr (Prog.wpi_perform.mpr fun past₃ _ _ => ⟨trivial, ?_⟩)
  rintro answer past₄ ⟨⟨-, order, rfl, hperm⟩, -⟩
  have hholders : record.cid = cid → ∀ peerId ∈ floorHolders score nodes tiers cid,
      peerId ∈ placement.holders := by
    rintro rfl peerId hmem
    exact mem_holders_of_floor htiers hself _ hmem
  have hoff : record.cid = cid → t.1 ∉ floorHolders score nodes tiers cid := by
    intro hcid hmem
    have hholder : placement.selfIsHolder = true := decide_eq_true (hholders hcid t.1 hmem)
    have hkeep : mayDemote placement = false := by simp [mayDemote, hholder]
    exact hmay (congrArg Bool.not hkeep)
  refine Prog.wpi_bind.mpr (Prog.wpi_mono ?_
    (keepsToFloor_probeEach (fun _ => False) fun _ _ h => h.elim))
  rintro (err | confirmations) past₅ hprobed
  · trivial
  show KeepsToFloor content _ _ t (ite _ _ _) _ past₅
  split
  · trivial
  rename_i hall
  split
  · trivial
  refine Prog.wpi_bind.mpr (Prog.wpi_perform.mpr fun past₆ hkeeps _ => ⟨?_, ?_⟩)
  · intro hcid
    have hheld : FloorHolds (floorHolders score nodes tiers cid) cid past₅.1 := by
      intro peerId hmem
      refine hprobed hcid confirmations rfl (by simpa using hall) peerId hmem (.inr ?_)
      have hne : peerId ≠ t.1 := fun heq => hoff hcid (heq ▸ hmem)
      have hknown := (mem_self_or_peers hself peerId).mpr (mem_networkIds_of_floor hmem)
      exact (hperm.map _).mem_iff.mpr
        (mem_knownHolders (hholders hcid peerId hmem) hne (hknown.resolve_left hne))
    exact ⟨hoff hcid, hheld.keeps hkeeps⟩
  · rintro (err | released) past₇ -
    · trivial
    · trivial

theorem keepsToFloor_demoteEach (htiers : TiersShrink tiers) (hself : t.1 ∈ networkIds nodes)
    (report : DemotionReport Cid) (records : List (FileRecord Cid)) (past : SweepPast Cid) :
    KeepsToFloor content (floorHolders score nodes tiers cid) cid t
      (demoteEach score tiers (getReplicationPeers nodes t.1) t.1 dryRun report records)
      (fun _ _ => True) past := by
  induction records generalizing report past with
  | nil => trivial
  | cons record records ih =>
      refine Prog.wpi_bind.mpr (Prog.wpi_mono ?_
        (keepsToFloor_demoteRecord htiers hself report record past))
      rintro (err | report') past' -
      · trivial
      · exact ih report' past'

theorem keepsToFloor_of_entry (htiers : TiersShrink tiers) {p : Sweep Cid Unit}
    (h : SweepEntry score nodes tiers t p) (past : SweepPast Cid) :
    KeepsToFloor content (floorHolders score nodes tiers cid) cid t p (fun _ _ => True) past := by
  cases h with
  | elsewhere => exact Prog.wpi_perform.mpr fun _ _ _ => ⟨trivial, fun _ _ _ => trivial⟩
  | @pass config dryRun hself hconfig =>
      subst hconfig
      refine Prog.wpi_bind.mpr ?_
      unfold demoteReleasableCopies
      dsimp only
      split
      · trivial
      refine Prog.wpi_bind.mpr (Prog.wpi_perform.mpr fun past₁ _ _ => ⟨trivial, ?_⟩)
      rintro (err | candidates) past₂ -
      · trivial
      refine Prog.wpi_mono ?_ (keepsToFloor_demoteEach htiers hself _ candidates past₂)
      rintro (err | report) past₃ -
      · trivial
      · trivial

/-- As many nodes as the floor has hold the file when all of it does. -/
theorem FloorHolds.card_le {net : Network Cid}
    (h : FloorHolds (floorHolders score nodes tiers cid) cid net) :
    min (lastCopies tiers) (networkIds nodes).length
      ≤ ((networkIds nodes).filter fun peerId => (net peerId).holdsDurably cid).length := by
  have hlength : (floorHolders score nodes tiers cid).length = _ := length_floorHolders
  rw [← hlength]
  refine (nodup_floorHolders.subperm fun peerId hmem => ?_).length_le
  exact List.mem_filter.mpr ⟨mem_networkIds_of_floor hmem, h peerId hmem⟩

/-- Any number of nodes that share a list and accepted tiers, with passes under
way on any of them: the first nodes of the ranking never drop the file, and from
the first copy dropped on all of them hold it durably. -/
theorem demotion_keeps_floor {raw : ConfigValue}
    (htiers : resolvePlacement raw DEFAULT_PLACEMENT = .ok tiers) {net₀ : Network Cid}
    {c : Prog.Pool.Config SweepTask (SweepOp Cid) SweepOp.Ret (LifecycleError Cid)
      (SweepPast Cid)}
    (hreach : Prog.Pool.Reach (networkSem content) (SweepEntry score nodes tiers)
      (fun _ _ => False) ((net₀, []), []) c) (cid : Cid) :
    (∀ e ∈ c.1.2, SweepEvent.Demotes cid e → ∀ peerId, SweepEvent.By peerId e →
      peerId ∉ (rankHolders score cid (networkIds nodes)).take
        (min (lastCopies tiers) (networkIds nodes).length)) ∧
    ((∃ e ∈ c.1.2, SweepEvent.Demotes cid e) →
      (∀ peerId ∈ (rankHolders score cid (networkIds nodes)).take
          (min (lastCopies tiers) (networkIds nodes).length),
        (c.1.1 peerId).holdsDurably cid = true) ∧
      min (lastCopies tiers) (networkIds nodes).length
        ≤ ((networkIds nodes).filter fun peerId => (c.1.1 peerId).holdsDurably cid).length) := by
  have hshrink := tiersShrink_of_resolvePlacement htiers
  have hstart : FloorKept (floorHolders score nodes tiers cid) cid (net₀, []) :=
    ⟨by simp, by simp⟩
  have hkept : FloorKept (floorHolders score nodes tiers cid) cid c.1 := by
    refine (Prog.Pool.invariant (fun _ _ _ _ h h' => h.trans h') (fun _ _ => .refl _) ?_
      (fun t p hp past _ => keepsToFloor_of_entry hshrink hp past)
      (fun _ _ _ h => h.elim) hstart hreach).1
    rintro t o past r ⟨net', events⟩ hinv hpre ⟨hstep, hevents⟩
    have hkeeps := keepsFloor_of_step hpre hstep
    have hevents : events = past.2 ++ [.request t o past.1 r net'] := hevents
    subst hevents
    exact ⟨hinv.snoc hpre hkeeps, fun _ _ => hkeeps⟩
  exact ⟨hkept.spared, fun hdropped => ⟨hkept.holds hdropped, (hkept.holds hdropped).card_le⟩⟩

end Invariant

/-! ## A network of two -/

section Serving

variable {Cid : Type} [DecidableEq Cid]

/-- A network in which every call succeeds and the clocks stand still. -/
def serveSweep (content : Content Cid) (self : PeerId) :
    (o : SweepOp Cid) → Network Cid → Except (LifecycleError Cid) o.Ret × Network Cid
  | .nextSweepBatch, net =>
      (.ok ((net self).files.entries.filter (isSettledHeldFile (net self).proc)), net)
  | .now, net => (.ok (0 : Nat), net)
  | .answerOrder holders, net => (.ok holders, net)
  | .probeHave peer cid, net => (.ok ((net peer.peerId).holdsDurably cid), net)
  | .demoteCopy record, net =>
      let released := Prog.run (serve content) (demoteCopy record) (net self)
      (released.1, Function.update net self released.2)
  | .elsewhere, net => (.ok (), net)

theorem sweepSem_serveSweep (content : Content Cid) (self : PeerId) (o : SweepOp Cid)
    (net : Network Cid) :
    sweepSem content self o net (serveSweep content self o net).1
      (serveSweep content self o net).2 := by
  cases o with
  | nextSweepBatch =>
      refine ⟨rfl, fun records hrecords record hmem => ?_⟩
      cases hrecords
      obtain ⟨hentry, hsettled⟩ := List.mem_filter.mp hmem
      exact ⟨Registry.get_of_mem hentry, hsettled⟩
  | now => rfl
  | answerOrder holders => exact ⟨rfl, holders, rfl, .refl _⟩
  | probeHave peer cid => exact ⟨rfl, fun hyes => Except.ok.inj hyes⟩
  | elsewhere => exact fun _ _ h => h
  | demoteCopy record =>
      exact ⟨_, runs_anyFault (runs_noFault.mpr rfl), rfl⟩

end Serving

namespace TwoNodes

def file : FileRecord Nat :=
  { cid := 7, name := "file", state := .confirmed, createdAt := 0, expiresAt := none
    confirmedAt := some 0, fileSize := 1, storedBytes := 1, protectedBytes := none
    pinned := true, heldLocally := true, replicas := [], admissionId := none
    admissionSettledAt := none, replicaStage := none, revision := some 0 }

def holder : World Nat :=
  { World.empty with
    files := { entries := [file], keyed := by decide, valid := by decide }
    pins := {7}
    blocks := {7}
    nextRevision := 1 }

def nodes : List ReplicationPeer := [⟨"first", "a"⟩, ⟨"second", "b"⟩]

def config : ReplicationConfig := { enabled := true, placement := [⟨0, 1⟩], ackQuorum := 1 }

/-- One tier that asks for one copy. -/
def raw : ConfigValue := .array [.object [("copies", .number (some 1))]]

/-- Both nodes hold the file, and the second one has made a pass. -/
def handedOver : SweepPast Nat :=
  (Prog.run (Prog.Pool.tracing (serveSweep Content.flat "b") ("b", 0))
    (demoteReleasableCopies (fun _ _ => 0) config nodes "b" false >>= fun _ => pure ())
    ((fun _ => holder), [])).2

end TwoNodes

open TwoNodes in
/-- The second node drops its copy, and the first one still holds the file. -/
theorem demotion_keeps_floor_twoNodes :
    (handedOver.1 "b").holdsDurably 7 = false ∧ (handedOver.1 "a").holdsDurably 7 = true := by
  have htiers : resolvePlacement raw DEFAULT_PLACEMENT = .ok config.placement := rfl
  have hentry : SweepEntry (fun _ _ => 0) nodes config.placement ("b", 0)
      (demoteReleasableCopies (fun _ (_ : Nat) => 0) config nodes "b" false >>= fun _ => pure ()) :=
    .pass (by decide) rfl
  have hserved : ∀ (o : SweepOp Nat) past, networkSem Content.flat ("b", 0) o past
      (Prog.Pool.tracing (serveSweep Content.flat "b") ("b", 0) o past).1
      (Prog.Pool.tracing (serveSweep Content.flat "b") ("b", 0) o past).2 :=
    Prog.Pool.traced_tracing (sweepSem_serveSweep Content.flat "b") ("b", 0)
  have hreach : Prog.Pool.Reach (networkSem Content.flat)
      (SweepEntry (fun _ _ => 0) nodes config.placement) (fun _ _ => False)
      (((fun _ => holder), []), []) (handedOver, _) :=
    Prog.Pool.reach_of_run hserved hentry _
  have hdropped : ∃ e ∈ handedOver.2, SweepEvent.Demotes 7 e := by decide
  have hfloor := (demotion_keeps_floor htiers hreach 7).2 hdropped
  exact ⟨by decide, hfloor.1 "a" (by decide)⟩

end IpfsNode
