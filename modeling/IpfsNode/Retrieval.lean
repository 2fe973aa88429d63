import IpfsNode.Config
import IpfsNode.Replication
import Mathlib.Data.Finset.Card

/-!
# Networks that change

The holders of a file depend on the set of nodes alone: a node is one of them
when fewer nodes rank before it than there are copies. That is how the holders
at different ages compare, what a node that joins or leaves changes, and why a
node that asks the first few nodes of its ranking asks every holder.
-/

namespace IpfsNode

/-! ## Nodes ahead of a node -/

section Ahead

variable {Cid : Type} (score : Score Cid) (cid : Cid)

/-- All nodes that a node knows, itself included. -/
def network (selfPeerId : PeerId) (peerIds : List PeerId) : Finset PeerId :=
  (selfPeerId :: peerIds).toFinset

/-- How many nodes rank before this one. -/
def ahead (nodes : Finset PeerId) (peerId : PeerId) : Nat :=
  (nodes.filter fun node => RanksBefore score cid node peerId).card

variable {score cid} {nodes : Finset PeerId} {peerId other : PeerId}

/-- In a ranking, those among the first are those with few before them. -/
theorem mem_take_iff_of_ranked {ranked : List PeerId}
    (h : ranked.Pairwise (RanksBefore score cid)) {n : Nat} :
    peerId ∈ ranked.take n ↔ peerId ∈ ranked ∧
      (ranked.filter fun node => RanksBefore score cid node peerId).length < n := by
  induction ranked generalizing n with
  | nil => simp
  | cons first rest ih =>
      obtain ⟨hfirst, hrest⟩ := List.pairwise_cons.mp h
      cases n with
      | zero => simp
      | succ n =>
          rw [List.take_succ_cons, List.mem_cons, List.mem_cons, ih hrest]
          by_cases heq : peerId = first
          · subst heq
            have hnone : ((peerId :: rest).filter fun node =>
                RanksBefore score cid node peerId) = [] := by
              rw [List.filter_eq_nil_iff]
              intro node hnode hbefore
              rw [decide_eq_true_eq] at hbefore
              rcases List.mem_cons.mp hnode with rfl | hnode
              · exact hbefore.asymm hbefore
              · exact hbefore.asymm (hfirst node hnode)
            rw [hnone]
            simp
          · rw [or_iff_right heq, or_iff_right heq]
            refine and_congr_right fun hmem => ?_
            simp only [List.filter_cons, hfirst peerId hmem, decide_true, if_true,
              List.length_cons, Nat.succ_lt_succ_iff]

theorem ahead_toFinset {ranked : List PeerId} (h : ranked.Nodup) :
    ahead score cid ranked.toFinset peerId =
      (ranked.filter fun node => RanksBefore score cid node peerId).length := by
  have hfilter : (ranked.filter fun node => RanksBefore score cid node peerId).toFinset =
      ranked.toFinset.filter fun node => RanksBefore score cid node peerId := by
    ext node
    simp
  rw [← List.toFinset_card_of_nodup (h.filter _), hfilter, ahead]

/-- Of two nodes, more are ahead of the later one. -/
theorem ahead_lt_ahead (hmem : other ∈ nodes) (h : RanksBefore score cid other peerId) :
    ahead score cid nodes other < ahead score cid nodes peerId := by
  refine Finset.card_lt_card (Finset.ssubset_iff_of_subset ?_ |>.mpr ⟨other, ?_, ?_⟩)
  · intro node hnode
    rw [Finset.mem_filter] at hnode ⊢
    exact ⟨hnode.1, hnode.2.trans h⟩
  · exact Finset.mem_filter.mpr ⟨hmem, h⟩
  · exact fun hself => (Finset.mem_filter.mp hself).2.asymm (Finset.mem_filter.mp hself).2

theorem eq_of_ahead_eq (hmem : peerId ∈ nodes) (hother : other ∈ nodes)
    (h : ahead score cid nodes peerId = ahead score cid nodes other) : peerId = other := by
  by_contra hne
  have htotal : RanksBefore score cid peerId other ∨ RanksBefore score cid other peerId :=
    RanksBefore.total hne
  rcases htotal with hbefore | hbefore
  · exact absurd h (ahead_lt_ahead hmem hbefore).ne
  · exact absurd h (ahead_lt_ahead hother hbefore).ne'

/-- One more node puts at most itself ahead of another. -/
theorem ahead_insert_le (joined : PeerId) :
    ahead score cid nodes peerId ≤ ahead score cid (insert joined nodes) peerId ∧
      ahead score cid (insert joined nodes) peerId ≤ ahead score cid nodes peerId + 1 := by
  unfold ahead
  rw [Finset.filter_insert]
  split
  · exact ⟨Finset.card_le_card (Finset.subset_insert _ _), Finset.card_insert_le _ _⟩
  · exact ⟨le_rfl, Nat.le_succ _⟩

/-- A node is not ahead of itself. -/
theorem ahead_lt_card (hmem : peerId ∈ nodes) : ahead score cid nodes peerId < nodes.card := by
  refine Finset.card_lt_card ((Finset.ssubset_iff_of_subset (Finset.filter_subset _ _)).mpr
    ⟨peerId, hmem, fun hself => ?_⟩)
  exact (Finset.mem_filter.mp hself).2.asymm (Finset.mem_filter.mp hself).2

end Ahead

/-! ## Holders -/

section Holders

variable {Cid : Type} {score : Score Cid} {cid : Cid} {ageMs : Nat}
variable {tiers : List PlacementTier} {selfPeerId selfPeerId' peerId : PeerId}
variable {peerIds peerIds' : List PeerId}

theorem mem_network : peerId ∈ network selfPeerId peerIds ↔
    peerId = selfPeerId ∨ peerId ∈ peerIds := by
  simp [network]

theorem card_network :
    (network selfPeerId peerIds).card = (selfPeerId :: peerIds).eraseDups.length := by
  rw [← List.toFinset_card_of_nodup (nodup_eraseDups _)]
  congr 1
  ext peerId
  simp [network]

theorem copies_placeFile : (placeFile score cid ageMs tiers selfPeerId peerIds).copies =
    effectiveCopies (copiesForAge tiers ageMs) (network selfPeerId peerIds).card := by
  rw [card_network]
  rfl

theorem networkTooSmall_placeFile :
    (placeFile score cid ageMs tiers selfPeerId peerIds).networkTooSmall = true ↔
      (network selfPeerId peerIds).card ≤ copiesForAge tiers ageMs := by
  rw [card_network]
  exact decide_eq_true_iff

/-- A holder is a known node with fewer nodes ahead of it than there are copies. -/
theorem mem_holders_iff_ahead :
    peerId ∈ (placeFile score cid ageMs tiers selfPeerId peerIds).holders ↔
      peerId ∈ network selfPeerId peerIds ∧
        ahead score cid (network selfPeerId peerIds) peerId <
          effectiveCopies (copiesForAge tiers ageMs) (network selfPeerId peerIds).card := by
  have hnodup := nodup_eraseDups (selfPeerId :: peerIds)
  have hnetwork : (rankHolders score cid (selfPeerId :: peerIds).eraseDups).toFinset =
      network selfPeerId peerIds := by
    ext other
    rw [List.mem_toFinset, mem_rankHolders, List.mem_eraseDups, List.mem_cons, mem_network]
  have hnodup' : (rankHolders score cid (selfPeerId :: peerIds).eraseDups).Nodup :=
    (List.perm_insertionSort _ _).nodup_iff.mpr hnodup
  rw [holders_eq_take hnodup fun other => by rw [List.mem_eraseDups, List.mem_cons],
    mem_take_iff_of_ranked (pairwise_rankHolders hnodup), copies_placeFile, ← hnetwork,
    List.mem_toFinset, ahead_toFinset hnodup']

/-- Nodes that know the same nodes place a file alike. -/
theorem placement_agrees
    (h : network selfPeerId peerIds = network selfPeerId' peerIds') :
    (placeFile score cid ageMs tiers selfPeerId peerIds).holders =
        (placeFile score cid ageMs tiers selfPeerId' peerIds').holders ∧
      (placeFile score cid ageMs tiers selfPeerId peerIds).copies =
        (placeFile score cid ageMs tiers selfPeerId' peerIds').copies := by
  have hcopies : (placeFile score cid ageMs tiers selfPeerId peerIds).copies =
      (placeFile score cid ageMs tiers selfPeerId' peerIds').copies := by
    rw [copies_placeFile, copies_placeFile, h]
  have hmem (other : PeerId) : other = selfPeerId' ∨ other ∈ peerIds' ↔
      other ∈ (selfPeerId :: peerIds).eraseDups := by
    rw [List.mem_eraseDups, List.mem_cons, ← mem_network, ← mem_network, h]
  refine ⟨?_, hcopies⟩
  rw [holders_eq_take (nodup_eraseDups (selfPeerId :: peerIds)) hmem,
    holders_eq_take (nodup_eraseDups _) fun other => by rw [List.mem_eraseDups, List.mem_cons],
    hcopies]

/-- In a network past the desired copies, those outside the holders may drop theirs. -/
theorem mayDemote_eq_false_iff :
    mayDemote (placeFile score cid ageMs tiers selfPeerId peerIds) = false ↔
      (network selfPeerId peerIds).card ≤ copiesForAge tiers ageMs ∨
        selfPeerId ∈ (placeFile score cid ageMs tiers selfPeerId peerIds).holders := by
  have hself : (placeFile score cid ageMs tiers selfPeerId peerIds).selfIsHolder =
      decide (selfPeerId ∈ (placeFile score cid ageMs tiers selfPeerId peerIds).holders) := rfl
  have hsmall : (placeFile score cid ageMs tiers selfPeerId peerIds).networkTooSmall = true ↔
      (network selfPeerId peerIds).card ≤ copiesForAge tiers ageMs := networkTooSmall_placeFile
  rw [← hsmall]
  simp only [mayDemote, hself, Bool.and_eq_false_iff, Bool.not_eq_false', decide_eq_true_eq]

/-! ### Growing old -/

/-- An older file reaches every tier a younger one has, and later tiers ask for less. -/
theorem copiesForAge_loop_le {younger older : Nat} (hage : younger ≤ older)
    (htiers : tiers.Pairwise fun tier later => later.copies ≤ tier.copies) {copies copies' : Nat}
    (hle : copies' ≤ copies) (hbound : ∀ tier ∈ tiers, tier.copies ≤ copies') :
    tiers.foldl (fun copies tier => if tier.minAgeMs ≤ older then tier.copies else copies)
        copies' ≤
      tiers.foldl (fun copies tier => if tier.minAgeMs ≤ younger then tier.copies else copies)
        copies := by
  induction tiers generalizing copies copies' with
  | nil => exact hle
  | cons tier tiers ih =>
      obtain ⟨hlater, htiers⟩ := List.pairwise_cons.mp htiers
      obtain ⟨hfirst, hbound⟩ := List.forall_mem_cons.mp hbound
      rw [List.foldl_cons, List.foldl_cons]
      by_cases holder : tier.minAgeMs ≤ older
      · rw [if_pos holder]
        refine ih htiers ?_ hlater
        split <;> omega
      · rw [if_neg holder, if_neg (by omega)]
        exact ih htiers hle hbound

theorem TiersShrink.copiesForAge_le (htiers : TiersShrink tiers) {younger older : Nat}
    (hage : younger ≤ older) : copiesForAge tiers older ≤ copiesForAge tiers younger := by
  have hpairwise : tiers.Pairwise fun tier later => later.copies ≤ tier.copies :=
    List.isChain_iff_pairwise.mp (htiers.ordered.imp fun _ _ hstep => hstep.2)
  cases htiers' : tiers with
  | nil => exact absurd htiers' htiers.nonempty
  | cons first rest =>
      subst htiers'
      refine copiesForAge_loop_le hage hpairwise le_rfl fun tier hmem => ?_
      rcases List.mem_cons.mp hmem with rfl | hmem
      · exact le_rfl
      · exact (List.pairwise_cons.mp hpairwise).1 tier hmem

theorem effectiveCopies_mono {desired desired' : Nat} (h : desired' ≤ desired)
    (networkSize : Nat) :
    effectiveCopies desired' networkSize ≤ effectiveCopies desired networkSize := by
  unfold effectiveCopies
  omega

/-- Growing old, a file only loses holders, the lowest ranked first. -/
theorem holders_isPrefix_of_older (htiers : TiersShrink tiers) {younger older : Nat}
    (hage : younger ≤ older) :
    (placeFile score cid older tiers selfPeerId peerIds).holders <+:
      (placeFile score cid younger tiers selfPeerId peerIds).holders := by
  have hmem (other : PeerId) : other = selfPeerId ∨ other ∈ peerIds ↔
      other ∈ (selfPeerId :: peerIds).eraseDups := by
    rw [List.mem_eraseDups, List.mem_cons]
  rw [holders_eq_take (nodup_eraseDups _) hmem, holders_eq_take (nodup_eraseDups _) hmem]
  refine List.take_prefix_take_left ?_
  rw [copies_placeFile, copies_placeFile]
  exact effectiveCopies_mono (htiers.copiesForAge_le hage) _

/-! ### Nodes that join and leave -/

/-- A network of `n` nodes holding `k` copies holds as many, or one for the
node that joined when all of them held it. -/
theorem effectiveCopies_succ (desired : Nat) {networkSize : Nat} (hpos : 0 < networkSize) :
    effectiveCopies desired (networkSize + 1) = effectiveCopies desired networkSize ∨
      effectiveCopies desired networkSize = networkSize ∧
        effectiveCopies desired (networkSize + 1) = networkSize + 1 := by
  unfold effectiveCopies
  omega

/-- A node that joins takes at most one other node's copy, and gives it back
when it leaves. -/
theorem holders_change_of_insert {joined : PeerId}
    (h : network selfPeerId' peerIds' = insert joined (network selfPeerId peerIds)) :
    ∃ other, ∀ peerId, peerId ≠ joined → peerId ≠ other →
      (peerId ∈ (placeFile score cid ageMs tiers selfPeerId' peerIds').holders ↔
        peerId ∈ (placeFile score cid ageMs tiers selfPeerId peerIds).holders) := by
  simp only [mem_holders_iff_ahead]
  rw [h]
  have hpos : 0 < (network selfPeerId peerIds).card :=
    Finset.card_pos.mpr ⟨selfPeerId, mem_network.mpr (.inl rfl)⟩
  generalize network selfPeerId peerIds = nodes at hpos
  by_cases hknown : joined ∈ nodes
  · rw [Finset.insert_eq_of_mem hknown]
    exact ⟨joined, fun _ _ _ => Iff.rfl⟩
  rw [Finset.card_insert_of_notMem hknown]
  have hcopies := effectiveCopies_succ (copiesForAge tiers ageMs) hpos
  generalize effectiveCopies (copiesForAge tiers ageMs) (nodes.card + 1) = copies' at hcopies ⊢
  generalize effectiveCopies (copiesForAge tiers ageMs) nodes.card = copies at hcopies ⊢
  -- A node other than the one that joined never gains a copy, and the only one
  -- that can lose its copy is the last of the old holders.
  have hgains {peerId : PeerId} (hmem : peerId ∈ nodes)
      (hlt : ahead score cid (insert joined nodes) peerId < copies') :
      ahead score cid nodes peerId < copies := by
    have hle : ahead score cid nodes peerId ≤ ahead score cid (insert joined nodes) peerId :=
      (ahead_insert_le joined).1
    have hcard : ahead score cid nodes peerId < nodes.card := ahead_lt_card hmem
    omega
  have hloses {peerId : PeerId} (hlt : ahead score cid nodes peerId < copies)
      (hnot : ¬ahead score cid (insert joined nodes) peerId < copies') :
      ahead score cid nodes peerId + 1 = copies := by
    have hle : ahead score cid (insert joined nodes) peerId ≤ ahead score cid nodes peerId + 1 :=
      (ahead_insert_le joined).2
    omega
  by_cases hlast : ∃ other ∈ nodes, ahead score cid nodes other + 1 = copies
  · obtain ⟨other, hother, hlast⟩ := hlast
    refine ⟨other, fun peerId hjoined hne => ?_⟩
    rw [Finset.mem_insert, or_iff_right hjoined]
    refine and_congr_right fun hmem => ⟨hgains hmem, fun hlt => ?_⟩
    by_contra hnot
    have heq := hloses hlt hnot
    have hsame : ahead score cid nodes peerId = ahead score cid nodes other := by omega
    exact hne (eq_of_ahead_eq hmem hother hsame)
  · refine ⟨joined, fun peerId hjoined _ => ?_⟩
    rw [Finset.mem_insert, or_iff_right hjoined]
    refine and_congr_right fun hmem => ⟨hgains hmem, fun hlt => ?_⟩
    by_contra hnot
    exact hlast ⟨peerId, hmem, hloses hlt hnot⟩

end Holders

/-! ## Whom to ask -/

/-- Nodes asked beyond the designated holders. -/
def RETRIEVAL_WIDENING : Nat := 2

section Retrieval

variable {Cid : Type} (score : Score Cid) (cid : Cid)

/-- The nodes worth asking for a CID this node does not hold. A policy without
tiers has no widest one, and its ranking is cut to nothing. -/
def retrievalTargets (config : ReplicationConfig) (selfPeerId : PeerId)
    (peers : List ReplicationPeer) (widening : Nat) : List ReplicationPeer :=
  if !config.enabled then peers
  else
    let ranked := rankHolders score cid (selfPeerId :: peers.map (·.peerId))
    let wanted := match (config.placement.map (·.copies)).max? with
      | none => []
      | some widest => ranked.take (widest + widening)
    peers.filter fun peer => peer.peerId ∈ wanted

variable {score cid} {config : ReplicationConfig} {selfPeerId peerId : PeerId}
variable {peers : List ReplicationPeer} {widening : Nat} {peer : ReplicationPeer}

theorem mem_of_mem_retrievalTargets
    (h : peer ∈ retrievalTargets score cid config selfPeerId peers widening) : peer ∈ peers := by
  unfold retrievalTargets at h
  split at h
  · exact h
  · exact List.mem_of_mem_filter h

/-- A ranking keeps repeated names next to each other, so no later one ranks
before an earlier one. -/
theorem pairwise_insertionSort_ranks (peerIds : List PeerId) :
    (rankHolders score cid peerIds).Pairwise fun first later =>
      ¬RanksBefore score cid later first := by
  unfold rankHolders
  induction peerIds with
  | nil => simp
  | cons first rest ih =>
      rw [List.insertionSort_cons]
      generalize rest.insertionSort (RanksBefore score cid) = ranked at ih
      induction ranked with
      | nil => simp
      | cons node ranked ihr =>
          obtain ⟨hnode, hranked⟩ := List.pairwise_cons.mp ih
          by_cases hbefore : RanksBefore score cid first node
          · rw [List.orderedInsert_cons_of_le _ _ hbefore, List.pairwise_cons]
            refine ⟨fun later hlater hrank => ?_, ih⟩
            rcases List.mem_cons.mp hlater with rfl | hlater
            · exact hbefore.asymm hrank
            · exact hnode later hlater (hrank.trans hbefore)
          · rw [List.orderedInsert_of_not_le _ _ hbefore, List.pairwise_cons]
            refine ⟨fun later hlater => ?_, ihr hranked⟩
            rcases (List.mem_orderedInsert _).mp hlater with rfl | hlater
            · exact hbefore
            · exact hnode later hlater

/-- Who has few before it is among the first, whatever is repeated. -/
theorem mem_take_of_few_before {ranked : List PeerId}
    (h : ranked.Pairwise fun first later => ¬RanksBefore score cid later first) {n : Nat}
    (hmem : peerId ∈ ranked)
    (hfew : (ranked.filter fun node => RanksBefore score cid node peerId).length < n) :
    peerId ∈ ranked.take n := by
  induction ranked generalizing n with
  | nil => simp at hmem
  | cons first rest ih =>
      obtain ⟨hfirst, hrest⟩ := List.pairwise_cons.mp h
      cases n with
      | zero => simp at hfew
      | succ n =>
          rw [List.take_succ_cons, List.mem_cons]
          by_cases heq : peerId = first
          · exact .inl heq
          · have hmem := (List.mem_cons.mp hmem).resolve_left heq
            have hbefore : RanksBefore score cid first peerId :=
              (RanksBefore.total heq).resolve_left (hfirst peerId hmem)
            simp only [List.filter_cons, hbefore, decide_true, if_true, List.length_cons] at hfew
            exact .inr (ih hrest hmem (by omega))

/-- The widest tier bounds the copies of every age. -/
theorem copiesForAge_le_of_max? {tiers : List PlacementTier} {widest : Nat}
    (h : (tiers.map (·.copies)).max? = some widest) (ageMs : Nat) :
    copiesForAge tiers ageMs ≤ widest := by
  have hle (tier : PlacementTier) (hmem : tier ∈ tiers) : tier.copies ≤ widest :=
    (List.max?_eq_some_iff.mp h).2 _ (List.mem_map_of_mem hmem)
  unfold copiesForAge
  rcases copiesForAge_loop ageMs ((tiers.head?.map (·.copies)).getD 1) tiers
    with hloop | ⟨tier, hmem, hloop⟩
  · rw [hloop]
    cases tiers with
    | nil => simp at h
    | cons first rest => exact hle first List.mem_cons_self
  · rw [hloop]
    exact hle tier hmem

/-- A holder has at most the nodes ahead of it and one repeated name before it. -/
theorem mem_retrievalTargets_of_mem_storageTargets (hnonempty : config.placement ≠ [])
    (hnodup : (peers.map (·.peerId)).Nodup) (hwidening : 2 ≤ widening) {ageMs : Nat}
    (h : peerId ∈ storageTargets (placeFile score cid ageMs config.placement selfPeerId
      (peers.map (·.peerId))) selfPeerId) :
    peerId ∈ (retrievalTargets score cid config selfPeerId peers widening).map (·.peerId) := by
  obtain ⟨hholder, hself⟩ := mem_storageTargets.mp h
  have hmem : peerId ∈ peers.map (·.peerId) := (mem_of_mem_holders hholder).resolve_left hself
  obtain ⟨peer, hpeer, rfl⟩ := List.mem_map.mp hmem
  refine List.mem_map.mpr ⟨peer, ?_, rfl⟩
  unfold retrievalTargets
  split
  · exact hpeer
  obtain ⟨widest, hwidest⟩ := Option.isSome_iff_exists.mp (List.isSome_max?_of_ne_nil
    (List.map_eq_nil_iff (f := (·.copies)).not.mpr hnonempty))
  simp only [hwidest]
  rw [List.mem_filter, decide_eq_true_eq]
  refine ⟨hpeer, mem_take_of_few_before (pairwise_insertionSort_ranks _)
    ((mem_rankHolders _ _).mpr (List.mem_cons_of_mem _ hmem)) ?_⟩
  -- Before it come the peers ahead of it, and this node once more when it is
  -- among its own peers.
  have hperm : (rankHolders score cid (selfPeerId :: peers.map (·.peerId))).Perm
      (selfPeerId :: peers.map (·.peerId)) := List.perm_insertionSort _ _
  have hbefore := (hperm.filter fun node => RanksBefore score cid node peer.peerId).length_eq
  have hpeers : ahead score cid (peers.map (·.peerId)).toFinset peer.peerId ≤
      ahead score cid (network selfPeerId (peers.map (·.peerId))) peer.peerId :=
    Finset.card_le_card (Finset.filter_subset_filter _ fun node hnode =>
      mem_network.mpr (.inr (List.mem_toFinset.mp hnode)))
  have hahead := (mem_holders_iff_ahead.mp hholder).2
  have hcopies : effectiveCopies (copiesForAge config.placement ageMs)
      (network selfPeerId (peers.map (·.peerId))).card ≤ max 1 widest := by
    have := copiesForAge_le_of_max? hwidest ageMs
    unfold effectiveCopies
    omega
  rw [ahead_toFinset hnodup] at hpeers
  rw [hbefore, List.filter_cons]
  split
  · rw [List.length_cons]
    omega
  · omega

/-- Under every accepted policy: nodes that know the same nodes place a file
alike; a file only loses holders as it ages; a node that joins or leaves moves
at most one copy of another; the holders are those that keep their copy, and in
a network of no more nodes than copies no node may drop its own; and a node
without the file asks all its holders and never itself. -/
theorem placement_agreed_nested_stable {raw : ConfigValue}
    (hplacement : resolvePlacement raw DEFAULT_PLACEMENT = .ok config.placement) :
    (∀ ageMs selfPeerId selfPeerId' peerIds peerIds',
      network selfPeerId peerIds = network selfPeerId' peerIds' →
      (placeFile score cid ageMs config.placement selfPeerId peerIds).holders =
          (placeFile score cid ageMs config.placement selfPeerId' peerIds').holders ∧
        (placeFile score cid ageMs config.placement selfPeerId peerIds).copies =
          (placeFile score cid ageMs config.placement selfPeerId' peerIds').copies) ∧
    (∀ younger older selfPeerId peerIds, younger ≤ older →
      (placeFile score cid older config.placement selfPeerId peerIds).holders <+:
        (placeFile score cid younger config.placement selfPeerId peerIds).holders) ∧
    (∀ ageMs selfPeerId selfPeerId' peerIds peerIds' changed,
      network selfPeerId' peerIds' = insert changed (network selfPeerId peerIds) ∨
        network selfPeerId peerIds = insert changed (network selfPeerId' peerIds') →
      ∃ other, ∀ peerId, peerId ≠ changed → peerId ≠ other →
        (peerId ∈ (placeFile score cid ageMs config.placement selfPeerId' peerIds').holders ↔
          peerId ∈ (placeFile score cid ageMs config.placement selfPeerId peerIds).holders)) ∧
    (∀ ageMs selfPeerId peerIds,
      ((placeFile score cid ageMs config.placement selfPeerId peerIds).desiredCopies <
          (network selfPeerId peerIds).card →
        (mayDemote (placeFile score cid ageMs config.placement selfPeerId peerIds) = false ↔
          selfPeerId ∈
            (placeFile score cid ageMs config.placement selfPeerId peerIds).holders)) ∧
      ((network selfPeerId peerIds).card ≤
          (placeFile score cid ageMs config.placement selfPeerId peerIds).desiredCopies →
        mayDemote (placeFile score cid ageMs config.placement selfPeerId peerIds) = false)) ∧
    (∀ selfPeerId (peers : List ReplicationPeer), (peers.map (·.peerId)).Nodup →
      (∀ ageMs, ∀ peerId ∈ storageTargets (placeFile score cid ageMs config.placement selfPeerId
          (peers.map (·.peerId))) selfPeerId,
        peerId ∈ (retrievalTargets score cid config selfPeerId peers
          RETRIEVAL_WIDENING).map (·.peerId)) ∧
      (selfPeerId ∉ peers.map (·.peerId) →
        selfPeerId ∉ (retrievalTargets score cid config selfPeerId peers
          RETRIEVAL_WIDENING).map (·.peerId))) := by
  have htiers := tiersShrink_of_resolvePlacement hplacement
  refine ⟨fun _ _ _ _ _ h => placement_agrees h,
    fun _ _ _ _ hage => holders_isPrefix_of_older htiers hage, ?_, ?_, ?_⟩
  · rintro ageMs selfPeerId selfPeerId' peerIds peerIds' changed (h | h)
    · exact holders_change_of_insert h
    · obtain ⟨other, hother⟩ := holders_change_of_insert h
      exact ⟨other, fun peerId hchanged hne => (hother peerId hchanged hne).symm⟩
  · intro ageMs selfPeerId peerIds
    have hdesired : (placeFile score cid ageMs config.placement selfPeerId peerIds).desiredCopies =
        copiesForAge config.placement ageMs := rfl
    rw [hdesired]
    exact ⟨fun hlarge => by rw [mayDemote_eq_false_iff, or_iff_right (by omega)],
      fun hsmall => mayDemote_eq_false_iff.mpr (.inl hsmall)⟩
  · intro selfPeerId peers hnodup
    refine ⟨fun ageMs peerId htarget =>
      mem_retrievalTargets_of_mem_storageTargets htiers.nonempty hnodup le_rfl htarget,
      fun hself hasked => hself ?_⟩
    obtain ⟨peer, hpeer, heq⟩ := List.mem_map.mp hasked
    exact List.mem_map.mpr ⟨peer, mem_of_mem_retrievalTargets hpeer, heq⟩

/-- Two of three nodes with equal scores, each listing the others its own way. -/
theorem placement_agreed_of_three :
    (placeFile (fun _ _ => 0) () 0 DEFAULT_PLACEMENT "a" ["b", "c", "b"]).holders =
      (placeFile (fun _ _ => 0) () 0 DEFAULT_PLACEMENT "b" ["c", "a"]).holders :=
  ((@placement_agreed_nested_stable Unit (fun _ _ => 0) () ⟨true, DEFAULT_PLACEMENT, 2⟩ .undefined
    rfl).1 0 "a" "b" ["b", "c", "b"] ["c", "a"] (by decide)).1

end Retrieval

end IpfsNode
