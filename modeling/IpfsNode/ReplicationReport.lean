import IpfsNode.Retrieval

/-!
# What a replication report counts

A report carries names, and counts identities: however many addresses a machine
has, it is asked once and counts once. The peers asked to store the file are
the holders other than this node, those asked to cache it come from the rest of
the ranking, and only copies that were stored count towards the quorum.
-/

namespace IpfsNode

section Targets

variable {Cid : Type} {score : Score Cid} {cid : Cid} {ageMs : Nat}
variable {selfPeerId : PeerId} {peers : List ReplicationPeer} {config : ReplicationConfig}

/-! ## Whom a file is offered to -/

theorem nodup_targets :
    ((replicationTargets score cid ageMs selfPeerId peers config).map (·.peerId)).Nodup :=
  (List.filter_sublist.map _).nodup nodup_distinctPeers

theorem nodup_holders {tiers : List PlacementTier} {peerIds : List PeerId} :
    (placeFile score cid ageMs tiers selfPeerId peerIds).holders.Nodup :=
  (List.take_sublist _ _).nodup
    ((List.perm_insertionSort _ _).nodup_iff.mpr (nodup_eraseDups _))

/-- Every holder but this node is asked, and nobody else. -/
theorem targets_perm :
    ((replicationTargets score cid ageMs selfPeerId peers config).map (·.peerId)).Perm
      (storageTargets (replicationPlacement score cid ageMs selfPeerId peers config)
        selfPeerId) := by
  refine (List.perm_ext_iff_of_nodup nodup_targets (nodup_holders.filter _)).mpr fun peerId => ?_
  unfold replicationTargets
  rw [List.mem_map]
  constructor
  · rintro ⟨peer, hmem, rfl⟩
    exact of_decide_eq_true (List.mem_filter.mp hmem).2
  · intro htarget
    obtain ⟨hholder, hself⟩ := mem_storageTargets.mp htarget
    obtain ⟨peer, hpeer, rfl⟩ := List.mem_map.mp
      ((mem_of_mem_holders hholder).resolve_left hself)
    exact ⟨peer, List.mem_filter.mpr ⟨hpeer, decide_eq_true htarget⟩, rfl⟩

/-- As many holders as there can be copies. -/
theorem length_holders {tiers : List PlacementTier} {peerIds : List PeerId} :
    (placeFile score cid ageMs tiers selfPeerId peerIds).holders.length =
      (placeFile score cid ageMs tiers selfPeerId peerIds).copies := by
  have hpos : 0 < (selfPeerId :: peerIds).eraseDups.length := by
    rw [← card_network]
    exact Finset.card_pos.mpr ⟨selfPeerId, mem_network.mpr (.inl rfl)⟩
  simp only [placeFile]
  rw [List.length_take, length_rankHolders]
  unfold effectiveCopies
  omega

theorem length_le_length_filter_ne {names : List PeerId} (h : names.Nodup) (name : PeerId) :
    names.length ≤ (names.filter (· ≠ name)).length + 1 := by
  have herase : names.erase name = names.filter (· ≠ name) := by
    rw [h.erase_eq_filter]
    exact List.filter_congr fun other _ => by simp [bne, beq_eq_decide]
  rw [← herase, List.length_erase]
  split <;> omega

/-- This node is at most one of the holders, so the others are nearly all. -/
theorem copies_le_targets :
    (replicationPlacement score cid ageMs selfPeerId peers config).copies ≤
      (replicationTargets score cid ageMs selfPeerId peers config).length + 1 := by
  have hperm : ((replicationTargets score cid ageMs selfPeerId peers config).map
      (·.peerId)).Perm (storageTargets
        (replicationPlacement score cid ageMs selfPeerId peers config) selfPeerId) := targets_perm
  have hlength := hperm.length_eq
  rw [List.length_map] at hlength
  rw [hlength, replicationPlacement, ← length_holders]
  exact length_le_length_filter_ne nodup_holders selfPeerId

/-- Looking up the address of each name gives the names back. -/
theorem map_peerId_find {found : List ReplicationPeer} {peerIds : List PeerId}
    (h : ∀ peerId ∈ peerIds, peerId ∈ found.map (·.peerId)) :
    (peerIds.filterMap fun peerId => found.find? (·.peerId = peerId)).map (·.peerId) =
      peerIds := by
  induction peerIds with
  | nil => rfl
  | cons peerId peerIds ih =>
      obtain ⟨hfirst, hrest⟩ := List.forall_mem_cons.mp h
      obtain ⟨peer, hpeer, hid⟩ := List.mem_map.mp hfirst
      have hsome : (found.find? (·.peerId = peerId)).isSome := by
        rw [List.find?_isSome]
        exact ⟨peer, hpeer, decide_eq_true hid⟩
      obtain ⟨address, haddress⟩ := Option.isSome_iff_exists.mp hsome
      have hname : address.peerId = peerId := by
        simpa using List.find?_some haddress
      rw [List.filterMap_cons_some (f := fun peerId => found.find? (·.peerId = peerId)) haddress,
        List.map_cons, ih hrest, hname]

/-- The names that may be offered an unpinned copy, best first. -/
theorem map_peerId_wideningPeers :
    (wideningPeers score cid ageMs selfPeerId peers config).map (·.peerId) =
      ((rankHolders score cid ((distinctPeers peers selfPeerId).map (·.peerId))).filter
        (· ∉ (replicationTargets score cid ageMs selfPeerId peers config).map
          (·.peerId))).take CACHE_WIDENING := by
  refine map_peerId_find fun peerId hmem => ?_
  have hranked := List.mem_of_mem_filter (List.mem_of_mem_take hmem)
  rwa [mem_rankHolders] at hranked

theorem mem_distinctPeers_of_mem_wideningPeers {peer : ReplicationPeer}
    (h : peer ∈ wideningPeers score cid ageMs selfPeerId peers config) :
    peer ∈ distinctPeers peers selfPeerId := by
  obtain ⟨peerId, -, hfind⟩ := List.mem_filterMap.mp h
  exact List.mem_of_find?_eq_some hfind

/-- No identity is both asked to store the file and offered it again. -/
theorem nodup_targets_append_widening :
    ((replicationTargets score cid ageMs selfPeerId peers config).map (·.peerId) ++
      (wideningPeers score cid ageMs selfPeerId peers config).map (·.peerId)).Nodup := by
  rw [List.nodup_append, map_peerId_wideningPeers]
  refine ⟨nodup_targets, ?_, ?_⟩
  · exact (List.take_sublist _ _).nodup
      (((List.perm_insertionSort _ _).nodup_iff.mpr nodup_distinctPeers).filter _)
  · rintro peerId htarget other hother rfl
    simpa [htarget] using List.of_mem_filter (List.mem_of_mem_take hother)

end Targets

/-! ## What counts -/

section Report

variable {Cid : Type} {score : Score Cid} {cid : Cid} {ageMs : Nat}
variable {selfPeerId : PeerId} {peers : List ReplicationPeer} {config : ReplicationConfig}
variable {store : ReplicationPeer → Except CallError ReplicationStoreResult}
variable {cacheOnly : Option (ReplicationPeer → Except CallError Unit)}

/-- What the holders answered. -/
def storePhase (score : Score Cid) (cid : Cid) (ageMs : Nat) (selfPeerId : PeerId)
    (peers : List ReplicationPeer) (config : ReplicationConfig)
    (store : ReplicationPeer → Except CallError ReplicationStoreResult) : List ReplicationAck :=
  (replicationTargets score cid ageMs selfPeerId peers config).map
    fun peer => storeAttempt peer (store peer)

/-- Nobody took responsibility, though somebody has a copy. -/
def OnlyCached (attempts : List ReplicationAck) : Prop :=
  (∀ attempt ∈ attempts, attempt.outcome ≠ some .stored) ∧
    ∃ attempt ∈ attempts, attempt.outcome = some .cached

instance (attempts : List ReplicationAck) : Decidable (OnlyCached attempts) := by
  unfold OnlyCached
  infer_instance

/-- What the nodes beyond the holders answered, when they were asked at all. -/
def widenedPhase (score : Score Cid) (cid : Cid) (ageMs : Nat) (selfPeerId : PeerId)
    (peers : List ReplicationPeer) (config : ReplicationConfig)
    (store : ReplicationPeer → Except CallError ReplicationStoreResult)
    (cacheOnly : Option (ReplicationPeer → Except CallError Unit)) : List ReplicationAck :=
  match cacheOnly with
  | none => []
  | some ask =>
      if OnlyCached (storePhase score cid ageMs selfPeerId peers config store) then
        (wideningPeers score cid ageMs selfPeerId peers config).map
          fun peer => cacheAttempt peer (ask peer)
      else []

theorem nodesWith_eq_nil {outcome : PlacementOutcome} {attempts : List ReplicationAck} :
    nodesWith outcome attempts = [] ↔ ∀ attempt ∈ attempts, attempt.outcome ≠ some outcome := by
  simp [nodesWith, List.filter_eq_nil_iff]

theorem onlyCached_iff {attempts : List ReplicationAck} :
    OnlyCached attempts ↔
      ((nodesWith .stored attempts).isEmpty && !(nodesWith .cached attempts).isEmpty) = true := by
  rw [Bool.and_eq_true, List.isEmpty_iff, Bool.not_eq_true', List.isEmpty_eq_false_iff, ne_eq,
    nodesWith_eq_nil, nodesWith_eq_nil]
  simp [OnlyCached]

/-- A report lists both phases, one after the other. -/
theorem replicate_attempts (henabled : config.enabled = true) :
    (replicate score cid ageMs selfPeerId peers config store cacheOnly).attempts =
      storePhase score cid ageMs selfPeerId peers config store ++
        widenedPhase score cid ageMs selfPeerId peers config store cacheOnly := by
  simp only [replicate, henabled, Bool.not_true, Bool.false_eq_true, if_false]
  refine congrArg (storePhase score cid ageMs selfPeerId peers config store ++ ·) ?_
  cases cacheOnly with
  | none => rfl
  | some ask =>
      simp only [widenedPhase, onlyCached_iff]
      rfl

theorem map_peerId_storePhase :
    (storePhase score cid ageMs selfPeerId peers config store).map (·.peerId) =
      (replicationTargets score cid ageMs selfPeerId peers config).map (·.peerId) := by
  simp [storePhase]

theorem map_peerId_widenedPhase {ask : ReplicationPeer → Except CallError Unit} :
    (widenedPhase score cid ageMs selfPeerId peers config store (some ask)).map (·.peerId) =
      if OnlyCached (storePhase score cid ageMs selfPeerId peers config store) then
        (wideningPeers score cid ageMs selfPeerId peers config).map (·.peerId)
      else [] := by
  simp only [widenedPhase]
  split
  · simp
  · rfl

/-- A node offered an unpinned copy never counts as a replica. -/
theorem not_stored_of_mem_widenedPhase {attempt : ReplicationAck}
    (h : attempt ∈ widenedPhase score cid ageMs selfPeerId peers config store cacheOnly) :
    attempt.outcome ≠ some .stored := by
  unfold widenedPhase at h
  split at h
  · simp at h
  · split at h
    · obtain ⟨peer, -, rfl⟩ := List.mem_map.mp h
      unfold cacheAttempt
      split <;> simp
    · simp at h

/-- No identity is asked twice. -/
theorem nodup_attempts (henabled : config.enabled = true) :
    ((replicate score cid ageMs selfPeerId peers config store cacheOnly).attempts.map
      (·.peerId)).Nodup := by
  rw [replicate_attempts henabled, List.map_append, map_peerId_storePhase]
  cases cacheOnly with
  | none => simpa [widenedPhase] using nodup_targets
  | some ask =>
      rw [map_peerId_widenedPhase]
      split
      · exact nodup_targets_append_widening
      · simpa using nodup_targets

/-- Names may repeat, identities do not: the replicas are told by identity. -/
theorem length_nodesWith {outcome : PlacementOutcome} {attempts : List ReplicationAck}
    (h : (attempts.map (·.peerId)).Nodup) :
    (nodesWith outcome attempts).length =
      ((attempts.filter (·.outcome = some outcome)).map (·.peerId)).toFinset.card := by
  have hnodup : ((attempts.filter (·.outcome = some outcome)).map (·.peerId)).Nodup :=
    (List.filter_sublist.map _).nodup h
  rw [List.toFinset_card_of_nodup hnodup, nodesWith, List.length_map, List.length_map]

/-- The local copy and one for each identity that stored the file. -/
theorem acknowledged_replicate (henabled : config.enabled = true) :
    (replicate score cid ageMs selfPeerId peers config store cacheOnly).acknowledged =
      1 + (((replicate score cid ageMs selfPeerId peers config store cacheOnly).attempts.filter
        (·.outcome = some .stored)).map (·.peerId)).toFinset.card := by
  have hacknowledged :
      (replicate score cid ageMs selfPeerId peers config store cacheOnly).acknowledged =
        (nodesWith .stored (storePhase score cid ageMs selfPeerId peers config store)).length
          + 1 := by
    simp only [replicate, henabled, Bool.not_true, Bool.false_eq_true, if_false]
    rfl
  have hwidened : nodesWith .stored
      (widenedPhase score cid ageMs selfPeerId peers config store cacheOnly) = [] :=
    nodesWith_eq_nil.mpr fun _ hmem => not_stored_of_mem_widenedPhase hmem
  rw [← length_nodesWith (nodup_attempts henabled), hacknowledged, replicate_attempts henabled]
  unfold nodesWith at hwidened ⊢
  rw [List.filter_append, List.map_append, hwidened, List.append_nil, Nat.add_comm]

theorem requiredAcks_bounds {placement : Placement} (h : 1 ≤ placement.copies) :
    1 ≤ requiredAcks config placement ∧ requiredAcks config placement ≤ placement.copies := by
  unfold requiredAcks
  omega

theorem one_le_copies {tiers : List PlacementTier} {peerIds : List PeerId} :
    1 ≤ (placeFile score cid ageMs tiers selfPeerId peerIds).copies :=
  Nat.le_max_left 1 _

/-- When every holder stores the file, its placement is satisfied. -/
theorem satisfied_of_all_stored (henabled : config.enabled = true)
    (h : ∀ peer ∈ replicationTargets score cid ageMs selfPeerId peers config,
      ∃ result, store peer = .ok result ∧ result.outcome = some .stored) :
    (replicate score cid ageMs selfPeerId peers config store cacheOnly).satisfied = true := by
  have hall : ∀ attempt ∈ storePhase score cid ageMs selfPeerId peers config store,
      attempt.outcome = some .stored := by
    intro attempt hmem
    obtain ⟨peer, hpeer, rfl⟩ := List.mem_map.mp hmem
    obtain ⟨result, hstore, houtcome⟩ := h peer hpeer
    simp [storeAttempt, hstore, houtcome]
  have hlength : (nodesWith .stored
      (storePhase score cid ageMs selfPeerId peers config store)).length =
        (replicationTargets score cid ageMs selfPeerId peers config).length := by
    rw [nodesWith, List.filter_eq_self.mpr fun attempt hmem => decide_eq_true (hall attempt hmem),
      List.length_map, storePhase, List.length_map]
  have hcopies : (replicationPlacement score cid ageMs selfPeerId peers config).copies ≤
      (replicationTargets score cid ageMs selfPeerId peers config).length + 1 := copies_le_targets
  have hrequired : requiredAcks config
        (replicationPlacement score cid ageMs selfPeerId peers config) ≤
      (replicationPlacement score cid ageMs selfPeerId peers config).copies :=
    (requiredAcks_bounds one_le_copies).2
  simp only [replicate, henabled, Bool.not_true, Bool.false_eq_true, if_false, decide_eq_true_eq]
  unfold storePhase at hlength
  omega

/-- One contact for each identity: first the holders, then, when they only
cached the file, the best of the rest. The report counts the identities that
stored it, asks for no more than there can be, and says whether that is enough. -/
theorem replication_accounting (henabled : config.enabled = true) :
    let report := replicate score cid ageMs selfPeerId peers config store cacheOnly
    let placement := replicationPlacement score cid ageMs selfPeerId peers config
    let stored := storePhase score cid ageMs selfPeerId peers config store
    let widened := widenedPhase score cid ageMs selfPeerId peers config store cacheOnly
    (report.attempts = stored ++ widened ∧ (report.attempts.map (·.peerId)).Nodup) ∧
    ((stored.map (·.peerId)).Perm (storageTargets placement selfPeerId) ∧
      ∀ attempt ∈ stored, ∃ peer ∈ distinctPeers peers selfPeerId,
        attempt = storeAttempt peer (store peer)) ∧
    ((∀ ask, cacheOnly = some ask →
        widened.map (·.peerId) =
          if OnlyCached stored then
            ((rankHolders score cid ((distinctPeers peers selfPeerId).map (·.peerId))).filter
              (· ∉ storageTargets placement selfPeerId)).take CACHE_WIDENING
          else []) ∧
      ∀ attempt ∈ widened, ∃ ask, cacheOnly = some ask ∧
        ∃ peer ∈ distinctPeers peers selfPeerId, attempt = cacheAttempt peer (ask peer)) ∧
    report.acknowledged = 1 + ((report.attempts.filter
      (·.outcome = some .stored)).map (·.peerId)).toFinset.card ∧
    (1 ≤ report.required ∧ report.required ≤ report.copies) ∧
    ((∀ peer ∈ replicationTargets score cid ageMs selfPeerId peers config,
        ∃ result, store peer = .ok result ∧ result.outcome = some .stored) →
      report.satisfied = true) ∧
    (report.satisfied = true ↔ report.required ≤ report.acknowledged) := by
  intro report placement stored widened
  have hperm : (stored.map (·.peerId)).Perm (storageTargets placement selfPeerId) := by
    rw [map_peerId_storePhase]
    exact targets_perm
  have hstored : ∀ attempt ∈ stored, ∃ peer ∈ distinctPeers peers selfPeerId,
      attempt = storeAttempt peer (store peer) := by
    intro attempt hmem
    obtain ⟨peer, hpeer, rfl⟩ := List.mem_map.mp hmem
    exact ⟨peer, List.mem_of_mem_filter hpeer, rfl⟩
  have hnames : ∀ ask, cacheOnly = some ask →
      widened.map (·.peerId) =
        if OnlyCached stored then
          ((rankHolders score cid ((distinctPeers peers selfPeerId).map (·.peerId))).filter
            (· ∉ storageTargets placement selfPeerId)).take CACHE_WIDENING
        else [] := by
    rintro ask rfl
    rw [map_peerId_widenedPhase, map_peerId_wideningPeers]
    refine if_congr Iff.rfl (congrArg _ (List.filter_congr fun peerId _ => ?_)) rfl
    exact decide_eq_decide.mpr (not_congr targets_perm.mem_iff)
  have hwidened : ∀ attempt ∈ widened, ∃ ask, cacheOnly = some ask ∧
      ∃ peer ∈ distinctPeers peers selfPeerId, attempt = cacheAttempt peer (ask peer) := by
    intro attempt hmem
    unfold widened widenedPhase at hmem
    split at hmem
    · simp at hmem
    · split at hmem
      · obtain ⟨peer, hpeer, rfl⟩ := List.mem_map.mp hmem
        exact ⟨_, rfl, peer, mem_distinctPeers_of_mem_wideningPeers hpeer, rfl⟩
      · simp at hmem
  have hbounds : 1 ≤ report.required ∧ report.required ≤ report.copies := by
    simp only [report, replicate, henabled, Bool.not_true, Bool.false_eq_true, if_false]
    exact requiredAcks_bounds one_le_copies
  have hsatisfied : report.satisfied = true ↔ report.required ≤ report.acknowledged := by
    simp only [report, replicate, henabled, Bool.not_true, Bool.false_eq_true, if_false,
      decide_eq_true_eq]
  exact ⟨⟨replicate_attempts henabled, nodup_attempts henabled⟩, ⟨hperm, hstored⟩,
    ⟨hnames, hwidened⟩, acknowledged_replicate henabled, hbounds,
    satisfied_of_all_stored henabled, hsatisfied⟩

/-- A machine with two addresses caches the file, and the node after it is asked. -/
theorem replication_accounting_cached :
    ((replicate (fun _ _ => 0) () 0 "n"
      [⟨"b1", "b"⟩, ⟨"b2", "b"⟩, ⟨"c", "c"⟩] ⟨true, [⟨0, 2⟩], 2⟩
      (fun _ => .ok ⟨some .cached, none, none⟩)
      (some fun _ => .ok ())).attempts.map (·.peerId)).Nodup :=
  (@replication_accounting Unit (fun _ _ => 0) () 0 "n" [⟨"b1", "b"⟩, ⟨"b2", "b"⟩, ⟨"c", "c"⟩]
    ⟨true, [⟨0, 2⟩], 2⟩ (fun _ => .ok ⟨some .cached, none, none⟩) (some fun _ => .ok ()) rfl).1.2

end Report

end IpfsNode
