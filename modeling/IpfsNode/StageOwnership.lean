import IpfsNode.Execution
import IpfsNode.Operations

/-!
# Who owns a staged transaction

Any peer may ask this node to stage, commit or abort a copy under any
transaction id it likes, also one that another peer uses. The stage of a record
remembers which peer staged which transaction, and abort markers remember which
peer withdrew which.

`stage_ownership` follows a node through any sequence of such requests: a claim
answers to the peer that made it, and a marker only to the peer that left it.
Each half is a policy that the requests of the other peers keep.
-/

namespace IpfsNode

/-! ## Requests of peers -/

section Requests

variable {Cid : Type}

/-- The transaction a replication request names. -/
def NodeOp.transaction : NodeOp Cid → Option (Cid × TransactionId)
  | .run (.stageReplica options _) => some (options.cid, options.transactionId)
  | .run (.commitReplica options) => some (options.cid, options.transactionId)
  | .run (.abortReplica options) => some (options.cid, options.transactionId)
  | _ => none

/-- A request about a transaction, with the identity of the connection. -/
def IsPeerRequest (peer : PeerId) : NodeOp Cid → Prop
  | .run (.stageReplica options _) => options.originPeerId = some peer
  | .run (.commitReplica options) => options.peerId = some peer
  | .run (.abortReplica options) => options.peerId = some peer
  | _ => False

/-- What happened at the node, by the peer that asked for it. -/
abbrev PeerEvent (Cid : Type) :=
  Prog.Pool.Event PeerId (NodeOp Cid) NodeOp.Ret (LifecycleError Cid) (World Cid)

def PeerEvent.Valid : PeerEvent Cid → Prop
  | .request peer o _ _ _ => peer ≠ "" ∧ IsPeerRequest peer o
  | .reset _ _ => True

/-- The peer withdrew the transaction. -/
def PeerEvent.Aborts (cid : Cid) (transactionId : TransactionId) (peer : PeerId) :
    PeerEvent Cid → Prop
  | .request peer' (.run (.abortReplica options)) _ _ _ =>
      peer' = peer ∧ options.cid = cid ∧ options.transactionId = transactionId
  | _ => False

variable [DecidableEq Cid]

def World.stage (w : World Cid) (cid : Cid) : Option ReplicaStage :=
  (w.files.get cid).bind (·.replicaStage)

/-- The record lists the transaction, with that origin. -/
def World.Stages (w : World Cid) (cid : Cid) (transactionId : TransactionId)
    (origin : Option PeerId) : Prop :=
  ∃ stage, w.stage cid = some stage ∧ transactionId ∈ stage.transactionIds
    ∧ stage.origin transactionId = origin

/-- The marker stops a stage of the peer. -/
def AbortKey.Blocks (key : AbortKey Cid) (cid : Cid) (transactionId : TransactionId)
    (peer : PeerId) : Prop :=
  key = transactionKey cid transactionId none ∨ key = transactionKey cid transactionId (some peer)

/-- Some marker of the process stops a stage of the peer. -/
def World.Blocked (w : World Cid) (cid : Cid) (transactionId : TransactionId)
    (peer : PeerId) : Prop :=
  ∃ marker ∈ w.proc.abortedTransactions, marker.1.Blocks cid transactionId peer

end Requests

/-! ## Origins of a stage -/

section Origins

variable {transactionId other : TransactionId}

theorem lookup_filter_ne {origins : List (TransactionId × PeerId)} (hne : transactionId ≠ other) :
    (origins.filter (·.1 ≠ other)).lookup transactionId = origins.lookup transactionId := by
  induction origins with
  | nil => rfl
  | cons entry rest ih =>
      obtain ⟨id, peer⟩ := entry
      by_cases hid : id = other
      · subst hid
        rw [List.filter_cons_of_neg (by simp), ih, List.lookup_cons, beq_false_of_ne hne]
      · rw [List.filter_cons_of_pos (by simpa using hid), List.lookup_cons, List.lookup_cons, ih]

theorem origin_withOrigin_of_ne {stage : ReplicaStage} {ids : List TransactionId}
    {peer : Option PeerId} (hne : transactionId ≠ other) :
    ReplicaStage.origin { stage with
      transactionIds := ids, origins := withOrigin stage.origins other peer } transactionId
      = stage.origin transactionId := by
  unfold ReplicaStage.origin withOrigin
  cases peer with
  | none => rfl
  | some peer =>
      have hlast : List.lookup transactionId [(other, peer)] = none := by simp [hne]
      rw [Option.bind_some, List.lookup_append, lookup_filter_ne hne, hlast, Option.or_none]
      cases stage.origins <;> rfl

/-- The peer that stages a transaction becomes its origin. -/
theorem origin_withOrigin {stage : ReplicaStage} {ids : List TransactionId} {peer : PeerId} :
    ReplicaStage.origin { stage with
      transactionIds := ids, origins := withOrigin stage.origins transactionId (some peer) }
      transactionId = some peer := by
  have hnone : ((stage.origins.getD []).filter (·.1 ≠ transactionId)).lookup transactionId
      = none := by
    rw [List.lookup_eq_none_iff]
    intro entry hmem
    have hne : entry.1 ≠ transactionId := by simpa using (List.mem_filter.mp hmem).2
    simpa using hne.symm
  show List.lookup _ _ = _
  rw [List.lookup_append, hnone]
  simp

theorem origin_withoutOrigin_of_ne {stage : ReplicaStage} {ids : List TransactionId}
    (hne : transactionId ≠ other) :
    ReplicaStage.origin { stage with
      transactionIds := ids, origins := withoutOrigin stage.origins other } transactionId
      = stage.origin transactionId := by
  have hlookup : ((stage.origins.getD []).filter (·.1 ≠ other)).lookup transactionId = _ :=
    lookup_filter_ne hne
  have hold : stage.origin transactionId = (stage.origins.getD []).lookup transactionId := by
    unfold ReplicaStage.origin
    cases stage.origins <;> rfl
  rw [hold, ← hlookup]
  unfold ReplicaStage.origin withoutOrigin
  split
  · rename_i hempty
    rw [hempty]
    rfl
  · rfl

/-- Only listed transactions have an origin, and each is listed once. -/
theorem World.stage_valid {Cid : Type} [DecidableEq Cid] {w : World Cid} {cid : Cid}
    {stage : ReplicaStage} (h : w.stage cid = some stage) :
    stage.transactionIds.Nodup ∧
      ∀ id, (stage.origin id).isSome = true → id ∈ stage.transactionIds := by
  obtain ⟨record, hget, hstage⟩ := Option.bind_eq_some_iff.mp h
  have hvalid := Registry.valid_of_get hget
  have hvalid : isReplicaStage stage = true := by
    unfold isFileRecord at hvalid
    rw [hstage] at hvalid
    simp only [Bool.and_eq_true] at hvalid
    exact hvalid.2.2
  simp only [isReplicaStage, Bool.and_eq_true, decide_eq_true_eq, List.all_eq_true] at hvalid
  refine ⟨hvalid.1.1.2, fun id hsome => ?_⟩
  obtain ⟨peer, hpeer⟩ := Option.isSome_iff_exists.mp hsome
  obtain ⟨origins, horigins, hlookup⟩ := Option.bind_eq_some_iff.mp hpeer
  obtain ⟨before, after, hsplit, -⟩ := List.lookup_eq_some_iff.mp hlookup
  have hmem : (id, peer) ∈ stage.origins.getD [] := by
    rw [horigins, Option.getD_some, hsplit]
    simp
  exact (hvalid.2 (id, peer) hmem).1

end Origins

/-! ## Keys of abort markers -/

section Keys

variable {Cid : Type}

/-- The key as the code writes it, with a NUL after the CID and after the id. -/
def AbortKey.text (text : Cid → String) (key : AbortKey Cid) : String :=
  text key.cid ++ "\x00" ++ key.transactionId ++ "\x00" ++ key.originPeerId

def NulFree (s : String) : Prop := Char.ofNat 0 ∉ s.toList

theorem append_cons_inj_of_notMem_left {α : Type} {sep : α} {front front' back back' : List α}
    (h : sep ∉ front) (h' : sep ∉ front')
    (heq : front ++ sep :: back = front' ++ sep :: back') : front = front' ∧ back = back' := by
  induction front generalizing front' with
  | nil =>
      cases front' with
      | nil => exact ⟨rfl, (List.cons.inj heq).2⟩
      | cons a rest => exact absurd (List.cons.inj heq).1 fun hsep => h' (hsep ▸ List.mem_cons_self)
  | cons a rest ih =>
      cases front' with
      | nil =>
          exact absurd (List.cons.inj heq).1.symm fun hsep => h (hsep ▸ List.mem_cons_self)
      | cons b rest' =>
          obtain ⟨rfl, htail⟩ := List.cons.inj heq
          rw [List.mem_cons, not_or] at h h'
          obtain ⟨rfl, hback⟩ := ih h.2 h'.2 htail
          exact ⟨rfl, hback⟩

/-- Whatever the transaction id contains, the text of a key gives the key back:
the first NUL ends the CID and the last one begins the origin. -/
theorem AbortKey.text_injective {text : Cid → String} (htext : Function.Injective text)
    (hcid : ∀ cid, NulFree (text cid)) {key key' : AbortKey Cid}
    (h : NulFree key.originPeerId) (h' : NulFree key'.originPeerId)
    (heq : key.text text = key'.text text) : key = key' := by
  obtain ⟨cid, transactionId, origin⟩ := key
  obtain ⟨cid', transactionId', origin'⟩ := key'
  have hlist := congrArg String.toList heq
  simp only [AbortKey.text, String.toList_append, List.append_assoc] at hlist
  have hnul : "\x00".toList = [Char.ofNat 0] := rfl
  rw [hnul, List.singleton_append, List.singleton_append, List.singleton_append,
    List.singleton_append] at hlist
  obtain ⟨hfront, hback⟩ := append_cons_inj_of_notMem_left (hcid cid) (hcid cid') hlist
  have hreverse := congrArg List.reverse hback
  simp only [List.reverse_append, List.reverse_cons, List.append_assoc,
    List.singleton_append] at hreverse
  obtain ⟨hlast, hmid⟩ := append_cons_inj_of_notMem_left
    (fun hmem => h (List.mem_reverse.mp hmem)) (fun hmem => h' (List.mem_reverse.mp hmem)) hreverse
  obtain rfl := htext (String.toList_injective hfront)
  obtain rfl := String.toList_injective (List.reverse_injective hmid)
  obtain rfl := String.toList_injective (List.reverse_injective hlast)
  rfl

end Keys

/-! ## What the requests of other peers leave alone -/

section Policies

variable {Cid : Type} [DecidableEq Cid]

/-- The claim stays, with its origin. -/
def claimPolicy (cid : Cid) (transactionId : TransactionId) (origin : Option PeerId) :
    Policy Cid where
  record cid' record := cid' = cid → ∃ stored stage, record = some stored ∧
    stored.replicaStage = some stage ∧ transactionId ∈ stage.transactionIds
      ∧ stage.origin transactionId = origin
  pin _ := False
  process _ := True
  stamped := by
    intro cid' record n h heq
    obtain ⟨_, stage, ⟨⟩, hstage⟩ := h heq
    exact ⟨_, stage, rfl, hstage⟩

/-- The transaction is not listed without an origin. -/
def originPolicy (cid : Cid) (transactionId : TransactionId) : Policy Cid where
  record cid' record := cid' = cid → ∀ stored stage, record = some stored →
    stored.replicaStage = some stage → transactionId ∈ stage.transactionIds →
      stage.origin transactionId ≠ none
  pin _ := False
  process _ := True
  stamped := by
    rintro cid' record n h heq _ stage ⟨⟩
    exact h heq record stage rfl

/-- No marker stops the peer. -/
def unblockedPolicy (cid : Cid) (transactionId : TransactionId) (peer : PeerId) :
    Policy Cid where
  record _ _ := True
  pin _ := False
  process proc := ∀ marker ∈ proc.abortedTransactions,
    ¬ marker.1.Blocks cid transactionId peer
  stamped _ := id

variable {w w' : World Cid} {cid : Cid} {transactionId : TransactionId}
variable {origin : Option PeerId} {peer : PeerId}

theorem holds_claimPolicy :
    (claimPolicy cid transactionId origin).Holds w ↔ w.Stages cid transactionId origin := by
  constructor
  · intro h
    obtain ⟨stored, stage, hget, hstage, hclaim⟩ := h.record cid rfl
    exact ⟨stage, Option.bind_eq_some_iff.mpr ⟨stored, hget, hstage⟩, hclaim⟩
  · rintro ⟨stage, hstage, hclaim⟩
    obtain ⟨stored, hget, hstored⟩ := Option.bind_eq_some_iff.mp hstage
    refine ⟨?_, fun _ => False.elim, trivial, fun _ => False.elim⟩
    rintro cid' rfl
    exact ⟨stored, stage, hget, hstored, hclaim⟩

theorem holds_originPolicy :
    (originPolicy cid transactionId).Holds w ↔ ¬ w.Stages cid transactionId none := by
  constructor
  · rintro h ⟨stage, hstage, hmem, horigin⟩
    obtain ⟨stored, hget, hstage⟩ := Option.bind_eq_some_iff.mp hstage
    exact h.record cid rfl stored stage hget hstage hmem horigin
  · intro h
    refine ⟨?_, fun _ => False.elim, trivial, fun _ => False.elim⟩
    rintro cid' rfl stored stage hget hstage hmem horigin
    exact h ⟨stage, Option.bind_eq_some_iff.mpr ⟨stored, hget, hstage⟩, hmem, horigin⟩

theorem holds_unblockedPolicy :
    (unblockedPolicy cid transactionId peer).Holds w ↔ ¬ w.Blocked cid transactionId peer := by
  unfold World.Blocked
  push Not
  exact ⟨fun h => h.process, fun h => ⟨fun _ => trivial, fun _ => False.elim, h, fun _ => False.elim⟩⟩

omit [DecidableEq Cid] in
theorem mem_of_dropOldest {aborted : List (AbortKey Cid × Nat)} {marker : AbortKey Cid × Nat}
    (h : marker ∈ dropOldest aborted) : marker ∈ aborted := by
  induction aborted with
  | nil => exact h
  | cons oldest rest ih =>
      unfold dropOldest at h
      split at h
      · exact List.mem_cons_of_mem _ (ih h)
      · exact h

omit [DecidableEq Cid] in
theorem mem_of_prune {aborted : List (AbortKey Cid × Nat)} {now : Nat}
    {marker : AbortKey Cid × Nat} (h : marker ∈ pruneAbortTombstones aborted now) :
    marker ∈ aborted :=
  List.mem_of_mem_filter (mem_of_dropOldest h)

theorem mem_of_rememberAbort {aborted : List (AbortKey Cid × Nat)} {expiresAt now : Nat}
    {origin : Option PeerId} {marker : AbortKey Cid × Nat}
    (h : marker ∈ rememberAbort aborted cid transactionId expiresAt now origin) :
    marker ∈ aborted ∨ marker.1 = transactionKey cid transactionId origin := by
  have h := mem_of_prune h
  unfold setTombstone at h
  split at h
  · obtain ⟨old, hold, hmarker⟩ := List.mem_map.mp h
    split at hmarker
    · exact .inr (hmarker ▸ rfl)
    · exact .inl (hmarker ▸ mem_of_prune hold)
  · rcases List.mem_append.mp h with h | h
    · exact .inl (mem_of_prune h)
    · exact .inr (by rw [List.mem_singleton.mp h])

/-! ### Stage -/

variable {content : Content Cid} {faults : Faults Cid} {name : String}

/-- A stage keeps every claim there is. -/
theorem stages_claimPolicy {options : ReplicaStageTarget Cid} :
    (claimPolicy cid transactionId origin).Stages options name where
  prune _ _ := trivial
  join := by
    intro previous stage _ hread hstage heq
    have hcid : options.cid = cid := (hread.2 previous rfl).symm.trans heq
    obtain ⟨_, _, ⟨⟩, hstage', hmem, horigin⟩ := hread.1 hcid
    rw [hstage] at hstage'
    cases hstage'
    refine ⟨_, _, rfl, rfl, ?_, ?_⟩
    · dsimp only
      split
      · exact hmem
      · exact List.mem_append_left _ hmem
    · by_cases hold : options.transactionId ∈ stage.transactionIds
      · unfold ReplicaStage.origin at horigin ⊢
        simpa only [hold, if_true] using horigin
      · have hne : transactionId ≠ options.transactionId := fun heq => hold (heq ▸ hmem)
        simp only [hold, if_false]
        exact (origin_withOrigin_of_ne hne).trans horigin
  stable := by
    intro previous stats hread hbegin heq
    obtain ⟨stored, stage, rfl, hstage, -⟩ := hread.1 heq
    rw [(hbegin stored rfl).1] at hstage
    cases hstage
  staged := by
    intro previous stats _ hread hbegin _ heq
    obtain ⟨stored, stage, rfl, hstage, -⟩ := hread.1 heq
    rw [(hbegin stored rfl).1] at hstage
    cases hstage

theorem stages_originPolicy {options : ReplicaStageTarget Cid}
    (hpeer : options.originPeerId = some peer) :
    (originPolicy cid transactionId).Stages options name where
  prune _ _ := trivial
  join := by
    rintro previous stage _ hread hstage heq _ joined ⟨⟩ ⟨⟩ hmem
    have hcid : options.cid = cid := (hread.2 previous rfl).symm.trans heq
    have hold := hread.1 hcid previous stage rfl hstage
    by_cases hlisted : options.transactionId ∈ stage.transactionIds
    · simp only [hlisted, if_true] at hmem ⊢
      exact hold hmem
    · simp only [hlisted, if_false, List.mem_append, List.mem_singleton] at hmem ⊢
      by_cases hne : transactionId = options.transactionId
      · rw [hne, hpeer, origin_withOrigin]
        exact Option.some_ne_none peer
      · rw [origin_withOrigin_of_ne hne]
        exact hold (hmem.resolve_right hne)
  stable := by
    rintro previous stats _ _ _ _ stage ⟨⟩ ⟨⟩
  staged := by
    rintro previous stats _ _ _ _ _ _ stage ⟨⟩ ⟨⟩ hmem
    obtain rfl := List.mem_singleton.mp hmem
    rw [hpeer]
    let before : ReplicaStage := ⟨[], none, previous.map fun record =>
      { expiresAt := record.expiresAt, confirmedAt := record.confirmedAt }⟩
    have horigin : ReplicaStage.origin { before with
        transactionIds := [options.transactionId]
        origins := withOrigin before.origins options.transactionId (some peer) }
        options.transactionId = some peer := origin_withOrigin
    exact fun hnone => Option.some_ne_none peer (horigin.symm.trans hnone)

theorem stages_unblockedPolicy {options : ReplicaStageTarget Cid} :
    (unblockedPolicy cid transactionId peer).Stages options name where
  prune _ h marker hmem := h marker (mem_of_prune hmem)
  join _ _ _ _ _ := trivial
  stable _ _ _ _ := trivial
  staged _ _ _ _ _ _ := trivial

/-! ### Abort -/

/-- The owner of a claim is the only peer the check lets through. -/
theorem isStageOwner_some {owner : PeerId} :
    isStageOwner origin (some owner) = true ↔ origin = none ∨ origin = some owner := by
  unfold isStageOwner
  cases origin <;> simp

theorem safe_abortReplica_claimPolicy {options : SettleReplicaOptions Cid} {owner : PeerId}
    (hpeer : options.peerId = some peer) (hne : peer ≠ owner) :
    Safe content (claimPolicy cid transactionId (some owner)) (abortReplica options) := by
  refine safe_abortReplica (fun _ _ => trivial) fun current stage hread hstage howner => ?_
  obtain ⟨hstage, hlisted⟩ := FileRecord.stageOf_eq_some.mp hstage
  rw [hpeer, isStageOwner_some] at howner
  have hcid : current.cid = options.cid := hread.2 current rfl
  -- the transaction that is withdrawn is another one
  have hother : current.cid = cid → transactionId ∈ stage.transactionIds ∧
      stage.origin transactionId = some owner ∧ transactionId ≠ options.transactionId := by
    intro heq
    obtain ⟨_, _, ⟨⟩, hstage', hmem, horigin⟩ := hread.1 (hcid.symm.trans heq)
    rw [hstage] at hstage'
    cases hstage'
    refine ⟨hmem, horigin, ?_⟩
    rintro rfl
    rw [horigin] at howner
    rcases howner with howner | howner
    · cases howner
    · exact hne (Option.some.inj howner).symm
  refine ⟨fun hlast => ?_, fun _ heq => ?_⟩
  · have hnot : current.cid ≠ cid := fun heq =>
      (hother heq).2.2 (hlast _ (hother heq).1)
    exact ⟨id, fun heq => absurd heq hnot, fun heq => absurd heq hnot⟩
  · obtain ⟨hmem, horigin, hid⟩ := hother heq
    refine ⟨_, _, rfl, rfl, ?_, (origin_withoutOrigin_of_ne hid).trans horigin⟩
    exact List.mem_filter.mpr ⟨hmem, by simpa using hid⟩

theorem safe_abortReplica_originPolicy {options : SettleReplicaOptions Cid} :
    Safe content (originPolicy cid transactionId) (abortReplica options) := by
  refine safe_abortReplica (fun _ _ => trivial) fun current stage hread hstage _ => ?_
  obtain ⟨hstage, -⟩ := FileRecord.stageOf_eq_some.mp hstage
  refine ⟨fun _ => ⟨id, ?_, ?_⟩, ?_⟩
  · rintro _ _ _ ⟨⟩ ⟨⟩
  · rintro _ _ _ ⟨⟩
  · rintro _ heq _ _ ⟨⟩ ⟨⟩ hmem
    have hcid : options.cid = cid := (hread.2 current rfl).symm.trans heq
    obtain ⟨hmem, hid⟩ := List.mem_filter.mp hmem
    have hid : transactionId ≠ options.transactionId := by simpa using hid
    rw [origin_withoutOrigin_of_ne hid]
    exact hread.1 hcid current stage rfl hstage hmem

theorem safe_abortReplica_unblockedPolicy {options : SettleReplicaOptions Cid} {other : PeerId}
    (hother : options.peerId = some other) (hname : other ≠ "")
    (hne : ¬ (other = peer ∧ options.cid = cid ∧ options.transactionId = transactionId)) :
    Safe content (unblockedPolicy cid transactionId peer) (abortReplica options) := by
  refine safe_abortReplica (fun proc h marker hmem => ?_) fun _ _ _ _ _ =>
    ⟨fun _ => ⟨id, trivial, trivial⟩, fun _ => trivial⟩
  rcases mem_of_rememberAbort hmem with hold | hnew
  · exact h marker hold
  · rw [hnew, hother]
    rintro (hkey | hkey)
    · exact hname (congrArg AbortKey.originPeerId hkey)
    · exact hne ⟨congrArg AbortKey.originPeerId hkey, congrArg AbortKey.cid hkey,
        congrArg AbortKey.transactionId hkey⟩

/-! ### Commit -/

/-- A commit changes nothing, or it settles a copy it may settle. -/
theorem wp_commitReplica {options : SettleReplicaOptions Cid} :
    Prog.wp (storeSem content faults) (commitReplica options) (fun _ w' =>
      w' = w ∨ ∃ origin, w.Stages options.cid options.transactionId origin ∧
        isStageOwner origin options.peerId = true) w := by
  refine Prog.wp_bind.mpr (wp_get ?_ (.inl rfl))
  show Prog.wp _ _ _ w
  cases hget : w.files.get options.cid with
  | none => exact .inl rfl
  | some current =>
      dsimp only
      split
      · split
        · exact .inl rfl
        · exact .inl rfl
      · rename_i stage hstage
        obtain ⟨hstage, hlisted⟩ := FileRecord.stageOf_eq_some.mp hstage
        split
        · exact .inl rfl
        · rename_i howner
          have hstages : ∃ origin, w.Stages options.cid options.transactionId origin ∧
              isStageOwner origin options.peerId = true :=
            ⟨_, ⟨stage, Option.bind_eq_some_iff.mpr ⟨current, hget, hstage⟩, hlisted, rfl⟩,
              by simpa using howner⟩
          exact Prog.wp_mono (fun _ _ _ => .inr hstages) (Prog.wp_iff_runs.mpr fun _ _ _ => trivial)

theorem safe_commitReplica_claimPolicy {options : SettleReplicaOptions Cid}
    (hne : options.cid ≠ cid) :
    Safe content (claimPolicy cid transactionId origin) (commitReplica options) :=
  safe_commitReplica fun current _ hread _ heq =>
    absurd ((hread.2 current rfl).symm.trans heq) hne

theorem safe_commitReplica_originPolicy {options : SettleReplicaOptions Cid} :
    Safe content (originPolicy cid transactionId) (commitReplica options) :=
  safe_commitReplica fun current _ hread _ => by
    rintro _ _ _ ⟨⟩ ⟨⟩

theorem safe_commitReplica_unblockedPolicy {options : SettleReplicaOptions Cid} :
    Safe content (unblockedPolicy cid transactionId peer) (commitReplica options) :=
  safe_commitReplica fun _ _ _ _ => trivial

end Policies

/-! ## One request -/

section Requests

variable {Cid α : Type} [DecidableEq Cid] {content : Content Cid} {faults : Faults Cid}
variable {w w' : World Cid} {cid : Cid} {transactionId : TransactionId} {peer owner : PeerId}

/-- The request failed, and left records and pins alone. -/
structure Refused (w : World Cid) (r : Except (LifecycleError Cid) α) (w' : World Cid) : Prop where
  fails : ∃ err, r = .error err
  files : w'.files = w.files
  pins : w'.pins = w.pins

omit [DecidableEq Cid] in
theorem Refused.same (err : LifecycleError Cid) :
    Refused w (.error err : Except (LifecycleError Cid) α) w :=
  ⟨⟨err, rfl⟩, rfl, rfl⟩

theorem not_isStageOwner (hne : peer ≠ owner) :
    isStageOwner (some owner) (some peer) = false := by
  rw [Bool.eq_false_iff, ne_eq, isStageOwner_some]
  rintro (h | h)
  · cases h
  · exact hne (Option.some.inj h).symm

theorem wp_stageReplica_foreign {options : ReplicaStageTarget Cid} {name : String}
    (howner : w.Stages options.cid options.transactionId (some owner))
    (hpeer : options.originPeerId = some peer) (hne : peer ≠ owner) :
    Prog.wp (storeSem content faults) (stageReplica options name) (Refused w) w := by
  obtain ⟨stage, hstage, hlisted, horigin⟩ := howner
  obtain ⟨record, hget, hstage⟩ := Option.bind_eq_some_iff.mp hstage
  refine Prog.wp_bind.mpr (wp_request ?_ (fun h => by cases h) (fun h => by cases h))
  set pruned := (StoreOp.effect content (.wasAborted options.cid options.transactionId
    options.originPeerId options.now) w).2
  have hrefused : ∀ err, Refused w
      (.error err : Except (LifecycleError Cid) (ReplicaStageResult Cid)) pruned :=
    fun err => ⟨⟨err, rfl⟩, rfl, rfl⟩
  show Prog.wp _ (ite _ _ _) _ pruned
  split
  · exact hrefused _
  · have hget : pruned.files.get options.cid = some record := hget
    refine Prog.wp_bind.mpr (wp_get ?_ (hrefused _))
    rw [hget]
    show Prog.wp _ _ _ pruned
    dsimp only
    rw [hstage]
    have hforeign : (decide (options.transactionId ∈ stage.transactionIds)
        && !isStageOwner (stage.origin options.transactionId) options.originPeerId) = true := by
      rw [horigin, hpeer, not_isStageOwner hne, decide_eq_true hlisted]
      rfl
    dsimp only
    unfold joinStage
    rw [if_pos hforeign]
    exact hrefused _

theorem wp_commitReplica_foreign {options : SettleReplicaOptions Cid}
    (howner : w.Stages options.cid options.transactionId (some owner))
    (hpeer : options.peerId = some peer) (hne : peer ≠ owner) :
    Prog.wp (storeSem content faults) (commitReplica options) (Refused w) w := by
  obtain ⟨stage, hstage, hlisted, horigin⟩ := howner
  obtain ⟨record, hget, hstage⟩ := Option.bind_eq_some_iff.mp hstage
  have hstageOf := FileRecord.stageOf_eq_some.mpr ⟨hstage, hlisted⟩
  refine Prog.wp_bind.mpr (wp_get ?_ (Refused.same _))
  rw [hget]
  show Prog.wp _ _ _ w
  dsimp only
  rw [hstageOf]
  dsimp only
  rw [horigin, hpeer, not_isStageOwner hne]
  exact Refused.same _

theorem wp_abortReplica_foreign {options : SettleReplicaOptions Cid}
    (howner : w.Stages options.cid options.transactionId (some owner))
    (hpeer : options.peerId = some peer) (hne : peer ≠ owner) :
    Prog.wp (storeSem content faults) (abortReplica options) (Refused w) w := by
  obtain ⟨stage, hstage, hlisted, horigin⟩ := howner
  obtain ⟨record, hget, hstage⟩ := Option.bind_eq_some_iff.mp hstage
  have hstageOf := FileRecord.stageOf_eq_some.mpr ⟨hstage, hlisted⟩
  refine Prog.wp_bind.mpr (wp_get ?_ (Refused.same _))
  rw [hget]
  dsimp only [Prog.thenPost, Option.bind_some]
  rw [hstageOf]
  dsimp only [Option.map_some]
  rw [horigin, hpeer, not_isStageOwner hne]
  exact Refused.same _

/-- A request of a peer under an id that another peer staged. -/
theorem refused_of_foreign {o : NodeOp Cid} {r : Except (LifecycleError Cid) o.Ret}
    (h : nodeSem content faults o w r w') (ho : IsPeerRequest peer o)
    (hid : o.transaction = some (cid, transactionId))
    (howner : w.Stages cid transactionId (some owner)) (hne : peer ≠ owner) :
    Refused w r w' := by
  unfold NodeOp.transaction at hid
  split at hid
  · obtain ⟨rfl, rfl⟩ := Prod.mk.inj (Option.some.inj hid)
    exact Prog.wp_iff_runs.mp (wp_stageReplica_foreign howner ho hne) _ _ h
  · obtain ⟨rfl, rfl⟩ := Prod.mk.inj (Option.some.inj hid)
    exact Prog.wp_iff_runs.mp (wp_commitReplica_foreign howner ho hne) _ _ h
  · obtain ⟨rfl, rfl⟩ := Prod.mk.inj (Option.some.inj hid)
    exact Prog.wp_iff_runs.mp (wp_abortReplica_foreign howner ho hne) _ _ h
  · cases hid

/-- The commit of a transaction that shares the copy: one of the peer itself, or
one that nobody is known to have staged. -/
def CommitsShared (w : World Cid) (cid : Cid) (peer : PeerId) (o : NodeOp Cid) : Prop :=
  ∃ options, o = .run (.commitReplica options) ∧ options.cid = cid ∧
    (w.Stages cid options.transactionId (some peer) ∨ w.Stages cid options.transactionId none)

/-- Requests of other peers leave a claim and its origin alone, unless they make
the shared copy permanent. -/
theorem claim_kept {o : NodeOp Cid} {r : Except (LifecycleError Cid) o.Ret}
    (h : nodeSem content faults o w r w') (ho : IsPeerRequest peer o)
    (howner : w.Stages cid transactionId (some owner)) (hne : peer ≠ owner) :
    w'.Stages cid transactionId (some owner) ∨ CommitsShared w cid peer o := by
  have hheld := holds_claimPolicy.mpr howner
  unfold IsPeerRequest at ho
  split at ho
  · exact .inl (holds_claimPolicy.mp (Safe.holds (safe_stageReplica stages_claimPolicy) hheld h))
  · rename_i options
    by_cases hcid : options.cid = cid
    · rcases Prog.wp_iff_runs.mp wp_commitReplica _ _ h with rfl | ⟨origin, hstages, hsettles⟩
      · exact .inl howner
      · right
        subst hcid
        rw [ho, isStageOwner_some] at hsettles
        rcases hsettles with rfl | rfl
        · exact ⟨options, rfl, rfl, .inr hstages⟩
        · exact ⟨options, rfl, rfl, .inl hstages⟩
    · exact .inl (holds_claimPolicy.mp
        (Safe.holds (safe_commitReplica_claimPolicy hcid) hheld h))
  · exact .inl (holds_claimPolicy.mp
      (Safe.holds (safe_abortReplica_claimPolicy ho hne) hheld h))
  · exact ho.elim

/-- No request of a peer leaves a transaction without an origin. -/
theorem originated_kept {o : NodeOp Cid} {r : Except (LifecycleError Cid) o.Ret}
    (h : nodeSem content faults o w r w') (ho : IsPeerRequest peer o)
    (hnot : ¬ w.Stages cid transactionId none) : ¬ w'.Stages cid transactionId none := by
  have hheld := holds_originPolicy.mpr hnot
  unfold IsPeerRequest at ho
  split at ho
  · exact holds_originPolicy.mp (Safe.holds (safe_stageReplica (stages_originPolicy ho)) hheld h)
  · exact holds_originPolicy.mp (Safe.holds safe_commitReplica_originPolicy hheld h)
  · exact holds_originPolicy.mp (Safe.holds safe_abortReplica_originPolicy hheld h)
  · exact ho.elim

/-- Only an abort of the peer itself stops its stages. -/
theorem unblocked_kept {other : PeerId} {o : NodeOp Cid}
    {r : Except (LifecycleError Cid) o.Ret} (h : nodeSem content faults o w r w')
    (ho : IsPeerRequest other o) (hname : other ≠ "")
    (hnot : ¬ w.Blocked cid transactionId peer)
    (hown : ¬ PeerEvent.Aborts cid transactionId peer (.request other o w r w')) :
    ¬ w'.Blocked cid transactionId peer := by
  have hheld := holds_unblockedPolicy.mpr hnot
  unfold IsPeerRequest at ho
  split at ho
  · exact holds_unblockedPolicy.mp
      (Safe.holds (safe_stageReplica stages_unblockedPolicy) hheld h)
  · exact holds_unblockedPolicy.mp (Safe.holds safe_commitReplica_unblockedPolicy hheld h)
  · exact holds_unblockedPolicy.mp
      (Safe.holds (safe_abortReplica_unblockedPolicy ho hname hown) hheld h)
  · exact ho.elim

end Requests

/-! ## Runs -/

section Runs

variable {Cid : Type} [DecidableEq Cid] {content : Content Cid} {faults : Faults Cid}
variable {w₀ w : World Cid} {events : List (PeerEvent Cid)}

/-- What lists a transaction without an origin was there from the start. -/
theorem originated_of_leads
    (hrun : Prog.Pool.Leads (nodeSem content faults) restarts w₀ events w)
    (hvalid : ∀ e ∈ events, PeerEvent.Valid e) {cid : Cid} {transactionId : TransactionId}
    (h : w.Stages cid transactionId none) : w₀.Stages cid transactionId none := by
  by_contra hnot
  refine hrun.invariant (fun w => ¬ w.Stages cid transactionId none) hnot
    (fun e hmem he hbefore => ?_) h
  cases e with
  | request peer o before answer after => exact originated_kept he (hvalid _ hmem).2 hbefore
  | reset before after =>
      have hreset : after = { before with proc := Process.fresh } := he
      subst hreset
      exact hbefore

/-- A peer that aborted nothing, and that nothing stopped at the start, is not stopped. -/
theorem unblocked_of_leads
    (hrun : Prog.Pool.Leads (nodeSem content faults) restarts w₀ events w)
    (hvalid : ∀ e ∈ events, PeerEvent.Valid e) {cid : Cid} {transactionId : TransactionId}
    {peer : PeerId} (hnot : ¬ w₀.Blocked cid transactionId peer)
    (hown : ∀ e ∈ events, ¬ PeerEvent.Aborts cid transactionId peer e) :
    ¬ w.Blocked cid transactionId peer := by
  refine hrun.invariant (fun w => ¬ w.Blocked cid transactionId peer) hnot
    fun e hmem he hbefore => ?_
  cases e with
  | request other o before answer after =>
      obtain ⟨hname, ho⟩ := hvalid _ hmem
      exact unblocked_kept he ho hname hbefore (hown _ hmem)
  | reset before after =>
      have hreset : after = { before with proc := Process.fresh } := he
      subst hreset
      rintro ⟨marker, hmarker, -⟩
      cases hmarker

/-- Any sequence of requests of any peers, with any failures and restarts in
between. What a record lists is well formed. A request under an id that another
peer staged fails and does nothing; no request of another peer takes a claim or
its origin away, unless it commits a transaction of its own that shares the copy
(or one without an origin, left by an older version). A stage is stopped by an
abort of the same peer only, and the texts under which aborts are remembered
keep the peers apart whatever ids they choose. -/
theorem stage_ownership (hrun : Prog.Pool.Leads (nodeSem content faults) restarts w₀ events w)
    (hvalid : ∀ e ∈ events, PeerEvent.Valid e) :
    (∀ cid stage, w.stage cid = some stage → stage.transactionIds.Nodup ∧
      ∀ id, (stage.origin id).isSome = true → id ∈ stage.transactionIds) ∧
    (∀ past rest peer o before answer after,
      events = past ++ .request peer o before answer after :: rest →
      ∀ cid transactionId owner, before.Stages cid transactionId (some owner) → peer ≠ owner →
        (o.transaction = some (cid, transactionId) → Refused before answer after) ∧
        (after.Stages cid transactionId (some owner) ∨
          ∃ options, o = .run (.commitReplica options) ∧ options.cid = cid ∧
            (before.Stages cid options.transactionId (some peer) ∨
              w₀.Stages cid options.transactionId none))) ∧
    (∀ past rest peer options name before answer after,
      events = past ++ .request peer (.run (.stageReplica options name)) before answer after
        :: rest →
      wasAborted before.proc.abortedTransactions options.cid options.transactionId
        options.originPeerId options.now = true →
      w₀.Blocked options.cid options.transactionId peer ∨
        ∃ e ∈ past, PeerEvent.Aborts options.cid options.transactionId peer e) ∧
    (∀ (text : Cid → String), Function.Injective text → (∀ cid, NulFree (text cid)) →
      ∀ key key' : AbortKey Cid, NulFree key.originPeerId → NulFree key'.originPeerId →
        key.text text = key'.text text → key = key') := by
  refine ⟨fun cid stage h => World.stage_valid h, ?_, ?_,
    fun text htext hcid key key' => AbortKey.text_injective htext hcid⟩
  · rintro past rest peer o before answer after rfl cid transactionId owner howner hne
    obtain ⟨hpast, he⟩ := hrun.split
    obtain ⟨-, ho⟩ := hvalid (.request peer o before answer after) (by simp)
    refine ⟨fun hid => refused_of_foreign he ho hid howner hne, ?_⟩
    rcases claim_kept he ho howner hne with hkept | ⟨options, rfl, hcid, hshared⟩
    · exact .inl hkept
    · refine .inr ⟨options, rfl, hcid, hshared.imp_right fun hnone => ?_⟩
      exact originated_of_leads hpast (fun e hmem => hvalid e (List.mem_append_left _ hmem)) hnone
  · rintro past rest peer options name before answer after rfl haborted
    obtain ⟨hpast, -⟩ := hrun.split
    obtain ⟨-, ho⟩ := hvalid
      (.request peer (.run (.stageReplica options name)) before answer after) (by simp)
    have ho : options.originPeerId = some peer := ho
    by_contra hnot
    push Not at hnot
    refine unblocked_of_leads hpast (fun e hmem => hvalid e (List.mem_append_left _ hmem))
      hnot.1 hnot.2 ?_
    rw [ho] at haborted
    obtain ⟨marker, hmarker, hkey⟩ := List.any_eq_true.mp haborted
    rw [Bool.or_eq_true, decide_eq_true_iff, decide_eq_true_iff] at hkey
    exact ⟨marker, mem_of_prune hmarker, hkey⟩

end Runs

namespace TwoPeers

/-- The first peer stages a copy, and the second one aborts under the same id. -/
def stage : ReplicaStageTarget Nat :=
  { cid := 7, transactionId := "upload", temporaryTtlMs := 10, now := 0, originPeerId := some "a" }

def abort : SettleReplicaOptions Nat :=
  { cid := 7, transactionId := "upload", now := 1, tombstoneTtlMs := 10, peerId := some "b" }

def staged : Except (LifecycleError Nat) (ReplicaStageResult Nat) × World Nat :=
  Prog.run (serve Content.flat) (stageReplica stage "file") World.empty

def aborted : Except (LifecycleError Nat) (Option (FileRecord Nat)) × World Nat :=
  Prog.run (serve Content.flat) (abortReplica abort) staged.2

def first : PeerEvent Nat :=
  .request "a" (.run (.stageReplica stage "file")) World.empty staged.1 staged.2

def second : PeerEvent Nat :=
  .request "b" (.run (.abortReplica abort)) staged.2 aborted.1 aborted.2

theorem first_of : first.Of (nodeSem Content.flat anyFault) restarts :=
  runs_anyFault (runs_noFault.mpr rfl)

theorem second_of : second.Of (nodeSem Content.flat anyFault) restarts :=
  runs_anyFault (runs_noFault.mpr rfl)

theorem leads : Prog.Pool.Leads (nodeSem Content.flat anyFault) restarts World.empty
    [first, second] aborted.2 :=
  .snoc (.snoc .nil first_of rfl) second_of rfl

end TwoPeers

open TwoPeers in
/-- The abort of the second peer fails, and the first one keeps its claim. -/
theorem stage_ownership_twoPeers :
    (∃ err, aborted.1 = .error err) ∧ aborted.2.Stages 7 "upload" (some "a") := by
  have hvalid : ∀ e ∈ [first, second], PeerEvent.Valid e := by
    intro e hmem
    rcases List.mem_cons.mp hmem with rfl | hmem
    · exact ⟨by decide, rfl⟩
    · obtain rfl := List.mem_singleton.mp hmem
      exact ⟨by decide, rfl⟩
  have howner : staged.2.Stages 7 "upload" (some "a") :=
    ⟨⟨["upload"], some [("upload", "a")], none⟩, by decide, by decide, by decide⟩
  obtain ⟨hrefused, hkept⟩ := (stage_ownership leads hvalid).2.1
    [first] [] "b" _ _ _ _ rfl 7 "upload" "a" howner (by decide)
  refine ⟨(hrefused rfl).fails, hkept.resolve_right ?_⟩
  rintro ⟨options, hcommit, -⟩
  cases hcommit

end IpfsNode
