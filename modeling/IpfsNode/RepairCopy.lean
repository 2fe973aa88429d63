import IpfsNode.Atomicity
import IpfsNode.CallTrace
import IpfsNode.PlaceCopy

/-!
# Repairing one copy

A pass that finds a copy missing asks the peer for it: whether it has the file,
whether it kept a stage that can still be committed, whether it has room, and
then to store. A stale session is reset once and everything asked again; a peer
that does not know this node is offered an unpinned copy instead.

`repair_copy_truthful` says what may be believed of the result. A copy is called
stored after one confirmation, which is the last call, and which the peer gave
on its registry and its pinset; and no peer is asked to store what it was not
just asked to accept.
-/

namespace IpfsNode

/-! ## The service -/

/-- What a repair asks of its peer, and of the session with it. -/
inductive CopyOp where
  | probeHave
  | requestCommit (transactionId : TransactionId)
  | probeAccept
  | requestStore
  | requestCache
  | recoverPeerSession
deriving DecidableEq, Repr

@[reducible] def CopyOp.Ret : CopyOp → Type
  | probeHave | probeAccept | recoverPeerSession => Bool
  | requestCommit _ | requestStore | requestCache => Unit

abbrev Copying (α : Type) := Prog CopyOp CopyOp.Ret CallError α

abbrev CopyCall := Prog.Call CopyOp CopyOp.Ret CallError

def storedCopy : ReplicationStoreResult :=
  { outcome := some .stored, staged := some false, error := none }

def cachedCopy : ReplicationStoreResult :=
  { outcome := some .cached, staged := none, error := none }

namespace Copying

def recoverOutboundReplicationSession (err : CallError) : Copying Bool :=
  if isStalePeerSessionError err.message then Prog.perform CopyOp.recoverPeerSession
  else pure false

/-- A peer that kept the stage of a settled upload promotes it. -/
def commitKeptStage (transactionId : TransactionId) : Copying Bool := do
  try
    Prog.perform (CopyOp.requestCommit transactionId)
    Prog.perform CopyOp.probeHave
  catch err => do
    -- no matching stage, or still temporary; `store` is next
    let _ ← recoverOutboundReplicationSession err
    pure false

/-- Ask for room, and then for the copy. -/
def storeCopy : Copying ReplicationStoreResult := do
  let accepted ← Prog.perform CopyOp.probeAccept
  if accepted then do
    Prog.perform CopyOp.requestStore
    pure storedCopy
  else throw noRoomForCopy

def performRepairCopy (commitTransactionId : Option TransactionId) :
    Copying ReplicationStoreResult := do
  let held ← Prog.perform CopyOp.probeHave
  if held then pure storedCopy
  else
    match commitTransactionId with
    | none => storeCopy
    | some transactionId => do
        let committed ← commitKeptStage transactionId
        if committed then pure storedCopy else storeCopy

def cacheCopy : Copying ReplicationStoreResult := do
  Prog.perform CopyOp.requestCache
  pure cachedCopy

def retryRepairCopy (commitTransactionId : Option TransactionId) :
    Copying ReplicationStoreResult := do
  try
    performRepairCopy commitTransactionId
  catch retryErr =>
    if isNotAuthorizedError retryErr then cacheCopy else throw retryErr

/-- Restore a missing copy without a new upload transaction. -/
def repairCopy (commitTransactionId : Option TransactionId) : Copying ReplicationStoreResult := do
  try
    performRepairCopy commitTransactionId
  catch err =>
    if isNotAuthorizedError err then cacheCopy
    else do
      let recovered ← recoverOutboundReplicationSession err
      if recovered then retryRepairCopy commitTransactionId else throw err

end Copying

/-! ### The answering peer -/

section Peer

variable {Cid : Type}

/-- The second half of `hasDurableReplica`; what it read may be old by then. -/
def hasDurablePin [DecidableEq Cid] (cid : Cid) (record : Option (FileRecord Cid)) :
    Store Cid Bool :=
  match record with
  -- a pin awaiting startup backfill
  | none => isDirectlyPinned cid
  | some record => if record.isDurable then isDirectlyPinned cid else pure false

/-- Only a permanent copy, not one prepared for a strict upload. -/
def hasDurableReplica [DecidableEq Cid] (cid : Cid) : Store Cid Bool := do
  let record ← Locked.get cid
  hasDurablePin cid record

/-- Whether another copy fits beside what is promised; the free space may be unreadable. -/
def hasRoomForAnotherCopy (available : Option Nat) (claimedBytes diskReserveBytes : Nat) : Bool :=
  match available with
  | none => false
  | some available => decide (diskReserveBytes + claimedBytes < available)

end Peer

/-! ## The calls of a repair -/

/-- The peer says that it has a durable copy. -/
def CopyCall.confirms : CopyCall → Bool
  | ⟨.probeHave, .ok true⟩ => true
  | ⟨.requestStore, .ok _⟩ => true
  | _ => false

def Unconfirmed (calls : List CopyCall) : Prop := ∀ call ∈ calls, CopyCall.confirms call = false

/-- The last call failed, in an error of this kind. -/
def LastFailed (kind : CallError → Prop) (past : List CopyCall) : Prop :=
  ∃ front o err, past = front ++ [⟨o, .error err⟩] ∧ kind err

/-- Where a call may stand. -/
def CopyOp.Permitted (commitTransactionId : Option TransactionId) :
    CopyOp → List CopyCall → Prop
  | .probeHave, past => past = [] ∨ ∃ front, past = front ++ [⟨.recoverPeerSession, .ok true⟩] ∨
      ∃ transactionId, past = front ++ [⟨.requestCommit transactionId, .ok ()⟩]
  | .requestCommit transactionId, past => commitTransactionId = some transactionId ∧
      ∃ front, past = front ++ [⟨.probeHave, .ok false⟩]
  | .probeAccept, past => ∃ front rest, past = front ++ ⟨.probeHave, .ok false⟩ :: rest ∧
      rest.length ≤ 3
  | .requestStore, past => ∃ front, past = front ++ [⟨.probeAccept, .ok true⟩]
  | .requestCache, past => LastFailed (fun err => isNotAuthorizedError err = true) past
  | .recoverPeerSession, past =>
      LastFailed (fun err => isStalePeerSessionError err.message = true) past

/-- And no call comes after a confirmation. -/
def CopyRule (commitTransactionId : Option TransactionId) (o : CopyOp)
    (past : List CopyCall) : Prop :=
  Unconfirmed past ∧ o.Permitted commitTransactionId past

/-- How one attempt ends. -/
inductive AttemptEnds : Except CallError ReplicationStoreResult → List CopyCall → Prop
  | stored {front call} (hfront : Unconfirmed front) (hcall : CopyCall.confirms call = true) :
      AttemptEnds (.ok storedCopy) (front ++ [call])
  | noRoom {front} (hfront : Unconfirmed front) :
      AttemptEnds (.error noRoomForCopy) (front ++ [⟨.probeAccept, .ok false⟩])
  | failed {front o err} (hfront : Unconfirmed front) :
      AttemptEnds (.error err) (front ++ [⟨o, .error err⟩])

/-- What is known of all calls when an attempt ends that made at most so many. -/
def Attempted (most : Nat) (past : List CopyCall) (r : Except CallError ReplicationStoreResult)
    (past' : List CopyCall) : Prop :=
  past'.length ≤ past.length + most ∧ AttemptEnds r past'

section Order

variable {commitTransactionId : Option TransactionId} {past : List CopyCall}

theorem unconfirmed_nil : Unconfirmed [] := fun _ hmem => absurd hmem List.not_mem_nil

theorem Unconfirmed.snoc (h : Unconfirmed past) {call : CopyCall}
    (hcall : CopyCall.confirms call = false) : Unconfirmed (past ++ [call]) := by
  intro c hmem
  rcases List.mem_append.mp hmem with hmem | hmem
  · exact h c hmem
  · rwa [List.mem_singleton.mp hmem]

theorem confirms_error {o : CopyOp} {err : CallError} :
    CopyCall.confirms ⟨o, .error err⟩ = false := by
  cases o <;> rfl

theorem Attempted.of_le {most : Nat} {past past₁ past' : List CopyCall}
    {r : Except CallError ReplicationStoreResult} (h : Attempted most past₁ r past') {n : Nat}
    (hle : past₁.length + most ≤ past.length + n) : Attempted n past r past' :=
  ⟨h.1.trans hle, h.2⟩

theorem length_snoc (call : CopyCall) : (past ++ [call]).length = past.length + 1 :=
  List.length_append

theorem obeys_storeCopy (h : Unconfirmed past)
    (haccept : CopyOp.probeAccept.Permitted commitTransactionId past) :
    Prog.Obeys (CopyRule commitTransactionId) Copying.storeCopy (Attempted 2 past) past := by
  have hone (call : CopyCall) : (past ++ [call]).length ≤ past.length + 2 :=
    (length_snoc call).trans_le (Nat.le_succ _)
  refine Prog.obeys_perform_bind ⟨h, haccept⟩ (fun err => ⟨hone _, .failed h⟩) fun accepted => ?_
  cases accepted with
  | false =>
      refine Prog.obeys_throw ?_
      exact ⟨hone _, .noRoom h⟩
  | true =>
      have hpast : Unconfirmed (past ++ [⟨CopyOp.probeAccept, .ok true⟩]) := h.snoc rfl
      have htwo (first call : CopyCall) : (past ++ [first] ++ [call]).length ≤ past.length + 2 := by
        rw [length_snoc, length_snoc]
      refine Prog.obeys_perform_bind ⟨hpast, past, rfl⟩ (fun err => ⟨htwo _ _, .failed hpast⟩)
        fun _ => Prog.obeys_pure ?_
      exact ⟨htwo _ _, .stored hpast rfl⟩

/-- What is known when a peer was asked to commit a stage. -/
def CommitEnds (past : List CopyCall) (r : Except CallError Bool) (past' : List CopyCall) :
    Prop :=
  ∃ rest, past' = past ++ rest ∧ rest.length ≤ 3 ∧
    match r with
    | .ok true => ∃ front call, past' = front ++ [call] ∧ Unconfirmed front ∧
        CopyCall.confirms call = true
    | .ok false => Unconfirmed past'
    | .error err => AttemptEnds (.error err) past'

theorem obeys_recover {P : Except CallError Bool → List CopyCall → Prop} {err : CallError}
    {o : CopyOp} {front : List CopyCall} (h : Unconfirmed (front ++ [⟨o, .error err⟩]))
    (hnone : P (.ok false) (front ++ [⟨o, .error err⟩]))
    (hcall : ∀ r, P r (front ++ [⟨o, .error err⟩] ++ [⟨.recoverPeerSession, r⟩])) :
    Prog.Obeys (CopyRule commitTransactionId) (Copying.recoverOutboundReplicationSession err) P
      (front ++ [⟨o, .error err⟩]) := by
  unfold Copying.recoverOutboundReplicationSession
  by_cases hstale : isStalePeerSessionError err.message = true
  · rw [if_pos hstale]
    exact Prog.obeys_perform ⟨h, front, o, err, rfl, hstale⟩ hcall
  · rw [if_neg hstale]
    exact Prog.obeys_pure hnone

theorem obeys_commitKeptStage {transactionId : TransactionId} (h : Unconfirmed past)
    (hheld : ∃ front, past = front ++ [⟨.probeHave, .ok false⟩])
    (htransaction : commitTransactionId = some transactionId) :
    Prog.Obeys (CopyRule commitTransactionId) (Copying.commitKeptStage transactionId)
      (CommitEnds past) past := by
  have hrecover (rest : List CopyCall) (hrest : rest.length ≤ 1) (o : CopyOp) (err : CallError)
      (hbefore : Unconfirmed (past ++ rest)) :
      Prog.Obeys (CopyRule commitTransactionId)
        (Copying.recoverOutboundReplicationSession err >>= fun _ => (pure false : Copying Bool))
        (CommitEnds past) (past ++ rest ++ [⟨o, .error err⟩]) := by
    have hfailed : Unconfirmed (past ++ rest ++ [⟨o, .error err⟩]) := hbefore.snoc confirms_error
    have hassoc : past ++ rest ++ [⟨o, .error err⟩] = past ++ (rest ++ [⟨o, .error err⟩]) :=
      List.append_assoc ..
    refine Prog.obeys_bind (obeys_recover hfailed ?_ fun r => ?_)
    · exact ⟨_, hassoc, (length_snoc _).trans_le (by omega), hfailed⟩
    · have hlength (first second : CopyCall) : (rest ++ [first] ++ [second]).length ≤ 3 := by
        rw [length_snoc, length_snoc]
        omega
      have hcalls (last : CopyCall) : past ++ rest ++ [⟨o, .error err⟩] ++ [last] =
          past ++ (rest ++ [⟨o, .error err⟩] ++ [last]) := by
        rw [hassoc, List.append_assoc]
      cases r with
      | ok recovered => exact ⟨_, hcalls _, hlength _ _, hfailed.snoc rfl⟩
      | error err' => exact ⟨_, hcalls _, hlength _ _, .failed hfailed⟩
  unfold Copying.commitKeptStage
  refine Prog.obeys_tryCatch (Prog.obeys_perform_bind ⟨h, htransaction, hheld⟩ (fun err => ?_)
    fun _ => Prog.obeys_perform ?_ fun r => ?_)
  · have hstart := hrecover [] (Nat.zero_le 1) (.requestCommit transactionId) err
    rw [List.append_nil] at hstart
    exact hstart h
  · exact ⟨h.snoc rfl, .inr ⟨past, .inr ⟨transactionId, rfl⟩⟩⟩
  · have hcommitted : Unconfirmed (past ++ [⟨CopyOp.requestCommit transactionId, .ok ()⟩]) :=
      h.snoc rfl
    cases r with
    | error err => exact hrecover [_] (Nat.le_refl 1) .probeHave err hcommitted
    | ok held =>
        refine ⟨[⟨.requestCommit transactionId, .ok ()⟩, ⟨.probeHave, .ok held⟩], ?_, ?_, ?_⟩
        · rw [List.append_assoc]
          rfl
        · exact Nat.le_succ 2
        · cases held with
          | true => exact ⟨_, _, rfl, hcommitted, rfl⟩
          | false => exact hcommitted.snoc rfl

theorem obeys_performRepairCopy (h : Unconfirmed past)
    (hbegin : CopyOp.probeHave.Permitted commitTransactionId past) :
    Prog.Obeys (CopyRule commitTransactionId) (Copying.performRepairCopy commitTransactionId)
      (Attempted 6 past) past := by
  have hone (call : CopyCall) : (past ++ [call]).length ≤ past.length + 6 :=
    (length_snoc call).trans_le (by omega)
  refine Prog.obeys_perform_bind ⟨h, hbegin⟩ (fun err => ⟨hone _, .failed h⟩) fun held => ?_
  cases held with
  | true =>
      refine Prog.obeys_pure ?_
      exact ⟨hone _, .stored h rfl⟩
  | false =>
      have hasked : Unconfirmed (past ++ [⟨CopyOp.probeHave, .ok false⟩]) := h.snoc rfl
      have hlength := @length_snoc past ⟨CopyOp.probeHave, .ok false⟩
      generalize hpast : past ++ [⟨CopyOp.probeHave, .ok false⟩] = past₁ at hasked hlength ⊢
      -- what `storeCopy` adds after at most three calls
      have hstore (rest : List CopyCall) (hrest : rest.length ≤ 3)
          (hnone : Unconfirmed (past₁ ++ rest)) :
          Prog.Obeys (CopyRule commitTransactionId) Copying.storeCopy (Attempted 6 past)
            (past₁ ++ rest) := by
        refine (obeys_storeCopy hnone ⟨past, rest, ?_, hrest⟩).mono fun r past' hends =>
          hends.of_le ?_
        · rw [← hpast, List.append_assoc, List.singleton_append]
        · rw [List.length_append]
          omega
      cases hid : commitTransactionId with
      | none =>
          have hdirect := hstore [] (Nat.zero_le 3) (by rwa [List.append_nil])
          rw [List.append_nil, hid] at hdirect
          exact hdirect
      | some transactionId =>
          rw [hid] at hstore
          refine Prog.obeys_bind ((obeys_commitKeptStage hasked ⟨past, hpast.symm⟩ rfl).mono ?_)
          rintro r past' ⟨rest, rfl, hrest, hends⟩
          have hle : (past₁ ++ rest).length ≤ past.length + 6 := by
            rw [List.length_append]
            omega
          rcases r with err | _ | _
          · exact ⟨hle, hends⟩
          · exact hstore rest hrest hends
          · obtain ⟨front, call, hcalls, hfront, hcall⟩ := hends
            refine Prog.obeys_pure ?_
            rw [hcalls] at hle ⊢
            exact ⟨hle, .stored hfront hcall⟩

/-- How a repair ends. -/
inductive RepairEnds : Except CallError ReplicationStoreResult → List CopyCall → Prop
  | stored {front call} (hfront : Unconfirmed front) (hcall : CopyCall.confirms call = true) :
      RepairEnds (.ok storedCopy) (front ++ [call])
  | cached {calls o err} (hcalls : Unconfirmed calls)
      (hlast : ∃ front, calls = front ++ [⟨o, .error err⟩])
      (herr : isNotAuthorizedError err = true) :
      RepairEnds (.ok cachedCopy) (calls ++ [⟨.requestCache, .ok ()⟩])
  | noRoom {front} (hfront : Unconfirmed front) :
      RepairEnds (.error noRoomForCopy) (front ++ [⟨.probeAccept, .ok false⟩])
  | failed {front o err} (hfront : Unconfirmed front) :
      RepairEnds (.error err) (front ++ [⟨o, .error err⟩])
  | unrecovered {calls o err} (hcalls : Unconfirmed calls)
      (hlast : ∃ front, calls = front ++ [⟨o, .error err⟩]) :
      RepairEnds (.error err) (calls ++ [⟨.recoverPeerSession, .ok false⟩])

def Repaired (most : Nat) (past : List CopyCall) (r : Except CallError ReplicationStoreResult)
    (past' : List CopyCall) : Prop :=
  past'.length ≤ past.length + most ∧ RepairEnds r past'

theorem AttemptEnds.repair {r : Except CallError ReplicationStoreResult} (h : AttemptEnds r past) :
    RepairEnds r past := by
  cases h with
  | stored hfront hcall => exact .stored hfront hcall
  | noRoom hfront => exact .noRoom hfront
  | failed hfront => exact .failed hfront

/-- A failed attempt failed in its last call, or found no room. -/
theorem AttemptEnds.error_cases {err : CallError} (h : AttemptEnds (.error err) past) :
    Unconfirmed past ∧ ((∃ front o, past = front ++ [⟨o, .error err⟩]) ∨ err = noRoomForCopy) := by
  cases h with
  | noRoom hfront => exact ⟨hfront.snoc rfl, .inr rfl⟩
  | failed hfront => exact ⟨hfront.snoc confirms_error, .inl ⟨_, _, rfl⟩⟩

theorem obeys_cacheCopy {front : List CopyCall} {o : CopyOp} {err : CallError} {most : Nat}
    (hlast : past = front ++ [⟨o, .error err⟩]) (h : Unconfirmed past)
    (herr : isNotAuthorizedError err = true) {past₀ : List CopyCall}
    (hle : past.length + 1 ≤ past₀.length + most) :
    Prog.Obeys (CopyRule commitTransactionId) Copying.cacheCopy (Repaired most past₀) past := by
  have hone (call : CopyCall) : (past ++ [call]).length ≤ past₀.length + most :=
    (length_snoc call).trans_le hle
  refine Prog.obeys_perform_bind ⟨h, front, o, err, hlast, herr⟩
    (fun err => ⟨hone _, .failed h⟩) fun _ => Prog.obeys_pure ?_
  exact ⟨hone _, .cached h ⟨front, hlast⟩ herr⟩

theorem obeys_retryRepairCopy (h : Unconfirmed past)
    (hbegin : CopyOp.probeHave.Permitted commitTransactionId past) :
    Prog.Obeys (CopyRule commitTransactionId) (Copying.retryRepairCopy commitTransactionId)
      (Repaired 7 past) past := by
  refine Prog.obeys_tryCatch ((obeys_performRepairCopy h hbegin).mono ?_)
  rintro r past' ⟨hle, hends⟩
  cases r with
  | ok result => exact ⟨hle.trans (Nat.le_succ _), hends.repair⟩
  | error err =>
      obtain ⟨hnone, hlast⟩ := hends.error_cases
      show Prog.Obeys _ (if isNotAuthorizedError err then _ else _) _ _
      by_cases hrefused : isNotAuthorizedError err = true
      · rw [if_pos hrefused]
        rcases hlast with ⟨front, o, hlast⟩ | rfl
        · exact obeys_cacheCopy hlast hnone hrefused (Nat.succ_le_succ hle)
        · cases hrefused
      · rw [if_neg hrefused]
        exact Prog.obeys_throw (Q := Repaired 7 past) ⟨hle.trans (Nat.le_succ _), hends.repair⟩

theorem obeys_repairCopy :
    Prog.Obeys (CopyRule commitTransactionId) (Copying.repairCopy commitTransactionId)
      (Repaired 14 []) [] := by
  refine Prog.obeys_tryCatch ((obeys_performRepairCopy unconfirmed_nil (.inl rfl)).mono ?_)
  rintro r past' ⟨hle, hends⟩
  have hshort : past'.length ≤ 6 := by rwa [List.length_nil, Nat.zero_add] at hle
  cases r with
  | ok result => exact ⟨hshort.trans (by decide), hends.repair⟩
  | error err =>
      obtain ⟨hnone, hlast⟩ := hends.error_cases
      show Prog.Obeys _ (if isNotAuthorizedError err then _ else _) _ _
      rcases hlast with ⟨front, o, rfl⟩ | rfl
      · by_cases hrefused : isNotAuthorizedError err = true
        · rw [if_pos hrefused]
          exact obeys_cacheCopy rfl hnone hrefused (by rw [List.length_nil]; omega)
        · rw [if_neg hrefused]
          have hone (call : CopyCall) := (length_snoc call).trans_le
            (Nat.succ_le_succ (hshort.trans (by decide : 6 ≤ 13)))
          refine Prog.obeys_bind (obeys_recover hnone ?_ fun r => ?_)
          · exact Prog.obeys_throw (Q := Repaired 14 []) ⟨hshort.trans (by decide), hends.repair⟩
          · rcases r with err' | _ | _
            · exact ⟨hone _, .failed hnone⟩
            · exact Prog.obeys_throw (Q := Repaired 14 []) ⟨hone _, .unrecovered hnone ⟨front, rfl⟩⟩
            · refine (obeys_retryRepairCopy (hnone.snoc rfl) (.inr ⟨_, .inl rfl⟩)).mono ?_
              rintro r past' ⟨hle', hends'⟩
              rw [length_snoc] at hle'
              exact ⟨hle'.trans (by rw [List.length_nil]; omega), hends'⟩
      · exact Prog.obeys_throw (Q := Repaired 14 []) ⟨hshort.trans (by decide), hends.repair⟩

end Order

/-! ## What the peer answers -/

section Peers

variable {Cid : Type} [DecidableEq Cid] {content : Content Cid} {faults : Faults Cid}
variable {options : RegisterPinnedOptions Cid} {w w' : World Cid}

/-- A permanent copy with all its blocks. -/
structure StoredWhole (content : Content Cid) (cid : Cid) (w : World Cid) : Prop where
  durable : w.holdsDurably cid = true
  complete : content.dag.Complete w.blocks cid

omit [DecidableEq Cid] in
theorem isDurable_registrationOf {existing : Option (FileRecord Cid)} {file : NewFileRecord Cid}
    {ttl now revision : Nat} :
    ((registrationOf existing file ⟨false, ttl, now, none⟩).stamped revision).isDurable = true := by
  unfold registrationOf
  split
  · rfl
  · split
    · rename_i hstate
      simp [FileRecord.isDurable, FileRecord.stamped, reuploadedRecord, isAdmissionSettled, hstate]
    · rfl

theorem holdsDurably_put {record : FileRecord Cid} {hvalid : isFileRecord record = true} {cid : Cid}
    (hcid : record.cid = cid) (hpin : cid ∈ w.pins)
    (hdurable : (record.stamped w.nextRevision).isDurable = true) :
    (w.put record hvalid).holdsDurably cid = true := by
  unfold World.holdsDurably
  rw [World.get_put, if_pos hcid.symm, World.pins_put, decide_eq_true hpin]
  exact hdurable

/-- A copy that was registered, and that no stage owns, is stored. -/
theorem wp_registerPinnedFile_stored :
    Prog.wp (storeSem content faults) (registerPinnedFile options) (fun r w' =>
      ∀ stored, r = .ok stored → stored.replicaStage = none →
        StoredWhole content options.cid w') w := by
  have hrestore (w₁ : World Cid) (wasPinned : Bool) (err : LifecycleError Cid) :
      Prog.wp (storeSem content faults)
        (restoreLifecycleBaseline options.cid (w.files.get options.cid) wasPinned err :
          Store Cid (FileRecord Cid)) (fun r w' => ∀ stored, r = .ok stored →
            stored.replicaStage = none → StoredWhole content options.cid w') w₁ := by
    refine Prog.wp_iff_runs.mpr fun r w' hrun stored hr => ?_
    obtain ⟨e, rfl⟩ := (rejects_restoreLifecycleBaseline _ _ _).error hrun
    cases hr
  refine Prog.wp_bind.mpr (wp_get (Prog.wp_bind.mpr (Prog.wp_iff_runs.mpr fun r w₁ _ => ?_))
    fun _ h => by cases h)
  cases r with
  | error e => exact fun _ h => by cases h
  | ok wasPinned =>
      refine Prog.wp_tryCatch.mpr (Prog.wp_bind.mpr (wp_pinFile ?_ (hrestore _ _ _)))
      refine Prog.wp_bind.mpr (wp_statDag (fun hcomplete => ?_) fun _ => hrestore _ _ _)
      refine Prog.wp_bind.mpr (wp_registerExclusively (fun _ hvalid => ?_)
        (fun existing _ hstage _ => ?_) (fun _ => hrestore _ _ _) fun _ => hrestore _ _ _)
      · intro stored hstored hnone
        cases hstored
        refine ⟨?_, hcomplete⟩
        refine holdsDurably_put ?_ ?_ isDurable_registrationOf
        · exact cid_registrationOf fun record hget => Registry.cid_of_get hget
        · rw [World.pins_pin]
          exact Finset.mem_insert_self _ _
      · intro stored hstored hnone
        cases hstored
        rw [hnone] at hstage
        cases hstage

/-- The peer answered a call when its registry was as in `w`, and was through with it
in `w'`; what else it does in between is not said. -/
inductive CopyServed (content : Content Cid) (faults : Faults Cid)
    (options : RegisterPinnedOptions Cid) : CopyCall → World Cid → World Cid → Prop
  /-- It refused, or its answer was lost. -/
  | failed {o err} {w w' : World Cid} : CopyServed content faults options ⟨o, .error err⟩ w w'
  | probed {record has} {w w₁ w₂ w' : World Cid}
      (hread : Prog.Runs (storeSem content faults) (Locked.get options.cid) w (.ok record) w₁)
      (hpinned : Prog.Runs (storeSem content faults) (hasDurablePin options.cid record) w₂
        (.ok has) w') : CopyServed content faults options ⟨.probeHave, .ok has⟩ w w'
  | committed {settled : SettleReplicaOptions Cid} {record} {w w' : World Cid}
      (hcid : settled.cid = options.cid)
      (hrun : Prog.Runs (storeSem content faults) (commitReplica settled) w (.ok record) w') :
      CopyServed content faults options ⟨.requestCommit settled.transactionId, .ok ()⟩ w w'
  | accepted {available claimedBytes diskReserveBytes} {w : World Cid} :
      CopyServed content faults options
        ⟨.probeAccept, .ok (hasRoomForAnotherCopy available claimedBytes diskReserveBytes)⟩ w w
  | stored {blocks stored} {w w' : World Cid}
      {calls : List (Prog.Call (NodeOp Cid) NodeOp.Ret (LifecycleError Cid))}
      (hjob : Prog.Trace (fun _ _ => True) (acceptReplica options blocks) calls (.ok stored))
      (hrun : ∀ answer, ⟨.run (.registerPinnedFile options), answer⟩ ∈ calls →
        Prog.Runs (storeSem content faults) (registerPinnedFile options) w answer w') :
      CopyServed content faults options ⟨.requestStore, .ok ()⟩ w w'
  | cached {w w' : World Cid} : CopyServed content faults options ⟨.requestCache, .ok ()⟩ w w'
  | recovered {fresh} {w w' : World Cid} :
      CopyServed content faults options ⟨.recoverPeerSession, .ok fresh⟩ w w'

omit [DecidableEq Cid] in
/-- An accepted replica was registered, and no stage owns it. -/
theorem registered_of_acceptReplica {blocks : Finset Cid} {stored : FileRecord Cid}
    {calls : List (Prog.Call (NodeOp Cid) NodeOp.Ret (LifecycleError Cid))}
    (h : Prog.Trace (fun _ _ => True) (acceptReplica options blocks) calls (.ok stored)) :
    ⟨.run (.registerPinnedFile options), .ok stored⟩ ∈ calls ∧ stored.replicaStage = none := by
  obtain ⟨existing, rest, rfl, -, hrest⟩ := Prog.trace_perform_bind_ok h
  by_cases hstage : existing.any (·.replicaStage.isSome)
  · rw [if_pos hstage] at hrest
    cases (Prog.trace_throw.mp hrest).2
  · rw [if_neg hstage] at hrest
    obtain ⟨-, rest, rfl, -, hrest⟩ := Prog.trace_perform_bind_ok hrest
    obtain ⟨record, rest, rfl, -, hrest⟩ := Prog.trace_perform_bind_ok hrest
    by_cases hstaged : record.replicaStage.isSome
    · rw [if_pos hstaged] at hrest
      cases (Prog.trace_throw.mp hrest).2
    · rw [if_neg hstaged] at hrest
      obtain ⟨rfl, hrecord⟩ := Prog.trace_pure.mp hrest
      cases hrecord
      exact ⟨.tail _ (.tail _ (.head _)), Option.not_isSome_iff_eq_none.mp hstaged⟩

/-- What a confirmation is worth: the copy is there, or it was permanent by the
record, or without one, when the pin was found. -/
def Testifies (content : Content Cid) (cid : Cid) (w w' : World Cid) : Prop :=
  StoredWhole content cid w' ∨
    (cid ∈ w'.pins ∧ ∀ record, w.files.get cid = some record → record.isDurable = true)

theorem testifies_of_probe {cid : Cid} {w₁ w₂ : World Cid} {record : Option (FileRecord Cid)}
    (hread : Prog.Runs (storeSem content faults) (Locked.get cid) w (.ok record) w₁)
    (hpinned : Prog.Runs (storeSem content faults) (hasDurablePin cid record) w₂ (.ok true) w') :
    cid ∈ w'.pins ∧ ∀ record, w.files.get cid = some record → record.isDurable = true := by
  have hrecord : record = w.files.get cid := by
    have hget : Prog.wp (storeSem content faults) (Locked.get cid)
        (fun r _ => ∀ record, r = .ok record → record = w.files.get cid) w :=
      wp_get (fun _ h => (Except.ok.inj h).symm) fun _ h => by cases h
    exact Prog.wp_iff_runs.mp hget _ _ hread _ rfl
  have hpin (h : Prog.Runs (storeSem content faults) (isDirectlyPinned cid) w₂ (.ok true) w') :
      cid ∈ w'.pins := by
    have hfound : Prog.wp (storeSem content faults) (isDirectlyPinned cid)
        (fun r w' => r = .ok true → cid ∈ w'.pins) w₂ :=
      wp_isDirectlyPinned (fun h => of_decide_eq_true (Except.ok.inj h)) fun h => by cases h
    exact Prog.wp_iff_runs.mp hfound _ _ h rfl
  rw [← hrecord]
  cases record with
  | none => exact ⟨hpin hpinned, fun _ h => by cases h⟩
  | some record =>
      unfold hasDurablePin at hpinned
      dsimp only at hpinned
      by_cases hdurable : record.isDurable = true
      · rw [if_pos hdurable] at hpinned
        exact ⟨hpin hpinned, fun _ h => Option.some.inj h ▸ hdurable⟩
      · rw [if_neg hdurable] at hpinned
        cases hpinned

theorem CopyServed.testifies {call : CopyCall} (h : CopyServed content faults options call w w')
    (hcall : CopyCall.confirms call = true) : Testifies content options.cid w w' := by
  cases h with
  | failed => rw [confirms_error] at hcall; cases hcall
  | committed => cases hcall
  | accepted => cases hcall
  | cached => cases hcall
  | recovered => cases hcall
  | stored hjob hrun =>
      obtain ⟨hmem, hnone⟩ := registered_of_acceptReplica hjob
      exact .inl (Prog.wp_iff_runs.mp wp_registerPinnedFile_stored _ _ (hrun _ hmem) _ rfl hnone)
  | @probed record has _ w₁ w₂ _ hread hpinned =>
      cases has with
      | false => cases hcall
      | true => exact .inr (testifies_of_probe hread hpinned)

/-- A repair makes few calls, each where it may stand, and what it reports is what
its last call says; a copy that it reports stored is one the peer confirmed. -/
theorem repair_copy_truthful {commitTransactionId : Option TransactionId} {calls : List CopyCall}
    {result : Except CallError ReplicationStoreResult}
    (h : Prog.Trace (fun _ _ => True) (Copying.repairCopy commitTransactionId) calls result)
    (before after : Nat → World Cid)
    (hserved : ∀ i call, calls[i]? = some call →
      CopyServed content faults options call (before i) (after i)) :
    calls.length ≤ 14 ∧
    (∀ front call back, calls = front ++ call :: back →
      CopyRule commitTransactionId call.1 front) ∧
    RepairEnds result calls ∧
    (result = .ok storedCopy → ∃ i, i + 1 = calls.length ∧
      Testifies content options.cid (before i) (after i)) := by
  obtain ⟨hrule, hlength, hends⟩ := h.obeys obeys_repairCopy
  rw [List.nil_append] at hends hlength
  have hshort : calls.length ≤ 14 := by rwa [List.length_nil, Nat.zero_add] at hlength
  refine ⟨hshort, fun front call back hcalls => hrule front call back hcalls, hends, ?_⟩
  rintro rfl
  cases hends with
  | @stored front call hfront hcall =>
      refine ⟨front.length, (length_snoc call).symm, ?_⟩
      exact (hserved _ call (List.getElem?_concat_length ..)).testifies hcall

end Peers

/-! ## A copy that is stored -/

namespace EmptyPeer

def options : RegisterPinnedOptions Nat where
  cid := 7
  name := "7"
  temporaryTtlMs := 45
  now := 100

def calls : List CopyCall :=
  [⟨.probeHave, .ok false⟩, ⟨.probeAccept, .ok true⟩, ⟨.requestStore, .ok ()⟩]

theorem trace_calls :
    Prog.Trace (fun _ _ => True) (Copying.repairCopy none) calls (.ok storedCopy) :=
  .act trivial (.act trivial (.act trivial .ret))

/-- The peer when its blocks are there, and when it has registered them. -/
def pulled : World Nat := { World.empty with blocks := {7} }

def registered : Except (LifecycleError Nat) (FileRecord Nat) × World Nat :=
  Prog.run (serve Content.flat) (registerPinnedFile options) pulled

theorem registered_ok : ∃ stored, registered.1 = .ok stored ∧ stored.replicaStage = none :=
  ⟨_, rfl, rfl⟩

def before : Nat → World Nat
  | 2 => pulled
  | _ => World.empty

def after : Nat → World Nat
  | 2 => registered.2
  | _ => World.empty

theorem served_probe : CopyServed Content.flat noFault options ⟨.probeHave, .ok false⟩
    World.empty World.empty := by
  have hread : Prog.Runs (storeSem Content.flat noFault) (Locked.get options.cid) World.empty
      (.ok none) World.empty := runs_noFault.mpr rfl
  have hpinned : Prog.Runs (storeSem Content.flat noFault) (hasDurablePin options.cid none)
      World.empty (.ok false) World.empty := runs_noFault.mpr rfl
  exact .probed hread hpinned

theorem served_accept : CopyServed Content.flat noFault options ⟨.probeAccept, .ok true⟩
    World.empty World.empty :=
  @CopyServed.accepted _ _ Content.flat noFault options (some 10) 0 0 World.empty

theorem served_store : CopyServed Content.flat noFault options ⟨.requestStore, .ok ()⟩
    pulled registered.2 := by
  obtain ⟨stored, hok, hnone⟩ := registered_ok
  have hrun : Prog.Runs (storeSem Content.flat noFault) (registerPinnedFile options) pulled
      (.ok stored) registered.2 := by
    rw [← hok]
    exact runs_noFault.mpr rfl
  have hreturned : Prog.Trace (fun _ _ => True)
      (if stored.replicaStage.isSome then throw (.busy options.cid) else pure stored :
        Job Nat (FileRecord Nat)) [] (.ok stored) := by
    rw [if_neg (by rw [hnone]; exact Bool.false_ne_true)]
    exact .ret
  have hjob : Prog.Trace (fun _ _ => True) (acceptReplica options {7})
      [⟨.run (.getRecord 7), .ok none⟩, ⟨.run (.importBlocks {7}), .ok ()⟩,
        ⟨.run (.registerPinnedFile options), .ok stored⟩] (.ok stored) :=
    .act trivial (.act trivial (.act trivial hreturned))
  refine .stored hjob fun answer hmem => ?_
  cases hmem with
  | tail _ hmem =>
      cases hmem with
      | tail _ hmem =>
          cases hmem with
          | head => exact hrun
          | tail _ hmem => cases hmem

end EmptyPeer

open EmptyPeer in
theorem repair_copy_truthful_stored :
    Testifies Content.flat 7 (before 2) (after 2) := by
  have hserved : ∀ i call, calls[i]? = some call →
      CopyServed Content.flat noFault options call (before i) (after i) := by
    intro i call hcall
    match i, hcall with
    | 0, hcall => cases hcall; exact served_probe
    | 1, hcall => cases hcall; exact served_accept
    | 2, hcall => cases hcall; exact served_store
    | i + 3, hcall => cases hcall
  obtain ⟨-, -, -, hstored⟩ := repair_copy_truthful trace_calls before after hserved
  obtain ⟨i, hi, h⟩ := hstored rfl
  cases hi
  exact h

end IpfsNode
