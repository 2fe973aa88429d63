import IpfsNode.Atomicity
import IpfsNode.StageOwnership
import IpfsNode.WireExchange

/-!
# What the answer to a stage says

The node that coordinates an upload knows the staged copies of its peers only
from their answers. It withdraws a copy later when the answer says that the copy
is staged, and when it does not know; a refusal with one of `UNSTAGED_CODES` it
takes for a peer that has nothing to withdraw.

`stage_answer_true` says that it may: whatever fails at the peer, a copy that is
reported staged is one that this peer may commit and abort, a copy that is
reported permanent is permanent, and after such a refusal the peer is as before.
-/

namespace IpfsNode

/-! ## What a stage leaves behind -/

section Truth

variable {Cid α : Type} [DecidableEq Cid] {content : Content Cid} {faults : Faults Cid}
variable {cid : Cid} {w w₁ w' : World Cid} {options : ReplicaStageTarget Cid} {name : String}

def NOT_RESTORED : String := "Replica staging failed and its baseline was not restored"

/-- A failure that restored what it found, or says that it did not. -/
def RefusedTruly (cid : Cid) (w : World Cid) (err : LifecycleError Cid) (w' : World Cid) : Prop :=
  (∃ errors, err = .aggregate errors NOT_RESTORED) ∨ Restored w w' cid

/-- Putting a record back restores it from whatever state. -/
theorem wp_restoreRecord_any (w₁ : World Cid) :
    Prog.wp (storeSem content faults) (restoreRecord cid (w.files.get cid)) (fun r w' =>
      w'.pins = w₁.pins ∧ ∀ u, r = .ok u →
        (w'.files.get cid).map FileRecord.unstamped =
          (w.files.get cid).map FileRecord.unstamped) w₁ := by
  unfold restoreRecord
  cases hget : w.files.get cid with
  | none =>
      refine wp_remove ⟨rfl, fun _ _ => ?_⟩ ⟨rfl, fun _ h => by cases h⟩
        ⟨rfl, fun _ h => by cases h⟩
      rw [World.get_remove, if_pos rfl]
  | some previous =>
      refine Prog.wp_bind.mpr (wp_save (fun hvalid => ⟨rfl, fun _ _ => ?_⟩)
        (fun hvalid => ⟨rfl, fun _ h => by cases h⟩) fun err => ⟨rfl, fun _ h => by cases h⟩)
      rw [World.get_put, if_pos (Registry.cid_of_get hget).symm]
      rfl

/-- A failed stage that took the pin back and put the record back, or says that it
did not. -/
theorem wp_restoreStageWrite_truly {createdPin : Bool} (err : LifecycleError Cid)
    (hkept : cid ∈ w.pins → createdPin = false ∧ cid ∈ w₁.pins)
    (hadded : createdPin = false → cid ∈ w₁.pins →
      cid ∈ w.pins ∨ ∃ record, w.files.get cid = some record ∧ record.pinned = true) :
    Prog.wp (storeSem content faults)
      (restoreStageWrite cid (w.files.get cid) createdPin err : Store Cid α)
      (fun r w' => ∃ err, r = .error err ∧ RefusedTruly cid w err w') w₁ := by
  have hunpin : Prog.wp (storeSem content faults)
      (compensating (if createdPin then unpinFile cid else pure false)) (fun r w₂ =>
        ∀ b, r = .ok b → (cid ∈ w.pins → cid ∈ w₂.pins) ∧ (cid ∈ w₂.pins →
          cid ∈ w.pins ∨ ∃ record, w.files.get cid = some record ∧ record.pinned = true)) w₁ := by
    refine wp_compensating_of ?_
    cases createdPin with
    | true =>
        refine wp_unpinFile (fun _ _ => ⟨fun hmem => ?_, fun hmem => ?_⟩)
          (fun _ h => by cases h) fun _ h => by cases h
        · cases (hkept hmem).1
        · exact absurd hmem (Finset.notMem_erase _ _)
    | false => exact fun _ _ => ⟨fun hmem => (hkept hmem).2, hadded rfl⟩
  refine Prog.wp_bind.mpr (Prog.wp_attempt.mpr (Prog.wp_mono (fun pinResult w₂ hpin => ?_) hunpin))
  refine Prog.wp_bind.mpr (Prog.wp_attempt.mpr (Prog.wp_mono (fun recordResult w' hr => ?_)
    (wp_compensating_of (wp_restoreRecord_any w₂))))
  cases pinResult with
  | error err' =>
      cases recordResult with
      | error err'' => exact ⟨_, rfl, .inl ⟨_, rfl⟩⟩
      | ok _ => exact ⟨_, rfl, .inl ⟨_, rfl⟩⟩
  | ok b =>
      cases recordResult with
      | error err'' => exact ⟨_, rfl, .inl ⟨_, rfl⟩⟩
      | ok u =>
          have hback : Restored w w' cid := by
            refine ⟨hr.2 u rfl, ?_, ?_⟩
            · rw [hr.1]
              exact (hpin b rfl).1
            · rw [hr.1]
              exact (hpin b rfl).2
          exact ⟨_, rfl, .inr hback⟩

/-- The copy that a success reports: staged for the transaction, and then to be
settled by the peer that asked, or permanent. -/
structure ReportsTruly (options : ReplicaStageTarget Cid) (result : ReplicaStageResult Cid)
    (w' : World Cid) : Prop where
  record : w'.files.get options.cid = some result.record
  pin : options.cid ∈ w'.pins
  staged : result.staged = true → ∃ origin,
    w'.Stages options.cid options.transactionId origin ∧
      isStageOwner origin options.originPeerId = true
  stable : result.staged = false → result.record.state = .confirmed ∧
    result.record.pinned = true ∧ result.record.heldLocally = true ∧
      result.record.replicaStage = none ∧ isAdmissionSettled result.record = true

/-- What is known when a stage ends. -/
def StagedTruly (options : ReplicaStageTarget Cid) (w : World Cid)
    (r : Except (LifecycleError Cid) (ReplicaStageResult Cid)) (w' : World Cid) : Prop :=
  match r with
  | .ok result => ReportsTruly options result w'
  | .error err => RefusedTruly options.cid w err w'

theorem StagedTruly.of_restoring {r : Except (LifecycleError Cid) (ReplicaStageResult Cid)}
    (h : ∃ err, r = .error err ∧ RefusedTruly options.cid w err w') :
    StagedTruly options w r w' := by
  obtain ⟨err, rfl, htruly⟩ := h
  exact htruly

theorem refusedTruly_same (err : LifecycleError Cid) : RefusedTruly cid w err w :=
  .inr ⟨rfl, id, .inl⟩

/-- A stored record with a stage that lists the transaction. -/
theorem reportsTruly_staged {record : FileRecord Cid} (hvalid : isFileRecord record = true)
    (hcid : record.cid = options.cid) (hpin : options.cid ∈ w₁.pins) {stage : ReplicaStage}
    (hstage : record.replicaStage = some stage)
    (hlisted : options.transactionId ∈ stage.transactionIds)
    (howner : isStageOwner (stage.origin options.transactionId) options.originPeerId = true) :
    ReportsTruly options ⟨record.stamped w₁.nextRevision, true⟩ (w₁.put record hvalid) where
  record := by rw [World.get_put, if_pos hcid.symm]
  pin := hpin
  staged _ := by
    refine ⟨stage.origin options.transactionId, ⟨stage, ?_, hlisted, rfl⟩, howner⟩
    unfold World.stage
    rw [World.get_put, if_pos hcid.symm]
    exact hstage
  stable h := by cases h

omit [DecidableEq Cid] in
theorem isStageOwner_none (origin : Option PeerId) : isStageOwner origin none = true := by
  unfold isStageOwner
  rw [Option.isNone_none, Bool.or_true, Bool.true_or]

omit [DecidableEq Cid] in
theorem isStageOwner_self (origin : Option PeerId) : isStageOwner origin origin = true := by
  unfold isStageOwner
  simp

omit [DecidableEq Cid] in
/-- Who stages a transaction owns it. -/
theorem isStageOwner_withOrigin {ids : List TransactionId} {previous : Option ReplicaStageBaseline}
    {transactionId : TransactionId} (origins : Option (List (TransactionId × PeerId)))
    (peer : Option PeerId) :
    isStageOwner (ReplicaStage.origin
      { transactionIds := ids, origins := withOrigin origins transactionId peer, previous }
      transactionId) peer = true := by
  cases peer with
  | none => exact isStageOwner_none _
  | some peer =>
      have horigin : ReplicaStage.origin
          { transactionIds := ids
            origins := withOrigin origins transactionId (some peer), previous }
          transactionId = some peer :=
        @origin_withOrigin transactionId ⟨ids, origins, previous⟩ ids peer
      rw [horigin]
      exact isStageOwner_self _

theorem wp_joinStage_truly {previous : FileRecord Cid} {stage : ReplicaStage}
    (hget : w.files.get options.cid = some previous) (hstage : previous.replicaStage = some stage) :
    Prog.wp (storeSem content faults) (joinStage options previous stage)
      (StagedTruly options w) w := by
  have hcid : previous.cid = options.cid := Registry.cid_of_get hget
  have hpin : options.cid ∈ (w.pin content options.cid).pins := by simp
  have hrestore : ∀ (w₁ : World Cid) err, options.cid ∈ w₁.pins →
      Prog.wp (storeSem content faults) (restoreStageWrite options.cid (some previous) false err)
        (StagedTruly options w) w₁ := by
    intro w₁ err hmem
    rw [← hget]
    exact Prog.wp_mono (fun _ _ => .of_restoring) (wp_restoreStageWrite_truly err
      (fun _ => ⟨rfl, hmem⟩) fun _ _ => .inr ⟨previous, hget, pinned_of_staged hget hstage⟩)
  unfold joinStage
  split
  · exact refusedTruly_same _
  · rename_i howner
    refine Prog.wp_bind.mpr (wp_pinFile ?_ (refusedTruly_same _))
    refine Prog.wp_tryCatch.mpr (Prog.wp_bind.mpr (wp_save (fun hvalid => ?_)
      (fun _ => hrestore _ _ hpin) fun _ => hrestore _ _ hpin))
    refine reportsTruly_staged hvalid hcid hpin rfl ?_ ?_
    · split
      · assumption
      · exact List.mem_append_right _ (.head _)
    · by_cases hlisted : options.transactionId ∈ stage.transactionIds
      · rw [if_pos hlisted, if_pos hlisted]
        simp only [hlisted, decide_true, Bool.true_and, Bool.not_eq_true', Bool.not_eq_false]
          at howner
        exact howner
      · rw [if_neg hlisted, if_neg hlisted]
        exact isStageOwner_withOrigin stage.origins _

/-- The record of a stable replica. -/
theorem reportsTruly_stable {previous : Option (FileRecord Cid)} {stats : DagStats}
    (hvalid : isFileRecord (stableReplicaRecord options previous name stats) = true)
    (hpin : options.cid ∈ w₁.pins)
    (hsettled : ∀ record, previous = some record → isAdmissionSettled record = true) :
    ReportsTruly options
      ⟨(stableReplicaRecord options previous name stats).stamped w₁.nextRevision, false⟩
      (w₁.put (stableReplicaRecord options previous name stats) hvalid) where
  record := World.get_put.trans (if_pos rfl)
  pin := hpin
  staged h := by cases h
  stable _ := by
    refine ⟨rfl, rfl, rfl, rfl, ?_⟩
    cases previous with
    | none => rfl
    | some record => exact hsettled record rfl

theorem wp_beginStage_truly
    (hsettled : ∀ record, w.files.get options.cid = some record →
      isAdmissionSettled record = true) :
    Prog.wp (storeSem content faults) (beginStage options name (w.files.get options.cid))
      (StagedTruly options w) w := by
  have hpin : options.cid ∈ (w.pin content options.cid).pins := by simp
  have hrestore : ∀ (w₁ : World Cid) err, options.cid ∈ w₁.pins →
      Prog.wp (storeSem content faults)
        (restoreStageWrite options.cid (w.files.get options.cid)
          (decide (options.cid ∉ w.pins)) err) (StagedTruly options w) w₁ := by
    intro w₁ err hmem
    refine Prog.wp_mono (fun _ _ => .of_restoring) (wp_restoreStageWrite_truly err
      (fun hold => ⟨decide_eq_false (not_not.mpr hold), hmem⟩) fun hcreated _ => .inl ?_)
    exact not_not.mp (of_decide_eq_false hcreated)
  refine Prog.wp_bind.mpr (wp_isDirectlyPinned ?_ (refusedTruly_same _))
  show Prog.wp _ (ite _ _ _) _ w
  split
  · refine Prog.wp_bind.mpr (wp_pinFile ?_ (refusedTruly_same _))
    refine Prog.wp_tryCatch.mpr (Prog.wp_bind.mpr
      (wp_statDag (fun _ => ?_) fun _ => hrestore _ _ hpin))
    exact Prog.wp_bind.mpr (wp_save (fun hvalid => reportsTruly_stable hvalid hpin hsettled)
      (fun _ => hrestore _ _ hpin) fun _ => hrestore _ _ hpin)
  · refine Prog.wp_bind.mpr (wp_pinFile ?_ (refusedTruly_same _))
    refine Prog.wp_tryCatch.mpr (Prog.wp_bind.mpr
      (wp_statDag (fun _ => ?_) fun _ => hrestore _ _ hpin))
    refine Prog.wp_bind.mpr (wp_save (fun hvalid => ?_)
      (fun _ => hrestore _ _ hpin) fun _ => hrestore _ _ hpin)
    exact reportsTruly_staged hvalid rfl hpin rfl (.head _) (isStageOwner_withOrigin none _)

/-- Whatever fails, a stage that ends reports what it left. -/
theorem wp_stageReplica_truly :
    Prog.wp (storeSem content faults) (stageReplica options name) (StagedTruly options w) w := by
  refine Prog.wp_bind.mpr (wp_request ?_ (fun h => by cases h) (fun h => by cases h))
  -- looking up the abort markers touches neither record nor pin
  set pruned := (StoreOp.effect content (.wasAborted options.cid options.transactionId
    options.originPeerId options.now) w).2
  have hsame {r : Except (LifecycleError Cid) (ReplicaStageResult Cid)} {w' : World Cid}
      (h : StagedTruly options pruned r w') : StagedTruly options w r w' := by
    cases r with
    | ok result => exact h
    | error err => exact h.imp id fun hback => ⟨hback.record, hback.kept, hback.added⟩
  have hrefused : ∀ err, StagedTruly options w (.error err) pruned :=
    fun err => .inr ⟨rfl, id, .inl⟩
  show Prog.wp _ (ite _ _ _) _ pruned
  split
  · exact hrefused _
  refine Prog.wp_bind.mpr (wp_get ?_ (hrefused _))
  show Prog.wp _ _ _ pruned
  refine Prog.wp_mono (fun _ _ => hsame) ?_
  have hbegin : (∀ record, pruned.files.get options.cid = some record →
      isAdmissionSettled record = true) → Prog.wp (storeSem content faults)
        (beginStage options name (pruned.files.get options.cid)) (StagedTruly options pruned)
        pruned := wp_beginStage_truly
  cases hget : pruned.files.get options.cid with
  | none =>
      rw [hget] at hbegin
      exact hbegin fun record h => by cases h
  | some previous =>
      rw [hget] at hbegin
      dsimp only
      cases hstage : previous.replicaStage with
      | some stage => exact wp_joinStage_truly hget hstage
      | none =>
          dsimp only
          split
          · exact refusedTruly_same _
          · split
            · exact refusedTruly_same _
            · rename_i hsettled
              refine hbegin fun record h => ?_
              cases h
              simpa using hsettled

end Truth

/-! ## What the coordinator concludes -/

open ReplicationProtocol

section Coordinator

variable {Cid : Type} [DecidableEq Cid] {content : Content Cid} {faults : Faults Cid}
variable {w w' : World Cid} {options : ReplicaStageTarget Cid} {name : String}
variable {text : Cid → String}

/-- The error of a lifecycle operation, as the protocol sees it. -/
def LifecycleError.thrown (text : Cid → String) (cause : String) (err : LifecycleError Cid) :
    HandlerError :=
  match err with
  | .busy _ => .busy (err.message text cause)
  | _ => .error (err.message text cause)

/-- What `acceptStagedReplica` answers, from the state in which it has the lock of
the CID: the DAG was not pulled, or the stage came to an end. -/
inductive StageServed (content : Content Cid) (faults : Faults Cid) (text : Cid → String)
    (options : ReplicaStageTarget Cid) (name : String) (w : World Cid) :
    Except HandlerError (Nat × Bool) → World Cid → Prop
  | notPulled (message : String) : StageServed content faults text options name w
      (.error (.error message)) w
  | failed {err w'} (cause : String)
      (hrun : Prog.Runs (storeSem content faults) (stageReplica options name) w (.error err) w') :
      StageServed content faults text options name w (.error (err.thrown text cause)) w'
  | served {result w'}
      (hrun : Prog.Runs (storeSem content faults) (stageReplica options name) w (.ok result) w') :
      StageServed content faults text options name w
        (.ok (protectedStorageBytes result.record, result.staged)) w'

omit [DecidableEq Cid] in
theorem code_of_notRestored (cause : String) (errors : List (LifecycleError Cid)) :
    failureResponse ((LifecycleError.aggregate errors NOT_RESTORED).thrown text cause) =
      .refused "Replication request failed" .failed := by
  show failureOfText NOT_RESTORED = _
  decide +kernel

/-- A refusal that the coordinator understands left the peer as it was. -/
theorem StageServed.restored {err : HandlerError} {error : String} {code : ReplicationErrorCode}
    (h : StageServed content faults text options name w (.error err) w')
    (hcode : failureResponse err = .refused error code)
    (hunstaged : isMaybeStagedError (.protocol error code) = false) :
    Restored w w' options.cid := by
  cases h with
  | notPulled message => exact ⟨rfl, id, .inl⟩
  | failed cause hrun =>
      have htruly : RefusedTruly options.cid w _ w' :=
        Prog.wp_iff_runs.mp wp_stageReplica_truly _ w' hrun
      rcases htruly with ⟨errors, rfl⟩ | hback
      · rw [code_of_notRestored] at hcode
        cases hcode
        cases hunstaged
      · exact hback

variable {json : JsonText} {accepts : String → Bool} {peerId : PeerId} {cid : String}
variable {toText : Json → String} {transport : ReplicationProtocol.Request → Delivery}

omit [DecidableEq Cid] in
/-- A handler is asked at the start of a stream. -/
theorem short_of_permitted {o : ServerOp}
    {received : Except String ReplicationProtocol.Request} {past : List ServerCall}
    (h : o.Permitted received peerId past) (hclosing : ¬ o.IsClosing) :
    (∃ response, o = .sendMessage response) ∨ past.length ≤ 1 := by
  cases o with
  | sendMessage response => exact .inl ⟨response, rfl⟩
  | close | onError message p | abortStream message => exact absurd trivial hclosing
  | isAuthorized p =>
      rw [h.2.1]
      exact .inr (Nat.zero_le _)
  | willAccept =>
      rcases h with ⟨_, -, hpast⟩ | ⟨_, -, hpast⟩
      · rw [hpast]
        exact .inr (Nat.zero_le _)
      · rw [hpast]
        exact .inr le_rfl
  | onRefused p op =>
      rw [h.2.1]
      exact .inr le_rfl
  | have_ cid | store cid =>
      rw [h.2]
      exact .inr le_rfl
  | cacheCopy cid p =>
      rw [h.2.2]
      exact .inr le_rfl
  | stage cid transactionId p | commit cid transactionId p | abort cid transactionId p =>
      rw [h.2.2]
      exact .inr le_rfl

/-- The peer did for the request what its log says. -/
structure StageHandled (content : Content Cid) (faults : Faults Cid) (text : Cid → String)
    (options : ReplicaStageTarget Cid) (name : String) (peerId : PeerId) (cid : String)
    (log : List ServerCall) (w w' : World Cid) : Prop where
  served : ∀ answer, ⟨.stage cid options.transactionId peerId, answer⟩ ∈ log →
    StageServed content faults text options name w answer w'
  idle : (∀ answer, ⟨.stage cid options.transactionId peerId, answer⟩ ∉ log) → w' = w

/-- A failed send does not read like a refusal. -/
def PlainSends (log : List ServerCall) : Prop :=
  ∀ response err, ⟨.sendMessage response, .error err⟩ ∈ log →
    failureResponse err = .refused "Replication request failed" .failed

theorem restored_of_refusal
    (e : Exchange json accepts peerId (.stage cid options.transactionId))
    (ht : transport (.stage cid options.transactionId) = .ok e.received)
    (hhandled : StageHandled content faults text options name peerId cid e.log w w')
    (hsends : PlainSends e.log) {error : String} {code : ReplicationErrorCode}
    (h : call toText json transport (.stage cid options.transactionId) =
      .error (.protocol error code))
    (hunstaged : isMaybeStagedError (.protocol error code) = false) :
    Restored w w' options.cid := by
  obtain ⟨past, rest, hlog, hreports⟩ := refusal_sound e ht h
  have hlaw := (streamed e.ran).1
  by_cases hasked : ∃ answer, ⟨.stage cid options.transactionId peerId, answer⟩ ∈ e.log
  · obtain ⟨answer, hmem⟩ := hasked
    obtain ⟨before, after, hsplit⟩ := List.append_of_mem hmem
    have hbefore : before = [⟨.isAuthorized peerId, .ok true⟩] :=
      (hlaw before _ _ after hsplit).2.2
    rw [hbefore] at hsplit
    rcases hreports with ⟨-, -, hop, -⟩ | ⟨-, -, -, hpast⟩ | ⟨front, o, err, hpast, hopen, hcode⟩
    · cases hop
    · rw [hsplit, hpast] at hlog
      cases hlog
    · have hfailed : e.log = front ++ ⟨o, .error err⟩ :: rest := by
        rw [hlog, hpast, List.append_assoc, List.singleton_append]
      have hpermitted : o.Permitted _ peerId front := hlaw front o _ rest hfailed
      rcases short_of_permitted hpermitted hopen with ⟨response, rfl⟩ | hshort
      · have hsent : ⟨.sendMessage response, .error err⟩ ∈ e.log := by
          rw [hfailed]
          exact List.mem_append_right _ (.head _)
        rw [hsends response err hsent] at hcode
        cases hcode
        cases hunstaged
      · -- the first effect was served, so the stage is what failed
        rw [hsplit] at hfailed
        match front, hshort with
        | [], _ => cases hfailed
        | [_], _ =>
            cases hfailed
            exact (hhandled.served _ hmem).restored hcode hunstaged
  · obtain rfl := hhandled.idle fun answer hmem => hasked ⟨answer, hmem⟩
    exact ⟨rfl, id, .inl⟩

theorem reported_of_ok
    (e : Exchange json accepts peerId (.stage cid options.transactionId))
    (ht : transport (.stage cid options.transactionId) = .ok e.received)
    (hhandled : StageHandled content faults text options name peerId cid e.log w w')
    {n : Option Json} {staged : Bool}
    (h : requestStage toText json transport cid options.transactionId =
      .ok (n, some (.bool staged))) :
    ∃ result, result.staged = staged ∧ ReportsTruly options result w' := by
  obtain ⟨bytes, staged', rest, heq, hlog⟩ := requestStage_sound e ht h
  cases heq
  have hmem : ⟨.stage cid options.transactionId peerId, .ok (bytes, staged)⟩ ∈ e.log := by
    rw [hlog]
    exact .tail _ (.head _)
  cases hhandled.served _ hmem with
  | @served result _ hrun =>
      exact ⟨result, rfl, Prog.wp_iff_runs.mp wp_stageReplica_truly _ w' hrun⟩

theorem requestStage_of_call {transactionId : TransactionId} {n : Nat} {staged : Bool}
    (h : call toText json transport (.stage cid transactionId) =
      (Response.stage n staged).outcome) :
    requestStage toText json transport cid transactionId =
      .ok (some (.nat n), some (.bool staged)) := by
  unfold requestStage
  rw [h]
  rfl

/-- What a peer's answer to a stage says is so, whatever fails at the peer: a copy
reported as staged is pinned, listed, and settled by this coordinator alone; one
reported as not staged is permanent; and after a refusal that the coordinator takes
for a peer with nothing to withdraw, record and pin are what they were. -/
theorem stage_answer_true
    (e : Exchange json accepts peerId (.stage cid options.transactionId))
    (ht : transport (.stage cid options.transactionId) = .ok e.received)
    (hhandled : StageHandled content faults text options name peerId cid e.log w w')
    (horigin : options.originPeerId = some peerId) (hsends : PlainSends e.log) :
    (∀ n, requestStage toText json transport cid options.transactionId =
        .ok (n, some (.bool true)) →
      options.cid ∈ w'.pins ∧ ∃ origin, w'.Stages options.cid options.transactionId origin ∧
        isStageOwner origin (some peerId) = true) ∧
    (∀ n, requestStage toText json transport cid options.transactionId =
        .ok (n, some (.bool false)) →
      options.cid ∈ w'.pins ∧ ∃ record, w'.files.get options.cid = some record ∧
        record.state = .confirmed ∧ record.pinned = true ∧ record.heldLocally = true ∧
        record.replicaStage = none ∧ isAdmissionSettled record = true) ∧
    ∀ error code, requestStage toText json transport cid options.transactionId =
        .error (.protocol error code) →
      isMaybeStagedError (.protocol error code) = false → Restored w w' options.cid := by
  refine ⟨fun n h => ?_, fun n h => ?_, fun error code h hunstaged => ?_⟩
  · obtain ⟨result, hstaged, htruly⟩ := reported_of_ok e ht hhandled h
    rw [← horigin]
    exact ⟨htruly.pin, htruly.staged hstaged⟩
  · obtain ⟨result, hstaged, htruly⟩ := reported_of_ok e ht hhandled h
    exact ⟨htruly.pin, result.record, htruly.record, htruly.stable hstaged⟩
  · have hrefused : call toText json transport (.stage cid options.transactionId) =
        .error (.protocol error code) := by
      unfold requestStage at h
      cases hcall : call toText json transport (.stage cid options.transactionId) with
      | error err =>
          rw [hcall] at h
          cases h
          rfl
      | ok response =>
          rw [hcall] at h
          cases h
    exact restored_of_refusal e ht hhandled hsends hrefused hunstaged

end Coordinator

/-! ## A copy that is staged -/

namespace StagedCopy

open WireExample KnownPeer

def options : ReplicaStageTarget Nat where
  cid := 7
  transactionId := "1b4e28ba"
  temporaryTtlMs := 45
  now := 100
  originPeerId := some "peer"

def dialogue : Dialogue where
  request := .stage WireExample.cid "1b4e28ba"
  requestText := WireExample.ascii
    ("\x7b\"op\":\"stage\",\"cid\":\"bafkreigh2akiscaildcqabsyg3dfr6chu3fgpregiymsck7e7aqa4s52zy\","
      ++ "\"transactionId\":\"1b4e28ba\"\x7d")
  response := .stage 1 true
  responseText := WireExample.ascii
    "\x7b\"ok\":true,\"op\":\"stage\",\"storedBytes\":1,\"staged\":true\x7d"
  accepted := by decide
  named := by decide
  succeeds := rfl
  differ := by decide +kernel
  short := by decide +kernel

theorem served_dialogue : dialogue.served.2 = [⟨.isAuthorized "peer", .ok true⟩,
    ⟨.stage WireExample.cid "1b4e28ba" "peer", .ok (1, true)⟩,
    ⟨.sendMessage (.stage 1 true), .ok ()⟩, ⟨.close, .ok ()⟩] := by
  unfold Dialogue.served serveStream
  rw [dialogue.received_request]
  rfl

theorem sent_dialogue : sentMessages dialogue.served.2 = [dialogue.response] := by
  rw [served_dialogue]
  rfl

/-- The peer before and after the stage. -/
def staged : Except (LifecycleError Nat) (ReplicaStageResult Nat) × World Nat :=
  Prog.run (serve Content.flat) (stageReplica options "7") World.empty

theorem staged_ok : ∃ result, staged.1 = .ok result ∧
    protectedStorageBytes result.record = 1 ∧ result.staged = true :=
  ⟨_, rfl, rfl, rfl⟩

theorem handled_dialogue : StageHandled Content.flat noFault (fun _ => WireExample.cid) options "7"
    "peer" WireExample.cid dialogue.served.2 World.empty staged.2 where
  served answer hmem := by
    rw [served_dialogue] at hmem
    cases hmem with
    | tail _ hmem =>
        cases hmem with
        | head =>
            obtain ⟨result, hok, hbytes, hstaged⟩ := staged_ok
            have hrun : Prog.Runs (storeSem Content.flat noFault) (stageReplica options "7")
                World.empty (.ok result) staged.2 := by
              rw [← hok]
              exact runs_noFault.mpr rfl
            rw [← hbytes, ← hstaged]
            exact .served hrun
        | tail _ hmem =>
            cases hmem with
            | tail _ hmem => cases hmem with | tail _ hmem => cases hmem
  idle hnever := by
    refine absurd ?_ (hnever (.ok (1, true)))
    rw [served_dialogue]
    exact .tail _ (.head _)

theorem plainSends_dialogue : PlainSends dialogue.served.2 := by
  intro response err hmem
  rw [served_dialogue] at hmem
  cases hmem with
  | tail _ hmem =>
      cases hmem with
      | tail _ hmem =>
          cases hmem with
          | tail _ hmem => cases hmem with | tail _ hmem => cases hmem

def exchange : Exchange dialogue.json isCid "peer"
    (.stage WireExample.cid options.transactionId) :=
  Dialogue.exchange sent_dialogue

theorem log_exchange : exchange.log = dialogue.served.2 := Dialogue.log_exchange sent_dialogue

theorem handled_exchange : StageHandled Content.flat noFault (fun _ => WireExample.cid) options "7"
    "peer" WireExample.cid exchange.log World.empty staged.2 := by
  rw [log_exchange]
  exact handled_dialogue

theorem plainSends_exchange : PlainSends exchange.log := by
  rw [log_exchange]
  exact plainSends_dialogue

theorem arrives (request : ReplicationProtocol.Request) :
    transport dialogue request = .ok exchange.received :=
  transport_exchange sent_dialogue request

end StagedCopy

open StagedCopy KnownPeer in
/-- The peer says that the copy is staged, and it is. -/
theorem stage_answer_true_staged : ∃ origin,
    World.Stages staged.2 options.cid options.transactionId origin ∧
      isStageOwner origin (some "peer") = true := by
  have hcall : call anyText dialogue.json (transport dialogue)
      (.stage WireExample.cid options.transactionId) = (Response.stage 1 true).outcome :=
    call_dialogue sent_dialogue
  exact ((stage_answer_true exchange (arrives _) handled_exchange rfl plainSends_exchange).1 _
    (requestStage_of_call hcall)).2

end IpfsNode
