import IpfsNode.Replication

/-!
# Placing one copy during an upload

`placeCopy` asks one peer whether it holds the file, whether it has room, and
then to stage it. A stale session is reset and the three questions are asked
once more. The answers are an input: `PlaceCalls` has one for every call that
can be made, in the order the calls are made, and a `stage` request carries
whether the peer applied it and kept a copy owned by the transaction, which the
answer need not say.

`staged_mark_iff` settles when the attempt that `replicate` records is marked,
so that an abort reaches the peer. The mark is computed from the last error
alone. A copy whose acknowledgement was lost in the first attempt is forgotten
when the second attempt is turned away before or at its own `stage`, and a lost
acknowledgement is forgotten when the text of its error reads as a refusal;
`Forgets` lists these ways, and there is no other.
-/

namespace IpfsNode

/-! ## Answers -/

/-- What one `stage` request comes to. A peer whose compensation failed may
have kept a copy behind a refusal, a lost answer says nothing either way. -/
inductive StageOutcome where
  | answered (staged : Bool)
  | refused (message : String) (code : ReplicationErrorCode) (kept : Bool)
  | lost (message : String) (kept : Bool)
deriving DecidableEq, Repr

/-- Whether the request left a temporary copy owned by its transaction. -/
def StageOutcome.left : StageOutcome → Bool
  | .answered staged => staged
  | .refused _ _ kept => kept
  | .lost _ kept => kept

def StageOutcome.answer : StageOutcome → Except CallError Bool
  | .answered staged => .ok staged
  | .refused message code _ => .error (.protocol message code)
  | .lost message _ => .error (.other message)

/-- The answers of one attempt. `store` is asked instead of `stage` when there
is no transaction. -/
structure AttemptCalls where
  probeHave : Except CallError Bool
  probeAccept : Except CallError Bool
  stage : StageOutcome
  store : Except CallError Unit
deriving DecidableEq

/-- The answers one peer gives while it is asked for one copy. -/
structure PlaceCalls where
  first : AttemptCalls
  /-- Whether a stale session could be reset and redialled. -/
  recovered : Bool
  second : AttemptCalls
  cache : Except CallError Unit
deriving DecidableEq

/-! ## The service -/

def noRoomForCopy : CallError := .other "peer has no room for another copy"

def attemptPlaceCopy (calls : AttemptCalls) (transactionId : Option TransactionId) :
    Except CallError ReplicationStoreResult := do
  if ← calls.probeHave then
    return { outcome := some .stored, staged := some false, error := none }
  if !(← calls.probeAccept) then
    throw noRoomForCopy
  match transactionId with
  | some _ =>
      let staged ← calls.stage.answer
      return { outcome := some .stored, staged := some staged, error := none }
  | none =>
      calls.store
      return { outcome := some .stored, staged := some false, error := none }

def failedStageResult (err : CallError) : ReplicationStoreResult :=
  { outcome := none, staged := some (isMaybeStagedError err), error := some err.message }

/-- The unpinned copy offered to a peer that does not know this node. -/
def placeCached (calls : PlaceCalls) : Except CallError ReplicationStoreResult := do
  calls.cache
  return { outcome := some .cached, staged := none, error := none }

def recoverOutboundReplicationSession (calls : PlaceCalls) (err : CallError) : Bool :=
  isStalePeerSessionError err.message && calls.recovered

/-- What a placement that will not be retried reports for its error. -/
def placeFailed (transactionId : Option TransactionId) (err : CallError) :
    Except CallError ReplicationStoreResult :=
  match transactionId with
  | some _ => .ok (failedStageResult err)
  | none => .error err

def placeCopy (calls : PlaceCalls) (transactionId : Option TransactionId) :
    Except CallError ReplicationStoreResult :=
  match attemptPlaceCopy calls.first transactionId with
  | .ok result => .ok result
  | .error err =>
      if isNotAuthorizedError err then placeCached calls
      else if recoverOutboundReplicationSession calls err then
        match attemptPlaceCopy calls.second transactionId with
        | .ok result => .ok result
        | .error retryErr =>
            if isNotAuthorizedError retryErr then placeCached calls
            else placeFailed transactionId retryErr
      else placeFailed transactionId err

/-! ## How one attempt ends -/

/-- The error an attempt for a transaction ends with. -/
def AttemptCalls.failure (calls : AttemptCalls) : Option CallError :=
  match calls.probeHave with
  | .error err => some err
  | .ok true => none
  | .ok false =>
      match calls.probeAccept with
      | .error err => some err
      | .ok false => some noRoomForCopy
      | .ok true =>
          match calls.stage.answer with
          | .error err => some err
          | .ok _ => none

/-- The attempt gets as far as its `stage` request. -/
def AttemptCalls.stages (calls : AttemptCalls) : Prop :=
  calls.probeHave = .ok false ∧ calls.probeAccept = .ok true

instance (calls : AttemptCalls) : Decidable calls.stages :=
  inferInstanceAs (Decidable (_ ∧ _))

def AttemptCalls.leftCopy (calls : AttemptCalls) : Prop :=
  calls.stages ∧ calls.stage.left = true

instance (calls : AttemptCalls) : Decidable calls.leftCopy :=
  inferInstanceAs (Decidable (_ ∧ _))

/-- The session is recovered and a second attempt is made. -/
def PlaceCalls.retried (calls : PlaceCalls) : Prop :=
  ∃ err ∈ calls.first.failure,
    isNotAuthorizedError err = false ∧ isStalePeerSessionError err.message = true ∧
      calls.recovered = true

instance (calls : PlaceCalls) : Decidable calls.retried :=
  inferInstanceAs (Decidable (∃ err ∈ calls.first.failure, _))

/-- Some `stage` request of the placement left a copy at the peer. -/
def PlaceCalls.leftCopy (calls : PlaceCalls) : Prop :=
  calls.first.leftCopy ∨ calls.retried ∧ calls.second.leftCopy

instance (calls : PlaceCalls) : Decidable calls.leftCopy :=
  inferInstanceAs (Decidable (_ ∨ _))

/-- The service takes the error for an answer that nothing was staged. -/
def readsAsRefusal (err : CallError) : Prop :=
  isNotAuthorizedError err = true ∨ isMaybeStagedError err = false

instance (err : CallError) : Decidable (readsAsRefusal err) :=
  inferInstanceAs (Decidable (_ ∨ _))

/-- The ways a prepared copy is forgotten. -/
inductive Forgets (calls : PlaceCalls) : Prop
  /-- The answer of the only attempt was lost, in an error that reads as a refusal. -/
  | misread {err} (hleft : calls.first.leftCopy) (herr : calls.first.failure = some err)
      (hread : readsAsRefusal err) (hlast : ¬ calls.retried)
  /-- The peer is asked again, and says it holds the file. -/
  | held (hleft : calls.first.leftCopy) (hretry : calls.retried)
      (hhave : calls.second.probeHave = .ok true)
  /-- The peer is asked again, and stages nothing because it holds the file. -/
  | durable (hleft : calls.first.leftCopy) (hretry : calls.retried)
      (hstages : calls.second.stages) (hstage : calls.second.stage = .answered false)
  /-- The second attempt fails in an error that reads as a refusal: it has no
  room, a probe is refused, or its own answer is lost so. -/
  | refused {err} (hleft : calls.first.leftCopy ∨ calls.second.leftCopy)
      (hretry : calls.retried) (herr : calls.second.failure = some err)
      (hread : readsAsRefusal err)

/-! ## The mark -/

/-- The attempt, were it the last, reports a copy the transaction still owns. -/
def AttemptCalls.marks (calls : AttemptCalls) : Prop :=
  match calls.failure with
  | some err => ¬ readsAsRefusal err
  | none => calls.stages ∧ calls.stage = .answered true

/-- A placement result that an abort will follow up. -/
def IsMarked (answer : Except CallError ReplicationStoreResult) : Prop :=
  ∃ result, answer = .ok result ∧ result.staged = some true

section Mark

variable {calls : PlaceCalls} {attempt : AttemptCalls} {transactionId : TransactionId}

theorem attemptPlaceCopy_failed {err : CallError} (h : attempt.failure = some err) :
    attemptPlaceCopy attempt (some transactionId) = .error err := by
  obtain ⟨have_, accept, stage, store⟩ := attempt
  rcases have_ with e | _ | _
  · obtain rfl : e = err := by simpa [AttemptCalls.failure] using h
    rfl
  · rcases accept with e | _ | _
    · obtain rfl : e = err := by simpa [AttemptCalls.failure] using h
      rfl
    · obtain rfl : noRoomForCopy = err := by simpa [AttemptCalls.failure] using h
      rfl
    · rcases hs : stage.answer with e | staged
      · obtain rfl : e = err := by simpa [AttemptCalls.failure, hs] using h
        simp only [attemptPlaceCopy, hs]
        rfl
      · simp [AttemptCalls.failure, hs] at h
  · simp [AttemptCalls.failure] at h

/-- An attempt that does not fail is marked when its `stage` was acknowledged. -/
theorem attemptPlaceCopy_isMarked (transactionId : TransactionId)
    (h : attempt.failure = none) :
    (∃ result, attemptPlaceCopy attempt (some transactionId) = .ok result) ∧
      (IsMarked (attemptPlaceCopy attempt (some transactionId)) ↔ attempt.marks) := by
  obtain ⟨have_, accept, stage, store⟩ := attempt
  rcases have_ with e | _ | _
  · simp [AttemptCalls.failure] at h
  · rcases accept with e | _ | _
    · simp [AttemptCalls.failure] at h
    · simp [AttemptCalls.failure] at h
    · cases stage with
      | answered staged =>
          have hrun : attemptPlaceCopy ⟨.ok false, .ok true, .answered staged, store⟩
              (some transactionId)
              = .ok { outcome := some .stored, staged := some staged, error := none } := rfl
          rw [hrun]
          exact ⟨⟨_, rfl⟩, by simp [IsMarked, AttemptCalls.marks, h, AttemptCalls.stages]⟩
      | refused message code kept =>
          simp [AttemptCalls.failure, StageOutcome.answer] at h
      | lost message kept => simp [AttemptCalls.failure, StageOutcome.answer] at h
  · have hrun : attemptPlaceCopy ⟨.ok true, accept, stage, store⟩ (some transactionId)
        = .ok { outcome := some .stored, staged := some false, error := none } := rfl
    rw [hrun]
    exact ⟨⟨_, rfl⟩, by simp [IsMarked, AttemptCalls.marks, h, AttemptCalls.stages]⟩

theorem not_isMarked_placeCached : ¬ IsMarked (placeCached calls) := by
  obtain ⟨first, recovered, second, cache⟩ := calls
  rintro ⟨result, h, hs⟩
  rcases cache with err | ⟨⟩
  · cases h
  · cases h
    cases hs

theorem isMarked_placeFailed {err : CallError} :
    IsMarked (placeFailed (some transactionId) err) ↔ isMaybeStagedError err = true := by
  simp [IsMarked, placeFailed, failedStageResult]

/-- What the last attempt reports, after the offer of an unpinned copy. -/
theorem isMarked_lastAttempt (calls : PlaceCalls) (transactionId : TransactionId)
    {err : CallError} (h : attempt.failure = some err) :
    IsMarked (if isNotAuthorizedError err then placeCached calls
      else placeFailed (some transactionId) err) ↔ attempt.marks := by
  have hmarks : attempt.marks ↔ ¬ readsAsRefusal err := by simp [AttemptCalls.marks, h]
  rw [hmarks]
  by_cases hauth : isNotAuthorizedError err = true
  · rw [if_pos hauth]
    exact iff_of_false not_isMarked_placeCached fun hn => hn (Or.inl hauth)
  · rw [if_neg hauth, isMarked_placeFailed]
    simp [readsAsRefusal, hauth]

/-- The result of a placement is marked as its last attempt is. -/
theorem isMarked_placeCopy :
    IsMarked (placeCopy calls (some transactionId)) ↔
      if calls.retried then calls.second.marks else calls.first.marks := by
  rcases hfirst : calls.first.failure with _ | err
  · have hretry : ¬ calls.retried := by simp [PlaceCalls.retried, hfirst]
    obtain ⟨⟨result, hok⟩, hmark⟩ :=
      attemptPlaceCopy_isMarked transactionId hfirst
    rw [if_neg hretry, ← hmark]
    simp only [placeCopy, hok]
  · have hstep : calls.retried ↔ isNotAuthorizedError err = false ∧
        recoverOutboundReplicationSession calls err = true := by
      simp [PlaceCalls.retried, hfirst, recoverOutboundReplicationSession]
    simp only [placeCopy, attemptPlaceCopy_failed hfirst]
    by_cases hretry : calls.retried
    · rw [if_pos hretry]
      obtain ⟨hauth, hrecover⟩ := hstep.mp hretry
      rw [if_neg (by simp [hauth]), if_pos hrecover]
      rcases hsecond : calls.second.failure with _ | retryErr
      · obtain ⟨⟨result, hok⟩, hmark⟩ :=
          attemptPlaceCopy_isMarked transactionId hsecond
        rw [← hmark]
        simp only [hok]
      · rw [attemptPlaceCopy_failed hsecond]
        exact isMarked_lastAttempt calls transactionId hsecond
    · rw [if_neg hretry]
      refine Iff.trans ?_ (isMarked_lastAttempt calls transactionId hfirst)
      by_cases hauth : isNotAuthorizedError err = true
      · simp only [hauth, if_true]
      · have hrecover : recoverOutboundReplicationSession calls err = false := by
          by_contra hr
          exact hretry (hstep.mpr ⟨by simpa using hauth, by simpa using hr⟩)
        simp only [hauth, hrecover]
        rfl

/-- What an attempt that is not marked was answered. -/
theorem not_marks_iff : ¬ attempt.marks ↔
    (∃ err, attempt.failure = some err ∧ readsAsRefusal err) ∨
      attempt.probeHave = .ok true ∨ attempt.stages ∧ attempt.stage = .answered false := by
  obtain ⟨have_, accept, stage, store⟩ := attempt
  rcases have_ with e | _ | _
  · simp [AttemptCalls.marks, AttemptCalls.failure, AttemptCalls.stages]
  · rcases accept with e | _ | _
    · simp [AttemptCalls.marks, AttemptCalls.failure, AttemptCalls.stages]
    · simp [AttemptCalls.marks, AttemptCalls.failure, AttemptCalls.stages]
    · cases stage <;>
        simp [AttemptCalls.marks, AttemptCalls.failure, AttemptCalls.stages,
          StageOutcome.answer]
  · simp [AttemptCalls.marks, AttemptCalls.failure, AttemptCalls.stages]

/-- An acknowledged copy is marked, so an unmarked attempt that left one failed. -/
theorem failure_of_leftCopy (hleft : attempt.leftCopy) (hmarks : ¬ attempt.marks) :
    ∃ err, attempt.failure = some err ∧ readsAsRefusal err := by
  obtain ⟨⟨hhave, haccept⟩, hstage⟩ := hleft
  rcases not_marks_iff.mp hmarks with h | h | ⟨-, h⟩
  · exact h
  · rw [hhave] at h
    cases h
  · rw [h] at hstage
    cases hstage

/-- A copy that was left is marked by the last attempt unless it is forgotten. -/
theorem marks_iff_not_forgets :
    (calls.leftCopy → if calls.retried then calls.second.marks else calls.first.marks) ↔
      ¬ Forgets calls := by
  constructor
  · intro h hforgets
    cases hforgets with
    | misread hleft herr hread hlast =>
        have hm := h (Or.inl hleft)
        rw [if_neg hlast] at hm
        exact not_marks_iff.mpr (Or.inl ⟨_, herr, hread⟩) hm
    | held hleft hretry hhave =>
        have hm := h (Or.inl hleft)
        rw [if_pos hretry] at hm
        exact not_marks_iff.mpr (Or.inr (Or.inl hhave)) hm
    | durable hleft hretry hstages hstage =>
        have hm := h (Or.inl hleft)
        rw [if_pos hretry] at hm
        exact not_marks_iff.mpr (Or.inr (Or.inr ⟨hstages, hstage⟩)) hm
    | refused hleft hretry herr hread =>
        have hm := h (hleft.imp_right fun hl => ⟨hretry, hl⟩)
        rw [if_pos hretry] at hm
        exact not_marks_iff.mpr (Or.inl ⟨_, herr, hread⟩) hm
  · intro hkeeps hleft
    by_contra hmarks
    apply hkeeps
    by_cases hretry : calls.retried
    · rw [if_pos hretry] at hmarks
      rcases hleft with hfirst | ⟨-, hsecond⟩
      · rcases not_marks_iff.mp hmarks with ⟨err, herr, hread⟩ | hhave | ⟨hstages, hstage⟩
        · exact .refused (Or.inl hfirst) hretry herr hread
        · exact .held hfirst hretry hhave
        · exact .durable hfirst hretry hstages hstage
      · obtain ⟨err, herr, hread⟩ := failure_of_leftCopy hsecond hmarks
        exact .refused (Or.inr hsecond) hretry herr hread
    · rw [if_neg hretry] at hmarks
      have hfirst : calls.first.leftCopy := hleft.resolve_right fun hr => hretry hr.1
      obtain ⟨err, herr, hread⟩ := failure_of_leftCopy hfirst hmarks
      exact .misread hfirst herr hread hretry

end Mark

/-! ## The report of an upload -/

section Report

variable {Cid : Type} (score : Score Cid) (cid : Cid) (ageMs : Nat)
variable (selfPeerId : PeerId) (peers : List ReplicationPeer) (config : ReplicationConfig)

/-- The answers of a node that is offered an unpinned copy. -/
structure CacheCalls where
  first : Except CallError Unit
  recovered : Bool
  second : Except CallError Unit
deriving DecidableEq

def cacheOnly (calls : CacheCalls) : Except CallError Unit :=
  match calls.first with
  | .ok () => .ok ()
  | .error err =>
      if isStalePeerSessionError err.message && calls.recovered then calls.second
      else .error err

/-- `placeReplicas` with `placeCopy`: the report of one file of an upload,
given what every peer would answer. -/
def placeUploaded (transactionId : Option TransactionId)
    (calls : PeerId → PlaceCalls) (cacheCalls : PeerId → CacheCalls) : ReplicationReport :=
  replicate score cid ageMs selfPeerId peers config
    (fun peer => placeCopy (calls peer.peerId) transactionId)
    (some fun peer => cacheOnly (cacheCalls peer.peerId))

variable {score cid ageMs selfPeerId peers config}
variable {transactionId : TransactionId} {calls : PeerId → PlaceCalls}
variable {cacheCalls : PeerId → CacheCalls}

/-- A report has a marked attempt for exactly the holders whose placement is marked. -/
theorem exists_staged_attempt_iff {peerId : PeerId} :
    (∃ attempt ∈ (placeUploaded score cid ageMs selfPeerId peers config
        (some transactionId) calls cacheCalls).attempts,
      attempt.peerId = peerId ∧ attempt.staged = some true) ↔
    config.enabled = true ∧
      peerId ∈ (replicationTargets score cid ageMs selfPeerId peers config).map (·.peerId) ∧
      IsMarked (placeCopy (calls peerId) (some transactionId)) := by
  constructor
  · rintro ⟨attempt, hmem, rfl, hs⟩
    obtain ⟨hen, peer, hpeer, rfl⟩ := (mem_attempts_staged hs).mp hmem
    refine ⟨hen, ?_, ?_⟩
    · rw [storeAttempt_peerId]
      exact List.mem_map_of_mem hpeer
    · rw [storeAttempt_peerId]
      exact storeAttempt_staged.mp hs
  · rintro ⟨hen, htarget, hmark⟩
    obtain ⟨peer, hpeer, rfl⟩ := List.mem_map.mp htarget
    have hs : (storeAttempt peer (placeCopy (calls peer.peerId) (some transactionId))).staged
        = some true := storeAttempt_staged.mpr hmark
    refine ⟨_, (mem_attempts_staged hs).mpr ⟨hen, peer, hpeer, rfl⟩, ?_, hs⟩
    rw [storeAttempt_peerId]

/-- The attempt recorded for a holder covers the copy a lost or acknowledged
`stage` request left there, unless the copy is forgotten in one of the ways of
`Forgets`. -/
theorem staged_mark_iff (calls : PeerId → PlaceCalls) {peerId : PeerId}
    (henabled : config.enabled = true)
    (htarget : peerId ∈
      (replicationTargets score cid ageMs selfPeerId peers config).map (·.peerId)) :
    ((calls peerId).leftCopy →
      ∃ attempt ∈ (placeUploaded score cid ageMs selfPeerId peers config
          (some transactionId) calls cacheCalls).attempts,
        attempt.peerId = peerId ∧ attempt.staged = some true) ↔
      ¬ Forgets (calls peerId) := by
  rw [← marks_iff_not_forgets]
  refine imp_congr_right fun _ => ?_
  rw [exists_staged_attempt_iff, isMarked_placeCopy]
  exact ⟨fun h => h.2.2, fun h => ⟨henabled, htarget, h⟩⟩

end Report

/-! ### A peer that staged and then ran out of room -/

/-- The peer stages the copy, the answer is lost with the stream, and the
second attempt is told that there is no room: the staged copy took it. -/
def resetThenFull : PlaceCalls where
  first :=
    { probeHave := .ok false, probeAccept := .ok true
      stage := .lost "The stream has been reset" true, store := .ok () }
  recovered := true
  second :=
    { probeHave := .ok false, probeAccept := .ok false
      stage := .answered true, store := .ok () }
  cache := .ok ()

/-- A two-node network that keeps every file on both nodes. -/
def twoNodes : ReplicationConfig where
  enabled := true
  placement := [⟨0, 2⟩]
  ackQuorum := 2

theorem resetThenFull_unmarked : resetThenFull.leftCopy ∧
    ¬ ∃ attempt ∈ (placeUploaded (fun _ _ => 0) "file" 0 "self" [⟨"peer", "peer"⟩] twoNodes
        (some "upload") (fun _ => resetThenFull) (fun _ => ⟨.ok (), false, .ok ()⟩)).attempts,
      attempt.peerId = "peer" ∧ attempt.staged = some true := by
  decide

/-- The same loss on a session that cannot be recovered. -/
def resetOnly : PlaceCalls :=
  { resetThenFull with recovered := false }

theorem staged_mark_iff_resetOnly :
    (resetOnly.leftCopy →
      ∃ attempt ∈ (placeUploaded (fun _ _ => 0) "file" 0 "self" [⟨"peer", "peer"⟩] twoNodes
          (some "upload") (fun _ => resetOnly) (fun _ => ⟨.ok (), false, .ok ()⟩)).attempts,
        attempt.peerId = "peer" ∧ attempt.staged = some true) ↔
      ¬ Forgets resetOnly := by
  have htarget : "peer" ∈ (replicationTargets (fun _ _ => 0) "file" 0 "self"
      [⟨"peer", "peer"⟩] twoNodes).map (·.peerId) := by decide
  exact staged_mark_iff (fun _ => resetOnly) rfl htarget

end IpfsNode
