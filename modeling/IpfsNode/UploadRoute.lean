import IpfsNode.Operations

/-!
# The upload handler

`createUploadHandler` as a job: one section that admits all parts, the
placement of copies while no lock is held, one section that commits the local
decision, and the clean-up of the tokens. Every way out before the decision
undoes the admission, and a strict upload withdraws the copies that were
prepared elsewhere.
-/

namespace IpfsNode

structure UploadRequest (Cid : Type) where
  admissionId : AdmissionId
  /-- The imported parts, all in the blockstore and not pinned yet. -/
  files : List (UploadFile Cid)
  /-- Whether the session could still be claimed. -/
  claimed : Bool
  confirmationRequired : Bool
  temporaryTtlMs : Nat
  requireQuorumOnUpload : Bool
  now : Nat
  settledAt : Nat
deriving DecidableEq, Repr

/-- What a report tells a client. -/
structure PublicReplicationReport where
  mode : ReplicationMode
  desiredCopies : Nat
  copies : Nat
  required : Nat
  acknowledged : Nat
  replicaCount : Nat
  cachedCount : Nat
  satisfied : Bool
  networkTooSmall : Bool
  failedAttemptCount : Nat
  attempts : List (Bool × Option PlacementOutcome × Option Bool)
deriving DecidableEq, Repr

def toPublicReplicationReport (report : ReplicationReport) : PublicReplicationReport :=
  { mode := report.mode, desiredCopies := report.desiredCopies, copies := report.copies
    required := report.required, acknowledged := report.acknowledged
    replicaCount := report.replicas.length, cachedCount := report.cached.length
    satisfied := report.satisfied, networkTooSmall := report.networkTooSmall
    failedAttemptCount := (report.attempts.filter (!·.ok)).length
    attempts := report.attempts.map fun attempt =>
      (attempt.ok, attempt.outcome, attempt.staged) }

structure UploadedFile (Cid : Type) where
  cid : Cid
  name : String
  state : FileState
  expiresAt : Option Nat
  replication : Option PublicReplicationReport
deriving DecidableEq, Repr

inductive UploadResponse (Cid : Type) where
  /-- 400. -/
  | noFile
  /-- 503. -/
  | replicationQuorum
  | sent (filesNames : List String) (files : List (UploadedFile Cid))
      (replication : Option PublicReplicationReport)
deriving DecidableEq, Repr

section Handler

variable {Cid : Type} [DecidableEq Cid]

def UploadRequest.admission (request : UploadRequest Cid) : AdmitOptions :=
  { confirmationRequired := request.confirmationRequired
    temporaryTtlMs := request.temporaryTtlMs, now := request.now
    admissionId := request.admissionId }

/-- The transaction under which copies are prepared. -/
def UploadRequest.transactionId (request : UploadRequest Cid) : Option TransactionId :=
  if request.requireQuorumOnUpload then some request.admissionId else none

/-- The placements of a request. -/
abbrev Replication (Cid : Type) := List (Cid × ReplicationReport)

def Replication.reports (replication : Replication Cid) : Reports Cid :=
  fun cid => (replication.find? (·.1 = cid)).map (·.2)

/-- The files to place, each once. -/
def durableCids (records : List (FileRecord Cid)) : List Cid :=
  ((records.filter (·.state = .confirmed)).map (·.cid)).eraseDups

/-- Withdraw the prepared copies of every file, and collect what went wrong. -/
def abortEach (admissionId : AdmissionId) :
    Replication Cid → Job Cid (List (LifecycleError Cid))
  | [] => pure []
  | (cid, report) :: rest => do
      let aborted ← Prog.attempt (ask (.abortReplicas cid admissionId report))
      let failures ← abortEach admissionId rest
      pure (failureOf aborted ++ failures)

/-- Make the prepared copies of every file permanent; what each came to. -/
def commitEach (admissionId : AdmissionId) :
    Replication Cid → Job Cid (List (Cid × Except (LifecycleError Cid) ReplicationReport))
  | [] => pure []
  | (cid, report) :: rest => do
      let committed ← Prog.attempt (ask (.commitReplicas cid admissionId report))
      let others ← commitEach admissionId rest
      pure ((cid, committed) :: others)

/-- Withdraw copies and undo the admission. -/
def abandonUpload (request : UploadRequest Cid) (admitted : Admitted Cid)
    (replication : Replication Cid) : Job Cid (List (LifecycleError Cid)) := do
  let failures ← abortEach request.admissionId replication
  let undone ← Prog.attempt
    (locked (.rollbackAdmitted admitted.baselines request.admissionId))
  pure (failures ++ failureOf undone)

def uploadedFile (replication : Replication Cid) (finalized : List (FileRecord Cid))
    (record : FileRecord Cid) : UploadedFile Cid :=
  let record := (finalized.find? (·.cid = record.cid)).getD record
  { cid := record.cid, name := record.name, state := record.state
    expiresAt := record.expiresAt
    replication := (replication.reports record.cid).map toPublicReplicationReport }

/-- `finalized` are the records as they were stored last, the newest first. -/
def sendUploaded (request : UploadRequest Cid) (admitted : Admitted Cid)
    (replication : Replication Cid) (finalized : List (FileRecord Cid)) :
    UploadResponse Cid :=
  .sent (request.files.map (·.originalname))
    (admitted.records.map (uploadedFile replication finalized))
    (replication.head?.map fun item => toPublicReplicationReport item.2)

/-- The replication of a strict upload once its copies are committed. -/
def Replication.committed (replication : Replication Cid)
    (commits : List (Cid × Except (LifecycleError Cid) ReplicationReport)) :
    Replication Cid :=
  replication.map fun (cid, report) =>
    match commits.find? (·.1 = cid) with
    | some (_, .ok committed) => (cid, committed)
    | _ => (cid, report)

def committedCids (commits : List (Cid × Except (LifecycleError Cid) ReplicationReport)) :
    List Cid :=
  commits.filterMap fun (cid, result) =>
    match result with
    | .ok _ => some cid
    | .error _ => none

/-- What follows the local decision, which nothing undoes any more. -/
def settleUpload (request : UploadRequest Cid) (admitted : Admitted Cid)
    (replication : Replication Cid) (finalized : List (FileRecord Cid)) :
    Job Cid (UploadResponse Cid) := do
  if request.requireQuorumOnUpload then do
    let commits ← commitEach request.admissionId replication
    let replication := replication.committed commits
    let cleared : List (FileRecord Cid) ← locked (.clearSettledAdmissions replication.reports request.admissionId
      (committedCids commits))
    match commits.flatMap fun commit => failureOf commit.2 with
    | [] => pure (sendUploaded request admitted replication (cleared ++ finalized))
    | failures => throw (.aggregate failures "Could not commit every required replica")
  else do
    let cleared : List (FileRecord Cid) ← locked (.clearSettledAdmissions replication.reports request.admissionId
      (finalized.map (·.cid)))
    pure (sendUploaded request admitted replication (cleared ++ finalized))

/-- Refuse an upload that missed its quorum, or commit it. -/
def decideUpload (request : UploadRequest Cid) (admitted : Admitted Cid)
    (replication : Replication Cid) : Job Cid (UploadResponse Cid) := do
  if request.requireQuorumOnUpload && !replication.all (·.2.satisfied) then do
    let failures ← abandonUpload request admitted replication
    if failures.isEmpty then pure .replicationQuorum
    else throw (.aggregate failures
      "Replication quorum was missed and rollback was incomplete")
  else do
    let decided ← Prog.attempt (locked (.finalizeAdmitted
      (admitted.records.map (·.cid)).eraseDups admitted.baselines replication.reports
      request.admissionId request.settledAt))
    match decided with
    | .ok finalized => settleUpload request admitted replication finalized
    | .error err => do
        let failures ← abandonUpload request admitted replication
        throw (.aggregate (err :: failures)
          "Upload decision could not be committed or restored")

/-- Place copies of an admitted upload, all files at once. -/
def placeUpload (request : UploadRequest Cid) (admitted : Admitted Cid) :
    Job Cid (UploadResponse Cid) := do
  let cids := durableCids admitted.records
  let placed ← Prog.attempt (ask (.replicate cids request.transactionId))
  match placed with
  | .ok reports => decideUpload request admitted (cids.map fun cid => (cid, reports cid))
  | .error err => do
      let undone ← Prog.attempt
        (locked (.rollbackAdmitted admitted.baselines request.admissionId))
      match undone with
      | .ok _ => throw err
      | .error rollbackError => throw (.aggregate [err, rollbackError]
          "Replication failed and the upload could not be fully restored")

def handleUpload (request : UploadRequest Cid) : Job Cid (UploadResponse Cid) := do
  if request.files.isEmpty then pure .noFile
  else if !request.claimed then throw .uploadAborted
  else do
    let admitted ← locked (.admitUpload request.admission request.files)
    placeUpload request admitted

/-- The request runs from `beginAdmission` to `endAdmission`, whatever happens. -/
def uploadHandler (request : UploadRequest Cid) : Job Cid (UploadResponse Cid) := do
  locked (.beginAdmission request.admissionId)
  let result ← Prog.attempt (handleUpload request)
  locked (.endAdmission request.admissionId)
  Prog.ofExcept result

end Handler

end IpfsNode
