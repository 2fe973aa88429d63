import IpfsNode.Lifecycle

/-!
# Maintenance of single files

The compound operations that background jobs perform on one CID under its
lock: recovery of interrupted uploads, the claim and the bookkeeping of a
replication repair, the rescue of an orphaned file, the handover of a copy to
its holders, and the backfill of a pin without a record. Each was decided from
a record read earlier and re-reads it before it acts.
-/

namespace IpfsNode

section Admissions

variable {Cid : Type}

/-- Clear the token of an upload that can no longer resume. -/
def recoverInterruptedAdmission (cid : Cid) : Store Cid Bool := do
  let current ← Locked.get cid
  match current with
  | none => pure false
  | some current => do
      let proc ← process
      if current.admissionId.isNone || proc.isActiveAdmission current.admissionId
          || isAdmissionSettled current then pure false
      else do
        let _ ← Locked.save current.withoutAdmission
        pure true

/-- Drop the settled token that a repair pass read with `record`. -/
def clearSettledUnderLock (record : FileRecord Cid) : Store Cid Unit := do
  let current ← Locked.get record.cid
  match current with
  | none => pure ()
  | some current => do
      let proc ← process
      if current.admissionId ≠ record.admissionId || !isAdmissionSettled current
          || proc.isActiveAdmission current.admissionId then pure ()
      else do
        let _ ← Locked.save current.withoutAdmission
        pure ()

def clearSettledAdmission (record : FileRecord Cid) : Store Cid Unit := do
  let proc ← process
  if record.admissionId.isNone || proc.isActiveAdmission record.admissionId then pure ()
  else clearSettledUnderLock record

end Admissions

section Repair

variable {Cid : Type} [DecidableEq Cid]

def beginRepair (cid : Cid) : Store Cid Bool := request (.beginRepair cid)

/-- Claim the revision selected for repair. -/
def claimRepairRecord (selected : FileRecord Cid) : Store Cid Bool := do
  let current ← Locked.get selected.cid
  match current with
  | none => pure false
  | some current => do
      let proc ← process
      if current.revision ≠ selected.revision || !isSettledHeldFile proc current then
        pure false
      else beginRepair selected.cid

def setReplicas (cid : Cid) (replicas : List String) :
    Store Cid (Option (FileRecord Cid)) := do
  let record ← Locked.get cid
  match record with
  | none => pure none
  | some record => do
      let stored ← Locked.save { record with replicas }
      pure (some stored)

/-- The record of a file whose local copy is kept again. -/
def rescuedRecord (current : FileRecord Cid) : FileRecord Cid :=
  { current with
    pinned := true
    heldLocally := true
    admissionId := none
    admissionSettledAt := none
    replicaStage := none }

/-- Keep the local copy of a confirmed file that nobody else holds. -/
def rescueOrphanedFile (record : FileRecord Cid) :
    Store Cid (Option (FileRecord Cid)) := do
  let current ← Locked.get record.cid
  match current with
  | none => pure none
  | some current =>
      if current.revision ≠ record.revision || current.state ≠ .confirmed
          || current.heldLocally then pure none
      else do
        let createdPin ← pinFile record.cid
        try
          let stored ← Locked.save (rescuedRecord current)
          pure (some stored)
        catch err =>
          if createdPin && current.pinned = false then do
            let _ ← compensating (unpinFile record.cid)
            throw err
          else throw err

/-- Drop a local copy that its designated holders have. -/
def demoteCopy (record : FileRecord Cid) : Store Cid Bool := do
  let current ← Locked.get record.cid
  match current with
  | none => pure false
  | some current => do
      let proc ← process
      if current.revision ≠ record.revision || current.state ≠ .confirmed
          || !current.heldLocally || isLifecycleBusy proc current then pure false
      else do
        let removedPin ← unpinFile record.cid
        try
          let _ ← Locked.save (current.released current.state)
          pure true
        catch err =>
          if removedPin && current.pinned then do
            let _ ← compensating (pinFile record.cid)
            throw err
          else throw err

end Repair

/-! ## Backfill -/

structure BackfillOptions where
  confirmationRequired : Bool
  temporaryTtlMs : Nat
  now : Nat
deriving DecidableEq, Repr

section Backfill

variable {Cid : Type}

/-- Record a file, but only while the registry does not know it. -/
def createIfAbsent (record : FileRecord Cid) : Store Cid (Option (FileRecord Cid)) := do
  let existing ← Locked.get record.cid
  match existing with
  | some _ => pure none
  | none => do
      let stored ← Locked.save record
      pure (some stored)

/-- The record of a pin that has none. A pin intent means that an upload was
interrupted between its pin and its registration. -/
def backfilledRecord (options : BackfillOptions) (cid : Cid) (name : String)
    (stats : DagStats) (interrupted : Bool) : FileRecord Cid :=
  let treatAsTemporary := interrupted && options.confirmationRequired
  { cid
    name
    state := if treatAsTemporary then .temporary else .confirmed
    createdAt := options.now
    expiresAt := if treatAsTemporary then some (options.now + options.temporaryTtlMs) else none
    confirmedAt := if treatAsTemporary then none else some options.now
    fileSize := stats.size
    storedBytes := stats.deduplicatedDagSize
    protectedBytes := some stats.deduplicatedDagSize
    pinned := true
    heldLocally := true
    replicas := []
    admissionId := none
    admissionSettledAt := none
    replicaStage := none
    revision := none }

end Backfill

/-! ## What a policy has to allow -/

section Policies

variable {Cid : Type} {content : Content Cid} {P : Policy Cid} [DecidableEq Cid]

theorem safe_recoverInterruptedAdmission {cid : Cid}
    (hsave : ∀ current proc, P.Reads cid (some current) → P.process proc →
      current.admissionId.isSome = true → proc.isActiveAdmission current.admissionId = false →
      isAdmissionSettled current = false → P.Allows current.withoutAdmission) :
    Safe content P (recoverInterruptedAdmission cid) := by
  refine safe_get_bind fun current hread => ?_
  cases current with
  | none => exact safe_pure _
  | some current =>
      refine safe_process_bind fun proc hproc => ?_
      split
      · exact safe_pure _
      · rename_i hskip
        simp only [Bool.or_eq_true, not_or, Bool.not_eq_true, Option.isNone_eq_false_iff]
          at hskip
        have hsave := hsave current proc hread hproc hskip.1.1 hskip.1.2 hskip.2
        exact safe_bind (safe_save hsave) fun _ => safe_pure _

theorem safe_clearSettledAdmission {record : FileRecord Cid}
    (hsave : ∀ current proc, P.Reads record.cid (some current) → P.process proc →
      isAdmissionSettled current = true →
      proc.isActiveAdmission current.admissionId = false → P.Allows current.withoutAdmission) :
    Safe content P (clearSettledAdmission record) := by
  refine safe_process_bind fun _ _ => ?_
  split
  · exact safe_pure _
  refine safe_get_bind fun current hread => ?_
  cases current with
  | none => exact safe_pure _
  | some current =>
      refine safe_process_bind fun proc hproc => ?_
      split
      · exact safe_pure _
      · rename_i hskip
        simp only [Bool.or_eq_true, not_or, decide_eq_true_eq, not_not,
          Bool.not_eq_true', Bool.not_eq_false, Bool.not_eq_true] at hskip
        have hsave := hsave current proc hread hproc hskip.1.2 hskip.2
        exact safe_bind (safe_save hsave) fun _ => safe_pure _

theorem safe_setReplicas {cid : Cid} {replicas : List String}
    (hsave : ∀ record, P.Reads cid (some record) → P.Allows { record with replicas }) :
    Safe content P (setReplicas cid replicas) := by
  refine safe_get_bind fun record hread => ?_
  cases record with
  | none => exact safe_pure _
  | some record => exact safe_bind (safe_save (hsave record hread)) fun _ => safe_pure _

theorem safe_rescueOrphanedFile {record : FileRecord Cid}
    (hsave : ∀ current, P.Reads record.cid (some current) → current.state = .confirmed →
      current.heldLocally = false → P.Allows (rescuedRecord current)) :
    Safe content P (rescueOrphanedFile record) := by
  refine safe_get_bind fun current hread => ?_
  cases current with
  | none => exact safe_pure _
  | some current =>
      dsimp only
      split
      · exact safe_pure _
      · rename_i hskip
        simp only [Bool.or_eq_true, not_or, decide_eq_true_eq, not_not, Bool.not_eq_true]
          at hskip
        have hsave := hsave current hread hskip.1.2 hskip.2
        refine (keeps_pinFile _).safe_bind fun createdPin hpin => ?_
        refine safe_tryCatch (safe_bind (safe_save hsave) fun _ => safe_pure _) fun err => ?_
        split
        · rename_i hcreated
          rw [Bool.and_eq_true] at hcreated
          have hpin := hpin (congrArg Except.ok hcreated.1)
          exact safe_bind (safe_compensating (safe_unpinFile hpin)) fun _ => safe_throw _
        · exact safe_throw _

theorem safe_demoteCopy {record : FileRecord Cid}
    (hsave : ∀ current proc, P.Reads record.cid (some current) → P.process proc →
      current.state = .confirmed → isLifecycleBusy proc current = false →
      ¬ P.pin record.cid ∧ P.Allows (current.released current.state)) :
    Safe content P (demoteCopy record) := by
  refine safe_get_bind fun current hread => ?_
  cases current with
  | none => exact safe_pure _
  | some current =>
      refine safe_process_bind fun proc hproc => ?_
      split
      · exact safe_pure _
      · rename_i hskip
        simp only [Bool.or_eq_true, not_or, decide_eq_true_eq, not_not, Bool.not_eq_true]
          at hskip
        obtain ⟨hunpin, hsave⟩ := hsave current proc hread hproc hskip.1.1.2 hskip.2
        refine safe_bind (safe_unpinFile hunpin) fun removedPin => ?_
        refine safe_tryCatch (safe_bind (safe_save hsave) fun _ => safe_pure _) fun err => ?_
        split
        · exact safe_bind (safe_compensating (safe_pinFile _)) fun _ => safe_throw _
        · exact safe_throw _

theorem safe_createIfAbsent {record : FileRecord Cid}
    (hsave : P.record record.cid none → P.Allows record) :
    Safe content P (createIfAbsent record) := by
  refine safe_get_bind fun existing hread => ?_
  cases existing with
  | some _ => exact safe_pure _
  | none => exact safe_bind (safe_save (hsave hread.1)) fun _ => safe_pure _

end Policies

end IpfsNode
