import IpfsNode.Policy

/-!
# Lifecycle transitions

The transitions that change a pin and a record of one CID together: what an
upload registers, and the permanent store, confirmation and release of a file.
Each is the code that runs while the lock of the CID is held. A transition that
fails half way puts pin and record back to what it found.
-/

namespace IpfsNode

structure NewFileRecord (Cid : Type) where
  cid : Cid
  name : String
  fileSize : Nat
  storedBytes : Nat
  /-- Full DAG size, when the importer can provide it. -/
  protectedBytes : Option Nat
deriving DecidableEq, Repr

structure RegisterFileOptions where
  confirmationRequired : Bool
  temporaryTtlMs : Nat
  now : Nat
  /-- Request that owns the write until it is settled. -/
  admissionId : Option AdmissionId
deriving DecidableEq, Repr

section Register

variable {Cid : Type} [DecidableEq Cid]

def NewFileRecord.dagBytes (file : NewFileRecord Cid) : Nat :=
  file.protectedBytes.getD (max file.storedBytes file.fileSize)

/-- A new upload of durable content weakens nothing of it. -/
def reuploadedRecord (existing : FileRecord Cid) (file : NewFileRecord Cid)
    (options : RegisterFileOptions) : FileRecord Cid :=
  { existing with
    storedBytes := max existing.storedBytes file.storedBytes
    protectedBytes := some (max (protectedStorageBytes existing) file.dagBytes)
    fileSize := if 0 < file.fileSize then file.fileSize else existing.fileSize
    pinned := true
    heldLocally := true
    admissionId := options.admissionId
    admissionSettledAt := none
    replicaStage := none }

def registeredRecord (existing : Option (FileRecord Cid)) (file : NewFileRecord Cid)
    (options : RegisterFileOptions) : FileRecord Cid :=
  let confirmed := !options.confirmationRequired
  { cid := file.cid
    name := file.name
    state := if confirmed then .confirmed else .temporary
    createdAt := (existing.map (·.createdAt)).getD options.now
    expiresAt := if confirmed then none else some (options.now + options.temporaryTtlMs)
    confirmedAt := if confirmed then some options.now else none
    fileSize := file.fileSize
    storedBytes := file.storedBytes
    protectedBytes := some file.dagBytes
    pinned := true
    heldLocally := true
    replicas := (existing.map (·.replicas)).getD []
    admissionId := options.admissionId
    admissionSettledAt := none
    replicaStage := none
    revision := none }

/-- Another upload owns the record and can still roll it back, or is running. -/
def isOwnedByAnother (proc : Process Cid) (existing : FileRecord Cid)
    (admissionId : Option AdmissionId) : Bool :=
  existing.admissionId.isSome && existing.admissionId ≠ admissionId
    && isAdmissionInFlight proc existing

/-- Register an upload, and report the record it replaced. -/
def registerExclusively (file : NewFileRecord Cid) (options : RegisterFileOptions) :
    Store Cid (FileRecord Cid × Option (FileRecord Cid)) := do
  let existing ← Locked.get file.cid
  let proc ← process
  if proc.isActiveRepair file.cid then throw (.busy file.cid)
  else match existing with
    | some existing =>
        -- a permanent store must not confirm a copy a strict upload can abort
        if existing.replicaStage.isSome && options.admissionId.isNone then
          pure (existing, some existing)
        else if isOwnedByAnother proc existing options.admissionId then
          throw (.busy file.cid)
        else if existing.state = .confirmed then do
          let record ← Locked.save (reuploadedRecord existing file options)
          pure (record, some existing)
        else do
          let record ← Locked.save (registeredRecord (some existing) file options)
          pure (record, some existing)
    | none => do
        let record ← Locked.save (registeredRecord none file options)
        pure (record, none)

end Register

section Transitions

variable {Cid : Type}

/-- Write back a record captured earlier, or remove what took its place. -/
def restoreRecord (cid : Cid) (previous : Option (FileRecord Cid)) : Store Cid Unit :=
  match previous with
  | none => Locked.remove cid
  | some previous => do
      let _ ← Locked.save previous
      pure ()

/-- The errors of compensation steps that are tried one after the other. -/
def failureOf {α : Type} (result : Except (LifecycleError Cid) α) :
    List (LifecycleError Cid) :=
  match result with
  | .ok _ => []
  | .error err => [err]

/-- Put pin and record back to their baseline, and fail with what went wrong. -/
def restoreLifecycleBaseline {α : Type} (cid : Cid) (previous : Option (FileRecord Cid))
    (wasPinned : Bool) (originalError : LifecycleError Cid) : Store Cid α := do
  let pinResult ← Prog.attempt
    (compensating (if wasPinned then pinFile cid else unpinFile cid))
  let recordResult ← Prog.attempt (compensating (restoreRecord cid previous))
  match failureOf pinResult ++ failureOf recordResult with
  | [] => throw originalError
  | errors => throw (.rollbackIncomplete originalError errors)

structure RegisterPinnedOptions (Cid : Type) where
  cid : Cid
  name : String
  temporaryTtlMs : Nat
  now : Nat
deriving DecidableEq, Repr

variable [DecidableEq Cid]

/-- Whether the CID is pinned; a record that says so is believed. -/
def wasPinnedBefore (cid : Cid) (previous : Option (FileRecord Cid)) : Store Cid Bool :=
  if (previous.map (·.pinned)).getD false then pure true else isDirectlyPinned cid

def registerPinnedUnderLock (options : RegisterPinnedOptions Cid)
    (previous : Option (FileRecord Cid)) : Store Cid (FileRecord Cid) := do
  let wasPinned ← wasPinnedBefore options.cid previous
  try
    let _ ← pinFile options.cid
    let stats ← statDag options.cid
    let registration ← registerExclusively
      { cid := options.cid, name := options.name, fileSize := stats.size
        storedBytes := stats.deduplicatedDagSize
        protectedBytes := some stats.deduplicatedDagSize }
      { confirmationRequired := false, temporaryTtlMs := options.temporaryTtlMs
        now := options.now, admissionId := none }
    pure registration.1
  catch err => restoreLifecycleBaseline options.cid previous wasPinned err

/-- Pin content and record it as durable. -/
def registerPinnedFile (options : RegisterPinnedOptions Cid) :
    Store Cid (FileRecord Cid) := do
  let previous ← Locked.get options.cid
  registerPinnedUnderLock options previous

def confirmedRecord (current : FileRecord Cid) (now : Nat) : FileRecord Cid :=
  { current with
    state := .confirmed
    expiresAt := none
    confirmedAt := some (current.confirmedAt.getD now)
    pinned := true
    heldLocally := true
    admissionId := none
    admissionSettledAt := none
    replicaStage := none }

/-- Make a known file durable, or adopt an unknown one when asked to. What an
unknown file needs first (`prepareForPin`) happens before the lock is taken. -/
def confirmStoredFile (options : RegisterPinnedOptions Cid) (registerUnknown : Bool) :
    Store Cid (Option (FileRecord Cid)) := do
  let current ← Locked.get options.cid
  match current with
  | none =>
      if registerUnknown then do
        let record ← registerPinnedUnderLock options none
        pure (some record)
      else pure none
  | some current => do
      let proc ← process
      if isLifecycleBusy proc current then throw (.busy options.cid)
      else do
        let wasPinned ← wasPinnedBefore options.cid (some current)
        try
          let _ ← pinFile options.cid
          let record ← Locked.save (confirmedRecord current options.now)
          pure (some record)
        catch err => restoreLifecycleBaseline options.cid (some current) wasPinned err

/-- The record without the token of the upload it came from. -/
def FileRecord.withoutAdmission (record : FileRecord Cid) : FileRecord Cid :=
  { record with admissionId := none, admissionSettledAt := none }

omit [DecidableEq Cid] in
theorem isFileRecord_withoutAdmission {record : FileRecord Cid} (h : isFileRecord record = true) :
    isFileRecord record.withoutAdmission = true := by
  unfold isFileRecord FileRecord.withoutAdmission at *
  simp only [Bool.and_eq_true] at h ⊢
  exact ⟨by simp, h.2⟩

/-- The record of a file that lost its local copy. -/
def FileRecord.released (current : FileRecord Cid) (state : FileState) : FileRecord Cid :=
  { current with
    state
    pinned := false
    heldLocally := false
    admissionId := none
    admissionSettledAt := none
    replicaStage := none }

/-- Release a file so that garbage collection may reclaim it. -/
def releaseStoredFile (cid : Cid) : Store Cid (Option (FileRecord Cid)) := do
  let current ← Locked.get cid
  match current with
  -- a CID the registry does not know is not unpinned either
  | none => pure none
  | some current => do
      let proc ← process
      if isLifecycleBusy proc current then throw (.busy cid)
      else do
        let wasPinned ← wasPinnedBefore cid (some current)
        try
          let _ ← unpinFile cid
          let record ← Locked.save (current.released .expired)
          pure (some record)
        catch err => restoreLifecycleBaseline cid (some current) wasPinned err

end Transitions

/-! ## What a policy has to allow -/

section Policies

variable {Cid α : Type} [DecidableEq Cid] {content : Content Cid} {P : Policy Cid}

theorem safe_restoreRecord {cid : Cid} {previous : Option (FileRecord Cid)}
    (h : P.Reads cid previous) : Safe content P (restoreRecord cid previous) := by
  cases previous with
  | none => exact safe_remove h.1
  | some record => exact safe_bind (safe_save h.allows) fun _ => safe_pure _

theorem safe_restoreLifecycleBaseline {cid : Cid} {previous : Option (FileRecord Cid)}
    (hprevious : P.Reads cid previous) {wasPinned : Bool}
    (hpinned : wasPinned = false → ¬ P.pin cid) (err : LifecycleError Cid) :
    Safe content P
      (restoreLifecycleBaseline cid previous wasPinned err : Store Cid α) := by
  unfold restoreLifecycleBaseline
  refine safe_bind (safe_attempt (safe_compensating ?_)) fun _ =>
    safe_bind (safe_attempt (safe_compensating (safe_restoreRecord hprevious))) fun _ => ?_
  · cases wasPinned with
    | true => exact safe_pinFile cid
    | false => exact safe_unpinFile (hpinned rfl)
  · split <;> exact safe_throw _

theorem keeps_wasPinnedBefore (cid : Cid) (previous : Option (FileRecord Cid)) :
    Keeps content P (wasPinnedBefore cid previous) fun r =>
      r = .ok false → ¬ P.pin cid := by
  unfold wasPinnedBefore
  split
  · exact Prog.Keeps.pure nofun
  · exact keeps_isDirectlyPinned cid

/-- The registration goes through. -/
def mayRegister (proc : Process Cid) (cid : Cid) (existing : Option (FileRecord Cid))
    (admissionId : Option AdmissionId) : Bool :=
  !proc.isActiveRepair cid && existing.all fun existing =>
    !(existing.replicaStage.isSome && admissionId.isNone)
      && !isOwnedByAnother proc existing admissionId

/-- The record a registration stores. -/
def registrationOf (existing : Option (FileRecord Cid)) (file : NewFileRecord Cid)
    (options : RegisterFileOptions) : FileRecord Cid :=
  match existing with
  | none => registeredRecord none file options
  | some existing =>
      if existing.state = .confirmed then reuploadedRecord existing file options
      else registeredRecord (some existing) file options

/-- The policy allows whatever a registration may store. -/
def Policy.Registers (P : Policy Cid) (file : NewFileRecord Cid)
    (options : RegisterFileOptions) : Prop :=
  ∀ existing proc, P.Reads file.cid existing → P.process proc →
    mayRegister proc file.cid existing options.admissionId = true →
    P.Allows (registrationOf existing file options)

theorem safe_registerExclusively {file : NewFileRecord Cid} {options : RegisterFileOptions}
    (h : P.Registers file options) : Safe content P (registerExclusively file options) := by
  refine safe_get_bind fun existing hexisting => safe_process_bind fun proc hproc => ?_
  have h := h existing proc hexisting hproc
  split
  · exact safe_throw _
  · rename_i hrepair
    cases existing with
    | none =>
        refine safe_bind (safe_save (h ?_)) fun _ => safe_pure _
        simp [mayRegister, hrepair]
    | some existing =>
        dsimp only
        split
        · exact safe_pure _
        · rename_i hstage
          split
          · exact safe_throw _
          · rename_i howned
            have hallowed : mayRegister proc file.cid (some existing)
                options.admissionId = true := by
              simp only [mayRegister, hrepair, hstage, howned, Option.all_some]
              rfl
            have hsave := h hallowed
            simp only [registrationOf] at hsave
            split at hsave <;> rename_i hstate
            · rw [if_pos hstate]
              exact safe_bind (safe_save hsave) fun _ => safe_pure _
            · rw [if_neg hstate]
              exact safe_bind (safe_save hsave) fun _ => safe_pure _

/-- The policy allows whatever storing a file for good may store. -/
def Policy.RegistersPinned (P : Policy Cid) (options : RegisterPinnedOptions Cid) : Prop :=
  ∀ file : NewFileRecord Cid, file.cid = options.cid → P.Registers file
    { confirmationRequired := false, temporaryTtlMs := options.temporaryTtlMs
      now := options.now, admissionId := none }

theorem safe_registerPinnedUnderLock {options : RegisterPinnedOptions Cid}
    (hreg : P.RegistersPinned options) {previous : Option (FileRecord Cid)}
    (hprevious : P.Reads options.cid previous) :
    Safe content P (registerPinnedUnderLock options previous) := by
  refine (keeps_wasPinnedBefore _ _).safe_bind fun wasPinned hpinned => ?_
  refine safe_tryCatch ?_ fun err =>
    safe_restoreLifecycleBaseline hprevious (fun hw => hpinned (by rw [hw])) err
  refine safe_bind (safe_pinFile _) fun _ => safe_bind (safe_statDag _) fun stats => ?_
  exact safe_bind (safe_registerExclusively (hreg _ rfl)) fun _ => safe_pure _

theorem safe_registerPinnedFile {options : RegisterPinnedOptions Cid}
    (hreg : P.RegistersPinned options) : Safe content P (registerPinnedFile options) :=
  safe_get_bind fun _ hprevious => safe_registerPinnedUnderLock hreg hprevious

theorem safe_confirmStoredFile {options : RegisterPinnedOptions Cid}
    (hreg : P.RegistersPinned options)
    (hsave : ∀ current proc, P.Reads options.cid (some current) → P.process proc →
      isLifecycleBusy proc current = false → P.Allows (confirmedRecord current options.now))
    (registerUnknown : Bool) :
    Safe content P (confirmStoredFile options registerUnknown) := by
  refine safe_get_bind fun current hread => ?_
  cases current with
  | none =>
      dsimp only
      split
      · exact safe_bind (safe_registerPinnedUnderLock hreg hread) fun _ => safe_pure _
      · exact safe_pure _
  | some current =>
      refine safe_process_bind fun proc hproc => ?_
      split
      · exact safe_throw _
      · rename_i hbusy
        refine (keeps_wasPinnedBefore _ _).safe_bind fun wasPinned hpinned => ?_
        refine safe_tryCatch ?_ fun err =>
          safe_restoreLifecycleBaseline hread (fun hw => hpinned (by rw [hw])) err
        refine safe_bind (safe_pinFile _) fun _ => ?_
        have hsave := hsave current proc hread hproc (by simpa using hbusy)
        exact safe_bind (safe_save hsave) fun _ => safe_pure _

theorem safe_releaseStoredFile {cid : Cid}
    (hsave : ∀ current proc, P.Reads cid (some current) → P.process proc →
      isLifecycleBusy proc current = false →
      ¬ P.pin cid ∧ P.Allows (current.released .expired)) :
    Safe content P (releaseStoredFile cid) := by
  refine safe_get_bind fun current hread => ?_
  cases current with
  | none => exact safe_pure _
  | some current =>
      refine safe_process_bind fun proc hproc => ?_
      split
      · exact safe_throw _
      · rename_i hbusy
        obtain ⟨hunpin, hsave⟩ := hsave current proc hread hproc (by simpa using hbusy)
        refine (keeps_wasPinnedBefore _ _).safe_bind fun wasPinned hpinned => ?_
        refine safe_tryCatch ?_ fun err =>
          safe_restoreLifecycleBaseline hread (fun hw => hpinned (by rw [hw])) err
        refine safe_bind (safe_unpinFile hunpin) fun _ => ?_
        exact safe_bind (safe_save hsave) fun _ => safe_pure _

end Policies

end IpfsNode
