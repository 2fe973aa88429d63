import IpfsNode.Lifecycle
import IpfsNode.Replication

/-!
# The local half of an upload

What an upload request does to the files of this node while it holds their
locks: admitting all parts, undoing an admitted request, committing it as one
decision, and clearing its token. The request remembers a baseline for each of
its CIDs, the record it replaced and whether it created the pin; every
compensation is `rollbackUpload` on such baselines.
-/

namespace IpfsNode

/-- One part of the request, imported but not pinned yet. -/
structure UploadFile (Cid : Type) where
  cid : Cid
  originalname : String
  size : Nat
  storedBytes : Nat
  protectedBytes : Option Nat
deriving DecidableEq, Repr

structure UploadBaseline (Cid : Type) where
  cid : Cid
  /-- The record the CID had before the request. -/
  previous : Option (FileRecord Cid)
  /-- Whether the request created the pin. -/
  createdPin : Bool
deriving DecidableEq, Repr

section Rollback

variable {Cid : Type}

/-- Undo what one file of a failed upload left behind: the pin first, so that a
failure leaves a visible record and no orphaned pin. -/
def undoUpload (baseline : UploadBaseline Cid) : Store Cid Unit := do
  if baseline.createdPin && (baseline.previous.map (·.pinned)).getD false = false then do
    let _ ← unpinFile baseline.cid
    restoreRecord baseline.cid baseline.previous
  else restoreRecord baseline.cid baseline.previous

/-- With an `admissionId`, only a record that still carries it is rolled back. -/
def rollbackUpload (admissionId : Option AdmissionId) (baseline : UploadBaseline Cid) :
    Store Cid Unit :=
  match admissionId with
  | none => undoUpload baseline
  | some id => do
      let current ← Locked.get baseline.cid
      if current.bind (·.admissionId) ≠ some id then pure ()
      else undoUpload baseline

/-- Roll back one baseline after the other, and collect what went wrong. -/
def rollbackEach (admissionId : Option AdmissionId) :
    List (UploadBaseline Cid) → Store Cid (List (LifecycleError Cid))
  | [] => pure []
  | baseline :: rest => do
      let result ← Prog.attempt (rollbackUpload admissionId baseline)
      let failures ← rollbackEach admissionId rest
      pure (failureOf result ++ failures)

end Rollback

/-! ## Admission -/

structure AdmitOptions where
  confirmationRequired : Bool
  temporaryTtlMs : Nat
  now : Nat
  admissionId : AdmissionId
deriving DecidableEq, Repr

def AdmitOptions.registration (options : AdmitOptions) : RegisterFileOptions :=
  { confirmationRequired := options.confirmationRequired
    temporaryTtlMs := options.temporaryTtlMs, now := options.now
    admissionId := some options.admissionId }

/-- The registration a part asks for. -/
def UploadFile.registration {Cid : Type} (file : UploadFile Cid) : NewFileRecord Cid :=
  { cid := file.cid, name := file.originalname, fileSize := file.size
    storedBytes := file.storedBytes, protectedBytes := file.protectedBytes }

structure Admitted (Cid : Type) where
  records : List (FileRecord Cid)
  baselines : List (UploadBaseline Cid)
deriving DecidableEq, Repr

section Admission

variable {Cid : Type} [DecidableEq Cid]

/-- Undo the parts admitted so far, and fail. -/
def failAdmission {α : Type} (baselines : List (UploadBaseline Cid))
    (failure : LifecycleError Cid) : Store Cid α := do
  let failures ← compensating (rollbackEach none baselines.reverse)
  if failures.isEmpty then throw failure
  else throw (.aggregate
    [failure, .aggregate failures "Could not fully restore the upload baseline"]
    "Upload failed and its previous lifecycle could not be fully restored")

/-- Undo a part whose pin or registration failed, and fail. A datastore failure
can have touched the key before or after it was reported. -/
def failPart {α : Type} (baseline : UploadBaseline Cid) (err : LifecycleError Cid) :
    Store Cid α := do
  compensating (rollbackUpload none baseline)
  compensating (Locked.clearPinIntent baseline.cid)
  throw err

/-- Pin and register one part. -/
def admitPart (options : AdmitOptions) (file : UploadFile Cid) :
    Store Cid (FileRecord Cid × UploadBaseline Cid) := do
  let previous ← Locked.get file.cid
  Locked.markPinIntent file.cid
  let pinned ← Prog.attempt (pinFile file.cid)
  match pinned with
  | .error err => failPart { cid := file.cid, previous, createdPin := false } err
  | .ok createdPin => do
      let registered ← Prog.attempt
        (registerExclusively file.registration options.registration)
      match registered with
      | .error err => failPart { cid := file.cid, previous, createdPin } err
      | .ok registration =>
          pure (registration.1, { cid := file.cid, previous, createdPin })

/-- The first baseline of a CID is the one of the request. -/
def addBaseline (baselines : List (UploadBaseline Cid)) (baseline : UploadBaseline Cid) :
    List (UploadBaseline Cid) :=
  if baseline.cid ∈ baselines.map (·.cid) then baselines else baselines ++ [baseline]

/-- Admit the parts in order. -/
def admitParts (options : AdmitOptions) :
    List (UploadFile Cid) → Admitted Cid → Store Cid (Admitted Cid)
  | [], admitted => pure admitted
  | file :: rest, admitted => do
      let part ← Prog.attempt (admitPart options file)
      match part with
      | .error err => failAdmission admitted.baselines err
      | .ok (record, baseline) => do
          let baselines := addBaseline admitted.baselines baseline
          let cleared ← Prog.attempt (Locked.clearPinIntent file.cid)
          match cleared with
          | .error err => failAdmission baselines err
          | .ok _ => admitParts options rest ⟨admitted.records ++ [record], baselines⟩

/-- Store, pin and register every part of a request, or none. -/
def admitUpload (options : AdmitOptions) (files : List (UploadFile Cid)) :
    Store Cid (Admitted Cid) :=
  admitParts options files { records := [], baselines := [] }

end Admission

/-! ## After placement -/

section Decision

variable {Cid : Type} [DecidableEq Cid]

/-- Undo an admitted request; the locks were released for the network work. -/
def rollbackAdmitted (baselines : List (UploadBaseline Cid)) (admissionId : AdmissionId) :
    Store Cid Unit := do
  let failures ← compensating (rollbackEach (some admissionId) baselines.reverse)
  if failures.isEmpty then pure ()
  else throw (.aggregate failures "Could not fully undo the refused upload")

/-- The reports of the files that were placed. -/
abbrev Reports (Cid : Type) := Cid → Option ReplicationReport

/-- The replica list a report settles. -/
def reportedReplicas (report : Option ReplicationReport) (current : FileRecord Cid) :
    List String :=
  match report with
  | some report => if report.mode = .quorum then report.replicas else current.replicas
  | none => current.replicas

/-- Read every record of the request, still under its token. -/
def readAdmitted (admissionId : AdmissionId) :
    List Cid → Store Cid (List (FileRecord Cid))
  | [] => pure []
  | cid :: rest => do
      let current ← Locked.get cid
      match current with
      | none => throw (.changedBeforeCommit cid)
      | some current =>
          if current.admissionId ≠ some admissionId then throw (.changedBeforeCommit cid)
          else do
            let others ← readAdmitted admissionId rest
            pure (current :: others)

/-- The record with the replica list its report settles. -/
def reportedRecord (reports : Reports Cid) (current : FileRecord Cid) : FileRecord Cid :=
  { current with replicas := reportedReplicas (reports current.cid) current }

/-- Write the replica metadata of every record. -/
def saveReports (reports : Reports Cid) :
    List (FileRecord Cid) → Store Cid (List (FileRecord Cid))
  | [] => pure []
  | current :: rest => do
      let stored ← Locked.save (reportedRecord reports current)
      let others ← saveReports reports rest
      pure (stored :: others)

/-- The record of an upload that no later step rolls back. -/
def FileRecord.settled (stored : FileRecord Cid) (settledAt : Nat) : FileRecord Cid :=
  { stored with admissionSettledAt := some settledAt }

/-- Mark every record as settled. A write that fails is left to later cleanup. -/
def settleEach (settledAt : Nat) : List (FileRecord Cid) → Store Cid (List (FileRecord Cid))
  | [] => pure []
  | stored :: rest => do
      let settled ← Prog.attempt
        (Locked.save (stored.settled settledAt))
      let others ← settleEach settledAt rest
      match settled with
      | .error _ => pure (stored :: others)
      | .ok settled => pure (settled :: others)

/-- Commit the local records of a request as one decision. `cids` are the
distinct CIDs of the admitted records. -/
def finalizeAdmitted (cids : List Cid) (baselines : List (UploadBaseline Cid))
    (reports : Reports Cid) (admissionId : AdmissionId) (settledAt : Nat) :
    Store Cid (List (FileRecord Cid)) := do
  let current ← readAdmitted admissionId cids
  let saved ← Prog.attempt (saveReports reports current)
  match saved with
  | .error err => do
      let failures ← compensating (rollbackEach (some admissionId) baselines.reverse)
      throw (.aggregate (err :: failures) "Could not finalize or restore the local upload")
  | .ok finalized => settleEach settledAt finalized

/-- Remove the token of a settled request from the given CIDs. -/
def clearSettledAdmissions (reports : Reports Cid) (admissionId : AdmissionId) :
    List Cid → Store Cid (List (FileRecord Cid))
  | [] => pure []
  | cid :: rest => do
      let current ← Prog.attempt (Locked.get cid)
      match current with
      | .error _ => clearSettledAdmissions reports admissionId rest
      | .ok current =>
          match current with
          | none => throw (.changedDuringCommit cid)
          | some current =>
              if current.admissionId ≠ some admissionId then throw (.changedDuringCommit cid)
              else do
                let stored ← Prog.attempt
                  (Locked.save (reportedRecord reports current).withoutAdmission)
                let others ← clearSettledAdmissions reports admissionId rest
                match stored with
                | .error _ => pure others
                | .ok stored => pure (stored :: others)

end Decision

/-! ## What a policy has to allow -/

section Policies

variable {Cid α : Type} {content : Content Cid} {P : Policy Cid}

/-- The policy allows a baseline to be put back. -/
structure Policy.Undoes (P : Policy Cid) (baseline : UploadBaseline Cid) : Prop where
  previous : P.Reads baseline.cid baseline.previous
  pin : baseline.createdPin = true → (baseline.previous.map (·.pinned)).getD false = false →
    ¬ P.pin baseline.cid

/-- ... at least while the record still carries the token. -/
def Policy.MayUndo (P : Policy Cid) (admissionId : Option AdmissionId)
    (baseline : UploadBaseline Cid) : Prop :=
  match admissionId with
  | none => P.Undoes baseline
  | some id => ∀ current, P.Reads baseline.cid (some current) →
      current.admissionId = some id → P.Undoes baseline

variable [DecidableEq Cid]

theorem safe_undoUpload {baseline : UploadBaseline Cid} (h : P.Undoes baseline) :
    Safe content P (undoUpload baseline) := by
  unfold undoUpload
  split
  · rename_i hcreated
    rw [Bool.and_eq_true, decide_eq_true_iff] at hcreated
    have hpin : ¬ P.pin baseline.cid := h.pin hcreated.1 hcreated.2
    exact safe_bind (safe_unpinFile hpin) fun _ => safe_restoreRecord h.previous
  · exact safe_restoreRecord h.previous

theorem safe_rollbackUpload {admissionId : Option AdmissionId}
    {baseline : UploadBaseline Cid} (h : P.MayUndo admissionId baseline) :
    Safe content P (rollbackUpload admissionId baseline) := by
  cases admissionId with
  | none => exact safe_undoUpload h
  | some id =>
      refine safe_get_bind fun current hread => ?_
      split
      · exact safe_pure _
      · rename_i htoken
        obtain ⟨record, rfl, hid⟩ := Option.bind_eq_some_iff.mp (not_not.mp htoken)
        exact safe_undoUpload (h record hread hid)

theorem safe_rollbackEach {admissionId : Option AdmissionId}
    {baselines : List (UploadBaseline Cid)}
    (h : ∀ baseline ∈ baselines, P.MayUndo admissionId baseline) :
    Safe content P (rollbackEach admissionId baselines) := by
  induction baselines with
  | nil => exact safe_pure _
  | cons baseline rest ih =>
      rw [List.forall_mem_cons] at h
      exact safe_bind (safe_attempt (safe_rollbackUpload h.1)) fun _ =>
        safe_bind (ih h.2) fun _ => safe_pure _

theorem keeps_failAdmission {φ : Except (LifecycleError Cid) α → Prop}
    (hφ : ∀ err, φ (.error err)) {baselines : List (UploadBaseline Cid)}
    (h : ∀ baseline ∈ baselines, P.Undoes baseline) (failure : LifecycleError Cid) :
    Keeps content P (failAdmission baselines failure) φ := by
  have hrollback : ∀ baseline ∈ baselines.reverse, P.MayUndo none baseline :=
    fun baseline hmem => h baseline (List.mem_reverse.mp hmem)
  refine Prog.Keeps.bind (safe_compensating (safe_rollbackEach hrollback)) (fun _ _ => ?_)
    fun err _ => hφ err
  split <;> exact Prog.Keeps.throw (hφ _)

theorem keeps_failPart {φ : Except (LifecycleError Cid) α → Prop}
    (hφ : ∀ err, φ (.error err)) {baseline : UploadBaseline Cid} (h : P.Undoes baseline)
    (err : LifecycleError Cid) : Keeps content P (failPart baseline err) φ := by
  have hrollback : P.MayUndo none baseline := h
  refine Prog.Keeps.bind (safe_compensating (safe_rollbackUpload hrollback)) (fun _ _ => ?_)
    fun err _ => hφ err
  exact Prog.Keeps.bind (safe_compensating (safe_clearPinIntent _))
    (fun _ _ => Prog.Keeps.throw (hφ _)) fun err _ => hφ err

/-- What a part took can be put back. -/
theorem keeps_admitPart {options : AdmitOptions} {file : UploadFile Cid}
    (h : P.Registers file.registration options.registration) :
    Keeps content P (admitPart options file) fun r =>
      ∀ part, r = .ok part → P.Undoes part.2 := by
  refine Prog.Keeps.bind (keeps_get _) (fun previous hprevious => ?_) fun _ _ _ => nofun
  have hread := hprevious previous rfl
  refine Prog.Keeps.bind (safe_markPinIntent _) (fun _ _ => ?_) fun _ _ _ => nofun
  refine Prog.Keeps.attempt_bind (keeps_pinFile _) fun pinned hpinned => ?_
  cases pinned with
  | error err =>
      have hundo : P.Undoes ⟨file.cid, previous, false⟩ := ⟨hread, Bool.noConfusion⟩
      exact keeps_failPart (fun _ _ => nofun) hundo err
  | ok createdPin =>
      have hundo : P.Undoes ⟨file.cid, previous, createdPin⟩ :=
        ⟨hread, fun hc _ => hpinned (congrArg Except.ok hc)⟩
      refine Prog.Keeps.attempt_bind (safe_registerExclusively h) fun registered _ => ?_
      cases registered with
      | error err => exact keeps_failPart (fun _ _ => nofun) hundo err
      | ok registration =>
          refine Prog.Keeps.pure fun part hpart => ?_
          cases hpart
          exact hundo

/-- The policy allows whatever the upload may register. -/
def Policy.Admits (P : Policy Cid) (options : AdmitOptions) (files : List (UploadFile Cid)) :
    Prop :=
  ∀ file ∈ files, P.Registers file.registration options.registration

theorem mem_addBaseline {baselines : List (UploadBaseline Cid)}
    {baseline baseline' : UploadBaseline Cid} (h : baseline' ∈ addBaseline baselines baseline) :
    baseline' ∈ baselines ∨ baseline' = baseline := by
  unfold addBaseline at h
  split at h
  · exact .inl h
  · simpa using h

theorem safe_admitParts {options : AdmitOptions} {files : List (UploadFile Cid)}
    (h : P.Admits options files) {admitted : Admitted Cid}
    (hadmitted : ∀ baseline ∈ admitted.baselines, P.Undoes baseline) :
    Safe content P (admitParts options files admitted) := by
  induction files generalizing admitted with
  | nil => exact safe_pure _
  | cons file rest ih =>
      have hfail : ∀ baselines err, (∀ baseline ∈ baselines, P.Undoes baseline) →
          Safe content P (failAdmission baselines err : Store Cid (Admitted Cid)) :=
        fun _ err hb => keeps_failAdmission (fun _ => trivial) hb err
      unfold Policy.Admits at h
      rw [List.forall_mem_cons] at h
      refine Prog.Keeps.attempt_bind (keeps_admitPart h.1) fun part hpart => ?_
      cases part with
      | error err => exact hfail _ err hadmitted
      | ok part =>
          have hundo := hpart part rfl
          have hbaselines : ∀ baseline ∈ addBaseline admitted.baselines part.2,
              P.Undoes baseline := by
            intro baseline hmem
            rcases mem_addBaseline hmem with hmem | rfl
            · exact hadmitted baseline hmem
            · exact hundo
          refine Prog.Keeps.attempt_bind (safe_clearPinIntent _) fun cleared _ => ?_
          cases cleared with
          | error err => exact hfail _ err hbaselines
          | ok _ => exact ih h.2 hbaselines

theorem safe_admitUpload {options : AdmitOptions} {files : List (UploadFile Cid)}
    (h : P.Admits options files) : Safe content P (admitUpload options files) :=
  safe_admitParts h (by simp)

theorem safe_rollbackAdmitted {baselines : List (UploadBaseline Cid)}
    {admissionId : AdmissionId}
    (h : ∀ baseline ∈ baselines, P.MayUndo (some admissionId) baseline) :
    Safe content P (rollbackAdmitted baselines admissionId) := by
  refine safe_bind (safe_compensating (safe_rollbackEach fun baseline hmem => ?_)) fun _ => ?_
  · exact h baseline (List.mem_reverse.mp hmem)
  · split
    · exact safe_pure _
    · exact safe_throw _

/-- Records of the upload that the policy allows. -/
def Policy.Owns (P : Policy Cid) (admissionId : AdmissionId) (record : FileRecord Cid) : Prop :=
  P.Allows record ∧ record.admissionId = some admissionId

omit [DecidableEq Cid] in
theorem Policy.Owns.stamped {admissionId : AdmissionId} {record : FileRecord Cid}
    (h : P.Owns admissionId record) (n : Nat) : P.Owns admissionId (record.stamped n) :=
  ⟨h.1.stamped n, h.2⟩

theorem keeps_readAdmitted {admissionId : AdmissionId} {cids : List Cid} :
    Keeps content P (readAdmitted admissionId cids) fun r =>
      ∀ records, r = .ok records → ∀ record ∈ records, P.Owns admissionId record := by
  induction cids with
  | nil => exact Prog.Keeps.pure fun records h => by cases h; simp
  | cons cid rest ih =>
      refine Prog.Keeps.bind (keeps_get _) (fun current hread => ?_) fun _ _ _ => nofun
      have hread := hread current rfl
      cases current with
      | none => exact Prog.Keeps.throw fun _ => nofun
      | some current =>
          dsimp only
          split
          · exact Prog.Keeps.throw fun _ => nofun
          · rename_i htoken
            refine Prog.Keeps.bind ih (fun others hothers => ?_) fun _ _ _ => nofun
            refine Prog.Keeps.pure fun records h => ?_
            cases h
            rw [List.forall_mem_cons]
            exact ⟨⟨hread.allows, not_not.mp htoken⟩, hothers others rfl⟩

theorem keeps_saveReports {reports : Reports Cid} {admissionId : AdmissionId}
    (h : ∀ record, P.Owns admissionId record → P.Allows (reportedRecord reports record))
    {records : List (FileRecord Cid)} (hrecords : ∀ record ∈ records, P.Owns admissionId record) :
    Keeps content P (saveReports reports records) fun r =>
      ∀ stored, r = .ok stored → ∀ record ∈ stored, P.Owns admissionId record := by
  induction records with
  | nil => exact Prog.Keeps.pure fun stored h => by cases h; simp
  | cons current rest ih =>
      rw [List.forall_mem_cons] at hrecords
      have hown : P.Owns admissionId (reportedRecord reports current) :=
        ⟨h current hrecords.1, hrecords.1.2⟩
      refine Prog.Keeps.bind (keeps_save hown.1) (fun stored hstored => ?_) fun _ _ _ => nofun
      obtain ⟨n, rfl⟩ := hstored stored rfl
      refine Prog.Keeps.bind (ih hrecords.2) (fun others hothers => ?_) fun _ _ _ => nofun
      refine Prog.Keeps.pure fun stored h => ?_
      cases h
      rw [List.forall_mem_cons]
      exact ⟨hown.stamped n, hothers others rfl⟩

theorem safe_settleEach {settledAt : Nat} {admissionId : AdmissionId}
    (h : ∀ record, P.Owns admissionId record → P.Allows (record.settled settledAt))
    {records : List (FileRecord Cid)} (hrecords : ∀ record ∈ records, P.Owns admissionId record) :
    Safe content P (settleEach settledAt records) := by
  induction records with
  | nil => exact safe_pure _
  | cons stored rest ih =>
      rw [List.forall_mem_cons] at hrecords
      refine safe_bind (safe_attempt (safe_save (h stored hrecords.1))) fun settled => ?_
      refine safe_bind (ih hrecords.2) fun _ => ?_
      split <;> exact safe_pure _

/-- The policy allows whatever committing the upload may store. -/
structure Policy.Finalizes (P : Policy Cid) (baselines : List (UploadBaseline Cid))
    (reports : Reports Cid) (admissionId : AdmissionId) (settledAt : Nat) : Prop where
  report : ∀ record, P.Owns admissionId record → P.Allows (reportedRecord reports record)
  settle : ∀ record, P.Owns admissionId record → P.Allows (record.settled settledAt)
  undo : ∀ baseline ∈ baselines, P.MayUndo (some admissionId) baseline

theorem safe_finalizeAdmitted {cids : List Cid} {baselines : List (UploadBaseline Cid)}
    {reports : Reports Cid} {admissionId : AdmissionId} {settledAt : Nat}
    (h : P.Finalizes baselines reports admissionId settledAt) :
    Safe content P (finalizeAdmitted cids baselines reports admissionId settledAt) := by
  refine keeps_readAdmitted.safe_bind fun current hcurrent => ?_
  refine Prog.Keeps.attempt_bind (keeps_saveReports h.report (hcurrent current rfl))
    fun saved hsaved => ?_
  cases saved with
  | error err =>
      refine safe_bind (safe_compensating (safe_rollbackEach fun baseline hmem => ?_))
        fun _ => safe_throw _
      exact h.undo baseline (List.mem_reverse.mp hmem)
  | ok finalized => exact safe_settleEach h.settle (hsaved finalized rfl)

theorem safe_clearSettledAdmissions {reports : Reports Cid} {admissionId : AdmissionId}
    (h : ∀ record, P.Owns admissionId record →
      P.Allows (reportedRecord reports record).withoutAdmission) {cids : List Cid} :
    Safe content P (clearSettledAdmissions reports admissionId cids) := by
  induction cids with
  | nil => exact safe_pure _
  | cons cid rest ih =>
      refine Prog.Keeps.attempt_bind (keeps_get _) fun current hread => ?_
      cases current with
      | error _ => exact ih
      | ok current =>
          have hread := hread current rfl
          cases current with
          | none => exact safe_throw _
          | some current =>
              dsimp only
              split
              · exact safe_throw _
              · rename_i htoken
                have hsave := h current ⟨hread.allows, not_not.mp htoken⟩
                refine safe_bind (safe_attempt (safe_save hsave)) fun stored => ?_
                refine safe_bind ih fun _ => ?_
                split <;> exact safe_pure _

end Policies

end IpfsNode
