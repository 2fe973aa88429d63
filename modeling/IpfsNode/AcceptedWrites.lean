import IpfsNode.ValidRecords

/-!
# No write is refused

The code of every operation, with all it does when a step fails, against a
registry that may hold anything valid at each read: other operations may run in
between. `Accepts p φ` says that `p` comes to a result with `φ` or to an error
in which no refused record took part.
-/

namespace IpfsNode

/-! ## Refusals -/

/-- The registry refused a record somewhere on the way to the error. -/
inductive LifecycleError.Refuses {Cid : Type} : LifecycleError Cid → Prop where
  | here {cid} : Refuses (.invalidRecord cid)
  | original {err errors} (h : Refuses err) : Refuses (.rollbackIncomplete err errors)
  | undoing {original err errors} (hmem : err ∈ errors) (h : Refuses err) :
      Refuses (.rollbackIncomplete original errors)
  | part {err errors message} (hmem : err ∈ errors) (h : Refuses err) :
      Refuses (.aggregate errors message)

section Rules

variable {Cid α β : Type}

/-- A result with `φ`, or an error that no refusal led to. -/
def Outcome (φ : α → Prop) : Except (LifecycleError Cid) α → Prop
  | .ok a => φ a
  | .error err => ¬ err.Refuses

/-- What a registry of valid records answers. -/
def StoreOp.Answers : (o : StoreOp Cid) → o.Ret → Prop
  | .getRecord cid, answer => ∀ record : FileRecord Cid, answer = some record →
      isFileRecord record = true ∧ record.cid = cid
  | .putRecord record _, answer => ∃ n, answer = record.stamped n
  | _, _ => True

/-- Whatever the requests of `p` are answered, `p` comes to a result with `φ` or
to an error that no refusal led to. -/
def Accepts (p : Store Cid α) (φ : α → Prop) : Prop :=
  Prog.Keeps (fun q (_ : Unit) r _ => Outcome q.op.Answers r) (fun _ => True) p (Outcome φ)

variable {φ ψ : α → Prop} {χ : β → Prop} {p : Store Cid α} {cid : Cid}

theorem Accepts.mono (h : Accepts p φ) (hφ : ∀ a, φ a → ψ a) : Accepts p ψ := by
  refine Prog.Keeps.mono h fun r hr => ?_
  cases r with
  | ok a => exact hφ a hr
  | error err => exact hr

theorem accepts_pure {a : α} (h : φ a) : Accepts (pure a : Store Cid α) φ := Prog.Keeps.pure h

theorem accepts_throw {err : LifecycleError Cid} (h : ¬ err.Refuses) :
    Accepts (throw err : Store Cid α) φ :=
  Prog.Keeps.throw h

theorem Accepts.bind {f : α → Store Cid β} (hp : Accepts p φ)
    (hf : ∀ a, φ a → Accepts (f a) χ) : Accepts (p >>= f) χ :=
  Prog.Keeps.bind hp hf fun _ herr => herr

theorem Accepts.tryCatch {h : LifecycleError Cid → Store Cid α} (hp : Accepts p φ)
    (hh : ∀ err, ¬ err.Refuses → Accepts (h err) φ) : Accepts (tryCatch p h) φ :=
  Prog.Keeps.tryCatch hp hh fun _ ha => ha

theorem Accepts.attempt_bind {f : Except (LifecycleError Cid) α → Store Cid β}
    (hp : Accepts p φ) (hf : ∀ r, Outcome φ r → Accepts (f r) χ) :
    Accepts (p.attempt >>= f) χ :=
  Prog.Keeps.attempt_bind hp hf

theorem accepts_request {o : StoreOp Cid} : Accepts (request o) o.Answers :=
  Prog.Keeps.perform fun _ _ _ _ hr => ⟨trivial, hr⟩

/-- Compensation is answered like ordinary code. -/
theorem Accepts.compensating (h : Accepts p φ) : Accepts (compensating p) φ := by
  induction p with
  | ret a => exact h
  | fail err => exact h
  | act q k ih =>
      exact fun _ _ r s' hr => ih r (fun s _ => h s trivial r s hr) s' trivial

/-! ### Requests -/

theorem accepts_get : Accepts (Locked.get cid) fun record =>
    ∀ r, record = some r → isFileRecord r = true ∧ r.cid = cid :=
  accepts_request

theorem accepts_process : Accepts (process : Store Cid _) fun _ => True :=
  accepts_request

theorem accepts_save {record : FileRecord Cid} (h : isFileRecord record = true) :
    Accepts (Locked.save record) fun stored => ∃ n, stored = record.stamped n := by
  rw [Locked.save_valid h]
  exact accepts_request

/-- A request whose errors are an answer or passed on. -/
theorem accepts_caught {o : StoreOp Cid} {a : α} {handler : LifecycleError Cid → Store Cid α}
    (h : ∀ err : LifecycleError Cid, ¬ err.Refuses → Accepts (handler err) fun _ => True) :
    Accepts (tryCatch (request o >>= fun _ => pure a) handler) fun _ => True :=
  (accepts_request.bind fun _ _ => accepts_pure trivial).tryCatch h

theorem accepts_pinFile : Accepts (pinFile cid) fun _ => True :=
  accepts_caught fun err herr => by
    cases err with
    | alreadyPinned => exact accepts_pure trivial
    | _ => exact accepts_throw herr

theorem accepts_unpinFile : Accepts (unpinFile cid) fun _ => True :=
  accepts_caught fun err herr => by
    cases err with
    | pinNotFound => exact accepts_pure trivial
    | _ => exact accepts_throw herr

theorem accepts_isDirectlyPinned : Accepts (isDirectlyPinned cid) fun _ => True :=
  accepts_caught fun err herr => by
    cases err with
    | pinNotFound => exact accepts_pure trivial
    | _ => exact accepts_throw herr

theorem not_refuses_of_failureOf {r : Except (LifecycleError Cid) α} (h : Outcome φ r) :
    ∀ err ∈ failureOf r, ¬ err.Refuses := by
  cases r with
  | ok a => simp [failureOf]
  | error err =>
      intro other hother
      rw [failureOf, List.mem_singleton] at hother
      exact hother ▸ h

theorem not_refuses_of_failures {r : Except (LifecycleError Cid) α}
    {r' : Except (LifecycleError Cid) β} {φ : α → Prop} {χ : β → Prop} (h : Outcome φ r)
    (h' : Outcome χ r') : ∀ err ∈ failureOf r ++ failureOf r', ¬ err.Refuses := by
  intro err hmem
  rcases List.mem_append.mp hmem with hmem | hmem
  · exact not_refuses_of_failureOf h err hmem
  · exact not_refuses_of_failureOf h' err hmem

theorem not_refuses_aggregate {errors : List (LifecycleError Cid)} {message : String}
    (h : ∀ err ∈ errors, ¬ err.Refuses) :
    ¬ (LifecycleError.aggregate errors message).Refuses := by
  rintro (_ | _ | _ | ⟨hmem, herr⟩)
  exact h _ hmem herr

theorem not_refuses_rollbackIncomplete {original : LifecycleError Cid}
    {errors : List (LifecycleError Cid)} (horiginal : ¬ original.Refuses)
    (h : ∀ err ∈ errors, ¬ err.Refuses) :
    ¬ (LifecycleError.rollbackIncomplete original errors).Refuses := by
  rintro (_ | herr | ⟨hmem, herr⟩ | _)
  · exact horiginal herr
  · exact h _ hmem herr

/-- A node answers so. -/
theorem answers_effect [DecidableEq Cid] {content : Content Cid} (o : StoreOp Cid)
    (w : World Cid) : Outcome o.Answers (o.effect content w).1 := by
  cases o with
  | getRecord cid => exact fun record h => ⟨Registry.valid_of_get h, Registry.cid_of_get h⟩
  | putRecord record h => exact ⟨_, rfl⟩
  | pinsAdd | pinsRm | pinsGet | statDag | beginAdmission | beginRepair =>
      simp only [StoreOp.effect]
      split <;> first | trivial | exact fun h => by cases h
  | _ => trivial

/-- ... so no run of the code ends in a refusal, whatever fails. -/
theorem Accepts.not_refuses [DecidableEq Cid] {content : Content Cid} {faults : Faults Cid}
    (h : Accepts p φ) {w w' : World Cid} {err : LifecycleError Cid}
    (hrun : Prog.Runs (storeSem content faults) p w (.error err) w') : ¬ err.Refuses := by
  have hanswered : Prog.Runs (fun q (_ : Unit) r _ => Outcome q.op.Answers r) p ()
      (.error err) () := by
    refine hrun.map (fun _ => ()) fun q w r w' hstep => ?_
    cases hstep with
    | served => exact answers_effect q.op w
    | failed => exact nofun
    | landed => exact nofun
  exact (Prog.wp_iff_runs.mp (h () trivial) _ _ hanswered).2

end Rules

/-! ## Lifecycle transitions -/

section Lifecycle

variable {Cid α : Type} {cid : Cid} {previous : Option (FileRecord Cid)}

/-- The records that are put back are valid. -/
def ValidRecord (previous : Option (FileRecord Cid)) : Prop :=
  ∀ record, previous = some record → isFileRecord record = true

theorem accepts_restoreRecord (h : ValidRecord previous) :
    Accepts (restoreRecord cid previous) fun _ => True := by
  cases previous with
  | none => exact accepts_request
  | some record => exact (accepts_save (h record rfl)).bind fun _ _ => accepts_pure trivial

theorem accepts_restoreLifecycleBaseline (h : ValidRecord previous) (wasPinned : Bool)
    {err : LifecycleError Cid} (herr : ¬ err.Refuses) :
    Accepts (restoreLifecycleBaseline cid previous wasPinned err : Store Cid α)
      fun _ => True := by
  have hpin : Accepts (if wasPinned then pinFile cid else unpinFile cid) fun _ => True := by
    cases wasPinned
    · exact accepts_unpinFile
    · exact accepts_pinFile
  refine hpin.compensating.attempt_bind fun pinResult hpinResult => ?_
  refine (accepts_restoreRecord h).compensating.attempt_bind fun recordResult hrecord => ?_
  have hall := not_refuses_of_failures hpinResult hrecord
  split
  · exact accepts_throw herr
  · exact accepts_throw (not_refuses_rollbackIncomplete herr hall)

theorem accepts_wasPinnedBefore : Accepts (wasPinnedBefore cid previous) fun _ => True := by
  unfold wasPinnedBefore
  split
  · exact accepts_pure trivial
  · exact accepts_isDirectlyPinned

variable [DecidableEq Cid]

theorem accepts_registerExclusively {file : NewFileRecord Cid} {options : RegisterFileOptions}
    (htoken : options.admissionId ≠ some "") :
    Accepts (registerExclusively file options) fun _ => True := by
  refine accepts_get.bind fun existing _ => accepts_process.bind fun proc _ => ?_
  have hvalid : isFileRecord (registrationOf existing file options) = true :=
    isFileRecord_registrationOf htoken
  split
  · exact accepts_throw (fun h => by cases h)
  · cases existing with
    | none => exact (accepts_save hvalid).bind fun _ _ => accepts_pure trivial
    | some existing =>
        dsimp only
        split
        · exact accepts_pure trivial
        · split
          · exact accepts_throw (fun h => by cases h)
          · simp only [registrationOf] at hvalid
            split at hvalid <;> rename_i hstate
            · rw [if_pos hstate]
              exact (accepts_save hvalid).bind fun _ _ => accepts_pure trivial
            · rw [if_neg hstate]
              exact (accepts_save hvalid).bind fun _ _ => accepts_pure trivial

theorem accepts_registerPinnedUnderLock {options : RegisterPinnedOptions Cid}
    (h : ValidRecord previous) :
    Accepts (registerPinnedUnderLock options previous) fun _ => True := by
  refine accepts_wasPinnedBefore.bind fun wasPinned _ => Accepts.tryCatch ?_ fun err herr =>
    accepts_restoreLifecycleBaseline h wasPinned herr
  refine accepts_pinFile.bind fun _ _ => accepts_request.bind fun stats _ => ?_
  exact (accepts_registerExclusively fun h => by cases h).bind fun _ _ => accepts_pure trivial

theorem accepts_registerPinnedFile {options : RegisterPinnedOptions Cid} :
    Accepts (registerPinnedFile options) fun _ => True :=
  accepts_get.bind fun _ hread => accepts_registerPinnedUnderLock fun record hrecord =>
    (hread record hrecord).1

theorem accepts_confirmStoredFile {options : RegisterPinnedOptions Cid} {registerUnknown : Bool} :
    Accepts (confirmStoredFile options registerUnknown) fun _ => True := by
  refine accepts_get.bind fun current hread => ?_
  have hvalid : ValidRecord current := fun record hrecord => (hread record hrecord).1
  cases current with
  | none =>
      dsimp only
      split
      · exact (accepts_registerPinnedUnderLock hvalid).bind fun _ _ => accepts_pure trivial
      · exact accepts_pure trivial
  | some current =>
      refine accepts_process.bind fun proc _ => ?_
      split
      · exact accepts_throw (fun h => by cases h)
      · refine accepts_wasPinnedBefore.bind fun wasPinned _ => Accepts.tryCatch ?_ fun err herr =>
          accepts_restoreLifecycleBaseline hvalid wasPinned herr
        exact accepts_pinFile.bind fun _ _ =>
          (accepts_save isFileRecord_confirmedRecord).bind fun _ _ => accepts_pure trivial

theorem accepts_releaseStoredFile : Accepts (releaseStoredFile cid) fun _ => True := by
  refine accepts_get.bind fun current hread => ?_
  have hvalid : ValidRecord current := fun record hrecord => (hread record hrecord).1
  cases current with
  | none => exact accepts_pure trivial
  | some current =>
      refine accepts_process.bind fun proc _ => ?_
      split
      · exact accepts_throw (fun h => by cases h)
      · refine accepts_wasPinnedBefore.bind fun wasPinned _ => Accepts.tryCatch ?_ fun err herr =>
          accepts_restoreLifecycleBaseline hvalid wasPinned herr
        exact accepts_unpinFile.bind fun _ _ =>
          (accepts_save isFileRecord_released).bind fun _ _ => accepts_pure trivial

end Lifecycle

/-! ## Prepared replicas -/

section ReplicaStage

variable {Cid α : Type} {cid : Cid} {previous : Option (FileRecord Cid)}
variable {current : FileRecord Cid} {stage : ReplicaStage}

theorem accepts_restoreStageWrite (h : ValidRecord previous) (createdPin : Bool)
    {err : LifecycleError Cid} (herr : ¬ err.Refuses) :
    Accepts (restoreStageWrite cid previous createdPin err : Store Cid α) fun _ => True := by
  have hpin : Accepts (if createdPin then unpinFile cid else pure false) fun _ => True := by
    cases createdPin
    · exact accepts_pure trivial
    · exact accepts_unpinFile
  refine hpin.compensating.attempt_bind fun pinResult hpinResult => ?_
  refine (accepts_restoreRecord h).compensating.attempt_bind fun recordResult hrecord => ?_
  have hall := not_refuses_of_failures hpinResult hrecord
  split
  · exact accepts_throw herr
  · refine accepts_throw (not_refuses_aggregate fun e hmem => ?_)
    rcases List.mem_cons.mp hmem with rfl | hmem
    · exact herr
    · exact hall e hmem

variable {options : ReplicaStageTarget Cid} {name : String}

theorem accepts_joinStage (hnamed : options.Named) (hvalid : isFileRecord current = true)
    (hstage : current.replicaStage = some stage) :
    Accepts (joinStage options current stage) fun _ => True := by
  unfold joinStage
  split
  · exact accepts_throw nofun
  · refine accepts_pinFile.bind fun _ _ => Accepts.tryCatch ?_ fun err herr =>
      accepts_restoreStageWrite (fun record hrecord => Option.some.inj hrecord ▸ hvalid) _ herr
    exact (accepts_save (isFileRecord_joinedRecord hnamed hvalid hstage)).bind fun _ _ =>
      accepts_pure trivial

theorem accepts_beginStage (hnamed : options.Named) (hvalid : ValidRecord previous) :
    Accepts (beginStage options name previous) fun _ => True := by
  refine accepts_isDirectlyPinned.bind fun wasDirectlyPinned _ => ?_
  split
  · refine accepts_pinFile.bind fun createdPin _ => Accepts.tryCatch ?_ fun err herr =>
      accepts_restoreStageWrite hvalid _ herr
    exact accepts_request.bind fun stats _ =>
      (accepts_save (isFileRecord_stableReplicaRecord hvalid)).bind fun _ _ => accepts_pure trivial
  · refine accepts_pinFile.bind fun createdPin _ => Accepts.tryCatch ?_ fun err herr =>
      accepts_restoreStageWrite hvalid _ herr
    exact accepts_request.bind fun stats _ =>
      (accepts_save (isFileRecord_stagedRecord hnamed hvalid)).bind fun _ _ => accepts_pure trivial

theorem accepts_stageReplica (hnamed : options.Named) :
    Accepts (stageReplica options name) fun _ => True := by
  refine accepts_request.bind fun aborted _ => ?_
  split
  · exact accepts_throw nofun
  · refine accepts_get.bind fun previous hread => ?_
    have hvalid : ValidRecord previous := fun record hrecord => (hread record hrecord).1
    cases previous with
    | none => exact accepts_beginStage hnamed hvalid
    | some previous =>
        dsimp only
        split
        · rename_i hstage
          exact accepts_joinStage hnamed (hvalid _ rfl) hstage
        · split
          · exact accepts_throw nofun
          · split
            · exact accepts_throw nofun
            · exact accepts_beginStage hnamed hvalid

theorem accepts_commitReplica {options : SettleReplicaOptions Cid} :
    Accepts (commitReplica options) fun _ => True := by
  refine accepts_get.bind fun current _ => ?_
  cases current with
  | none => exact accepts_throw nofun
  | some current =>
      dsimp only
      split
      · split
        · exact accepts_pure trivial
        · exact accepts_throw nofun
      · split
        · exact accepts_throw nofun
        · exact (accepts_save isFileRecord_confirmedRecord).bind fun _ _ => accepts_pure trivial

theorem accepts_restoreReplicaStage (hvalid : isFileRecord current = true)
    (keepCreatedRecord : Bool) :
    Accepts (restoreReplicaStage current keepCreatedRecord) fun _ => True := by
  refine accepts_unpinFile.bind fun removedPin _ => ?_
  split
  · refine Accepts.tryCatch (accepts_request.bind fun _ _ => accepts_pure trivial)
      fun err herr => ?_
    have hpin : Accepts (if removedPin then pinFile current.cid else pure false)
        fun _ => True := by
      cases removedPin
      · exact accepts_pure trivial
      · exact accepts_pinFile
    refine (hpin.bind fun _ _ => accepts_save hvalid).compensating.attempt_bind
      fun restored hrestored => ?_
    refine accepts_throw (not_refuses_aggregate fun e hmem => ?_)
    rcases List.mem_cons.mp hmem with rfl | hmem
    · exact herr
    · exact not_refuses_of_failureOf hrestored e hmem
  · exact (accepts_save (isFileRecord_unstagedRecord hvalid)).bind fun _ _ =>
      accepts_pure trivial

theorem accepts_abortReplica {options : SettleReplicaOptions Cid} :
    Accepts (abortReplica options) fun _ => True := by
  refine accepts_get.bind fun current hread => ?_
  split
  · exact accepts_request.bind fun _ _ => accepts_pure trivial
  · rename_i record stage hlisted
    obtain ⟨found, rfl, hfound⟩ := Option.bind_eq_some_iff.mp hlisted
    obtain ⟨stage', hstage, heq⟩ := Option.map_eq_some_iff.mp hfound
    cases heq
    have hvalid := (hread _ rfl).1
    split
    · exact accepts_throw nofun
    · refine accepts_request.bind fun _ _ => ?_
      split
      · exact accepts_restoreReplicaStage hvalid false
      · rename_i hleft
        rw [List.isEmpty_iff, List.filter_eq_nil_iff] at hleft
        push Not at hleft
        obtain ⟨id, hmem, hne⟩ := hleft
        exact (accepts_save (isFileRecord_unclaimedRecord hvalid
          (FileRecord.stageOf_eq_some.mp hstage).1 ⟨id, hmem, of_decide_eq_true hne⟩)).bind
            fun _ _ => accepts_pure trivial

end ReplicaStage

/-! ## Uploads -/

section Uploads

variable {Cid α : Type}

theorem accepts_undoUpload {baseline : UploadBaseline Cid} (h : baseline.Valid) :
    Accepts (undoUpload baseline) fun _ => True := by
  have hrestore : Accepts (restoreRecord baseline.cid baseline.previous) fun _ => True :=
    accepts_restoreRecord fun record hrecord => (h record hrecord).2
  unfold undoUpload
  split
  · exact accepts_unpinFile.bind fun _ _ => hrestore
  · exact hrestore

theorem accepts_rollbackUpload {admissionId : Option AdmissionId}
    {baseline : UploadBaseline Cid} (h : baseline.Valid) :
    Accepts (rollbackUpload admissionId baseline) fun _ => True := by
  cases admissionId with
  | none => exact accepts_undoUpload h
  | some id =>
      refine accepts_get.bind fun current _ => ?_
      split
      · exact accepts_pure trivial
      · exact accepts_undoUpload h

theorem accepts_rollbackEach {admissionId : Option AdmissionId}
    {baselines : List (UploadBaseline Cid)} (h : ∀ baseline ∈ baselines, baseline.Valid) :
    Accepts (rollbackEach admissionId baselines) fun failures =>
      ∀ err ∈ failures, ¬ err.Refuses := by
  induction baselines with
  | nil => exact accepts_pure (by simp)
  | cons baseline rest ih =>
      rw [List.forall_mem_cons] at h
      refine (accepts_rollbackUpload h.1).attempt_bind fun result hresult => ?_
      refine (ih h.2).bind fun failures hfailures => accepts_pure fun err hmem => ?_
      rcases List.mem_append.mp hmem with hmem | hmem
      · exact not_refuses_of_failureOf hresult err hmem
      · exact hfailures err hmem

theorem accepts_rollbackBackwards {admissionId : Option AdmissionId}
    {baselines : List (UploadBaseline Cid)} (h : ∀ baseline ∈ baselines, baseline.Valid) :
    Accepts (compensating (rollbackEach admissionId baselines.reverse)) fun failures =>
      ∀ err ∈ failures, ¬ err.Refuses :=
  (accepts_rollbackEach fun baseline hmem =>
    h baseline (List.mem_reverse.mp hmem)).compensating

theorem accepts_failAdmission {baselines : List (UploadBaseline Cid)}
    (h : ∀ baseline ∈ baselines, baseline.Valid) {failure : LifecycleError Cid}
    (hfailure : ¬ failure.Refuses) :
    Accepts (failAdmission baselines failure : Store Cid α) fun _ => True := by
  refine (accepts_rollbackBackwards h).bind fun failures hfailures => ?_
  split
  · exact accepts_throw hfailure
  · refine accepts_throw (not_refuses_aggregate fun err hmem => ?_)
    rcases List.mem_cons.mp hmem with rfl | hmem
    · exact hfailure
    · rw [List.mem_singleton] at hmem
      exact hmem ▸ not_refuses_aggregate hfailures

theorem accepts_failPart {baseline : UploadBaseline Cid} (h : baseline.Valid)
    {err : LifecycleError Cid} (herr : ¬ err.Refuses) {φ : α → Prop} :
    Accepts (failPart baseline err : Store Cid α) φ :=
  (accepts_rollbackUpload h).compensating.bind fun _ _ =>
    accepts_request.compensating.bind fun _ _ => accepts_throw herr

theorem accepts_rollbackAdmitted {baselines : List (UploadBaseline Cid)}
    (h : ∀ baseline ∈ baselines, baseline.Valid) {admissionId : AdmissionId} :
    Accepts (rollbackAdmitted baselines admissionId) fun _ => True := by
  refine (accepts_rollbackBackwards h).bind fun failures hfailures => ?_
  split
  · exact accepts_pure trivial
  · exact accepts_throw (not_refuses_aggregate hfailures)

/-- A record that is read is valid and under the token. -/
theorem accepts_readAdmitted {admissionId : AdmissionId} {cids : List Cid} :
    Accepts (readAdmitted admissionId cids) fun records => ∀ record ∈ records,
      isFileRecord record = true ∧ record.admissionId = some admissionId := by
  induction cids with
  | nil => exact accepts_pure (by simp)
  | cons cid rest ih =>
      refine accepts_get.bind fun current hread => ?_
      cases current with
      | none => exact accepts_throw nofun
      | some current =>
          dsimp only
          split
          · exact accepts_throw nofun
          · rename_i htoken
            refine ih.bind fun others hothers => accepts_pure ?_
            rw [List.forall_mem_cons]
            exact ⟨⟨(hread _ rfl).1, not_not.mp htoken⟩, hothers⟩

theorem accepts_saveReports {reports : Reports Cid} {admissionId : AdmissionId}
    {records : List (FileRecord Cid)} (h : ∀ record ∈ records,
      isFileRecord record = true ∧ record.admissionId = some admissionId) :
    Accepts (saveReports reports records) fun stored => ∀ record ∈ stored,
      isFileRecord record = true ∧ record.admissionId = some admissionId := by
  induction records with
  | nil => exact accepts_pure (by simp)
  | cons current rest ih =>
      rw [List.forall_mem_cons] at h
      have hvalid : isFileRecord (reportedRecord reports current) = true :=
        isFileRecord_withReplicas h.1.1 _
      refine (accepts_save hvalid).bind fun stored hstored => ?_
      obtain ⟨n, rfl⟩ := hstored
      refine (ih h.2).bind fun others hothers => accepts_pure ?_
      rw [List.forall_mem_cons]
      exact ⟨⟨(isFileRecord_stamped _ n).trans hvalid, h.1.2⟩, hothers⟩

theorem accepts_settleEach {settledAt : Nat} {admissionId : AdmissionId}
    {records : List (FileRecord Cid)} (h : ∀ record ∈ records,
      isFileRecord record = true ∧ record.admissionId = some admissionId) :
    Accepts (settleEach settledAt records) fun _ => True := by
  induction records with
  | nil => exact accepts_pure trivial
  | cons stored rest ih =>
      rw [List.forall_mem_cons] at h
      have hvalid : isFileRecord (stored.settled settledAt) = true :=
        isFileRecord_settled h.1.1 (Option.isSome_iff_exists.mpr ⟨_, h.1.2⟩) settledAt
      refine (accepts_save hvalid).attempt_bind fun settled _ => ?_
      refine (ih h.2).bind fun others _ => ?_
      split <;> exact accepts_pure trivial

theorem accepts_finalizeAdmitted {cids : List Cid} {baselines : List (UploadBaseline Cid)}
    (h : ∀ baseline ∈ baselines, baseline.Valid) {reports : Reports Cid}
    {admissionId : AdmissionId} {settledAt : Nat} :
    Accepts (finalizeAdmitted cids baselines reports admissionId settledAt)
      fun _ => True := by
  refine accepts_readAdmitted.bind fun current hcurrent => ?_
  refine (accepts_saveReports hcurrent).attempt_bind fun saved hsaved => ?_
  cases saved with
  | error err =>
      refine (accepts_rollbackBackwards h).bind fun failures hfailures => ?_
      refine accepts_throw (not_refuses_aggregate fun e hmem => ?_)
      rcases List.mem_cons.mp hmem with rfl | hmem
      · exact hsaved
      · exact hfailures e hmem
  | ok finalized => exact accepts_settleEach hsaved

theorem accepts_clearSettledAdmissions {reports : Reports Cid} {admissionId : AdmissionId}
    {cids : List Cid} :
    Accepts (clearSettledAdmissions reports admissionId cids) fun _ => True := by
  induction cids with
  | nil => exact accepts_pure trivial
  | cons cid rest ih =>
      refine accepts_get.attempt_bind fun current hread => ?_
      cases current with
      | error err => exact ih
      | ok current =>
          cases current with
          | none => exact accepts_throw nofun
          | some current =>
              dsimp only
              split
              · exact accepts_throw nofun
              · have hvalid :
                    isFileRecord (reportedRecord reports current).withoutAdmission = true :=
                  isFileRecord_withoutAdmission (isFileRecord_withReplicas (hread _ rfl).1 _)
                refine (accepts_save hvalid).attempt_bind fun stored _ => ih.bind fun others _ => ?_
                split <;> exact accepts_pure trivial

variable [DecidableEq Cid]

theorem accepts_admitPart {options : AdmitOptions} {file : UploadFile Cid}
    (htoken : options.admissionId ≠ "") :
    Accepts (admitPart options file) fun part => part.2.Valid := by
  refine accepts_get.bind fun previous hread => accepts_request.bind fun _ _ => ?_
  have hvalid : ∀ createdPin, UploadBaseline.Valid ⟨file.cid, previous, createdPin⟩ :=
    fun createdPin record hrecord => ⟨(hread record hrecord).2, (hread record hrecord).1⟩
  refine accepts_pinFile.attempt_bind fun pinned hpinned => ?_
  cases pinned with
  | error err => exact accepts_failPart (hvalid false) hpinned
  | ok createdPin =>
      have hregister : Accepts (registerExclusively file.registration options.registration)
          fun _ => True :=
        accepts_registerExclusively fun heq => htoken (Option.some.inj heq)
      refine hregister.attempt_bind fun registered hregistered => ?_
      cases registered with
      | error err => exact accepts_failPart (hvalid createdPin) hregistered
      | ok registration => exact accepts_pure (hvalid createdPin)

theorem accepts_admitParts {options : AdmitOptions} (htoken : options.admissionId ≠ "")
    {files : List (UploadFile Cid)} {admitted : Admitted Cid}
    (h : ∀ baseline ∈ admitted.baselines, baseline.Valid) :
    Accepts (admitParts options files admitted) fun _ => True := by
  induction files generalizing admitted with
  | nil => exact accepts_pure trivial
  | cons file rest ih =>
      refine (accepts_admitPart htoken).attempt_bind fun part hpart => ?_
      cases part with
      | error err => exact accepts_failAdmission h hpart
      | ok part =>
          have hbaselines : ∀ baseline ∈ addBaseline admitted.baselines part.2,
              baseline.Valid := by
            intro baseline hmem
            rcases mem_addBaseline hmem with hmem | rfl
            · exact h baseline hmem
            · exact hpart
          refine accepts_request.attempt_bind fun cleared hcleared => ?_
          cases cleared with
          | error err => exact accepts_failAdmission hbaselines hcleared
          | ok _ => exact ih hbaselines

theorem accepts_admitUpload {options : AdmitOptions} (htoken : options.admissionId ≠ "")
    {files : List (UploadFile Cid)} : Accepts (admitUpload options files) fun _ => True :=
  accepts_admitParts htoken (by simp)

end Uploads

/-! ## Background jobs -/

section Jobs

variable {Cid α : Type} {cid : Cid} {record current : FileRecord Cid}

/-- A step that is undone, where that is due, before its error is passed on. -/
theorem accepts_undone {undo : Store Cid Bool} (hundo : Accepts undo fun _ => True) (due : Bool)
    {err : LifecycleError Cid} (herr : ¬ err.Refuses) {φ : α → Prop} :
    Accepts (if due then do
      let _ ← compensating undo
      throw err
    else throw err : Store Cid α) φ := by
  cases due
  · exact accepts_throw herr
  · exact hundo.compensating.bind fun _ _ => accepts_throw herr

theorem accepts_hasLocalDag : Accepts (hasLocalDag cid) fun _ => True :=
  accepts_caught fun _ _ => accepts_pure trivial

theorem accepts_recoverInterruptedAdmission :
    Accepts (recoverInterruptedAdmission cid) fun _ => True := by
  refine accepts_get.bind fun current hread => ?_
  cases current with
  | none => exact accepts_pure trivial
  | some current =>
      refine accepts_process.bind fun proc _ => ?_
      split
      · exact accepts_pure trivial
      · have hvalid := isFileRecord_withoutAdmission (hread current rfl).1
        exact (accepts_save hvalid).bind fun _ _ => accepts_pure trivial

theorem accepts_clearSettledUnderLock : Accepts (clearSettledUnderLock record) fun _ => True := by
  refine accepts_get.bind fun current hread => ?_
  cases current with
  | none => exact accepts_pure trivial
  | some current =>
      refine accepts_process.bind fun proc _ => ?_
      split
      · exact accepts_pure trivial
      · have hvalid := isFileRecord_withoutAdmission (hread current rfl).1
        exact (accepts_save hvalid).bind fun _ _ => accepts_pure trivial

theorem accepts_clearSettledAdmission :
    Accepts (clearSettledAdmission record) fun _ => True := by
  refine accepts_process.bind fun proc _ => ?_
  split
  · exact accepts_pure trivial
  · exact accepts_clearSettledUnderLock

theorem accepts_setReplicas {replicas : List String} :
    Accepts (setReplicas cid replicas) fun _ => True := by
  refine accepts_get.bind fun record hread => ?_
  cases record with
  | none => exact accepts_pure trivial
  | some record =>
      have hvalid := isFileRecord_withReplicas (hread record rfl).1 replicas
      exact (accepts_save hvalid).bind fun _ _ => accepts_pure trivial

theorem accepts_createIfAbsent (h : isFileRecord record = true) :
    Accepts (createIfAbsent record) fun _ => True := by
  refine accepts_get.bind fun existing _ => ?_
  cases existing with
  | none => exact (accepts_save h).bind fun _ _ => accepts_pure trivial
  | some existing => exact accepts_pure trivial

theorem accepts_rescueOrphanedFile : Accepts (rescueOrphanedFile record) fun _ => True := by
  refine accepts_get.bind fun current _ => ?_
  cases current with
  | none => exact accepts_pure trivial
  | some current =>
      dsimp only
      split
      · exact accepts_pure trivial
      · refine accepts_pinFile.bind fun createdPin _ => Accepts.tryCatch ?_ fun err herr =>
          accepts_undone accepts_unpinFile _ herr
        exact (accepts_save isFileRecord_rescuedRecord).bind fun _ _ => accepts_pure trivial

theorem accepts_guardPin : Accepts (guardPin cid) fun _ => True := by
  refine accepts_get.bind fun current hread => ?_
  cases current with
  | none => exact accepts_pure trivial
  | some current =>
      dsimp only
      split
      · exact accepts_pure trivial
      refine accepts_request.bind fun isSafe _ => ?_
      split
      · exact accepts_pure trivial
      refine accepts_hasLocalDag.bind fun isLocal _ => ?_
      split
      · exact accepts_throw nofun
      refine accepts_pinFile.bind fun createdPin _ => Accepts.tryCatch ?_ fun err herr =>
        accepts_undone accepts_unpinFile _ herr
      have hvalid := isFileRecord_repinnedRecord (hread current rfl).1
      exact (accepts_save hvalid).bind fun _ _ => accepts_pure trivial

theorem accepts_releasePlanned : Accepts (releasePlanned record) fun _ => True := by
  refine accepts_get.bind fun current hread => ?_
  cases current with
  | none => exact accepts_pure trivial
  | some current =>
      refine accepts_process.bind fun proc _ => ?_
      split
      · exact accepts_pure trivial
      split
      · exact accepts_restoreReplicaStage (hread current rfl).1 true
      · refine accepts_unpinFile.bind fun removedPin _ => Accepts.tryCatch ?_ fun err herr =>
          accepts_undone accepts_pinFile _ herr
        exact (accepts_save isFileRecord_released).bind fun _ _ => accepts_pure trivial

theorem accepts_cleanupReleased : Accepts (cleanupReleased record) fun _ => True := by
  refine accepts_get.bind fun current _ => ?_
  cases current with
  | none => exact accepts_pure trivial
  | some current =>
      dsimp only
      split
      · exact accepts_request.mono fun _ _ => trivial
      · exact accepts_pure trivial

variable [DecidableEq Cid]

theorem accepts_claimRepairRecord : Accepts (claimRepairRecord record) fun _ => True := by
  refine accepts_get.bind fun current _ => ?_
  cases current with
  | none => exact accepts_pure trivial
  | some current =>
      refine accepts_process.bind fun proc _ => ?_
      split
      · exact accepts_pure trivial
      · exact accepts_request.mono fun _ _ => trivial

theorem accepts_demoteCopy : Accepts (demoteCopy record) fun _ => True := by
  refine accepts_get.bind fun current _ => ?_
  cases current with
  | none => exact accepts_pure trivial
  | some current =>
      refine accepts_process.bind fun proc _ => ?_
      split
      · exact accepts_pure trivial
      · refine accepts_unpinFile.bind fun removedPin _ => Accepts.tryCatch ?_ fun err herr =>
          accepts_undone accepts_pinFile _ herr
        exact (accepts_save isFileRecord_released).bind fun _ _ => accepts_pure trivial

/-- Every operation, with all it does when a step fails. -/
theorem LocalOp.ValidArgs.accepts {o : LocalOp Cid} (h : o.ValidArgs) :
    Accepts o.body fun _ => True := by
  cases o with
  | registerPinnedFile => exact accepts_registerPinnedFile
  | confirmStoredFile => exact accepts_confirmStoredFile
  | releaseStoredFile => exact accepts_releaseStoredFile
  | stageReplica options name => exact accepts_stageReplica (h.staged options name rfl)
  | commitReplica => exact accepts_commitReplica
  | abortReplica => exact accepts_abortReplica
  | admitUpload => exact accepts_admitUpload fun heq => h.own (congrArg some heq)
  | rollbackAdmitted => exact accepts_rollbackAdmitted h.baselines
  | finalizeAdmitted => exact accepts_finalizeAdmitted h.baselines
  | clearSettledAdmissions => exact accepts_clearSettledAdmissions
  | scanRegistry =>
      exact accepts_request.bind fun _ _ => accepts_process.bind fun _ _ => accepts_pure trivial
  | guardPin => exact accepts_guardPin
  | releasePlanned => exact accepts_releasePlanned
  | cleanupReleased => exact accepts_cleanupReleased
  | recoverInterruptedAdmission => exact accepts_recoverInterruptedAdmission
  | claimRepairRecord => exact accepts_claimRepairRecord
  | setReplicas => exact accepts_setReplicas
  | clearSettledAdmission => exact accepts_clearSettledAdmission
  | rescueOrphanedFile => exact accepts_rescueOrphanedFile
  | demoteCopy => exact accepts_demoteCopy
  | createIfAbsent record => exact accepts_createIfAbsent (h.created record rfl)
  | _ => exact accepts_request.mono fun _ _ => trivial

end Jobs

end IpfsNode
