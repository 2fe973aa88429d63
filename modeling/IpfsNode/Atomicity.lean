import IpfsNode.Loud
import IpfsNode.StageRollback

/-!
# Transitions that fail as a whole

Registration, confirmation, release and staging change a pin and a record one
after the other. When a step of one of them fails and the steps that restore
succeed, the transition fails too (`Prog.Loud`), and record and pin are what
they were. Restoring goes by the baseline that the transition observed, so it
does not matter which step failed, nor whether the step landed.
-/

namespace IpfsNode

/-! ## Failures are passed on -/

section Loud

variable {Cid α : Type} {cid : Cid}

/-- An ordinary step that was not served. That a pin is already there or not
there any more is an answer, not a failure. -/
def Unserved (q : Request Cid) (answer : Except (LifecycleError Cid) q.Ret) : Prop :=
  q.compensating = false ∧
    ∃ err, answer = .error err ∧ err ≠ .alreadyPinned ∧ err ≠ .pinNotFound

theorem loud_request (o : StoreOp Cid) : Prog.Loud Unserved (request o) :=
  Prog.Loud.perform fun _ h => h.2.imp fun _ herr => herr.1

theorem loud_get : Prog.Loud Unserved (Locked.get cid) := loud_request _

theorem loud_save (record : FileRecord Cid) : Prog.Loud Unserved (Locked.save record) := by
  cases h : isFileRecord record with
  | true =>
      rw [Locked.save_valid h]
      exact loud_request _
  | false =>
      rw [Locked.save_invalid h]
      exact .throw _

theorem loud_statDag : Prog.Loud Unserved (statDag cid) := loud_request _

theorem loud_pinFile : Prog.Loud Unserved (pinFile cid) := by
  intro r
  cases r with
  | ok a => exact ⟨trivial, fun h => nomatch h.2⟩
  | error err =>
      cases err with
      | alreadyPinned => exact ⟨trivial, fun ⟨_, _, herr, hne, _⟩ => absurd (by cases herr; rfl) hne⟩
      | _ => exact ⟨trivial, fun _ => trivial⟩

theorem loud_unpinFile : Prog.Loud Unserved (unpinFile cid) := by
  intro r
  cases r with
  | ok a => exact ⟨trivial, fun h => nomatch h.2⟩
  | error err =>
      cases err with
      | pinNotFound => exact ⟨trivial, fun ⟨_, _, herr, _, hne⟩ => absurd (by cases herr; rfl) hne⟩
      | _ => exact ⟨trivial, fun _ => trivial⟩

theorem loud_isDirectlyPinned : Prog.Loud Unserved (isDirectlyPinned cid) := by
  intro r
  cases r with
  | ok a => exact ⟨trivial, fun h => nomatch h.2⟩
  | error err =>
      cases err with
      | pinNotFound => exact ⟨trivial, fun ⟨_, _, herr, _, hne⟩ => absurd (by cases herr; rfl) hne⟩
      | _ => exact ⟨trivial, fun _ => trivial⟩

theorem requests_compensating (p : Store Cid α) :
    (compensating p).Requests fun q => ∀ r, ¬Unserved q r := by
  induction p with
  | ret a => trivial
  | fail err => trivial
  | act q k ih => exact ⟨fun _ h => Bool.noConfusion h.1, ih⟩

theorem loud_restoreLifecycleBaseline (previous : Option (FileRecord Cid)) (wasPinned : Bool)
    (err : LifecycleError Cid) : Prog.Loud Unserved
      (restoreLifecycleBaseline cid previous wasPinned err : Store Cid α) := by
  refine .of_requests (.bind (.attempt (requests_compensating _)) fun _ =>
    .bind (.attempt (requests_compensating _)) fun _ => ?_)
  split <;> trivial

theorem rejects_restoreLifecycleBaseline (previous : Option (FileRecord Cid)) (wasPinned : Bool)
    (err : LifecycleError Cid) : Prog.Rejects
      (restoreLifecycleBaseline cid previous wasPinned err : Store Cid α) :=
  .bind fun _ => .bind fun _ => by split <;> trivial

theorem loud_restoreStageWrite (previous : Option (FileRecord Cid)) (createdPin : Bool)
    (err : LifecycleError Cid) : Prog.Loud Unserved
      (restoreStageWrite cid previous createdPin err : Store Cid α) := by
  refine .of_requests (.bind (.attempt (requests_compensating _)) fun _ =>
    .bind (.attempt (requests_compensating _)) fun _ => ?_)
  split <;> trivial

theorem rejects_restoreStageWrite (previous : Option (FileRecord Cid)) (createdPin : Bool)
    (err : LifecycleError Cid) : Prog.Rejects
      (restoreStageWrite cid previous createdPin err : Store Cid α) :=
  .bind fun _ => .bind fun _ => by split <;> trivial

/-! ### The transitions -/

theorem loud_wasPinnedBefore [DecidableEq Cid] (previous : Option (FileRecord Cid)) :
    Prog.Loud Unserved (wasPinnedBefore cid previous) := by
  unfold wasPinnedBefore
  split
  · exact .pure _
  · exact loud_isDirectlyPinned

theorem loud_registerExclusively [DecidableEq Cid] (file : NewFileRecord Cid)
    (options : RegisterFileOptions) :
    Prog.Loud Unserved (registerExclusively file options) := by
  refine .bind loud_get fun existing => .bind (loud_request _) fun proc => ?_
  split
  · exact .throw _
  · cases existing with
    | none => exact .bind (loud_save _) fun _ => .pure _
    | some existing =>
        dsimp only
        split
        · exact .pure _
        · split
          · exact .throw _
          · split <;> exact .bind (loud_save _) fun _ => .pure _

theorem loud_registerPinnedUnderLock [DecidableEq Cid] (options : RegisterPinnedOptions Cid)
    (previous : Option (FileRecord Cid)) :
    Prog.Loud Unserved (registerPinnedUnderLock options previous) := by
  refine .bind (loud_wasPinnedBefore _) fun wasPinned => .tryCatch ?_
    (loud_restoreLifecycleBaseline _ _) (rejects_restoreLifecycleBaseline _ _)
  exact .bind loud_pinFile fun _ => .bind loud_statDag fun _ =>
    .bind (loud_registerExclusively _ _) fun _ => .pure _

theorem loud_registerPinnedFile [DecidableEq Cid] (options : RegisterPinnedOptions Cid) :
    Prog.Loud Unserved (registerPinnedFile options) :=
  .bind loud_get fun _ => loud_registerPinnedUnderLock _ _

theorem loud_confirmStoredFile [DecidableEq Cid] (options : RegisterPinnedOptions Cid)
    (registerUnknown : Bool) :
    Prog.Loud Unserved (confirmStoredFile options registerUnknown) := by
  refine .bind loud_get fun current => ?_
  cases current with
  | none =>
      dsimp only
      split
      · exact .bind (loud_registerPinnedUnderLock _ _) fun _ => .pure _
      · exact .pure _
  | some current =>
      refine .bind (loud_request _) fun proc => ?_
      split
      · exact .throw _
      · refine .bind (loud_wasPinnedBefore _) fun wasPinned => .tryCatch ?_
          (loud_restoreLifecycleBaseline _ _) (rejects_restoreLifecycleBaseline _ _)
        exact .bind loud_pinFile fun _ => .bind (loud_save _) fun _ => .pure _

theorem loud_releaseStoredFile [DecidableEq Cid] :
    Prog.Loud Unserved (releaseStoredFile cid) := by
  refine .bind loud_get fun current => ?_
  cases current with
  | none => exact .pure _
  | some current =>
      refine .bind (loud_request _) fun proc => ?_
      split
      · exact .throw _
      · refine .bind (loud_wasPinnedBefore _) fun wasPinned => .tryCatch ?_
          (loud_restoreLifecycleBaseline _ _) (rejects_restoreLifecycleBaseline _ _)
        exact .bind loud_unpinFile fun _ => .bind (loud_save _) fun _ => .pure _

theorem loud_joinStage (options : ReplicaStageTarget Cid) (previous : FileRecord Cid)
    (stage : ReplicaStage) : Prog.Loud Unserved (joinStage options previous stage) := by
  unfold joinStage
  split
  · exact .throw _
  · refine .bind loud_pinFile fun _ => .tryCatch ?_ (loud_restoreStageWrite _ _)
      (rejects_restoreStageWrite _ _)
    exact .bind (loud_save _) fun _ => .pure _

theorem loud_beginStage (options : ReplicaStageTarget Cid) (name : String)
    (previous : Option (FileRecord Cid)) :
    Prog.Loud Unserved (beginStage options name previous) := by
  refine .bind loud_isDirectlyPinned fun wasDirectlyPinned => ?_
  split
  · refine .bind loud_pinFile fun createdPin => .tryCatch ?_ (loud_restoreStageWrite _ _)
      (rejects_restoreStageWrite _ _)
    exact .bind loud_statDag fun _ => .bind (loud_save _) fun _ => .pure _
  · refine .bind loud_pinFile fun createdPin => .tryCatch ?_ (loud_restoreStageWrite _ _)
      (rejects_restoreStageWrite _ _)
    exact .bind loud_statDag fun _ => .bind (loud_save _) fun _ => .pure _

theorem loud_stageReplica (options : ReplicaStageTarget Cid) (name : String) :
    Prog.Loud Unserved (stageReplica options name) := by
  refine .bind (loud_request _) fun aborted => ?_
  split
  · exact .throw _
  · refine .bind loud_get fun previous => ?_
    cases previous with
    | none => exact loud_beginStage _ _ _
    | some previous =>
        dsimp only
        split
        · exact loud_joinStage _ _ _
        · split
          · exact .throw _
          · split
            · exact .throw _
            · exact loud_beginStage _ _ _

end Loud

/-! ## What a failed transition leaves -/

section Restore

variable {Cid α : Type} [DecidableEq Cid] {content : Content Cid} {faults : Faults Cid}
variable {w w₁ : World Cid} {cid : Cid}

/-- The record does not claim a pin that is missing. -/
def World.ClaimsPin (w : World Cid) (cid : Cid) : Prop :=
  ∀ record, w.files.get cid = some record → record.pinned = true → cid ∈ w.pins

/-- An error leaves record and pin of the file as they were. -/
def FailsClean (w : World Cid) (cid : Cid) (r : Except (LifecycleError Cid) α)
    (w' : World Cid) : Prop :=
  ∀ err, r = .error err → w.Matches w' cid

theorem FailsClean.ok (a : α) (w' : World Cid) :
    FailsClean w cid (.ok a : Except (LifecycleError Cid) α) w' :=
  fun _ h => nomatch h

theorem FailsClean.error {err : LifecycleError Cid} {w' : World Cid} (h : w.Matches w' cid) :
    FailsClean w cid (.error err : Except (LifecycleError Cid) α) w' :=
  fun _ _ => h

/-- The baseline that a transition reads in the registry. -/
theorem valid_baseline (w : World Cid) (cid : Cid) (createdPin : Bool) :
    (⟨cid, w.files.get cid, createdPin⟩ : UploadBaseline Cid).Valid :=
  fun _ hget => ⟨Registry.cid_of_get hget, Registry.valid_of_get hget⟩

theorem wp_wasPinnedBefore (hclaims : w.ClaimsPin cid)
    {Q : Except (LifecycleError Cid) Bool → World Cid → Prop}
    (hok : Q (.ok (decide (cid ∈ w.pins))) w) (hio : Q (.error .io) w) :
    Prog.wp (storeSem content faults) (wasPinnedBefore cid (w.files.get cid)) Q w := by
  unfold wasPinnedBefore
  split
  · rename_i hpinned
    cases hget : w.files.get cid with
    | none => simp [hget] at hpinned
    | some record =>
        rw [decide_eq_true (hclaims record hget (by simpa [hget] using hpinned))] at hok
        exact hok
  · exact wp_isDirectlyPinned hok hio

/-- The baseline is put back from whatever state the failed step left. -/
theorem wp_restoreLifecycleBaseline (hfaults : faults.Ordinary) (err : LifecycleError Cid) :
    Prog.wp (storeSem content faults)
      (restoreLifecycleBaseline cid (w.files.get cid) (decide (cid ∈ w.pins)) err : Store Cid α)
      (FailsClean w cid) w₁ := by
  obtain ⟨a, w₂, hpinned, hpin⟩ : ∃ a w₂, Prog.run (serve content)
      (if decide (cid ∈ w.pins) then pinFile cid else unpinFile cid) w₁ = (.ok a, w₂) ∧
      (cid ∈ w₂.pins ↔ cid ∈ w.pins) := by
    by_cases hpin : cid ∈ w.pins
    · rw [decide_eq_true hpin, if_pos rfl, run_pinFile]
      exact ⟨_, _, rfl, by simp [hpin]⟩
    · rw [decide_eq_false hpin, if_neg Bool.false_ne_true, run_unpinFile]
      exact ⟨_, _, rfl, by simp [hpin]⟩
  refine Prog.wp_bind.mpr (Prog.wp_attempt.mpr ((wp_compensating hfaults).mpr ?_))
  rw [hpinned]
  show Prog.wp _ _ _ w₂
  refine Prog.wp_bind.mpr (Prog.wp_attempt.mpr ((wp_compensating hfaults).mpr ?_))
  obtain ⟨w₃, hrun, hrecord, -, hpins, -⟩ := run_restoreRecord (valid_baseline w cid false) w₂
  rw [hrun]
  exact .error ⟨hrecord, by rw [hpins, hpin]⟩

theorem wp_registerPinnedUnderLock (hfaults : faults.Ordinary)
    {options : RegisterPinnedOptions Cid} (hclaims : w.ClaimsPin options.cid) :
    Prog.wp (storeSem content faults)
      (registerPinnedUnderLock options (w.files.get options.cid))
      (FailsClean w options.cid) w := by
  refine Prog.wp_bind.mpr (wp_wasPinnedBefore hclaims ?_ (.error (.refl w _)))
  have hrestore (w₁ : World Cid) (err : LifecycleError Cid) :
      Prog.wp (storeSem content faults)
        (restoreLifecycleBaseline options.cid (w.files.get options.cid)
          (decide (options.cid ∈ w.pins)) err : Store Cid (FileRecord Cid))
        (FailsClean w options.cid) w₁ :=
    wp_restoreLifecycleBaseline hfaults err
  refine Prog.wp_tryCatch.mpr (Prog.wp_bind.mpr (wp_pinFile ?_ (hrestore _ _)))
  refine Prog.wp_bind.mpr (wp_statDag (fun _ => ?_) fun _ => hrestore _ _)
  exact Prog.wp_bind.mpr (wp_registerExclusively (fun _ _ => .ok _ _) (fun _ _ _ _ => .ok _ _)
    (fun _ => hrestore _ _) fun _ => hrestore _ _)

theorem wp_registerPinnedFile (hfaults : faults.Ordinary) {options : RegisterPinnedOptions Cid}
    (hclaims : w.ClaimsPin options.cid) :
    Prog.wp (storeSem content faults) (registerPinnedFile options)
      (FailsClean w options.cid) w :=
  Prog.wp_bind.mpr (wp_get (wp_registerPinnedUnderLock hfaults hclaims) (.error (.refl w _)))

theorem wp_confirmStoredFile (hfaults : faults.Ordinary) {options : RegisterPinnedOptions Cid}
    (hclaims : w.ClaimsPin options.cid) (registerUnknown : Bool) :
    Prog.wp (storeSem content faults) (confirmStoredFile options registerUnknown)
      (FailsClean w options.cid) w := by
  refine Prog.wp_bind.mpr (wp_get ?_ (.error (.refl w _)))
  have hregister : Prog.wp (storeSem content faults)
      (registerPinnedUnderLock options (w.files.get options.cid))
      (FailsClean w options.cid) w := wp_registerPinnedUnderLock hfaults hclaims
  have hwas {Q} (hok : Q (.ok (decide (options.cid ∈ w.pins))) w) (hio : Q (.error .io) w) :
      Prog.wp (storeSem content faults)
        (wasPinnedBefore options.cid (w.files.get options.cid)) Q w :=
    wp_wasPinnedBefore hclaims hok hio
  have hrestore (w₁ : World Cid) (err : LifecycleError Cid) :
      Prog.wp (storeSem content faults)
        (restoreLifecycleBaseline options.cid (w.files.get options.cid)
          (decide (options.cid ∈ w.pins)) err : Store Cid (Option (FileRecord Cid)))
        (FailsClean w options.cid) w₁ :=
    wp_restoreLifecycleBaseline hfaults err
  cases hget : w.files.get options.cid with
  | none =>
      rw [hget] at hregister
      show Prog.wp _ (ite _ _ _) _ w
      split
      · refine Prog.wp_bind.mpr (Prog.wp_mono (fun r w' hr => ?_) hregister)
        cases r with
        | ok record => exact .ok _ _
        | error err => exact .error (hr err rfl)
      · exact .ok _ _
  | some current =>
      rw [hget] at hwas hrestore
      refine Prog.wp_bind.mpr (wp_process ?_)
      show Prog.wp _ (ite _ _ _) _ w
      split
      · exact .error (.refl w _)
      · refine Prog.wp_bind.mpr (hwas ?_ (.error (.refl w _)))
        refine Prog.wp_tryCatch.mpr (Prog.wp_bind.mpr (wp_pinFile ?_ (hrestore _ _)))
        exact Prog.wp_bind.mpr (wp_save (fun _ => .ok _ _) (fun _ => hrestore _ _)
          fun _ => hrestore _ _)

theorem wp_releaseStoredFile (hfaults : faults.Ordinary) (hclaims : w.ClaimsPin cid) :
    Prog.wp (storeSem content faults) (releaseStoredFile cid) (FailsClean w cid) w := by
  refine Prog.wp_bind.mpr (wp_get ?_ (.error (.refl w _)))
  have hwas {Q} (hok : Q (.ok (decide (cid ∈ w.pins))) w) (hio : Q (.error .io) w) :
      Prog.wp (storeSem content faults) (wasPinnedBefore cid (w.files.get cid)) Q w :=
    wp_wasPinnedBefore hclaims hok hio
  have hrestore (w₁ : World Cid) (err : LifecycleError Cid) :
      Prog.wp (storeSem content faults)
        (restoreLifecycleBaseline cid (w.files.get cid) (decide (cid ∈ w.pins)) err :
          Store Cid (Option (FileRecord Cid))) (FailsClean w cid) w₁ :=
    wp_restoreLifecycleBaseline hfaults err
  cases hget : w.files.get cid with
  | none => exact .ok _ _
  | some current =>
      rw [hget] at hwas hrestore
      refine Prog.wp_bind.mpr (wp_process ?_)
      show Prog.wp _ (ite _ _ _) _ w
      split
      · exact .error (.refl w _)
      · refine Prog.wp_bind.mpr (hwas ?_ (.error (.refl w _)))
        refine Prog.wp_tryCatch.mpr (Prog.wp_bind.mpr
          (wp_unpinFile ?_ (hrestore _ _) (hrestore _ _)))
        exact Prog.wp_bind.mpr (wp_save (fun _ => .ok _ _) (fun _ => hrestore _ _)
          fun _ => hrestore _ _)

/-! ### Staging -/

variable {options : ReplicaStageTarget Cid} {name : String}

/-- A stage that cannot be stored takes back the pin it made, and only that. -/
theorem wp_restoreStageWrite_clean (hfaults : faults.Ordinary) (hpin : options.cid ∈ w₁.pins)
    (err : LifecycleError Cid) :
    Prog.wp (storeSem content faults)
      (restoreStageWrite options.cid (w.files.get options.cid)
        (decide (options.cid ∉ w.pins)) err : Store Cid α)
      (FailsClean w options.cid) w₁ := by
  refine wp_restoreStageWrite hfaults
    (valid_baseline w options.cid (decide (options.cid ∉ w.pins))) err fun w' hrecord hpin' => ?_
  refine .error ⟨hrecord, hpin'.trans ?_⟩
  show options.cid ∈ w₁.pins ∧ decide (options.cid ∉ w.pins) = false ↔ options.cid ∈ w.pins
  rw [and_iff_right hpin, decide_eq_false_iff_not, not_not]

theorem wp_beginStage_clean (hfaults : faults.Ordinary) :
    Prog.wp (storeSem content faults) (beginStage options name (w.files.get options.cid))
      (FailsClean w options.cid) w := by
  refine Prog.wp_bind.mpr (wp_isDirectlyPinned ?_ (.error (.refl w _)))
  have hpinned : options.cid ∈ (w.pin content options.cid).pins := by simp
  have hrestore (w₁ : World Cid) (hpin : options.cid ∈ w₁.pins) (err : LifecycleError Cid) :
      Prog.wp (storeSem content faults)
        (restoreStageWrite options.cid (w.files.get options.cid) (decide (options.cid ∉ w.pins))
          err : Store Cid (ReplicaStageResult Cid)) (FailsClean w options.cid) w₁ :=
    wp_restoreStageWrite_clean hfaults hpin err
  show Prog.wp _ (ite _ _ _) _ w
  split
  · refine Prog.wp_bind.mpr (wp_pinFile ?_ (.error (.refl w _)))
    refine Prog.wp_tryCatch.mpr (Prog.wp_bind.mpr
      (wp_statDag (fun _ => ?_) fun _ => hrestore _ hpinned _))
    refine Prog.wp_bind.mpr (wp_save (fun _ => .ok _ _) (fun _ => hrestore _ ?_ _)
      fun _ => hrestore _ hpinned _)
    exact hpinned
  · refine Prog.wp_bind.mpr (wp_pinFile ?_ (.error (.refl w _)))
    refine Prog.wp_tryCatch.mpr (Prog.wp_bind.mpr
      (wp_statDag (fun _ => ?_) fun _ => hrestore _ hpinned _))
    refine Prog.wp_bind.mpr (wp_save (fun _ => .ok _ _) (fun _ => hrestore _ ?_ _)
      fun _ => hrestore _ hpinned _)
    exact hpinned

/-- A staged record claims its pin. -/
theorem pinned_of_staged {record : FileRecord Cid} (hget : w.files.get cid = some record)
    {stage : ReplicaStage} (hstage : record.replicaStage = some stage) :
    record.pinned = true := by
  have hvalid := Registry.valid_of_get hget
  unfold isFileRecord at hvalid
  rw [hstage] at hvalid
  simp only [Bool.and_eq_true] at hvalid
  exact hvalid.2.1.1.1.2

theorem wp_stageReplica_clean (hfaults : faults.Ordinary) (hclaims : w.ClaimsPin options.cid) :
    Prog.wp (storeSem content faults) (stageReplica options name)
      (FailsClean w options.cid) w := by
  refine Prog.wp_bind.mpr (wp_request ?_ (fun h => by cases h) (fun h => by cases h))
  -- looking up the abort markers touches neither record nor pin
  set pruned := (StoreOp.effect content (.wasAborted options.cid options.transactionId
    options.originPeerId options.now) w).2
  have hsame {r : Except (LifecycleError Cid) (ReplicaStageResult Cid)} {w' : World Cid}
      (h : FailsClean pruned options.cid r w') : FailsClean w options.cid r w' :=
    fun err herr => ⟨(h err herr).record, (h err herr).pin⟩
  have hclaims : pruned.ClaimsPin options.cid := hclaims
  have hbegin : Prog.wp (storeSem content faults)
      (beginStage options name (pruned.files.get options.cid)) (FailsClean w options.cid) pruned :=
    Prog.wp_mono (fun _ _ => hsame) (wp_beginStage_clean hfaults)
  show Prog.wp _ (ite _ _ _) _ pruned
  split
  · exact hsame (.error (.refl pruned _))
  refine Prog.wp_bind.mpr (wp_get ?_ (hsame (.error (.refl pruned _))))
  show Prog.wp _ _ _ pruned
  cases hget : pruned.files.get options.cid with
  | none =>
      rw [hget] at hbegin
      exact hbegin
  | some previous =>
      rw [hget] at hbegin
      dsimp only
      cases hstage : previous.replicaStage with
      | some stage =>
          have hpin : options.cid ∈ pruned.pins :=
            hclaims previous hget (pinned_of_staged hget hstage)
          refine Prog.wp_mono (fun r w' hr => hsame fun err herr => ?_)
            (wp_joinStage hfaults hget hpin)
          rw [herr] at hr
          exact hr
      | none =>
          dsimp only
          split
          · exact hsame (.error (.refl pruned _))
          · split
            · exact hsame (.error (.refl pruned _))
            · exact hbegin

end Restore

/-! ## A registration that is refused -/

section Refused

variable {Cid : Type} [DecidableEq Cid] {content : Content Cid} {faults : Faults Cid}
variable {w : World Cid}

/-- The CID is being repaired, or a running upload owns its record. -/
def RegistrationRefused (w : World Cid) (cid : Cid) : Prop :=
  w.proc.isActiveRepair cid = true ∨
    ∃ existing, w.files.get cid = some existing ∧ existing.replicaStage = none ∧
      isOwnedByAnother w.proc existing none = true

theorem wp_registerExclusively_refused {file : NewFileRecord Cid} {options : RegisterFileOptions}
    (hadmission : options.admissionId = none) (h : RegistrationRefused w file.cid)
    {Q : Except (LifecycleError Cid) (FileRecord Cid × Option (FileRecord Cid)) →
      World Cid → Prop} (herr : ∀ err, Q (.error err) w) :
    Prog.wp (storeSem content faults) (registerExclusively file options) Q w := by
  refine Prog.wp_bind.mpr (wp_get ?_ (herr _))
  refine Prog.wp_bind.mpr (wp_process ?_)
  show Prog.wp _ (ite _ _ _) _ w
  split
  · exact herr _
  · rename_i hrepair
    obtain ⟨existing, hget, hstage, howned⟩ := h.resolve_left hrepair
    rw [hget, hadmission]
    dsimp only
    rw [hstage, howned]
    exact herr _

/-- The refusal comes after the pin, and goes through the restoring steps. -/
theorem wp_registerPinnedUnderLock_refused {options : RegisterPinnedOptions Cid}
    (h : RegistrationRefused w options.cid) (previous : Option (FileRecord Cid)) :
    Prog.wp (storeSem content faults) (registerPinnedUnderLock options previous)
      (fun r _ => ∃ err, r = .error err) w := by
  have hregister (wasPinned : Bool) : Prog.wp (storeSem content faults)
      (tryCatch (do
        let _ ← pinFile options.cid
        let stats ← statDag options.cid
        let registration ← registerExclusively
          { cid := options.cid, name := options.name, fileSize := stats.size
            storedBytes := stats.deduplicatedDagSize
            protectedBytes := some stats.deduplicatedDagSize }
          { confirmationRequired := false, temporaryTtlMs := options.temporaryTtlMs
            now := options.now, admissionId := none }
        pure registration.1)
        fun err => restoreLifecycleBaseline options.cid previous wasPinned err)
      (fun r _ => ∃ err, r = .error err) w := by
    have hrejects (w₁ : World Cid) (err : LifecycleError Cid) : Prog.wp (storeSem content faults)
        (restoreLifecycleBaseline options.cid previous wasPinned err : Store Cid (FileRecord Cid))
        (fun r _ => ∃ err, r = .error err) w₁ :=
      Prog.wp_iff_runs.mpr fun _ _ hrun => (rejects_restoreLifecycleBaseline _ _ _).error hrun
    refine Prog.wp_tryCatch.mpr (Prog.wp_bind.mpr (wp_pinFile ?_ (hrejects _ _)))
    have hrefused : RegistrationRefused (w.pin content options.cid) options.cid := by
      unfold RegistrationRefused
      rw [World.proc_pin, World.files_pin]
      exact h
    refine Prog.wp_bind.mpr (wp_statDag (fun _ => ?_) fun _ => hrejects _ _)
    exact Prog.wp_bind.mpr (wp_registerExclusively_refused rfl hrefused fun _ => hrejects _ _)
  unfold registerPinnedUnderLock wasPinnedBefore
  split
  · exact Prog.wp_bind.mpr (hregister true)
  · exact Prog.wp_bind.mpr (wp_isDirectlyPinned (hregister _) ⟨_, rfl⟩)

end Refused

/-! ## The transitions -/

section Transitions

variable {Cid α : Type} [DecidableEq Cid] {content : Content Cid}

/-- Where compensation succeeds and the record claims no missing pin: a run in
which a step was not served fails, and a run that fails leaves the record, up to
its revision, and the pin that was there or claimed. -/
def FailsAsWhole (content : Content Cid) (cid : Cid) (p : Store Cid α) : Prop :=
  ∀ (faults : Faults Cid) (w : World Cid) (r : Except (LifecycleError Cid) α)
    (past : Prog.Pool.Past Unit (Request Cid) Request.Ret (LifecycleError Cid) (World Cid)),
    faults.Ordinary → w.ClaimsPin cid →
    Prog.Runs (Prog.Pool.traced (storeSem content faults) ()) p (w, []) r past →
    ((∃ q before answer after, .request () q before answer after ∈ past.2 ∧ Unserved q answer) →
      ∃ err, r = .error err) ∧
    ∀ err, r = .error err →
      (past.1.files.get cid).map FileRecord.unstamped =
          (w.files.get cid).map FileRecord.unstamped ∧
        (cid ∈ past.1.pins ↔
          cid ∈ w.pins ∨ ∃ record, w.files.get cid = some record ∧ record.pinned = true)

theorem failsAsWhole {cid : Cid} {p : Store Cid α} (hloud : p.Loud Unserved)
    (hclean : ∀ {faults : Faults Cid} {w : World Cid}, faults.Ordinary → w.ClaimsPin cid →
      Prog.wp (storeSem content faults) p (FailsClean w cid) w) :
    FailsAsWhole content cid p := by
  intro faults w r past hfaults hclaims hrun
  constructor
  · obtain ⟨events, hevents, herror⟩ := hloud.error_of_event hrun
    rw [hevents, List.nil_append]
    exact herror
  · intro err herr
    have hmatches := Prog.wp_iff_runs.mp (hclean hfaults hclaims) r past.1
      (Prog.Pool.runs_of_traced hrun) err herr
    refine ⟨hmatches.record, hmatches.pin.trans (or_iff_left_of_imp ?_).symm⟩
    rintro ⟨record, hget, hpinned⟩
    exact hclaims record hget hpinned

/-- Registration, confirmation, release and staging fail as a whole, and a
registration that finds its CID busy fails. -/
theorem lifecycle_fails_as_whole :
    (∀ options : RegisterPinnedOptions Cid,
      FailsAsWhole content options.cid (registerPinnedFile options)) ∧
    (∀ (options : RegisterPinnedOptions Cid) (registerUnknown : Bool),
      FailsAsWhole content options.cid (confirmStoredFile options registerUnknown)) ∧
    (∀ cid, FailsAsWhole content cid (releaseStoredFile cid)) ∧
    (∀ (options : ReplicaStageTarget Cid) (name : String),
      FailsAsWhole content options.cid (stageReplica options name)) ∧
    ∀ (options : RegisterPinnedOptions Cid) (faults : Faults Cid) (w w' : World Cid) r,
      RegistrationRefused w options.cid →
      (Prog.Runs (storeSem content faults) (registerPinnedFile options) w r w' →
        ∃ err, r = .error err) ∧
      ∀ r', w.files.get options.cid = none →
        Prog.Runs (storeSem content faults) (confirmStoredFile options true) w r' w' →
        ∃ err, r' = .error err := by
  refine ⟨fun options => failsAsWhole (loud_registerPinnedFile options)
      fun hfaults hclaims => wp_registerPinnedFile hfaults hclaims,
    fun options registerUnknown => failsAsWhole (loud_confirmStoredFile options registerUnknown)
      fun hfaults hclaims => wp_confirmStoredFile hfaults hclaims registerUnknown,
    fun cid => failsAsWhole loud_releaseStoredFile wp_releaseStoredFile,
    fun options name => failsAsWhole (loud_stageReplica options name) wp_stageReplica_clean, ?_⟩
  intro options faults w w' r hrefused
  constructor
  · intro hrun
    have hwp : Prog.wp (storeSem content faults) (registerPinnedFile options)
        (fun r _ => ∃ err, r = .error err) w :=
      Prog.wp_bind.mpr (wp_get (wp_registerPinnedUnderLock_refused hrefused _) ⟨_, rfl⟩)
    exact Prog.wp_iff_runs.mp hwp r w' hrun
  · intro r' hget hrun
    have hwp : Prog.wp (storeSem content faults) (confirmStoredFile options true)
        (fun r _ => ∃ err, r = .error err) w := by
      refine Prog.wp_bind.mpr (wp_get ?_ ⟨_, rfl⟩)
      rw [hget]
      refine Prog.wp_bind.mpr (Prog.wp_mono (fun r w' hr => ?_)
        (wp_registerPinnedUnderLock_refused hrefused none))
      obtain ⟨err, rfl⟩ := hr
      exact ⟨err, rfl⟩
    exact Prog.wp_iff_runs.mp hwp r' w' hrun

end Transitions

namespace LandedWrite

/-- A confirmed file. -/
def file : FileRecord Nat :=
  { cid := 7, name := "file", state := .confirmed, createdAt := 0, expiresAt := none
    confirmedAt := some 0, fileSize := 1, storedBytes := 1, protectedBytes := none
    pinned := true, heldLocally := true, replicas := [], admissionId := none
    admissionSettledAt := none, replicaStage := none, revision := some 0 }

def node : World Nat :=
  { World.empty with
    files := { entries := [file], keyed := by decide, valid := by decide }
    pins := {7}
    blocks := {7}
    nextRevision := 1 }

theorem claimsPin_node : node.ClaimsPin 7 := fun _ _ _ => Finset.mem_singleton_self 7

/-- The registry write of a release lands, and rejects. -/
def released := Prog.run (Prog.Pool.tracing (failWrites Content.flat true) ())
  (releaseStoredFile 7) (node, [])

theorem runs_released : Prog.Runs (Prog.Pool.traced
    (storeSem Content.flat fun r => r.isOrdinaryWrite = true) ()) (releaseStoredFile 7) (node, [])
      released.1 released.2 :=
  Prog.runs_run (Prog.Pool.traced_tracing failWrites_step ()) _ _

end LandedWrite

open LandedWrite in
/-- The release fails, with record and pin as they were. -/
theorem lifecycle_fails_as_whole_landedWrite :
    (∃ err, released.1 = .error err) ∧
      (released.2.1.files.get 7).map FileRecord.unstamped = some file.unstamped ∧
      7 ∈ released.2.1.pins := by
  obtain ⟨hfails, hrestores⟩ := (@lifecycle_fails_as_whole Nat _ Content.flat).2.2.1 7 _ node _ _
    ordinary_failWrites claimsPin_node runs_released
  have hunserved : Unserved ⟨.putRecord (file.released .expired) isFileRecord_released, false⟩
      (.error .io) := ⟨rfl, .io, rfl, nofun, nofun⟩
  obtain ⟨err, herr⟩ := hfails ⟨_, _, _, _, List.mem_of_getElem? (i := 3) rfl, hunserved⟩
  obtain ⟨hrecord, hpin⟩ := hrestores err herr
  exact ⟨⟨err, herr⟩, hrecord, hpin.mpr (.inl (Finset.mem_singleton_self 7))⟩

end IpfsNode
