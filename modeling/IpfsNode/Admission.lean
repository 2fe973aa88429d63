import IpfsNode.Upload
import IpfsNode.Execution

/-!
# What the sections of an upload come to

Admission takes every file of a request or gives all of them back, provided
that the steps which compensate succeed; an admission that is undone gives back
the files that still carry its token. `Taken` and `Restored` say what that means
for one file, measured against the node before the request.
-/

namespace IpfsNode

section States

variable {Cid : Type} [DecidableEq Cid]

/-- The record apart from its revision. -/
def FileRecord.unstamped (record : FileRecord Cid) : FileRecord Cid :=
  { record with revision := none }

omit [DecidableEq Cid] in
@[simp] theorem FileRecord.unstamped_stamped (record : FileRecord Cid) (n : Nat) :
    (record.stamped n).unstamped = record.unstamped := rfl

/-- Record and pin of the file are the same. -/
def World.Agrees (w w' : World Cid) (cid : Cid) : Prop :=
  w'.files.get cid = w.files.get cid ∧ (cid ∈ w'.pins ↔ cid ∈ w.pins)

/-- The file is back where it was. A pin its record claimed may have been
repaired meanwhile. -/
structure Restored (w w' : World Cid) (cid : Cid) : Prop where
  record : (w'.files.get cid).map FileRecord.unstamped =
    (w.files.get cid).map FileRecord.unstamped
  kept : cid ∈ w.pins → cid ∈ w'.pins
  added : cid ∈ w'.pins → cid ∈ w.pins ∨
    ∃ record, w.files.get cid = some record ∧ record.pinned = true

variable {w w₁ w₂ : World Cid} {cid : Cid}

theorem World.Agrees.refl (w : World Cid) (cid : Cid) : w.Agrees w cid :=
  ⟨rfl, Iff.rfl⟩

theorem World.Agrees.trans (h : w.Agrees w₁ cid) (h' : w₁.Agrees w₂ cid) :
    w.Agrees w₂ cid :=
  ⟨h'.1.trans h.1, h'.2.trans h.2⟩

theorem World.Agrees.restored (h : w.Agrees w₁ cid) : Restored w w₁ cid :=
  ⟨by rw [h.1], h.2.mpr, fun hp => .inl (h.2.mp hp)⟩

/-- What a record says apart from its revision is still said. -/
theorem Restored.exists_record (h : Restored w w₁ cid) {record : FileRecord Cid}
    (hget : w₁.files.get cid = some record) :
    ∃ record', w.files.get cid = some record' ∧ record'.unstamped = record.unstamped := by
  have hrec := h.record
  rw [hget] at hrec
  exact Option.map_eq_some_iff.mp hrec.symm

theorem Restored.trans (h : Restored w w₁ cid) (h' : Restored w₁ w₂ cid) :
    Restored w w₂ cid := by
  refine ⟨h'.record.trans h.record, fun hp => h'.kept (h.kept hp), fun hp => ?_⟩
  rcases h'.added hp with hp | ⟨record, hget, hpinned⟩
  · exact h.added hp
  · obtain ⟨record', hget', hsame⟩ := h.exists_record hget
    exact .inr ⟨record', hget', (congrArg FileRecord.pinned hsame).trans hpinned⟩

/-- What a registration stores, whatever it replaces. -/
structure IsRegistration (admissionId : Option AdmissionId) (record : FileRecord Cid) : Prop where
  token : record.admissionId = admissionId
  unsettled : record.admissionSettledAt = none
  pinned : record.pinned = true
  held : record.heldLocally = true
  unstaged : record.replicaStage = none
  live : record.state ≠ .expired

omit [DecidableEq Cid] in
theorem IsRegistration.stamped {admissionId : Option AdmissionId} {record : FileRecord Cid}
    (h : IsRegistration admissionId record) (n : Nat) :
    IsRegistration admissionId (record.stamped n) :=
  ⟨h.token, h.unsettled, h.pinned, h.held, h.unstaged, h.live⟩

/-- The upload holds the file: registered under its token, and pinned. -/
structure Taken (admissionId : AdmissionId) (w : World Cid) (cid : Cid) : Prop where
  record : ∃ record, w.files.get cid = some record ∧ IsRegistration (some admissionId) record
  pin : cid ∈ w.pins

theorem Taken.of_agrees {admissionId : AdmissionId} (h : Taken admissionId w cid)
    (hsame : w.Agrees w₁ cid) : Taken admissionId w₁ cid :=
  ⟨by rw [hsame.1]; exact h.record, hsame.2.mpr h.pin⟩

end States

/-! ## Compensation -/

section Undo

variable {Cid : Type} [DecidableEq Cid] {content : Content Cid} {w w' : World Cid}
variable {baseline : UploadBaseline Cid}

/-- What the baseline remembers is a record of its CID. -/
def UploadBaseline.Valid (baseline : UploadBaseline Cid) : Prop :=
  ∀ record, baseline.previous = some record →
    record.cid = baseline.cid ∧ isFileRecord record = true

/-- The pin goes with the baseline: the request made it, and the record before
the request did not claim it. -/
def UploadBaseline.takesPin (baseline : UploadBaseline Cid) : Bool :=
  baseline.createdPin && (baseline.previous.map (·.pinned)).getD false = false

/-- The baseline was put back. -/
structure Undone (baseline : UploadBaseline Cid) (w w' : World Cid) : Prop where
  record : (w'.files.get baseline.cid).map FileRecord.unstamped =
    baseline.previous.map FileRecord.unstamped
  pin : baseline.cid ∈ w'.pins ↔ baseline.cid ∈ w.pins ∧ baseline.takesPin = false
  others : ∀ cid, cid ≠ baseline.cid → w.Agrees w' cid
  proc : w'.proc = w.proc

theorem run_restoreRecord (hvalid : baseline.Valid) (w : World Cid) :
    ∃ w', Prog.run (serve content) (restoreRecord baseline.cid baseline.previous) w
        = (.ok (), w') ∧
      (w'.files.get baseline.cid).map FileRecord.unstamped =
        baseline.previous.map FileRecord.unstamped ∧
      (∀ cid, cid ≠ baseline.cid → w'.files.get cid = w.files.get cid) ∧
      w'.pins = w.pins ∧ w'.proc = w.proc := by
  unfold restoreRecord
  cases hprevious : baseline.previous with
  | none =>
      refine ⟨_, run_remove, ?_, fun cid hne => ?_, rfl, rfl⟩
      · rw [World.get_remove, if_pos rfl]
      · rw [World.get_remove, if_neg hne]
  | some record =>
      obtain ⟨hcid, hrecord⟩ := hvalid record hprevious
      refine ⟨w.put record hrecord, ?_, ?_, fun cid hne => ?_, rfl, rfl⟩
      · rw [Prog.run_bind_ok (run_save hrecord)]
        rfl
      · rw [World.get_put, if_pos hcid.symm]
        rfl
      · exact World.get_put_of_ne hrecord (hcid ▸ hne)

theorem run_undoUpload (hvalid : baseline.Valid) (w : World Cid) :
    ∃ w', Prog.run (serve content) (undoUpload baseline) w = (.ok (), w') ∧
      Undone baseline w w' := by
  have hdef : undoUpload baseline = (if baseline.takesPin then do
      let _ ← unpinFile baseline.cid
      restoreRecord baseline.cid baseline.previous
    else restoreRecord baseline.cid baseline.previous) := rfl
  rw [hdef]
  cases htakes : baseline.takesPin with
  | true =>
      rw [if_pos rfl, Prog.run_bind_ok run_unpinFile]
      obtain ⟨w', hrun, hrecord, hothers, hpins, hproc⟩ :=
        run_restoreRecord hvalid (w.unpin baseline.cid)
      rw [World.pins_unpin] at hpins
      refine ⟨w', hrun, hrecord, ?_, fun cid hne => ⟨hothers cid hne, ?_⟩, hproc⟩
      · rw [hpins, htakes]
        simp
      · rw [hpins, Finset.mem_erase]
        exact and_iff_right hne
  | false =>
      rw [if_neg Bool.false_ne_true]
      obtain ⟨w', hrun, hrecord, hothers, hpins, hproc⟩ :=
        run_restoreRecord hvalid w
      refine ⟨w', hrun, hrecord, ?_, fun cid hne => ⟨hothers cid hne, by rw [hpins]⟩, hproc⟩
      rw [hpins, htakes]
      simp

/-- The rollback takes the baseline back: without a token always, with a token
while the record still carries it. -/
def UploadBaseline.Applies (baseline : UploadBaseline Cid) (admissionId : Option AdmissionId)
    (w : World Cid) : Prop :=
  match admissionId with
  | none => True
  | some id => (w.files.get baseline.cid).bind (·.admissionId) = some id

theorem run_rollbackUpload (hvalid : baseline.Valid) (admissionId : Option AdmissionId)
    (w : World Cid) :
    ∃ w', Prog.run (serve content) (rollbackUpload admissionId baseline) w = (.ok (), w') ∧
      (baseline.Applies admissionId w → Undone baseline w w') ∧
      (¬ baseline.Applies admissionId w → w' = w) := by
  cases admissionId with
  | none =>
      obtain ⟨w', hrun, hundone⟩ := run_undoUpload hvalid w
      exact ⟨w', hrun, fun _ => hundone, fun hnot => absurd trivial hnot⟩
  | some id =>
      unfold rollbackUpload UploadBaseline.Applies
      rw [Prog.run_bind_ok run_get]
      by_cases htoken : (w.files.get baseline.cid).bind (·.admissionId) = some id
      · rw [if_neg (not_not.mpr htoken)]
        obtain ⟨w', hrun, hundone⟩ := run_undoUpload hvalid w
        exact ⟨w', hrun, fun _ => hundone, fun hnot => absurd htoken hnot⟩
      · rw [if_pos htoken]
        exact ⟨w, rfl, fun h => absurd h htoken, fun _ => rfl⟩

/-- What rolling back a list of baselines comes to, one for each CID. -/
structure RolledBack (admissionId : Option AdmissionId) (baselines : List (UploadBaseline Cid))
    (w w' : World Cid) : Prop where
  record : ∀ baseline ∈ baselines, baseline.Applies admissionId w →
    (w'.files.get baseline.cid).map FileRecord.unstamped =
      baseline.previous.map FileRecord.unstamped
  pin : ∀ baseline ∈ baselines, baseline.Applies admissionId w →
    (baseline.cid ∈ w'.pins ↔ baseline.cid ∈ w.pins ∧ baseline.takesPin = false)
  skipped : ∀ baseline ∈ baselines, ¬ baseline.Applies admissionId w →
    w.Agrees w' baseline.cid
  others : ∀ cid, cid ∉ baselines.map (·.cid) → w.Agrees w' cid
  proc : w'.proc = w.proc

theorem run_rollbackEach (admissionId : Option AdmissionId)
    {baselines : List (UploadBaseline Cid)} (hvalid : ∀ baseline ∈ baselines, baseline.Valid)
    (hnodup : (baselines.map (·.cid)).Nodup) (w : World Cid) :
    ∃ w', Prog.run (serve content) (rollbackEach admissionId baselines) w = (.ok [], w') ∧
      RolledBack admissionId baselines w w' := by
  induction baselines generalizing w with
  | nil => exact ⟨w, rfl, by simp, by simp, by simp, fun cid _ => .refl w cid, rfl⟩
  | cons first rest ih =>
      rw [List.forall_mem_cons] at hvalid
      rw [List.map_cons, List.nodup_cons] at hnodup
      obtain ⟨w₁, hrun₁, hundone, hskipped⟩ :=
        run_rollbackUpload hvalid.1 admissionId w
      obtain ⟨w₂, hrun₂, hrest⟩ := ih hvalid.2 hnodup.2 w₁
      have hagrees : ∀ cid, cid ≠ first.cid → w.Agrees w₁ cid := by
        intro cid hne
        by_cases happlies : first.Applies admissionId w
        · exact (hundone happlies).others cid hne
        · rw [hskipped happlies]
          exact .refl w cid
      have hproc : w₁.proc = w.proc := by
        by_cases happlies : first.Applies admissionId w
        · exact (hundone happlies).proc
        · rw [hskipped happlies]
      have hfirst : w₁.Agrees w₂ first.cid := hrest.others first.cid hnodup.1
      -- the other baselines are about other CIDs, which the first leaves alone
      have hother : ∀ baseline ∈ rest, baseline.cid ≠ first.cid := fun baseline hmem heq =>
        hnodup.1 (heq ▸ List.mem_map_of_mem hmem)
      have happlies_iff : ∀ baseline ∈ rest,
          (baseline.Applies admissionId w₁ ↔ baseline.Applies admissionId w) := by
        intro baseline hmem
        unfold UploadBaseline.Applies
        rw [(hagrees _ (hother baseline hmem)).1]
      refine ⟨w₂, ?_, ?_⟩
      · unfold rollbackEach
        rw [Prog.run_bind_ok (Prog.run_attempt.trans (by rw [hrun₁])),
          Prog.run_bind_ok hrun₂]
        rfl
      · refine ⟨?_, ?_, ?_, fun cid hnot => ?_, hrest.proc.trans hproc⟩
        · rw [List.forall_mem_cons]
          refine ⟨fun happlies => ?_, fun baseline hmem happlies => ?_⟩
          · rw [hfirst.1]
            exact (hundone happlies).record
          · exact hrest.record baseline hmem ((happlies_iff baseline hmem).mpr happlies)
        · rw [List.forall_mem_cons]
          refine ⟨fun happlies => hfirst.2.trans (hundone happlies).pin,
            fun baseline hmem happlies => ?_⟩
          rw [hrest.pin baseline hmem ((happlies_iff baseline hmem).mpr happlies),
            (hagrees _ (hother baseline hmem)).2]
        · rw [List.forall_mem_cons]
          refine ⟨fun hnot => ?_, fun baseline hmem hnot => ?_⟩
          · rw [hskipped hnot] at hfirst
            exact hfirst
          · exact (hagrees _ (hother baseline hmem)).trans
              (hrest.skipped baseline hmem fun h => hnot ((happlies_iff baseline hmem).mp h))
        · rw [List.map_cons, List.mem_cons, not_or] at hnot
          exact (hagrees cid hnot.1).trans (hrest.others cid hnot.2)

/-- Baselines that remember the node `w`, one for each CID. -/
structure Remembers (baselines : List (UploadBaseline Cid)) (w : World Cid) : Prop where
  nodup : (baselines.map (·.cid)).Nodup
  previous : ∀ baseline ∈ baselines, baseline.previous = w.files.get baseline.cid
  createdPin : ∀ baseline ∈ baselines, baseline.createdPin = decide (baseline.cid ∉ w.pins)

namespace Remembers

variable {baselines : List (UploadBaseline Cid)}

theorem valid (h : Remembers baselines w) : ∀ baseline ∈ baselines, baseline.Valid := by
  intro baseline hmem record hprevious
  rw [h.previous baseline hmem] at hprevious
  exact ⟨Registry.cid_of_get hprevious, Registry.valid_of_get hprevious⟩

/-- Where a baseline takes the pin away there was none, and elsewhere there was
one or the record claimed it. -/
theorem takesPin_iff (h : Remembers baselines w) (hmem : baseline ∈ baselines) :
    baseline.takesPin = true ↔ baseline.cid ∉ w.pins ∧
      ∀ record, w.files.get baseline.cid = some record → record.pinned = false := by
  unfold UploadBaseline.takesPin
  rw [h.previous baseline hmem, h.createdPin baseline hmem]
  cases w.files.get baseline.cid <;> simp

/-- Putting all baselines back restores what they remember, for the files the
upload still holds and for those that are restored already. -/
theorem restored (h : Remembers baselines w) {w₁ w₂ : World Cid}
    {admissionId : Option AdmissionId} (hback : RolledBack admissionId baselines w₁ w₂)
    (hbefore : ∀ baseline ∈ baselines, Restored w w₁ baseline.cid ∨
      baseline.Applies admissionId w₁ ∧ baseline.cid ∈ w₁.pins) :
    ∀ baseline ∈ baselines, Restored w w₂ baseline.cid := by
  intro baseline hmem
  by_cases happlies : baseline.Applies admissionId w₁
  · have hkept : baseline.cid ∈ w.pins → baseline.cid ∈ w₁.pins := by
      rcases hbefore baseline hmem with hrestored | ⟨-, hpin⟩
      · exact hrestored.kept
      · exact fun _ => hpin
    refine ⟨?_, fun hp => ?_, fun hp => ?_⟩
    · rw [hback.record baseline hmem happlies, h.previous baseline hmem]
    · refine (hback.pin baseline hmem happlies).mpr ⟨hkept hp, ?_⟩
      rw [Bool.eq_false_iff, ne_eq, h.takesPin_iff hmem]
      exact fun hnot => hnot.1 hp
    · have htakes := ((hback.pin baseline hmem happlies).mp hp).2
      rw [Bool.eq_false_iff, ne_eq, h.takesPin_iff hmem] at htakes
      by_cases hold : baseline.cid ∈ w.pins
      · exact .inl hold
      · right
        by_contra hnone
        refine htakes ⟨hold, fun record hget => ?_⟩
        rw [Bool.eq_false_iff]
        exact fun hpinned => hnone ⟨record, hget, hpinned⟩
  · rcases hbefore baseline hmem with hrestored | ⟨hyes, -⟩
    · exact hrestored.trans (hback.skipped baseline hmem happlies).restored
    · exact absurd hyes happlies

/-- ... and with them every file of the node. -/
theorem all_restored (h : Remembers baselines w) {w₁ w₂ : World Cid}
    {admissionId : Option AdmissionId} (hback : RolledBack admissionId baselines w₁ w₂)
    (hbefore : ∀ baseline ∈ baselines, Restored w w₁ baseline.cid ∨
      baseline.Applies admissionId w₁ ∧ baseline.cid ∈ w₁.pins)
    (hothers : ∀ cid, cid ∉ baselines.map (·.cid) → Restored w w₁ cid) (cid : Cid) :
    Restored w w₂ cid := by
  by_cases hmem : cid ∈ baselines.map (·.cid)
  · obtain ⟨baseline, hbaseline, rfl⟩ := List.mem_map.mp hmem
    exact h.restored hback hbefore baseline hbaseline
  · exact (hothers cid hmem).trans (hback.others cid hmem).restored

theorem reverse (h : Remembers baselines w) : Remembers baselines.reverse w where
  nodup := by
    rw [List.map_reverse]
    exact List.nodup_reverse.mpr h.nodup
  previous := fun baseline hmem => h.previous baseline (List.mem_reverse.mp hmem)
  createdPin := fun baseline hmem => h.createdPin baseline (List.mem_reverse.mp hmem)

end Remembers

end Undo

/-! ## Registration -/

section Registration

variable {Cid α : Type} [DecidableEq Cid] {content : Content Cid} {faults : Faults Cid}
variable {w : World Cid}

theorem wp_registerExclusively {file : NewFileRecord Cid} {options : RegisterFileOptions}
    {Q : Except (LifecycleError Cid) (FileRecord Cid × Option (FileRecord Cid)) →
      World Cid → Prop}
    (hok : mayRegister w.proc file.cid (w.files.get file.cid) options.admissionId = true →
      ∀ h, Q (.ok ((registrationOf (w.files.get file.cid) file options).stamped w.nextRevision,
          w.files.get file.cid))
        (w.put (registrationOf (w.files.get file.cid) file options) h))
    (hstaged : ∀ existing, w.files.get file.cid = some existing →
      existing.replicaStage.isSome = true → options.admissionId = none →
      Q (.ok (existing, some existing)) w)
    (hlanded : ∀ h, Q (.error .io) (w.put (registrationOf (w.files.get file.cid) file options) h))
    (herr : ∀ err, Q (.error err) w) :
    Prog.wp (storeSem content faults) (registerExclusively file options) Q w := by
  refine Prog.wp_bind.mpr (wp_get ?_ (herr _))
  refine Prog.wp_bind.mpr (wp_process ?_)
  show Prog.wp _ (if _ then _ else _) _ w
  split
  · exact herr _
  · rename_i hrepair
    cases hget : w.files.get file.cid with
    | none =>
        rw [hget] at hok hlanded
        refine Prog.wp_bind.mpr (wp_save (fun h => hok ?_ h) hlanded fun err => herr err)
        simp [mayRegister, hrepair]
    | some existing =>
        rw [hget] at hok hlanded
        dsimp only
        split
        · rename_i hstage
          simp only [Bool.and_eq_true, Option.isNone_iff_eq_none] at hstage
          exact hstaged existing hget hstage.1 hstage.2
        · rename_i hstage
          split
          · exact herr _
          · rename_i howned
            have hallowed : mayRegister w.proc file.cid (some existing)
                options.admissionId = true := by
              simp only [mayRegister, hrepair, hstage, howned, Option.all_some]
              rfl
            have hok := hok hallowed
            simp only [registrationOf] at hok hlanded
            split at hok <;> rename_i hstate
            · rw [if_pos hstate]
              simp only [if_pos hstate] at hlanded
              exact Prog.wp_bind.mpr (wp_save hok hlanded fun err => herr err)
            · rw [if_neg hstate]
              simp only [if_neg hstate] at hlanded
              exact Prog.wp_bind.mpr (wp_save hok hlanded fun err => herr err)

omit [DecidableEq Cid] in
theorem cid_registrationOf {existing : Option (FileRecord Cid)} {file : NewFileRecord Cid}
    {options : RegisterFileOptions}
    (h : ∀ record, existing = some record → record.cid = file.cid) :
    (registrationOf existing file options).cid = file.cid := by
  cases existing with
  | none => rfl
  | some existing =>
      unfold registrationOf
      dsimp only
      split
      · exact h existing rfl
      · rfl

omit [DecidableEq Cid] in
theorem isRegistration_registrationOf (existing : Option (FileRecord Cid))
    (file : NewFileRecord Cid) (options : RegisterFileOptions) :
    IsRegistration options.admissionId (registrationOf existing file options) := by
  have hnew : ∀ existing, IsRegistration options.admissionId
      (registeredRecord existing file options) := by
    intro existing
    refine ⟨rfl, rfl, rfl, rfl, rfl, ?_⟩
    unfold registeredRecord
    cases options.confirmationRequired <;> simp
  cases existing with
  | none => exact hnew none
  | some existing =>
      unfold registrationOf
      dsimp only
      split
      · rename_i hstate
        exact ⟨rfl, rfl, rfl, rfl, rfl, by rw [reuploadedRecord, hstate]; simp⟩
      · exact hnew (some existing)

end Registration

/-! ## One part -/

section Part

variable {Cid α : Type} [DecidableEq Cid] {content : Content Cid} {faults : Faults Cid}
variable {w : World Cid} {options : AdmitOptions} {file : UploadFile Cid}

/-- The baseline of a file as the node is. -/
def World.baseline (w : World Cid) (cid : Cid) : UploadBaseline Cid :=
  { cid, previous := w.files.get cid, createdPin := decide (cid ∉ w.pins) }

/-- A part that was admitted. -/
structure PartAdmitted (options : AdmitOptions) (file : UploadFile Cid) (w : World Cid)
    (part : FileRecord Cid × UploadBaseline Cid) (w' : World Cid) : Prop where
  baseline : part.2 = w.baseline file.cid
  cid : part.1.cid = file.cid
  taken : Taken options.admissionId w' file.cid
  allowed : mayRegister w.proc file.cid (w.files.get file.cid) (some options.admissionId) = true
  others : ∀ cid, cid ≠ file.cid → w.Agrees w' cid
  proc : w'.proc = w.proc

/-- A part that was given back. -/
structure PartRestored (cid : Cid) (w w' : World Cid) : Prop where
  restored : Restored w w' cid
  others : ∀ other, other ≠ cid → w.Agrees w' other
  proc : w'.proc = w.proc

/-- A part that fails is given back when compensation succeeds. -/
theorem wp_failPart {baseline : UploadBaseline Cid} {err : LifecycleError Cid}
    {Q : Except (LifecycleError Cid) α → World Cid → Prop} (hvalid : baseline.Valid)
    (hundone : faults.Ordinary → ∀ w', Undone baseline w w' → Q (.error err) w')
    (hany : ¬ faults.Ordinary → ∀ err w', Q (.error err) w') :
    Prog.wp (storeSem content faults) (failPart baseline err) Q w := by
  by_cases hfaults : faults.Ordinary
  · refine Prog.wp_bind.mpr ((wp_compensating hfaults).mpr ?_)
    obtain ⟨w₁, hrun, hback, -⟩ := run_rollbackUpload hvalid none w
    rw [hrun]
    refine Prog.wp_bind.mpr ((wp_compensating hfaults).mpr ?_)
    rw [run_clearPinIntent]
    have hback := hback trivial
    exact hundone hfaults _ ⟨hback.record, hback.pin, hback.others, hback.proc⟩
  · have hany := hany hfaults
    refine Prog.wp_bind.mpr (Prog.wp_iff_runs.mpr fun r w₁ _ => ?_)
    cases r with
    | error err => exact hany err w₁
    | ok _ =>
        refine Prog.wp_bind.mpr (Prog.wp_iff_runs.mpr fun r w₂ _ => ?_)
        cases r <;> exact hany _ w₂

/-- Undoing a baseline of the node as it was restores the file, where only its
record and its pin were touched since. -/
theorem PartRestored.of_undone {cid : Cid} {createdPin : Bool} {w₁ w₂ : World Cid}
    (hundone : Undone { cid, previous := w.files.get cid, createdPin } w₁ w₂)
    (hothers : ∀ other, other ≠ cid → w.Agrees w₁ other) (hproc : w₁.proc = w.proc)
    (hpins : (createdPin = decide (cid ∉ w.pins) ∧ cid ∈ w₁.pins) ∨
      createdPin = false ∧ (cid ∈ w₁.pins ↔ cid ∈ w.pins)) :
    PartRestored cid w w₂ := by
  refine ⟨⟨hundone.record, fun hp => hundone.pin.mpr ?_, fun hp => ?_⟩,
    fun other hne => (hothers other hne).trans (hundone.others other hne),
    hundone.proc.trans hproc⟩
  · rcases hpins with ⟨rfl, hpin⟩ | ⟨rfl, hiff⟩
    · exact ⟨hpin, by simp [UploadBaseline.takesPin, hp]⟩
    · exact ⟨hiff.mpr hp, rfl⟩
  · obtain ⟨hpin, htakes⟩ := hundone.pin.mp hp
    rcases hpins with ⟨rfl, -⟩ | ⟨rfl, hiff⟩
    · by_cases hold : cid ∈ w.pins
      · exact .inl hold
      · right
        simp only [UploadBaseline.takesPin, hold, not_false_eq_true, decide_true,
          Bool.true_and, decide_eq_false_iff_not, Bool.not_eq_false] at htakes
        cases hget : w.files.get cid with
        | none => simp [hget] at htakes
        | some record => exact ⟨record, rfl, by simpa [hget] using htakes⟩
    · exact .inl (hiff.mp hpin)

theorem wp_admitPart :
    Prog.wp (storeSem content faults) (admitPart options file) (fun r w' =>
      match r with
      | .ok part => PartAdmitted options file w part w'
      | .error _ => faults.Ordinary → PartRestored file.cid w w') w := by
  have hvalid : ∀ createdPin, UploadBaseline.Valid
      ⟨file.cid, w.files.get file.cid, createdPin⟩ := fun _ record hget =>
    ⟨Registry.cid_of_get hget, Registry.valid_of_get hget⟩
  have hsame : PartRestored file.cid w w := ⟨(World.Agrees.refl w _).restored,
    fun _ _ => .refl w _, rfl⟩
  refine Prog.wp_bind.mpr (wp_get ?_ fun _ => hsame)
  refine Prog.wp_bind.mpr (wp_markPinIntent (fun intents => ?_) fun intents _ => ?_)
  swap
  · exact ⟨⟨hsame.restored.record, hsame.restored.kept, hsame.restored.added⟩,
      hsame.others, rfl⟩
  refine Prog.wp_bind.mpr (Prog.wp_attempt.mpr (wp_pinFile ?_ ?_))
  swap
  · refine wp_failPart (hvalid false) (fun _ w' hundone _ => ?_) fun hnot _ _ hord =>
      absurd hord hnot
    exact .of_undone hundone (fun _ _ => ⟨rfl, Iff.rfl⟩) rfl (.inr ⟨rfl, Iff.rfl⟩)
  -- the pin is there, and only the record of the file can move from here
  have hfiles : ∀ c, ((w.withIntents intents).pin content file.cid).files.get c
      = w.files.get c := fun c => by rw [World.files_pin, World.files_withIntents]
  have hpinned : ((w.withIntents intents).pin content file.cid).pins =
      insert file.cid w.pins := by rw [World.pins_pin, World.pins_withIntents]
  have hproc : ((w.withIntents intents).pin content file.cid).proc = w.proc := by
    rw [World.proc_pin, World.proc_withIntents]
  generalize (w.withIntents intents).pin content file.cid = w₁ at hfiles hpinned hproc
  have hothers : ∀ cid, cid ≠ file.cid → w.Agrees w₁ cid := fun cid hne =>
    ⟨hfiles cid, by rw [hpinned, Finset.mem_insert]; exact or_iff_right hne⟩
  have hmem : file.cid ∈ w₁.pins := by rw [hpinned]; exact Finset.mem_insert_self _ _
  have hcid : (registrationOf (w₁.files.get file.cid) file.registration
      options.registration).cid = file.cid :=
    cid_registrationOf fun record hget => Registry.cid_of_get hget
  have hput : ∀ h cid, cid ≠ file.cid → w.Agrees (w₁.put (registrationOf
      (w₁.files.get file.cid) file.registration options.registration) h) cid := fun h cid hne =>
    (hothers cid hne).trans ⟨World.get_put_of_ne h (hcid.symm ▸ hne), Iff.rfl⟩
  have hfail : ∀ w₂ : World Cid, (∀ cid, cid ≠ file.cid → w.Agrees w₂ cid) →
      w₂.proc = w.proc → file.cid ∈ w₂.pins → ∀ err,
      Prog.wp (storeSem content faults) (failPart ⟨file.cid, w.files.get file.cid,
        decide (file.cid ∉ w.pins)⟩ err) (fun r w' =>
        match r with
        | .ok part => PartAdmitted options file w part w'
        | .error _ => faults.Ordinary → PartRestored file.cid w w') w₂ := by
    intro w₂ hothers₂ hproc₂ hmem₂ err
    refine wp_failPart (hvalid _) (fun _ w' hundone _ => ?_) fun hnot _ _ hord =>
      absurd hord hnot
    exact .of_undone hundone hothers₂ hproc₂ (.inl ⟨rfl, hmem₂⟩)
  refine Prog.wp_bind.mpr (Prog.wp_attempt.mpr (wp_registerExclusively ?_ ?_ ?_ ?_))
  · intro hallowed h
    have hreg := (isRegistration_registrationOf (w₁.files.get file.cid) file.registration
      options.registration).stamped w₁.nextRevision
    have hget : (w₁.put (registrationOf (w₁.files.get file.cid) file.registration
        options.registration) h).files.get file.cid = some ((registrationOf
          (w₁.files.get file.cid) file.registration options.registration).stamped
          w₁.nextRevision) :=
      World.get_put.trans (if_pos hcid.symm)
    refine ⟨rfl, hcid, ⟨⟨_, hget, hreg⟩, hmem⟩, ?_, hput h, hproc⟩
    have hallowed : mayRegister w₁.proc file.cid (w₁.files.get file.cid)
        (some options.admissionId) = true := hallowed
    rwa [hproc, hfiles] at hallowed
  · exact fun _ _ _ => nofun
  · exact fun h => hfail _ (hput h) hproc hmem _
  · exact fun err => hfail _ hothers hproc hmem err

end Part

/-! ## All parts -/

section Parts

variable {Cid α : Type} [DecidableEq Cid] {content : Content Cid} {faults : Faults Cid}
variable {w w' : World Cid} {options : AdmitOptions} {files rest : List (UploadFile Cid)}
variable {admitted : Admitted Cid}

/-- An upload that took the files, seen from the node `w` before it. -/
structure AdmittedIn (options : AdmitOptions) (w : World Cid) (files : List (UploadFile Cid))
    (admitted : Admitted Cid) (w' : World Cid) : Prop where
  remembers : Remembers admitted.baselines w
  baselines : ∀ cid, cid ∈ admitted.baselines.map (·.cid) ↔ cid ∈ files.map (·.cid)
  records : ∀ cid, cid ∈ admitted.records.map (·.cid) ↔ cid ∈ files.map (·.cid)
  taken : ∀ cid ∈ files.map (·.cid), Taken options.admissionId w' cid
  allowed : ∀ cid ∈ files.map (·.cid),
    mayRegister w.proc cid (w.files.get cid) (some options.admissionId) = true
  others : ∀ cid, cid ∉ files.map (·.cid) → w.Agrees w' cid
  proc : w'.proc = w.proc

/-- An upload that left the node as it was. -/
structure GivenBack (w w' : World Cid) : Prop where
  restored : ∀ cid, Restored w w' cid
  proc : w'.proc = w.proc

/-- What was admitted so far is given back when compensation succeeds. -/
theorem wp_failAdmission {baselines : List (UploadBaseline Cid)} {err : LifecycleError Cid}
    {Q : Except (LifecycleError Cid) α → World Cid → Prop} (hremembers : Remembers baselines w)
    (hback : faults.Ordinary → ∀ w'', RolledBack none baselines.reverse w' w'' →
      Q (.error err) w'')
    (hany : ¬ faults.Ordinary → ∀ err w'', Q (.error err) w'') :
    Prog.wp (storeSem content faults) (failAdmission baselines err) Q w' := by
  by_cases hfaults : faults.Ordinary
  · refine Prog.wp_bind.mpr ((wp_compensating hfaults).mpr ?_)
    obtain ⟨w'', hrun, hrolled⟩ := run_rollbackEach none hremembers.reverse.valid
      hremembers.reverse.nodup w'
    rw [hrun]
    exact hback hfaults w'' hrolled
  · have hany := hany hfaults
    refine Prog.wp_bind.mpr (Prog.wp_iff_runs.mpr fun r w'' _ => ?_)
    cases r with
    | error err => exact hany err w''
    | ok failures =>
        show Prog.wp _ (if _ then _ else _) _ _
        split <;> exact hany _ w''

/-- After a rollback of everything that was taken, the node is as it was. -/
theorem GivenBack.of_rolledBack {baselines : List (UploadBaseline Cid)} {w₁ w₂ : World Cid}
    (hremembers : Remembers baselines w) (hback : RolledBack none baselines.reverse w₁ w₂)
    (hpins : ∀ baseline ∈ baselines, baseline.cid ∈ w₁.pins)
    (hothers : ∀ cid, cid ∉ baselines.map (·.cid) → Restored w w₁ cid)
    (hproc : w₁.proc = w.proc) : GivenBack w w₂ := by
  refine ⟨hremembers.reverse.all_restored hback (fun baseline hmem => ?_) fun cid hnot => ?_,
    hback.proc.trans hproc⟩
  · exact .inr ⟨trivial, hpins baseline (List.mem_reverse.mp hmem)⟩
  · rw [List.map_reverse, List.mem_reverse] at hnot
    exact hothers cid hnot

/-- The first baseline of a CID stays the one of the request. -/
theorem Remembers.addBaseline {baselines : List (UploadBaseline Cid)} {cid : Cid}
    (h : Remembers baselines w) (hagrees : cid ∉ baselines.map (·.cid) → w.Agrees w' cid) :
    Remembers (addBaseline baselines (w'.baseline cid)) w := by
  unfold IpfsNode.addBaseline
  split
  · exact h
  · rename_i hnew
    have hnew : cid ∉ baselines.map (·.cid) := hnew
    obtain ⟨hget, hpin⟩ := hagrees hnew
    have hall : ∀ {φ : UploadBaseline Cid → Prop}, (∀ baseline ∈ baselines, φ baseline) →
        φ (w'.baseline cid) → ∀ baseline ∈ baselines ++ [w'.baseline cid], φ baseline := by
      intro φ hold hcid baseline hmem
      rcases List.mem_append.mp hmem with hmem | hmem
      · exact hold baseline hmem
      · rw [List.mem_singleton.mp hmem]
        exact hcid
    refine ⟨?_, hall h.previous hget, hall h.createdPin ?_⟩
    · rw [List.map_append, List.nodup_append]
      refine ⟨h.nodup, by simp, ?_⟩
      rintro a ha b hb rfl
      obtain rfl := List.mem_singleton.mp hb
      exact hnew ha
    · simp [World.baseline, hpin]

theorem mem_map_addBaseline {baselines : List (UploadBaseline Cid)}
    {baseline : UploadBaseline Cid} {cid : Cid} :
    cid ∈ (addBaseline baselines baseline).map (·.cid) ↔
      cid ∈ baselines.map (·.cid) ∨ cid = baseline.cid := by
  unfold addBaseline
  split
  · rename_i hmem
    refine ⟨Or.inl, fun h => h.elim id ?_⟩
    rintro rfl
    exact hmem
  · simp

theorem AdmittedIn.withIntents (h : AdmittedIn options w files admitted w')
    (intents : Finset Cid) : AdmittedIn options w files admitted (w'.withIntents intents) :=
  ⟨h.remembers, h.baselines, h.records, fun cid hmem => ⟨(h.taken cid hmem).record,
    (h.taken cid hmem).pin⟩, h.allowed, h.others, h.proc⟩

theorem AdmittedIn.snoc {file : UploadFile Cid} {part : FileRecord Cid × UploadBaseline Cid}
    {w'' : World Cid} (h : AdmittedIn options w files admitted w')
    (hpart : PartAdmitted options file w' part w'') :
    AdmittedIn options w (files ++ [file])
      ⟨admitted.records ++ [part.1], addBaseline admitted.baselines part.2⟩ w'' := by
  have hsnoc : ∀ cid, cid ∈ (files ++ [file]).map (·.cid) ↔
      cid ∈ files.map (·.cid) ∨ cid = file.cid := fun cid => by simp
  have hagrees : file.cid ∉ files.map (·.cid) → w.Agrees w' file.cid := h.others file.cid
  refine ⟨?_, fun cid => ?_, fun cid => ?_, fun cid hmem => ?_, fun cid hmem => ?_,
    fun cid hnot => ?_, hpart.proc.trans h.proc⟩
  · rw [hpart.baseline]
    exact h.remembers.addBaseline fun hnot => hagrees fun hmem =>
      hnot ((h.baselines _).mpr hmem)
  · rw [mem_map_addBaseline, h.baselines, hsnoc, hpart.baseline]
    rfl
  · rw [List.map_append, List.mem_append, h.records, hsnoc, List.map_singleton,
      List.mem_singleton, hpart.cid]
  · rw [hsnoc] at hmem
    by_cases hcid : cid = file.cid
    · exact hcid ▸ hpart.taken
    · exact (h.taken cid (hmem.resolve_right hcid)).of_agrees (hpart.others cid hcid)
  · rw [hsnoc] at hmem
    by_cases hold : cid ∈ files.map (·.cid)
    · exact h.allowed cid hold
    · obtain rfl := hmem.resolve_left hold
      have hallowed := hpart.allowed
      rwa [h.proc, (hagrees hold).1] at hallowed
  · rw [hsnoc, not_or] at hnot
    exact (h.others cid hnot.1).trans (hpart.others cid hnot.2)

/-- Every part is admitted, or the node is left as it was when compensation
succeeds. -/
theorem wp_admitParts (h : AdmittedIn options w files admitted w') :
    Prog.wp (storeSem content faults) (admitParts options rest admitted) (fun r w'' =>
      match r with
      | .ok admitted' => AdmittedIn options w (files ++ rest) admitted' w''
      | .error _ => faults.Ordinary → GivenBack w w'') w' := by
  induction rest generalizing files admitted w' with
  | nil =>
      rw [List.append_nil]
      exact h
  | cons file rest ih =>
      have hpins : ∀ baseline ∈ admitted.baselines, baseline.cid ∈ w'.pins := by
        intro baseline hmem
        exact (h.taken _ ((h.baselines _).mp (List.mem_map_of_mem hmem))).pin
      refine Prog.wp_bind.mpr (Prog.wp_attempt.mpr (Prog.wp_mono ?_ wp_admitPart))
      intro r w₁ hpart
      cases r with
      | error err =>
          refine wp_failAdmission h.remembers (fun hord w'' hback _ => ?_)
            fun hnot _ _ hord => absurd hord hnot
          have hpart : PartRestored file.cid w' w₁ := hpart hord
          have hmoved : ∀ cid, Restored w' w₁ cid := by
            intro cid
            by_cases hcid : cid = file.cid
            · exact hcid ▸ hpart.restored
            · exact (hpart.others cid hcid).restored
          refine .of_rolledBack h.remembers hback
            (fun baseline hmem => (hmoved _).kept (hpins baseline hmem)) (fun cid hnot => ?_)
            (hpart.proc.trans h.proc)
          rw [h.baselines] at hnot
          exact (h.others cid hnot).restored.trans (hmoved cid)
      | ok part =>
          have hall := h.snoc hpart
          refine Prog.wp_bind.mpr (Prog.wp_attempt.mpr (wp_clearPinIntent (fun intents => ?_)
            fun intents => ?_))
          · have := ih (hall.withIntents intents)
            rwa [List.append_assoc] at this
          · have hall := hall.withIntents intents
            refine wp_failAdmission hall.remembers (fun hord w'' hback _ => ?_)
              fun hnot _ _ hord => absurd hord hnot
            refine .of_rolledBack hall.remembers hback (fun baseline hmem => ?_)
              (fun cid hnot => ?_) hall.proc
            · exact (hall.taken _ ((hall.baselines _).mp (List.mem_map_of_mem hmem))).pin
            · rw [hall.baselines] at hnot
              exact (hall.others cid hnot).restored

theorem wp_admitUpload :
    Prog.wp (storeSem content faults) (admitUpload options files) (fun r w' =>
      match r with
      | .ok admitted => AdmittedIn options w files admitted w'
      | .error _ => faults.Ordinary → GivenBack w w') w := by
  have hstart : AdmittedIn options w [] { records := [], baselines := [] } w :=
    ⟨⟨by simp, by simp, by simp⟩, by simp, by simp, by simp, by simp,
      fun cid _ => .refl w cid, rfl⟩
  exact wp_admitParts hstart

end Parts

/-! ## The decision -/

section Decision

variable {Cid : Type} [DecidableEq Cid] {content : Content Cid} {faults : Faults Cid}
variable {w : World Cid} {admissionId : AdmissionId} {reports : Reports Cid}

/-- An admission that is undone succeeds when compensation does. -/
theorem wp_rollbackAdmitted {baselines : List (UploadBaseline Cid)} {w₀ : World Cid}
    (hfaults : faults.Ordinary) (hremembers : Remembers baselines w₀) :
    Prog.wp (storeSem content faults) (rollbackAdmitted baselines admissionId)
      (fun r w' => r = .ok () ∧ RolledBack (some admissionId) baselines.reverse w w') w := by
  refine Prog.wp_bind.mpr ((wp_compensating hfaults).mpr ?_)
  obtain ⟨w', hrun, hback⟩ := run_rollbackEach (some admissionId) hremembers.reverse.valid
    hremembers.reverse.nodup w
  rw [hrun]
  exact ⟨rfl, hback⟩

/-- Records are read as they are. -/
theorem wp_readAdmitted (cids : List Cid) :
    Prog.wp (storeSem content faults) (readAdmitted admissionId cids) (fun r w' =>
      w' = w ∧ ∀ records, r = .ok records → records.map (·.cid) = cids ∧
        ∀ record ∈ records, w.files.get record.cid = some record) w := by
  induction cids with
  | nil =>
      refine ⟨rfl, fun records h => ?_⟩
      cases h
      exact ⟨rfl, by simp⟩
  | cons cid rest ih =>
      refine Prog.wp_bind.mpr (wp_get ?_ ⟨rfl, fun _ h => by cases h⟩)
      show Prog.wp _ _ _ w
      cases hget : w.files.get cid with
      | none => exact ⟨rfl, fun _ h => by cases h⟩
      | some current =>
          dsimp only
          split
          · exact ⟨rfl, fun _ h => by cases h⟩
          · refine Prog.wp_bind.mpr (Prog.wp_mono ?_ ih)
            rintro r _ ⟨rfl, hothers⟩
            cases r with
            | error err => exact ⟨rfl, fun _ h => by cases h⟩
            | ok others =>
                obtain ⟨hcids, hrecords⟩ := hothers others rfl
                have hcid : current.cid = cid := Registry.cid_of_get hget
                refine ⟨rfl, fun records h => ?_⟩
                cases h
                rw [List.map_cons, List.forall_mem_cons, hcid]
                exact ⟨congrArg _ hcids, hget, hrecords⟩

omit [DecidableEq Cid] in
theorem IsRegistration.reported {record : FileRecord Cid}
    (h : IsRegistration (some admissionId) record) :
    IsRegistration (some admissionId) (reportedRecord reports record) :=
  ⟨h.token, h.unsettled, h.pinned, h.held, h.unstaged, h.live⟩

theorem Taken.put {cid : Cid} (h : Taken admissionId w cid) {record : FileRecord Cid}
    (hrecord : IsRegistration (some admissionId) record) (hvalid : isFileRecord record = true) :
    Taken admissionId (w.put record hvalid) cid := by
  refine ⟨?_, h.pin⟩
  rw [World.get_put]
  split
  · exact ⟨_, rfl, hrecord.stamped _⟩
  · exact h.record

/-- Writing the replica lists of the records of an upload leaves it what it
took, and leaves everything else alone. -/
structure ReportsSaved (admissionId : AdmissionId) (cids : List Cid) (w w' : World Cid) :
    Prop where
  taken : ∀ cid, Taken admissionId w cid → Taken admissionId w' cid
  others : ∀ cid, cid ∉ cids → w.Agrees w' cid
  proc : w'.proc = w.proc

theorem wp_saveReports {records : List (FileRecord Cid)}
    (hrecords : ∀ record ∈ records, IsRegistration (some admissionId) record) :
    Prog.wp (storeSem content faults) (saveReports reports records) (fun r w' =>
      ReportsSaved admissionId (records.map (·.cid)) w w' ∧ ∀ stored, r = .ok stored →
        stored.map (·.cid) = records.map (·.cid) ∧
          ∀ record ∈ stored, IsRegistration (some admissionId) record) w := by
  induction records generalizing w with
  | nil =>
      refine ⟨⟨fun _ h => h, fun cid _ => .refl w cid, rfl⟩, fun stored h => ?_⟩
      cases h
      exact ⟨rfl, by simp⟩
  | cons current rest ih =>
      rw [List.forall_mem_cons] at hrecords
      have hreported : IsRegistration (some admissionId) (reportedRecord reports current) :=
        hrecords.1.reported
      have hput : ∀ h, ReportsSaved admissionId [current.cid] w
          (w.put (reportedRecord reports current) h) := fun h =>
        ⟨fun cid htaken => htaken.put hreported h, fun cid hnot =>
          ⟨World.get_put_of_ne h fun heq => hnot (List.mem_singleton.mpr heq), Iff.rfl⟩, rfl⟩
      have hfirst : ∀ {w₁ w₂ : World Cid}, ReportsSaved admissionId [current.cid] w w₁ →
          ReportsSaved admissionId (rest.map (·.cid)) w₁ w₂ →
          ReportsSaved admissionId ((current :: rest).map (·.cid)) w w₂ := by
        intro w₁ w₂ h₁ h₂
        refine ⟨fun cid htaken => h₂.taken cid (h₁.taken cid htaken), fun cid hnot => ?_,
          h₂.proc.trans h₁.proc⟩
        rw [List.map_cons, List.mem_cons, not_or] at hnot
        exact (h₁.others cid (by simpa using hnot.1)).trans (h₂.others cid hnot.2)
      have hnone : ∀ w₁ : World Cid, ReportsSaved admissionId (rest.map (·.cid)) w₁ w₁ :=
        fun w₁ => ⟨fun _ h => h, fun cid _ => .refl w₁ cid, rfl⟩
      refine Prog.wp_bind.mpr (wp_save (fun h => ?_) (fun h => ?_) fun err => ?_)
      · refine Prog.wp_bind.mpr (Prog.wp_mono ?_ (ih hrecords.2))
        rintro r w₂ ⟨hrest, hstored⟩
        have hsaved := hfirst (hput h) hrest
        cases r with
        | error err => exact ⟨hsaved, fun _ => nofun⟩
        | ok others =>
            obtain ⟨hcids, hothers⟩ := hstored others rfl
            refine ⟨hsaved, fun stored h => ?_⟩
            cases h
            rw [List.map_cons, List.map_cons, List.forall_mem_cons, hcids]
            exact ⟨rfl, hreported.stamped _, hothers⟩
      · exact ⟨hfirst (hput h) (hnone _), fun _ => nofun⟩
      · refine ⟨⟨fun _ h => h, fun cid _ => .refl w cid, rfl⟩, fun _ => nofun⟩

end Decision

end IpfsNode
