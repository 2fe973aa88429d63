import IpfsNode.Atomicity
import IpfsNode.Integrity
import IpfsNode.StageRollback

/-!
# Record and pin agree

A record says whether its file is pinned, and the blockstore knows whether it is.
Pin and record are changed one after the other, under the lock of the CID; when
the lock is released both say the same again. Several operations write the flag
without touching the pin, so each of them is looked at on its own: what it knows
of the pin comes from the record it read, from a stage, which is always pinned,
or from the upload whose token the record carries.

A pin without a record is one that was there before the registry.
-/

namespace IpfsNode

section Agreement

variable {Cid : Type}

/-- The record says what the pinset says, and a permanent local copy is pinned. -/
structure FileRecord.AgreesWith (record : FileRecord Cid) (pins : Finset Cid) : Prop where
  pin : record.pinned = true ↔ record.cid ∈ pins
  held : record.state = .confirmed → record.heldLocally = true → record.pinned = true

theorem FileRecord.agreesWith_pinned {record : FileRecord Cid} {pins : Finset Cid}
    (hpinned : record.pinned = true) (hpin : record.cid ∈ pins) : record.AgreesWith pins :=
  ⟨iff_of_true hpinned hpin, fun _ _ => hpinned⟩

theorem FileRecord.agreesWith_unpinned {record : FileRecord Cid} {pins : Finset Cid}
    (hpinned : record.pinned = false) (hheld : record.heldLocally = false)
    (hpin : record.cid ∉ pins) : record.AgreesWith pins := by
  refine ⟨iff_of_false ?_ hpin, fun _ hlocal => ?_⟩
  · rw [hpinned]
    exact Bool.false_ne_true
  · rw [hheld] at hlocal
    cases hlocal

/-- Agreement is about these fields. -/
theorem FileRecord.AgreesWith.congr {record current : FileRecord Cid} {pins : Finset Cid}
    (h : current.AgreesWith pins) (hcid : record.cid = current.cid)
    (hpinned : record.pinned = current.pinned)
    (hstate : record.state = .confirmed → current.state = .confirmed)
    (hheld : record.heldLocally = current.heldLocally) : record.AgreesWith pins :=
  ⟨by rw [hpinned, hcid]; exact h.pin, fun hconfirmed hlocal => by
    rw [hpinned]
    exact h.held (hstate hconfirmed) (hheld ▸ hlocal)⟩

variable [DecidableEq Cid]

def World.PinAgrees (w : World Cid) (cid : Cid) : Prop :=
  ∀ record, w.files.get cid = some record → record.AgreesWith w.pins

/-- Every record agrees with the pin of its file. -/
def World.Coherent (w : World Cid) : Prop :=
  ∀ cid, w.PinAgrees cid

/-- The file is pinned and the registry does not know it. -/
def World.Unrecorded (w : World Cid) (cid : Cid) : Prop :=
  w.files.get cid = none ∧ cid ∈ w.pins

/-- Records and pins agree again, and no pin lost its record. -/
structure StaysCoherent (w w' : World Cid) : Prop where
  coherent : w'.Coherent
  unrecorded : ∀ cid, w'.Unrecorded cid → w.Unrecorded cid

variable {w w₁ w' : World Cid} {cid : Cid}

theorem World.Coherent.claimsPin (h : w.Coherent) (cid : Cid) : w.ClaimsPin cid :=
  fun record hget hpinned => Registry.cid_of_get hget ▸ (h cid record hget).pin.mp hpinned

theorem World.PinAgrees.of_matches (h : w.PinAgrees cid) (hsame : w.Matches w' cid) :
    w'.PinAgrees cid := by
  intro record hget
  have hrecord := hsame.record
  rw [hget] at hrecord
  obtain ⟨old, hold, heq⟩ := Option.map_eq_some_iff.mp hrecord.symm
  have hcid : record.cid = old.cid := (congrArg FileRecord.cid heq :).symm
  have hpinned : record.pinned = old.pinned := (congrArg FileRecord.pinned heq :).symm
  have hstate : record.state = old.state := (congrArg FileRecord.state heq :).symm
  have hheld : record.heldLocally = old.heldLocally :=
    (congrArg FileRecord.heldLocally heq :).symm
  have hagrees := h old hold
  refine ⟨?_, fun hconfirmed hlocal => ?_⟩
  · rw [hpinned, hagrees.pin, hcid, Registry.cid_of_get hold]
    exact hsame.pin.symm
  · rw [hpinned]
    exact hagrees.held (hstate ▸ hconfirmed) (hheld ▸ hlocal)

theorem World.Unrecorded.of_matches (h : w'.Unrecorded cid) (hsame : w.Matches w' cid) :
    w.Unrecorded cid := by
  have hrecord := hsame.record
  rw [h.1, Option.map_none] at hrecord
  exact ⟨Option.map_eq_none_iff.mp hrecord.symm, hsame.pin.mp h.2⟩

theorem World.Agrees.matches (h : w.Agrees w' cid) : w.Matches w' cid :=
  ⟨by rw [h.1], h.2⟩

theorem World.ChangesOnly.agrees (h : w.ChangesOnly w' cid) {other : Cid} (hne : other ≠ cid) :
    w.Agrees w' other :=
  ⟨h.files other hne, h.pins other hne⟩

namespace StaysCoherent

theorem refl (h : w.Coherent) : StaysCoherent w w := ⟨h, fun _ => id⟩

theorem trans (h : StaysCoherent w w₁) (h' : StaysCoherent w₁ w') : StaysCoherent w w' :=
  ⟨h'.coherent, fun cid hcid => h.unrecorded cid (h'.unrecorded cid hcid)⟩

theorem of_matches (h : w.Coherent) (hsame : ∀ cid, w.Matches w' cid) : StaysCoherent w w' :=
  ⟨fun cid => (h cid).of_matches (hsame cid), fun cid hcid => hcid.of_matches (hsame cid)⟩

/-- Records and pins are the same. -/
theorem of_same (h : w.Coherent) (hfiles : w'.files = w.files) (hpins : w'.pins = w.pins) :
    StaysCoherent w w' :=
  of_matches h fun _ => ⟨by rw [hfiles], by rw [hpins]⟩

/-- Only one file changed. -/
theorem of_only (h : w.Coherent) (honly : w.ChangesOnly w' cid) (hagrees : w'.PinAgrees cid)
    (hunrecorded : w'.Unrecorded cid → w.Unrecorded cid) : StaysCoherent w w' where
  coherent other := by
    by_cases hcid : other = cid
    · exact hcid ▸ hagrees
    · exact (h other).of_matches (honly.agrees hcid).matches
  unrecorded other hother := by
    by_cases hcid : other = cid
    · subst hcid
      exact hunrecorded hother
    · exact hother.of_matches (honly.agrees hcid).matches

/-- One file changed, and is back as it was. -/
theorem of_back (h : w.Coherent) (honly : w.ChangesOnly w' cid) (hback : w.Matches w' cid) :
    StaysCoherent w w' :=
  of_only h honly ((h cid).of_matches hback) fun hcid => hcid.of_matches hback

/-- One file got a record that agrees with its pin. -/
theorem put (h : w.Coherent) (honly : w.ChangesOnly w₁ cid) {record : FileRecord Cid}
    (hcid : record.cid = cid) (hagrees : record.AgreesWith w₁.pins)
    (hvalid : isFileRecord record = true) : StaysCoherent w (w₁.put record hvalid) := by
  have hget : (w₁.put record hvalid).files.get cid = some (record.stamped w₁.nextRevision) :=
    World.get_put.trans (if_pos hcid.symm)
  refine of_only h (honly.put hcid hvalid) (fun stored hstored => ?_) fun hnone => ?_
  · rw [hget] at hstored
    cases hstored
    exact hagrees.congr rfl rfl id rfl
  · rw [hnone.1] at hget
    cases hget

end StaysCoherent

end Agreement

/-! ## Restoring a baseline -/

section Restoring

variable {Cid α : Type} [DecidableEq Cid] {content : Content Cid} {faults : Faults Cid}
variable {w w₁ : World Cid} {cid : Cid}

omit [DecidableEq Cid] in
theorem ordinary_noFault : (noFault : Faults Cid).Ordinary := fun _ => False.elim

/-- The record a transition read is written back, and nothing else changes. -/
theorem run_restoreRecord_back (honly : w.ChangesOnly w₁ cid)
    (hpin : cid ∈ w₁.pins ↔ cid ∈ w.pins) :
    ∃ w₂, Prog.run (serve content) (restoreRecord cid (w.files.get cid)) w₁ = (.ok (), w₂) ∧
      w.ChangesOnly w₂ cid ∧ w.Matches w₂ cid := by
  obtain ⟨w₂, hrun, hrecord, hothers, hpins, hproc⟩ :=
    run_restoreRecord (valid_baseline w cid false) w₁
  refine ⟨w₂, hrun, honly.trans ⟨hproc, hothers, fun _ _ => by rw [hpins]⟩, hrecord, ?_⟩
  rw [hpins, hpin]

theorem coherent_restoreLifecycleBaseline (hfaults : faults.Ordinary) (h : w.Coherent)
    (honly : w.ChangesOnly w₁ cid) (err : LifecycleError Cid) :
    Prog.wp (storeSem content faults)
      (restoreLifecycleBaseline cid (w.files.get cid) (decide (cid ∈ w.pins)) err : Store Cid α)
      (fun _ => StaysCoherent w) w₁ := by
  obtain ⟨a, w₂, hpinned, honly₂, hpin⟩ : ∃ a w₂, Prog.run (serve content)
      (if decide (cid ∈ w.pins) then pinFile cid else unpinFile cid) w₁ = (.ok a, w₂) ∧
      w.ChangesOnly w₂ cid ∧ (cid ∈ w₂.pins ↔ cid ∈ w.pins) := by
    by_cases hpin : cid ∈ w.pins
    · rw [decide_eq_true hpin, if_pos rfl, run_pinFile]
      exact ⟨_, _, rfl, honly.pin, by simp [hpin]⟩
    · rw [decide_eq_false hpin, if_neg Bool.false_ne_true, run_unpinFile]
      exact ⟨_, _, rfl, honly.unpin, by simp [hpin]⟩
  refine Prog.wp_bind.mpr (Prog.wp_attempt.mpr ((wp_compensating hfaults).mpr ?_))
  rw [hpinned]
  show Prog.wp _ _ _ w₂
  refine Prog.wp_bind.mpr (Prog.wp_attempt.mpr ((wp_compensating hfaults).mpr ?_))
  obtain ⟨w₃, hrun, honly₃, hback⟩ := run_restoreRecord_back honly₂ hpin
  rw [hrun]
  exact .of_back h honly₃ hback

/-- A stage that cannot be stored takes back the pin it made, and only that. -/
theorem coherent_restoreStageWrite (hfaults : faults.Ordinary) (h : w.Coherent)
    (honly : w.ChangesOnly w₁ cid) (hpin : cid ∈ w₁.pins) (err : LifecycleError Cid) :
    Prog.wp (storeSem content faults)
      (restoreStageWrite cid (w.files.get cid) (decide (cid ∉ w.pins)) err : Store Cid α)
      (fun _ => StaysCoherent w) w₁ := by
  obtain ⟨removed, w₂, hunpinned, honly₂, hpin₂⟩ : ∃ removed w₂, Prog.run (serve content)
      (if decide (cid ∉ w.pins) then unpinFile cid else pure false) w₁ = (.ok removed, w₂) ∧
      w.ChangesOnly w₂ cid ∧ (cid ∈ w₂.pins ↔ cid ∈ w.pins) := by
    by_cases hold : cid ∈ w.pins
    · rw [decide_eq_false (not_not.mpr hold), if_neg Bool.false_ne_true]
      exact ⟨_, _, rfl, honly, iff_of_true hpin hold⟩
    · rw [decide_eq_true hold, if_pos rfl, run_unpinFile]
      exact ⟨_, _, rfl, honly.unpin, by simp [hold]⟩
  refine Prog.wp_bind.mpr (Prog.wp_attempt.mpr ((wp_compensating hfaults).mpr ?_))
  rw [hunpinned]
  show Prog.wp _ _ _ w₂
  refine Prog.wp_bind.mpr (Prog.wp_attempt.mpr ((wp_compensating hfaults).mpr ?_))
  obtain ⟨w₃, hrun, honly₃, hback⟩ := run_restoreRecord_back honly₂ hpin₂
  rw [hrun]
  exact .of_back h honly₃ hback

end Restoring

/-! ## Transitions that restore what they found -/

section Transitions

variable {Cid : Type} [DecidableEq Cid] {content : Content Cid} {faults : Faults Cid}
variable {w : World Cid} {cid : Cid}

/-- The pin of a file whose record says so, or is about to. -/
theorem StaysCoherent.pin_put (h : w.Coherent) {record : FileRecord Cid}
    (hvalid : isFileRecord record = true) (hcid : record.cid = cid)
    (hpinned : record.pinned = true) : StaysCoherent w ((w.pin content cid).put record hvalid) := by
  refine .put h (World.ChangesOnly.refl w cid).pin hcid ?_ hvalid
  refine FileRecord.agreesWith_pinned hpinned ?_
  rw [hcid, World.pins_pin]
  exact Finset.mem_insert_self _ _

theorem StaysCoherent.unpin_put (h : w.Coherent) {record : FileRecord Cid}
    (hvalid : isFileRecord record = true) (hcid : record.cid = cid)
    (hpinned : record.pinned = false) (hheld : record.heldLocally = false) :
    StaysCoherent w ((w.unpin cid).put record hvalid) := by
  refine .put h (World.ChangesOnly.refl w cid).unpin hcid ?_ hvalid
  refine FileRecord.agreesWith_unpinned hpinned hheld ?_
  rw [hcid, World.pins_unpin]
  exact Finset.notMem_erase _ _

/-- A record with the same flags takes the place of another one. -/
theorem StaysCoherent.resave (h : w.Coherent) {record current : FileRecord Cid}
    (hget : w.files.get cid = some current) (hvalid : isFileRecord record = true)
    (hcid : record.cid = current.cid) (hpinned : record.pinned = current.pinned)
    (hstate : record.state = .confirmed → current.state = .confirmed)
    (hheld : record.heldLocally = current.heldLocally) : StaysCoherent w (w.put record hvalid) :=
  .put h (.refl w cid) (hcid.trans (Registry.cid_of_get hget))
    ((h cid current hget).congr hcid hpinned hstate hheld) hvalid

/-- A staged file is pinned. -/
theorem World.Coherent.mem_of_staged (h : w.Coherent) {current : FileRecord Cid}
    (hget : w.files.get cid = some current) {stage : ReplicaStage}
    (hstage : current.replicaStage = some stage) : cid ∈ w.pins :=
  h.claimsPin cid current hget (pinned_of_staged hget hstage)

theorem coherent_registerPinnedUnderLock (hfaults : faults.Ordinary) (h : w.Coherent)
    (options : RegisterPinnedOptions Cid) :
    Prog.wp (storeSem content faults)
      (registerPinnedUnderLock options (w.files.get options.cid)) (fun _ => StaysCoherent w) w := by
  refine Prog.wp_bind.mpr (wp_wasPinnedBefore (h.claimsPin _) ?_ (.refl h))
  have hrestore (w₁ : World Cid) (honly : w.ChangesOnly w₁ options.cid)
      (err : LifecycleError Cid) : Prog.wp (storeSem content faults)
        (restoreLifecycleBaseline options.cid (w.files.get options.cid)
          (decide (options.cid ∈ w.pins)) err : Store Cid (FileRecord Cid))
        (fun _ => StaysCoherent w) w₁ :=
    coherent_restoreLifecycleBaseline hfaults h honly err
  have hpinned : w.ChangesOnly (w.pin content options.cid) options.cid :=
    (World.ChangesOnly.refl w _).pin
  refine Prog.wp_tryCatch.mpr (Prog.wp_bind.mpr (wp_pinFile ?_ (hrestore _ (.refl w _) _)))
  refine Prog.wp_bind.mpr (wp_statDag (fun stats => ?_) fun _ => hrestore _ hpinned _)
  have hfiles : (w.pin content options.cid).files.get options.cid = w.files.get options.cid := by
    rw [World.files_pin]
  refine Prog.wp_bind.mpr (wp_registerExclusively (fun _ hvalid => ?_)
    (fun existing hget hstage _ => ?_) (fun hvalid => ?_) fun _ => hrestore _ hpinned _)
  · exact .pin_put h hvalid (cid_registrationOf fun record hget => Registry.cid_of_get hget)
      (isRegistration_registrationOf _ _ _).pinned
  · have hget : w.files.get options.cid = some existing := hfiles ▸ hget
    obtain ⟨stage, hstage⟩ := Option.isSome_iff_exists.mp hstage
    have hsame : w.pin content options.cid = w := if_pos (h.mem_of_staged hget hstage)
    show StaysCoherent w (w.pin content options.cid)
    rw [hsame]
    exact .refl h
  · refine hrestore _ (hpinned.put ?_ hvalid) _
    exact cid_registrationOf fun record hget => Registry.cid_of_get hget

theorem coherent_registerPinnedFile (hfaults : faults.Ordinary) (h : w.Coherent)
    (options : RegisterPinnedOptions Cid) :
    Prog.wp (storeSem content faults) (registerPinnedFile options) (fun _ => StaysCoherent w) w :=
  Prog.wp_bind.mpr (wp_get (coherent_registerPinnedUnderLock hfaults h options) (.refl h))

theorem coherent_confirmStoredFile (hfaults : faults.Ordinary) (h : w.Coherent)
    (options : RegisterPinnedOptions Cid) (registerUnknown : Bool) :
    Prog.wp (storeSem content faults) (confirmStoredFile options registerUnknown)
      (fun _ => StaysCoherent w) w := by
  refine Prog.wp_bind.mpr (wp_get ?_ (.refl h))
  have hregister : Prog.wp (storeSem content faults)
      (registerPinnedUnderLock options (w.files.get options.cid)) (fun _ => StaysCoherent w) w :=
    coherent_registerPinnedUnderLock hfaults h options
  have hwas {Q} (hok : Q (.ok (decide (options.cid ∈ w.pins))) w) (hio : Q (.error .io) w) :
      Prog.wp (storeSem content faults)
        (wasPinnedBefore options.cid (w.files.get options.cid)) Q w :=
    wp_wasPinnedBefore (h.claimsPin _) hok hio
  have hrestore (w₁ : World Cid) (honly : w.ChangesOnly w₁ options.cid)
      (err : LifecycleError Cid) : Prog.wp (storeSem content faults)
        (restoreLifecycleBaseline options.cid (w.files.get options.cid)
          (decide (options.cid ∈ w.pins)) err : Store Cid (Option (FileRecord Cid)))
        (fun _ => StaysCoherent w) w₁ :=
    coherent_restoreLifecycleBaseline hfaults h honly err
  have hpinned : w.ChangesOnly (w.pin content options.cid) options.cid :=
    (World.ChangesOnly.refl w _).pin
  cases hget : w.files.get options.cid with
  | none =>
      rw [hget] at hregister
      show Prog.wp _ (ite _ _ _) _ w
      split
      · refine Prog.wp_bind.mpr (Prog.wp_mono (fun r w' hr => ?_) hregister)
        cases r with
        | ok record => exact hr
        | error err => exact hr
      · exact .refl h
  | some current =>
      have hcid : (confirmedRecord current options.now).cid = options.cid :=
        (Registry.cid_of_get hget :)
      rw [hget] at hwas hrestore
      refine Prog.wp_bind.mpr (wp_process ?_)
      show Prog.wp _ (ite _ _ _) _ w
      split
      · exact .refl h
      · refine Prog.wp_bind.mpr (hwas ?_ (.refl h))
        refine Prog.wp_tryCatch.mpr (Prog.wp_bind.mpr
          (wp_pinFile ?_ (hrestore _ (.refl w _) _)))
        exact Prog.wp_bind.mpr (wp_save (fun hvalid => .pin_put h hvalid hcid rfl)
          (fun hvalid => hrestore _ (hpinned.put hcid hvalid) _) fun _ => hrestore _ hpinned _)

theorem coherent_releaseStoredFile (hfaults : faults.Ordinary) (h : w.Coherent) (cid : Cid) :
    Prog.wp (storeSem content faults) (releaseStoredFile cid) (fun _ => StaysCoherent w) w := by
  refine Prog.wp_bind.mpr (wp_get ?_ (.refl h))
  have hwas {Q} (hok : Q (.ok (decide (cid ∈ w.pins))) w) (hio : Q (.error .io) w) :
      Prog.wp (storeSem content faults) (wasPinnedBefore cid (w.files.get cid)) Q w :=
    wp_wasPinnedBefore (h.claimsPin _) hok hio
  have hrestore (w₁ : World Cid) (honly : w.ChangesOnly w₁ cid) (err : LifecycleError Cid) :
      Prog.wp (storeSem content faults)
        (restoreLifecycleBaseline cid (w.files.get cid) (decide (cid ∈ w.pins)) err :
          Store Cid (Option (FileRecord Cid))) (fun _ => StaysCoherent w) w₁ :=
    coherent_restoreLifecycleBaseline hfaults h honly err
  have hunpinned : w.ChangesOnly (w.unpin cid) cid := (World.ChangesOnly.refl w _).unpin
  cases hget : w.files.get cid with
  | none => exact .refl h
  | some current =>
      have hcid : (current.released .expired).cid = cid := (Registry.cid_of_get hget :)
      rw [hget] at hwas hrestore
      refine Prog.wp_bind.mpr (wp_process ?_)
      show Prog.wp _ (ite _ _ _) _ w
      split
      · exact .refl h
      · refine Prog.wp_bind.mpr (hwas ?_ (.refl h))
        refine Prog.wp_tryCatch.mpr (Prog.wp_bind.mpr
          (wp_unpinFile ?_ (hrestore _ hunpinned _) (hrestore _ (.refl w _) _)))
        exact Prog.wp_bind.mpr (wp_save (fun hvalid => .unpin_put h hvalid hcid rfl rfl)
          (fun hvalid => hrestore _ (hunpinned.put hcid hvalid) _)
          fun _ => hrestore _ hunpinned _)

/-! ### Staging -/

variable {options : ReplicaStageTarget Cid} {name : String}

theorem coherent_joinStage (hfaults : faults.Ordinary) (h : w.Coherent)
    {previous : FileRecord Cid} (hget : w.files.get options.cid = some previous)
    {stage : ReplicaStage} (hstage : previous.replicaStage = some stage) :
    Prog.wp (storeSem content faults) (joinStage options previous stage)
      (fun _ => StaysCoherent w) w := by
  have hpin : options.cid ∈ w.pins := h.mem_of_staged hget hstage
  have hcid : (joinedRecord options previous stage).cid = options.cid :=
    (Registry.cid_of_get hget :)
  have hsame : w.pin content options.cid = w := if_pos hpin
  have hrestore (w₁ : World Cid) (honly : w.ChangesOnly w₁ options.cid)
      (hpins : options.cid ∈ w₁.pins) (err : LifecycleError Cid) :
      Prog.wp (storeSem content faults)
        (restoreStageWrite options.cid (some previous) false err :
          Store Cid (ReplicaStageResult Cid)) (fun _ => StaysCoherent w) w₁ := by
    have hback : Prog.wp (storeSem content faults)
        (restoreStageWrite options.cid (w.files.get options.cid) (decide (options.cid ∉ w.pins))
          err : Store Cid (ReplicaStageResult Cid)) (fun _ => StaysCoherent w) w₁ :=
      coherent_restoreStageWrite hfaults h honly hpins err
    rwa [hget, decide_eq_false (not_not.mpr hpin)] at hback
  unfold joinStage
  split
  · exact .refl h
  · refine Prog.wp_bind.mpr (wp_pinFile ?_ (.refl h))
    rw [hsame]
    refine Prog.wp_tryCatch.mpr (Prog.wp_bind.mpr (wp_save (fun hvalid => ?_)
      (fun hvalid => hrestore _ ((World.ChangesOnly.refl w _).put hcid hvalid) hpin _)
      fun _ => hrestore _ (.refl w _) hpin _))
    exact .put h (.refl w _) hcid (FileRecord.agreesWith_pinned rfl (hcid ▸ hpin)) hvalid

theorem coherent_beginStage (hfaults : faults.Ordinary) (h : w.Coherent) :
    Prog.wp (storeSem content faults) (beginStage options name (w.files.get options.cid))
      (fun _ => StaysCoherent w) w := by
  refine Prog.wp_bind.mpr (wp_isDirectlyPinned ?_ (.refl h))
  have hpinned : options.cid ∈ (w.pin content options.cid).pins := by simp
  have honly : w.ChangesOnly (w.pin content options.cid) options.cid :=
    (World.ChangesOnly.refl w _).pin
  have hrestore (w₁ : World Cid) (honly : w.ChangesOnly w₁ options.cid)
      (hpin : options.cid ∈ w₁.pins) (err : LifecycleError Cid) :
      Prog.wp (storeSem content faults)
        (restoreStageWrite options.cid (w.files.get options.cid) (decide (options.cid ∉ w.pins))
          err : Store Cid (ReplicaStageResult Cid)) (fun _ => StaysCoherent w) w₁ :=
    coherent_restoreStageWrite hfaults h honly hpin err
  show Prog.wp _ (ite _ _ _) _ w
  split
  · refine Prog.wp_bind.mpr (wp_pinFile ?_ (.refl h))
    refine Prog.wp_tryCatch.mpr (Prog.wp_bind.mpr
      (wp_statDag (fun _ => ?_) fun _ => hrestore _ honly hpinned _))
    exact Prog.wp_bind.mpr (wp_save (fun hvalid => .pin_put h hvalid rfl rfl)
      (fun hvalid => hrestore _ (honly.put rfl hvalid) hpinned _)
      fun _ => hrestore _ honly hpinned _)
  · refine Prog.wp_bind.mpr (wp_pinFile ?_ (.refl h))
    refine Prog.wp_tryCatch.mpr (Prog.wp_bind.mpr
      (wp_statDag (fun _ => ?_) fun _ => hrestore _ honly hpinned _))
    exact Prog.wp_bind.mpr (wp_save (fun hvalid => .pin_put h hvalid rfl rfl)
      (fun hvalid => hrestore _ (honly.put rfl hvalid) hpinned _)
      fun _ => hrestore _ honly hpinned _)

theorem coherent_stageReplica (hfaults : faults.Ordinary) (h : w.Coherent) :
    Prog.wp (storeSem content faults) (stageReplica options name)
      (fun _ => StaysCoherent w) w := by
  refine Prog.wp_bind.mpr (wp_request ?_ (fun h => by cases h) (fun h => by cases h))
  -- looking up the abort markers touches neither record nor pin
  set pruned := (StoreOp.effect content (.wasAborted options.cid options.transactionId
    options.originPeerId options.now) w).2
  have hsame : StaysCoherent w pruned := .of_same h rfl rfl
  have hpruned := hsame.coherent
  have hbegin : Prog.wp (storeSem content faults)
      (beginStage options name (pruned.files.get options.cid)) (fun _ => StaysCoherent pruned)
      pruned := coherent_beginStage hfaults hpruned
  show Prog.wp _ (ite _ _ _) _ pruned
  split
  · exact hsame
  refine Prog.wp_bind.mpr (wp_get ?_ hsame)
  show Prog.wp _ _ _ pruned
  refine Prog.wp_mono (Q := fun _ => StaysCoherent pruned) (fun _ _ => hsame.trans) ?_
  cases hget : pruned.files.get options.cid with
  | none =>
      rw [hget] at hbegin
      exact hbegin
  | some previous =>
      rw [hget] at hbegin
      dsimp only
      cases hstage : previous.replicaStage with
      | some stage => exact coherent_joinStage hfaults hpruned hget hstage
      | none =>
          dsimp only
          split
          · exact .refl hpruned
          · split
            · exact .refl hpruned
            · exact hbegin

end Transitions

/-! ## Operations that write the record they read -/

section Writes

variable {Cid : Type} [DecidableEq Cid] {content : Content Cid} {faults : Faults Cid}
variable {w : World Cid} {cid : Cid}

/-- A commit writes the flags without touching the pin, which a staged file has. -/
theorem coherent_commitReplica (h : w.Coherent) (options : SettleReplicaOptions Cid) :
    Prog.wp (storeSem content faults) (commitReplica options) (fun _ => StaysCoherent w) w := by
  refine Prog.wp_bind.mpr (wp_get ?_ (.refl h))
  show Prog.wp _ _ _ w
  cases hget : w.files.get options.cid with
  | none => exact .refl h
  | some current =>
      dsimp only
      cases hstage : current.stageOf options.transactionId with
      | none =>
          dsimp only
          split
          · exact .refl h
          · exact .refl h
      | some stage =>
          have hcid : (confirmedRecord current options.now).cid = options.cid :=
            (Registry.cid_of_get hget :)
          have hpin : options.cid ∈ w.pins :=
            h.mem_of_staged hget (Option.filter_eq_some_iff.mp hstage).1
          have hsaved : ∀ hvalid, StaysCoherent w
              (w.put (confirmedRecord current options.now) hvalid) := fun hvalid =>
            .put h (.refl w _) hcid (FileRecord.agreesWith_pinned rfl (hcid ▸ hpin)) hvalid
          dsimp only
          split
          · exact .refl h
          · exact Prog.wp_bind.mpr (wp_save hsaved hsaved fun _ => .refl h)

/-- The record without its token carries the same flags. -/
theorem StaysCoherent.forget (h : w.Coherent) {current : FileRecord Cid}
    (hget : w.files.get cid = some current)
    (hvalid : isFileRecord current.withoutAdmission = true) :
    StaysCoherent w (w.put current.withoutAdmission hvalid) :=
  .resave h hget hvalid rfl rfl id rfl

theorem coherent_recoverInterruptedAdmission (h : w.Coherent) (cid : Cid) :
    Prog.wp (storeSem content faults) (recoverInterruptedAdmission cid)
      (fun _ => StaysCoherent w) w := by
  refine Prog.wp_bind.mpr (wp_get ?_ (.refl h))
  show Prog.wp _ _ _ w
  cases hget : w.files.get cid with
  | none => exact .refl h
  | some current =>
      refine Prog.wp_bind.mpr (wp_process ?_)
      show Prog.wp _ (ite _ _ _) _ w
      split
      · exact .refl h
      · exact Prog.wp_bind.mpr (wp_save (.forget h hget) (.forget h hget) fun _ => .refl h)

theorem coherent_clearSettledAdmission (h : w.Coherent) (record : FileRecord Cid) :
    Prog.wp (storeSem content faults) (clearSettledAdmission record)
      (fun _ => StaysCoherent w) w := by
  refine Prog.wp_bind.mpr (wp_process ?_)
  show Prog.wp _ (ite _ _ _) _ w
  split
  · exact .refl h
  refine Prog.wp_bind.mpr (wp_get ?_ (.refl h))
  show Prog.wp _ _ _ w
  cases hget : w.files.get record.cid with
  | none => exact .refl h
  | some current =>
      refine Prog.wp_bind.mpr (wp_process ?_)
      show Prog.wp _ (ite _ _ _) _ w
      split
      · exact .refl h
      · exact Prog.wp_bind.mpr (wp_save (.forget h hget) (.forget h hget) fun _ => .refl h)

theorem coherent_setReplicas (h : w.Coherent) (cid : Cid) (replicas : List String) :
    Prog.wp (storeSem content faults) (setReplicas cid replicas) (fun _ => StaysCoherent w) w := by
  refine Prog.wp_bind.mpr (wp_get ?_ (.refl h))
  show Prog.wp _ _ _ w
  cases hget : w.files.get cid with
  | none => exact .refl h
  | some record =>
      have hsaved : ∀ hvalid, StaysCoherent w (w.put { record with replicas } hvalid) :=
        fun hvalid => .resave h hget hvalid rfl rfl id rfl
      exact Prog.wp_bind.mpr (wp_save hsaved hsaved fun _ => .refl h)

/-- The tokens of a settled upload are removed one after the other. -/
theorem coherent_clearSettledAdmissions (h : w.Coherent) (reports : Reports Cid)
    (admissionId : AdmissionId) (cids : List Cid) :
    Prog.wp (storeSem content faults) (clearSettledAdmissions reports admissionId cids)
      (fun _ => StaysCoherent w) w := by
  induction cids generalizing w with
  | nil => exact .refl h
  | cons cid rest ih =>
      refine Prog.wp_bind.mpr (Prog.wp_attempt.mpr (wp_get ?_ (ih h)))
      show Prog.wp _ _ _ w
      cases hget : w.files.get cid with
      | none => exact .refl h
      | some current =>
          have hcleared : ∀ hvalid, StaysCoherent w
              (w.put (reportedRecord reports current).withoutAdmission hvalid) :=
            fun hvalid => .resave h hget hvalid rfl rfl id rfl
          have hrest {w₁ : World Cid} (hfirst : StaysCoherent w w₁)
              {k : List (FileRecord Cid) → Store Cid (List (FileRecord Cid))}
              (hk : ∀ others, ∃ all, k others = pure all) :
              Prog.wp (storeSem content faults)
                (clearSettledAdmissions reports admissionId rest >>= k)
                (fun _ => StaysCoherent w) w₁ := by
            refine Prog.wp_bind.mpr (Prog.wp_mono (fun r w₂ hr => ?_) (ih hfirst.coherent))
            have hall := hfirst.trans hr
            cases r with
            | error err => exact hall
            | ok others =>
                obtain ⟨all, heq⟩ := hk others
                rw [Prog.thenPost_ok, heq]
                exact hall
          dsimp only
          split
          · exact .refl h
          · exact Prog.wp_bind.mpr (Prog.wp_attempt.mpr (wp_save
              (fun hvalid => hrest (hcleared hvalid) fun _ => ⟨_, rfl⟩)
              (fun hvalid => hrest (hcleared hvalid) fun _ => ⟨_, rfl⟩)
              fun err => hrest (.refl h) fun _ => ⟨_, rfl⟩))

/-- A permanent copy is pinned already, so the guard finds nothing to do. -/
theorem coherent_guardPin (h : w.Coherent) (cid : Cid) :
    Prog.wp (storeSem content faults) (guardPin cid) (fun _ => StaysCoherent w) w := by
  refine Prog.wp_bind.mpr (wp_get ?_ (.refl h))
  show Prog.wp _ _ _ w
  cases hget : w.files.get cid with
  | none => exact .refl h
  | some current =>
      dsimp only
      split
      · exact .refl h
      · rename_i hskip
        simp only [Bool.or_eq_true, not_or, decide_eq_true_eq, not_not, Bool.not_eq_true',
          Bool.not_eq_false] at hskip
        have hpin : cid ∈ w.pins :=
          h.claimsPin cid current hget ((h cid current hget).held hskip.1 hskip.2)
        refine Prog.wp_bind.mpr (wp_isProtected ?_ (.refl h))
        rw [decide_eq_true (Dag.protects_of_mem hpin)]
        exact .refl h

/-- Only a record that was released is removed. -/
theorem coherent_cleanupReleased (h : w.Coherent) {record : FileRecord Cid}
    (hreleased : ∀ current, w.files.get record.cid = some current →
      current.revision = record.revision → current.pinned = false) :
    Prog.wp (storeSem content faults) (cleanupReleased record) (fun _ => StaysCoherent w) w := by
  refine Prog.wp_bind.mpr (wp_get ?_ (.refl h))
  show Prog.wp _ _ _ w
  cases hget : w.files.get record.cid with
  | none => exact .refl h
  | some current =>
      dsimp only
      split
      · rename_i hrevision
        have hunpinned : record.cid ∉ w.pins := by
          rw [← Registry.cid_of_get hget, ← (h _ current hget).pin,
            hreleased current hget hrevision]
          exact Bool.false_ne_true
        have hremoved : StaysCoherent w (w.remove record.cid) := by
          refine .of_only h (World.ChangesOnly.refl w _).remove (fun stored hstored => ?_)
            fun hnone => absurd hnone.2 hunpinned
          rw [World.get_remove, if_pos rfl] at hstored
          cases hstored
        exact wp_remove hremoved hremoved (.refl h)
      · exact .refl h

end Writes

/-! ## Operations on pin and record -/

section Steps

variable {Cid : Type} [DecidableEq Cid] {content : Content Cid}
variable {w w₁ : World Cid} {cid : Cid}

/-- A step that is served is over. -/
theorem wp_bind_served {α β : Type} {p : Store Cid α} {f : α → Store Cid β} {a : α}
    {Q : Except (LifecycleError Cid) β → World Cid → Prop}
    (hrun : Prog.run (serve content) p w = (.ok a, w₁))
    (hrest : Prog.wp (storeSem content noFault) (f a) Q w₁) :
    Prog.wp (storeSem content noFault) (p >>= f) Q w := by
  refine Prog.wp_bind.mpr (wp_noFault.mpr ?_)
  rw [hrun]
  exact hrest

/-- An abandoned stage takes its pin with it. -/
theorem coherent_restoreReplicaStage (h : w.Coherent) {current : FileRecord Cid}
    (hget : w.files.get current.cid = some current) (keepCreatedRecord : Bool) :
    Prog.wp (storeSem content noFault) (restoreReplicaStage current keepCreatedRecord)
      (fun _ => StaysCoherent w) w := by
  refine wp_bind_served run_unpinFile ?_
  have honly : w.ChangesOnly (w.unpin current.cid) current.cid := (World.ChangesOnly.refl w _).unpin
  split
  · refine wp_noFault.mpr ?_
    rw [Prog.run_tryCatch_ok (Prog.run_bind_ok run_remove)]
    refine .of_only h honly.remove (fun stored hstored => ?_) fun hnone => ?_
    · rw [World.get_remove, if_pos rfl] at hstored
      cases hstored
    · have hpin : current.cid ∈ w.pins.erase current.cid := hnone.2
      exact absurd hpin (Finset.notMem_erase _ _)
  · have hvalid := isFileRecord_unstagedRecord (Registry.valid_of_get hget)
    exact wp_bind_served (run_save hvalid) (.unpin_put h hvalid rfl rfl rfl)

theorem coherent_abortReplica (h : w.Coherent) (options : SettleReplicaOptions Cid) :
    Prog.wp (storeSem content noFault) (abortReplica options) (fun _ => StaysCoherent w) w := by
  have hremembered {α : Type} {f : Unit → Store Cid α}
      (hrest : ∀ w₁, StaysCoherent w w₁ → w₁.files = w.files →
        Prog.wp (storeSem content noFault) (f ()) (fun _ => StaysCoherent w) w₁) :
      Prog.wp (storeSem content noFault) (rememberAborted options >>= f)
        (fun _ => StaysCoherent w) w :=
    wp_bind_served run_request (hrest _ (.of_same h rfl rfl) rfl)
  refine wp_bind_served run_get ?_
  cases hget : w.files.get options.cid with
  | none => exact hremembered fun w₁ hsame _ => hsame
  | some current =>
      have hcid : current.cid = options.cid := Registry.cid_of_get hget
      cases hstage : current.stageOf options.transactionId with
      | none =>
          simp only [Option.bind_some, hstage, Option.map_none]
          exact hremembered fun w₁ hsame _ => hsame
      | some stage =>
          simp only [Option.bind_some, hstage, Option.map_some]
          split
          · exact .refl h
          refine hremembered fun w₁ hsame hfiles => ?_
          have hget₁ : w₁.files.get options.cid = some current := by rw [hfiles, hget]
          split
          · refine Prog.wp_mono (fun _ _ => hsame.trans)
              (coherent_restoreReplicaStage hsame.coherent ?_ false)
            rw [hcid, hget₁]
          · have hsaved : ∀ hvalid, StaysCoherent w₁
                (w₁.put (unclaimedRecord current stage options.transactionId) hvalid) :=
              fun hvalid => .resave hsame.coherent hget₁ hvalid rfl rfl id rfl
            exact Prog.wp_bind.mpr (wp_save (fun hvalid => hsame.trans (hsaved hvalid))
              (fun hvalid => hsame.trans (hsaved hvalid)) fun _ => hsame)

theorem coherent_releasePlanned (h : w.Coherent) (record : FileRecord Cid) :
    Prog.wp (storeSem content noFault) (releasePlanned record) (fun _ => StaysCoherent w) w := by
  refine wp_bind_served run_get ?_
  cases hget : w.files.get record.cid with
  | none => exact .refl h
  | some current =>
      have hcid : current.cid = record.cid := Registry.cid_of_get hget
      refine wp_bind_served run_process ?_
      split
      · exact .refl h
      · split
        · refine coherent_restoreReplicaStage h ?_ true
          rw [hcid, hget]
        · refine wp_bind_served run_unpinFile (wp_noFault.mpr ?_)
          rw [Prog.run_tryCatch_ok (Prog.run_bind_ok (run_save isFileRecord_released))]
          exact .unpin_put h isFileRecord_released hcid rfl rfl

theorem coherent_demoteCopy (h : w.Coherent) (record : FileRecord Cid) :
    Prog.wp (storeSem content noFault) (demoteCopy record) (fun _ => StaysCoherent w) w := by
  refine wp_bind_served run_get ?_
  cases hget : w.files.get record.cid with
  | none => exact .refl h
  | some current =>
      have hcid : current.cid = record.cid := Registry.cid_of_get hget
      refine wp_bind_served run_process ?_
      split
      · exact .refl h
      · refine wp_bind_served run_unpinFile (wp_noFault.mpr ?_)
        rw [Prog.run_tryCatch_ok (Prog.run_bind_ok (run_save isFileRecord_released))]
        exact .unpin_put h isFileRecord_released hcid rfl rfl

theorem coherent_rescueOrphanedFile (h : w.Coherent) (record : FileRecord Cid) :
    Prog.wp (storeSem content noFault) (rescueOrphanedFile record)
      (fun _ => StaysCoherent w) w := by
  refine wp_bind_served run_get ?_
  cases hget : w.files.get record.cid with
  | none => exact .refl h
  | some current =>
      have hcid : current.cid = record.cid := Registry.cid_of_get hget
      have hvalid : isFileRecord (rescuedRecord current) = true := by
        simp [isFileRecord, rescuedRecord]
      dsimp only
      split
      · exact .refl h
      · refine wp_bind_served run_pinFile (wp_noFault.mpr ?_)
        rw [Prog.run_tryCatch_ok (Prog.run_bind_ok (run_save hvalid))]
        exact .pin_put h hvalid hcid rfl

/-- A pin is recorded while it is there. -/
theorem coherent_createIfAbsent (h : w.Coherent) {record : FileRecord Cid}
    (hpinned : record.pinned = true)
    (hpin : w.files.get record.cid = none → record.cid ∈ w.pins) :
    Prog.wp (storeSem content noFault) (createIfAbsent record) (fun _ => StaysCoherent w) w := by
  refine wp_bind_served run_get ?_
  cases hget : w.files.get record.cid with
  | some _ => exact .refl h
  | none =>
      have hsaved : ∀ hvalid, StaysCoherent w (w.put record hvalid) := fun hvalid =>
        .put h (.refl w _) rfl (FileRecord.agreesWith_pinned hpinned (hpin hget)) hvalid
      exact Prog.wp_bind.mpr (wp_save hsaved hsaved fun _ => .refl h)

end Steps

/-! ## Uploads -/

section Uploads

variable {Cid : Type} [DecidableEq Cid] {content : Content Cid} {w w' : World Cid}

/-- A file that is restored is as it was: its record claims a pin that is there. -/
theorem Restored.matches {cid : Cid} (hback : Restored w w' cid) (h : w.Coherent) :
    w.Matches w' cid := by
  refine ⟨hback.record, fun hpin => ?_, hback.kept⟩
  rcases hback.added hpin with hold | ⟨record, hget, hpinned⟩
  · exact hold
  · exact h.claimsPin cid record hget hpinned

theorem coherent_admitUpload (h : w.Coherent) (options : AdmitOptions)
    (files : List (UploadFile Cid)) :
    Prog.wp (storeSem content noFault) (admitUpload options files)
      (fun _ => StaysCoherent w) w := by
  refine Prog.wp_mono (fun r w' hr => ?_) wp_admitUpload
  cases r with
  | error err => exact .of_matches h fun cid => ((hr ordinary_noFault).restored cid).matches h
  | ok admitted =>
      have hr : AdmittedIn options w files admitted w' := hr
      have hother : ∀ cid, cid ∉ files.map (·.cid) → w.Matches w' cid :=
        fun cid hnot => (hr.others cid hnot).matches
      refine ⟨fun cid => ?_, fun cid hcid => ?_⟩
      · by_cases hmem : cid ∈ files.map (·.cid)
        · obtain ⟨⟨record, hget, hrecord⟩, hpin⟩ := hr.taken cid hmem
          intro stored hstored
          rw [hget] at hstored
          cases hstored
          exact FileRecord.agreesWith_pinned hrecord.pinned (Registry.cid_of_get hget ▸ hpin)
        · exact (h cid).of_matches (hother cid hmem)
      · by_cases hmem : cid ∈ files.map (·.cid)
        · obtain ⟨record, hget, -⟩ := (hr.taken cid hmem).record
          rw [hcid.1] at hget
          cases hget
        · exact hcid.of_matches (hother cid hmem)

/-- Records read from the registry, with flags that agree with the pins. -/
def AllAgree (w : World Cid) (records : List (FileRecord Cid)) : Prop :=
  ∀ record ∈ records, isFileRecord record = true ∧ record.AgreesWith w.pins

/-- Storing records that agree with the pins. -/
theorem StaysCoherent.put_agreeing (h : w.Coherent) {record : FileRecord Cid}
    (hvalid : isFileRecord record = true) (hagrees : record.AgreesWith w.pins) :
    StaysCoherent w (w.put record hvalid) :=
  .put h (.refl w record.cid) rfl hagrees hvalid

theorem agreeing_readAdmitted (h : w.Coherent) (admissionId : AdmissionId) (cids : List Cid) :
    Prog.wp (storeSem content noFault) (readAdmitted admissionId cids) (fun r w' =>
      w' = w ∧ ∀ records, r = .ok records → AllAgree w records) w := by
  refine Prog.wp_mono ?_ (wp_readAdmitted cids)
  rintro r _ ⟨rfl, hread⟩
  refine ⟨rfl, fun records hr record hmem => ?_⟩
  have hget := (hread records hr).2 record hmem
  exact ⟨Registry.valid_of_get hget, h _ record hget⟩

/-- Reports are written to the end: nothing in them can be refused. -/
theorem coherent_saveReports (h : w.Coherent) (reports : Reports Cid)
    {records : List (FileRecord Cid)} (hrecords : AllAgree w records) :
    Prog.wp (storeSem content noFault) (saveReports reports records) (fun r w' =>
      (StaysCoherent w w' ∧ w'.pins = w.pins) ∧ ∃ stored, r = .ok stored ∧ AllAgree w stored)
      w := by
  induction records generalizing w with
  | nil => exact ⟨⟨.refl h, rfl⟩, [], rfl, fun _ hmem => absurd hmem List.not_mem_nil⟩
  | cons current rest ih =>
      unfold AllAgree at hrecords
      rw [List.forall_mem_cons] at hrecords
      obtain ⟨⟨hvalid, hagrees⟩, hrest⟩ := hrecords
      have hreported : (reportedRecord reports current).AgreesWith w.pins :=
        hagrees.congr rfl rfl id rfl
      have hvalid : isFileRecord (reportedRecord reports current) = true := hvalid
      have hfirst : StaysCoherent w (w.put (reportedRecord reports current) hvalid) :=
        .put_agreeing h hvalid hreported
      refine wp_bind_served (run_save hvalid) (Prog.wp_bind.mpr
        (Prog.wp_mono ?_ (ih hfirst.coherent hrest)))
      rintro _ w₂ ⟨⟨hothers, hpins⟩, others, rfl, hstored⟩
      refine ⟨⟨hfirst.trans hothers, hpins⟩, _, rfl, ?_⟩
      unfold AllAgree
      rw [List.forall_mem_cons]
      exact ⟨⟨hvalid, hreported.congr rfl rfl id rfl⟩, hstored⟩

theorem coherent_settleEach (h : w.Coherent) (settledAt : Nat)
    {records : List (FileRecord Cid)} (hrecords : AllAgree w records) :
    Prog.wp (storeSem content noFault) (settleEach settledAt records)
      (fun _ => StaysCoherent w) w := by
  induction records generalizing w with
  | nil => exact .refl h
  | cons stored rest ih =>
      unfold AllAgree at hrecords
      rw [List.forall_mem_cons] at hrecords
      obtain ⟨⟨-, hagrees⟩, hrest⟩ := hrecords
      have hothers {w₁ : World Cid} (hfirst : StaysCoherent w w₁) (hpins : w₁.pins = w.pins)
          {k : List (FileRecord Cid) → Store Cid (List (FileRecord Cid))}
          (hk : ∀ others, ∃ all, k others = pure all) :
          Prog.wp (storeSem content noFault) (settleEach settledAt rest >>= k)
            (fun _ => StaysCoherent w) w₁ := by
        have hrest₁ : AllAgree w₁ rest := fun record hmem => by
          rw [hpins]
          exact hrest record hmem
        refine Prog.wp_bind.mpr (Prog.wp_mono (fun r w₂ hr => ?_) (ih hfirst.coherent hrest₁))
        have hall := hfirst.trans hr
        cases r with
        | error err => exact hall
        | ok others =>
            obtain ⟨all, heq⟩ := hk others
            rw [Prog.thenPost_ok, heq]
            exact hall
      have hsettled : ∀ hvalid, StaysCoherent w (w.put (stored.settled settledAt) hvalid) :=
        fun hvalid => .put_agreeing h hvalid (hagrees.congr rfl rfl id rfl)
      exact Prog.wp_bind.mpr (Prog.wp_attempt.mpr (wp_save
        (fun hvalid => hothers (hsettled hvalid) rfl fun _ => ⟨_, rfl⟩)
        (fun hvalid => hothers (hsettled hvalid) rfl fun _ => ⟨_, rfl⟩)
        fun err => hothers (.refl h) rfl fun _ => ⟨_, rfl⟩))

theorem coherent_finalizeAdmitted (h : w.Coherent) (cids : List Cid)
    (baselines : List (UploadBaseline Cid)) (reports : Reports Cid) (admissionId : AdmissionId)
    (settledAt : Nat) :
    Prog.wp (storeSem content noFault)
      (finalizeAdmitted cids baselines reports admissionId settledAt)
      (fun _ => StaysCoherent w) w := by
  refine Prog.wp_bind.mpr (Prog.wp_mono ?_ (agreeing_readAdmitted h admissionId cids))
  rintro r _ ⟨rfl, hread⟩
  cases r with
  | error err => exact .refl h
  | ok current =>
      refine Prog.wp_bind.mpr (Prog.wp_attempt.mpr
        (Prog.wp_mono ?_ (coherent_saveReports h reports (hread current rfl))))
      rintro _ w₁ ⟨⟨hsaved, hpins⟩, stored, rfl, hstored⟩
      refine Prog.wp_mono (fun _ _ => hsaved.trans)
        (coherent_settleEach hsaved.coherent settledAt fun record hmem => ?_)
      rw [hpins]
      exact hstored record hmem

/-! ### Withdrawing an upload -/

/-- What an upload found when it took a file: its record agreed with the pin, and
the pin is the upload's own exactly when there was none. -/
structure UploadBaseline.Agreed (baseline : UploadBaseline Cid) : Prop where
  valid : baseline.Valid
  pin : ∀ previous, baseline.previous = some previous →
    (previous.pinned = true ↔ baseline.createdPin = false)
  held : ∀ previous, baseline.previous = some previous → previous.state = .confirmed →
    previous.heldLocally = true → previous.pinned = true

theorem UploadBaseline.agreed_of_remembers {baselines : List (UploadBaseline Cid)}
    (h : w.Coherent) (hremembers : Remembers baselines w) {baseline : UploadBaseline Cid}
    (hmem : baseline ∈ baselines) : baseline.Agreed := by
  refine ⟨hremembers.valid baseline hmem, fun previous hprevious => ?_,
    fun previous hprevious => ?_⟩
  · rw [hremembers.previous baseline hmem] at hprevious
    rw [(h _ previous hprevious).pin, Registry.cid_of_get hprevious,
      hremembers.createdPin baseline hmem, decide_eq_false_iff_not, not_not]
  · rw [hremembers.previous baseline hmem] at hprevious
    exact (h _ previous hprevious).held

omit [DecidableEq Cid] in
/-- Which pin a baseline takes away: the one that its upload made. -/
theorem UploadBaseline.Agreed.takesPin {baseline : UploadBaseline Cid} (h : baseline.Agreed) :
    baseline.takesPin = baseline.createdPin := by
  unfold UploadBaseline.takesPin
  cases hprevious : baseline.previous with
  | none => simp
  | some previous =>
      have hpin := h.pin previous hprevious
      cases hcreated : baseline.createdPin with
      | false => rfl
      | true =>
          have hunpinned : previous.pinned = false := by
            rw [Bool.eq_false_iff]
            intro hpinned
            rw [hpin.mp hpinned] at hcreated
            cases hcreated
          simp [hunpinned]

/-- An upload that is withdrawn leaves records that agree with the pins, when the
files that carry its token are pinned. A pin without a record was one before. -/
theorem coherent_rollbackAdmitted (h : w.Coherent) {baselines : List (UploadBaseline Cid)}
    {admissionId : AdmissionId} (hnodup : (baselines.map (·.cid)).Nodup)
    (hagreed : ∀ baseline ∈ baselines, baseline.Agreed)
    (htaken : ∀ cid, w.token cid = some admissionId → cid ∈ w.pins) :
    Prog.wp (storeSem content noFault) (rollbackAdmitted baselines admissionId)
      (fun _ w' => w'.Coherent ∧ ∀ cid, w'.Unrecorded cid → w.Unrecorded cid ∨
        ∃ baseline ∈ baselines, baseline.cid = cid ∧ baseline.previous = none ∧
          baseline.createdPin = false ∧ w.token cid = some admissionId) w := by
  have hvalid : ∀ baseline ∈ baselines.reverse, baseline.Valid := fun baseline hmem =>
    (hagreed baseline (List.mem_reverse.mp hmem)).valid
  have hnodup : (baselines.reverse.map (·.cid)).Nodup := by
    rw [List.map_reverse]
    exact List.nodup_reverse.mpr hnodup
  refine Prog.wp_bind.mpr ((wp_compensating ordinary_noFault).mpr ?_)
  obtain ⟨w', hrun, hback⟩ := run_rollbackEach (some admissionId) hvalid hnodup w
  rw [hrun]
  -- a file is left alone, or its baseline is put back
  have hfile (cid : Cid) : w.Matches w' cid ∨ ∃ baseline ∈ baselines, baseline.cid = cid ∧
      w.token cid = some admissionId ∧ (w'.files.get cid).map FileRecord.unstamped =
        baseline.previous.map FileRecord.unstamped ∧
      (cid ∈ w'.pins ↔ baseline.createdPin = false) := by
    by_cases hmem : cid ∈ baselines.reverse.map (·.cid)
    · obtain ⟨baseline, hbaseline, rfl⟩ := List.mem_map.mp hmem
      have hin := List.mem_reverse.mp hbaseline
      by_cases happlies : baseline.Applies (some admissionId) w
      · refine .inr ⟨baseline, hin, rfl, happlies, hback.record _ hbaseline happlies, ?_⟩
        rw [hback.pin _ hbaseline happlies, and_iff_right (htaken _ happlies),
          (hagreed _ hin).takesPin]
      · exact .inl (hback.skipped _ hbaseline happlies).matches
    · exact .inl (hback.others cid hmem).matches
  refine ⟨fun cid => ?_, fun cid hcid => ?_⟩
  · rcases hfile cid with hsame | ⟨baseline, hmem, rfl, -, hrecord, hpin⟩
    · exact (h cid).of_matches hsame
    intro record hget
    rw [hget] at hrecord
    obtain ⟨previous, hprevious, heq⟩ := Option.map_eq_some_iff.mp hrecord.symm
    have hpinned : record.pinned = previous.pinned := (congrArg FileRecord.pinned heq :).symm
    have hstate : record.state = previous.state := (congrArg FileRecord.state heq :).symm
    have hheld : record.heldLocally = previous.heldLocally :=
      (congrArg FileRecord.heldLocally heq :).symm
    refine ⟨?_, fun hconfirmed hlocal => ?_⟩
    · rw [Registry.cid_of_get hget, hpin, hpinned]
      exact (hagreed _ hmem).pin previous hprevious
    · rw [hpinned]
      exact (hagreed _ hmem).held previous hprevious (hstate ▸ hconfirmed) (hheld ▸ hlocal)
  · rcases hfile cid with hsame | ⟨baseline, hmem, rfl, htoken, hrecord, hpin⟩
    · exact .inl (hcid.of_matches hsame)
    · rw [hcid.1, Option.map_none] at hrecord
      exact .inr ⟨baseline, hmem, rfl, Option.map_eq_none_iff.mp hrecord.symm,
        hpin.mp hcid.2, htoken⟩

end Uploads

end IpfsNode
