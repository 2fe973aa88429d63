import IpfsNode.GcRun

/-!
# What a collection deletes

Whether `runGarbageCollection`, run alone, ever lets Helia delete a block of
durable content. The check of the pins accepts a confirmed file that only the
pin of another file protects, and the release that follows may take that pin:
`collection_safe_iff` says that this is the only way durable content is lost.
-/

namespace IpfsNode

section Safety

variable {Cid : Type} [DecidableEq Cid]

/-- A collection that starts with every block of durable content protected, and
deletes none of them. -/
structure SafeCollection (content : Content Cid) (before after : World Cid) : Prop where
  protects : ∀ cid, Durable before cid → ∀ b ∈ content.dag.blocks cid,
    content.dag.Protects before.pins b
  kept : ∀ cid, Durable before cid → ∀ b ∈ content.dag.blocks cid,
    b ∈ before.blocks → b ∈ after.blocks

/-- Every collection of the history is safe. -/
def CollectsSafely (content : Content Cid) (h : History Unit Cid) : Prop :=
  ∀ t before r after, .request t (.run .collectBlocks) before r after ∈ h →
    SafeCollection content before after

/-- Nothing was unpinned and nothing was deleted. -/
def NothingLost (w w' : World Cid) : Prop :=
  w.pins ⊆ w'.pins ∧ w.blocks ⊆ w'.blocks

def GcRunOptions.planAt (options : GcRunOptions) (w : World Cid) : GcPlan Cid :=
  options.plan { records := w.files.entries, proc := w.proc }

/-- The run gets as far as deleting blocks when nothing fails. -/
def ReachesCollection (content : Content Cid) (options : GcRunOptions) (w : World Cid) : Prop :=
  options.dryRun = false ∧ (options.force || (options.planAt w).shouldCollect) = true ∧
    ∀ cid, Durable w cid →
      content.dag.Protects w.pins cid ∨ content.dag.Complete w.blocks cid

/-- Some pin that protects the file survives the release: a pin of a file that
is not released, or one the check is going to make. -/
def SurvivesRelease (content : Content Cid) (options : GcRunOptions) (w : World Cid)
    (cid : Cid) : Prop :=
  (∃ p ∈ w.pins, p ∉ (options.planAt w).released.map (·.cid) ∧ cid ∈ content.dag.blocks p) ∨
    ∃ q, Durable w q ∧ ¬ content.dag.Protects w.pins q ∧ cid ∈ content.dag.blocks q

/-- Where blocks are deleted, every durable file found protected stays so. -/
def ProtectionSurvives (content : Content Cid) (options : GcRunOptions) (w : World Cid) : Prop :=
  ReachesCollection content options w → ∀ cid, Durable w cid →
    content.dag.Protects w.pins cid → SurvivesRelease content options w cid

variable {content : Content Cid} {faults : Faults Cid} {options : GcRunOptions}
variable {w w' : World Cid} {h : History Unit Cid}

theorem CollectsSafely.snoc {o : LocalOp Cid} {r : Except (LifecycleError Cid) o.Ret}
    (hh : CollectsSafely content h) (ho : o ≠ .collectBlocks) :
    CollectsSafely content (h ++ [.request () (.run o) w r w']) := by
  intro t before r' after hmem
  rcases List.mem_append.mp hmem with hmem | hmem
  · exact hh t before r' after hmem
  · rw [List.mem_singleton] at hmem
    injection hmem with _ hop
    injection hop with hop
    exact absurd hop.symm ho

/-- A file the plan releases is not durable. -/
theorem not_mem_released_of_durable {cid : Cid} (hd : Durable w cid) :
    cid ∉ (options.planAt w).released.map (·.cid) := by
  intro hmem
  obtain ⟨record, hrec, rfl⟩ := List.mem_map.mp hmem
  obtain ⟨hentry, hstate, -⟩ := mem_released hrec
  obtain ⟨record', hget, hstate', -⟩ := hd
  rw [Registry.get_of_mem hentry] at hget
  cases hget
  exact hstate hstate'

/-- Every durable file is checked. -/
theorem exists_heldConfirmed_of_durable {cid : Cid} (hd : Durable w cid) :
    ∃ record ∈ (options.planAt w).heldConfirmed, record.cid = cid := by
  obtain ⟨record, hget, hstate, hheld⟩ := hd
  exact ⟨record, mem_heldConfirmed.mpr ⟨Registry.mem_of_get hget, hstate, hheld⟩,
    Registry.cid_of_get hget⟩

/-! ## The phases -/

theorem wp_scanRegistry
    {Q : Except (LifecycleError Cid) (RegistryScan Cid) → World Cid → Prop}
    (hok : Q (.ok { records := w.files.entries, proc := w.proc }) w)
    (herr : Q (.error .io) w) :
    Prog.wp (storeSem content faults) (LocalOp.body .scanRegistry) Q w := by
  refine Prog.wp_bind.mpr (wp_request ?_ (fun _ => herr) nofun)
  exact Prog.wp_bind.mpr (wp_process hok)

/-- What the check of a list of pins comes to. -/
structure Checked (content : Content Cid) (dryRun : Bool) (records : List (FileRecord Cid))
    (w : World Cid) (h : History Unit Cid) (check : PinCheck Cid)
    (s : World Cid × History Unit Cid) : Prop where
  steps : GuardSteps content w s.1
  history : CollectsSafely content h → CollectsSafely content s.2
  protects : dryRun = false → check.unprotected = [] → ∀ record ∈ records,
    Durable w record.cid → content.dag.Protects s.1.pins record.cid ∧
      (¬ content.dag.Protects w.pins record.cid → content.dag.Complete w.blocks record.cid)

theorem wp_checkPins (dryRun : Bool) (records : List (FileRecord Cid)) (w : World Cid)
    (h : History Unit Cid) :
    Prog.wp (Prog.Pool.traced (nodeSem content faults) ()) (checkPins dryRun records)
      (fun r s => ∃ check, r = .ok check ∧ Checked content dryRun records w h check s)
      (w, h) := by
  induction records generalizing w h with
  | nil => exact ⟨_, rfl, .refl w, fun hh => hh, fun _ _ _ => nofun⟩
  | cons record rest ih =>
      refine Prog.wp_bind.mpr (Prog.wp_attempt.mpr ?_)
      -- what one check does, dry or not
      have hone : Prog.wp (Prog.Pool.traced (nodeSem content faults) ())
          (checkPin dryRun record.cid) (fun r s => GuardSteps content w s.1 ∧
            (CollectsSafely content h → CollectsSafely content s.2) ∧
            (dryRun = false → Guarded content record.cid w r s.1)) (w, h) := by
        unfold checkPin
        cases dryRun with
        | true =>
            refine Prog.wp_bind.mpr (wp_locked.mpr (wp_isProtected ?_ ?_)) <;>
              exact ⟨.refl w, fun hh => hh.snoc nofun, nofun⟩
        | false =>
            refine wp_locked.mpr (wp_of_anyFault (Prog.wp_mono ?_ (wp_guardPin record.cid w)))
            exact fun r w' hg => ⟨hg.steps, fun hh => hh.snoc nofun, fun _ => hg⟩
      refine Prog.wp_mono ?_ hone
      rintro repaired ⟨w₁, h₁⟩ ⟨hsteps, hhist, hguarded⟩
      refine Prog.wp_bind.mpr (Prog.wp_mono ?_ (ih w₁ h₁))
      rintro _ ⟨w₂, h₂⟩ ⟨check, rfl, hcheck⟩
      refine ⟨check.add record.cid repaired, rfl, hsteps.trans hcheck.steps,
        fun hh => hcheck.history (hhist hh), fun hdry hnone => ?_⟩
      obtain ⟨b, rfl⟩ : ∃ b, repaired = .ok b := by
        cases repaired with
        | error err => cases hnone
        | ok b => exact ⟨b, rfl⟩
      have hrest : check.unprotected = [] := by
        cases b <;> exact hnone
      have hguarded := hguarded hdry
      rw [List.forall_mem_cons]
      refine ⟨fun hd => ⟨?_, hguarded.fails b rfl hd⟩, fun other hmem hd => ?_⟩
      · exact (hguarded.protects b rfl hd).mono hcheck.steps.pins
      · obtain ⟨hprot, hlocal⟩ := hcheck.protects hdry hrest other hmem
          ((hsteps.durable_iff _).mpr hd)
        refine ⟨hprot, fun hnot => ?_⟩
        by_cases hnot₁ : content.dag.Protects w₁.pins other.cid
        · -- a check before this one pinned a file above it
          obtain ⟨p, hp, hbelow⟩ := hnot₁
          rcases hsteps.added p hp with hp | ⟨-, -, hcomplete⟩
          · exact absurd ⟨p, hp, hbelow⟩ hnot
          · exact (content.dag.closed hbelow).trans hcomplete
        · have := hlocal hnot₁
          rwa [hsteps.blocks] at this

theorem wp_releaseEach {released : List Cid} {records : List (FileRecord Cid)}
    (hreleased : ∀ record ∈ records, record.cid ∈ released) {w₁ : World Cid}
    (hw : (releasePolicy w released).Holds w₁) (h : History Unit Cid) :
    Prog.wp (Prog.Pool.traced (nodeSem content faults) ()) (releaseEach records)
      (fun r s => (∃ result, r = .ok result) ∧ (releasePolicy w released).Holds s.1 ∧
        (CollectsSafely content h → CollectsSafely content s.2)) (w₁, h) := by
  induction records generalizing w₁ h with
  | nil => exact ⟨⟨_, rfl⟩, hw, fun hh => hh⟩
  | cons record rest ih =>
      rw [List.forall_mem_cons] at hreleased
      refine Prog.wp_bind.mpr (Prog.wp_attempt.mpr (wp_locked.mpr (wp_of_anyFault ?_)))
      refine Prog.wp_mono ?_ (Keeps.wp (safe_releasePlanned_releasePolicy hreleased.1) hw)
      rintro r w₂ ⟨hw₂, -⟩
      refine Prog.wp_bind.mpr (Prog.wp_mono ?_ (ih hreleased.2 hw₂ _))
      rintro _ s ⟨⟨⟨records, errors⟩, rfl⟩, hs, hh⟩
      have hdone : ∀ result : List (FileRecord Cid) × List (GcError Cid),
          (∃ res, (Except.ok result : Except (LifecycleError Cid) _) = .ok res) ∧
            (releasePolicy w released).Holds s.1 ∧
            (CollectsSafely content h → CollectsSafely content s.2) :=
        fun result => ⟨⟨result, rfl⟩, hs, fun hc => hh (hc.snoc nofun)⟩
      cases r with
      | error err => exact hdone _
      | ok stored => cases stored <;> exact hdone _

/-- The events of a history stay while the records are cleaned up. -/
theorem wp_cleanupEach (records : List (FileRecord Cid)) (w : World Cid)
    (h : History Unit Cid) :
    Prog.wp (Prog.Pool.traced (nodeSem content faults) ()) (cleanupEach records)
      (fun r s => (∃ errors, r = .ok errors) ∧ (∀ e ∈ h, e ∈ s.2) ∧
        (CollectsSafely content h → CollectsSafely content s.2)) (w, h) := by
  induction records generalizing w h with
  | nil => exact ⟨⟨_, rfl⟩, fun _ he => he, fun hh => hh⟩
  | cons record rest ih =>
      refine Prog.wp_bind.mpr (Prog.wp_attempt.mpr (wp_locked.mpr ?_))
      refine Prog.wp_iff_runs.mpr fun r w₁ _ => ?_
      refine Prog.wp_bind.mpr (Prog.wp_mono ?_ (ih w₁ _))
      rintro _ s ⟨⟨errors, rfl⟩, hmem, hh⟩
      have hdone : ∀ result : List (GcError Cid),
          (∃ errors, (Except.ok result : Except (LifecycleError Cid) _) = .ok errors) ∧
            (∀ e ∈ h, e ∈ s.2) ∧ (CollectsSafely content h → CollectsSafely content s.2) :=
        fun result => ⟨⟨result, rfl⟩, fun e he => hmem e (List.mem_append_left _ he),
          fun hc => hh (hc.snoc nofun)⟩
      cases r <;> exact hdone _

/-! ## Durable content is kept -/

/-- What protected a durable file before the release still does after it. -/
theorem protects_after_release {w₁ w₂ : World Cid} (hsteps : GuardSteps content w w₁)
    (hrelease : (releasePolicy w₁ ((options.planAt w).released.map (·.cid))).Holds w₂)
    (hprot₁ : ∀ cid, Durable w cid → content.dag.Protects w₁.pins cid)
    (hsurvives : ∀ cid, Durable w cid → content.dag.Protects w.pins cid →
      SurvivesRelease content options w cid) {cid : Cid} (hd : Durable w₂ cid) :
    content.dag.Protects w₂.pins cid := by
  have hd : Durable w cid := by
    obtain ⟨record, hget, hstate, hheld⟩ := hd
    exact (hsteps.durable_iff cid).mp (hrelease.record cid record hget hstate hheld)
  -- a durable file that had no protection is below a pin the check made
  have hnew : ∀ q, Durable w q → ¬ content.dag.Protects w.pins q → cid ∈ content.dag.blocks q →
      content.dag.Protects w₂.pins cid := by
    intro q hq hnot hbelow
    obtain ⟨p, hp, hqp⟩ := hprot₁ q hq
    rcases hsteps.added p hp with hold | ⟨hdp, -, -⟩
    · exact absurd ⟨p, hold, hqp⟩ hnot
    · exact ⟨p, hrelease.pin p ⟨hp, not_mem_released_of_durable hdp⟩,
        content.dag.closed hqp hbelow⟩
  by_cases hprot : content.dag.Protects w.pins cid
  · rcases hsurvives cid hd hprot with ⟨p, hp, hkept, hbelow⟩ | ⟨q, hq, hnot, hbelow⟩
    · exact ⟨p, hrelease.pin p ⟨hsteps.pins hp, hkept⟩, hbelow⟩
    · exact hnew q hq hnot hbelow
  · exact hnew cid hd hprot (content.dag.root_mem cid)

/-- A collection that starts with durable content protected is safe. -/
theorem safeCollection_of_protects (hprot : ∀ cid, Durable w cid → content.dag.Protects w.pins cid)
    (hafter : w' = w ∨ w' = (StoreOp.effect content .gc w).2) :
    SafeCollection content w w' := by
  refine ⟨fun cid hd b hb => (hprot cid hd).below hb, fun cid hd b hb hpresent => ?_⟩
  rcases hafter with rfl | rfl
  · exact hpresent
  · refine Finset.mem_union_left _ (Finset.mem_filter.mpr ⟨hpresent, ?_⟩)
    exact (hprot cid hd).below hb

theorem wp_collectReleased (released : List (FileRecord Cid)) (report : GcReport Cid)
    (hprot : ∀ cid, Durable w cid → content.dag.Protects w.pins cid)
    (hh : CollectsSafely content h) :
    Prog.wp (Prog.Pool.traced (nodeSem content faults) ()) (collectReleased released report)
      (fun r s => (∀ report', r = .ok report' → report'.unprotected = report.unprotected) ∧
        CollectsSafely content s.2) (w, h) := by
  have hevent : ∀ r w', (w' = w ∨ w' = (StoreOp.effect content .gc w).2) →
      CollectsSafely content (h ++ [.request () (.run .collectBlocks) w r w']) := by
    intro r w' hafter t before r' after hmem
    rcases List.mem_append.mp hmem with hmem | hmem
    · exact hh t before r' after hmem
    · rw [List.mem_singleton] at hmem
      cases hmem
      exact safeCollection_of_protects hprot hafter
  refine Prog.wp_bind.mpr (wp_locked.mpr (wp_request ?_ (fun _ => ?_) nofun))
  · have hserved := hevent (StoreOp.effect content .gc w).1 _ (.inr rfl)
    show Prog.wp _ (if _ then _ else _) _ _
    split
    · exact ⟨fun _ heq => by cases heq; rfl, hserved⟩
    · refine Prog.wp_bind.mpr (Prog.wp_mono ?_ (wp_cleanupEach released _ _))
      rintro _ s ⟨⟨errors, rfl⟩, -, hsafe⟩
      exact ⟨fun _ heq => by cases heq; rfl, hsafe hserved⟩
  · exact ⟨fun _ => nofun, hevent _ _ (.inl rfl)⟩

/-- Where protection survives, no run loses durable content, and a run that
could not establish protection loses nothing at all. -/
theorem wp_runGarbageCollection (hsurvives : ProtectionSurvives content options w) :
    Prog.wp (Prog.Pool.traced (nodeSem content faults) ()) (runGarbageCollection options)
      (fun r s => CollectsSafely content s.2 ∧ ∀ report, r = .ok report →
        report.unprotected ≠ [] → NothingLost w s.1) (w, []) := by
  have hempty : CollectsSafely content ([] : History Unit Cid) := fun _ _ _ _ => by simp
  refine Prog.wp_bind.mpr (wp_locked.mpr (wp_scanRegistry ?_ ?_))
  swap
  · exact ⟨hempty.snoc nofun, fun _ => nofun⟩
  have hh₁ : CollectsSafely content ([] ++ [.request () (.run .scanRegistry) w
      (.ok { records := w.files.entries, proc := w.proc }) w]) := hempty.snoc nofun
  refine Prog.wp_bind.mpr (Prog.wp_mono ?_ (wp_checkPins options.dryRun _ w _))
  rintro _ ⟨w₁, h₁⟩ ⟨check, rfl, hcheck⟩
  have hh₁ := hcheck.history hh₁
  have hkept : NothingLost w w₁ :=
    ⟨hcheck.steps.pins, fun b hb => by rw [hcheck.steps.blocks]; exact hb⟩
  show Prog.wp _ (applyPlan (options.planAt w) options _) _ _
  unfold applyPlan
  split
  · exact ⟨hh₁, fun _ _ _ => hkept⟩
  · rename_i hdry
    have hdry : options.dryRun = false := by simpa using hdry
    split
    · exact ⟨hh₁, fun _ _ _ => hkept⟩
    · rename_i hnone
      have hnone : check.unprotected = [] := by simpa [GcPlan.report] using hnone
      have hheld := hcheck.protects hdry hnone
      have hprot₁ : ∀ cid, Durable w cid → content.dag.Protects w₁.pins cid ∧
          (¬ content.dag.Protects w.pins cid → content.dag.Complete w.blocks cid) := by
        intro cid hd
        have hchecked : ∃ record ∈ (options.planAt w).heldConfirmed, record.cid = cid :=
          exists_heldConfirmed_of_durable hd
        obtain ⟨record, hmem, rfl⟩ := hchecked
        exact hheld record hmem hd
      refine Prog.wp_bind.mpr (Prog.wp_mono ?_ (wp_releaseEach
        (fun record hmem => List.mem_map_of_mem hmem) (holds_releasePolicy w₁ _) h₁))
      rintro _ ⟨w₂, h₂⟩ ⟨⟨⟨released, errors⟩, rfl⟩, hrelease, hh₂⟩
      show Prog.wp _ (if _ then _ else _) _ _
      split
      · exact ⟨hh₂ hh₁, fun _ heq hne => by cases heq; exact absurd hnone hne⟩
      · rename_i hcollect
        have hreaches : ReachesCollection content options w := by
          refine ⟨hdry, by rwa [Bool.not_eq_true', Bool.not_eq_false] at hcollect,
            fun cid hd => ?_⟩
          by_cases hprot : content.dag.Protects w.pins cid
          · exact .inl hprot
          · exact .inr ((hprot₁ cid hd).2 hprot)
        have hprot₂ : ∀ cid, Durable w₂ cid → content.dag.Protects w₂.pins cid :=
          fun cid hd => protects_after_release hcheck.steps hrelease
            (fun cid hd => (hprot₁ cid hd).1) (hsurvives hreaches) hd
        refine Prog.wp_mono ?_ (wp_collectReleased released _ hprot₂ (hh₂ hh₁))
        rintro r s ⟨hreport, hsafe⟩
        refine ⟨hsafe, fun report heq hne => absurd ?_ hne⟩
        rw [hreport report heq]
        exact hnone

/-! ## Durable content is lost -/

theorem wp_checkPins_noFault {records : List (FileRecord Cid)}
    (hrecords : ∀ record ∈ records, Durable w record.cid →
      content.dag.Protects w.pins record.cid ∨ content.dag.Complete w.blocks record.cid) :
    Prog.wp (Prog.Pool.traced (nodeSem content noFault) ()) (checkPins false records)
      (fun r s => ∃ check, r = .ok check ∧ GuardSteps content w s.1 ∧ check.unprotected = [])
      (w, h) := by
  induction records generalizing w h with
  | nil => exact ⟨_, rfl, .refl w, rfl⟩
  | cons record rest ih =>
      rw [List.forall_mem_cons] at hrecords
      have hok : Prog.wp (storeSem content noFault) (guardPin record.cid)
          (fun r _ => ∃ b, r = .ok b) w := wp_noFault.mpr (run_guardPin hrecords.1)
      have hone := Prog.wp_and (wp_of_anyFault (wp_guardPin record.cid w)) hok
      refine Prog.wp_bind.mpr (Prog.wp_attempt.mpr (wp_locked.mpr (Prog.wp_mono ?_ hone)))
      rintro _ w₁ ⟨hguarded, b, rfl⟩
      have hsteps := hguarded.steps
      have hrest : ∀ record ∈ rest, Durable w₁ record.cid →
          content.dag.Protects w₁.pins record.cid
            ∨ content.dag.Complete w₁.blocks record.cid := by
        intro other hmem hd
        rw [hsteps.blocks]
        refine (hrecords.2 other hmem ((hsteps.durable_iff _).mp hd)).imp_left ?_
        exact fun hprot => hprot.mono hsteps.pins
      refine Prog.wp_bind.mpr (Prog.wp_mono ?_ (ih hrest))
      rintro _ s ⟨check, rfl, hcheck, hnone⟩
      refine ⟨check.add record.cid (.ok b), rfl, hsteps.trans hcheck, ?_⟩
      cases b <;> exact hnone

/-- What a release of the list comes to when nothing fails. -/
structure ReleasedAll (records : List (FileRecord Cid)) (w w' : World Cid) : Prop where
  pins : w'.pins ⊆ w.pins
  released : ∀ record ∈ records, record.cid ∉ w'.pins
  others : ∀ cid, cid ∉ records.map (·.cid) → w'.files.get cid = w.files.get cid

theorem wp_releaseEach_noFault {records : List (FileRecord Cid)}
    (hrecords : ∀ record ∈ records, record.state ≠ .confirmed ∧
      isAdmissionInFlight w.proc record = false ∧
      (w.files.get record.cid = some record ∨ record.cid ∉ w.pins)) :
    Prog.wp (Prog.Pool.traced (nodeSem content noFault) ()) (releaseEach records)
      (fun r s => (∃ result, r = .ok result) ∧ ReleasedAll records w s.1) (w, h) := by
  induction records generalizing w h with
  | nil => exact ⟨⟨_, rfl⟩, fun _ hp => hp, by simp, fun _ _ => rfl⟩
  | cons record rest ih =>
      rw [List.forall_mem_cons] at hrecords
      obtain ⟨⟨hstate, hflight, hread⟩, hrest⟩ := hrecords
      have hone : Prog.wp (storeSem content noFault) (releasePlanned record)
          (fun _ w' => ReleaseRun record w w') w := wp_noFault.mpr (run_releasePlanned record w)
      refine Prog.wp_bind.mpr (Prog.wp_attempt.mpr (wp_locked.mpr (Prog.wp_mono ?_ hone)))
      intro r w₁ hrun
      have hgone : record.cid ∉ w₁.pins := by
        rcases hread with hget | hnot
        · exact hrun.released hget hstate hflight
        · exact fun hmem => hnot (hrun.pins hmem)
      refine Prog.wp_bind.mpr (Prog.wp_mono ?_ (ih ?_))
      · rintro _ s ⟨⟨⟨records, errors⟩, rfl⟩, hall⟩
        have hreleased : ReleasedAll (record :: rest) w s.1 := by
          refine ⟨hall.pins.trans hrun.pins, ?_, fun cid hnot => ?_⟩
          · rw [List.forall_mem_cons]
            exact ⟨fun hmem => hgone (hall.pins hmem), hall.released⟩
          · rw [List.map_cons, List.mem_cons, not_or] at hnot
            rw [hall.others cid hnot.2, hrun.others cid hnot.1]
        cases r with
        | error err => exact ⟨⟨_, rfl⟩, hreleased⟩
        | ok stored => cases stored <;> exact ⟨⟨_, rfl⟩, hreleased⟩
      · intro other hmem
        obtain ⟨hstate', hflight', hread'⟩ := hrest other hmem
        refine ⟨hstate', by rw [hrun.proc]; exact hflight', ?_⟩
        by_cases hcid : other.cid = record.cid
        · exact .inr (hcid ▸ hgone)
        · rw [hrun.others other.cid hcid]
          exact hread'.imp_right fun hnot hmem => hnot (hrun.pins hmem)

theorem wp_collectReleased_noFault (released : List (FileRecord Cid)) (report : GcReport Cid) :
    Prog.wp (Prog.Pool.traced (nodeSem content noFault) ()) (collectReleased released report)
      (fun _ s => ∃ r after, .request () (.run .collectBlocks) w r after ∈ s.2) (w, h) := by
  refine Prog.wp_bind.mpr (wp_locked.mpr (wp_noFault.mpr ?_))
  show Prog.wp _ (if _ then _ else _) _ _
  split
  · exact ⟨_, _, List.mem_append_right _ List.mem_cons_self⟩
  · refine Prog.wp_bind.mpr (Prog.wp_mono ?_ (wp_cleanupEach released _ _))
    rintro _ s ⟨⟨errors, rfl⟩, hmem, -⟩
    exact ⟨_, _, hmem _ (List.mem_append_right _ List.mem_cons_self)⟩

/-- Where protection does not survive, a run in which nothing fails deletes
with durable content unprotected. -/
theorem exists_unsafe_run (hnot : ¬ ProtectionSurvives content options w) :
    ∃ r s, Prog.Runs (Prog.Pool.traced (nodeSem content noFault) ())
      (runGarbageCollection options) (w, []) r s ∧ ¬ CollectsSafely content s.2 := by
  obtain ⟨⟨hdry, hcollect, hlocal⟩, cid, hd, hprot, hlost⟩ :
      ReachesCollection content options w ∧ ∃ cid, Durable w cid ∧
        content.dag.Protects w.pins cid ∧ ¬ SurvivesRelease content options w cid := by
    unfold ProtectionSurvives at hnot
    push Not at hnot
    exact hnot
  have hwp : Prog.wp (Prog.Pool.traced (nodeSem content noFault) ())
      (runGarbageCollection options) (fun _ s => ¬ CollectsSafely content s.2) (w, []) := by
    refine Prog.wp_bind.mpr (wp_locked.mpr (wp_noFault.mpr ?_))
    refine Prog.wp_bind.mpr ?_
    rw [hdry]
    refine Prog.wp_mono ?_ (wp_checkPins_noFault fun record _ hd => hlocal record.cid hd)
    rintro _ ⟨w₁, h₁⟩ ⟨check, rfl, hsteps, hnone⟩
    have hsteps : GuardSteps content w w₁ := hsteps
    show Prog.wp _ (applyPlan (options.planAt w) options _) _ _
    unfold applyPlan
    rw [if_neg (by simp [hdry]), if_neg (by simp [GcPlan.report, hnone])]
    refine Prog.wp_bind.mpr (Prog.wp_mono ?_ (wp_releaseEach_noFault fun record hmem => ?_))
    · rintro _ ⟨w₂, h₂⟩ ⟨⟨⟨released, errors⟩, rfl⟩, hall⟩
      show Prog.wp _ (if _ then _ else _) _ _
      rw [if_neg (by simp [hcollect])]
      refine Prog.wp_mono ?_ (wp_collectReleased_noFault released _)
      rintro _ s ⟨r, after, hevent⟩ hsafe
      have hcidkept : cid ∉ (options.planAt w).released.map (·.cid) :=
        not_mem_released_of_durable hd
      have hd₂ : Durable w₂ cid := by
        have hd₁ := (hsteps.durable_iff cid).mpr hd
        unfold Durable
        rw [hall.others cid hcidkept]
        exact hd₁
      obtain ⟨p, hp, hbelow⟩ :=
        (hsafe () w₂ r after hevent).protects cid hd₂ cid (content.dag.root_mem cid)
      refine hlost ?_
      rcases hsteps.added p (hall.pins hp) with hold | ⟨hdp, hnew, -⟩
      · refine .inl ⟨p, hold, fun hmem => ?_, hbelow⟩
        obtain ⟨record, hrec, rfl⟩ := List.mem_map.mp hmem
        exact hall.released record hrec hp
      · exact .inr ⟨p, hdp, hnew, hbelow⟩
    · obtain ⟨hentry, hstate, hflight⟩ := mem_released hmem
      refine ⟨hstate, by rw [hsteps.proc]; exact hflight, .inl ?_⟩
      have hget := Registry.get_of_mem hentry
      rcases hsteps.record record.cid with heq | ⟨⟨record', hget', hstate', -⟩, -⟩
      · rw [heq, hget]
      · rw [hget] at hget'
        cases hget'
        exact absurd hstate' hstate
  have htotal : ∀ (o : NodeOp Cid) (s : World Cid × History Unit Cid),
      ∃ r s', Prog.Pool.traced (nodeSem content noFault) () o s r s' := by
    intro o s
    obtain ⟨r, w', hstep⟩ := nodeSem_total content noFault o s.1
    exact ⟨r, (w', s.2 ++ [.request () o s.1 r w']), hstep, rfl⟩
  obtain ⟨r, s, hruns⟩ := Prog.exists_runs htotal (runGarbageCollection options) (w, [])
  exact ⟨r, s, hruns, Prog.wp_iff_runs.mp hwp r s hruns⟩

/-- A run keeps durable content, and one that could not establish protection
loses nothing, exactly where protection survives the release. -/
theorem collection_safe_iff (content : Content Cid) (faults : Faults Cid)
    (options : GcRunOptions) (w : World Cid) :
    (∀ r s, Prog.Runs (Prog.Pool.traced (nodeSem content faults) ())
        (runGarbageCollection options) (w, []) r s →
      CollectsSafely content s.2 ∧
        ∀ report, r = .ok report → report.unprotected ≠ [] → NothingLost w s.1) ↔
      ProtectionSurvives content options w := by
  constructor
  · intro hsafe
    by_contra hnot
    obtain ⟨r, s, hruns, hunsafe⟩ := exists_unsafe_run hnot
    have hruns := hruns.mono fun o s r s' (hstep : Prog.Pool.traced _ _ o s r s') =>
      (⟨nodeSem_noFault hstep.1, hstep.2⟩ :
        Prog.Pool.traced (nodeSem content faults) () o s r s')
    exact hunsafe (hsafe r s hruns).1
  · exact fun hsurvives => Prog.wp_iff_runs.mp (wp_runGarbageCollection hsurvives)

end Safety

/-! ## A confirmed file inside a temporary one -/

namespace SharedBlocks

/-- The file `inner` is a block of the file `outer`. -/
def content : Content String where
  dag :=
    { blocks := fun r => if r = "outer" then {"outer", "inner"} else {r}
      root_mem := fun r => by split <;> simp_all
      closed := by
        intro r b hb
        by_cases hr : r = "outer"
        · subst hr
          by_cases hbo : b = "outer" <;> simp_all
        · have : b = r := by simpa [hr] using hb
          rw [this] }
  size := fun _ => 1
  deduplicatedDagSize := fun _ => 1

def file (cid : String) (state : FileState) (expiresAt : Option Nat) : FileRecord String :=
  { cid, name := cid, state, createdAt := 0, expiresAt, confirmedAt := none
    fileSize := 1, storedBytes := 1, protectedBytes := none, pinned := true
    heldLocally := true, replicas := [], admissionId := none, admissionSettledAt := none
    replicaStage := none, revision := some 0 }

/-- `outer` is pinned and its time is over; `inner` is durable, and its own pin
is missing. -/
def node : World String where
  files :=
    { entries := [file "outer" .temporary (some 5), file "inner" .confirmed none]
      keyed := by decide
      valid := by decide }
  pinIntents := ∅
  pins := {"outer"}
  blocks := {"outer", "inner"}
  undeletable := ∅
  nextRevision := 1
  issued := ∅
  proc := Process.fresh

def options : GcRunOptions where
  measures := ⟨2, none, ⟨10, 5⟩, none, none⟩
  now := 10
  force := true
  dryRun := false

end SharedBlocks

open SharedBlocks in
/-- The forced run finds `inner` protected by the pin of `outer`, releases
`outer` and deletes both. -/
theorem sharedBlocks_unsafe :
    ∃ r s, Prog.Runs (Prog.Pool.traced (nodeSem SharedBlocks.content noFault) ())
      (runGarbageCollection SharedBlocks.options) (SharedBlocks.node, []) r s ∧
      ¬ CollectsSafely SharedBlocks.content s.2 := by
  refine exists_unsafe_run fun hsurvives => ?_
  have hinner : Durable node "inner" := ⟨file "inner" .confirmed none, rfl, rfl, rfl⟩
  have hprotected : content.dag.Protects node.pins "inner" := by decide
  have hdurable : ∀ cid, Durable node cid → cid = "inner" := by
    rintro cid ⟨record, hget, hstate, -⟩
    have hmem := Registry.mem_of_get hget
    have hcid := Registry.cid_of_get hget
    simp only [node, List.mem_cons, List.not_mem_nil, or_false] at hmem
    rcases hmem with rfl | rfl
    · cases hstate
    · exact hcid.symm
  have hreaches : ReachesCollection content options node :=
    ⟨rfl, rfl, fun cid hd => .inl (hdurable cid hd ▸ hprotected)⟩
  rcases hsurvives hreaches "inner" hinner hprotected with ⟨p, hp, hkept, -⟩ | ⟨q, hq, hnot, -⟩
  · obtain rfl : p = "outer" := Finset.mem_singleton.mp hp
    exact hkept (by decide)
  · exact hnot (hdurable q hq ▸ hprotected)

end IpfsNode
