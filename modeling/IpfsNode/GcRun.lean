import IpfsNode.Operations
import IpfsNode.Execution

/-!
# A garbage collection run

`runGarbageCollection` scans the registry once, plans, and applies the plan in
three phases with anything in between: it checks the pins of confirmed files,
releases what was planned, and removes the records of what it released after
Helia deleted the unprotected blocks.

`GuardSteps` is what the first phase can do to a node and `ReleaseSteps` what
the second can, whatever fails.
-/

namespace IpfsNode

structure GcRunOptions where
  measures : GcMeasures
  now : Nat
  /-- Collect whatever the watermarks say. -/
  force : Bool
  dryRun : Bool
deriving DecidableEq, Repr

inductive GcError (Cid : Type) where
  | pinCheck (cid : Cid) (err : LifecycleError Cid)
  | release (cid : Cid) (err : LifecycleError Cid)
  /-- A block that could not be deleted. -/
  | deletion
  | cleanup (cid : Cid) (err : LifecycleError Cid)

structure GcReport (Cid : Type) where
  dryRun : Bool
  collected : Bool
  trigger : CollectionTrigger
  blockstoreBytesBefore : Nat
  estimatedBytesAfter : Nat
  releasedCids : List Cid
  retainedCids : List Cid
  repairedPins : List Cid
  unprotected : List Cid
  errors : List (GcError Cid)

section Jobs

variable {Cid : Type}

/-- What the check of the pins found. -/
structure PinCheck (Cid : Type) where
  repairedPins : List Cid
  unprotected : List Cid
  errors : List (GcError Cid)

/-- Check one pin; `true` when it was missing. A dry run only looks. -/
def checkPin (dryRun : Bool) (cid : Cid) : Job Cid Bool :=
  if dryRun then do
    let isSafe ← locked (.isProtected cid)
    pure !isSafe
  else locked (.guardPin cid)

def PinCheck.add (check : PinCheck Cid) (cid : Cid)
    (repaired : Except (LifecycleError Cid) Bool) : PinCheck Cid :=
  match repaired with
  | .ok true => { check with repairedPins := cid :: check.repairedPins }
  | .ok false => check
  | .error err => { check with
      unprotected := cid :: check.unprotected
      errors := .pinCheck cid err :: check.errors }

def checkPins (dryRun : Bool) : List (FileRecord Cid) → Job Cid (PinCheck Cid)
  | [] => pure { repairedPins := [], unprotected := [], errors := [] }
  | record :: rest => do
      let repaired ← Prog.attempt (checkPin dryRun record.cid)
      let check ← checkPins dryRun rest
      pure (check.add record.cid repaired)

/-- Release the planned files; the records it stored, and what went wrong. -/
def releaseEach :
    List (FileRecord Cid) → Job Cid (List (FileRecord Cid) × List (GcError Cid))
  | [] => pure ([], [])
  | record :: rest => do
      let released ← Prog.attempt (locked (.releasePlanned record))
      let (records, errors) ← releaseEach rest
      match released with
      | .ok (some stored) => pure (stored :: records, errors)
      | .ok none => pure (records, errors)
      | .error err => pure (records, .release record.cid err :: errors)

def cleanupEach : List (FileRecord Cid) → Job Cid (List (GcError Cid))
  | [] => pure []
  | record :: rest => do
      let removed ← Prog.attempt (locked (.cleanupReleased record))
      let errors ← cleanupEach rest
      match removed with
      | .ok _ => pure errors
      | .error err => pure (.cleanup record.cid err :: errors)

variable [DecidableEq Cid]

def GcPlan.report (plan : GcPlan Cid) (options : GcRunOptions) (check : PinCheck Cid) :
    GcReport Cid :=
  { dryRun := options.dryRun
    collected := false
    trigger := if options.force then .forced else plan.trigger
    blockstoreBytesBefore := options.measures.blockstoreBytes
    estimatedBytesAfter := plan.estimatedBytesAfter
    releasedCids := plan.released.map (·.cid)
    retainedCids := plan.retained.map (·.cid)
    repairedPins := check.repairedPins
    unprotected := check.unprotected
    errors := check.errors }

/-- Delete what nothing protects, and forget the files that were released. -/
def collectReleased (released : List (FileRecord Cid)) (report : GcReport Cid) :
    Job Cid (GcReport Cid) := do
  let deletionErrors : Nat ← locked .collectBlocks
  let errors := report.errors ++ List.replicate deletionErrors .deletion
  -- every record is kept for the next run when a block is left
  if deletionErrors ≠ 0 then pure { report with errors }
  else do
    let cleanupErrors ← cleanupEach released
    let errors := errors ++ cleanupErrors
    pure { report with errors, collected := errors.isEmpty }

/-- The phases that follow the check of the pins. -/
def applyPlan (plan : GcPlan Cid) (options : GcRunOptions) (report : GcReport Cid) :
    Job Cid (GcReport Cid) := do
  if options.dryRun then pure report
  -- nothing is unpinned until every confirmed file is known to be protected
  else if !report.unprotected.isEmpty then pure report
  else do
    let (released, errors) ← releaseEach plan.released
    let report := { report with
      releasedCids := released.map (·.cid), errors := report.errors ++ errors }
    if !(options.force || plan.shouldCollect) then pure report
    else collectReleased released report

def GcRunOptions.plan (options : GcRunOptions) (scan : RegistryScan Cid) : GcPlan Cid :=
  planGarbageCollection options.measures scan.proc scan.records options.now

def runGarbageCollection (options : GcRunOptions) : Job Cid (GcReport Cid) := do
  let scan ← locked .scanRegistry
  let check ← checkPins options.dryRun (options.plan scan).heldConfirmed
  applyPlan (options.plan scan) options ((options.plan scan).report options check)

end Jobs

/-! ## The check of the pins -/

section Guard

variable {Cid : Type} [DecidableEq Cid] {content : Content Cid}

/-- The record of the CID is confirmed and held by this node. -/
def Durable (w : World Cid) (cid : Cid) : Prop :=
  ∃ record, w.files.get cid = some record ∧ record.state = .confirmed
    ∧ record.heldLocally = true

/-- What checks of pins can do: pin local durable content nothing protects, and
note that it is pinned. -/
structure GuardSteps (content : Content Cid) (w w' : World Cid) : Prop where
  pins : w.pins ⊆ w'.pins
  added : ∀ p ∈ w'.pins, p ∈ w.pins ∨
    (Durable w p ∧ ¬ content.dag.Protects w.pins p ∧ content.dag.Complete w.blocks p)
  blocks : w'.blocks = w.blocks
  proc : w'.proc = w.proc
  record : ∀ cid, w'.files.get cid = w.files.get cid ∨ (Durable w cid ∧ Durable w' cid)

namespace GuardSteps

variable {w w₁ w₂ : World Cid}

theorem refl (w : World Cid) : GuardSteps content w w :=
  ⟨fun _ h => h, fun _ h => .inl h, rfl, rfl, fun _ => .inl rfl⟩

theorem durable_iff (h : GuardSteps content w w₁) (cid : Cid) :
    Durable w₁ cid ↔ Durable w cid := by
  rcases h.record cid with heq | ⟨hd, hd'⟩
  · unfold Durable
    rw [heq]
  · exact iff_of_true hd' hd

theorem trans (h : GuardSteps content w w₁) (h' : GuardSteps content w₁ w₂) :
    GuardSteps content w w₂ where
  pins := h.pins.trans h'.pins
  added := by
    intro p hp
    rcases h'.added p hp with hp | ⟨hd, hnot, hc⟩
    · exact h.added p hp
    · refine .inr ⟨(h.durable_iff p).mp hd, fun hprot => hnot (hprot.mono h.pins), ?_⟩
      rwa [h.blocks] at hc
  blocks := h'.blocks.trans h.blocks
  proc := h'.proc.trans h.proc
  record := by
    intro cid
    rcases h'.record cid with heq | ⟨hd, hd'⟩
    · rw [heq]
      rcases h.record cid with heq | ⟨hd, hd'⟩
      · exact .inl heq
      · refine .inr ⟨hd, ?_⟩
        unfold Durable at hd' ⊢
        rwa [heq]
    · exact .inr ⟨(h.durable_iff cid).mp hd, hd'⟩

/-- One check of unprotected local content: it pins it or takes the pin back,
and may have noted the pin. -/
theorem of_repair {cid : Cid} {current : FileRecord Cid}
    (hget : w.files.get cid = some current) (hdurable : Durable w cid)
    (hnot : ¬ content.dag.Protects w.pins cid) (hlocal : content.dag.Complete w.blocks cid)
    (hpins : w₁.pins = w.pins ∨ w₁.pins = insert cid w.pins) (hblocks : w₁.blocks = w.blocks)
    (hproc : w₁.proc = w.proc)
    (hrecord : ∀ c, w₁.files.get c = w.files.get c ∨
      (c = cid ∧ ∃ n, w₁.files.get c = some ((repinnedRecord current).stamped n))) :
    GuardSteps content w w₁ where
  pins := by
    rcases hpins with heq | heq
    · rw [heq]
    · rw [heq]
      exact Finset.subset_insert _ _
  added := by
    intro p hp
    rcases hpins with heq | heq <;> rw [heq] at hp
    · exact .inl hp
    · rcases Finset.mem_insert.mp hp with rfl | hp
      · exact .inr ⟨hdurable, hnot, hlocal⟩
      · exact .inl hp
  blocks := hblocks
  proc := hproc
  record := by
    intro c
    rcases hrecord c with heq | ⟨rfl, n, heq⟩
    · exact .inl heq
    · obtain ⟨record, hrec, hstate, hheld⟩ := hdurable
      rw [hget] at hrec
      cases hrec
      exact .inr ⟨⟨current, hget, hstate, hheld⟩, _, heq, hstate, hheld⟩

end GuardSteps

/-- What one check of a pin comes to. -/
structure Guarded (content : Content Cid) (cid : Cid) (w : World Cid)
    (r : Except (LifecycleError Cid) Bool) (w' : World Cid) : Prop where
  steps : GuardSteps content w w'
  protects : ∀ b, r = .ok b → Durable w cid → content.dag.Protects w'.pins cid
  fails : ∀ b, r = .ok b → Durable w cid → ¬ content.dag.Protects w.pins cid →
    content.dag.Complete w.blocks cid

theorem Guarded.of_error {cid : Cid} {w w' : World Cid} (h : GuardSteps content w w')
    (err : LifecycleError Cid) : Guarded content cid w (.error err) w' :=
  ⟨h, fun _ => nofun, fun _ => nofun⟩

theorem wp_guardPin (cid : Cid) (w : World Cid) :
    Prog.wp (storeSem content anyFault) (guardPin cid) (Guarded content cid w) w := by
  have hfail : ∀ err, Guarded content cid w (.error err) w := Guarded.of_error (.refl w)
  refine Prog.wp_bind.mpr (wp_get ?_ (hfail _))
  show Prog.wp _ _ _ w
  cases hget : w.files.get cid with
  | none =>
      refine ⟨.refl w, fun _ _ hd => ?_, fun _ _ hd => ?_⟩ <;>
        · obtain ⟨record, hrec, -⟩ := hd
          rw [hget] at hrec
          cases hrec
  | some current =>
      dsimp only
      split
      · rename_i hskip
        have hnot : ¬ Durable w cid := by
          rintro ⟨record, hrec, hstate, hheld⟩
          rw [hget] at hrec
          cases hrec
          simp [hstate, hheld] at hskip
        exact ⟨.refl w, fun _ _ hd => absurd hd hnot, fun _ _ hd => absurd hd hnot⟩
      · rename_i hskip
        have hdurable : Durable w cid := by
          refine ⟨current, hget, ?_, ?_⟩ <;> simp_all
        refine Prog.wp_bind.mpr (wp_isProtected ?_ (hfail _))
        show Prog.wp _ _ _ w
        split
        · rename_i hsafe
          have hsafe := of_decide_eq_true hsafe
          exact ⟨.refl w, fun _ _ _ => hsafe, fun _ _ _ hnot => absurd hsafe hnot⟩
        · rename_i hunsafe
          have hunsafe : ¬ content.dag.Protects w.pins cid := by simpa using hunsafe
          have hpin : cid ∉ w.pins := fun hmem => hunsafe (Dag.protects_of_mem hmem)
          refine Prog.wp_bind.mpr (wp_hasLocalDag (fun hlocal => ?_) ?_)
          · show Prog.wp _ _ _ w
            have hblocks : (w.pin content cid).blocks = w.blocks := by
              unfold World.pin
              rw [if_neg hpin]
              exact Finset.union_eq_left.mpr hlocal
            have hcid : current.cid = cid := Registry.cid_of_get hget
            have hsteps : ∀ w₁ : World Cid,
                (w₁.pins = w.pins ∨ w₁.pins = insert cid w.pins) → w₁.blocks = w.blocks →
                w₁.proc = w.proc →
                (∀ c, w₁.files.get c = w.files.get c ∨ (c = cid ∧ ∃ n,
                  w₁.files.get c = some ((repinnedRecord current).stamped n))) →
                GuardSteps content w w₁ := fun _ =>
              .of_repair hget hdurable hunsafe hlocal
            have hfiles : ∀ h c, ((w.pin content cid).put (repinnedRecord current) h).files.get c
                = w.files.get c ∨ (c = cid ∧ ∃ n,
                  ((w.pin content cid).put (repinnedRecord current) h).files.get c
                    = some ((repinnedRecord current).stamped n)) := by
              intro h c
              rw [World.get_put, World.files_pin]
              by_cases hc : c = cid
              · exact .inr ⟨hc, _, if_pos (hc.trans hcid.symm)⟩
              · exact .inl (if_neg fun heq => hc (heq.trans hcid))
            -- whether the pin was noted or not, taking it back restores the pins
            have hcatch : ∀ (w₁ : World Cid) err, w₁.pins = insert cid w.pins →
                w₁.blocks = w.blocks → w₁.proc = w.proc →
                (∀ c, w₁.files.get c = w.files.get c ∨ (c = cid ∧ ∃ n,
                  w₁.files.get c = some ((repinnedRecord current).stamped n))) →
                Prog.wp (storeSem content anyFault)
                  (if (decide (cid ∉ w.pins) && decide (current.pinned = false)) = true then do
                    let _ ← compensating (unpinFile cid)
                    throw err
                  else throw err) (Guarded content cid w) w₁ := by
              intro w₁ err hpins₁ hblocks₁ hproc₁ hfiles₁
              have hkept := hsteps w₁ (.inr hpins₁) hblocks₁ hproc₁ hfiles₁
              have htaken : GuardSteps content w (w₁.unpin cid) := by
                refine hsteps _ (.inl ?_) hblocks₁ hproc₁ hfiles₁
                rw [World.pins_unpin, hpins₁, Finset.erase_insert hpin]
              split
              · refine Prog.wp_bind.mpr (wp_compensating_of (wp_unpinFile ?_ ?_ ?_))
                · exact .of_error htaken _
                · exact .of_error htaken _
                · exact .of_error hkept _
              · exact .of_error hkept _
            have hproc : (w.pin content cid).proc = w.proc := World.proc_pin
            refine Prog.wp_bind.mpr (wp_pinFile ?_ (hfail _))
            refine Prog.wp_tryCatch.mpr (Prog.wp_bind.mpr (wp_save ?_ ?_ ?_))
            · intro h
              refine ⟨hsteps _ (.inr World.pins_pin) hblocks hproc (hfiles h), ?_,
                fun _ _ _ _ => hlocal⟩
              refine fun _ _ _ => Dag.protects_of_mem ?_
              rw [World.pins_put, World.pins_pin]
              exact Finset.mem_insert_self _ _
            · exact fun h => hcatch _ _ World.pins_pin hblocks hproc (hfiles h)
            · exact fun err => hcatch _ err World.pins_pin hblocks hproc
                fun c => .inl (by rw [World.files_pin])
          · exact hfail _

omit [DecidableEq Cid] in
theorem isFileRecord_repinned {record : FileRecord Cid} (h : isFileRecord record = true) :
    isFileRecord (repinnedRecord record) = true := by
  unfold isFileRecord repinnedRecord at *
  cases hstage : record.replicaStage <;> simp_all

/-- A check succeeds when nothing fails and the content is protected or local. -/
theorem run_guardPin {cid : Cid} {w : World Cid}
    (h : Durable w cid → content.dag.Protects w.pins cid ∨ content.dag.Complete w.blocks cid) :
    ∃ b, (Prog.run (serve content) (guardPin cid) w).1 = .ok b := by
  unfold guardPin
  rw [Prog.run_bind_ok run_get]
  cases hget : w.files.get cid with
  | none => exact ⟨false, rfl⟩
  | some current =>
      dsimp only
      split
      · exact ⟨false, rfl⟩
      · rename_i hskip
        have hdurable : Durable w cid := by
          refine ⟨current, hget, ?_, ?_⟩ <;> simp_all
        rw [Prog.run_bind_ok run_isProtected]
        split
        · exact ⟨false, rfl⟩
        · rename_i hunsafe
          have hlocal : content.dag.Complete w.blocks cid :=
            (h hdurable).resolve_left (by simpa using hunsafe)
          have hvalid := isFileRecord_repinned (Registry.valid_of_get hget)
          rw [Prog.run_bind_ok run_hasLocalDag, if_neg (by simpa using hlocal),
            Prog.run_bind_ok run_pinFile,
            Prog.run_tryCatch_ok (Prog.run_bind_ok (run_save hvalid))]
          exact ⟨true, rfl⟩

end Guard

/-! ## The release -/

section Release

variable {Cid : Type} [DecidableEq Cid] {content : Content Cid}

/-- A release takes pins of planned files only, and makes nothing durable. -/
def releasePolicy (w : World Cid) (released : List Cid) : Policy Cid where
  record cid record := ∀ r, record = some r → r.state = .confirmed →
    r.heldLocally = true → Durable w cid
  pin cid := cid ∈ w.pins ∧ cid ∉ released
  process _ := True
  block b := b ∈ w.blocks
  stamped := fun _ h r hr => by
    cases hr
    exact fun hstate hheld => h _ rfl hstate hheld

theorem holds_releasePolicy (w : World Cid) (released : List Cid) :
    (releasePolicy w released).Holds w :=
  ⟨fun _ r hr hstate hheld => ⟨r, hr, hstate, hheld⟩, fun _ h => h.1, trivial, fun _ h => h⟩

theorem safe_releasePlanned_releasePolicy {w : World Cid} {released : List Cid}
    {record : FileRecord Cid} (hmem : record.cid ∈ released) :
    Safe content (releasePolicy w released) (releasePlanned record) := by
  refine safe_releasePlanned fun current _ _ _ _ _ _ => ⟨fun hpin => hpin.2 hmem, ?_, ?_⟩
  · intro r hr hstate
    cases hr
    cases hstate
  · intro r hr hstate
    cases hr
    cases hstate

omit [DecidableEq Cid] in
theorem isFileRecord_released {record : FileRecord Cid} {state : FileState} :
    isFileRecord (record.released state) = true := by
  unfold isFileRecord FileRecord.released
  simp

/-- What a release comes to when nothing fails: it makes no pin, and it takes
the pin when it finds its plan unchanged. -/
structure ReleaseRun (record : FileRecord Cid) (w w' : World Cid) : Prop where
  pins : w'.pins ⊆ w.pins
  others : ∀ cid, cid ≠ record.cid → w'.files.get cid = w.files.get cid
  proc : w'.proc = w.proc
  released : w.files.get record.cid = some record → record.state ≠ .confirmed →
    isAdmissionInFlight w.proc record = false → record.cid ∉ w'.pins

theorem ReleaseRun.of_unpin {record : FileRecord Cid} {w w' : World Cid}
    (hpins : w'.pins = w.pins.erase record.cid) (hproc : w'.proc = w.proc)
    (hothers : ∀ cid, cid ≠ record.cid → w'.files.get cid = w.files.get cid) :
    ReleaseRun record w w' :=
  ⟨hpins ▸ Finset.erase_subset _ _, hothers, hproc, fun _ _ _ =>
    hpins ▸ Finset.notMem_erase _ _⟩

theorem run_releasePlanned (record : FileRecord Cid) (w : World Cid) :
    ReleaseRun record w (Prog.run (serve content) (releasePlanned record) w).2 := by
  unfold releasePlanned
  rw [Prog.run_bind_ok run_get]
  cases hget : w.files.get record.cid with
  | none => exact ⟨fun _ h => h, fun _ _ => rfl, rfl, fun h => by rw [hget] at h; cases h⟩
  | some current =>
      have hcid : current.cid = record.cid := Registry.cid_of_get hget
      dsimp only
      rw [Prog.run_bind_ok run_process]
      split
      · rename_i hskip
        refine ⟨fun _ h => h, fun _ _ => rfl, rfl, fun heq hstate hflight => ?_⟩
        rw [hget] at heq
        cases heq
        simp [hstate, hflight] at hskip
      · split
        · unfold restoreReplicaStage
          rw [Prog.run_bind_ok run_unpinFile, if_neg (by simp)]
          cases hvalid : isFileRecord (unstagedRecord current) with
          | true =>
              rw [Prog.run_bind_ok (run_save hvalid)]
              refine .of_unpin (by rw [← hcid]; rfl) rfl fun cid hne => ?_
              exact World.get_put_of_ne hvalid fun h => hne (h.trans hcid)
          | false =>
              rw [Prog.run_bind_error (run_save_invalid hvalid)]
              exact .of_unpin (by rw [← hcid]; rfl) rfl fun _ _ => rfl
        · rw [Prog.run_bind_ok run_unpinFile,
            Prog.run_tryCatch_ok (Prog.run_bind_ok (run_save isFileRecord_released))]
          refine .of_unpin rfl rfl fun cid hne => ?_
          exact World.get_put_of_ne isFileRecord_released fun h => hne (h.trans hcid)

/-- The file is still the one that was planned, and nobody needs it. -/
def IsPlanned (record : FileRecord Cid) (w : World Cid) : Prop :=
  ∃ current, w.files.get record.cid = some current ∧ current.revision = record.revision ∧
    current.state ≠ .confirmed ∧ isAdmissionInFlight w.proc current = false

/-- The record a release leaves, under a revision of its own. -/
def IsReleaseOf (record : FileRecord Cid) (w : World Cid) (stored : FileRecord Cid) : Prop :=
  ∃ current n, w.files.get record.cid = some current ∧ w.nextRevision ≤ n ∧
    (stored = (unstagedRecord current).stamped n ∨
      stored = (current.released .expired).stamped n)

/-- What a release can do, whatever fails. -/
structure Releases (record : FileRecord Cid) (w : World Cid)
    (r : Except (LifecycleError Cid) (Option (FileRecord Cid))) (w' : World Cid) : Prop where
  only : w.ChangesOnly w' record.cid
  idle : ¬ IsPlanned record w → w' = w ∧ ∀ stored, r ≠ .ok (some stored)
  stored : ∀ stored, r = .ok (some stored) →
    w'.files.get record.cid = some stored ∧ IsReleaseOf record w stored

variable {record : FileRecord Cid} {w : World Cid}

theorem Releases.nothing {r : Except (LifecycleError Cid) (Option (FileRecord Cid))}
    (h : ∀ stored, r ≠ .ok (some stored)) : Releases record w r w :=
  ⟨.refl w _, fun _ => ⟨rfl, h⟩, fun stored hr => absurd hr (h stored)⟩

/-- A release that failed, whatever it has done by then. -/
theorem Releases.failed (hplanned : IsPlanned record w) {w' : World Cid}
    (honly : w.ChangesOnly w' record.cid) (err : LifecycleError Cid) :
    Releases record w (.error err) w' :=
  ⟨honly, fun hnot => absurd hplanned hnot, fun _ => nofun⟩

theorem Releases.put (hplanned : IsPlanned record w) {w' : World Cid} {released : FileRecord Cid}
    (honly : w.ChangesOnly w' record.cid) (hcid : released.cid = record.cid)
    (hvalid : isFileRecord released = true)
    (hof : IsReleaseOf record w (released.stamped w'.nextRevision)) :
    Releases record w (.ok (some (released.stamped w'.nextRevision))) (w'.put released hvalid) :=
  ⟨honly.put hcid hvalid, fun hnot => absurd hplanned hnot, fun stored hr => by
    cases hr
    exact ⟨World.get_put.trans (if_pos hcid.symm), hof⟩⟩

theorem wp_releasePlanned : Prog.wp (storeSem content anyFault) (releasePlanned record)
    (Releases record w) w := by
  have hnothing : ∀ err, Releases record w (.error err) w := fun _ => .nothing fun _ => nofun
  refine Prog.wp_bind.mpr (wp_get ?_ (hnothing _))
  show Prog.wp _ _ _ w
  cases hget : w.files.get record.cid with
  | none => exact .nothing fun _ => nofun
  | some current =>
      refine Prog.wp_bind.mpr (wp_process ?_)
      show Prog.wp _ (ite _ _ _) _ w
      split
      · exact .nothing fun _ => nofun
      rename_i hskip
      have hcid : current.cid = record.cid := Registry.cid_of_get hget
      have hplanned : IsPlanned record w := by
        simp only [Bool.or_eq_true, not_or, decide_eq_true_eq, not_not, Bool.not_eq_true] at hskip
        exact ⟨current, hget, hskip.1.1, hskip.1.2, hskip.2⟩
      have hunpinned : w.ChangesOnly (w.unpin record.cid) record.cid :=
        (World.ChangesOnly.refl w _).unpin
      have hfail : ∀ {w' : World Cid} err, w.ChangesOnly w' record.cid →
          Releases record w (.error err) w' := fun err honly => .failed hplanned honly err
      split
      · refine Prog.wp_bind.mpr (wp_unpinFile ?_ ?_ (hfail _ (.refl w _)))
        · rw [hcid]
          have hcid' : (unstagedRecord current).cid = record.cid := hcid
          show Prog.wp _ (ite _ _ _) _ _
          rw [if_neg (by simp)]
          refine Prog.wp_bind.mpr (wp_save (fun hvalid => ?_) (fun hvalid => ?_) fun err => ?_)
          · exact .put hplanned hunpinned hcid' hvalid ⟨current, _, hget, le_rfl, .inl rfl⟩
          · exact hfail _ (hunpinned.put hcid' hvalid)
          · exact hfail _ hunpinned
        · rw [hcid]
          exact hfail _ hunpinned
      · refine Prog.wp_bind.mpr (wp_unpinFile ?_ (hfail _ hunpinned) (hfail _ (.refl w _)))
        have hcatch : ∀ (w₁ : World Cid) err, w.ChangesOnly w₁ record.cid →
            Prog.wp (storeSem content anyFault)
              (if (decide (record.cid ∈ w.pins) && current.pinned) = true then do
                let _ ← compensating (pinFile record.cid)
                throw err
              else throw err) (Releases record w) w₁ := by
          intro w₁ err honly
          split
          · refine Prog.wp_bind.mpr (wp_compensating_of (wp_pinFile ?_ ?_))
            · exact hfail _ honly.pin
            · exact hfail _ honly
          · exact hfail _ honly
        have hcid' : (current.released .expired).cid = record.cid := hcid
        refine Prog.wp_tryCatch.mpr (Prog.wp_bind.mpr
          (wp_save (fun hvalid => ?_) (fun hvalid => ?_) fun err => ?_))
        · exact .put hplanned hunpinned hcid' hvalid ⟨current, _, hget, le_rfl, .inr rfl⟩
        · exact hcatch _ _ (hunpinned.put hcid' hvalid)
        · exact hcatch _ _ hunpinned

end Release

/-! ## A run among others -/

section Interference

variable {Cid S : Type} [DecidableEq Cid]
variable {sem : Prog.Sem (NodeOp Cid) NodeOp.Ret (LifecycleError Cid) S}
variable {le : S → S → Prop} {inv : S → Prop} {pre : NodeOp Cid → S → Prop}
variable {options : GcRunOptions} {scanned : RegistryScan Cid → S → Prop}
variable {own : FileRecord Cid → S → Prop}

/-- What a run may be told: `scanned` says where the plan comes from, and `own`
which records it stored itself. -/
structure CollectsWith (sem : Prog.Sem (NodeOp Cid) NodeOp.Ret (LifecycleError Cid) S)
    (le : S → S → Prop) (inv : S → Prop) (pre : NodeOp Cid → S → Prop) (options : GcRunOptions)
    (scanned : RegistryScan Cid → S → Prop) (own : FileRecord Cid → S → Prop) : Prop where
  scan : ∀ s, inv s → pre (.run .scanRegistry) s
  scans : ∀ s found s', inv s → sem (.run .scanRegistry) s (.ok found) s' → scanned found s'
  scanned_le : ∀ found s s', le s s' → scanned found s → scanned found s'
  scanned_step : ∀ found o s r s', inv s → pre o s → o ≠ .run .scanRegistry → sem o s r s' →
    scanned found s → scanned found s'
  check : ∀ found s, inv s → scanned found s → ∀ record ∈ (options.plan found).heldConfirmed,
    pre (.run (.isProtected record.cid)) s ∧ pre (.run (.guardPin record.cid)) s
  release : ∀ found s, inv s → scanned found s → ∀ record ∈ (options.plan found).released,
    pre (.run (.releasePlanned record)) s
  released : ∀ record s stored s', inv s → pre (.run (.releasePlanned record)) s →
    sem (.run (.releasePlanned record)) s (.ok (some stored)) s' → own stored s'
  own_le : ∀ stored s s', le s s' → own stored s → own stored s'
  own_step : ∀ stored o s r s', inv s → pre o s → o ≠ .run .scanRegistry → sem o s r s' →
    own stored s → own stored s'
  collect : ∀ s, inv s → pre (.run .collectBlocks) s
  cleanup : ∀ stored s, inv s → own stored s → pre (.run (.cleanupReleased stored)) s

/-- What holds of every record of the list holds until it is used. -/
theorem CollectsWith.frame (h : CollectsWith sem le inv pre options scanned own) {α : Type}
    {stored : List (FileRecord Cid)} {s : S} (hown : ∀ record ∈ stored, own record s)
    {p : Job Cid α} (hscans : Prog.Requests (· ≠ .run .scanRegistry) p)
    {Q : Except (LifecycleError Cid) α → S → Prop} (hp : Prog.wpi sem le inv pre p Q s) :
    Prog.wpi sem le inv pre p (fun r s' => Q r s' ∧ ∀ record ∈ stored, own record s') s := by
  have hle : ∀ s s', le s s' → (∀ record ∈ stored, own record s) →
      ∀ record ∈ stored, own record s' :=
    fun s s' hle hall record hmem => h.own_le record s s' hle (hall record hmem)
  refine Prog.wpi_frame hle ?_ hscans hp hown
  exact fun o s r s' hinv hpre hnot hstep hall record hmem =>
    h.own_step record o s r s' hinv hpre hnot hstep (hall record hmem)

omit [DecidableEq Cid] in
/-- A release phase does not scan again. -/
theorem requests_releaseEach (records : List (FileRecord Cid)) :
    Prog.Requests (· ≠ NodeOp.run (LocalOp.scanRegistry : LocalOp Cid)) (releaseEach records) := by
  induction records with
  | nil => trivial
  | cons record rest ih =>
      have hrelease : Prog.Requests (· ≠ NodeOp.run (LocalOp.scanRegistry : LocalOp Cid))
          (locked (.releasePlanned record)) := Prog.Requests.perform nofun
      refine hrelease.attempt.bind fun released => ih.bind fun others => ?_
      obtain ⟨records, errors⟩ := others
      rcases released with err | _ | stored <;> trivial

variable (h : CollectsWith sem le inv pre options scanned own)
include h

theorem wpi_checkPins {found : RegistryScan Cid} {records : List (FileRecord Cid)} {s : S}
    (hscan : scanned found s) (hplan : ∀ record ∈ records,
      record ∈ (options.plan found).heldConfirmed) :
    Prog.wpi sem le inv pre (checkPins options.dryRun records)
      (fun _ s' => scanned found s') s := by
  induction records generalizing s with
  | nil => exact hscan
  | cons record rest ih =>
      rw [List.forall_mem_cons] at hplan
      have hcheck : Prog.wpi sem le inv pre (checkPin options.dryRun record.cid)
          (fun _ s' => scanned found s') s := by
        cases options.dryRun with
        | true =>
          refine Prog.wpi_bind.mpr (Prog.wpi_perform.mpr fun s₁ hle hinv => ?_)
          have hscan₁ := h.scanned_le found s s₁ hle hscan
          have hpre := (h.check found s₁ hinv hscan₁ record hplan.1).1
          refine ⟨hpre, fun r s₂ hstep => ?_⟩
          have hscan₂ := h.scanned_step found _ _ _ _ hinv hpre nofun hstep hscan₁
          cases r <;> exact hscan₂
        | false =>
          refine Prog.wpi_perform.mpr fun s₁ hle hinv => ?_
          have hscan₁ := h.scanned_le found s s₁ hle hscan
          have hpre := (h.check found s₁ hinv hscan₁ record hplan.1).2
          exact ⟨hpre, fun r s₂ hstep => h.scanned_step found _ _ _ _ hinv hpre nofun hstep hscan₁⟩
      refine Prog.wpi_bind.mpr (Prog.wpi_attempt.mpr (Prog.wpi_mono ?_ hcheck))
      intro repaired s₁ hscan₁
      refine Prog.wpi_bind.mpr (Prog.wpi_mono ?_ (ih hscan₁ hplan.2))
      rintro (err | check) s₂ hscan₂
      · exact hscan₂
      · exact hscan₂

theorem wpi_releaseEach {found : RegistryScan Cid} {records : List (FileRecord Cid)} {s : S}
    (hscan : scanned found s) (hplan : ∀ record ∈ records,
      record ∈ (options.plan found).released) :
    Prog.wpi sem le inv pre (releaseEach records) (fun r s' => ∀ released, r = .ok released →
      ∀ stored ∈ released.1, own stored s') s := by
  induction records generalizing s with
  | nil =>
      rintro released ⟨⟩ stored hmem
      cases hmem
  | cons record rest ih =>
      rw [List.forall_mem_cons] at hplan
      refine Prog.wpi_bind.mpr (Prog.wpi_attempt.mpr (Prog.wpi_perform.mpr fun s₁ hle hinv => ?_))
      have hscan₁ := h.scanned_le found s s₁ hle hscan
      have hpre := h.release found s₁ hinv hscan₁ record hplan.1
      refine ⟨hpre, fun r s₂ hstep => ?_⟩
      have hscan₂ := h.scanned_step found _ _ _ _ hinv hpre nofun hstep hscan₁
      have hrest := ih hscan₂ hplan.2
      refine Prog.wpi_bind.mpr ?_
      rcases r with err | _ | stored
      · refine Prog.wpi_mono ?_ hrest
        rintro (err | ⟨others, errors⟩) s₃ hall
        · exact fun _ => nofun
        · rintro released ⟨⟩
          exact hall (others, errors) rfl
      · refine Prog.wpi_mono ?_ hrest
        rintro (err | ⟨others, errors⟩) s₃ hall
        · exact fun _ => nofun
        · rintro released ⟨⟩
          exact hall (others, errors) rfl
      · have hstored := h.released record s₁ stored s₂ hinv hpre hstep
        have hone : ∀ record ∈ [stored], own record s₂ := by simpa using hstored
        refine Prog.wpi_mono ?_ (h.frame hone (requests_releaseEach rest) hrest)
        rintro (err | ⟨others, errors⟩) s₃ ⟨hall, hkept⟩
        · exact fun _ => nofun
        · rintro released ⟨⟩
          show ∀ record ∈ stored :: others, own record s₃
          rw [List.forall_mem_cons]
          exact ⟨hkept stored (by simp), hall (others, errors) rfl⟩

theorem wpi_cleanupEach {released : List (FileRecord Cid)} {s : S}
    (hown : ∀ stored ∈ released, own stored s) :
    Prog.wpi sem le inv pre (cleanupEach released) (fun _ _ => True) s := by
  induction released generalizing s with
  | nil => trivial
  | cons stored rest ih =>
      rw [List.forall_mem_cons] at hown
      refine Prog.wpi_bind.mpr (Prog.wpi_attempt.mpr (Prog.wpi_perform.mpr fun s₁ hle hinv => ?_))
      have hpre := h.cleanup stored s₁ hinv (h.own_le stored s s₁ hle hown.1)
      refine ⟨hpre, fun removed s₂ hstep => ?_⟩
      have hrest : ∀ record ∈ rest, own record s₂ := fun record hmem =>
        h.own_step record _ _ _ _ hinv hpre nofun hstep (h.own_le record s s₁ hle (hown.2 record hmem))
      refine Prog.wpi_bind.mpr (Prog.wpi_mono ?_ (ih hrest))
      rintro (err | errors) s₃ -
      · trivial
      · cases removed <;> trivial

theorem wpi_collectReleased {released : List (FileRecord Cid)} {report : GcReport Cid} {s : S}
    (hown : ∀ stored ∈ released, own stored s) :
    Prog.wpi sem le inv pre (collectReleased released report) (fun _ _ => True) s := by
  refine Prog.wpi_bind.mpr (Prog.wpi_perform.mpr fun s₁ hle hinv => ?_)
  have hpre := h.collect s₁ hinv
  refine ⟨hpre, fun r s₂ hstep => ?_⟩
  have hown₂ : ∀ stored ∈ released, own stored s₂ := fun stored hmem =>
    h.own_step stored _ _ _ _ hinv hpre nofun hstep (h.own_le stored s s₁ hle (hown stored hmem))
  rcases r with err | deletionErrors
  · trivial
  · dsimp only [Prog.thenPost]
    split
    · trivial
    · refine Prog.wpi_bind.mpr (Prog.wpi_mono ?_ (wpi_cleanupEach h hown₂))
      rintro (err | errors) s₃ -
      · trivial
      · trivial

/-- A run makes the requests the rule allows, whatever happens between them. -/
theorem wpi_runGarbageCollection (s : S) :
    Prog.wpi sem le inv pre (runGarbageCollection options) (fun _ _ => True) s := by
  refine Prog.wpi_bind.mpr (Prog.wpi_perform.mpr fun s₁ _ hinv => ?_)
  refine ⟨h.scan s₁ hinv, fun r s₂ hstep => ?_⟩
  rcases r with err | found
  · trivial
  have hscan := h.scans s₁ found s₂ hinv hstep
  refine Prog.wpi_bind.mpr (Prog.wpi_mono ?_ (wpi_checkPins h hscan fun _ hmem => hmem))
  rintro (err | check) s₃ hscan₃
  · trivial
  dsimp only [Prog.thenPost]
  unfold applyPlan
  split
  · trivial
  split
  · trivial
  refine Prog.wpi_bind.mpr (Prog.wpi_mono ?_ (wpi_releaseEach h hscan₃ fun _ hmem => hmem))
  rintro (err | ⟨released, errors⟩) s₄ hown
  · trivial
  dsimp only [Prog.thenPost]
  split
  · trivial
  · exact wpi_collectReleased h (hown _ rfl)

end Interference

end IpfsNode
