import IpfsNode.Node

/-!
# Executing lifecycle code

What each request of lifecycle code comes to, as rules for `Prog.wp` when any
request may fail, and as equations for `Prog.run` when all are served. The
states are written with the updates of `World` below, so that a result about a
transition never unfolds the semantics of a request.
-/

namespace IpfsNode

namespace World

section Intents

variable {Cid : Type} {w : World Cid} {intents : Finset Cid}

def withIntents (w : World Cid) (pinIntents : Finset Cid) : World Cid :=
  { w with pinIntents }

@[simp] theorem files_withIntents : (w.withIntents intents).files = w.files := rfl
@[simp] theorem pins_withIntents : (w.withIntents intents).pins = w.pins := rfl
@[simp] theorem blocks_withIntents : (w.withIntents intents).blocks = w.blocks := rfl
@[simp] theorem proc_withIntents : (w.withIntents intents).proc = w.proc := rfl
@[simp] theorem issued_withIntents : (w.withIntents intents).issued = w.issued := rfl

end Intents

section Updates

variable {Cid : Type} [DecidableEq Cid]

def put (w : World Cid) (record : FileRecord Cid) (h : isFileRecord record = true) :
    World Cid :=
  { w with
    files := w.files.put (record.stamped w.nextRevision) ((isFileRecord_stamped ..).trans h)
    nextRevision := w.nextRevision + 1 }

def remove (w : World Cid) (cid : Cid) : World Cid :=
  { w with files := w.files.delete cid }

def pin (content : Content Cid) (w : World Cid) (cid : Cid) : World Cid :=
  if cid ∈ w.pins then w
  else { w with pins := insert cid w.pins, blocks := w.blocks ∪ content.dag.blocks cid }

def unpin (w : World Cid) (cid : Cid) : World Cid :=
  { w with pins := w.pins.erase cid }

variable {w : World Cid} {record : FileRecord Cid} {h : isFileRecord record = true}
variable {cid cid' : Cid} {content : Content Cid}

@[simp] theorem get_put : (w.put record h).files.get cid =
    if cid = record.cid then some (record.stamped w.nextRevision) else w.files.get cid :=
  Registry.get_put w.files (record.stamped w.nextRevision) ((isFileRecord_stamped ..).trans h) cid

theorem get_put_of_ne (h : isFileRecord record = true) (hne : cid ≠ record.cid) :
    (w.put record h).files.get cid = w.files.get cid := by
  rw [get_put, if_neg hne]

@[simp] theorem pins_put : (w.put record h).pins = w.pins := rfl
@[simp] theorem blocks_put : (w.put record h).blocks = w.blocks := rfl
@[simp] theorem proc_put : (w.put record h).proc = w.proc := rfl
@[simp] theorem issued_put : (w.put record h).issued = w.issued := rfl

@[simp] theorem get_remove : (w.remove cid').files.get cid =
    if cid = cid' then none else w.files.get cid :=
  Registry.get_delete ..

@[simp] theorem pins_remove : (w.remove cid).pins = w.pins := rfl
@[simp] theorem blocks_remove : (w.remove cid).blocks = w.blocks := rfl
@[simp] theorem proc_remove : (w.remove cid).proc = w.proc := rfl
@[simp] theorem issued_remove : (w.remove cid).issued = w.issued := rfl

@[simp] theorem files_pin : (w.pin content cid).files = w.files := by
  unfold pin
  split <;> rfl

@[simp] theorem pins_pin : (w.pin content cid).pins = insert cid w.pins := by
  unfold pin
  split
  · rename_i hmem
    exact (Finset.insert_eq_of_mem hmem).symm
  · rfl

@[simp] theorem proc_pin : (w.pin content cid).proc = w.proc := by
  unfold pin
  split <;> rfl

@[simp] theorem issued_pin : (w.pin content cid).issued = w.issued := by
  unfold pin
  split <;> rfl

@[simp] theorem files_unpin : (w.unpin cid).files = w.files := rfl
@[simp] theorem pins_unpin : (w.unpin cid).pins = w.pins.erase cid := rfl
@[simp] theorem blocks_unpin : (w.unpin cid).blocks = w.blocks := rfl
@[simp] theorem proc_unpin : (w.unpin cid).proc = w.proc := rfl
@[simp] theorem issued_unpin : (w.unpin cid).issued = w.issued := rfl

/-- Only the file of this CID changes. -/
structure ChangesOnly (w w' : World Cid) (cid : Cid) : Prop where
  proc : w'.proc = w.proc
  files : ∀ cid', cid' ≠ cid → w'.files.get cid' = w.files.get cid'
  pins : ∀ cid', cid' ≠ cid → (cid' ∈ w'.pins ↔ cid' ∈ w.pins)

namespace ChangesOnly

variable {w w₁ w₂ : World Cid}

theorem refl (w : World Cid) (cid : Cid) : w.ChangesOnly w cid :=
  ⟨rfl, fun _ _ => rfl, fun _ _ => Iff.rfl⟩

theorem trans (h : w.ChangesOnly w₁ cid) (h' : w₁.ChangesOnly w₂ cid) : w.ChangesOnly w₂ cid :=
  ⟨h'.proc.trans h.proc, fun cid' hne => (h'.files cid' hne).trans (h.files cid' hne),
    fun cid' hne => (h'.pins cid' hne).trans (h.pins cid' hne)⟩

theorem put (h : w.ChangesOnly w₁ cid) {record : FileRecord Cid} (hcid : record.cid = cid)
    (hvalid : isFileRecord record = true) : w.ChangesOnly (w₁.put record hvalid) cid :=
  h.trans ⟨rfl, fun _ hne => get_put_of_ne hvalid (hcid ▸ hne), fun _ _ => Iff.rfl⟩

theorem remove (h : w.ChangesOnly w₁ cid) : w.ChangesOnly (w₁.remove cid) cid := by
  refine h.trans ⟨rfl, fun cid' hne => ?_, fun _ _ => Iff.rfl⟩
  rw [get_remove, if_neg hne]

theorem pin (h : w.ChangesOnly w₁ cid) : w.ChangesOnly (w₁.pin content cid) cid := by
  refine h.trans ⟨proc_pin, fun _ _ => by rw [files_pin], fun cid' hne => ?_⟩
  rw [pins_pin, Finset.mem_insert, or_iff_right hne]

theorem unpin (h : w.ChangesOnly w₁ cid) : w.ChangesOnly (w₁.unpin cid) cid := by
  refine h.trans ⟨rfl, fun _ _ => rfl, fun cid' hne => ?_⟩
  rw [pins_unpin, Finset.mem_erase, and_iff_right hne]

end ChangesOnly

end Updates

end World

/-! ## When any request may fail -/

section Wp

variable {Cid α : Type} [DecidableEq Cid] {content : Content Cid} {faults : Faults Cid}
variable {w : World Cid} {cid : Cid}

theorem wp_request {o : StoreOp Cid} {Q : Except (LifecycleError Cid) o.Ret → World Cid → Prop}
    (hserved : Q (o.effect content w).1 (o.effect content w).2)
    (hfailed : o.fallible = true → Q (.error .io) w)
    (hlanded : o.mayLand = true → Q (.error .io) (o.effect content w).2) :
    Prog.wp (storeSem content faults) (request o) Q w := by
  refine Prog.wp_perform.mpr fun r w' hstep => ?_
  cases hstep with
  | served => exact hserved
  | failed _ hf => exact hfailed hf
  | landed _ hl => exact hlanded hl

theorem wp_get {Q : Except (LifecycleError Cid) (Option (FileRecord Cid)) → World Cid → Prop}
    (hok : Q (.ok (w.files.get cid)) w) (hio : Q (.error .io) w) :
    Prog.wp (storeSem content faults) (Locked.get cid) Q w :=
  wp_request hok (fun _ => hio) nofun

theorem wp_process {Q : Except (LifecycleError Cid) (Process Cid) → World Cid → Prop}
    (hok : Q (.ok w.proc) w) : Prog.wp (storeSem content faults) process Q w :=
  wp_request hok nofun nofun

theorem wp_save_cases {record : FileRecord Cid}
    {Q : Except (LifecycleError Cid) (FileRecord Cid) → World Cid → Prop}
    (hok : ∀ h, Q (.ok (record.stamped w.nextRevision)) (w.put record h))
    (hlanded : ∀ h, Q (.error .io) (w.put record h)) (hio : Q (.error .io) w)
    (hinvalid : isFileRecord record = false → Q (.error (.invalidRecord record.cid)) w) :
    Prog.wp (storeSem content faults) (Locked.save record) Q w := by
  cases h : isFileRecord record with
  | true =>
      rw [Locked.save_valid h]
      exact wp_request (hok h) (fun _ => hio) fun _ => hlanded h
  | false =>
      rw [Locked.save_invalid h]
      exact hinvalid h

theorem wp_save {record : FileRecord Cid}
    {Q : Except (LifecycleError Cid) (FileRecord Cid) → World Cid → Prop}
    (hok : ∀ h, Q (.ok (record.stamped w.nextRevision)) (w.put record h))
    (hlanded : ∀ h, Q (.error .io) (w.put record h)) (herr : ∀ err, Q (.error err) w) :
    Prog.wp (storeSem content faults) (Locked.save record) Q w :=
  wp_save_cases hok hlanded (herr _) fun _ => herr _

theorem wp_remove {Q : Except (LifecycleError Cid) Unit → World Cid → Prop}
    (hok : Q (.ok ()) (w.remove cid)) (hlanded : Q (.error .io) (w.remove cid))
    (hio : Q (.error .io) w) :
    Prog.wp (storeSem content faults) (Locked.remove cid) Q w :=
  wp_request hok (fun _ => hio) fun _ => hlanded

theorem wp_markPinIntent {Q : Except (LifecycleError Cid) Unit → World Cid → Prop}
    (hok : ∀ intents, Q (.ok ()) (w.withIntents intents))
    (hio : ∀ intents, Q (.error .io) (w.withIntents intents)) :
    Prog.wp (storeSem content faults) (Locked.markPinIntent cid) Q w :=
  wp_request (hok _) (fun _ => hio w.pinIntents) fun _ => hio _

theorem wp_clearPinIntent {Q : Except (LifecycleError Cid) Unit → World Cid → Prop}
    (hok : ∀ intents, Q (.ok ()) (w.withIntents intents))
    (hio : ∀ intents, Q (.error .io) (w.withIntents intents)) :
    Prog.wp (storeSem content faults) (Locked.clearPinIntent cid) Q w :=
  wp_request (hok _) (fun _ => hio w.pinIntents) fun _ => hio _

theorem wp_pinFile {Q : Except (LifecycleError Cid) Bool → World Cid → Prop}
    (hok : Q (.ok (decide (cid ∉ w.pins))) (w.pin content cid)) (hio : Q (.error .io) w) :
    Prog.wp (storeSem content faults) (pinFile cid) Q w := by
  refine Prog.wp_tryCatch.mpr (Prog.wp_bind.mpr (wp_request ?_ (fun _ => hio) nofun))
  unfold World.pin at hok
  simp only [StoreOp.effect]
  split <;> rename_i hmem <;> simp only [hmem, not_true, not_false_eq_true, decide_true,
    decide_false, if_true, if_false] at hok <;> exact hok

theorem wp_unpinFile {Q : Except (LifecycleError Cid) Bool → World Cid → Prop}
    (hok : Q (.ok (decide (cid ∈ w.pins))) (w.unpin cid))
    (hlanded : Q (.error .io) (w.unpin cid)) (hio : Q (.error .io) w) :
    Prog.wp (storeSem content faults) (unpinFile cid) Q w := by
  have heffect : (StoreOp.effect content (.pinsRm cid) w).2 = w.unpin cid := by
    simp only [StoreOp.effect, World.unpin]
    split
    · rfl
    · rename_i hmem
      rw [Finset.erase_eq_of_notMem hmem]
  refine Prog.wp_tryCatch.mpr (Prog.wp_bind.mpr (wp_request ?_ (fun _ => hio) fun _ => ?_))
  · rw [heffect]
    simp only [StoreOp.effect]
    split <;> rename_i hmem <;> simp only [hmem, decide_true, decide_false] at hok <;> exact hok
  · rw [heffect]
    exact hlanded

theorem wp_isDirectlyPinned {Q : Except (LifecycleError Cid) Bool → World Cid → Prop}
    (hok : Q (.ok (decide (cid ∈ w.pins))) w) (hio : Q (.error .io) w) :
    Prog.wp (storeSem content faults) (isDirectlyPinned cid) Q w := by
  refine Prog.wp_tryCatch.mpr (Prog.wp_bind.mpr (wp_request ?_ (fun _ => hio) nofun))
  simp only [StoreOp.effect]
  split <;> rename_i hmem <;> simp only [hmem, decide_true, decide_false] at hok <;> exact hok

theorem wp_isProtected {Q : Except (LifecycleError Cid) Bool → World Cid → Prop}
    (hok : Q (.ok (decide (content.dag.Protects w.pins cid))) w) (hio : Q (.error .io) w) :
    Prog.wp (storeSem content faults) (isProtected cid) Q w :=
  wp_request hok (fun _ => hio) nofun

theorem wp_statDag {Q : Except (LifecycleError Cid) DagStats → World Cid → Prop}
    (hok : content.dag.Complete w.blocks cid →
      Q (.ok ⟨content.size cid, content.deduplicatedDagSize cid⟩) w)
    (herr : ∀ err, Q (.error err) w) :
    Prog.wp (storeSem content faults) (statDag cid) Q w := by
  refine wp_request ?_ (fun _ => herr _) nofun
  simp only [StoreOp.effect]
  split
  · rename_i hcomplete
    exact hok hcomplete
  · exact herr _

theorem wp_hasLocalDag {Q : Except (LifecycleError Cid) Bool → World Cid → Prop}
    (hok : content.dag.Complete w.blocks cid → Q (.ok true) w) (hno : Q (.ok false) w) :
    Prog.wp (storeSem content faults) (hasLocalDag cid) Q w :=
  Prog.wp_tryCatch.mpr (Prog.wp_bind.mpr (wp_statDag hok fun _ => hno))

/-- Compensation is ordinary code when any request may fail. -/
theorem wp_compensating_of {p : Store Cid α}
    {Q : Except (LifecycleError Cid) α → World Cid → Prop}
    (h : Prog.wp (storeSem content anyFault) p Q w) :
    Prog.wp (storeSem content faults) (compensating p) Q w :=
  Prog.wp_iff_runs.mpr fun r w' hr =>
    Prog.wp_iff_runs.mp h r w' (runs_compensating_anyFault hr)

theorem wp_of_anyFault {p : Store Cid α}
    {Q : Except (LifecycleError Cid) α → World Cid → Prop}
    (h : Prog.wp (storeSem content anyFault) p Q w) :
    Prog.wp (storeSem content faults) p Q w :=
  Prog.wp_iff_runs.mpr fun r w' hr => Prog.wp_iff_runs.mp h r w' (runs_anyFault hr)

end Wp

/-! ## When every request is served -/

section Run

variable {Cid α : Type} [DecidableEq Cid] {content : Content Cid} {w : World Cid} {cid : Cid}

@[simp] theorem run_request {o : StoreOp Cid} :
    Prog.run (serve content) (request o) w = o.effect content w :=
  Prog.run_perform

@[simp] theorem run_compensating {p : Store Cid α} :
    Prog.run (serve content) (compensating p) w = Prog.run (serve content) p w := by
  induction p generalizing w with
  | ret a => rfl
  | fail err => rfl
  | act q k ih => exact ih _

@[simp] theorem run_get :
    Prog.run (serve content) (Locked.get cid) w = (.ok (w.files.get cid), w) :=
  run_request

@[simp] theorem run_process :
    Prog.run (serve content) (process : Store Cid _) w = (.ok w.proc, w) :=
  run_request

theorem run_save {record : FileRecord Cid} (h : isFileRecord record = true) :
    Prog.run (serve content) (Locked.save record) w =
      (.ok (record.stamped w.nextRevision), w.put record h) := by
  rw [Locked.save_valid h]
  exact run_request

theorem run_save_invalid {record : FileRecord Cid} (h : isFileRecord record = false) :
    Prog.run (serve content) (Locked.save record) w = (.error (.invalidRecord record.cid), w) := by
  rw [Locked.save_invalid h]
  rfl

@[simp] theorem run_remove :
    Prog.run (serve content) (Locked.remove cid) w = (.ok (), w.remove cid) :=
  run_request

@[simp] theorem run_markPinIntent :
    Prog.run (serve content) (Locked.markPinIntent cid) w =
      (.ok (), w.withIntents (insert cid w.pinIntents)) :=
  run_request

@[simp] theorem run_clearPinIntent :
    Prog.run (serve content) (Locked.clearPinIntent cid) w =
      (.ok (), w.withIntents (w.pinIntents.erase cid)) :=
  run_request

/-- A request whose answer is known. -/
theorem run_act {q : Request Cid} {k : Except (LifecycleError Cid) q.Ret → Store Cid α}
    {r : Except (LifecycleError Cid) q.Ret} {w' : World Cid}
    (h : q.op.effect content w = (r, w')) :
    Prog.run (serve content) (.act q k) w = Prog.run (serve content) (k r) w' := by
  simp only [Prog.run, serve, h]

@[simp] theorem run_pinFile :
    Prog.run (serve content) (pinFile cid) w =
      (.ok (decide (cid ∉ w.pins)), w.pin content cid) := by
  unfold World.pin
  by_cases hmem : cid ∈ w.pins
  · have heffect : StoreOp.effect content (.pinsAdd cid) w = (.error .alreadyPinned, w) :=
      if_pos hmem
    refine (run_act heffect).trans ?_
    simp only [hmem, not_true, decide_false, if_true]
    rfl
  · have heffect : StoreOp.effect content (.pinsAdd cid) w = (.ok (), { w with
        pins := insert cid w.pins, blocks := w.blocks ∪ content.dag.blocks cid }) :=
      if_neg hmem
    refine (run_act heffect).trans ?_
    simp only [hmem, not_false_eq_true, decide_true, if_false]
    rfl

@[simp] theorem run_unpinFile :
    Prog.run (serve content) (unpinFile cid) w =
      (.ok (decide (cid ∈ w.pins)), w.unpin cid) := by
  unfold World.unpin
  by_cases hmem : cid ∈ w.pins
  · have heffect : StoreOp.effect content (.pinsRm cid) w =
        (.ok (), { w with pins := w.pins.erase cid }) := if_pos hmem
    refine (run_act heffect).trans ?_
    simp only [hmem, decide_true]
    rfl
  · have heffect : StoreOp.effect content (.pinsRm cid) w = (.error .pinNotFound, w) :=
      if_neg hmem
    refine (run_act heffect).trans ?_
    simp only [hmem, decide_false, Finset.erase_eq_of_notMem hmem]
    rfl

@[simp] theorem run_isDirectlyPinned :
    Prog.run (serve content) (isDirectlyPinned cid) w =
      (.ok (decide (cid ∈ w.pins)), w) := by
  by_cases hmem : cid ∈ w.pins
  · have heffect : StoreOp.effect content (.pinsGet cid) w = (.ok (), w) := if_pos hmem
    refine (run_act heffect).trans ?_
    simp only [hmem, decide_true]
    rfl
  · have heffect : StoreOp.effect content (.pinsGet cid) w = (.error .pinNotFound, w) :=
      if_neg hmem
    refine (run_act heffect).trans ?_
    simp only [hmem, decide_false]
    rfl

@[simp] theorem run_isProtected :
    Prog.run (serve content) (isProtected cid) w =
      (.ok (decide (content.dag.Protects w.pins cid)), w) :=
  run_request

theorem run_statDag_complete (h : content.dag.Complete w.blocks cid) :
    Prog.run (serve content) (statDag cid) w =
      (.ok ⟨content.size cid, content.deduplicatedDagSize cid⟩, w) := by
  have heffect : StoreOp.effect content (.statDag cid) w =
      (.ok ⟨content.size cid, content.deduplicatedDagSize cid⟩, w) := if_pos h
  exact run_request.trans heffect

theorem run_statDag_missing (h : ¬ content.dag.Complete w.blocks cid) :
    Prog.run (serve content) (statDag cid) w = (.error .missingBlocks, w) := by
  have heffect : StoreOp.effect content (.statDag cid) w = (.error .missingBlocks, w) :=
    if_neg h
  exact run_request.trans heffect

@[simp] theorem run_hasLocalDag :
    Prog.run (serve content) (hasLocalDag cid) w =
      (.ok (decide (content.dag.Complete w.blocks cid)), w) := by
  unfold hasLocalDag
  rw [Prog.run_tryCatch, Prog.run_bind]
  by_cases h : content.dag.Complete w.blocks cid
  · rw [run_statDag_complete h]
    simp [h]
  · rw [run_statDag_missing h]
    simp [h]

end Run

end IpfsNode
