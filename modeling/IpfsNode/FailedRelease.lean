import IpfsNode.GcRun
import IpfsNode.StageRollback

/-!
# A failed release and the collector

A release unpins the file and then writes its record; when the write fails it
pins the file again. It holds the lock of the CID all the while, but no storage
lease, and the collector deletes blocks under the exclusive lease alone. So the
collector may come to the blocks of the file in between, and the new pin fetches
what is gone from the network. `failed_release_iff` says when it does not, for
the release of a file and for the handover of a copy.
-/

namespace IpfsNode

/-! ## The collector -/

/-- What a collection does between two requests of the release, as far as pins
and blocks go. -/
inductive CollectorStep (Cid : Type) where
  /-- It releases another file. -/
  | unpin (other : Cid)
  /-- It restores the pin of another file, which it has found to be all there. -/
  | repin (other : Cid)
  /-- It comes to a block, and deletes it unless a pin protects it. -/
  | delete (block : Cid)
deriving DecidableEq, Repr

section Collector

variable {Cid : Type} [DecidableEq Cid]

def CollectorStep.apply (content : Content Cid) (w : World Cid) : CollectorStep Cid → World Cid
  | .unpin other => w.unpin other
  | .repin other => { w with pins := insert other w.pins }
  | .delete block =>
      { w with
        blocks := if content.dag.Protects w.pins block then w.blocks else w.blocks.erase block }

def collectSteps (content : Content Cid) (w : World Cid) (steps : List (CollectorStep Cid)) :
    World Cid :=
  steps.foldl (CollectorStep.apply content) w

/-- The pins that the collector leaves. -/
def leftPins (pins : Finset Cid) : List (CollectorStep Cid) → Finset Cid
  | [] => pins
  | .unpin other :: steps => leftPins (pins.erase other) steps
  | .repin other :: steps => leftPins (insert other pins) steps
  | .delete _ :: steps => leftPins pins steps

/-- Whenever the collector comes to a block of the DAG, a pin protects it. -/
def SparesDag (content : Content Cid) (cid : Cid) (pins : Finset Cid) :
    List (CollectorStep Cid) → Prop
  | [] => True
  | .unpin other :: steps => SparesDag content cid (pins.erase other) steps
  | .repin other :: steps => SparesDag content cid (insert other pins) steps
  | .delete block :: steps =>
      (block ∈ content.dag.blocks cid → content.dag.Protects pins block) ∧
        SparesDag content cid pins steps

/-- The lock of the CID keeps the collector from the pin of the file. -/
def LeavesPin (cid : Cid) (steps : List (CollectorStep Cid)) : Prop :=
  ∀ step ∈ steps, step ≠ .unpin cid ∧ step ≠ .repin cid

variable {content : Content Cid} {w : World Cid} {cid : Cid} {steps : List (CollectorStep Cid)}

theorem sparesDag_delete {pins : Finset Cid} {block : Cid} :
    SparesDag content cid pins (.delete block :: steps) ↔
      (block ∈ content.dag.blocks cid → content.dag.Protects pins block) ∧
        SparesDag content cid pins steps :=
  Iff.rfl

theorem collectSteps_append (steps others : List (CollectorStep Cid)) :
    collectSteps content w (steps ++ others) =
      collectSteps content (collectSteps content w steps) others :=
  List.foldl_append

@[simp] theorem files_collectSteps : (collectSteps content w steps).files = w.files := by
  induction steps generalizing w with
  | nil => rfl
  | cons step steps ih =>
      refine ih.trans ?_
      cases step <;> rfl

@[simp] theorem proc_collectSteps : (collectSteps content w steps).proc = w.proc := by
  induction steps generalizing w with
  | nil => rfl
  | cons step steps ih =>
      refine ih.trans ?_
      cases step <;> rfl

@[simp] theorem pins_collectSteps :
    (collectSteps content w steps).pins = leftPins w.pins steps := by
  induction steps generalizing w with
  | nil => rfl
  | cons step steps ih =>
      refine ih.trans ?_
      cases step <;> rfl

omit [DecidableEq Cid] in
theorem leavesPin_cons {step : CollectorStep Cid} : LeavesPin cid (step :: steps) ↔
    (step ≠ .unpin cid ∧ step ≠ .repin cid) ∧ LeavesPin cid steps :=
  List.forall_mem_cons

/-- The file is pinned afterwards if it was before. -/
theorem mem_leftPins {pins : Finset Cid} (hlocked : LeavesPin cid steps) :
    cid ∈ leftPins pins steps ↔ cid ∈ pins := by
  induction steps generalizing pins with
  | nil => exact Iff.rfl
  | cons step steps ih =>
      obtain ⟨⟨hunpin, hrepin⟩, hrest⟩ := leavesPin_cons.mp hlocked
      cases step with
      | unpin other =>
          have hne : cid ≠ other := fun heq => hunpin (by rw [heq])
          exact (ih hrest).trans (Finset.mem_erase.trans (and_iff_right hne))
      | repin other =>
          have hne : cid ≠ other := fun heq => hrepin (by rw [heq])
          exact (ih hrest).trans (Finset.mem_insert.trans (or_iff_right hne))
      | delete block => exact ih hrest

/-- What the collector leaves of a DAG. -/
theorem complete_collectSteps : content.dag.Complete (collectSteps content w steps).blocks cid ↔
    content.dag.Complete w.blocks cid ∧ SparesDag content cid w.pins steps := by
  induction steps generalizing w with
  | nil => exact (and_iff_left trivial).symm
  | cons step steps ih =>
      refine (ih (w := CollectorStep.apply content w step)).trans ?_
      cases step with
      | unpin other => exact Iff.rfl
      | repin other => exact Iff.rfl
      | delete block =>
          rw [sparesDag_delete]
          by_cases hprotected : content.dag.Protects w.pins block
          · simp [CollectorStep.apply, hprotected]
          · simp only [CollectorStep.apply, if_neg hprotected]
            have herase : content.dag.Complete (w.blocks.erase block) cid ↔
                content.dag.Complete w.blocks cid ∧ block ∉ content.dag.blocks cid :=
              Finset.subset_erase
            simp only [herase, hprotected, imp_false, and_assoc]

/-- A pinned DAG is spared. -/
theorem sparesDag_of_pinned {pins : Finset Cid} (h : cid ∈ pins) (hlocked : LeavesPin cid steps) :
    SparesDag content cid pins steps := by
  induction steps generalizing pins with
  | nil => trivial
  | cons step steps ih =>
      obtain ⟨⟨hunpin, -⟩, hrest⟩ := leavesPin_cons.mp hlocked
      cases step with
      | unpin other =>
          have hne : cid ≠ other := fun heq => hunpin (by rw [heq])
          exact ih (Finset.mem_erase.mpr ⟨hne, h⟩) hrest
      | repin other => exact ih (Finset.mem_insert_of_mem h) hrest
      | delete block => exact ⟨fun hmem => ⟨cid, h, hmem⟩, ih h hrest⟩

theorem sparesDag_append {pins : Finset Cid} {others : List (CollectorStep Cid)} :
    SparesDag content cid pins (steps ++ others) ↔
      SparesDag content cid pins steps ∧
        SparesDag content cid (leftPins pins steps) others := by
  induction steps generalizing pins with
  | nil => exact (and_iff_right trivial).symm
  | cons step steps ih =>
      cases step with
      | unpin other => exact ih
      | repin other => exact ih
      | delete block =>
          rw [List.cons_append, sparesDag_delete, sparesDag_delete, ih, and_assoc]
          rfl

end Collector

/-! ## The overlap -/

/-- How far the release has come. -/
structure Overlap (Cid : Type) where
  world : World Cid
  /-- How many requests it has made. -/
  position : Nat
  /-- The blocks that its requests fetched. -/
  fetched : Finset Cid

section Overlap

variable {Cid α : Type} [DecidableEq Cid] {content : Content Cid} {landed : Bool}
variable {collector : Nat → List (CollectorStep Cid)} {s : Overlap Cid} {cid : Cid}

/-- The world the next request meets: the collector comes in before it. -/
def Overlap.turned (content : Content Cid) (collector : Nat → List (CollectorStep Cid))
    (s : Overlap Cid) : World Cid :=
  collectSteps content s.world (collector s.position)

/-- The request leaves this world. -/
def Overlap.after (content : Content Cid) (collector : Nat → List (CollectorStep Cid))
    (s : Overlap Cid) (w : World Cid) : Overlap Cid :=
  { world := w
    position := s.position + 1
    fetched := s.fetched ∪ (w.blocks \ (s.turned content collector).blocks) }

/-- Serve every request but the registry writes, each after the collector. -/
def overlapping (content : Content Cid) (landed : Bool)
    (collector : Nat → List (CollectorStep Cid)) (r : Request Cid) (s : Overlap Cid) :
    Except (LifecycleError Cid) r.Ret × Overlap Cid :=
  let served := failWrites content landed r (s.turned content collector)
  (served.1, s.after content collector served.2)

/-- A request that fetches nothing. -/
theorem Overlap.after_of_blocks {w : World Cid}
    (h : w.blocks = (s.turned content collector).blocks) :
    s.after content collector w = ⟨w, s.position + 1, s.fetched⟩ := by
  unfold Overlap.after
  rw [h, Finset.sdiff_self, Finset.union_empty]

/-- The code makes no further request. -/
def Ends (p : Store Cid α) : Prop := (∃ a, p = .ret a) ∨ ∃ err, p = .fail err

/-- The code makes one request and ends. -/
def OneRequest (p : Store Cid α) : Prop :=
  match p with
  | .act _ k => ∀ r, Ends (k r)
  | _ => False

omit [DecidableEq Cid] in
theorem Ends.compensating {p : Store Cid α} (h : Ends p) : Ends (compensating p) := by
  rcases h with ⟨a, rfl⟩ | ⟨err, rfl⟩
  · exact .inl ⟨a, rfl⟩
  · exact .inr ⟨err, rfl⟩

omit [DecidableEq Cid] in
theorem oneRequest_compensating {p : Store Cid α} (h : OneRequest p) :
    OneRequest (compensating p) := by
  cases p with
  | ret a => exact h
  | fail err => exact h
  | act q k => exact fun r => (h r).compensating

omit [DecidableEq Cid] in
theorem oneRequest_request {o : StoreOp Cid} : OneRequest (request o) := by
  intro r
  cases r with
  | ok a => exact .inl ⟨a, rfl⟩
  | error err => exact .inr ⟨err, rfl⟩

omit [DecidableEq Cid] in
/-- A request whose answer is all that matters, and whose errors may be an answer. -/
theorem oneRequest_caught {o : StoreOp Cid} {a : α} {handler : LifecycleError Cid → Store Cid α}
    (h : ∀ err, Ends (handler err)) :
    OneRequest (tryCatch (request o >>= fun _ => pure a) handler) := by
  intro r
  cases r with
  | ok _ => exact .inl ⟨a, rfl⟩
  | error err => exact h err

omit [DecidableEq Cid] in
theorem oneRequest_unpinFile : OneRequest (unpinFile cid) :=
  oneRequest_caught fun err => by
    cases err with
    | pinNotFound => exact .inl ⟨false, rfl⟩
    | _ => exact .inr ⟨_, rfl⟩

omit [DecidableEq Cid] in
theorem oneRequest_pinFile : OneRequest (pinFile cid) :=
  oneRequest_caught fun err => by
    cases err with
    | alreadyPinned => exact .inl ⟨false, rfl⟩
    | _ => exact .inr ⟨_, rfl⟩

omit [DecidableEq Cid] in
theorem oneRequest_isDirectlyPinned : OneRequest (isDirectlyPinned cid) :=
  oneRequest_caught fun err => by
    cases err with
    | pinNotFound => exact .inl ⟨false, rfl⟩
    | _ => exact .inr ⟨_, rfl⟩

/-- One request runs as if it were alone, on what the collector left. -/
theorem run_overlapping {p : Store Cid α} (h : OneRequest p) {answer : Except _ α}
    {w : World Cid}
    (hrun : Prog.run (failWrites content landed) p (s.turned content collector) = (answer, w)) :
    Prog.run (overlapping content landed collector) p s =
      (answer, s.after content collector w) := by
  cases p with
  | ret a => exact h.elim
  | fail err => exact h.elim
  | act q k =>
      have hk := h (failWrites content landed q (s.turned content collector)).1
      have hsplit : Prog.run (overlapping content landed collector) (.act q k) s =
          Prog.run (overlapping content landed collector)
            (k (failWrites content landed q (s.turned content collector)).1)
            (s.after content collector
              (failWrites content landed q (s.turned content collector)).2) := rfl
      have halone : Prog.run (failWrites content landed) (.act q k)
            (s.turned content collector) =
          Prog.run (failWrites content landed)
            (k (failWrites content landed q (s.turned content collector)).1)
            (failWrites content landed q (s.turned content collector)).2 := rfl
      rw [halone] at hrun
      rw [hsplit]
      rcases hk with ⟨a, ha⟩ | ⟨err, herr⟩
      · rw [ha] at hrun ⊢
        cases hrun
        rfl
      · rw [herr] at hrun ⊢
        cases hrun
        rfl

/-- One request that fetches nothing. -/
theorem run_overlapping_of_blocks {p : Store Cid α} (h : OneRequest p) {answer : Except _ α}
    {w : World Cid}
    (hrun : Prog.run (failWrites content landed) p (s.turned content collector) = (answer, w))
    (hblocks : w.blocks = (s.turned content collector).blocks) :
    Prog.run (overlapping content landed collector) p s =
      (answer, ⟨w, s.position + 1, s.fetched⟩) := by
  rw [run_overlapping h hrun, Overlap.after_of_blocks hblocks]

theorem run_overlapping_get : Prog.run (overlapping content landed collector) (Locked.get cid) s =
    (.ok (s.world.files.get cid), ⟨s.turned content collector, s.position + 1, s.fetched⟩) := by
  have hfiles : (s.turned content collector).files.get cid = s.world.files.get cid :=
    congrArg (Registry.get · cid) files_collectSteps
  rw [← hfiles]
  exact run_overlapping_of_blocks oneRequest_request run_failWrites_get rfl

theorem run_overlapping_process : Prog.run (overlapping content landed collector) process s =
    (.ok s.world.proc, ⟨s.turned content collector, s.position + 1, s.fetched⟩) := by
  refine run_overlapping_of_blocks oneRequest_request (Prog.run_perform.trans ?_) rfl
  exact congrArg (fun proc => (Except.ok proc, s.turned content collector)) proc_collectSteps

theorem run_overlapping_unpinFile :
    Prog.run (overlapping content landed collector) (unpinFile cid) s =
      (.ok (decide (cid ∈ leftPins s.world.pins (collector s.position))),
        ⟨(s.turned content collector).unpin cid, s.position + 1, s.fetched⟩) := by
  refine run_overlapping_of_blocks oneRequest_unpinFile ?_ rfl
  rw [run_failWrites_unpinFile, Overlap.turned, pins_collectSteps]

theorem run_overlapping_isDirectlyPinned :
    Prog.run (overlapping content landed collector) (isDirectlyPinned cid) s =
      (.ok (decide (cid ∈ leftPins s.world.pins (collector s.position))),
        ⟨s.turned content collector, s.position + 1, s.fetched⟩) := by
  refine run_overlapping_of_blocks oneRequest_isDirectlyPinned ?_ rfl
  rw [run_failWrites, run_isDirectlyPinned, Overlap.turned, pins_collectSteps]
  refine ⟨rfl, fun r => ?_⟩
  cases r with
  | ok a => trivial
  | error err => cases err <;> trivial

theorem run_overlapping_save {record : FileRecord Cid} (h : isFileRecord record = true) :
    Prog.run (overlapping content landed collector) (Locked.save record) s =
      (.error .io, ⟨if landed then (s.turned content collector).put record h
        else s.turned content collector, s.position + 1, s.fetched⟩) := by
  refine run_overlapping_of_blocks ?_ (run_failWrites_save h) ?_
  · rw [Locked.save_valid h]
    exact oneRequest_request
  · split <;> rfl

/-- The pin that compensates fetches what the collector took. -/
theorem run_overlapping_repin :
    Prog.run (overlapping content landed collector) (compensating (pinFile cid)) s =
      (.ok (decide (cid ∉ leftPins s.world.pins (collector s.position))),
        s.after content collector ((s.turned content collector).pin content cid)) := by
  refine run_overlapping (oneRequest_compensating oneRequest_pinFile) ?_
  rw [run_failWrites_compensating, run_pinFile, Overlap.turned, pins_collectSteps]

theorem run_overlapping_restoreRecord {record : FileRecord Cid}
    (h : isFileRecord record = true) :
    Prog.run (overlapping content landed collector)
        (compensating (restoreRecord cid (some record))) s =
      (.ok (), ⟨(s.turned content collector).put record h, s.position + 1, s.fetched⟩) := by
  have hrestore : restoreRecord cid (some record) =
      request (.putRecord record h) >>= fun _ => pure () := by
    rw [← Locked.save_valid h]
    rfl
  refine run_overlapping_of_blocks ?_ ?_ rfl
  · rw [hrestore]
    refine oneRequest_compensating fun r => ?_
    cases r with
    | ok _ => exact .inl ⟨(), rfl⟩
    | error err => exact .inr ⟨err, rfl⟩
  · rw [run_failWrites_compensating]
    exact Prog.run_bind_ok (run_save h)

end Overlap

/-! ## The failed release -/

section Release

variable {Cid α : Type} [DecidableEq Cid] {content : Content Cid} {landed : Bool}
variable {collector : Nat → List (CollectorStep Cid)} {w : World Cid} {cid : Cid}
variable {current : FileRecord Cid}

/-- The operation rejects, and leaves the record, the direct pin and every block
of the file, having fetched none. -/
structure KeepsContent (content : Content Cid) (w : World Cid) (cid : Cid)
    (outcome : Except (LifecycleError Cid) α × Overlap Cid) : Prop where
  rejects : ∃ err, outcome.1 = .error err
  record : (outcome.2.world.files.get cid).map FileRecord.unstamped =
    (w.files.get cid).map FileRecord.unstamped
  pin : cid ∈ outcome.2.world.pins
  complete : content.dag.Complete outcome.2.world.blocks cid
  fetched : outcome.2.fetched = ∅

/-- Run the operation with failing registry writes while the collector works. -/
def runOverlapped (content : Content Cid) (landed : Bool)
    (collector : Nat → List (CollectorStep Cid)) (p : Store Cid α) (w : World Cid) :
    Except (LifecycleError Cid) α × Overlap Cid :=
  Prog.run (overlapping content landed collector) p ⟨w, 0, ∅⟩

/-- The collector spares the DAG between the `unpin`-th request, which takes the
pin away, and the second request after it, which puts it back. -/
def SparesUnpinned (content : Content Cid) (collector : Nat → List (CollectorStep Cid))
    (w : World Cid) (cid : Cid) (unpin : Nat) : Prop :=
  SparesDag content cid ((leftPins w.pins ((List.range (unpin + 1)).flatMap collector)).erase cid)
    (collector (unpin + 1) ++ collector (unpin + 2))

/-- The operation has made `n` requests that changed nothing. -/
def Overlap.reading (content : Content Cid) (collector : Nat → List (CollectorStep Cid))
    (w : World Cid) (n : Nat) : Overlap Cid :=
  { world := collectSteps content w ((List.range n).flatMap collector)
    position := n
    fetched := ∅ }

theorem turned_reading (n : Nat) :
    (Overlap.reading content collector w n).turned content collector =
      (Overlap.reading content collector w (n + 1)).world := by
  unfold Overlap.turned Overlap.reading
  rw [← collectSteps_append, List.range_succ, List.flatMap_append, List.flatMap_singleton]

theorem reading_step (n : Nat) : (⟨(Overlap.reading content collector w n).turned content collector,
    (Overlap.reading content collector w n).position + 1,
    (Overlap.reading content collector w n).fetched⟩ : Overlap Cid) =
      Overlap.reading content collector w (n + 1) := by
  rw [turned_reading]
  rfl

theorem run_reading_get (n : Nat) : Prog.run (overlapping content landed collector)
    (Locked.get cid) (Overlap.reading content collector w n) =
      (.ok (w.files.get cid), Overlap.reading content collector w (n + 1)) := by
  rw [run_overlapping_get, reading_step]
  exact congrArg (fun files => (Except.ok (Registry.get files cid), _)) files_collectSteps

theorem run_reading_process (n : Nat) : Prog.run (overlapping content landed collector)
    process (Overlap.reading content collector w n) =
      (.ok w.proc, Overlap.reading content collector w (n + 1)) := by
  rw [run_overlapping_process, reading_step]
  exact congrArg (fun proc => (Except.ok proc, _)) proc_collectSteps

omit [DecidableEq Cid] in
theorem leavesPin_flatMap (hlocked : ∀ n, LeavesPin cid (collector n)) (positions : List Nat) :
    LeavesPin cid (positions.flatMap collector) := by
  intro step hstep
  obtain ⟨n, -, hn⟩ := List.mem_flatMap.mp hstep
  exact hlocked n step hn

variable (content) in
theorem mem_pins_reading (hpin : cid ∈ w.pins) (hlocked : ∀ n, LeavesPin cid (collector n))
    (n : Nat) : cid ∈ leftPins (Overlap.reading content collector w n).world.pins (collector n) := by
  unfold Overlap.reading
  rw [mem_leftPins (hlocked n), pins_collectSteps, mem_leftPins (leavesPin_flatMap hlocked _)]
  exact hpin

theorem run_reading_isDirectlyPinned (hpin : cid ∈ w.pins)
    (hlocked : ∀ n, LeavesPin cid (collector n)) (n : Nat) :
    Prog.run (overlapping content landed collector) (isDirectlyPinned cid)
        (Overlap.reading content collector w n) =
      (.ok true, Overlap.reading content collector w (n + 1)) := by
  have hmem := mem_pins_reading content hpin hlocked n
  rw [run_overlapping_isDirectlyPinned, reading_step]
  exact congrArg (fun answer => (Except.ok answer, _)) (decide_eq_true hmem)

theorem run_reading_unpinFile (hpin : cid ∈ w.pins) (hlocked : ∀ n, LeavesPin cid (collector n))
    (n : Nat) : Prog.run (overlapping content landed collector) (unpinFile cid)
        (Overlap.reading content collector w n) =
      (.ok true, ⟨(Overlap.reading content collector w (n + 1)).world.unpin cid, n + 1, ∅⟩) := by
  have hmem := mem_pins_reading content hpin hlocked n
  rw [run_overlapping_unpinFile, turned_reading]
  exact congrArg (fun answer => (Except.ok answer, _)) (decide_eq_true hmem)

theorem fetched_pin (h : cid ∉ w.pins) :
    (w.pin content cid).blocks \ w.blocks = ∅ ↔ content.dag.Complete w.blocks cid := by
  unfold World.pin
  rw [if_neg h, Finset.sdiff_eq_empty_iff_subset, Finset.union_subset_iff]
  exact and_iff_right subset_rfl

theorem complete_pin (h : cid ∉ w.pins) :
    content.dag.Complete (w.pin content cid).blocks cid := by
  unfold World.pin
  rw [if_neg h]
  exact Finset.subset_union_right

/-- It has then taken the pin away, and its registry write has failed. -/
def Overlap.unwritten (content : Content Cid) (landed : Bool)
    (collector : Nat → List (CollectorStep Cid)) (w : World Cid) (record : FileRecord Cid)
    (h : isFileRecord record = true) (unpin : Nat) : Overlap Cid :=
  let unpinned := (Overlap.reading content collector w (unpin + 1)).world.unpin record.cid
  let turned := collectSteps content unpinned (collector (unpin + 1))
  { world := if landed then turned.put record h else turned
    position := unpin + 2
    fetched := ∅ }

section Unwritten

variable {record : FileRecord Cid} {h : isFileRecord record = true} {unpin : Nat}

theorem pins_unwritten : (Overlap.unwritten content landed collector w record h unpin).world.pins =
    leftPins ((leftPins w.pins ((List.range (unpin + 1)).flatMap collector)).erase record.cid)
      (collector (unpin + 1)) := by
  unfold Overlap.unwritten Overlap.reading
  dsimp only
  split
  · rw [World.pins_put, pins_collectSteps, World.pins_unpin, pins_collectSteps]
  · rw [pins_collectSteps, World.pins_unpin, pins_collectSteps]

theorem blocks_unwritten :
    (Overlap.unwritten content landed collector w record h unpin).world.blocks =
      (collectSteps content ((Overlap.reading content collector w (unpin + 1)).world.unpin
        record.cid) (collector (unpin + 1))).blocks := by
  unfold Overlap.unwritten
  dsimp only
  split <;> rfl

theorem record_unwritten : ((Overlap.unwritten content landed collector w record h
    unpin).world.files.get record.cid).map FileRecord.unstamped =
      if landed then some record.unstamped
      else (w.files.get record.cid).map FileRecord.unstamped := by
  unfold Overlap.unwritten Overlap.reading
  cases landed with
  | true =>
      simp only [if_true, World.get_put]
      rfl
  | false => simp only [Bool.false_eq_true, if_false, files_collectSteps, World.files_unpin]

/-- The copy is there for the new pin where the collector spared it. -/
theorem complete_unwritten (hpin : record.cid ∈ w.pins)
    (hcomplete : content.dag.Complete w.blocks record.cid)
    (hlocked : ∀ n, LeavesPin record.cid (collector n)) :
    content.dag.Complete ((Overlap.unwritten content landed collector w record h unpin).turned
      content collector).blocks record.cid ↔
        SparesUnpinned content collector w record.cid unpin := by
  have hbefore : content.dag.Complete
      (Overlap.reading content collector w (unpin + 1)).world.blocks record.cid := by
    exact complete_collectSteps.mpr
      ⟨hcomplete, sparesDag_of_pinned hpin (leavesPin_flatMap hlocked _)⟩
  unfold Overlap.turned SparesUnpinned
  rw [complete_collectSteps, blocks_unwritten, complete_collectSteps, pins_unwritten,
    sparesDag_append, World.blocks_unpin, World.pins_unpin, and_iff_right hbefore]
  unfold Overlap.reading
  rw [pins_collectSteps]
  exact Iff.rfl

variable (content landed collector w record h unpin) in
/-- The pin is back. -/
def Overlap.repinned : Overlap Cid :=
  let failed := Overlap.unwritten content landed collector w record h unpin
  failed.after content collector ((failed.turned content collector).pin content record.cid)

theorem pin_repinned : record.cid ∈
    (Overlap.repinned content landed collector w record h unpin).world.pins := by
  unfold Overlap.repinned Overlap.after
  rw [World.pins_pin]
  exact Finset.mem_insert_self _ _

theorem record_repinned : ((Overlap.repinned content landed collector w record h
    unpin).world.files.get record.cid).map FileRecord.unstamped =
      if landed then some record.unstamped
      else (w.files.get record.cid).map FileRecord.unstamped := by
  unfold Overlap.repinned Overlap.after Overlap.turned
  rw [World.files_pin, files_collectSteps, record_unwritten]

theorem notMem_unwritten (hlocked : ∀ n, LeavesPin record.cid (collector n)) : record.cid ∉
    ((Overlap.unwritten content landed collector w record h unpin).turned
      content collector).pins := by
  unfold Overlap.turned
  rw [pins_collectSteps, mem_leftPins (hlocked _), pins_unwritten, mem_leftPins (hlocked _)]
  exact Finset.notMem_erase _ _

theorem complete_repinned (hlocked : ∀ n, LeavesPin record.cid (collector n)) :
    content.dag.Complete
      (Overlap.repinned content landed collector w record h unpin).world.blocks record.cid :=
  complete_pin (notMem_unwritten hlocked)

/-- The new pin fetches nothing where the collector spared the copy. -/
theorem fetched_repinned (hpin : record.cid ∈ w.pins)
    (hcomplete : content.dag.Complete w.blocks record.cid)
    (hlocked : ∀ n, LeavesPin record.cid (collector n)) :
    (Overlap.repinned content landed collector w record h unpin).fetched = ∅ ↔
      SparesUnpinned content collector w record.cid unpin := by
  have hfetched : (Overlap.repinned content landed collector w record h unpin).fetched = ∅ ↔
      content.dag.Complete ((Overlap.unwritten content landed collector w record h unpin).turned
        content collector).blocks record.cid := by
    refine Iff.trans ?_ (fetched_pin (notMem_unwritten hlocked))
    exact iff_of_eq (congrArg (· = ∅) (Finset.empty_union _))
  exact hfetched.trans (complete_unwritten hpin hcomplete hlocked)

variable (h) in
theorem run_failing_save {β : Type} {next : FileRecord Cid → Store Cid β} :
    Prog.run (overlapping content landed collector) (Locked.save record >>= next)
        ⟨(Overlap.reading content collector w (unpin + 1)).world.unpin record.cid, unpin + 1, ∅⟩ =
      (.error .io, Overlap.unwritten content landed collector w record h unpin) :=
  Prog.run_bind_error (run_overlapping_save h)

end Unwritten

section Operations

variable (hget : w.files.get current.cid = some current) (hpin : current.cid ∈ w.pins)
variable (hlocked : ∀ n, LeavesPin current.cid (collector n))
variable (hidle : isLifecycleBusy w.proc current = false)
include hget hpin hlocked hidle

theorem run_demoteCopy_overlapped {record : FileRecord Cid} (hcid : record.cid = current.cid)
    (hrevision : current.revision = record.revision) (hstate : current.state = .confirmed)
    (hheld : current.heldLocally = true) (hpinned : current.pinned = true) :
    runOverlapped content landed collector (demoteCopy record) w =
      (.error .io, Overlap.repinned content landed collector w (current.released current.state)
        isFileRecord_released 2) := by
  unfold demoteCopy
  rw [hcid]
  refine (Prog.run_bind_ok (run_reading_get 0)).trans ?_
  rw [hget]
  dsimp only
  rw [Prog.run_bind_ok (run_reading_process 1), if_neg (by simp [hrevision, hstate, hheld, hidle]),
    Prog.run_bind_ok (run_reading_unpinFile hpin hlocked 2)]
  refine (Prog.run_tryCatch_error (run_failing_save isFileRecord_released)).trans ?_
  rw [if_pos (by simp [hpinned]), Prog.run_bind_ok run_overlapping_repin]
  rfl

theorem run_releaseStoredFile_overlapped :
    let repinned := Overlap.repinned content landed collector w (current.released .expired)
      isFileRecord_released (if current.pinned then 2 else 3)
    runOverlapped content landed collector (releaseStoredFile current.cid) w =
      (.error .io, ⟨(repinned.turned content collector).put current (Registry.valid_of_get hget),
        repinned.position + 1, repinned.fetched⟩) := by
  intro repinned
  have hwas : Prog.run (overlapping content landed collector)
      (wasPinnedBefore current.cid (some current)) (Overlap.reading content collector w 2) =
        (.ok true, Overlap.reading content collector w (if current.pinned then 2 else 3)) := by
    unfold wasPinnedBefore
    rcases Bool.eq_false_or_eq_true current.pinned with hpinned | hpinned
    · rw [if_pos (by simp [hpinned]), if_pos hpinned]
      rfl
    · rw [if_neg (by simp [hpinned]), if_neg (by simp [hpinned])]
      exact run_reading_isDirectlyPinned hpin hlocked 2
  unfold releaseStoredFile
  refine (Prog.run_bind_ok (run_reading_get 0)).trans ?_
  rw [hget]
  dsimp only
  rw [Prog.run_bind_ok (run_reading_process 1), if_neg (Bool.eq_false_iff.mp hidle),
    Prog.run_bind_ok hwas]
  refine (Prog.run_tryCatch_error ((Prog.run_bind_ok (run_reading_unpinFile hpin hlocked _)).trans
    (run_failing_save isFileRecord_released))).trans ?_
  unfold restoreLifecycleBaseline
  rw [if_pos rfl]
  obtain ⟨answer, hpinBack⟩ : ∃ answer, Prog.run (overlapping content landed collector)
      (compensating (pinFile current.cid)) (Overlap.unwritten content landed collector w
        (current.released .expired) isFileRecord_released (if current.pinned then 2 else 3)) =
      (.ok answer, repinned) :=
    ⟨_, run_overlapping_repin⟩
  rw [Prog.run_bind, Prog.run_attempt, hpinBack]
  dsimp only
  rw [Prog.run_bind, Prog.run_attempt,
    run_overlapping_restoreRecord (Registry.valid_of_get hget)]
  rfl

/-- After the demotion's write failed, the pin is back. -/
theorem keepsContent_demoteCopy (hcomplete : content.dag.Complete w.blocks current.cid)
    {record : FileRecord Cid} (hcid : record.cid = current.cid)
    (hrevision : current.revision = record.revision) (hstate : current.state = .confirmed)
    (hheld : current.heldLocally = true) (hpinned : current.pinned = true) :
    KeepsContent content w current.cid
        (runOverlapped content landed collector (demoteCopy record) w) ↔
      landed = false ∧ SparesUnpinned content collector w current.cid 2 := by
  rw [run_demoteCopy_overlapped hget hpin hlocked hidle hcid hrevision hstate hheld hpinned]
  have hfetched : (Overlap.repinned content landed collector w (current.released current.state)
      isFileRecord_released 2).fetched = ∅ ↔ SparesUnpinned content collector w current.cid 2 :=
    fetched_repinned hpin hcomplete hlocked
  have hrecord : ((Overlap.repinned content landed collector w (current.released current.state)
      isFileRecord_released 2).world.files.get current.cid).map FileRecord.unstamped =
        if landed then some (current.released current.state).unstamped
        else (w.files.get current.cid).map FileRecord.unstamped :=
    record_repinned
  constructor
  · intro h
    refine ⟨?_, hfetched.mp h.fetched⟩
    -- a write that landed leaves a record that disowns the copy
    cases landed with
    | false => rfl
    | true =>
        have hsame := hrecord.symm.trans h.record
        rw [if_pos rfl, hget] at hsame
        have hdisowned := congrArg (Option.map (·.heldLocally)) hsame
        simp [FileRecord.released, FileRecord.unstamped, hheld] at hdisowned
  · rintro ⟨rfl, hspares⟩
    exact ⟨⟨_, rfl⟩, hrecord, pin_repinned, complete_repinned hlocked, hfetched.mpr hspares⟩

theorem keepsContent_releaseStoredFile (hcomplete : content.dag.Complete w.blocks current.cid) :
    KeepsContent content w current.cid
        (runOverlapped content landed collector (releaseStoredFile current.cid) w) ↔
      SparesUnpinned content collector w current.cid (if current.pinned then 2 else 3) := by
  rw [run_releaseStoredFile_overlapped hget hpin hlocked hidle]
  have hfetched : (Overlap.repinned content landed collector w (current.released .expired)
      isFileRecord_released (if current.pinned then 2 else 3)).fetched = ∅ ↔
        SparesUnpinned content collector w current.cid (if current.pinned then 2 else 3) :=
    fetched_repinned hpin hcomplete hlocked
  have hpinned : current.cid ∈ (Overlap.repinned content landed collector w
      (current.released .expired) isFileRecord_released
        (if current.pinned then 2 else 3)).world.pins :=
    pin_repinned
  constructor
  · exact fun h => hfetched.mp h.fetched
  · intro hspares
    refine ⟨⟨_, rfl⟩, ?_, ?_, ?_, hfetched.mpr hspares⟩
    · rw [World.get_put, if_pos rfl, hget]
      rfl
    · rw [World.pins_put, Overlap.turned, pins_collectSteps]
      exact (mem_leftPins (hlocked _)).mpr hpinned
    · rw [World.blocks_put, Overlap.turned, complete_collectSteps]
      exact ⟨complete_repinned hlocked, sparesDag_of_pinned hpinned (hlocked _)⟩

end Operations

/-- A release, or a handover, whose registry write fails keeps record, pin and
blocks without fetching any exactly when the collector, between the unpin and
the pin that follows it, comes to no block of the file that is unprotected. The
handover puts only the pin back: there the write must not have landed. -/
theorem failed_release_iff (content : Content Cid) (w : World Cid) (current : FileRecord Cid)
    (landed : Bool) (collector : Nat → List (CollectorStep Cid))
    (hget : w.files.get current.cid = some current)
    (hidle : isLifecycleBusy w.proc current = false) (hpin : current.cid ∈ w.pins)
    (hcomplete : content.dag.Complete w.blocks current.cid)
    (hlocked : ∀ n, LeavesPin current.cid (collector n)) :
    (KeepsContent content w current.cid
        (runOverlapped content landed collector (releaseStoredFile current.cid) w) ↔
      SparesUnpinned content collector w current.cid (if current.pinned then 2 else 3)) ∧
    ∀ record : FileRecord Cid, record.cid = current.cid → current.revision = record.revision →
      current.state = .confirmed → current.heldLocally = true → current.pinned = true →
      (KeepsContent content w current.cid
          (runOverlapped content landed collector (demoteCopy record) w) ↔
        landed = false ∧ SparesUnpinned content collector w current.cid 2) :=
  ⟨keepsContent_releaseStoredFile hget hpin hlocked hidle hcomplete,
    fun _ hcid hrevision hstate hheld hpinned =>
      keepsContent_demoteCopy hget hpin hlocked hidle hcomplete hcid hrevision hstate hheld
        hpinned⟩

end Release

namespace Unlucky

/-- A confirmed file of one block. -/
def file : FileRecord Nat :=
  { cid := 7, name := "file", state := .confirmed, createdAt := 0, expiresAt := none
    confirmedAt := some 0, fileSize := 1, storedBytes := 1, protectedBytes := none
    pinned := true, heldLocally := true, replicas := [], admissionId := none
    admissionSettledAt := none, replicaStage := none, revision := some 0 }

def node : World Nat :=
  { World.empty with
    files := { entries := [file], keyed := by decide, valid := by decide }
    pins := {7}
    blocks := {7}
    nextRevision := 1 }

/-- The collector comes to the block right after the unpin. -/
def collector (n : Nat) : List (CollectorStep Nat) :=
  if n = 3 then [.delete 7] else []

theorem leavesPin_collector (n : Nat) : LeavesPin file.cid (collector n) := by
  unfold collector LeavesPin
  split <;> simp

end Unlucky

open Unlucky in
theorem failed_release_of_unlucky :
    KeepsContent Content.flat node 7
        (runOverlapped Content.flat false collector (releaseStoredFile 7) node) ↔
      SparesUnpinned Content.flat collector node 7 2 :=
  (failed_release_iff Content.flat node file false collector rfl rfl (by decide) (by decide)
    leavesPin_collector).1

open Unlucky in
/-- The write of the release fails, and the pin that is put back has to fetch
the block again. -/
theorem content_refetched_after_failed_release :
    ¬ ∀ (content : Content Nat) (w : World Nat) (current : FileRecord Nat) (landed : Bool)
        (collector : Nat → List (CollectorStep Nat)),
      w.files.get current.cid = some current → isLifecycleBusy w.proc current = false →
      current.cid ∈ w.pins → content.dag.Complete w.blocks current.cid →
      (∀ n, LeavesPin current.cid (collector n)) →
      KeepsContent content w current.cid
        (runOverlapped content landed collector (releaseStoredFile current.cid) w) := by
  intro h
  have hfetched := (h Content.flat node file false collector rfl rfl (by decide) (by decide)
    leavesPin_collector).fetched
  have hblock : (runOverlapped Content.flat false collector (releaseStoredFile file.cid)
      node).2.fetched = {7} := by decide
  rw [hblock] at hfetched
  exact Finset.singleton_ne_empty 7 hfetched

end IpfsNode
