import IpfsNode.Gc
import IpfsNode.SharedStage

/-!
# Withdrawing a stage when the write fails

A stage is withdrawn by unpinning its copy first and writing the registry
second. The write is the removal of a record the stage created, or the save of
the baseline it found. Only the removal is awaited where its failure is caught:
a save that fails leaves through the caller, with the pin gone and the record
whatever the registry made of it. `stage_withdrawal_iff` says exactly when a
failed withdrawal leaves record and pin as they were.
-/

namespace IpfsNode

/-! ## Registry writes that fail -/

section FailWrites

variable {Cid : Type} [DecidableEq Cid] {content : Content Cid} {landed : Bool}
variable {w : World Cid} {cid : Cid}

/-- A registry write that belongs to a transition, not to its compensation. -/
def Request.isOrdinaryWrite (r : Request Cid) : Bool :=
  (match r.op with
    | .putRecord .. | .deleteRecord _ => true
    | _ => false)
  && !r.compensating

/-- Serve every request but the ordinary registry writes: these reject, after
they landed or before. -/
def failWrites (content : Content Cid) (landed : Bool) (r : Request Cid) (w : World Cid) :
    Except (LifecycleError Cid) r.Ret × World Cid :=
  if r.isOrdinaryWrite then (.error .io, if landed then (r.op.effect content w).2 else w)
  else r.op.effect content w

/-- That is a way in which requests may fail while compensation succeeds. -/
theorem failWrites_step (r : Request Cid) (w : World Cid) :
    StoreStep content (fun r => r.isOrdinaryWrite = true) r w
      (failWrites content landed r w).1 (failWrites content landed r w).2 := by
  unfold failWrites
  split
  · rename_i hwrite
    have hkind : r.op.fallible = true ∧ r.op.mayLand = true := by
      obtain ⟨op, compensating⟩ := r
      cases op <;> first | exact ⟨rfl, rfl⟩ | exact absurd hwrite Bool.false_ne_true
    cases landed with
    | false => exact .failed hwrite hkind.1
    | true => exact .landed hwrite hkind.2
  · exact .served

omit [DecidableEq Cid] in
theorem ordinary_failWrites : Faults.Ordinary fun r : Request Cid => r.isOrdinaryWrite = true := by
  intro r h
  rw [Request.isOrdinaryWrite, Bool.and_eq_true, Bool.not_eq_true'] at h
  exact h.2

/-- Code without ordinary writes runs as usual. -/
theorem run_failWrites {α : Type} {p : Store Cid α}
    (h : p.Requests fun r => r.isOrdinaryWrite = false) :
    Prog.run (failWrites content landed) p w = Prog.run (serve content) p w := by
  induction p generalizing w with
  | ret a => rfl
  | fail err => rfl
  | act q k ih =>
      have hexec : failWrites content landed q w = serve content q w :=
        if_neg (Bool.not_eq_true _ ▸ h.1)
      show Prog.run _ (k (failWrites content landed q w).1) (failWrites content landed q w).2 = _
      rw [hexec]
      exact ih _ (h.2 _)

/-- So does compensation. -/
theorem run_failWrites_compensating {α : Type} {p : Store Cid α} :
    Prog.run (failWrites content landed) (compensating p) w = Prog.run (serve content) p w := by
  induction p generalizing w with
  | ret a => rfl
  | fail err => rfl
  | act q k ih =>
      have hexec : failWrites content landed { q with compensating := true } w =
          serve content q w :=
        if_neg (by simp [Request.isOrdinaryWrite])
      show Prog.run _ (compensating (k (failWrites content landed { q with compensating := true }
        w).1)) (failWrites content landed { q with compensating := true } w).2 = _
      rw [hexec]
      exact ih _

theorem run_failWrites_save {record : FileRecord Cid} (h : isFileRecord record = true) :
    Prog.run (failWrites content landed) (Locked.save record) w =
      (.error .io, if landed then w.put record h else w) := by
  rw [Locked.save_valid h]
  exact Prog.run_perform

theorem run_failWrites_remove :
    Prog.run (failWrites content landed) (Locked.remove cid) w =
      (.error .io, if landed then w.remove cid else w) :=
  Prog.run_perform

theorem run_failWrites_unpinFile :
    Prog.run (failWrites content landed) (unpinFile cid) w =
      (.ok (decide (cid ∈ w.pins)), w.unpin cid) := by
  rw [run_failWrites, run_unpinFile]
  refine ⟨rfl, fun r => ?_⟩
  cases r with
  | ok a => trivial
  | error err => cases err <;> trivial

theorem run_failWrites_get :
    Prog.run (failWrites content landed) (Locked.get cid) w = (.ok (w.files.get cid), w) :=
  Prog.run_perform

end FailWrites

/-! ## The failed withdrawal -/

section Withdrawal

variable {Cid : Type} [DecidableEq Cid] {content : Content Cid} {landed : Bool}
variable {w : World Cid} {current : FileRecord Cid}

/-- When its registry write fails, the code rejects and leaves record, apart
from its revision, and pin of the file as they were. -/
def UndoesFailedWrite {α : Type} (content : Content Cid) (landed : Bool) (w : World Cid)
    (cid : Cid) (p : Store Cid α) : Prop :=
  (∃ err, (Prog.run (failWrites content landed) p w).1 = .error err) ∧
    w.Matches (Prog.run (failWrites content landed) p w).2 cid

/-- The withdrawal removes the record instead of restoring a baseline. -/
def RemovesStage (current : FileRecord Cid) (keepCreatedRecord : Bool) : Prop :=
  (∀ stage ∈ current.replicaStage, stage.previous = none) ∧ keepCreatedRecord = false

omit [DecidableEq Cid] in
theorem removesStage_iff (hstage : current.replicaStage.isSome = true)
    (keepCreatedRecord : Bool) : RemovesStage current keepCreatedRecord ↔
      (current.replicaStage.any (·.previous.isNone) && !keepCreatedRecord) = true := by
  obtain ⟨stage, hstage⟩ := Option.isSome_iff_exists.mp hstage
  simp [RemovesStage, hstage]

omit [DecidableEq Cid] in
theorem isFileRecord_unstagedRecord (h : isFileRecord current = true) :
    isFileRecord (unstagedRecord current) = true := by
  unfold isFileRecord unstagedRecord at *
  simp only [Bool.and_eq_true] at h ⊢
  exact ⟨h.1, trivial⟩

variable (content) in
/-- Compensation puts the pin and the staged record back. -/
theorem run_restageCompensation (hvalid : isFileRecord current = true) {w₁ : World Cid}
    (hpins : w₁.pins = w.pins.erase current.cid) :
    ∃ answer w₂, Prog.run (serve content) (do
        let _ ← (if decide (current.cid ∈ w.pins) then pinFile current.cid else pure false)
        Locked.save current) w₁ = (answer, w₂) ∧
      (w₂.files.get current.cid).map FileRecord.unstamped = some current.unstamped ∧
      (current.cid ∈ w₂.pins ↔ current.cid ∈ w.pins) := by
  have hput (w₂ : World Cid) :
      ((w₂.put current hvalid).files.get current.cid).map FileRecord.unstamped =
        some current.unstamped := by
    rw [World.get_put, if_pos rfl]
    rfl
  by_cases hpin : current.cid ∈ w.pins
  · rw [decide_eq_true hpin, if_pos rfl, Prog.run_bind_ok run_pinFile, run_save hvalid]
    refine ⟨_, _, rfl, hput _, ?_⟩
    simp [hpin]
  · rw [decide_eq_false hpin, if_neg Bool.false_ne_true]
    refine ⟨_, _, (Prog.run_bind_ok rfl).trans (run_save hvalid), hput _, ?_⟩
    rw [World.pins_put, hpins, Finset.erase_eq_of_notMem hpin]

/-- A removal that fails is compensated, whatever the registry made of it. -/
theorem undoesFailedWrite_of_removes (hget : w.files.get current.cid = some current)
    {keepCreatedRecord : Bool} (hstage : current.replicaStage.isSome = true)
    (hremoves : RemovesStage current keepCreatedRecord) :
    UndoesFailedWrite content landed w current.cid
      (restoreReplicaStage current keepCreatedRecord) := by
  have hbranch := (removesStage_iff hstage keepCreatedRecord).mp hremoves
  have hpins : (if landed then (w.unpin current.cid).remove current.cid
      else w.unpin current.cid).pins = w.pins.erase current.cid := by
    split <;> rfl
  obtain ⟨answer, w₂, hrun, hrecord, hpin⟩ :=
    run_restageCompensation content (Registry.valid_of_get hget) hpins
  have hcode : Prog.run (failWrites content landed)
      (restoreReplicaStage current keepCreatedRecord) w =
        (.error (.aggregate (.io :: failureOf answer)
          "Replica rollback failed and its staged state was restored"), w₂) := by
    unfold restoreReplicaStage
    rw [Prog.run_bind_ok run_failWrites_unpinFile]
    simp only [hbranch, if_true]
    rw [Prog.run_tryCatch_error (Prog.run_bind_error run_failWrites_remove), Prog.run_bind,
      Prog.run_attempt, run_failWrites_compensating, hrun]
    rfl
  unfold UndoesFailedWrite
  rw [hcode]
  refine ⟨⟨_, rfl⟩, ?_, hpin⟩
  rw [hrecord, hget]
  rfl

/-- A save of the baseline that fails is not: the copy stays unpinned. -/
theorem run_failed_save (hget : w.files.get current.cid = some current)
    {keepCreatedRecord : Bool} (hstage : current.replicaStage.isSome = true)
    (hremoves : ¬RemovesStage current keepCreatedRecord) :
    Prog.run (failWrites content landed) (restoreReplicaStage current keepCreatedRecord) w =
      (.error .io, if landed then (w.unpin current.cid).put (unstagedRecord current)
          (isFileRecord_unstagedRecord (Registry.valid_of_get hget))
        else w.unpin current.cid) := by
  have hbranch := Bool.eq_false_iff.mpr ((removesStage_iff hstage keepCreatedRecord).not.mp hremoves)
  unfold restoreReplicaStage
  rw [Prog.run_bind_ok run_failWrites_unpinFile]
  simp only [hbranch, Bool.false_eq_true, if_false]
  exact Prog.run_bind_error (run_failWrites_save _)

/-- Record and pin survive such a save only where there was no pin to lose and
the save did not land. -/
theorem undoesFailedWrite_of_saves (hget : w.files.get current.cid = some current)
    {keepCreatedRecord : Bool} (hstage : current.replicaStage.isSome = true)
    (hremoves : ¬RemovesStage current keepCreatedRecord) :
    UndoesFailedWrite content landed w current.cid
        (restoreReplicaStage current keepCreatedRecord) ↔
      current.cid ∉ w.pins ∧ landed = false := by
  unfold UndoesFailedWrite
  rw [run_failed_save hget hstage hremoves]
  constructor
  · rintro ⟨-, hrecord, hpin⟩
    cases landed with
    | true =>
        -- the record is the baseline, which lists no transaction
        have hcid : (unstagedRecord current).cid = current.cid := rfl
        rw [if_pos rfl, World.get_put, hcid, if_pos rfl, hget] at hrecord
        have hnone := congrArg FileRecord.replicaStage (Option.some.inj hrecord)
        rw [show current.unstamped.replicaStage = current.replicaStage from rfl] at hnone
        rw [← hnone] at hstage
        exact absurd hstage Bool.false_ne_true
    | false =>
        refine ⟨fun hmem => ?_, rfl⟩
        exact Finset.notMem_erase _ _ (hpin.mpr hmem)
  · rintro ⟨hpin, rfl⟩
    refine ⟨⟨_, rfl⟩, rfl, ?_⟩
    rw [if_neg Bool.false_ne_true, World.pins_unpin, Finset.erase_eq_of_notMem hpin]

variable (content) in
/-- A withdrawal whose write fails undoes itself exactly when it was a removal,
or when it had unpinned nothing and written nothing. -/
theorem undoesFailedWrite_restoreReplicaStage (hget : w.files.get current.cid = some current)
    (keepCreatedRecord : Bool) (hstage : current.replicaStage.isSome = true) :
    UndoesFailedWrite content landed w current.cid
        (restoreReplicaStage current keepCreatedRecord) ↔
      RemovesStage current keepCreatedRecord ∨ (current.cid ∉ w.pins ∧ landed = false) := by
  by_cases hremoves : RemovesStage current keepCreatedRecord
  · exact iff_of_true (undoesFailedWrite_of_removes hget hstage hremoves) (.inl hremoves)
  · rw [undoesFailedWrite_of_saves hget hstage hremoves, or_iff_right hremoves]

/-! ### Last abort and expiry -/

/-- The transaction is the last one the stage lists, and may be aborted. -/
structure IsLastAbort (options : SettleReplicaOptions Cid) (current : FileRecord Cid) :
    Prop where
  cid : options.cid = current.cid
  last : ∃ stage, current.stageOf options.transactionId = some stage ∧
    isStageOwner (stage.origin options.transactionId) options.peerId = true ∧
    stage.transactionIds.filter (· ≠ options.transactionId) = []

/-- The collector planned to release this stage, and nothing changed since. -/
structure IsStageExpiry (proc : Process Cid) (record current : FileRecord Cid) : Prop where
  cid : record.cid = current.cid
  staged : current.replicaStage.isSome = true
  revision : current.revision = record.revision
  state : current.state ≠ .confirmed
  settled : isAdmissionInFlight proc current = false

omit [DecidableEq Cid] in
theorem IsLastAbort.staged {options : SettleReplicaOptions Cid} (h : IsLastAbort options current) :
    current.replicaStage.isSome = true := by
  obtain ⟨stage, hstage, -⟩ := h.last
  rw [(Option.filter_eq_some_iff.mp hstage).1]
  rfl

/-- The last abort is a withdrawal that keeps no record it created. -/
theorem undoesFailedWrite_abortReplica {options : SettleReplicaOptions Cid}
    (hget : w.files.get current.cid = some current) (h : IsLastAbort options current) :
    UndoesFailedWrite content landed w current.cid (abortReplica options) ↔
      RemovesStage current false ∨ (current.cid ∉ w.pins ∧ landed = false) := by
  obtain ⟨stage, hstage, howner, hlast⟩ := h.last
  set w₁ := (StoreOp.effect content (.rememberAbort options.cid options.transactionId
    (options.now + options.tombstoneTtlMs) options.now options.peerId) w).2
  have hcode : Prog.run (failWrites content landed) (abortReplica options) w =
      Prog.run (failWrites content landed) (restoreReplicaStage current false) w₁ := by
    unfold abortReplica
    rw [Prog.run_bind_ok run_failWrites_get, h.cid, hget]
    simp only [Option.bind_some, hstage, Option.map_some, howner, Bool.not_true,
      Bool.false_eq_true, if_false]
    refine (Prog.run_bind_ok (show _ = (Except.ok (), w₁) from Prog.run_perform)).trans ?_
    rw [hlast]
    rfl
  have hget₁ : w₁.files.get current.cid = some current := hget
  refine Iff.trans ?_ (undoesFailedWrite_restoreReplicaStage content hget₁ false h.staged)
  unfold UndoesFailedWrite
  rw [hcode]
  exact and_congr_right fun _ => ⟨fun hm => ⟨hm.record, hm.pin⟩, fun hm => ⟨hm.record, hm.pin⟩⟩

/-- The expiry of a stage keeps its record, so it never removes one. -/
theorem undoesFailedWrite_releasePlanned {record : FileRecord Cid}
    (hget : w.files.get current.cid = some current) (h : IsStageExpiry w.proc record current) :
    UndoesFailedWrite content landed w current.cid (releasePlanned record) ↔
      current.cid ∉ w.pins ∧ landed = false := by
  have hcode : Prog.run (failWrites content landed) (releasePlanned record) w =
      Prog.run (failWrites content landed) (restoreReplicaStage current true) w := by
    unfold releasePlanned
    rw [Prog.run_bind_ok run_failWrites_get, h.cid, hget]
    dsimp only
    refine (Prog.run_bind_ok (show _ = (Except.ok w.proc, w) from Prog.run_perform)).trans ?_
    rw [if_neg (by simp [h.revision, h.state, h.settled]), if_pos h.staged]
  have hkept : ¬RemovesStage current true := fun hremoves => Bool.noConfusion hremoves.2
  rw [← or_iff_right (b := current.cid ∉ w.pins ∧ landed = false) hkept,
    ← undoesFailedWrite_restoreReplicaStage content hget true h.staged]
  unfold UndoesFailedWrite
  rw [hcode]

/-- A withdrawal whose registry write fails rejects and leaves the staged record
and the pin as they were exactly when the write is the removal of a record that
the stage created, or when there was no pin to remove and the write did not
land. The last abort is one that removes such records, the expiry one that
keeps them. -/
theorem stage_withdrawal_iff (hget : w.files.get current.cid = some current)
    (hstage : current.replicaStage.isSome = true) (landed : Bool) :
    (∀ keepCreatedRecord,
      UndoesFailedWrite content landed w current.cid
          (restoreReplicaStage current keepCreatedRecord) ↔
        RemovesStage current keepCreatedRecord ∨ (current.cid ∉ w.pins ∧ landed = false)) ∧
    (∀ options, IsLastAbort options current →
      (UndoesFailedWrite content landed w current.cid (abortReplica options) ↔
        RemovesStage current false ∨ (current.cid ∉ w.pins ∧ landed = false))) ∧
    ∀ record, IsStageExpiry w.proc record current →
      (UndoesFailedWrite content landed w current.cid (releasePlanned record) ↔
        current.cid ∉ w.pins ∧ landed = false) :=
  ⟨fun keepCreatedRecord =>
      undoesFailedWrite_restoreReplicaStage content hget keepCreatedRecord hstage,
    fun _ h => undoesFailedWrite_abortReplica hget h,
    fun _ h => undoesFailedWrite_releasePlanned hget h⟩

end Withdrawal

namespace Rejoined

/-- A copy staged over a record that had expired. -/
def staged : FileRecord Nat :=
  { cid := 7, name := "file", state := .temporary, createdAt := 0, expiresAt := some 50
    confirmedAt := none, fileSize := 1, storedBytes := 1, protectedBytes := none
    pinned := true, heldLocally := true, replicas := [], admissionId := none
    admissionSettledAt := none
    replicaStage := some
      { transactionIds := ["t"], origins := none
        previous := some { expiresAt := some 5, confirmedAt := none } }
    revision := some 0 }

def node : World Nat :=
  { World.empty with
    files := { entries := [staged], keyed := by decide, valid := by decide }
    pins := {7}
    blocks := {7}
    nextRevision := 1 }

def abort : SettleReplicaOptions Nat :=
  { cid := 7, transactionId := "t", now := 10, tombstoneTtlMs := 5, peerId := none }

end Rejoined

open Rejoined in
/-- The last abort of a stage over an expired record, when its write fails. -/
theorem stage_withdrawal_of_rejoined :
    (UndoesFailedWrite Content.flat false node 7 (abortReplica abort) ↔
      RemovesStage staged false ∨ ((7 : Nat) ∉ node.pins ∧ false = false)) :=
  (@stage_withdrawal_iff Nat _ Content.flat node staged rfl rfl false).2.1 abort
    ⟨rfl, _, rfl, rfl, rfl⟩

open Rejoined in
/-- The save of the baseline rejects without landing, and the record still
claims a copy whose pin is gone. -/
theorem staged_record_without_pin :
    ¬ ∀ (w : World Nat) (current : FileRecord Nat) (landed keepCreatedRecord : Bool),
      w.files.get current.cid = some current → current.replicaStage.isSome = true →
      UndoesFailedWrite Content.flat landed w current.cid
        (restoreReplicaStage current keepCreatedRecord) := by
  intro h
  obtain ⟨-, hpin⟩ := h node staged false false rfl rfl
  have hunpinned : (7 : Nat) ∉ (Prog.run (failWrites Content.flat false)
      (restoreReplicaStage staged false) node).2.pins := by decide
  exact hunpinned (hpin.pin.mpr (by decide))

end IpfsNode
