import IpfsNode.Prog
import IpfsNode.Dag
import IpfsNode.Registry
import Mathlib.Data.Finset.Card

/-!
# The node

What lifecycle code works on: the registry and the pin intents in the
datastore, the pinset and the blockstore of Helia, and process memory. The
code reads and changes them one request at a time (`StoreOp`), and any request
to a datastore, the pinset or the blockstore may fail. A failed datastore
write or unpin may have landed all the same; a failed pin has pinned nothing,
because Helia writes the pin itself last.

Which requests may fail is a parameter of the semantics, so that a result can be
stated for undisturbed runs, for runs whose compensating steps succeed, or for
all of them.
-/

namespace IpfsNode

/-! ## Errors -/

inductive LifecycleError (Cid : Type) where
  /-- A datastore, pinset or blockstore call that failed. -/
  | io
  | alreadyPinned
  | pinNotFound
  /-- An offline walk of a DAG whose blocks are not all here. -/
  | missingBlocks
  | invalidRecord (cid : Cid)
  | busy (cid : Cid)
  | unprepared (cid : Cid)
  | alreadyAborted (transactionId : TransactionId) (cid : Cid)
  | stagedByAnotherPeer (transactionId : TransactionId)
  | unrelatedTemporary (cid : Cid)
  | unsettledUpload (cid : Cid)
  | uploadAborted
  | notStaged (transactionId : TransactionId) (cid : Cid)
  | missingLocalBlocks
  | changedBeforeCommit (cid : Cid)
  | changedDuringCommit (cid : Cid)
  /-- A lifecycle operation that failed and could not be undone either. -/
  | rollbackIncomplete (originalError : LifecycleError Cid)
      (errors : List (LifecycleError Cid))
  | aggregate (errors : List (LifecycleError Cid)) (message : String)

/-- The text of an error; failed calls carry the text of their own cause. -/
def LifecycleError.message {Cid : Type} (text : Cid → String) (cause : String) :
    LifecycleError Cid → String
  | io => cause
  | alreadyPinned => "Already pinned"
  | pinNotFound => "Not Found"
  | missingBlocks => cause
  | invalidRecord cid => "Refusing to store an invalid lifecycle record for " ++ text cid
  | busy cid => "CID " ++ text cid ++ " has an active lifecycle transaction"
  | unprepared cid =>
      "CID " ++ text cid ++ " must be fetched or validated before it can be adopted"
  | alreadyAborted transactionId cid =>
      "Replica transaction " ++ transactionId ++ " for " ++ text cid ++ " was already aborted"
  | stagedByAnotherPeer transactionId =>
      "Replica transaction " ++ transactionId ++ " was staged by another peer"
  | unrelatedTemporary cid =>
      "CID " ++ text cid ++ " already has an unrelated temporary lifecycle"
  | uploadAborted => "Upload was aborted before it could be committed"
  | unsettledUpload cid => "CID " ++ text cid ++ " belongs to an unsettled local upload"
  | notStaged transactionId cid =>
      "Replica transaction " ++ transactionId ++ " for " ++ text cid ++ " is not staged"
  | missingLocalBlocks => "Confirmed file is missing local blocks"
  | changedBeforeCommit cid => "Upload lifecycle changed before commit for " ++ text cid
  | changedDuringCommit cid =>
      "Upload lifecycle changed during replica commit for " ++ text cid
  | rollbackIncomplete originalError _ =>
      "Lifecycle operation failed and rollback was incomplete: "
        ++ originalError.message text cause
  | aggregate _ message => message

/-! ## Content and state -/

/-- What the CIDs name: their DAGs and the sizes an offline walk reports. -/
structure Content (Cid : Type) where
  dag : Dag Cid
  size : Cid → Nat
  deduplicatedDagSize : Cid → Nat

/-- Content whose files are single blocks. -/
def Content.flat {Cid : Type} : Content Cid where
  dag := Dag.flat
  size := fun _ => 1
  deduplicatedDagSize := fun _ => 1

structure World (Cid : Type) where
  files : Registry Cid
  pinIntents : Finset Cid
  pins : Finset Cid
  blocks : Finset Cid
  /-- Blocks the blockstore cannot delete at present. -/
  undeletable : Finset Cid
  /-- Every revision stamped so far is smaller. -/
  nextRevision : Nat
  /-- Every admission id handed out so far. -/
  issued : Finset AdmissionId
  proc : Process Cid

/-- What a process knows when it starts. -/
def Process.fresh {Cid : Type} : Process Cid where
  activeAdmissions := ∅
  activeRepairs := ∅
  abortedTransactions := []

/-- A node that stores nothing. -/
def World.empty {Cid : Type} [DecidableEq Cid] : World Cid where
  files := Registry.empty
  pinIntents := ∅
  pins := ∅
  blocks := ∅
  undeletable := ∅
  nextRevision := 0
  issued := ∅
  proc := Process.fresh

section Durability

variable {Cid : Type} [DecidableEq Cid]

/-- A copy that no stage and no upload can withdraw, under a pin of its own. -/
def World.holdsDurably (w : World Cid) (cid : Cid) : Bool :=
  cid ∈ w.pins && (w.files.get cid).any (·.isDurable)

end Durability

/-! ## Abort markers -/

def MAX_ABORT_TOMBSTONES : Nat := 10000

section Tombstones

variable {Cid : Type} [DecidableEq Cid]

/-- Drop the oldest markers while there are too many. -/
def dropOldest : List (AbortKey Cid × Nat) → List (AbortKey Cid × Nat)
  | [] => []
  | oldest :: rest =>
      if MAX_ABORT_TOMBSTONES < (oldest :: rest).length then dropOldest rest
      else oldest :: rest

def pruneAbortTombstones (aborted : List (AbortKey Cid × Nat)) (now : Nat) :
    List (AbortKey Cid × Nat) :=
  dropOldest (aborted.filter fun marker => now < marker.2)

/-- `Map.set`: a key that is already there keeps its place. -/
def setTombstone (aborted : List (AbortKey Cid × Nat)) (key : AbortKey Cid)
    (expiresAt : Nat) : List (AbortKey Cid × Nat) :=
  if aborted.any (·.1 = key) then
    aborted.map fun marker => if marker.1 = key then (key, expiresAt) else marker
  else aborted ++ [(key, expiresAt)]

def transactionKey (cid : Cid) (transactionId : TransactionId)
    (originPeerId : Option PeerId) : AbortKey Cid :=
  ⟨cid, transactionId, originPeerId.getD ""⟩

def rememberAbort (aborted : List (AbortKey Cid × Nat)) (cid : Cid)
    (transactionId : TransactionId) (expiresAt now : Nat) (originPeerId : Option PeerId) :
    List (AbortKey Cid × Nat) :=
  pruneAbortTombstones (setTombstone (pruneAbortTombstones aborted now)
    (transactionKey cid transactionId originPeerId) expiresAt) now

/-- A caller without a peer id is stopped by any marker of the transaction. -/
def wasAborted (aborted : List (AbortKey Cid × Nat)) (cid : Cid)
    (transactionId : TransactionId) (originPeerId : Option PeerId) (now : Nat) : Bool :=
  let aborted := pruneAbortTombstones aborted now
  match originPeerId with
  | none => aborted.any fun marker =>
      marker.1.cid = cid && marker.1.transactionId = transactionId
  | some _ => aborted.any fun marker =>
      marker.1 = transactionKey cid transactionId none
        || marker.1 = transactionKey cid transactionId originPeerId

end Tombstones

/-! ## Requests -/

/-- A stored record carries a revision of its own. -/
def FileRecord.stamped {Cid : Type} (record : FileRecord Cid) (revision : Nat) :
    FileRecord Cid :=
  { record with revision := some revision }

@[simp] theorem isFileRecord_stamped {Cid : Type} (record : FileRecord Cid) (revision : Nat) :
    isFileRecord (record.stamped revision) = isFileRecord record := rfl

inductive StoreOp (Cid : Type) where
  | allRecords
  | getRecord (cid : Cid)
  | putRecord (record : FileRecord Cid) (h : isFileRecord record = true)
  | deleteRecord (cid : Cid)
  | putIntent (cid : Cid)
  | deleteIntent (cid : Cid)
  | getIntent (cid : Cid)
  | pinsAdd (cid : Cid)
  | pinsRm (cid : Cid)
  | pinsGet (cid : Cid)
  | isPinned (cid : Cid)
  | statDag (cid : Cid)
  | gc
  /-- Blocks that an import, a pull or a read brings in. -/
  | importBlocks (blocks : Finset Cid)
  | process
  | wasAborted (cid : Cid) (transactionId : TransactionId) (originPeerId : Option PeerId)
      (now : Nat)
  | rememberAbort (cid : Cid) (transactionId : TransactionId) (expiresAt now : Nat)
      (originPeerId : Option PeerId)
  | beginAdmission (admissionId : AdmissionId)
  | endAdmission (admissionId : AdmissionId)
  | beginRepair (cid : Cid)
  | endRepair (cid : Cid)

/-- Sizes an offline walk reports. -/
structure DagStats where
  size : Nat
  deduplicatedDagSize : Nat
deriving DecidableEq, Repr

namespace StoreOp

variable {Cid : Type}

def Ret : StoreOp Cid → Type
  | allRecords => List (FileRecord Cid)
  | getRecord _ => Option (FileRecord Cid)
  | putRecord .. => FileRecord Cid
  | getIntent _ | isPinned _ | wasAborted .. | beginRepair _ => Bool
  | statDag _ => DagStats
  | gc => Nat
  | process => Process Cid
  | _ => Unit

/-- Requests that leave the process and may fail. -/
def fallible : StoreOp Cid → Bool
  | process | wasAborted .. | rememberAbort .. | beginAdmission _ | endAdmission _
  | beginRepair _ | endRepair _ => false
  | _ => true

/-- Requests that may have landed when they fail. -/
def mayLand : StoreOp Cid → Bool
  | putRecord .. | deleteRecord _ | putIntent _ | deleteIntent _ | pinsRm _ => true
  | _ => false

variable [DecidableEq Cid]

/-- What a request answers and does when the node serves it. -/
def effect (content : Content Cid) :
    (o : StoreOp Cid) → World Cid → Except (LifecycleError Cid) o.Ret × World Cid
  | allRecords, w => (.ok w.files.entries, w)
  | getRecord cid, w => (.ok (w.files.get cid), w)
  | putRecord record h, w =>
      let stored := record.stamped w.nextRevision
      (.ok stored, { w with
        files := w.files.put stored ((isFileRecord_stamped ..).trans h), nextRevision := w.nextRevision + 1 })
  | deleteRecord cid, w => (.ok (), { w with files := w.files.delete cid })
  | putIntent cid, w => (.ok (), { w with pinIntents := insert cid w.pinIntents })
  | deleteIntent cid, w => (.ok (), { w with pinIntents := w.pinIntents.erase cid })
  | getIntent cid, w => (.ok (decide (cid ∈ w.pinIntents)), w)
  | pinsAdd cid, w =>
      if cid ∈ w.pins then (.error .alreadyPinned, w)
      else (.ok (), { w with
        pins := insert cid w.pins, blocks := w.blocks ∪ content.dag.blocks cid })
  | pinsRm cid, w =>
      if cid ∈ w.pins then (.ok (), { w with pins := w.pins.erase cid })
      else (.error .pinNotFound, w)
  | pinsGet cid, w => if cid ∈ w.pins then (.ok (), w) else (.error .pinNotFound, w)
  | isPinned cid, w => (.ok (decide (content.dag.Protects w.pins cid)), w)
  | statDag cid, w =>
      if content.dag.Complete w.blocks cid then
        (.ok ⟨content.size cid, content.deduplicatedDagSize cid⟩, w)
      else (.error .missingBlocks, w)
  -- answers with the number of blocks that could not be deleted
  | gc, w =>
      let collected := content.dag.collect w.pins w.blocks
      let left := (w.blocks \ collected) ∩ w.undeletable
      (.ok left.card, { w with blocks := collected ∪ left })
  | importBlocks blocks, w => (.ok (), { w with blocks := w.blocks ∪ blocks })
  | process, w => (.ok w.proc, w)
  | wasAborted cid transactionId originPeerId now, w =>
      (.ok (IpfsNode.wasAborted w.proc.abortedTransactions cid transactionId originPeerId now),
        { w with proc := { w.proc with
            abortedTransactions := pruneAbortTombstones w.proc.abortedTransactions now } })
  | rememberAbort cid transactionId expiresAt now originPeerId, w =>
      (.ok (), { w with proc := { w.proc with
        abortedTransactions := IpfsNode.rememberAbort w.proc.abortedTransactions cid
          transactionId expiresAt now originPeerId } })
  -- an id that was handed out before does not come up again
  | beginAdmission admissionId, w =>
      if admissionId = "" ∨ admissionId ∈ w.issued then (.error .io, w)
      else (.ok (), { w with
        issued := insert admissionId w.issued
        proc := { w.proc with
          activeAdmissions := insert admissionId w.proc.activeAdmissions } })
  | endAdmission admissionId, w =>
      (.ok (), { w with proc := { w.proc with
        activeAdmissions := w.proc.activeAdmissions.erase admissionId } })
  | beginRepair cid, w =>
      if cid ∈ w.proc.activeRepairs then (.ok false, w)
      else (.ok true, { w with proc := { w.proc with
        activeRepairs := insert cid w.proc.activeRepairs } })
  | endRepair cid, w =>
      (.ok (), { w with proc := { w.proc with activeRepairs := w.proc.activeRepairs.erase cid } })

end StoreOp

/-! ## Runs -/

/-- A request, and whether it undoes earlier steps of a transition that failed. -/
structure Request (Cid : Type) where
  op : StoreOp Cid
  compensating : Bool

abbrev Request.Ret {Cid : Type} (r : Request Cid) : Type := r.op.Ret

/-- Which requests may fail. -/
abbrev Faults (Cid : Type) := Request Cid → Prop

def anyFault {Cid : Type} : Faults Cid := fun _ => True

def noFault {Cid : Type} : Faults Cid := fun _ => False

/-- Every step may fail but those that compensate for another one. -/
def ordinaryFault {Cid : Type} : Faults Cid := fun r => r.compensating = false

/-- Compensation succeeds. -/
def Faults.Ordinary {Cid : Type} (faults : Faults Cid) : Prop :=
  ∀ r, faults r → r.compensating = false

section Semantics

variable {Cid : Type} [DecidableEq Cid] (content : Content Cid) (faults : Faults Cid)

/-- A request is served, or fails before or after it took effect. -/
inductive StoreStep (r : Request Cid) (w : World Cid) :
    Except (LifecycleError Cid) r.Ret → World Cid → Prop
  | served : StoreStep r w (r.op.effect content w).1 (r.op.effect content w).2
  | failed (hfault : faults r) (hfallible : r.op.fallible = true) :
      StoreStep r w (.error .io) w
  | landed (hfault : faults r) (hland : r.op.mayLand = true) :
      StoreStep r w (.error .io) (r.op.effect content w).2

def storeSem : Prog.Sem (Request Cid) Request.Ret (LifecycleError Cid) (World Cid) :=
  StoreStep content faults

/-- Serve every request. -/
def serve (r : Request Cid) (w : World Cid) :
    Except (LifecycleError Cid) r.Ret × World Cid :=
  r.op.effect content w

end Semantics

/-- Lifecycle code. -/
abbrev Store (Cid : Type) (α : Type) :=
  Prog (Request Cid) Request.Ret (LifecycleError Cid) α

/-! ## The registry view and the pinset -/

section Calls

variable {Cid : Type}

def request (o : StoreOp Cid) : Store Cid o.Ret :=
  Prog.perform (⟨o, false⟩ : Request Cid)

/-- The same requests, made to undo earlier ones. -/
def compensating {α : Type} : Store Cid α → Store Cid α
  | .ret a => .ret a
  | .fail err => .fail err
  | .act r k => .act { r with compensating := true } fun answer => compensating (k answer)

namespace Locked

def get (cid : Cid) : Store Cid (Option (FileRecord Cid)) := request (.getRecord cid)

/-- Every stored record gets a revision of its own, and is checked on the way in. -/
def save (record : FileRecord Cid) : Store Cid (FileRecord Cid) :=
  if h : isFileRecord record = true then request (.putRecord record h)
  else throw (.invalidRecord record.cid)

theorem save_valid {record : FileRecord Cid} (h : isFileRecord record = true) :
    save record = request (.putRecord record h) :=
  dif_pos h

theorem save_invalid {record : FileRecord Cid} (h : isFileRecord record = false) :
    save record = throw (.invalidRecord record.cid) :=
  dif_neg (by simp [h])

def remove (cid : Cid) : Store Cid Unit := request (.deleteRecord cid)

def markPinIntent (cid : Cid) : Store Cid Unit := request (.putIntent cid)

def clearPinIntent (cid : Cid) : Store Cid Unit := request (.deleteIntent cid)

def hasPinIntent (cid : Cid) : Store Cid Bool := request (.getIntent cid)

end Locked

def process : Store Cid (Process Cid) := request .process

/-- Pin a DAG; `false` when it carries a direct pin already. -/
def pinFile (cid : Cid) : Store Cid Bool :=
  tryCatch (do
    request (.pinsAdd cid)
    pure true)
  fun
    | .alreadyPinned => pure false
    | err => throw err

/-- Remove the direct pin of a DAG; `false` when there is none. -/
def unpinFile (cid : Cid) : Store Cid Bool :=
  tryCatch (do
    request (.pinsRm cid)
    pure true)
  fun
    | .pinNotFound => pure false
    | err => throw err

def isProtected (cid : Cid) : Store Cid Bool := request (.isPinned cid)

def isDirectlyPinned (cid : Cid) : Store Cid Bool :=
  tryCatch (do
    request (.pinsGet cid)
    pure true)
  fun
    | .pinNotFound => pure false
    | err => throw err

def statDag (cid : Cid) : Store Cid DagStats := request (.statDag cid)

def hasLocalDag (cid : Cid) : Store Cid Bool :=
  tryCatch (do
    let _ ← statDag cid
    pure true)
  fun _ => pure false

end Calls

/-! ## What any code does -/

section Runs

variable {Cid α : Type} [DecidableEq Cid] {content : Content Cid} {faults faults' : Faults Cid}
variable {p : Store Cid α} {w w' : World Cid} {r : Except (LifecycleError Cid) α}

theorem StoreStep.mono (hfaults : ∀ q, faults q → faults' q) {q : Request Cid}
    {r : Except (LifecycleError Cid) q.Ret} (h : StoreStep content faults q w r w') :
    StoreStep content faults' q w r w' := by
  cases h with
  | served => exact .served
  | failed hfault hfallible => exact .failed (hfaults q hfault) hfallible
  | landed hfault hland => exact .landed (hfaults q hfault) hland

/-- A compensating request does what the request does. -/
theorem StoreStep.of_compensating {q : Request Cid} {r : Except (LifecycleError Cid) q.Ret}
    (h : StoreStep content faults { q with compensating := true } w r w') :
    StoreStep content anyFault q w r w' := by
  rcases h with _ | ⟨-, hfallible⟩ | ⟨-, hland⟩
  · exact .served
  · exact .failed trivial hfallible
  · exact .landed trivial hland

theorem runs_anyFault (h : Prog.Runs (storeSem content faults) p w r w') :
    Prog.Runs (storeSem content anyFault) p w r w' :=
  h.mono fun _ _ _ _ hstep => hstep.mono fun _ _ => trivial

/-- Compensation is ordinary code as far as its effects go. -/
theorem runs_compensating_anyFault
    (h : Prog.Runs (storeSem content faults) (compensating p) w r w') :
    Prog.Runs (storeSem content anyFault) p w r w' := by
  induction p generalizing w with
  | ret a => cases h; exact .ret
  | fail err => cases h; exact .fail
  | act q k ih =>
      cases h with
      | act hstep hk => exact .act (StoreStep.of_compensating hstep) (ih _ hk)

/-- Without faults a program has one run. -/
theorem runs_noFault :
    Prog.Runs (storeSem content noFault) p w r w' ↔
      (r, w') = Prog.run (serve content) p w := by
  refine Prog.runs_iff_run fun q w r w' => ⟨fun h => ?_, fun h => ?_⟩
  · cases h with
    | served => rfl
    | failed hfault => exact hfault.elim
    | landed hfault => exact hfault.elim
  · obtain ⟨rfl, rfl⟩ := Prod.ext_iff.mp h
    exact .served

/-- Compensation has one run when only ordinary steps fail. -/
theorem runs_compensating (hfaults : faults.Ordinary) :
    Prog.Runs (storeSem content faults) (compensating p) w r w' ↔
      (r, w') = Prog.run (serve content) p w := by
  have hnot : ∀ q : Request Cid, ¬ faults { q with compensating := true } := fun q hfault =>
    Bool.noConfusion (hfaults _ hfault)
  induction p generalizing w with
  | ret a =>
      refine ⟨fun h => by cases h; rfl, fun h => ?_⟩
      cases h
      exact .ret
  | fail err =>
      refine ⟨fun h => by cases h; rfl, fun h => ?_⟩
      cases h
      exact .fail
  | act q k ih =>
      refine ⟨fun h => ?_, fun h => ?_⟩
      · cases h with
        | act hstep hk =>
            cases hstep with
            | served => exact (ih _).mp hk
            | failed hfault => exact absurd hfault (hnot q)
            | landed hfault => exact absurd hfault (hnot q)
      · exact .act .served ((ih _).mpr h)

theorem wp_noFault {Q : Except (LifecycleError Cid) α → World Cid → Prop} :
    Prog.wp (storeSem content noFault) p Q w ↔
      Q (Prog.run (serve content) p w).1 (Prog.run (serve content) p w).2 := by
  simp only [Prog.wp_iff_runs, runs_noFault]
  refine ⟨fun h => h _ _ rfl, fun h r w' hr => ?_⟩
  rw [← hr] at h
  exact h

theorem wp_compensating {Q : Except (LifecycleError Cid) α → World Cid → Prop}
    (hfaults : faults.Ordinary) :
    Prog.wp (storeSem content faults) (compensating p) Q w ↔
      Q (Prog.run (serve content) p w).1 (Prog.run (serve content) p w).2 := by
  simp only [Prog.wp_iff_runs, runs_compensating hfaults]
  refine ⟨fun h => h _ _ rfl, fun h r w' hr => ?_⟩
  rw [← hr] at h
  exact h

end Runs

/-! ## What never goes back

A record that appears under a CID carries a revision nobody stamped before, and
an upload that has ended does not run again. -/

section Evolution

variable {Cid α : Type} [DecidableEq Cid]

structure World.Evolves (w w' : World Cid) : Prop where
  revision : w.nextRevision ≤ w'.nextRevision
  record : ∀ cid record, w'.files.get cid = some record →
    w.files.get cid = some record ∨ ∃ n, record.revision = some n ∧ w.nextRevision ≤ n
  issued : w.issued ⊆ w'.issued
  ended : ∀ id ∈ w.issued, id ∉ w.proc.activeAdmissions → id ∉ w'.proc.activeAdmissions

/-- Revisions to come are new. -/
def World.Stamped (w : World Cid) : Prop :=
  ∀ cid record n, w.files.get cid = some record → record.revision = some n →
    n < w.nextRevision

theorem World.Evolves.refl (w : World Cid) : w.Evolves w :=
  ⟨le_rfl, fun _ _ h => .inl h, fun _ h => h, fun _ _ h => h⟩

theorem World.Evolves.trans {w₁ w₂ w₃ : World Cid} (h : w₁.Evolves w₂)
    (h' : w₂.Evolves w₃) : w₁.Evolves w₃ where
  revision := h.revision.trans h'.revision
  record := by
    intro cid record hget
    rcases h'.record cid record hget with hget | ⟨n, hn, hle⟩
    · exact h.record cid record hget
    · exact .inr ⟨n, hn, h.revision.trans hle⟩
  issued := h.issued.trans h'.issued
  ended := fun id hid hnot => h'.ended id (h.issued hid) (h.ended id hid hnot)

/-- A change that leaves revisions, ids and admissions alone and adds no record. -/
theorem World.Evolves.of_same {w w' : World Cid} (hrev : w'.nextRevision = w.nextRevision)
    (hissued : w'.issued = w.issued)
    (hactive : w'.proc.activeAdmissions ⊆ w.proc.activeAdmissions)
    (hfiles : ∀ cid record, w'.files.get cid = some record → w.files.get cid = some record) :
    w.Evolves w' where
  revision := hrev.ge
  record := fun cid record h => .inl (hfiles cid record h)
  issued := hissued.ge
  ended := fun _ _ hnot hmem => hnot (hactive hmem)

theorem StoreOp.evolves_effect (content : Content Cid) (o : StoreOp Cid) (w : World Cid) :
    w.Evolves (o.effect content w).2 := by
  cases o with
  | putRecord record h =>
      refine ⟨Nat.le_succ _, fun cid r hr => ?_, fun _ hid => hid, fun _ _ hnot => hnot⟩
      simp only [effect, Registry.get_put] at hr
      split at hr
      · cases hr
        exact .inr ⟨w.nextRevision, rfl, le_rfl⟩
      · exact .inl hr
  | deleteRecord cid =>
      refine .of_same rfl rfl (fun _ h => h) fun cid' r hr => ?_
      simp only [effect, Registry.get_delete] at hr
      split at hr
      · cases hr
      · exact hr
  | pinsAdd | pinsRm | pinsGet | statDag | beginRepair =>
      simp only [effect]
      split <;> exact .of_same rfl rfl (fun _ h => h) fun _ _ h => h
  | endAdmission =>
      exact .of_same rfl rfl (Finset.erase_subset _ _) fun _ _ h => h
  | beginAdmission id =>
      simp only [effect]
      split
      · exact .refl w
      · rename_i hnew
        refine ⟨le_rfl, fun _ _ h => .inl h, Finset.subset_insert _ _, fun id' hid hnot => ?_⟩
        rw [Finset.mem_insert]
        rintro (rfl | hmem)
        · exact hnew (.inr hid)
        · exact hnot hmem
  | _ =>
      simp only [effect]
      exact .of_same rfl rfl (fun _ h => h) fun _ _ h => h

variable {content : Content Cid} {faults : Faults Cid}

theorem StoreStep.evolves {q : Request Cid} {w w' : World Cid}
    {r : Except (LifecycleError Cid) q.Ret} (h : StoreStep content faults q w r w') :
    w.Evolves w' := by
  cases h with
  | served => exact q.op.evolves_effect content w
  | failed => exact .refl w
  | landed => exact q.op.evolves_effect content w

/-- Whatever code runs, revisions and admissions only move forward. -/
theorem runs_evolves {p : Store Cid α} {w w' : World Cid}
    {r : Except (LifecycleError Cid) α} (h : Prog.Runs (storeSem content faults) p w r w') :
    w.Evolves w' := by
  induction h with
  | ret => exact .refl _
  | fail => exact .refl _
  | act hstep _ ih => exact (StoreStep.evolves hstep).trans ih

theorem StoreOp.stamped_effect (content : Content Cid) (o : StoreOp Cid) {w : World Cid}
    (h : w.Stamped) : (o.effect content w).2.Stamped := by
  cases o with
  | putRecord record hvalid =>
      intro cid r n hr hn
      simp only [effect, Registry.get_put] at hr ⊢
      split at hr
      · cases hr
        cases hn
        exact Nat.lt_succ_self _
      · exact Nat.lt_succ_of_lt (h cid r n hr hn)
  | deleteRecord cid =>
      intro cid' r n hr hn
      simp only [effect, Registry.get_delete] at hr
      split at hr
      · cases hr
      · exact h cid' r n hr hn
  | pinsAdd | pinsRm | pinsGet | statDag | beginRepair | beginAdmission =>
      simp only [effect]
      split <;> exact h
  | _ =>
      simp only [effect]
      exact h

theorem runs_stamped {p : Store Cid α} {w w' : World Cid}
    {r : Except (LifecycleError Cid) α} (h : Prog.Runs (storeSem content faults) p w r w')
    (hw : w.Stamped) : w'.Stamped := by
  induction h with
  | ret => exact hw
  | fail => exact hw
  | @act q k w r w' res w'' hstep _ ih =>
      refine ih ?_
      cases hstep with
      | served => exact q.op.stamped_effect content hw
      | failed => exact hw
      | landed => exact q.op.stamped_effect content hw

end Evolution

end IpfsNode
