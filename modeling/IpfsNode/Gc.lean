import IpfsNode.ReplicaStage
import Mathlib.Data.List.Sort

/-!
# Garbage collection: plan and steps

A collection is planned from one scan of the registry, and applied file by
file under the lock of each CID: first the pins of confirmed files are checked
and restored, then reclaimable files are released, then Helia deletes every
unprotected block, and last the records of the released files are removed.
Each step decides again from the record as it is by then.
-/

namespace IpfsNode

/-! ## The plan -/

structure Watermarks where
  highWatermarkBytes : Nat
  lowWatermarkBytes : Nat
deriving DecidableEq, Repr

/-- What a run measured before it planned. -/
structure GcMeasures where
  blockstoreBytes : Nat
  /-- Bytes already unpinned and removable without releasing a file. -/
  reclaimableBytes : Option Nat
  watermarks : Watermarks
  availableBytes : Option Nat
  reserveBytes : Option Nat
deriving DecidableEq, Repr

inductive CollectionTrigger where
  | none
  | watermark
  | diskReserve
  | forced
deriving DecidableEq, Repr

structure GcPlan (Cid : Type) where
  shouldCollect : Bool
  trigger : CollectionTrigger
  /-- Files released by their expiry, whatever the watermarks. -/
  expired : List (FileRecord Cid)
  /-- Files evicted to bring the blockstore below the low watermark. -/
  evicted : List (FileRecord Cid)
  retained : List (FileRecord Cid)
  estimatedBytesAfter : Nat
deriving DecidableEq, Repr

namespace GcMeasures

variable (measures : GcMeasures)

def overWatermark : Bool :=
  measures.watermarks.highWatermarkBytes < measures.blockstoreBytes

def underReserve : Bool :=
  match measures.availableBytes, measures.reserveBytes with
  | some available, some reserve => available < reserve
  | _, _ => false

/-- Bytes to bring back for the reserve, with a quarter of it on top. -/
def reserveTarget : Int :=
  match measures.availableBytes, measures.reserveBytes with
  | some available, some reserve =>
      if available < reserve then ((5 * reserve + 3) / 4 : Nat) - (available : Int) else 0
  | _, _ => 0

def stillShort (estimatedBytesAfter : Int) : Bool :=
  (measures.overWatermark && (measures.watermarks.lowWatermarkBytes : Int) < estimatedBytesAfter)
    || (measures.blockstoreBytes : Int) - estimatedBytesAfter < measures.reserveTarget

end GcMeasures

section Plan

variable {Cid : Type} [DecidableEq Cid]

/-- What is left of the estimate when the pinned records of the list go. -/
def estimateWithout (estimate : Int) (records : List (FileRecord Cid)) : Int :=
  records.foldl (fun estimate record =>
    if record.pinned then estimate - protectedStorageBytes record else estimate) estimate

/-- Evict the oldest files while space is short. -/
def evictWhileShort (measures : GcMeasures) :
    List (FileRecord Cid) → Int → List (FileRecord Cid) × Int
  | [], estimate => ([], estimate)
  | record :: rest, estimate =>
      if measures.stillShort estimate then
        let (evicted, left) :=
          evictWhileShort measures rest (estimate - protectedStorageBytes record)
        (record :: evicted, left)
      else ([], estimate)

/-- Files whose time is over and that no upload owns. -/
def planExpired (proc : Process Cid) (records : List (FileRecord Cid)) (now : Nat) :
    List (FileRecord Cid) :=
  records.filter fun record => record.state ≠ .confirmed && isExpired record now
    && !isAdmissionInFlight proc record

/-- Unconfirmed files that may be evicted, oldest first. -/
def planAlive (proc : Process Cid) (records : List (FileRecord Cid)) (now : Nat) :
    List (FileRecord Cid) :=
  (records.filter fun record => record.state ≠ .confirmed && record.replicaStage.isNone
    && !isExpired record now && !isAdmissionInFlight proc record).insertionSort
      fun a b => a.createdAt ≤ b.createdAt

def planGarbageCollection (measures : GcMeasures) (proc : Process Cid)
    (records : List (FileRecord Cid)) (now : Nat) : GcPlan Cid :=
  let expired := planExpired proc records now
  let reclaimable := min measures.blockstoreBytes (measures.reclaimableBytes.getD 0)
  let estimate := estimateWithout (measures.blockstoreBytes - reclaimable : Int) expired
  let shouldCollect := measures.overWatermark || measures.underReserve
  let (evicted, estimatedBytesAfter) :=
    if shouldCollect then evictWhileShort measures (planAlive proc records now) estimate
    else ([], estimate)
  let releasedCids := (expired ++ evicted).map (·.cid)
  { shouldCollect
    trigger :=
      if measures.overWatermark then .watermark
      else if measures.underReserve then .diskReserve
      else .none
    expired
    evicted
    retained := records.filter (·.cid ∉ releasedCids)
    estimatedBytesAfter := estimatedBytesAfter.toNat }

def GcPlan.released (plan : GcPlan Cid) : List (FileRecord Cid) :=
  plan.expired ++ plan.evicted

/-- Durable content this node must be found to protect. -/
def GcPlan.heldConfirmed (plan : GcPlan Cid) : List (FileRecord Cid) :=
  plan.retained.filter fun record => record.state = .confirmed && record.heldLocally

end Plan

section PlanFacts

variable {Cid : Type} [DecidableEq Cid] {measures : GcMeasures} {proc : Process Cid}
variable {records : List (FileRecord Cid)} {now : Nat} {record : FileRecord Cid}

omit [DecidableEq Cid] in
theorem mem_evictWhileShort {estimate : Int}
    (h : record ∈ (evictWhileShort measures records estimate).1) : record ∈ records := by
  induction records generalizing estimate with
  | nil => simp [evictWhileShort] at h
  | cons first rest ih =>
      unfold evictWhileShort at h
      split at h
      · rcases List.mem_cons.mp h with rfl | h
        · exact List.mem_cons_self
        · exact List.mem_cons_of_mem _ (ih h)
      · cases h

/-- Only unconfirmed files that no upload owns are released. -/
theorem mem_released
    (h : record ∈ (planGarbageCollection measures proc records now).released) :
    record ∈ records ∧ record.state ≠ .confirmed ∧ isAdmissionInFlight proc record = false := by
  unfold GcPlan.released planGarbageCollection at h
  rcases List.mem_append.mp h with h | h
  · have h := List.mem_filter.mp h
    simp only [Bool.and_eq_true, decide_eq_true_eq, Bool.not_eq_true'] at h
    exact ⟨h.1, h.2.1.1, h.2.2⟩
  · have hmem : record ∈ planAlive proc records now := by
      dsimp only at h
      split at h
      · exact mem_evictWhileShort h
      · cases h
    have h := List.mem_filter.mp ((List.mem_insertionSort _).mp hmem)
    simp only [Bool.and_eq_true, decide_eq_true_eq, Bool.not_eq_true'] at h
    exact ⟨h.1, h.2.1.1.1, h.2.2⟩

/-- The guarded files are exactly the durable ones this node holds. -/
theorem mem_heldConfirmed {files : Registry Cid} :
    record ∈ (planGarbageCollection measures proc files.entries now).heldConfirmed ↔
      record ∈ files.entries ∧ record.state = .confirmed ∧ record.heldLocally = true := by
  set plan := planGarbageCollection measures proc files.entries now with hplan
  have hretained : plan.retained =
      files.entries.filter (·.cid ∉ plan.released.map (·.cid)) := rfl
  rw [GcPlan.heldConfirmed, hretained]
  simp only [List.mem_filter, Bool.and_eq_true, decide_eq_true_eq]
  refine ⟨fun h => ⟨h.1.1, h.2⟩, fun h => ⟨⟨h.1, fun hmem => ?_⟩, h.2⟩⟩
  obtain ⟨other, hother, hcid⟩ := List.mem_map.mp hmem
  obtain ⟨hentry, hstate, -⟩ := mem_released hother
  have hsame : other = record := by
    have hget := Registry.get_of_mem hentry
    rw [hcid, Registry.get_of_mem h.1] at hget
    exact (Option.some.inj hget).symm
  exact hstate (hsame ▸ h.2.1)

end PlanFacts

/-! ## The steps -/

section Steps

variable {Cid : Type} [DecidableEq Cid]

def repinnedRecord (current : FileRecord Cid) : FileRecord Cid :=
  { current with pinned := true }

/-- Restore the pin of a confirmed file; `true` when it was missing. -/
def guardPin (cid : Cid) : Store Cid Bool := do
  let current ← Locked.get cid
  match current with
  | none => pure false
  | some current =>
      if current.state ≠ .confirmed || !current.heldLocally then pure false
      else do
        let isSafe ← isProtected cid
        if isSafe then pure false
        else do
          let isLocal ← hasLocalDag cid
          if !isLocal then throw .missingLocalBlocks
          else do
            let createdPin ← pinFile cid
            try
              let _ ← Locked.save (repinnedRecord current)
              pure true
            catch err =>
              if createdPin && current.pinned = false then do
                let _ ← compensating (unpinFile cid)
                throw err
              else throw err

/-- Release a file if it is still the one that was planned. -/
def releasePlanned (record : FileRecord Cid) : Store Cid (Option (FileRecord Cid)) := do
  let current ← Locked.get record.cid
  match current with
  | none => pure none
  | some current => do
      let proc ← process
      if current.revision ≠ record.revision || current.state = .confirmed
          || isAdmissionInFlight proc current then pure none
      else if current.replicaStage.isSome then restoreReplicaStage current true
      else do
        let removedPin ← unpinFile record.cid
        try
          let stored ← Locked.save (current.released .expired)
          pure (some stored)
        catch err =>
          if removedPin && current.pinned then do
            let _ ← compensating (pinFile record.cid)
            throw err
          else throw err

/-- Remove a record if it is still the one the run released. -/
def cleanupReleased (record : FileRecord Cid) : Store Cid Unit := do
  let current ← Locked.get record.cid
  match current with
  | none => pure ()
  | some current =>
      if current.revision = record.revision then Locked.remove record.cid else pure ()

end Steps

/-! ## What a policy has to allow -/

section Policies

variable {Cid : Type} {content : Content Cid} {P : Policy Cid} [DecidableEq Cid]

theorem safe_guardPin {cid : Cid}
    (hsave : ∀ current, P.Reads cid (some current) → current.state = .confirmed →
      current.heldLocally = true → P.Allows (repinnedRecord current)) :
    Safe content P (guardPin cid) := by
  refine safe_get_bind fun current hread => ?_
  cases current with
  | none => exact safe_pure _
  | some current =>
      dsimp only
      split
      · exact safe_pure _
      · rename_i hskip
        simp only [Bool.or_eq_true, not_or, decide_eq_true_eq, not_not, Bool.not_eq_true',
          Bool.not_eq_false] at hskip
        have hsave := hsave current hread hskip.1 hskip.2
        refine safe_bind (safe_isProtected _) fun isSafe => ?_
        split
        · exact safe_pure _
        · refine safe_bind (safe_hasLocalDag _) fun isLocal => ?_
          split
          · exact safe_throw _
          · refine (keeps_pinFile _).safe_bind fun createdPin hpin => ?_
            refine safe_tryCatch (safe_bind (safe_save hsave) fun _ => safe_pure _)
              fun err => ?_
            split
            · rename_i hcreated
              rw [Bool.and_eq_true] at hcreated
              have hpin := hpin (congrArg Except.ok hcreated.1)
              exact safe_bind (safe_compensating (safe_unpinFile hpin)) fun _ => safe_throw _
            · exact safe_throw _

theorem safe_releasePlanned {record : FileRecord Cid}
    (hsave : ∀ current proc, P.Reads record.cid (some current) → P.process proc →
      current.revision = record.revision → current.state ≠ .confirmed →
      isAdmissionInFlight proc current = false →
      ¬ P.pin record.cid ∧ P.Allows (unstagedRecord current)
        ∧ P.Allows (current.released .expired)) :
    Safe content P (releasePlanned record) := by
  refine safe_get_bind fun current hread => ?_
  cases current with
  | none => exact safe_pure _
  | some current =>
      refine safe_process_bind fun proc hproc => ?_
      split
      · exact safe_pure _
      · rename_i hskip
        simp only [Bool.or_eq_true, not_or, decide_eq_true_eq, not_not, Bool.not_eq_true]
          at hskip
        obtain ⟨hpin, hunstaged, hreleased⟩ :=
          hsave current proc hread hproc hskip.1.1 hskip.1.2 hskip.2
        have hcid : current.cid = record.cid := hread.2 current rfl
        split
        · refine safe_restoreReplicaStage ?_ hread.allows hunstaged Bool.noConfusion
          rw [hcid]
          exact hpin
        · refine safe_bind (safe_unpinFile hpin) fun removedPin => ?_
          refine safe_tryCatch (safe_bind (safe_save hreleased) fun _ => safe_pure _)
            fun err => ?_
          split
          · exact safe_bind (safe_compensating (safe_pinFile _)) fun _ => safe_throw _
          · exact safe_throw _

theorem safe_cleanupReleased {record : FileRecord Cid}
    (hremove : ∀ current, P.Reads record.cid (some current) →
      current.revision = record.revision → P.record record.cid none) :
    Safe content P (cleanupReleased record) := by
  refine safe_get_bind fun current hread => ?_
  cases current with
  | none => exact safe_pure _
  | some current =>
      dsimp only
      split
      · rename_i hrevision
        exact safe_remove (hremove current hread hrevision)
      · exact safe_pure _

end Policies

end IpfsNode
