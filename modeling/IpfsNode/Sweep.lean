import IpfsNode.Registry
import IpfsNode.SortedList

/-!
# Periodic sweeps

A sweep looks at a batch of its candidates per pass, in the order of their
CIDs, and continues where the last pass stopped; past the last candidate it
starts over. `records_nextSweepBatch` says which candidates a pass takes
without the arithmetic of positions: those that are ahead, and have less than a
batch of candidates before them.
-/

namespace IpfsNode

/-! ## Batches -/

inductive SweepName where
  | repair
  | demote
deriving DecidableEq, Repr

def SWEEP_BATCHES : SweepName → Nat
  | .repair => 50
  | .demote => 200

structure SweepBatch (Cid : Type) where
  records : List (FileRecord Cid)
  /-- The batch reached the end of one complete sorted sweep. -/
  cycleCompleted : Bool
  nextCursor : Option Cid
deriving DecidableEq, Repr

section Code

variable {Cid : Type} [LinearOrder Cid]

/-- Where a batch starts; `findIdx` is the length of the list when there is none. -/
def sweepStart (ordered : List (FileRecord Cid)) : Option Cid → Nat
  | none => 0
  | some cursor =>
      let exact := ordered.findIdx (·.cid = cursor)
      if exact < ordered.length then exact + 1
      else ordered.findIdx (cursor < ·.cid)

/-- Select one batch that does not wrap around. -/
def sweepBatch (sweep : SweepName) (records : List (FileRecord Cid)) (cursor : Option Cid) :
    SweepBatch Cid :=
  let ordered := records.insertionSort (·.cid ≤ ·.cid)
  let start := sweepStart ordered cursor
  if ordered.length ≤ start then { records := [], cycleCompleted := true, nextCursor := none }
  else
    let batch := (ordered.drop start).take (SWEEP_BATCHES sweep)
    let cycleCompleted := decide (ordered.length ≤ start + batch.length)
    { records := batch
      cycleCompleted
      nextCursor := if cycleCompleted then none else batch.getLast?.map (·.cid) }

/-- The next batch of a sweep that is at `cursor`. A position past every
candidate starts a new cycle. -/
def nextSweepBatch (sweep : SweepName) (records : List (FileRecord Cid))
    (cursor : Option Cid) : SweepBatch Cid :=
  let selected := sweepBatch sweep records cursor
  if selected.records.isEmpty && !records.isEmpty then sweepBatch sweep records none
  else selected

/-! ## Which candidates are next -/

/-- The sweep comes to the file before it starts over. -/
def isAhead (candidates : List Cid) (cursor : Option Cid) (cid : Cid) : Bool :=
  match cursor with
  | none => true
  | some cursor => cursor < cid || candidates.all (· ≤ cursor)

/-- The sweep comes to the file in its next pass: less than a batch of the
candidates is before it. -/
def isNext (sweep : SweepName) (candidates : List Cid) (cursor : Option Cid) (cid : Cid) : Bool :=
  isAhead candidates cursor cid
    && (candidates.filter fun other => isAhead candidates cursor other && other < cid).length
      < SWEEP_BATCHES sweep

/-! ## Batches as windows -/

variable {records : List (FileRecord Cid)} {sweep : SweepName} {cursor : Option Cid}

/-- The candidates in the order of the sweep. -/
abbrev inOrder (records : List (FileRecord Cid)) : List (FileRecord Cid) :=
  records.insertionSort (·.cid ≤ ·.cid)

theorem sorted_inOrder (h : (records.map (·.cid)).Nodup) :
    (inOrder records).Pairwise fun a b => a.cid < b.cid := by
  have hsorted : (inOrder records).Pairwise fun a b => a.cid ≤ b.cid := by
    have : IsTrans (FileRecord Cid) fun a b => a.cid ≤ b.cid := ⟨fun _ _ _ => le_trans⟩
    have : Std.Total fun a b : FileRecord Cid => a.cid ≤ b.cid := ⟨fun a b => le_total a.cid b.cid⟩
    exact List.pairwise_insertionSort _ _
  have hne : (inOrder records).Pairwise fun a b => a.cid ≠ b.cid := by
    have hperm := (List.perm_insertionSort (fun a b : FileRecord Cid => a.cid ≤ b.cid) records)
    exact List.pairwise_map.mp ((hperm.map _).nodup_iff.mpr h)
  exact hsorted.imp₂ (fun _ _ hle hne => lt_of_le_of_ne hle hne) hne

/-- The candidates from the start of a batch on. -/
theorem drop_sweepStart (h : (records.map (·.cid)).Nodup) :
    (inOrder records).drop (sweepStart (inOrder records) cursor) =
      (inOrder records).filter fun record =>
        match cursor with
        | none => true
        | some cursor => cursor < record.cid := by
  have hsorted := sorted_inOrder h
  cases cursor with
  | none => simp [sweepStart]
  | some cursor =>
      unfold sweepStart
      dsimp only
      split
      · rename_i hfound
        obtain ⟨record, hmem, hcid⟩ := List.findIdx_lt_length.mp hfound
        exact List.drop_succ_findIdx_of_sorted hsorted ⟨record, hmem, of_decide_eq_true hcid⟩
      · exact List.drop_findIdx_of_sorted hsorted cursor

theorem records_sweepBatch : (sweepBatch sweep records cursor).records =
    ((inOrder records).drop (sweepStart (inOrder records) cursor)).take
      (SWEEP_BATCHES sweep) := by
  unfold sweepBatch
  dsimp only
  split
  · rename_i hpast
    rw [List.drop_eq_nil_of_le hpast, List.take_nil]
  · rfl

/-- A batch of what is ahead, told by how many are before. -/
theorem take_filter_inOrder (h : (records.map (·.cid)).Nodup) (p : Cid → Bool) (n : Nat) :
    ((inOrder records).filter (p ·.cid)).take n =
      (inOrder records).filter fun record => p record.cid &&
        ((records.map (·.cid)).filter fun other => p other && other < record.cid).length < n := by
  have hsorted : ((inOrder records).filter (p ·.cid)).Pairwise fun a b => a.cid < b.cid :=
    (sorted_inOrder h).filter _
  have hcount : ∀ cid, (((inOrder records).filter (p ·.cid)).filter (·.cid < cid)).length =
      ((records.map (·.cid)).filter fun other => p other && other < cid).length := by
    intro cid
    have hperm := List.perm_insertionSort (fun a b : FileRecord Cid => a.cid ≤ b.cid) records
    rw [List.filter_filter, List.filter_map, List.length_map]
    refine ((hperm.filter _).length_eq).trans (congrArg List.length ?_)
    exact List.filter_congr fun record _ => Bool.and_comm _ _
  rw [List.take_eq_filter_of_sorted hsorted, List.filter_filter]
  refine List.filter_congr fun record _ => ?_
  rw [hcount, Bool.and_comm]

/-- A pass takes the candidates ahead that have less than a batch before them. -/
theorem records_nextSweepBatch (h : (records.map (·.cid)).Nodup) :
    (nextSweepBatch sweep records cursor).records =
      (inOrder records).filter fun record =>
        isNext sweep (records.map (·.cid)) cursor record.cid := by
  have hbatch : ∀ cursor, (sweepBatch sweep records cursor).records = _ := fun _ =>
    records_sweepBatch
  have hfirst : (sweepBatch sweep records none).records =
      (inOrder records).filter fun record =>
        ((records.map (·.cid)).filter (· < record.cid)).length < SWEEP_BATCHES sweep := by
    rw [hbatch, drop_sweepStart h, take_filter_inOrder h fun _ => true]
    simp only [Bool.true_and]
  cases cursor with
  | none =>
      unfold nextSweepBatch
      dsimp only
      simp only [ite_self, hfirst, isNext, isAhead, Bool.true_and]
  | some cursor =>
      have hselected : (sweepBatch sweep records (some cursor)).records =
          ((inOrder records).filter (cursor < ·.cid)).take (SWEEP_BATCHES sweep) := by
        rw [hbatch, drop_sweepStart h]
      by_cases hahead : ∃ record ∈ records, cursor < record.cid
      · have hall : (records.map (·.cid)).all (· ≤ cursor) = false := by
          obtain ⟨record, hmem, hlt⟩ := hahead
          refine List.all_eq_false.mpr ⟨record.cid, List.mem_map_of_mem hmem, ?_⟩
          simpa using hlt
        have hnonempty : (sweepBatch sweep records (some cursor)).records.isEmpty = false := by
          obtain ⟨record, hmem, hlt⟩ := hahead
          have hmem : record ∈ (inOrder records).filter (cursor < ·.cid) :=
            List.mem_filter.mpr ⟨(List.mem_insertionSort _).mpr hmem, decide_eq_true hlt⟩
          rw [hselected, List.isEmpty_eq_false_iff, ne_eq, List.take_eq_nil_iff, not_or]
          exact ⟨by cases sweep <;> decide, List.ne_nil_of_mem hmem⟩
        unfold nextSweepBatch
        simp only [hnonempty, Bool.false_and, Bool.false_eq_true, if_false, isNext, isAhead, hall,
          Bool.or_false]
        rw [hselected, take_filter_inOrder h (fun cid => decide (cursor < cid))]
      · have hall : (records.map (·.cid)).all (· ≤ cursor) = true := by
          refine List.all_eq_true.mpr fun cid hmem => ?_
          obtain ⟨record, hin, rfl⟩ := List.mem_map.mp hmem
          exact decide_eq_true (le_of_not_gt fun hlt => hahead ⟨record, hin, hlt⟩)
        have hempty : (sweepBatch sweep records (some cursor)).records = [] := by
          rw [hselected, List.filter_eq_nil_iff.mpr, List.take_nil]
          intro record hmem hlt
          exact hahead ⟨record, (List.mem_insertionSort _).mp hmem, of_decide_eq_true hlt⟩
        unfold nextSweepBatch
        simp only [hempty, List.isEmpty_nil, Bool.true_and, isNext, isAhead, hall, Bool.or_true]
        cases records with
        | nil => simpa using hempty
        | cons record records => exact hfirst

end Code

end IpfsNode
