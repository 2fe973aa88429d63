import IpfsNode.Registry
import Mathlib.Data.List.Sort
import Mathlib.Data.List.Infix

/-!
# The repair cycle

A repair cycle commits to a list of candidates and hands it out batch by
batch. Three places remember how far it got: the list and its position in
process memory, the cursor in the persisted evidence, and the counters beside
the cursor. `nextRepairCycleBatch` moves the first when a batch is selected;
`repairUnderReplicatedFiles` moves the other two when the pass has succeeded.

A scan of the registry is given by what it reads, or by `none` when reading
fails; between two scans the registry may change in any way.
-/

namespace IpfsNode

/-! ## Selecting a batch -/

def MAX_CATCH_UP_ROUNDS : Nat := 3

/-- `SWEEP_BATCHES.repair`. -/
def SWEEP_BATCHES_repair : Nat := 50

structure RepairCycleBatch (Cid : Type) where
  cids : List Cid
  cycleCompleted : Bool
  nextCursor : Option Cid
  uncovered : Nat
  coverageProven : Bool
deriving DecidableEq, Repr

structure RepairCycle (Cid : Type) where
  cids : List Cid
  /-- How many of them have been handed out. -/
  index : Nat
  refreshes : Nat
  /-- The list was rebuilt from a cursor. -/
  resumed : Bool
deriving DecidableEq, Repr

/-- What a scan of the registry reads. -/
structure Snapshot (Cid : Type) where
  files : Registry Cid
  proc : Process Cid

/-- The order of CIDs decides their equality. -/
theorem lawfulBEq_of_linearOrder {Cid : Type} [LinearOrder Cid] : LawfulBEq Cid :=
  inferInstance

attribute [local instance] lawfulBEq_of_linearOrder

section Selection

variable {Cid : Type} [LinearOrder Cid]

def isCandidate (proc : Process Cid) (record : FileRecord Cid) : Bool :=
  record.state = .confirmed && !isLifecycleBusy proc record

def candidateCids (snapshot : Snapshot Cid) : List Cid :=
  ((snapshot.files.entries.filter (isCandidate snapshot.proc)).map (·.cid)).insertionSort
    (· ≤ ·)

def resumeIndex (cids : List Cid) (cursor : Option Cid) : Nat :=
  match cursor with
  | none => 0
  | some cursor =>
      if cursor ∈ cids then cids.idxOf cursor + 1
      else cids.findIdx (cursor < ·)

/-- The list a pass walks: the one in memory, or a new one when there is none
or the cursor asks for a new cycle. -/
def beginRepairCycle (cycle : Option (RepairCycle Cid)) (cursor : Option Cid)
    (scan : Option (Snapshot Cid)) : Option (RepairCycle Cid) :=
  match cycle, cursor with
  | some cycle, some _ => some cycle
  | _, _ => scan.map fun snapshot =>
      let cids := candidateCids snapshot
      { cids, index := resumeIndex cids cursor, refreshes := 0, resumed := cursor.isSome }

/-- The batch the list hands out next. -/
def RepairCycle.batch (cycle : RepairCycle Cid) : List Cid :=
  (cycle.cids.drop cycle.index).take SWEEP_BATCHES_repair

/-- The list after its batch has been handed out. -/
def RepairCycle.advance (cycle : RepairCycle Cid) : RepairCycle Cid :=
  { cycle with index := cycle.index + cycle.batch.length }

/-- Candidates that are not in the list. -/
def RepairCycle.fresh (cycle : RepairCycle Cid) (snapshot : Snapshot Cid) : List Cid :=
  (candidateCids snapshot).filter (· ∉ cycle.cids)

/-- What hands out the next batch of the list, and the list left in memory. -/
def advanceRepairCycle (cycle : RepairCycle Cid) (cursor : Option Cid)
    (scan : Option (Snapshot Cid)) :
    Option (RepairCycleBatch Cid) × Option (RepairCycle Cid) :=
  let batch := cycle.batch
  let advanced := cycle.advance
  let coverageProven := !cycle.resumed
  let unfinished : RepairCycleBatch Cid :=
    { cids := batch, cycleCompleted := false, nextCursor := batch.getLast?.or cursor
      uncovered := 0, coverageProven }
  if advanced.index < advanced.cids.length then (some unfinished, some advanced)
  else match scan with
    | none => (none, some advanced)
    | some snapshot =>
        let fresh := advanced.fresh snapshot
        if fresh = [] then
          (some { cids := batch, cycleCompleted := true, nextCursor := none
                  uncovered := 0, coverageProven }, none)
        else if advanced.refreshes < MAX_CATCH_UP_ROUNDS then
          (some unfinished, some { advanced with
            cids := advanced.cids ++ fresh, refreshes := advanced.refreshes + 1 })
        else
          (some { cids := batch, cycleCompleted := true, nextCursor := none
                  uncovered := fresh.length, coverageProven }, none)

/-- The selected batch, `none` when a scan fails, and the list in memory. -/
def nextRepairCycleBatch (cycle : Option (RepairCycle Cid)) (cursor : Option Cid)
    (firstScan secondScan : Option (Snapshot Cid)) :
    Option (RepairCycleBatch Cid) × Option (RepairCycle Cid) :=
  match beginRepairCycle cycle cursor firstScan with
  | none => (none, cycle)
  | some begun => advanceRepairCycle begun cursor secondScan

end Selection

/-! ## One pass -/

/-- The counters of a pass, and of all passes of a cycle. -/
structure RepairCounts where
  examined : Nat
  checked : Nat
  underReplicated : Nat
  repaired : Nat
  stillMissing : Nat
  unrecoverable : Nat
deriving DecidableEq, Repr

def RepairCounts.zero : RepairCounts := ⟨0, 0, 0, 0, 0, 0⟩

def RepairCounts.add (a b : RepairCounts) : RepairCounts where
  examined := a.examined + b.examined
  checked := a.checked + b.checked
  underReplicated := a.underReplicated + b.underReplicated
  repaired := a.repaired + b.repaired
  stillMissing := a.stillMissing + b.stillMissing
  unrecoverable := a.unrecoverable + b.unrecoverable

theorem RepairCounts.add_assoc (a b c : RepairCounts) :
    (a.add b).add c = a.add (b.add c) := by
  simp [RepairCounts.add, Nat.add_assoc]

@[simp] theorem RepairCounts.add_zero (a : RepairCounts) : a.add .zero = a := rfl

structure RepairReport (Cid : Type) where
  counts : RepairCounts
  cycleCompleted : Bool
  nextCursor : Option Cid
  uncovered : Nat
  coverageProven : Bool
deriving DecidableEq, Repr

structure RepairCycleEvidence (Cid : Type) where
  cursor : Option Cid
  startedAt : Nat
  /-- The cycle cannot claim to have covered its candidates. -/
  superseded : Bool
  counts : RepairCounts
  lastCompletedAt : Option Nat
  lastCompletedSuccessfully : Bool
  lastCompletedBacklog : Nat
  consecutiveUnsuccessfulCycles : Nat
  lastCompletedExamined : Nat
  lastCompletedStillMissing : Nat
  lastCompletedUnrecoverable : Nat
deriving DecidableEq, Repr

/-- What one pass meets: its two scans, the counters of its walk over the
batch (`none` when a step of the walk fails), and whether its evidence could
be written. -/
structure RepairPass (Cid : Type) where
  now : Nat
  firstScan : Option (Snapshot Cid)
  secondScan : Option (Snapshot Cid)
  work : Option RepairCounts
  saved : Bool

/-- What the process remembers of the repair cycle. -/
structure RepairState (Cid : Type) where
  cycle : Option (RepairCycle Cid)
  evidence : RepairCycleEvidence Cid

section Pass

variable {Cid : Type} [LinearOrder Cid]

/-- The report, `none` when the pass throws, and the list left in memory. -/
def repairReplication (enabled : Bool) (s : RepairState Cid) (pass : RepairPass Cid) :
    Option (RepairReport Cid) × Option (RepairCycle Cid) :=
  if !enabled then
    (some { counts := .zero, cycleCompleted := true, nextCursor := none, uncovered := 0
            coverageProven := true }, s.cycle)
  else
    let (selected, cycle) :=
      nextRepairCycleBatch s.cycle s.evidence.cursor pass.firstScan pass.secondScan
    match selected, pass.work with
    | some selected, some counts =>
        (some { counts, cycleCompleted := selected.cycleCompleted
                nextCursor := selected.nextCursor, uncovered := selected.uncovered
                coverageProven := selected.coverageProven }, cycle)
    | _, _ => (none, cycle)

def supersededBy (current : RepairCycleEvidence Cid) (report : RepairReport Cid) : Bool :=
  current.superseded || decide (0 < report.uncovered) || !report.coverageProven

/-- The pass ends a cycle that is published as evidence. -/
def publishes (current : RepairCycleEvidence Cid) (report : RepairReport Cid) : Bool :=
  report.cycleCompleted && !supersededBy current report

/-- The evidence a successful pass writes. -/
def nextEvidence (current : RepairCycleEvidence Cid) (report : RepairReport Cid)
    (now : Nat) : RepairCycleEvidence Cid :=
  let aggregate := current.counts.add report.counts
  let published := publishes current report
  let completedSuccessfully :=
    decide (aggregate.stillMissing = 0) && decide (aggregate.unrecoverable = 0)
  if report.cycleCompleted then
    { cursor := none, startedAt := now, superseded := false, counts := .zero
      lastCompletedAt := if published then some now else current.lastCompletedAt
      lastCompletedSuccessfully :=
        if published then completedSuccessfully else current.lastCompletedSuccessfully
      lastCompletedBacklog :=
        if published then aggregate.stillMissing + aggregate.unrecoverable
        else current.lastCompletedBacklog
      consecutiveUnsuccessfulCycles :=
        if published then
          if completedSuccessfully then 0 else current.consecutiveUnsuccessfulCycles + 1
        else current.consecutiveUnsuccessfulCycles
      lastCompletedExamined :=
        if published then aggregate.examined else current.lastCompletedExamined
      lastCompletedStillMissing :=
        if published then aggregate.stillMissing else current.lastCompletedStillMissing
      lastCompletedUnrecoverable :=
        if published then aggregate.unrecoverable
        else current.lastCompletedUnrecoverable }
  else
    { current with
      superseded := supersededBy current report
      cursor := report.nextCursor
      counts := aggregate }

/-- One pass: the state it leaves, and its report when it succeeds. -/
def repairUnderReplicatedFiles (enabled : Bool) (s : RepairState Cid)
    (pass : RepairPass Cid) : RepairState Cid × Option (RepairReport Cid) :=
  match repairReplication enabled s pass with
  | (none, cycle) => ({ s with cycle }, none)
  | (some report, cycle) =>
      if pass.saved then
        ({ cycle, evidence := nextEvidence s.evidence report pass.now }, some report)
      else ({ s with cycle }, none)

end Pass

/-! ## What a selection can do -/

namespace RepairCycle

variable {Cid : Type} {cycle : RepairCycle Cid}

/-- The list hands out each of its CIDs at most once and in order. -/
structure WellFormed (cycle : RepairCycle Cid) : Prop where
  nodup : cycle.cids.Nodup
  index_le : cycle.index ≤ cycle.cids.length

/-- The CIDs handed out so far. -/
def handed (cycle : RepairCycle Cid) : List Cid :=
  cycle.cids.take cycle.index

theorem handed_advance : cycle.advance.handed = cycle.handed ++ cycle.batch := by
  show cycle.cids.take (cycle.index + cycle.batch.length) = _
  rw [List.take_add]
  congr 1
  unfold batch
  rw [List.take_eq_take_iff]
  simp

theorem WellFormed.advance (h : cycle.WellFormed) : cycle.advance.WellFormed where
  nodup := h.nodup
  index_le := by
    show cycle.index + cycle.batch.length ≤ cycle.cids.length
    have hle := h.index_le
    have hbatch : cycle.batch.length ≤ cycle.cids.length - cycle.index := by
      simp [batch]
    omega

/-- A batch has nothing that was handed out before. -/
theorem WellFormed.disjoint (h : cycle.WellFormed) : cycle.handed.Disjoint cycle.batch := by
  have hn : (cycle.handed ++ cycle.batch).Nodup := by
    rw [← handed_advance]
    exact (List.take_sublist _ _).nodup h.nodup
  exact List.disjoint_of_nodup_append hn

/-- Appending to the list changes nothing that was handed out. -/
theorem handed_extend (h : cycle.WellFormed) (more : List Cid) (refreshes : Nat) :
    handed { cycle with cids := cycle.cids ++ more, refreshes } = cycle.handed :=
  List.take_append_of_le_length h.index_le

end RepairCycle

section Lemmas

variable {Cid : Type} [LinearOrder Cid]

theorem nodup_candidateCids (snapshot : Snapshot Cid) : (candidateCids snapshot).Nodup := by
  unfold candidateCids
  rw [(List.perm_insertionSort _ _).nodup_iff]
  exact (List.filter_sublist.map _).nodup snapshot.files.keyed

theorem resumeIndex_le (cids : List Cid) (cursor : Option Cid) :
    resumeIndex cids cursor ≤ cids.length := by
  unfold resumeIndex
  split
  · exact Nat.zero_le _
  · split
    · rename_i h
      exact List.idxOf_lt_length_of_mem h
    · exact List.findIdx_le_length

theorem RepairCycle.WellFormed.extend {cycle : RepairCycle Cid} (h : cycle.WellFormed)
    (snapshot : Snapshot Cid) (refreshes : Nat) : WellFormed
      { cycle with cids := cycle.cids ++ cycle.fresh snapshot, refreshes } where
  nodup := by
    refine List.Nodup.append h.nodup (List.Nodup.filter _ (nodup_candidateCids snapshot)) ?_
    intro cid hcid hfresh
    simp [fresh, hcid] at hfresh
  index_le := by
    have := h.index_le
    simp only [List.length_append]
    omega

theorem wellFormed_begin {cycle : Option (RepairCycle Cid)} {cursor : Option Cid}
    {scan : Option (Snapshot Cid)} {begun : RepairCycle Cid}
    (hcycle : ∀ c, cycle = some c → c.WellFormed)
    (h : beginRepairCycle cycle cursor scan = some begun) : begun.WellFormed := by
  have hbuild : ∀ snapshot : Snapshot Cid, RepairCycle.WellFormed
      { cids := candidateCids snapshot
        index := resumeIndex (candidateCids snapshot) cursor
        refreshes := 0, resumed := cursor.isSome } := fun snapshot =>
    ⟨nodup_candidateCids snapshot, resumeIndex_le _ _⟩
  unfold beginRepairCycle at h
  split at h
  · cases h
    exact hcycle _ rfl
  · obtain ⟨snapshot, -, rfl⟩ := Option.map_eq_some_iff.mp h
    exact hbuild snapshot

/-- The selection ends the list: its end is reached, and the scan there finds
nothing new or the catch-up rounds are used up. -/
def RepairCycle.Ends (cycle : RepairCycle Cid) (scan : Option (Snapshot Cid)) : Prop :=
  cycle.advance.cids.length ≤ cycle.advance.index ∧ ∃ snapshot, scan = some snapshot ∧
    (cycle.advance.fresh snapshot = [] ∨ MAX_CATCH_UP_ROUNDS ≤ cycle.refreshes)

/-- The list stays in memory, extended or not, with its batch handed out. -/
structure RepairCycle.Kept (cycle kept : RepairCycle Cid) : Prop where
  wellFormed : kept.WellFormed
  resumed : kept.resumed = cycle.resumed
  handed : kept.handed = cycle.handed ++ cycle.batch
  isPrefix : cycle.cids <+: kept.cids

/-- Everything the selection of a batch can do to a well-formed list. -/
inductive Selected (cycle : RepairCycle Cid) (cursor : Option Cid)
    (scan : Option (Snapshot Cid)) :
    Option (RepairCycleBatch Cid) × Option (RepairCycle Cid) → Prop
  /-- The scan at the end fails, after the position moved. -/
  | failed (hkept : cycle.Kept cycle.advance)
      (hend : cycle.advance.cids.length ≤ cycle.advance.index) (hscan : scan = none) :
      Selected cycle cursor scan (none, some cycle.advance)
  | unfinished {batch kept} (hkept : cycle.Kept kept) (hends : ¬ cycle.Ends scan)
      (hcids : batch.cids = cycle.batch) (hcompleted : batch.cycleCompleted = false)
      (hcursor : batch.nextCursor = cycle.batch.getLast?.or cursor)
      (hproven : batch.coverageProven = !cycle.resumed) :
      Selected cycle cursor scan (some batch, some kept)
  | ended {batch} (hends : cycle.Ends scan)
      (hall : cycle.handed ++ cycle.batch = cycle.cids)
      (hcids : batch.cids = cycle.batch) (hcompleted : batch.cycleCompleted = true)
      (hproven : batch.coverageProven = !cycle.resumed) :
      Selected cycle cursor scan (some batch, none)

theorem selected_advance {cycle : RepairCycle Cid} (h : cycle.WellFormed)
    (cursor : Option Cid) (scan : Option (Snapshot Cid)) :
    Selected cycle cursor scan (advanceRepairCycle cycle cursor scan) := by
  have hadv := h.advance
  have hkept : cycle.Kept cycle.advance :=
    ⟨hadv, rfl, RepairCycle.handed_advance, List.prefix_rfl⟩
  unfold advanceRepairCycle
  by_cases hlt : cycle.advance.index < cycle.advance.cids.length
  · simp only [if_pos hlt]
    exact .unfinished hkept (fun hends => by have := hends.1; omega) rfl rfl rfl rfl
  · simp only [if_neg hlt]
    have hend : cycle.advance.cids.length ≤ cycle.advance.index := by omega
    have hall : cycle.handed ++ cycle.batch = cycle.cids := by
      rw [← RepairCycle.handed_advance]
      exact List.take_of_length_le hend
    rcases scan with _ | snapshot
    · exact .failed hkept hend rfl
    · simp only
      by_cases hfresh : cycle.advance.fresh snapshot = []
      · rw [if_pos hfresh]
        exact .ended ⟨hend, snapshot, rfl, Or.inl hfresh⟩ hall rfl rfl rfl
      · rw [if_neg hfresh]
        by_cases hround : cycle.advance.refreshes < MAX_CATCH_UP_ROUNDS
        · rw [if_pos hround]
          refine .unfinished ⟨hadv.extend snapshot _, rfl, ?_, List.prefix_append _ _⟩ ?_
            rfl rfl rfl rfl
          · rw [RepairCycle.handed_extend hadv]
            exact RepairCycle.handed_advance
          · rintro ⟨-, _, heq, hnone | hused⟩
            · cases heq
              exact hfresh hnone
            · exact absurd hround (Nat.not_lt.mpr hused)
        · rw [if_neg hround]
          exact .ended ⟨hend, snapshot, rfl, Or.inr (Nat.not_lt.mp hround)⟩ hall rfl rfl rfl

end Lemmas

end IpfsNode
