import IpfsNode.RepairCycle

/-!
# Coverage of a published repair cycle

A run is a sequence of passes in one process. Each pass meets its own registry
and may fail at any step; a failed pass leaves the evidence as it was, and the
next pass is its retry.

A published cycle walked one list, built without a cursor (`Covered`): a list
rebuilt from a cursor is never proven. What its passes handed out is a growing
prefix of that list, and the prefix is owed to successful passes as long as no
failed pass moved the position past a batch and left the list in memory. That
is what `LosesBatch` excludes, and the code does not: the retry begins at the
batch after the one that failed.
-/

namespace IpfsNode

/-! ## Runs of passes -/

/-- What a process does with its repair cycle. -/
structure RepairRun (Cid : Type) where
  enabled : Bool
  /-- The evidence the process starts from. -/
  initial : RepairCycleEvidence Cid
  pass : Nat → RepairPass Cid

namespace RepairRun

variable {Cid : Type} [LinearOrder Cid] (run : RepairRun Cid)

/-- The state before pass `n`. -/
def state : Nat → RepairState Cid
  | 0 => { cycle := none, evidence := run.initial }
  | n + 1 => (repairUnderReplicatedFiles run.enabled (state n) (run.pass n)).1

def report (n : Nat) : Option (RepairReport Cid) :=
  (repairUnderReplicatedFiles run.enabled (run.state n) (run.pass n)).2

def cursor (n : Nat) : Option Cid :=
  (run.state n).evidence.cursor

/-- The list pass `n` walks. -/
def list (n : Nat) : Option (RepairCycle Cid) :=
  if run.enabled then
    beginRepairCycle (run.state n).cycle (run.cursor n) (run.pass n).firstScan
  else none

/-- The batch pass `n` selects. -/
def batch (n : Nat) : List Cid :=
  (run.list n).elim [] RepairCycle.batch

/-- Pass `n` builds its list from what it reads in `snapshot`. -/
def Builds (n : Nat) (snapshot : Snapshot Cid) : Prop :=
  run.enabled = true ∧ ((run.state n).cycle = none ∨ run.cursor n = none) ∧
    (run.pass n).firstScan = some snapshot

def Succeeds (n : Nat) : Prop :=
  (run.report n).isSome

/-- Pass `n` ends a cycle. -/
def Completes (n : Nat) : Prop :=
  ∃ report, run.report n = some report ∧ report.cycleCompleted = true

/-- Pass `n` publishes the cycle it ends. -/
def Publishes (n : Nat) : Prop :=
  ∃ report, run.report n = some report ∧ publishes (run.state n).evidence report = true

/-- The counters of the successful passes from `m` up to, but without, `n`. -/
def counted (m : Nat) : Nat → RepairCounts
  | 0 => .zero
  | n + 1 =>
      if n < m then .zero
      else match run.report n with
        | none => counted m n
        | some report => (counted m n).add report.counts

/-- Some step of pass `n` fails once its batch is selected, the scan at the
end of the list included. -/
def Interrupted (n : Nat) (list : RepairCycle Cid) : Prop :=
  (run.pass n).work = none ∨ (run.pass n).saved = false ∨
    list.advance.cids.length ≤ list.advance.index ∧ (run.pass n).secondScan = none

/-- Pass `n` fails with the list of a cycle that can still be published in
memory, and with CIDs of it just handed out. -/
def LosesBatch (n : Nat) : Prop :=
  ∃ list, (run.state n).cycle = some list ∧ run.cursor n ≠ none ∧ list.resumed = false ∧
    list.index < list.cids.length ∧ run.Interrupted n list ∧
    ¬ list.Ends (run.pass n).secondScan

/-- Pass `n` fails after it ended the list of a cycle that has a cursor. -/
def DropsList (n : Nat) : Prop :=
  ∃ list, run.list n = some list ∧ run.cursor n ≠ none ∧ run.Interrupted n list ∧
    list.Ends (run.pass n).secondScan

/-! ## One pass -/

/-- What pass `n` leaves behind when it walks `list`. -/
inductive Passed (n : Nat) (list : RepairCycle Cid) :
    RepairState Cid → Option (RepairReport Cid) → Prop
  | failedKept {kept} (hkept : list.Kept kept) (hint : run.Interrupted n list)
      (hends : ¬ list.Ends (run.pass n).secondScan) :
      Passed n list ⟨some kept, (run.state n).evidence⟩ none
  | failedDropped (hint : run.Interrupted n list)
      (hends : list.Ends (run.pass n).secondScan) :
      Passed n list ⟨none, (run.state n).evidence⟩ none
  | unfinished {kept report} (hkept : list.Kept kept)
      (hcompleted : report.cycleCompleted = false)
      (hcursor : report.nextCursor = list.batch.getLast?.or (run.cursor n))
      (hproven : report.coverageProven = !list.resumed) :
      Passed n list
        ⟨some kept, nextEvidence (run.state n).evidence report (run.pass n).now⟩ (some report)
  | completed {report} (hall : list.handed ++ list.batch = list.cids)
      (hcompleted : report.cycleCompleted = true)
      (hproven : report.coverageProven = !list.resumed) :
      Passed n list
        ⟨none, nextEvidence (run.state n).evidence report (run.pass n).now⟩ (some report)

variable {run} {n : Nat}

/-- A pass whose first scan fails changes nothing. -/
theorem pass_unread (henabled : run.enabled = true) (h : run.list n = none) :
    run.state (n + 1) = run.state n ∧ run.report n = none := by
  have hnext : nextRepairCycleBatch (run.state n).cycle (run.state n).evidence.cursor
      (run.pass n).firstScan (run.pass n).secondScan = (none, (run.state n).cycle) := by
    have hbegin : beginRepairCycle (run.state n).cycle (run.state n).evidence.cursor
        (run.pass n).firstScan = none := by
      simpa [list, henabled, cursor] using h
    simp only [nextRepairCycleBatch, hbegin]
  have hrepair : repairReplication run.enabled (run.state n) (run.pass n)
      = (none, (run.state n).cycle) := by
    simp [repairReplication, henabled, hnext]
  simp [state, report, repairUnderReplicatedFiles, hrepair]

theorem pass_cases (henabled : run.enabled = true) {list : RepairCycle Cid}
    (h : run.list n = some list) (hwf : list.WellFormed) :
    run.Passed n list (run.state (n + 1)) (run.report n) := by
  have hnext : nextRepairCycleBatch (run.state n).cycle (run.state n).evidence.cursor
      (run.pass n).firstScan (run.pass n).secondScan
      = advanceRepairCycle list (run.cursor n) (run.pass n).secondScan := by
    have hbegin : beginRepairCycle (run.state n).cycle (run.state n).evidence.cursor
        (run.pass n).firstScan = some list := by
      simpa [RepairRun.list, henabled, cursor] using h
    simp only [nextRepairCycleBatch, hbegin]
    rfl
  have hselected := selected_advance hwf (run.cursor n) (run.pass n).secondScan
  simp only [state, report, repairUnderReplicatedFiles, repairReplication, henabled,
    Bool.not_true, Bool.false_eq_true, if_false, hnext]
  generalize advanceRepairCycle list (run.cursor n) (run.pass n).secondScan = selected
    at hselected
  cases hselected with
  | failed hkept hend hscan =>
      refine .failedKept hkept (Or.inr (Or.inr ⟨hend, hscan⟩)) ?_
      rintro ⟨-, snapshot, hsome, -⟩
      rw [hscan] at hsome
      cases hsome
  | unfinished hkept hends hcids hcompleted hcursor hproven =>
      rcases hwork : (run.pass n).work with _ | counts
      · exact .failedKept hkept (Or.inl hwork) hends
      · rcases hsaved : (run.pass n).saved with _ | _
        · simpa using .failedKept hkept (Or.inr (Or.inl hsaved)) hends
        · simpa using .unfinished hkept hcompleted hcursor hproven
  | ended hends hall hcids hcompleted hproven =>
      rcases hwork : (run.pass n).work with _ | counts
      · exact .failedDropped (Or.inl hwork) hends
      · rcases hsaved : (run.pass n).saved with _ | _
        · simpa using .failedDropped (Or.inr (Or.inl hsaved)) hends
        · simpa using .completed hall hcompleted hproven

/-- A pass walks the list in memory when there is a cursor for it, and builds
one otherwise. -/
theorem list_cases {list : RepairCycle Cid} (h : run.list n = some list) :
    (∃ snapshot, run.Builds n snapshot ∧ list =
      { cids := candidateCids snapshot
        index := resumeIndex (candidateCids snapshot) (run.cursor n)
        refreshes := 0, resumed := (run.cursor n).isSome }) ∨
    ((run.state n).cycle = some list ∧ run.cursor n ≠ none ∧
      ∀ snapshot, ¬ run.Builds n snapshot) := by
  have henabled : run.enabled = true := by
    by_contra hn
    simp [RepairRun.list, hn] at h
  simp only [RepairRun.list, henabled, if_true, beginRepairCycle] at h
  split at h
  · rename_i hcycle hcursor
    cases h
    refine Or.inr ⟨hcycle, by simp [hcursor], ?_⟩
    rintro snapshot ⟨-, hnone | hnone, -⟩
    · simp [hcycle] at hnone
    · simp [hcursor] at hnone
  · rename_i hnot
    obtain ⟨snapshot, hscan, rfl⟩ := Option.map_eq_some_iff.mp h
    refine Or.inl ⟨snapshot, ⟨henabled, ?_, hscan⟩, rfl⟩
    by_contra hboth
    push Not at hboth
    obtain ⟨list, hlist⟩ := Option.ne_none_iff_exists'.mp hboth.1
    obtain ⟨cid, hcid⟩ := Option.ne_none_iff_exists'.mp hboth.2
    exact hnot _ _ hlist hcid

/-- A list in memory that has a cursor is the list of the pass. -/
theorem list_of_cycle (henabled : run.enabled = true) {list : RepairCycle Cid}
    (hcycle : (run.state n).cycle = some list) (hcursor : run.cursor n ≠ none) :
    run.list n = some list := by
  obtain ⟨cid, hcid⟩ := Option.ne_none_iff_exists'.mp hcursor
  simp [RepairRun.list, henabled, beginRepairCycle, hcycle, hcid]

theorem state_of_disabled (h : run.enabled = false) : (run.state n).cycle = none := by
  induction n with
  | zero => rfl
  | succ n ih =>
      simp only [state, repairUnderReplicatedFiles, repairReplication, h, Bool.not_false,
        if_true]
      split <;> exact ih

theorem enabled_of_list {list : RepairCycle Cid} (h : run.list n = some list) :
    run.enabled = true := by
  by_contra hn
  simp [RepairRun.list, hn] at h

theorem wellFormed_state (n : Nat) :
    ∀ list, (run.state n).cycle = some list → list.WellFormed := by
  induction n with
  | zero => rintro list ⟨⟩
  | succ n ih =>
      intro list h
      rcases henabled : run.enabled with _ | _
      · rw [state_of_disabled henabled] at h
        cases h
      rcases hlist : run.list n with _ | walked
      · rw [(pass_unread henabled hlist).1] at h
        exact ih list h
      · have hbegin : beginRepairCycle (run.state n).cycle (run.cursor n)
            (run.pass n).firstScan = some walked := by
          simpa [RepairRun.list, henabled] using hlist
        have hpass := pass_cases henabled hlist (wellFormed_begin ih hbegin)
        generalize run.state (n + 1) = s' at hpass h
        generalize run.report n = result at hpass
        cases hpass with
        | failedKept hkept _ _ =>
            cases h
            exact hkept.wellFormed
        | failedDropped _ _ => cases h
        | unfinished hkept _ _ _ =>
            cases h
            exact hkept.wellFormed
        | completed _ _ _ => cases h

theorem wellFormed_list {list : RepairCycle Cid} (h : run.list n = some list) :
    list.WellFormed := by
  rcases list_cases h with ⟨snapshot, -, rfl⟩ | ⟨hcycle, -, -⟩
  · exact ⟨nodup_candidateCids snapshot, resumeIndex_le _ _⟩
  · exact wellFormed_state n list hcycle

/-- What pass `n` did, when the next pass finds a list in memory. -/
theorem cycle_succ {list : RepairCycle Cid} (henabled : run.enabled = true)
    (h : (run.state (n + 1)).cycle = some list) :
    (run.list n = none ∧ run.report n = none ∧ run.state (n + 1) = run.state n) ∨
    ∃ walked, run.list n = some walked ∧ walked.Kept list ∧
      ((run.report n = none ∧ (run.state (n + 1)).evidence = (run.state n).evidence ∧
          run.Interrupted n walked ∧ ¬ walked.Ends (run.pass n).secondScan) ∨
        ∃ report, run.report n = some report ∧ report.cycleCompleted = false ∧
          report.nextCursor = walked.batch.getLast?.or (run.cursor n) ∧
          (run.state (n + 1)).evidence
            = nextEvidence (run.state n).evidence report (run.pass n).now) := by
  rcases hlist : run.list n with _ | walked
  · exact Or.inl ⟨rfl, (pass_unread henabled hlist).2, (pass_unread henabled hlist).1⟩
  · right
    refine ⟨walked, rfl, ?_⟩
    have hpass := pass_cases henabled hlist (wellFormed_list hlist)
    generalize run.state (n + 1) = s' at hpass h
    generalize run.report n = result at hpass
    cases hpass with
    | failedKept hkept hint hends =>
        cases h
        exact ⟨hkept, Or.inl ⟨rfl, rfl, hint, hends⟩⟩
    | failedDropped _ _ => cases h
    | unfinished hkept hcompleted hcursor _ =>
        cases h
        exact ⟨hkept, Or.inr ⟨_, rfl, hcompleted, hcursor, rfl⟩⟩
    | completed _ _ _ => cases h

/-! ## What is owed to successful passes -/

theorem counted_self (n : Nat) : run.counted n n = .zero := by
  cases n with
  | zero => rfl
  | succ n => simp [counted]

theorem counted_succ_of_failed {m : Nat} (hm : m ≤ n) (h : run.report n = none) :
    run.counted m (n + 1) = run.counted m n := by
  simp [counted, h, Nat.not_lt.mpr hm]

theorem counted_succ {m : Nat} (hm : m ≤ n) {report : RepairReport Cid}
    (h : run.report n = some report) :
    run.counted m (n + 1) = (run.counted m n).add report.counts := by
  simp [counted, h, Nat.not_lt.mpr hm]

/-- The list of pass `n` was built from `snapshot` by pass `m`, and all that
was handed out of it went to successful passes whose counters are kept. -/
structure Owed (run : RepairRun Cid) (m n : Nat) (snapshot : Snapshot Cid)
    (list : RepairCycle Cid) : Prop where
  builds : run.Builds m snapshot
  last : ∀ k scan, m < k → k ≤ n → ¬ run.Builds k scan
  isPrefix : candidateCids snapshot <+: list.cids
  handed : ∀ cid ∈ list.handed, ∃ k, m ≤ k ∧ k < n ∧ run.Succeeds k ∧ cid ∈ run.batch k
  counts : (run.state n).evidence.counts
    = (run.state m).evidence.counts.add (run.counted m n)

theorem batch_of_list {list : RepairCycle Cid} (h : run.list n = some list) :
    run.batch n = list.batch := by
  simp [batch, h]

/-- A failed pass that loses nothing leaves what was handed out as it is. -/
theorem batch_nil_of_kept {list : RepairCycle Cid} (hloses : ¬ run.LosesBatch n)
    (hlist : run.list n = some list) (hcursor : run.cursor n ≠ none)
    (hresumed : list.resumed = false) (hint : run.Interrupted n list)
    (hends : ¬ list.Ends (run.pass n).secondScan) : list.batch = [] := by
  rcases list_cases hlist with ⟨snapshot, -, rfl⟩ | ⟨hcycle, -, -⟩
  · obtain ⟨cid, hcid⟩ := Option.ne_none_iff_exists'.mp hcursor
    simp [hcid] at hresumed
  · have hindex : list.cids.length ≤ list.index := by
      by_contra hlt
      exact hloses ⟨list, hcycle, hcursor, hresumed, Nat.not_le.mp hlt, hint, hends⟩
    simp [RepairCycle.batch, List.drop_eq_nil_of_le hindex]

/-- The list of a pass that can still be published is owed. -/
theorem owed (hloses : ∀ n, ¬ run.LosesBatch n) (n : Nat) :
    ∀ list, run.list n = some list → list.resumed = false →
      ∃ m ≤ n, ∃ snapshot, run.Owed m n snapshot list := by
  induction n with
  | zero =>
      intro list hlist hresumed
      rcases list_cases hlist with ⟨snapshot, hbuilds, rfl⟩ | ⟨hcycle, -, -⟩
      · have hcursor : run.cursor 0 = none := by simpa using hresumed
        refine ⟨0, le_rfl, snapshot, hbuilds, fun k scan h0 h1 => ?_, List.prefix_rfl, ?_, ?_⟩
        · omega
        · simp [RepairCycle.handed, hcursor, resumeIndex]
        · rw [counted_self, RepairCounts.add_zero]
      · cases hcycle
  | succ n ih =>
      intro list hlist hresumed
      have henabled := enabled_of_list hlist
      rcases list_cases hlist with ⟨snapshot, hbuilds, rfl⟩ | ⟨hcycle, hcursor, hlast⟩
      · have hcursor : run.cursor (n + 1) = none := by simpa using hresumed
        refine ⟨n + 1, le_rfl, snapshot, hbuilds, fun k scan h0 h1 => ?_, List.prefix_rfl,
          ?_, ?_⟩
        · omega
        · simp [RepairCycle.handed, hcursor, resumeIndex]
        · rw [counted_self, RepairCounts.add_zero]
      rcases cycle_succ henabled hcycle with ⟨hnone, -, hstate⟩ | ⟨walked, hwalked, hkept, hpass⟩
      · -- nothing was read, so the list was there already
        have hprev : run.cursor n ≠ none := by rwa [cursor, hstate] at hcursor
        rw [hstate] at hcycle
        rw [list_of_cycle henabled hcycle hprev] at hnone
        cases hnone
      obtain ⟨m, hm, snapshot, howed⟩ := ih walked hwalked (hkept.resumed ▸ hresumed)
      have hlast' : ∀ k scan, m < k → k ≤ n + 1 → ¬ run.Builds k scan := by
        intro k scan h0 h1
        rcases Nat.lt_or_eq_of_le h1 with h1 | rfl
        · exact howed.last k scan h0 (by omega)
        · exact hlast scan
      refine ⟨m, by omega, snapshot, howed.builds, hlast',
        howed.isPrefix.trans hkept.isPrefix, ?_, ?_⟩
      · intro cid hcid
        rw [hkept.handed, List.mem_append] at hcid
        rcases hcid with hcid | hcid
        · obtain ⟨k, hmk, hkn, hk⟩ := howed.handed cid hcid
          exact ⟨k, hmk, by omega, hk⟩
        · rcases hpass with ⟨-, hevidence, hint, hends⟩ | ⟨report, hreport, -, -, -⟩
          · have hprev : run.cursor n ≠ none := by rwa [cursor, hevidence] at hcursor
            rw [batch_nil_of_kept (hloses n) hwalked hprev (hkept.resumed ▸ hresumed)
              hint hends] at hcid
            cases hcid
          · refine ⟨n, hm, by omega, ?_, ?_⟩
            · simp [Succeeds, hreport]
            · rw [batch_of_list hwalked]
              exact hcid
      · rcases hpass with ⟨hreport, hevidence, -, -⟩ | ⟨report, hreport, hunfinished, -, hevidence⟩
        · rw [hevidence, counted_succ_of_failed hm hreport]
          exact howed.counts
        · rw [hevidence, counted_succ hm hreport, ← RepairCounts.add_assoc, ← howed.counts]
          simp [nextEvidence, hunfinished]

/-! ## Nothing is handed out twice -/

/-- Two passes of one cycle: no pass between them ended a cycle, and none
started over from a cursor. -/
def SameCycle (run : RepairRun Cid) (j k : Nat) : Prop :=
  (∀ i, j ≤ i → i < k → ¬ run.Completes i) ∧
    ∀ i scan, j < i → i ≤ k → run.Builds i scan → run.cursor i = none

/-- As long as no list is built, what pass `j` handed out stays handed out. -/
theorem handed_of_batch {j : Nat} (k : Nat) (hjk : j < k)
    (hkeeps : ∀ i scan, j < i → i ≤ k → ¬ run.Builds i scan) :
    ∀ list, run.list k = some list → ∀ cid ∈ run.batch j, cid ∈ list.handed := by
  induction k with
  | zero => omega
  | succ k ih =>
      intro list hlist cid hcid
      have henabled := enabled_of_list hlist
      rcases list_cases hlist with ⟨snapshot, hbuilds, -⟩ | ⟨hcycle, hcursor, -⟩
      · exact absurd hbuilds (hkeeps _ _ hjk le_rfl)
      rcases cycle_succ henabled hcycle with ⟨hnone, -, hstate⟩ | ⟨walked, hwalked, hkept, -⟩
      · have hprev : run.cursor k ≠ none := by rwa [cursor, hstate] at hcursor
        rw [hstate] at hcycle
        rw [list_of_cycle henabled hcycle hprev] at hnone
        cases hnone
      rw [hkept.handed, List.mem_append]
      rcases Nat.lt_or_eq_of_le (Nat.lt_succ_iff.mp hjk) with hlt | rfl
      · exact Or.inl (ih hlt (fun i scan h0 h1 => hkeeps i scan h0 (by omega)) walked hwalked
          cid hcid)
      · rw [batch_of_list hwalked] at hcid
        exact Or.inr hcid

theorem disjoint_of_no_build {j k : Nat} (hjk : j < k)
    (hkeeps : ∀ i scan, j < i → i ≤ k → ¬ run.Builds i scan) :
    (run.batch j).Disjoint (run.batch k) := by
  intro cid hj hk
  rcases hlist : run.list k with _ | list
  · simp [batch, hlist] at hk
  · have hhanded := handed_of_batch k hjk hkeeps list hlist cid hj
    rw [batch_of_list hlist] at hk
    exact (wellFormed_list hlist).disjoint hhanded hk

/-- A successful pass that handed something out leaves a cursor, and only the
end of the cycle takes it away; the list in memory is lost with it, or when a
failed pass drops it. -/
theorem cursor_ne_none {j : Nat} (hsucceeds : run.Succeeds j) (hbatch : run.batch j ≠ [])
    (i : Nat) (hji : j < i) (hcompletes : ∀ k, j ≤ k → k < i → ¬ run.Completes k) :
    run.cursor i ≠ none ∧ ((∀ n, ¬ run.DropsList n) → (run.state i).cycle ≠ none) := by
  have henabled : run.enabled = true := by
    by_contra hn
    simp [batch, RepairRun.list, hn] at hbatch
  induction i with
  | zero => omega
  | succ i ih =>
      have hnot := hcompletes i (by omega) (by omega)
      have hprev : j = i ∨
          run.cursor i ≠ none ∧ ((∀ n, ¬ run.DropsList n) → (run.state i).cycle ≠ none) := by
        rcases Nat.lt_or_eq_of_le (Nat.lt_succ_iff.mp hji) with hlt | heq
        · exact Or.inr (ih hlt fun k h0 h1 => hcompletes k h0 (by omega))
        · exact Or.inl heq
      rcases hlist : run.list i with _ | list
      · obtain ⟨hstate, hreport⟩ := pass_unread henabled hlist
        rcases hprev with rfl | hprev
        · simp [batch, hlist] at hbatch
        · rwa [cursor, hstate]
      have hfailed : run.report i = none → run.cursor i ≠ none := by
        intro hreport
        rcases hprev with rfl | hprev
        · simp [Succeeds, hreport] at hsucceeds
        · exact hprev.1
      have hcompleted : ∀ report, run.report i = some report →
          report.cycleCompleted = false := by
        intro report hreport
        by_contra hn
        exact hnot ⟨report, hreport, by simpa using hn⟩
      have hpass := pass_cases henabled hlist (wellFormed_list hlist)
      simp only [cursor] at hfailed ⊢
      generalize run.state (i + 1) = s' at hpass
      generalize run.report i = result at hpass hfailed hcompleted
      cases hpass with
      | failedKept _ _ _ => exact ⟨hfailed rfl, fun _ => by simp⟩
      | failedDropped hint hends =>
          exact ⟨hfailed rfl, fun hdrops => absurd ⟨list, hlist, hfailed rfl, hint, hends⟩
            (hdrops i)⟩
      | unfinished _ hunfinished hcursor _ =>
          refine ⟨?_, fun _ => by simp⟩
          simp only [nextEvidence, hunfinished, Bool.false_eq_true, if_false, hcursor]
          rcases hprev with rfl | hprev
          · rw [batch_of_list hlist] at hbatch
            simp [hbatch]
          · simp [hprev.1]
      | completed _ hended _ =>
          rw [hcompleted _ rfl] at hended
          cases hended

theorem disjoint_of_sameCycle {j k : Nat} (hjk : j < k) (hsucceeds : run.Succeeds j)
    (hsame : run.SameCycle j k) : (run.batch j).Disjoint (run.batch k) := by
  by_cases hbatch : run.batch j = []
  · rw [hbatch]
    exact List.disjoint_nil_left _
  · refine disjoint_of_no_build hjk fun i scan h0 h1 hbuilds => ?_
    exact (cursor_ne_none hsucceeds hbatch i h0 fun k' h2 h3 => hsame.1 k' h2 (by omega)).1
      (hsame.2 i scan h0 h1 hbuilds)

/-- When no failed pass drops a list, a cycle never starts over from a cursor. -/
theorem sameCycle_of_not_completes (hdrops : ∀ n, ¬ run.DropsList n) {j k : Nat}
    (hsucceeds : run.Succeeds j) (hbatch : run.batch j ≠ [])
    (hcompletes : ∀ i, j ≤ i → i < k → ¬ run.Completes i) : run.SameCycle j k := by
  refine ⟨hcompletes, fun i scan h0 h1 hbuilds => ?_⟩
  obtain ⟨hcursor, hcycle⟩ := cursor_ne_none hsucceeds hbatch i h0
    fun k' h2 h3 => hcompletes k' h2 (by omega)
  obtain ⟨-, hnone | hnone, -⟩ := hbuilds
  · exact absurd hnone (hcycle hdrops)
  · exact hnone

/-! ## Published cycles -/

/-- The cycle that pass `n` publishes walked one list, built from `snapshot` by
pass `m`; every candidate of it was in the batch of a successful pass, and the
published counters are those of the successful passes. -/
structure Covered (run : RepairRun Cid) (m n : Nat) (snapshot : Snapshot Cid) : Prop where
  builds : run.Builds m snapshot
  last : ∀ k scan, m < k → k ≤ n → ¬ run.Builds k scan
  covered : ∀ cid ∈ candidateCids snapshot,
    ∃ k, m ≤ k ∧ k ≤ n ∧ run.Succeeds k ∧ cid ∈ run.batch k
  completedAt : (run.state (n + 1)).evidence.lastCompletedAt = some (run.pass n).now
  counters :
    let total := (run.state m).evidence.counts.add (run.counted m (n + 1))
    (run.state (n + 1)).evidence.lastCompletedExamined = total.examined ∧
      (run.state (n + 1)).evidence.lastCompletedStillMissing = total.stillMissing ∧
      (run.state (n + 1)).evidence.lastCompletedUnrecoverable = total.unrecoverable

theorem covered_of_publishes (hloses : ∀ n, ¬ run.LosesBatch n)
    (henabled : run.enabled = true) (h : run.Publishes n) :
    ∃ m ≤ n, ∃ snapshot, run.Covered m n snapshot := by
  obtain ⟨report, hreport, hpublishes⟩ := h
  have hpub := hpublishes
  simp only [publishes, supersededBy, Bool.and_eq_true, Bool.not_eq_true', Bool.or_eq_false_iff,
    Bool.not_eq_false'] at hpub
  obtain ⟨hended, -, hproven⟩ := hpub
  rcases hlist : run.list n with _ | list
  · rw [(pass_unread henabled hlist).2] at hreport
    cases hreport
  have hpass := pass_cases henabled hlist (wellFormed_list hlist)
  generalize hstate : run.state (n + 1) = s' at hpass
  rw [hreport] at hpass
  cases hpass with
  | unfinished _ hunfinished _ _ =>
      rw [hunfinished] at hended
      cases hended
  | completed hall _ hresumed =>
      have hfresh : list.resumed = false := by simpa [hproven] using hresumed.symm
      obtain ⟨m, hm, snapshot, howed⟩ := owed hloses n list hlist hfresh
      refine ⟨m, hm, snapshot, howed.builds, howed.last, ?_, ?_, ?_⟩
      · intro cid hcid
        have hmem : cid ∈ list.handed ++ list.batch := by
          rw [hall]
          exact howed.isPrefix.subset hcid
        rcases List.mem_append.mp hmem with hmem | hmem
        · obtain ⟨k, hmk, hkn, hk⟩ := howed.handed cid hmem
          exact ⟨k, hmk, by omega, hk⟩
        · refine ⟨n, hm, le_rfl, by simp [Succeeds, hreport], ?_⟩
          rw [batch_of_list hlist]
          exact hmem
      · simp [hstate, nextEvidence, hended, hpublishes]
      · rw [counted_succ hm hreport, ← RepairCounts.add_assoc, ← howed.counts]
        simp [hstate, nextEvidence, hended, hpublishes]

/-- In a run whose failing passes lose no batch, every published cycle covered
its candidates, and no CID goes to two successful passes of one cycle. A list
rebuilt from a cursor counts as another cycle, and need not when no failing
pass drops a list either. -/
theorem repair_coverage (run : RepairRun Cid) (hloses : ∀ n, ¬ run.LosesBatch n) :
    (∀ n, run.enabled = true → run.Publishes n →
      ∃ m ≤ n, ∃ snapshot, run.Covered m n snapshot) ∧
    (∀ j k, j < k → run.Succeeds j → run.SameCycle j k →
      (run.batch j).Disjoint (run.batch k)) ∧
    ((∀ n, ¬ run.DropsList n) → ∀ j k, j < k → run.Succeeds j →
      (∀ i, j ≤ i → i < k → ¬ run.Completes i) →
      (run.batch j).Disjoint (run.batch k)) := by
  refine ⟨fun n henabled => covered_of_publishes hloses henabled,
    fun j k => disjoint_of_sameCycle, fun hdrops j k hjk hsucceeds hcompletes => ?_⟩
  by_cases hbatch : run.batch j = []
  · rw [hbatch]
    exact List.disjoint_nil_left _
  · exact disjoint_of_sameCycle hjk hsucceeds
      (sameCycle_of_not_completes hdrops hsucceeds hbatch hcompletes)

end RepairRun

/-! ## A cycle published without its last file -/

section Skipped

def confirmedFile (cid : Nat) : FileRecord Nat where
  cid := cid
  name := "file"
  state := .confirmed
  createdAt := 0
  expiresAt := none
  confirmedAt := some 0
  fileSize := 1
  storedBytes := 1
  protectedBytes := none
  pinned := true
  heldLocally := true
  replicas := []
  admissionId := none
  admissionSettledAt := none
  replicaStage := none
  revision := none

/-- A registry of confirmed files that nothing else works on. -/
def confirmedFiles (n : Nat) : Snapshot Nat where
  files :=
    { entries := (List.range n).map confirmedFile
      keyed := by
        rw [List.map_map]
        exact (List.nodup_range).map fun _ _ h => h
      valid := by
        intro record hrecord
        obtain ⟨cid, -, rfl⟩ := List.mem_map.mp hrecord
        rfl }
  proc := { activeAdmissions := ∅, activeRepairs := ∅, abortedTransactions := [] }

/-- Passes over fifty-one files that no step of fails, but for the scan at the
end of the list in the passes of `unread`. -/
def fiftyOneFiles (unread : Nat → Bool) : RepairRun Nat where
  enabled := true
  initial :=
    { cursor := none, startedAt := 0, superseded := false, counts := .zero
      lastCompletedAt := none, lastCompletedSuccessfully := false
      lastCompletedBacklog := 0, consecutiveUnsuccessfulCycles := 0
      lastCompletedExamined := 0, lastCompletedStillMissing := 0
      lastCompletedUnrecoverable := 0 }
  pass n :=
    { now := n, firstScan := some (confirmedFiles 51)
      secondScan := if unread n then none else some (confirmedFiles 51)
      work := some .zero, saved := true }

set_option maxRecDepth 4000 in
/-- The second pass cannot read the registry at the end of the list. Its retry
hands out nothing and publishes the cycle, and the last file, a candidate all
along, was in the batch of no successful pass. -/
theorem unread_end_publishes : (fiftyOneFiles (· = 1)).Publishes 2 ∧
    ¬ ∃ m ≤ 2, ∃ snapshot, (fiftyOneFiles (· = 1)).Covered m 2 snapshot := by
  have hpublishes : ((fiftyOneFiles (· = 1)).report 2).map
      (publishes ((fiftyOneFiles (· = 1)).state 2).evidence) = some true := by decide
  have hcandidate : 50 ∈ candidateCids (confirmedFiles 51) := by decide
  have hnever : ∀ k ≤ 2, ((fiftyOneFiles (· = 1)).report k).isSome = true →
      50 ∉ (fiftyOneFiles (· = 1)).batch k := by decide
  refine ⟨?_, ?_⟩
  · obtain ⟨report, hreport, htrue⟩ := Option.map_eq_some_iff.mp hpublishes
    exact ⟨report, hreport, htrue⟩
  · rintro ⟨m, -, snapshot, hcovered⟩
    obtain ⟨-, -, hscan⟩ := hcovered.builds
    obtain rfl : confirmedFiles 51 = snapshot := Option.some.inj hscan
    obtain ⟨k, -, hk, hsucceeds, hmem⟩ := hcovered.covered 50 hcandidate
    exact hnever k hk hsucceeds hmem

/-- Every scan can be read, and the evidence of the first pass is not saved. -/
def unsavedFirst : RepairRun Nat :=
  { fiftyOneFiles fun _ => false with
    pass := fun n => { (fiftyOneFiles fun _ => false).pass n with saved := decide (n ≠ 0) } }

set_option maxRecDepth 4000 in
/-- The first pass fails without a cursor, so its retry builds the list again, and
the pass after that covers and publishes it. -/
theorem repair_coverage_fiftyOneFiles :
    ¬ unsavedFirst.Succeeds 0 ∧ ∃ m ≤ 2, ∃ snapshot, unsavedFirst.Covered m 2 snapshot := by
  have hloses : ∀ n, ¬ unsavedFirst.LosesBatch n := by
    rintro n ⟨list, -, hcursor, -, -, hwork | hsaved | ⟨-, hscan⟩, -⟩
    · cases hwork
    · obtain rfl : n = 0 := not_not.mp (of_decide_eq_false hsaved)
      exact hcursor rfl
    · cases hscan
  have hfailed : (unsavedFirst.report 0).isSome = false := by decide
  have hpublishes : (unsavedFirst.report 2).map
      (publishes (unsavedFirst.state 2).evidence) = some true := by decide
  refine ⟨fun hsucceeds => ?_, ?_⟩
  · rw [RepairRun.Succeeds, hfailed] at hsucceeds
    cases hsucceeds
  · obtain ⟨report, hreport, htrue⟩ := Option.map_eq_some_iff.mp hpublishes
    exact (RepairRun.repair_coverage unsavedFirst hloses).1 2 rfl ⟨report, hreport, htrue⟩

end Skipped

end IpfsNode
