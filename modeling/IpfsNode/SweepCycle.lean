import IpfsNode.Sweep
import Mathlib.Data.Finset.Card
import Mathlib.Data.List.Pairwise

/-!
# Cycles of a sweep

A cycle of a sweep begins with a pass that takes the first candidates and ends
when a pass clears the cursor, or when the cursor lies behind all candidates.
The candidates may change between the passes. `sweep_cycle` says that what was
there all the time was returned once, and `Swept` is what holds in between: the
returned CIDs ascend, and up to the cursor nothing was left out.
-/

namespace IpfsNode

variable {Cid : Type} [LinearOrder Cid]

/-! ## Passes -/

/-- One call of `nextSweepBatch`, as the process makes it. -/
structure SweepPass (Cid : Type) where
  sweep : SweepName
  records : List (FileRecord Cid)
  advance : Bool
deriving DecidableEq, Repr

namespace SweepPass

def cids (p : SweepPass Cid) : List Cid := p.records.map (·.cid)

def selected (p : SweepPass Cid) (cursors : SweepName → Option Cid) : SweepBatch Cid :=
  nextSweepBatch p.sweep p.records (cursors p.sweep)

/-- What the call leaves behind; only an advancing one moves its cursor. -/
def move (cursors : SweepName → Option Cid) (p : SweepPass Cid) : SweepName → Option Cid :=
  if p.advance then Function.update cursors p.sweep (p.selected cursors).nextCursor else cursors

/-- An advancing pass of the sweep. -/
def moves (sweep : SweepName) (p : SweepPass Cid) : Bool := p.advance && p.sweep = sweep

/-- The pass takes the first candidates: there is no cursor, or it lies behind
all of them. -/
def startsCycle (p : SweepPass Cid) (cursors : SweepName → Option Cid) : Prop :=
  ∀ cursor, cursors p.sweep = some cursor → p.records ≠ [] ∧ ∀ cid ∈ p.cids, cid ≤ cursor

end SweepPass

/-- The batches that the advancing passes of a sweep take. -/
def taken (sweep : SweepName) :
    (SweepName → Option Cid) → List (SweepPass Cid) → List (SweepBatch Cid)
  | _, [] => []
  | cursors, p :: passes =>
      let rest := taken sweep (p.move cursors) passes
      if p.moves sweep then p.selected cursors :: rest else rest

/-- None of the passes finds the cycle of the sweep ended. -/
def Continues (sweep : SweepName) : (SweepName → Option Cid) → List (SweepPass Cid) → Prop
  | _, [] => True
  | cursors, p :: passes =>
      (p.moves sweep = true → ¬ p.startsCycle cursors) ∧
        Continues sweep (p.move cursors) passes

def SweepBatch.cids (batch : SweepBatch Cid) : List Cid := batch.records.map (·.cid)

/-! ## One batch -/

variable {records : List (FileRecord Cid)} {sweep : SweepName} {cursor : Option Cid}
  {cursors : SweepName → Option Cid} {p : SweepPass Cid}

/-- The file comes after the position. -/
def isPast (cursor : Option Cid) (cid : Cid) : Bool :=
  match cursor with
  | none => true
  | some cursor => cursor < cid

theorem SWEEP_BATCHES_pos (sweep : SweepName) : 0 < SWEEP_BATCHES sweep := by
  cases sweep <;> decide

/-- The candidates past a position, in the order of the sweep. -/
abbrev pastOf (records : List (FileRecord Cid)) (cursor : Option Cid) : List (FileRecord Cid) :=
  (inOrder records).filter (isPast cursor ·.cid)

theorem mem_pastOf {record : FileRecord Cid} :
    record ∈ pastOf records cursor ↔ record ∈ records ∧ isPast cursor record.cid = true := by
  rw [List.mem_filter, List.mem_insertionSort]

/-- A batch is what is past the position, or its first part up to the new one. -/
theorem sweepBatch_cases (h : (records.map (·.cid)).Nodup) :
    ((sweepBatch sweep records cursor).records = pastOf records cursor ∧
        (sweepBatch sweep records cursor).nextCursor = none) ∨
      ((sweepBatch sweep records cursor).records =
          (pastOf records cursor).take (SWEEP_BATCHES sweep) ∧
        SWEEP_BATCHES sweep < (pastOf records cursor).length ∧
        (sweepBatch sweep records cursor).nextCursor =
          ((pastOf records cursor).take (SWEEP_BATCHES sweep)).getLast?.map (·.cid)) := by
  have hpast : (inOrder records).drop (sweepStart (inOrder records) cursor) =
      pastOf records cursor := drop_sweepStart h
  have hlength := congrArg List.length hpast
  rw [List.length_drop] at hlength
  unfold sweepBatch
  dsimp only
  rw [hpast]
  split
  · rename_i hend
    have hend : (inOrder records).length ≤ sweepStart (inOrder records) cursor := hend
    have hnil : pastOf records cursor = [] := List.eq_nil_of_length_eq_zero (by omega)
    exact .inl ⟨hnil.symm, rfl⟩
  · rename_i hstart
    have hstart : ¬ (inOrder records).length ≤ sweepStart (inOrder records) cursor := hstart
    rw [List.length_take]
    by_cases hall : (pastOf records cursor).length ≤ SWEEP_BATCHES sweep
    · have hcompleted : (inOrder records).length ≤ sweepStart (inOrder records) cursor +
          min (SWEEP_BATCHES sweep) (pastOf records cursor).length := by
        omega
      rw [decide_eq_true hcompleted, List.take_of_length_le hall]
      exact .inl ⟨rfl, rfl⟩
    · have hleft : ¬ (inOrder records).length ≤ sweepStart (inOrder records) cursor +
          min (SWEEP_BATCHES sweep) (pastOf records cursor).length := by
        omega
      rw [decide_eq_false hleft]
      exact .inr ⟨rfl, by omega, rfl⟩

theorem sweepBatch_length_le :
    (sweepBatch sweep records cursor).records.length ≤ SWEEP_BATCHES sweep := by
  rw [records_sweepBatch]
  exact List.length_take_le _ _

/-- The first batch of a cycle takes a candidate when there is one. -/
theorem sweepBatch_first_ne_nil (h : records ≠ []) :
    (sweepBatch sweep records none).records ≠ [] := by
  have hpos := SWEEP_BATCHES_pos sweep
  rw [records_sweepBatch, sweepStart, List.drop_zero, ne_eq, List.take_eq_nil_iff, not_or]
  refine ⟨by omega, fun hnil => h ?_⟩
  rw [← List.length_eq_zero_iff, ← List.length_insertionSort (·.cid ≤ ·.cid)]
  exact congrArg List.length hnil

theorem nextSweepBatch_eq :
    nextSweepBatch sweep records cursor = sweepBatch sweep records cursor ∨
      nextSweepBatch sweep records cursor = sweepBatch sweep records none := by
  unfold nextSweepBatch
  dsimp only
  split
  · exact .inr rfl
  · exact .inl rfl

theorem nextSweepBatch_ne_nil (h : records ≠ []) :
    (nextSweepBatch sweep records cursor).records ≠ [] := by
  unfold nextSweepBatch
  dsimp only
  split
  · exact sweepBatch_first_ne_nil h
  · rename_i hnonempty
    simp only [Bool.and_eq_true, Bool.not_eq_true', List.isEmpty_iff, List.isEmpty_eq_false_iff,
      not_and] at hnonempty
    exact fun hnil => hnonempty hnil h

/-- A pass that starts a cycle takes its batch from the first candidate on. -/
theorem SweepPass.selected_of_starts (h : (p.records.map (·.cid)).Nodup)
    (hstart : p.startsCycle cursors) :
    p.selected cursors = sweepBatch p.sweep p.records none := by
  unfold SweepPass.selected
  cases hcursor : cursors p.sweep with
  | none =>
      unfold nextSweepBatch
      rw [ite_self]
  | some cursor =>
      obtain ⟨hcandidates, hbehind⟩ := hstart cursor hcursor
      have hnone : pastOf p.records (some cursor) = [] := by
        refine List.eq_nil_iff_forall_not_mem.mpr fun record hmem => ?_
        obtain ⟨hin, hpast⟩ := mem_pastOf.mp hmem
        exact absurd (of_decide_eq_true hpast)
          (not_lt.mpr (hbehind record.cid (List.mem_map_of_mem hin)))
      have hempty : (sweepBatch p.sweep p.records (some cursor)).records = [] := by
        rcases @sweepBatch_cases _ _ p.records p.sweep (some cursor) h with
          ⟨hall, -⟩ | ⟨hfirst, -, -⟩
        · rw [hall, hnone]
        · rw [hfirst, hnone, List.take_nil]
      unfold nextSweepBatch
      simp [hempty, hcandidates]

/-- Any other goes on after the cursor. -/
theorem SweepPass.selected_of_continues (h : (p.records.map (·.cid)).Nodup)
    (hstart : ¬ p.startsCycle cursors) :
    ∃ cursor, cursors p.sweep = some cursor ∧
      p.selected cursors = sweepBatch p.sweep p.records (some cursor) := by
  unfold SweepPass.startsCycle at hstart
  push Not at hstart
  obtain ⟨cursor, hcursor, hleft⟩ := hstart
  refine ⟨cursor, hcursor, ?_⟩
  unfold SweepPass.selected nextSweepBatch
  rw [hcursor]
  dsimp only
  split
  · rename_i hempty
    simp only [Bool.and_eq_true, Bool.not_eq_true', List.isEmpty_iff,
      List.isEmpty_eq_false_iff] at hempty
    obtain ⟨cid, hmem, hpast⟩ := hleft hempty.2
    obtain ⟨record, hin, rfl⟩ := List.mem_map.mp hmem
    have hahead : record ∈ pastOf p.records (some cursor) :=
      mem_pastOf.mpr ⟨hin, decide_eq_true hpast⟩
    have hpos := SWEEP_BATCHES_pos p.sweep
    rcases @sweepBatch_cases _ _ p.records p.sweep (some cursor) h with
      ⟨hall, -⟩ | ⟨hfirst, -, -⟩
    · exact absurd (hall.symm.trans hempty.1) (List.ne_nil_of_mem hahead)
    · rcases List.take_eq_nil_iff.mp (hfirst.symm.trans hempty.1) with hzero | hnil
      · omega
      · exact absurd hnil (List.ne_nil_of_mem hahead)
  · rfl

/-! ## The cycle so far -/

/-- What the passes of a cycle took: CIDs ascend over all batches, the cursor is
the last of them, and nothing that was `present` all the time is left out up to
the cursor, or at all once the cursor is cleared. -/
structure Swept (present : Cid → Prop) (batches : List (SweepBatch Cid)) (cursor : Option Cid) :
    Prop where
  ascending : (batches.flatMap SweepBatch.cids).Pairwise (· < ·)
  reached : ∀ position, cursor = some position →
    ∀ cid ∈ batches.flatMap SweepBatch.cids, cid ≤ position
  covered : ∀ cid, present cid → isPast cursor cid = false ∨ cursor = none →
    cid ∈ batches.flatMap SweepBatch.cids
  stored : (batches.filterMap (·.nextCursor)).Sublist (batches.flatMap SweepBatch.cids)
  count : batches.length ≤ (batches.flatMap SweepBatch.cids).length + 1
  going : ∀ position, cursor = some position →
    batches.length ≤ (batches.flatMap SweepBatch.cids).length

/-- The CIDs of what is past a position ascend. -/
theorem ascending_pastOf (h : (records.map (·.cid)).Nodup) :
    ((pastOf records cursor).map (·.cid)).Pairwise (· < ·) :=
  List.pairwise_map.mpr ((sorted_inOrder h).filter _)

theorem getLast_take_pastOf (h : SWEEP_BATCHES sweep < (pastOf records cursor).length) :
    ∃ last, ((pastOf records cursor).take (SWEEP_BATCHES sweep)).getLast? = some last := by
  have hpos := SWEEP_BATCHES_pos sweep
  cases hlast : ((pastOf records cursor).take (SWEEP_BATCHES sweep)).getLast? with
  | none =>
      have hnil := congrArg List.length (List.getLast?_eq_none_iff.mp hlast)
      rw [List.length_take, List.length_nil] at hnil
      omega
  | some last => exact ⟨last, rfl⟩

/-- The facts about one batch that a cycle is made of. -/
structure Batched (records : List (FileRecord Cid)) (cursor : Option Cid)
    (batch : SweepBatch Cid) : Prop where
  ascending : batch.cids.Pairwise (· < ·)
  past : ∀ cid ∈ batch.cids, isPast cursor cid = true
  reached : ∀ position, batch.nextCursor = some position →
    position ∈ batch.cids ∧ ∀ cid ∈ batch.cids, cid ≤ position
  covered : ∀ cid ∈ records.map (·.cid), isPast cursor cid = true →
    isPast batch.nextCursor cid = false ∨ batch.nextCursor = none → cid ∈ batch.cids

theorem sweepBatch_batched (h : (records.map (·.cid)).Nodup) :
    Batched records cursor (sweepBatch sweep records cursor) := by
  have hascending := @ascending_pastOf _ _ records cursor h
  have hmem (cid : Cid) (hcid : cid ∈ records.map (·.cid)) (hpast : isPast cursor cid = true) :
      cid ∈ (pastOf records cursor).map (·.cid) := by
    obtain ⟨record, hin, rfl⟩ := List.mem_map.mp hcid
    exact List.mem_map_of_mem (mem_pastOf.mpr ⟨hin, hpast⟩)
  have hpast (cid : Cid) (hcid : cid ∈ (pastOf records cursor).map (·.cid)) :
      isPast cursor cid = true := by
    obtain ⟨record, hin, rfl⟩ := List.mem_map.mp hcid
    exact (mem_pastOf.mp hin).2
  rcases @sweepBatch_cases _ _ records sweep cursor h with
    ⟨hrecords, hnext⟩ | ⟨hrecords, hlength, hnext⟩
  · have hcids : (sweepBatch sweep records cursor).cids = (pastOf records cursor).map (·.cid) :=
      congrArg (List.map _) hrecords
    rw [← hcids] at hascending hmem hpast
    refine ⟨hascending, hpast, fun position hposition => ?_, fun cid hcid hafter _ =>
      hmem cid hcid hafter⟩
    rw [hnext] at hposition
    cases hposition
  · obtain ⟨last, hlast⟩ := getLast_take_pastOf hlength
    have hcids : (sweepBatch sweep records cursor).cids =
        ((pastOf records cursor).map (·.cid)).take (SWEEP_BATCHES sweep) := by
      rw [← List.map_take]
      exact congrArg (List.map _) hrecords
    have hsplit := List.take_append_drop (SWEEP_BATCHES sweep) ((pastOf records cursor).map (·.cid))
    rw [← hcids] at hsplit
    rw [← hsplit] at hascending hmem hpast
    obtain ⟨hfirst, -, hbetween⟩ := List.pairwise_append.mp hascending
    have hnext : (sweepBatch sweep records cursor).nextCursor = some last.cid := by
      rw [hnext, hlast]
      rfl
    have hlast : (sweepBatch sweep records cursor).cids.getLast? = some last.cid := by
      rw [hcids, ← List.map_take, List.getLast?_map, hlast]
      rfl
    have hlastIn := List.mem_of_getLast? hlast
    refine ⟨hfirst, fun cid hcid => hpast cid (List.mem_append_left _ hcid),
      fun position hposition => ?_, fun cid hcid hafter hbefore => ?_⟩
    · obtain rfl := Option.some.inj (hnext.symm.trans hposition)
      refine ⟨hlastIn, fun cid hcid => ?_⟩
      have hle := (hfirst.imp fun hlt => le_of_lt hlt).rel_getLast hcid
      have hsame := (List.getLast?_eq_some_getLast (List.ne_nil_of_mem hcid)).symm.trans hlast
      exact hle.trans (Option.some.inj hsame).le
    · rcases List.mem_append.mp (hmem cid hcid hafter) with htaken | hdropped
      · exact htaken
      · have hlt := hbetween last.cid hlastIn cid hdropped
        rw [hnext] at hbefore
        rcases hbefore with hbefore | hnone
        · exact absurd hlt (of_decide_eq_false hbefore)
        · cases hnone

/-- A batch from where the cycle stands carries it on. Before its first batch a
cycle stands nowhere, and nothing is covered. -/
theorem Swept.batch {present : Cid → Prop} {batches : List (SweepBatch Cid)}
    {batch : SweepBatch Cid} (hbatch : Batched records cursor batch)
    (hascending : (batches.flatMap SweepBatch.cids).Pairwise (· < ·))
    (hbehind : ∀ cid ∈ batches.flatMap SweepBatch.cids, isPast cursor cid = false)
    (hcovered : ∀ cid, present cid → isPast cursor cid = false →
      cid ∈ batches.flatMap SweepBatch.cids)
    (hstored : (batches.filterMap (·.nextCursor)).Sublist (batches.flatMap SweepBatch.cids))
    (hcount : batches.length ≤ (batches.flatMap SweepBatch.cids).length) :
    Swept (fun cid => present cid ∧ cid ∈ records.map (·.cid)) (batches ++ [batch])
      batch.nextCursor := by
  have hcids : (batches ++ [batch]).flatMap SweepBatch.cids =
      batches.flatMap SweepBatch.cids ++ batch.cids := by
    rw [List.flatMap_append, List.flatMap_singleton]
  have hbetween (cid : Cid) (hcid : cid ∈ batches.flatMap SweepBatch.cids) (next : Cid)
      (hnext : next ∈ batch.cids) : cid < next := by
    have hat := hbehind cid hcid
    have hpast := hbatch.past next hnext
    cases cursor with
    | none => cases hat
    | some cursor =>
        exact (not_lt.mp (of_decide_eq_false hat)).trans_lt (of_decide_eq_true hpast)
  constructor
  · rw [hcids]
    exact List.pairwise_append.mpr ⟨hascending, hbatch.ascending, hbetween⟩
  · intro position hposition cid hcid
    obtain ⟨hin, hle⟩ := hbatch.reached position hposition
    rw [hcids] at hcid
    rcases List.mem_append.mp hcid with hcid | hcid
    · exact (hbetween cid hcid position hin).le
    · exact hle cid hcid
  · intro cid hpresent hbefore
    rw [hcids]
    cases hpast : isPast cursor cid with
    | false => exact List.mem_append_left _ (hcovered cid hpresent.1 hpast)
    | true => exact List.mem_append_right _ (hbatch.covered cid hpresent.2 hpast hbefore)
  · rw [hcids, List.filterMap_append]
    refine hstored.append ?_
    cases hnext : batch.nextCursor with
    | none => simp [hnext]
    | some position => simpa [hnext] using (hbatch.reached position hnext).1
  · rw [hcids, List.length_append, List.length_append, List.length_singleton]
    omega
  · intro position hposition
    have hpos := List.length_pos_of_mem (hbatch.reached position hposition).1
    rw [hcids, List.length_append, List.length_append, List.length_singleton]
    omega

/-- The pass that starts a cycle. -/
theorem swept_start (h : (p.records.map (·.cid)).Nodup) (hstart : p.startsCycle cursors) :
    Swept (· ∈ p.cids) [p.selected cursors] (p.selected cursors).nextCursor := by
  rw [SweepPass.selected_of_starts h hstart]
  have hbatch := @sweepBatch_batched _ _ p.records p.sweep none h
  have hswept : Swept (fun cid => True ∧ cid ∈ p.records.map (·.cid)) ([] ++ [_]) _ :=
    Swept.batch hbatch List.Pairwise.nil (fun _ => nofun) (fun _ _ => nofun) (List.Sublist.refl [])
      le_rfl
  exact { hswept with covered := fun cid hpresent => hswept.covered cid ⟨trivial, hpresent⟩ }

/-- A pass that goes on. -/
theorem Swept.pass {present : Cid → Prop} {batches : List (SweepBatch Cid)}
    (h : Swept present batches (cursors p.sweep)) (hkeyed : (p.records.map (·.cid)).Nodup)
    (hstart : ¬ p.startsCycle cursors) :
    Swept (fun cid => present cid ∧ cid ∈ p.cids) (batches ++ [p.selected cursors])
      (p.selected cursors).nextCursor := by
  obtain ⟨cursor, hcursor, hselected⟩ := SweepPass.selected_of_continues hkeyed hstart
  rw [hselected]
  rw [hcursor] at h
  refine Swept.batch (sweepBatch_batched hkeyed) h.ascending (fun cid hcid => ?_)
    (fun cid hpresent hat => h.covered cid hpresent (.inl hat)) h.stored (h.going cursor rfl)
  exact decide_eq_false (not_lt.mpr (h.reached cursor rfl cid hcid))

/-! ## A whole cycle -/

omit [LinearOrder Cid] in
theorem SweepPass.moves_iff : p.moves sweep = true ↔ p.advance = true ∧ p.sweep = sweep := by
  simp [SweepPass.moves]

theorem SweepPass.move_of_moves (h : p.moves sweep = true) :
    p.move cursors sweep = (p.selected cursors).nextCursor := by
  obtain ⟨hadvance, rfl⟩ := SweepPass.moves_iff.mp h
  simp [SweepPass.move, hadvance]

theorem SweepPass.move_of_not_moves (h : p.moves sweep = false) :
    p.move cursors sweep = cursors sweep := by
  unfold SweepPass.move
  split
  · rename_i hadvance
    have hsweep : p.sweep ≠ sweep := by
      simpa [SweepPass.moves, hadvance] using h
    exact Function.update_of_ne (Ne.symm hsweep) _ _
  · rfl

/-- The cursors after a list of passes. -/
def SweepPass.moveAll (cursors : SweepName → Option Cid) (passes : List (SweepPass Cid)) :
    SweepName → Option Cid :=
  passes.foldl SweepPass.move cursors

/-- The passes of a cycle, one after the other. -/
theorem Swept.passes {present : Cid → Prop} {batches : List (SweepBatch Cid)}
    {passes : List (SweepPass Cid)} (h : Swept present batches (cursors sweep))
    (hkeyed : ∀ p ∈ passes, (p.records.map (·.cid)).Nodup)
    (hcycle : Continues sweep cursors passes) :
    Swept (fun cid => present cid ∧ ∀ p ∈ passes, p.moves sweep = true → cid ∈ p.cids)
      (batches ++ taken sweep cursors passes) (SweepPass.moveAll cursors passes sweep) := by
  induction passes generalizing present batches cursors with
  | nil =>
      rw [taken, List.append_nil]
      exact { h with covered := fun cid hpresent => h.covered cid hpresent.1 }
  | cons p passes ih =>
      obtain ⟨hfirst, hrest⟩ := hcycle
      have hkeyedRest : ∀ q ∈ passes, (q.records.map (·.cid)).Nodup := fun q hq =>
        hkeyed q (List.mem_cons_of_mem p hq)
      unfold taken SweepPass.moveAll
      dsimp only
      rw [List.foldl_cons]
      cases hmoves : p.moves sweep with
      | false =>
          rw [if_neg (by simp)]
          rw [← @SweepPass.move_of_not_moves _ _ sweep cursors p hmoves] at h
          have hswept := ih h hkeyedRest hrest
          refine { hswept with covered := fun cid hpresent => hswept.covered cid ⟨hpresent.1, ?_⟩ }
          exact fun q hq => hpresent.2 q (List.mem_cons_of_mem p hq)
      | true =>
          rw [if_pos rfl, List.append_cons]
          have hpass := Swept.pass ((SweepPass.moves_iff.mp hmoves).2 ▸ h)
            (hkeyed p List.mem_cons_self) (hfirst hmoves)
          rw [← SweepPass.move_of_moves hmoves] at hpass
          have hswept := ih hpass hkeyedRest hrest
          refine { hswept with covered := fun cid hpresent => hswept.covered cid ⟨?_, ?_⟩ }
          · exact ⟨hpresent.1, hpresent.2 p List.mem_cons_self hmoves⟩
          · exact fun q hq => hpresent.2 q (List.mem_cons_of_mem p hq)

/-- Passes that do not move the sweep leave its cursor. -/
theorem SweepPass.moveAll_of_not_moves {passes : List (SweepPass Cid)}
    (h : ∀ p ∈ passes, p.moves sweep = false) :
    SweepPass.moveAll cursors passes sweep = cursors sweep := by
  induction passes generalizing cursors with
  | nil => rfl
  | cons p passes ih =>
      have hrest := @ih (p.move cursors) fun q hq => h q (List.mem_cons_of_mem p hq)
      exact hrest.trans (SweepPass.move_of_not_moves (h p List.mem_cons_self))

theorem SweepPass.selected_length (p : SweepPass Cid) (cursors : SweepName → Option Cid) :
    (p.selected cursors).records.length ≤ SWEEP_BATCHES p.sweep := by
  rcases @nextSweepBatch_eq _ _ p.records p.sweep (cursors p.sweep) with heq | heq
  all_goals
    unfold SweepPass.selected
    rw [heq]
    exact sweepBatch_length_le

/-- A cycle takes no more passes than there are CIDs, and one that finds none. -/
theorem Swept.length_le {present : Cid → Prop} {batches : List (SweepBatch Cid)}
    (h : Swept present batches cursor) {cids : Finset Cid}
    (hcids : ∀ cid ∈ batches.flatMap SweepBatch.cids, cid ∈ cids) :
    batches.length ≤ cids.card + 1 := by
  have hnodup : (batches.flatMap SweepBatch.cids).Nodup := h.ascending.imp ne_of_lt
  have hcard := Finset.card_le_card (s := (batches.flatMap SweepBatch.cids).toFinset) (t := cids)
    fun cid hcid => hcids cid (List.mem_toFinset.mp hcid)
  rw [List.toFinset_card_of_nodup hnodup] at hcard
  have hcount := h.count
  omega

/-- What a pass takes is among its candidates. -/
theorem SweepPass.mem_selected {cid : Cid} (h : cid ∈ (p.selected cursors).cids) :
    cid ∈ p.cids := by
  obtain ⟨record, hin, rfl⟩ := List.mem_map.mp h
  refine List.mem_map_of_mem ?_
  rcases @nextSweepBatch_eq _ _ p.records p.sweep (cursors p.sweep) with heq | heq
  all_goals
    unfold SweepPass.selected at hin
    rw [heq, records_sweepBatch] at hin
    exact (List.mem_insertionSort _).mp (List.mem_of_mem_drop (List.mem_of_mem_take hin))

theorem mem_taken {passes : List (SweepPass Cid)} {cid : Cid}
    (h : cid ∈ (taken sweep cursors passes).flatMap SweepBatch.cids) :
    ∃ p ∈ passes, p.moves sweep = true ∧ cid ∈ p.cids := by
  induction passes generalizing cursors with
  | nil => cases h
  | cons p passes ih =>
      unfold taken at h
      dsimp only at h
      have hrest (h : cid ∈ (taken sweep (p.move cursors) passes).flatMap SweepBatch.cids) :
          ∃ q ∈ p :: passes, q.moves sweep = true ∧ cid ∈ q.cids := by
        obtain ⟨q, hq, hfound⟩ := ih h
        exact ⟨q, List.mem_cons_of_mem p hq, hfound⟩
      cases hmoves : p.moves sweep with
      | false =>
          rw [hmoves] at h
          exact hrest h
      | true =>
          rw [if_pos hmoves, List.flatMap_cons] at h
          rcases List.mem_append.mp h with hp | h
          · exact ⟨p, List.mem_cons_self, hmoves, SweepPass.mem_selected hp⟩
          · exact hrest h

/-- Whatever lists a sweep is given, its cycle, from the pass that starts it and
while none of the next passes finds it ended, returns no CID twice and, once it
ends, every CID that was in all of the lists. The cursors it stores ascend, so
that it has no more passes than CIDs. A pass takes a full batch at most, and
something if there is anything; one that does not advance leaves the cursors and
tells what the next one of its sweep will return. -/
theorem sweep_cycle (sweep : SweepName) :
    (∀ (cursors : SweepName → Option Cid) (first : SweepPass Cid) (rest : List (SweepPass Cid)),
      (∀ p ∈ first :: rest, p.cids.Nodup) → first.moves sweep = true → first.startsCycle cursors →
      Continues sweep (first.move cursors) rest →
      let batches := taken sweep cursors (first :: rest)
      let returned := batches.flatMap SweepBatch.cids
      let cursor := SweepPass.moveAll cursors (first :: rest) sweep
      let throughout (cid : Cid) := ∀ p ∈ first :: rest, p.moves sweep = true → cid ∈ p.cids
      returned.Nodup ∧
      (cursor = none → ∀ cid, throughout cid → cid ∈ returned) ∧
      (∀ position, cursor = some position → ∀ next : SweepPass Cid,
        (∀ cid ∈ next.cids, cid ≤ position) → ∀ cid ∈ next.cids, throughout cid →
          cid ∈ returned) ∧
      (batches.filterMap (·.nextCursor)).Pairwise (· < ·) ∧
      ∀ cids : Finset Cid,
        (∀ p ∈ first :: rest, p.moves sweep = true → ∀ cid ∈ p.cids, cid ∈ cids) →
        batches.length ≤ cids.card + 1) ∧
    (∀ (cursors : SweepName → Option Cid) (p : SweepPass Cid),
      (p.selected cursors).records.length ≤ SWEEP_BATCHES p.sweep ∧
      (p.records ≠ [] → (p.selected cursors).records ≠ [])) ∧
    ∀ (cursors : SweepName → Option Cid) (peek : SweepPass Cid) (between : List (SweepPass Cid)),
      peek.advance = false → (∀ p ∈ between, p.moves peek.sweep = false) →
      peek.move cursors = cursors ∧
      peek.selected cursors = SweepPass.selected { peek with advance := true }
        (SweepPass.moveAll (peek.move cursors) between) := by
  refine ⟨fun cursors first rest hkeyed hmoves hstart hcycle => ?_, fun cursors p => ?_,
    fun cursors peek between hpeek hbetween => ?_⟩
  · have hbatches : taken sweep cursors (first :: rest) =
        [first.selected cursors] ++ taken sweep (first.move cursors) rest := by
      rw [taken, if_pos hmoves]
      rfl
    have hfirst := swept_start (hkeyed first List.mem_cons_self) hstart
    rw [← SweepPass.move_of_moves hmoves] at hfirst
    have hswept := hfirst.passes (fun p hp => hkeyed p (List.mem_cons_of_mem first hp)) hcycle
    rw [← hbatches] at hswept
    have hpresent (cid : Cid)
        (h : ∀ p ∈ first :: rest, p.moves sweep = true → cid ∈ p.cids) :
        cid ∈ first.cids ∧ ∀ p ∈ rest, p.moves sweep = true → cid ∈ p.cids :=
      ⟨h first List.mem_cons_self hmoves, fun p hp => h p (List.mem_cons_of_mem first hp)⟩
    refine ⟨hswept.ascending.imp ne_of_lt, fun hcleared cid hcid => ?_,
      fun position hposition next hbehind cid hnext hcid => ?_,
      hswept.ascending.sublist hswept.stored, fun cids hcids => hswept.length_le fun cid hcid => ?_⟩
    · exact hswept.covered cid (hpresent cid hcid) (.inr hcleared)
    · refine hswept.covered cid (hpresent cid hcid) (.inl ?_)
      have hat : isPast (some position) cid = false :=
        decide_eq_false (not_lt.mpr (hbehind cid hnext))
      exact hposition ▸ hat
    · obtain ⟨p, hp, hmoved, hin⟩ := mem_taken hcid
      exact hcids p hp hmoved cid hin
  · exact ⟨p.selected_length cursors, nextSweepBatch_ne_nil⟩
  · have hmove : peek.move cursors = cursors := by simp [SweepPass.move, hpeek]
    refine ⟨hmove, ?_⟩
    unfold SweepPass.selected
    rw [hmove, SweepPass.moveAll_of_not_moves hbetween]

/-! ## A cycle with a change in it -/

namespace VanishedCursor

def candidate (cid : Nat) : FileRecord Nat :=
  { cid, name := "file", state := .confirmed, createdAt := 0, expiresAt := none,
    confirmedAt := some 0, fileSize := 1, storedBytes := 1, protectedBytes := none, pinned := true,
    heldLocally := true, replicas := [], admissionId := none, admissionSettledAt := none,
    replicaStage := none, revision := none }

def first : SweepPass Nat := ⟨.repair, (List.range 51).map candidate, true⟩

/-- The file at the cursor, 49, is gone. -/
def rest : List (SweepPass Nat) :=
  [⟨.demote, [candidate 7], true⟩, ⟨.repair, [candidate 50, candidate 3], true⟩]

def returned : List Nat := (taken .repair (fun _ => none) (first :: rest)).flatMap SweepBatch.cids

end VanishedCursor

open VanishedCursor in
theorem sweep_cycle_vanishedCursor : returned.Nodup ∧ 3 ∈ returned ∧ 50 ∈ returned := by
  have hcycle : Continues .repair (first.move fun _ => none) rest := by
    refine ⟨fun hmoves => absurd hmoves (by decide), fun _ hstart => ?_, trivial⟩
    have hcursor : SweepPass.moveAll (fun _ => none)
        [first, ⟨.demote, [candidate 7], true⟩] .repair = some 49 := by
      decide +kernel
    exact absurd ((hstart 49 hcursor).2 50 (by decide)) (by decide)
  have h := (sweep_cycle .repair).1 (fun _ => none) first rest (by decide +kernel) rfl nofun hcycle
  have hcleared : SweepPass.moveAll (fun _ => none) (first :: rest) .repair = none := by
    decide +kernel
  exact ⟨h.1, h.2.1 hcleared 3 (by decide +kernel), h.2.1 hcleared 50 (by decide +kernel)⟩

end IpfsNode
