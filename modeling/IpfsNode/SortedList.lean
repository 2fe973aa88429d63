import Mathlib.Data.List.Sort
import Mathlib.Order.Lattice

/-!
# Sorted lists

Parts of a list sorted by a key, told without positions: what is left after an
entry, what comes among the first. Insertion sort is stable, so it commutes
with leaving entries out.
-/

namespace List

/-! ## Windows -/

section Windows

variable {α β : Type} [LinearOrder α] {key : β → α} {l : List β}

/-- Dropping what comes first leaves what is past it. -/
theorem drop_findIdx_of_sorted (h : l.Pairwise fun x y => key x < key y) (a : α) :
    l.drop (l.findIdx fun x => a < key x) = l.filter fun x => a < key x := by
  induction l with
  | nil => rfl
  | cons x xs ih =>
      obtain ⟨hx, hxs⟩ := pairwise_cons.mp h
      rw [findIdx_cons]
      by_cases hpast : a < key x
      · have hall : ∀ y ∈ xs, decide (a < key y) = true := fun y hy =>
          decide_eq_true (hpast.trans (hx y hy))
        simp only [filter_cons, hpast, decide_true, if_true, cond_true, drop_zero]
        rw [filter_eq_self.mpr hall]
      · simp only [filter_cons, hpast, decide_false, Bool.false_eq_true, if_false, cond_false]
        exact ih hxs

/-- So does dropping up to an entry and with it. -/
theorem drop_succ_findIdx_of_sorted (h : l.Pairwise fun x y => key x < key y) {a : α}
    (hmem : ∃ x ∈ l, key x = a) :
    l.drop (l.findIdx (fun x => key x = a) + 1) = l.filter fun x => a < key x := by
  induction l with
  | nil => simp at hmem
  | cons x xs ih =>
      obtain ⟨hx, hxs⟩ := pairwise_cons.mp h
      rw [findIdx_cons]
      by_cases hkey : key x = a
      · have hall : ∀ y ∈ xs, decide (a < key y) = true := fun y hy =>
          decide_eq_true (hkey ▸ hx y hy)
        simp only [filter_cons, hkey, lt_irrefl, decide_true, decide_false, Bool.false_eq_true,
          if_false, cond_true]
        exact (filter_eq_self.mpr hall).symm
      · obtain ⟨y, hy, hya⟩ := hmem
        have hy : y ∈ xs := (mem_cons.mp hy).resolve_left fun heq => hkey (heq ▸ hya)
        have hbefore : key x < a := hya ▸ hx y hy
        simp only [filter_cons, hkey, hbefore.not_gt, decide_false, Bool.false_eq_true,
          if_false, cond_false]
        exact ih hxs ⟨y, hy, hya⟩

/-- The first of a sorted list are those with few before them. -/
theorem take_eq_filter_of_sorted (h : l.Pairwise fun x y => key x < key y) (n : Nat) :
    l.take n = l.filter fun x => (l.filter fun y => key y < key x).length < n := by
  induction l generalizing n with
  | nil => simp
  | cons x xs ih =>
      obtain ⟨hx, hxs⟩ := pairwise_cons.mp h
      have hnone : (x :: xs).filter (fun y => key y < key x) = [] := by
        rw [filter_eq_nil_iff]
        intro y hy
        rcases mem_cons.mp hy with rfl | hy
        · simp
        · simpa using (hx y hy).le
      cases n with
      | zero => simp
      | succ n =>
          have hfirst : ((x :: xs).filter fun y => key y < key x).length < n + 1 := by
            rw [hnone]
            exact Nat.succ_pos n
          rw [take_succ_cons, ih hxs, filter_cons, if_pos (decide_eq_true hfirst)]
          refine congrArg _ (filter_congr fun y hy => ?_)
          simp only [filter_cons, hx y hy, decide_true, if_true, length_cons,
            Nat.succ_lt_succ_iff]

end Windows

/-! ## Stability -/

section Stability

variable {α : Type} {r : α → α → Prop} [DecidableRel r]

theorem orderedInsert_of_forall_rel {a : α} {l : List α} (h : ∀ b ∈ l, r a b) :
    l.orderedInsert r a = a :: l := by
  cases l with
  | nil => rfl
  | cons b l => exact orderedInsert_cons_of_le r l (h b mem_cons_self)

theorem filter_orderedInsert [IsTrans α r] {l : List α} (hsorted : l.Pairwise r)
    (p : α → Bool) (a : α) :
    (l.orderedInsert r a).filter p =
      if p a then (l.filter p).orderedInsert r a else l.filter p := by
  induction l with
  | nil => simp [filter_cons]
  | cons b l ih =>
      obtain ⟨hb, hl⟩ := pairwise_cons.mp hsorted
      by_cases hab : r a b
      · have hall : ∀ c ∈ b :: l, r a c := by
          intro c hc
          rcases mem_cons.mp hc with rfl | hc
          · exact hab
          · exact trans_of r hab (hb c hc)
        rw [orderedInsert_of_forall_rel hall, filter_cons,
          orderedInsert_of_forall_rel fun c hc => hall c (mem_of_mem_filter hc)]
      · rw [orderedInsert_of_not_le r l hab, filter_cons, filter_cons, ih hl]
        cases p b with
        | false => rfl
        | true =>
            cases p a with
            | false => rfl
            | true => exact (orderedInsert_of_not_le r _ hab).symm

/-- Sorting keeps the order of equals, so entries may be left out before or after. -/
theorem filter_insertionSort [Std.Total r] [IsTrans α r] (l : List α) (p : α → Bool) :
    (l.insertionSort r).filter p = (l.filter p).insertionSort r := by
  induction l with
  | nil => rfl
  | cons a l ih =>
      rw [insertionSort_cons, filter_orderedInsert (pairwise_insertionSort r l), ih, filter_cons]
      cases p a <;> rfl

end Stability

end List
