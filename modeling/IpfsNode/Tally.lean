import Mathlib.Algebra.Order.BigOperators.Group.List
import Mathlib.Algebra.Order.Ring.Nat
import Mathlib.Tactic.Cases

/-!
# Tallies

What the elements of a list add up to, and how it changes with the list.
-/

namespace List

variable {α β : Type}

def tally (f : α → Nat) (l : List α) : Nat := (l.map f).sum

@[simp] theorem tally_nil (f : α → Nat) : tally f [] = 0 := rfl

@[simp] theorem tally_cons (f : α → Nat) (a : α) (l : List α) :
    tally f (a :: l) = f a + tally f l := by
  simp [tally]

@[simp] theorem tally_append (f : α → Nat) (l l' : List α) :
    tally f (l ++ l') = tally f l + tally f l' := by
  simp [tally]

theorem tally_map (f : β → Nat) (g : α → β) (l : List α) :
    tally f (l.map g) = tally (fun a => f (g a)) l := by
  rw [tally, map_map]
  rfl

theorem tally_add (f g : α → Nat) (l : List α) :
    tally (fun a => f a + g a) l = tally f l + tally g l :=
  sum_map_add

theorem tally_congr {f g : α → Nat} {l : List α} (h : ∀ a ∈ l, f a = g a) :
    tally f l = tally g l :=
  congrArg sum (map_congr_left h)

theorem tally_le {f g : α → Nat} {l : List α} (h : ∀ a ∈ l, f a ≤ g a) :
    tally f l ≤ tally g l :=
  sum_le_sum h

theorem le_tally (f : α → Nat) {l : List α} {a : α} (h : a ∈ l) : f a ≤ tally f l :=
  single_le_sum (fun _ _ => Nat.zero_le _) _ (mem_map_of_mem h)

theorem tally_eq_zero {f : α → Nat} {l : List α} (h : ∀ a ∈ l, f a = 0) : tally f l = 0 := by
  rw [tally_congr h]
  induction l with
  | nil => rfl
  | cons a l ih => simp [ih fun b hb => h b (mem_cons_of_mem a hb)]

/-- Replacing an element exchanges what the two count for. -/
theorem tally_set {l : List α} {i : Nat} {a : α} (a' : α) (f : α → Nat) (h : l[i]? = some a) :
    tally f (l.set i a') + f a = tally f l + f a' := by
  induction l generalizing i with
  | nil => cases h
  | cons b l ih =>
      cases i with
      | zero =>
          cases h
          simp only [set_cons_zero, tally_cons]
          omega
      | succ i =>
          have hrest := ih h
          simp only [set_cons_succ, tally_cons]
          omega

theorem tally_one_filter (p : α → Bool) (l : List α) :
    tally (fun a => if p a then 1 else 0) l = (l.filter p).length := by
  induction l with
  | nil => rfl
  | cons a l ih =>
      cases hp : p a <;> simp [hp, ih, Nat.add_comm]

theorem tally_filter (f : α → Nat) (p : α → Bool) (l : List α) :
    tally f (l.filter p) = tally (fun a => if p a then f a else 0) l := by
  induction l with
  | nil => rfl
  | cons a l ih => cases hp : p a <;> simp [hp, ih]

theorem tally_mul (n : Nat) (f : α → Nat) (l : List α) :
    tally (fun a => n * f a) l = n * tally f l := by
  induction l with
  | nil => rfl
  | cons a l ih => rw [tally_cons, tally_cons, ih, Nat.mul_add]

/-- What elements count for through something that some of them have. -/
theorem tally_filterMap (f : β → Nat) (g : α → Option β) (l : List α) :
    tally f (l.filterMap g) = tally (fun a => ((g a).map f).getD 0) l := by
  induction l with
  | nil => rfl
  | cons a l ih =>
      rw [filterMap_cons, tally_cons, ← ih]
      cases g a with
      | none => exact (Nat.zero_add _).symm
      | some b => exact tally_cons ..

/-- By position. -/
theorem tally_range (f : α → Nat) (l : List α) :
    tally (fun i => (l[i]?.map f).getD 0) (range l.length) = tally f l := by
  induction l with
  | nil => rfl
  | cons a l ih =>
      rw [length_cons, range_succ_eq_map, tally_cons, tally_map, tally_cons, ← ih]
      rfl

/-- Elements sorted by a key: each one is under one key at most. -/
theorem tally_keys [DecidableEq β] (f : α → Nat) (key : α → β) (keys : List β) (l : List α)
    (hkeys : keys.Nodup) :
    tally (fun k => tally (fun a => if key a = k then f a else 0) l) keys =
      tally (fun a => if key a ∈ keys then f a else 0) l := by
  induction keys with
  | nil => exact (tally_eq_zero fun _ _ => rfl).symm
  | cons k keys ih =>
      obtain ⟨hk, hkeys⟩ := nodup_cons.mp hkeys
      rw [tally_cons, ih hkeys, ← tally_add]
      refine tally_congr fun a _ => ?_
      by_cases hkey : key a = k
      · have hnot : key a ∉ keys := by rwa [hkey]
        simp [hkey, hk]
      · simp [hkey]

/-! ## Replacing an element of a filtered list -/

theorem filter_set_of_neg {l : List α} {p : α → Bool} {i : Nat} {a a' : α}
    (h : l[i]? = some a) (ha : p a = false) (ha' : p a' = false) :
    (l.set i a').filter p = l.filter p := by
  induction l generalizing i with
  | nil => cases h
  | cons b l ih =>
      cases i with
      | zero =>
          cases h
          simp [ha, ha']
      | succ i => simp [filter_cons, ih h]

theorem filter_set_of_pos {l : List α} {p : α → Bool} {i : Nat} {a : α} (a' : α)
    (h : l[i]? = some a) (ha : p a = true) (ha' : p a' = true) :
    ∃ j, (l.filter p)[j]? = some a ∧ (l.set i a').filter p = (l.filter p).set j a' := by
  induction l generalizing i with
  | nil => cases h
  | cons b l ih =>
      cases i with
      | zero =>
          cases h
          exact ⟨0, by simp [ha], by simp [ha, ha']⟩
      | succ i =>
          obtain ⟨j, hj, hset⟩ := ih h
          cases hb : p b with
          | true => exact ⟨j + 1, by simp [hb, hj], by simp [hb, hset]⟩
          | false => exact ⟨j, by simp [hb, hj], by simp [hb, hset]⟩

end List
