import IpfsNode.Transition
import Mathlib.Data.List.Perm.Basic
import Mathlib.Data.List.Range

/-!
# Workers on one list

Some workers share a list and the index of its next item. A worker that is ready
takes the item at the index and moves the index on in one step, works on the item
while others do the same, and is ready again when it has a result. A worker that
finds the list exhausted is done, and one whose item fails stops there.

Whatever the order of the steps, every index before the shared one has been taken
exactly once (`Accounted.taken`). When the workers have settled and none failed,
the results are those of a pass over the list, in another order
(`Accounted.sequential`).
-/

namespace List

/-- A list is rearranged as its image is. -/
theorem exists_perm_map_eq {α β : Type} {f : α → β} {l : List α} {l' : List β}
    (h : l.map f ~ l') : ∃ l₁, l₁ ~ l ∧ l₁.map f = l' := by
  induction l' generalizing l with
  | nil =>
      have hnil : l = [] := map_eq_nil_iff.mp (perm_nil.mp h)
      exact ⟨[], by rw [hnil], rfl⟩
  | cons b l' ih =>
      have hmem : b ∈ l.map f := h.symm.subset mem_cons_self
      obtain ⟨a, ha, rfl⟩ := mem_map.mp hmem
      obtain ⟨before, after, rfl⟩ := append_of_mem ha
      have hrest : (before ++ after).map f ~ l' := by
        refine Perm.cons_inv (a := f a) ?_
        refine Perm.trans ?_ h
        rw [map_append, map_append, map_cons]
        exact perm_middle.symm
      obtain ⟨l₁, hperm, hmap⟩ := ih hrest
      exact ⟨a :: l₁, (hperm.cons a).trans perm_middle.symm, by rw [map_cons, hmap]⟩

end List

namespace WorkerPool

inductive Worker where
  | ready
  | busy (index : Nat)
  | done
  | failed (index : Nat)

namespace Worker

/-- The item that the worker took and has no result for. -/
def index? : Worker → Option Nat
  | busy index | failed index => some index
  | ready | done => none

def Settled : Worker → Prop
  | done | failed _ => True
  | ready | busy _ => False

end Worker

structure State (Result : Type) where
  /-- The index that the workers share. -/
  next : Nat
  workers : List Worker
  /-- The results so far, each with the index of its item. -/
  finished : List (Nat × Result)

section Pool

variable {Item Result Error : Type}

def start (width : Nat) : State Result := ⟨0, List.replicate width .ready, []⟩

/-- One step of one worker; `outcome` says what the work on an item comes to. -/
inductive Step (items : List Item) (outcome : Item → Except Error Result → Prop) :
    State Result → State Result → Prop
  | take {next before after finished} (h : next < items.length) :
      Step items outcome ⟨next, before ++ .ready :: after, finished⟩
        ⟨next + 1, before ++ .busy next :: after, finished⟩
  | stop {next before after finished} (h : items.length ≤ next) :
      Step items outcome ⟨next, before ++ .ready :: after, finished⟩
        ⟨next, before ++ .done :: after, finished⟩
  | finish {next before after finished index item result}
      (hitem : items[index]? = some item) (h : outcome item (.ok result)) :
      Step items outcome ⟨next, before ++ .busy index :: after, finished⟩
        ⟨next, before ++ .ready :: after, finished ++ [(index, result)]⟩
  | fail {next before after finished index item err}
      (hitem : items[index]? = some item) (h : outcome item (.error err)) :
      Step items outcome ⟨next, before ++ .busy index :: after, finished⟩
        ⟨next, before ++ .failed index :: after, finished⟩

/-- The states that the pool reaches. -/
abbrev Reach (items : List Item) (outcome : Item → Except Error Result → Prop) (width : Nat) :
    State Result → Prop :=
  Relation.ReflTransGen (Step items outcome) (start width)

/-- What holds in every state. -/
structure Accounted (items : List Item) (outcome : Item → Except Error Result → Prop)
    (width : Nat) (s : State Result) : Prop where
  /-- Every item before the shared index was taken once: its result is there, or one
  worker has it. -/
  taken : (s.finished.map Prod.fst ++ s.workers.filterMap Worker.index?).Perm (List.range s.next)
  bound : s.next ≤ items.length
  width : s.workers.length = width
  exhausted : .done ∈ s.workers → s.next = items.length
  results : ∀ entry ∈ s.finished, ∃ item, items[entry.1]? = some item ∧
    outcome item (.ok entry.2)
  failures : ∀ index, .failed index ∈ s.workers → ∃ item err, items[index]? = some item ∧
    outcome item (.error err)

variable {items : List Item} {outcome : Item → Except Error Result → Prop} {width : Nat}
variable {s s' : State Result}

theorem accounted_start : Accounted items outcome width (start width : State Result) where
  taken := by
    have hnone : (List.replicate width Worker.ready).filterMap Worker.index? = [] := by
      rw [List.filterMap_eq_nil_iff]
      intro worker hmem
      rw [List.eq_of_mem_replicate hmem]
      rfl
    unfold start
    rw [hnone]
    exact .refl _
  bound := Nat.zero_le _
  width := List.length_replicate
  exhausted hmem := by cases List.eq_of_mem_replicate hmem
  results entry hmem := absurd hmem List.not_mem_nil
  failures index hmem := by cases List.eq_of_mem_replicate hmem

/-- The items that the workers have, when one of them is looked at apart. -/
theorem filterMap_index (before after : List Worker) (worker : Worker) :
    (before ++ worker :: after).filterMap Worker.index? =
      before.filterMap Worker.index? ++
        (worker.index?.toList ++ after.filterMap Worker.index?) := by
  rw [List.filterMap_append, List.filterMap_cons]
  cases worker.index? <;> rfl

/-- Every step keeps the account. -/
theorem Accounted.step (h : Accounted items outcome width s) (hstep : Step items outcome s s') :
    Accounted items outcome width s' := by
  have htaken := h.taken
  have hwidth := h.width
  cases hstep with
  | @take next before after finished hlt =>
      rw [filterMap_index] at htaken
      refine ⟨?_, hlt, ?_, fun hmem => ?_, h.results, fun index hmem => h.failures index ?_⟩
      · rw [filterMap_index, List.range_succ]
        refine List.Perm.trans ?_ (htaken.append_right [next])
        simp only [Worker.index?, Option.toList_some, Option.toList_none, List.nil_append,
          List.singleton_append, List.append_assoc]
        exact ((List.perm_append_singleton _ _).symm.append_left _).append_left _
      · simpa using hwidth
      · have := h.exhausted (by simpa using hmem)
        exact absurd this hlt.ne
      · simpa using hmem
  | @stop next before after finished hend =>
      rw [filterMap_index] at htaken
      refine ⟨?_, h.bound, ?_, fun _ => le_antisymm h.bound hend, h.results,
        fun index hmem => h.failures index ?_⟩
      · rw [filterMap_index]
        exact htaken
      · simpa using hwidth
      · simpa using hmem
  | @finish next before after finished index item result hitem hok =>
      rw [filterMap_index] at htaken
      refine ⟨?_, h.bound, ?_, fun hmem => h.exhausted ?_, fun entry hmem => ?_,
        fun index hmem => h.failures index ?_⟩
      · rw [filterMap_index, List.map_append]
        refine List.Perm.trans ?_ htaken
        simp only [Worker.index?, Option.toList_some, Option.toList_none, List.nil_append,
          List.singleton_append, List.append_assoc, List.map_singleton]
        exact List.perm_middle.symm.append_left _
      · simpa using hwidth
      · simpa using hmem
      · rcases List.mem_append.mp hmem with hmem | hmem
        · exact h.results entry hmem
        · rw [List.mem_singleton.mp hmem]
          exact ⟨item, hitem, hok⟩
      · simpa using hmem
  | @fail next before after finished index item err hitem herr =>
      rw [filterMap_index] at htaken
      refine ⟨?_, h.bound, ?_, fun hmem => h.exhausted ?_, h.results, fun index' hmem => ?_⟩
      · rw [filterMap_index]
        exact htaken
      · simpa using hwidth
      · simpa using hmem
      · by_cases hsame : index' = index
        · exact ⟨item, err, hsame ▸ hitem, herr⟩
        · exact h.failures index' (by simpa [hsame] using hmem)

theorem accounted (h : Reach items outcome width s) : Accounted items outcome width s := by
  induction h with
  | refl => exact accounted_start
  | tail _ hstep ih => exact ih.step hstep

/-! ### What the account says -/

theorem done_or_failed (hsettled : ∀ worker ∈ s.workers, worker.Settled) (hwidth : s.workers ≠ []) :
    .done ∈ s.workers ∨ ∃ index, .failed index ∈ s.workers := by
  obtain ⟨worker, hmem⟩ := List.exists_mem_of_ne_nil _ hwidth
  cases worker with
  | done => exact .inl hmem
  | failed index => exact .inr ⟨index, hmem⟩
  | ready | busy => exact (hsettled _ hmem).elim

/-- In a list of pairs whose first parts are their positions. -/
theorem fst_getElem {α : Type} {l : List (Nat × α)} {n i : Nat}
    (h : l.map Prod.fst = List.range n) (hi : i < l.length) : l[i].1 = i := by
  have hfst : (l.map Prod.fst)[i]? = (List.range n)[i]? := by rw [h]
  have hlength : l.length = n := by simpa using congrArg List.length h
  rw [List.getElem?_map, List.getElem?_eq_getElem hi,
    List.getElem?_eq_getElem (by rw [List.length_range]; omega)] at hfst
  simpa using hfst

/-- When all workers have settled and none failed, the results are those of a pass
over the list, in another order. -/
theorem Accounted.sequential (h : Accounted items outcome width s)
    (hsettled : ∀ worker ∈ s.workers, worker.Settled)
    (hok : ∀ index, .failed index ∉ s.workers) (hwidth : items ≠ [] → 0 < width) :
    s.next = items.length ∧ ∃ results,
      List.Forall₂ (fun item result => outcome item (.ok result)) items results ∧
      (s.finished.map Prod.snd).Perm results := by
  have hidle : s.workers.filterMap Worker.index? = [] := by
    rw [List.filterMap_eq_nil_iff]
    intro worker hmem
    cases worker with
    | done => rfl
    | failed index => exact absurd hmem (hok index)
    | ready | busy => exact (hsettled _ hmem).elim
  have hall : s.next = items.length := by
    by_cases hitems : items = []
    · have hbound := h.bound
      rw [hitems] at hbound ⊢
      exact le_antisymm hbound (Nat.zero_le _)
    · have hworkers : s.workers ≠ [] := by
        intro hnil
        have hlength := h.width
        rw [hnil] at hlength
        exact (hwidth hitems).ne hlength
      rcases done_or_failed hsettled hworkers with hdone | ⟨index, hmem⟩
      · exact h.exhausted hdone
      · exact absurd hmem (hok index)
  have htaken := h.taken
  rw [hidle, List.append_nil, hall] at htaken
  obtain ⟨l, hperm, hl⟩ := List.exists_perm_map_eq htaken
  have hlength : l.length = items.length := by simpa using congrArg List.length hl
  refine ⟨hall, l.map Prod.snd, ?_, (hperm.map Prod.snd).symm⟩
  refine List.forall₂_iff_get.mpr ⟨by rw [List.length_map, hlength], fun i hi hi' => ?_⟩
  have hi'' : i < l.length := by rwa [List.length_map] at hi'
  have hmem : (i, (l.map Prod.snd).get ⟨i, hi'⟩) ∈ l := by
    have heq : l[i] = (i, (l.map Prod.snd).get ⟨i, hi'⟩) := by
      refine Prod.ext (fst_getElem hl hi'') ?_
      rw [List.get_eq_getElem, List.getElem_map]
    exact heq ▸ List.getElem_mem hi''
  obtain ⟨item, hitem, houtcome⟩ := h.results _ (hperm.subset hmem)
  rw [List.getElem?_eq_getElem hi] at hitem
  cases hitem
  exact houtcome

end Pool

end WorkerPool
