import Mathlib.Data.List.Nodup
import Mathlib.Logic.Function.Basic
import Mathlib.Logic.Relation

/-!
# A promise chain

A lock made of promises. A caller takes the promise of the caller before it out
of a slot and puts its own into it; it proceeds when the promise it took has
settled, and its own settles when it is through. A caller that finds its own
promise in the slot when it leaves empties the slot.

The requests queue up behind each other although no queue is stored anywhere:
`Inv` says that the slot and the promise each waiting caller took are the last
elements of the right parts of the order of requests. From it come mutual
exclusion (`Inv.unique`), the order of the grants (`Inv.grants_front`), that the head
of the queue can go on when nobody is inside (`Inv.grantable_or_inside`), and
that the slot is empty when all have left (`Inv.empty`).
-/

namespace PromiseChain

/-- How far a caller is. -/
inductive Lock (ι : Type) where
  | free
  /-- Behind the promise of `previous`, or behind none. -/
  | waiting (previous : Option ι)
  | held
  /-- The work is over, the own promise has not settled yet. -/
  | ended
  | settled
  | left
deriving DecidableEq, Repr

namespace Lock

variable {ι : Type}

/-- The promise of the caller has settled. -/
def Resolved : Lock ι → Prop
  | settled | left => True
  | _ => False

/-- The caller was let in. -/
def Granted : Lock ι → Prop
  | held | ended | settled | left => True
  | _ => False

/-- The caller keeps the others out. -/
def Inside : Lock ι → Prop
  | held | ended => True
  | _ => False

theorem Granted.resolved_or_inside {l : Lock ι} (h : l.Granted) : l.Resolved ∨ l.Inside := by
  cases l with
  | free | waiting => exact h.elim
  | held | ended => exact .inr trivial
  | settled | left => exact .inl trivial

theorem Inside.not_resolved {l : Lock ι} (h : l.Inside) : ¬ l.Resolved := by
  cases l with
  | held | ended => exact id
  | _ => exact h.elim

theorem Resolved.granted {l : Lock ι} (h : l.Resolved) : l.Granted := by
  cases l with
  | settled | left => trivial
  | _ => exact h.elim

theorem Inside.granted {l : Lock ι} (h : l.Inside) : l.Granted := by
  cases l with
  | held | ended => trivial
  | _ => exact h.elim

end Lock

/-- The slot, the callers, and in which order they came and were let in. -/
structure Chain (ι : Type) where
  queued : Option ι
  lock : ι → Lock ι
  requests : List ι
  grants : List ι

variable {ι : Type}

def Chain.init : Chain ι where
  queued := none
  lock := fun _ => .free
  requests := []
  grants := []

section Steps

variable [DecidableEq ι]

/-- The caller `c` gets to `l`. -/
def Chain.move (s : Chain ι) (c : ι) (l : Lock ι) : Chain ι :=
  { s with lock := Function.update s.lock c l }

@[simp] theorem Chain.lock_move_self (s : Chain ι) (c : ι) (l : Lock ι) :
    (s.move c l).lock c = l :=
  Function.update_self ..

theorem Chain.lock_move_of_ne {s : Chain ι} {a c : ι} (h : a ≠ c) (l : Lock ι) :
    (s.move c l).lock a = s.lock a :=
  Function.update_of_ne h ..

inductive Step (s : Chain ι) : Chain ι → Prop
  | request {c} (h : s.lock c = .free) :
      Step s { s.move c (.waiting s.queued) with
        queued := some c
        requests := s.requests ++ [c] }
  | grant {c previous} (h : s.lock c = .waiting previous)
      (hprevious : ∀ a ∈ previous, (s.lock a).Resolved) :
      Step s { s.move c .held with grants := s.grants ++ [c] }
  | finish {c} (h : s.lock c = .held) : Step s (s.move c .ended)
  | settle {c} (h : s.lock c = .ended) : Step s (s.move c .settled)
  | leave {c} (h : s.lock c = .settled) :
      Step s { s.move c .left with queued := if s.queued = some c then none else s.queued }

end Steps

/-- A promise stands for those that came before: it belongs to the last of
them, or there is none and all of theirs have settled. -/
def Linked (lock : ι → Lock ι) (before : List ι) : Option ι → Prop
  | none => ∀ a ∈ before, (lock a).Resolved
  | some a => ∃ front, before = front ++ [a]

structure Inv (s : Chain ι) : Prop where
  nodup : s.requests.Nodup
  mem : ∀ c, c ∈ s.requests ↔ s.lock c ≠ .free
  /-- Those who were let in came first, and the others wait. -/
  split : ∃ rest, s.requests = s.grants ++ rest ∧
    ∀ c ∈ rest, ∃ previous, s.lock c = .waiting previous
  granted : ∀ c ∈ s.grants, (s.lock c).Granted
  /-- Only the last one that was let in can still be inside. -/
  handed : ∀ front c, s.grants = front ++ [c] → ∀ a ∈ front, (s.lock a).Resolved
  slot : Linked s.lock s.requests s.queued
  present : ∀ c, s.queued = some c → s.lock c ≠ .left
  waits : ∀ c previous, s.lock c = .waiting previous → ∀ before after,
    s.requests = before ++ c :: after → Linked s.lock before previous

/-! ## What the invariant gives -/

section Consequences

variable {s : Chain ι}

theorem Inv.mem_grants_iff (h : Inv s) (c : ι) : c ∈ s.grants ↔ (s.lock c).Granted := by
  constructor
  · exact h.granted c
  · intro hgranted
    obtain ⟨rest, hsplit, hwaiting⟩ := h.split
    have hmem : c ∈ s.requests := (h.mem c).mpr fun hfree => by
      rw [hfree] at hgranted
      exact hgranted
    rw [hsplit] at hmem
    rcases List.mem_append.mp hmem with hmem | hmem
    · exact hmem
    · obtain ⟨previous, hlock⟩ := hwaiting c hmem
      rw [hlock] at hgranted
      exact hgranted.elim

/-- Callers are let in in the order in which they came. -/
theorem Inv.grants_front (h : Inv s) : s.grants <+: s.requests := by
  obtain ⟨rest, hsplit, -⟩ := h.split
  exact ⟨rest, hsplit.symm⟩

theorem Inv.nodup_grants (h : Inv s) : s.grants.Nodup :=
  h.grants_front.sublist.nodup h.nodup

/-- Whoever is inside was let in last. -/
theorem Inv.last_of_inside (h : Inv s) {c : ι} (hc : (s.lock c).Inside) :
    ∃ front, s.grants = front ++ [c] ∧ ∀ a ∈ front, (s.lock a).Resolved := by
  have hmem := (h.mem_grants_iff c).mpr hc.granted
  obtain ⟨front, last, hgrants⟩ :=
    (List.eq_nil_or_concat s.grants).resolve_left (List.ne_nil_of_mem hmem)
  rw [List.concat_eq_append] at hgrants
  have hfront := h.handed front last hgrants
  rw [hgrants] at hmem
  rcases List.mem_append.mp hmem with hmem | hmem
  · exact absurd (hfront c hmem) hc.not_resolved
  · obtain rfl := List.mem_singleton.mp hmem
    exact ⟨front, hgrants, hfront⟩

/-- Nobody shares the lock. -/
theorem Inv.unique (h : Inv s) {c c' : ι} (hc : (s.lock c).Inside)
    (hc' : (s.lock c').Inside) : c = c' := by
  obtain ⟨front, hgrants, -⟩ := h.last_of_inside hc
  obtain ⟨front', hgrants', -⟩ := h.last_of_inside hc'
  rw [hgrants] at hgrants'
  exact (List.append_singleton_inj.mp hgrants').2

/-- When somebody waits, the head of the queue can go on or somebody is inside. -/
theorem Inv.grantable_or_inside (h : Inv s) {c : ι} {previous : Option ι}
    (hc : s.lock c = .waiting previous) :
    (∃ c previous, s.lock c = .waiting previous ∧ ∀ a ∈ previous, (s.lock a).Resolved) ∨
      ∃ c, (s.lock c).Inside := by
  obtain ⟨rest, hsplit, hwaiting⟩ := h.split
  have hmem : c ∈ s.requests := (h.mem c).mpr (by rw [hc]; nofun)
  have hnot : c ∉ s.grants := fun hgrants => by
    have := h.granted c hgrants
    rw [hc] at this
    exact this
  rw [hsplit] at hmem
  have hrest := (List.mem_append.mp hmem).resolve_left hnot
  obtain ⟨head, tail, rfl⟩ := List.exists_cons_of_ne_nil (List.ne_nil_of_mem hrest)
  obtain ⟨previous, hhead⟩ := hwaiting head List.mem_cons_self
  have hlinked := h.waits head previous hhead s.grants tail hsplit
  cases previous with
  | none => exact .inl ⟨head, none, hhead, by simp⟩
  | some a =>
      obtain ⟨front, hgrants⟩ := hlinked
      have ha : a ∈ s.grants := by simp [hgrants]
      rcases (h.granted a ha).resolved_or_inside with hresolved | hinside
      · exact .inl ⟨head, some a, hhead, by simpa using hresolved⟩
      · exact .inr ⟨a, hinside⟩

/-- Who can go on is the head of the queue, and all before have settled. -/
theorem Inv.head_of_grantable (h : Inv s) {c : ι} {previous : Option ι}
    (hlock : s.lock c = .waiting previous) (hprevious : ∀ a ∈ previous, (s.lock a).Resolved) :
    (∀ a ∈ s.grants, (s.lock a).Resolved) ∧ ∃ rest, s.requests = s.grants ++ c :: rest ∧
      ∀ a ∈ rest, ∃ previous, s.lock a = .waiting previous := by
  obtain ⟨rest, hsplit, hwaiting⟩ := h.split
  have hmem : c ∈ s.requests := (h.mem c).mpr (by rw [hlock]; nofun)
  have hnot : c ∉ s.grants := fun hgrants => by
    have := h.granted c hgrants
    rw [hlock] at this
    exact this
  rw [hsplit] at hmem
  obtain ⟨skipped, after, rfl⟩ :=
    List.append_of_mem ((List.mem_append.mp hmem).resolve_left hnot)
  have hunresolved : ∀ a ∈ skipped, ¬ (s.lock a).Resolved := by
    intro a ha hresolved
    obtain ⟨previous, hwait⟩ := hwaiting a (List.mem_append_left _ ha)
    rw [hwait] at hresolved
    exact hresolved
  rw [← List.append_assoc] at hsplit
  have hlinked := h.waits c previous hlock (s.grants ++ skipped) after hsplit
  have hnone : skipped = [] := by
    cases previous with
    | none =>
        refine List.eq_nil_iff_forall_not_mem.mpr fun a ha => hunresolved a ha ?_
        exact hlinked a (List.mem_append_right _ ha)
    | some a =>
        obtain ⟨front, hfront⟩ := hlinked
        rcases List.eq_nil_or_concat skipped with hnil | ⟨init, last, hconcat⟩
        · exact hnil
        · rw [List.concat_eq_append] at hconcat
          rw [hconcat, ← List.append_assoc] at hfront
          obtain ⟨-, rfl⟩ := List.append_singleton_inj.mp hfront
          exact absurd (hprevious last rfl) (hunresolved last (by simp [hconcat]))
  subst hnone
  rw [List.append_nil] at hlinked hsplit
  refine ⟨fun a ha => ?_, after, hsplit, fun a ha => ?_⟩
  · cases previous with
    | none => exact hlinked a ha
    | some b =>
        obtain ⟨front, hfront⟩ := hlinked
        rw [hfront] at ha
        rcases List.mem_append.mp ha with ha | ha
        · exact h.handed front b hfront a ha
        · obtain rfl := List.mem_singleton.mp ha
          exact hprevious a rfl
  · exact hwaiting a (by simp [ha])

/-- Nothing is left in the slot when everybody has left. -/
theorem Inv.empty (h : Inv s) (hall : ∀ c, s.lock c = .free ∨ s.lock c = .left) :
    s.queued = none := by
  cases hqueued : s.queued with
  | none => rfl
  | some c =>
      have hslot := h.slot
      rw [hqueued] at hslot
      obtain ⟨front, hrequests⟩ := hslot
      rcases hall c with hfree | hleft
      · exact absurd hfree ((h.mem c).mp (by simp [hrequests]))
      · exact absurd hleft (h.present c hqueued)

end Consequences

/-! ## Every step keeps it -/

section Preservation

variable {s s' : Chain ι}

/-- What is linked stays linked while promises stay settled. -/
theorem Linked.mono {lock lock' : ι → Lock ι} {before : List ι} {previous : Option ι}
    (hlock : ∀ a, (lock a).Resolved → (lock' a).Resolved)
    (h : Linked lock before previous) : Linked lock' before previous := by
  cases previous with
  | none => exact fun a ha => hlock a (h a ha)
  | some a => exact h

theorem split_of_append_singleton {l before after : List ι} {a c : ι}
    (h : l ++ [c] = before ++ a :: after) :
    (a = c ∧ before = l ∧ after = []) ∨
      ∃ after', l = before ++ a :: after' ∧ after = after' ++ [c] := by
  rcases List.eq_nil_or_concat after with rfl | ⟨init, last, rfl⟩
  · obtain ⟨rfl, rfl⟩ := List.append_singleton_inj.mp h
    exact .inl ⟨rfl, rfl, rfl⟩
  · rw [List.concat_eq_append, ← List.cons_append, ← List.append_assoc] at h
    obtain ⟨rfl, rfl⟩ := List.append_singleton_inj.mp h
    exact .inr ⟨init, rfl, List.concat_eq_append⟩

/-- The slot can be emptied when all promises have settled. -/
theorem Inv.clear (h : Inv s) (hall : ∀ a ∈ s.requests, (s.lock a).Resolved) :
    Inv { s with queued := none } where
  nodup := h.nodup
  mem := h.mem
  split := h.split
  granted := h.granted
  handed := h.handed
  slot := hall
  present := nofun
  waits := h.waits

/-- When the promise in the slot has settled, all have. -/
theorem Inv.resolved_of_slot (h : Inv s) {c : ι} (hqueued : s.queued = some c)
    (hresolved : (s.lock c).Resolved) : ∀ a ∈ s.requests, (s.lock a).Resolved := by
  have hslot := h.slot
  rw [hqueued] at hslot
  obtain ⟨front, hrequests⟩ := hslot
  obtain ⟨rest, hsplit, hwaiting⟩ := h.split
  rcases List.eq_nil_or_concat rest with rfl | ⟨init, last, hconcat⟩
  · rw [List.append_nil, hrequests] at hsplit
    intro a ha
    rw [hrequests] at ha
    rcases List.mem_append.mp ha with ha | ha
    · exact h.handed front c hsplit.symm a ha
    · obtain rfl := List.mem_singleton.mp ha
      exact hresolved
  · rw [List.concat_eq_append] at hconcat
    rw [hconcat, hrequests, ← List.append_assoc] at hsplit
    obtain ⟨-, rfl⟩ := List.append_singleton_inj.mp hsplit
    obtain ⟨previous, hwait⟩ := hwaiting c (by simp [hconcat])
    rw [hwait] at hresolved
    exact hresolved.elim

theorem Inv.init : Inv (Chain.init : Chain ι) where
  nodup := List.nodup_nil
  mem := by simp [Chain.init]
  split := ⟨[], rfl, by simp⟩
  granted := by simp [Chain.init]
  handed := by simp [Chain.init]
  slot := by simp [Chain.init, Linked]
  present := by simp [Chain.init]
  waits := by simp [Chain.init]

variable [DecidableEq ι]

/-- A caller that moves on keeps what its promise and those of the others say. -/
theorem resolved_move {c : ι} {l : Lock ι} (h : (s.lock c).Resolved → l.Resolved) (a : ι) :
    (s.lock a).Resolved → ((s.move c l).lock a).Resolved := by
  by_cases hac : a = c
  · subst hac
    rw [Chain.lock_move_self]
    exact h
  · rw [Chain.lock_move_of_ne hac]
    exact id

/-- A caller that was let in moves on: neither the queue nor the slot changes. -/
theorem Inv.move (h : Inv s) {c : ι} {l : Lock ι} (hold : (s.lock c).Granted)
    (hnew : l.Granted) (hresolved : (s.lock c).Resolved → l.Resolved)
    (hleft : l = .left → s.queued ≠ some c) : Inv (s.move c l) where
  nodup := h.nodup
  mem := by
    intro a
    refine (h.mem a).trans ?_
    by_cases hac : a = c
    · subst hac
      rw [Chain.lock_move_self]
      refine ⟨fun _ hfree => ?_, fun _ hfree => ?_⟩
      · rw [hfree] at hnew
        exact hnew
      · rw [hfree] at hold
        exact hold
    · rw [Chain.lock_move_of_ne hac]
  split := by
    obtain ⟨rest, hsplit, hwaiting⟩ := h.split
    refine ⟨rest, hsplit, fun a ha => ?_⟩
    obtain ⟨previous, hlock⟩ := hwaiting a ha
    have hac : a ≠ c := fun heq => by
      rw [← heq, hlock] at hold
      exact hold
    exact ⟨previous, (Chain.lock_move_of_ne hac l).trans hlock⟩
  granted := by
    intro a ha
    by_cases hac : a = c
    · subst hac
      rwa [Chain.lock_move_self]
    · rw [Chain.lock_move_of_ne hac]
      exact h.granted a ha
  handed := fun front last hgrants a ha =>
    resolved_move hresolved a (h.handed front last hgrants a ha)
  slot := h.slot.mono (resolved_move hresolved)
  present := by
    intro a ha
    by_cases hac : a = c
    · subst hac
      rw [Chain.lock_move_self]
      exact fun heq => hleft heq ha
    · rw [Chain.lock_move_of_ne hac]
      exact h.present a ha
  waits := by
    intro a previous hlock before after hrequests
    have hac : a ≠ c := by
      rintro rfl
      rw [Chain.lock_move_self] at hlock
      rw [hlock] at hnew
      exact hnew
    rw [Chain.lock_move_of_ne hac] at hlock
    exact (h.waits a previous hlock before after hrequests).mono (resolved_move hresolved)

/-- A new caller goes to the end of the queue, behind the promise in the slot. -/
theorem Inv.request (h : Inv s) {c : ι} (hfree : s.lock c = .free) :
    Inv { s.move c (.waiting s.queued) with
      queued := some c
      requests := s.requests ++ [c] } := by
  have hnew : c ∉ s.requests := fun hmem => (h.mem c).mp hmem hfree
  have hne : ∀ a ∈ s.requests, a ≠ c := fun a ha heq => hnew (heq ▸ ha)
  have hkeep : ∀ a, (s.lock a).Resolved →
      ((s.move c (.waiting s.queued)).lock a).Resolved :=
    resolved_move fun hresolved => by
      rw [hfree] at hresolved
      exact hresolved.elim
  obtain ⟨rest, hsplit, hwaiting⟩ := h.split
  have hgrants : ∀ a ∈ s.grants, a ≠ c := fun a ha =>
    hne a (h.grants_front.subset ha)
  exact {
    nodup := by
      rw [List.nodup_append]
      refine ⟨h.nodup, List.nodup_singleton c, ?_⟩
      rintro a ha b hb rfl
      exact hne a ha (List.mem_singleton.mp hb)
    mem := by
      intro a
      show a ∈ s.requests ++ [c] ↔ (s.move c (.waiting s.queued)).lock a ≠ .free
      rw [List.mem_append, List.mem_singleton]
      by_cases hac : a = c
      · subst hac
        simp
      · rw [Chain.lock_move_of_ne hac, ← h.mem a]
        simp [hac]
    split := by
      refine ⟨rest ++ [c], ?_, fun a ha => ?_⟩
      · show s.requests ++ [c] = s.grants ++ (rest ++ [c])
        rw [hsplit, List.append_assoc]
      · rcases List.mem_append.mp ha with ha | ha
        · obtain ⟨previous, hlock⟩ := hwaiting a ha
          have hac := hne a (hsplit ▸ List.mem_append_right _ ha)
          exact ⟨previous, (Chain.lock_move_of_ne hac _).trans hlock⟩
        · obtain rfl := List.mem_singleton.mp ha
          exact ⟨s.queued, Chain.lock_move_self ..⟩
    granted := by
      intro a ha
      show ((s.move c (.waiting s.queued)).lock a).Granted
      rw [Chain.lock_move_of_ne (hgrants a ha)]
      exact h.granted a ha
    handed := fun front last hlast a ha => hkeep a (h.handed front last hlast a ha)
    slot := ⟨s.requests, rfl⟩
    present := by
      intro a ha
      obtain rfl : c = a := Option.some.inj ha
      show (s.move c (.waiting s.queued)).lock c ≠ .left
      rw [Chain.lock_move_self]
      nofun
    waits := by
      intro a previous hlock before after hrequests
      change (s.move c (.waiting s.queued)).lock a = .waiting previous at hlock
      change s.requests ++ [c] = before ++ a :: after at hrequests
      show Linked (s.move c (.waiting s.queued)).lock before previous
      rcases split_of_append_singleton hrequests with ⟨rfl, rfl, -⟩ | ⟨after', hrequests, -⟩
      · rw [Chain.lock_move_self] at hlock
        cases hlock
        exact h.slot.mono hkeep
      · have hac : a ≠ c := hne a (by simp [hrequests])
        rw [Chain.lock_move_of_ne hac] at hlock
        exact (h.waits a previous hlock before after' hrequests).mono hkeep }

/-- The head of the queue is let in when the one before it has settled. -/
theorem Inv.grant (h : Inv s) {c : ι} {previous : Option ι}
    (hlock : s.lock c = .waiting previous) (hprevious : ∀ a ∈ previous, (s.lock a).Resolved) :
    Inv { s.move c .held with grants := s.grants ++ [c] } := by
  obtain ⟨hsettled, rest, hsplit, hwaiting⟩ := h.head_of_grantable hlock hprevious
  have hkeep : ∀ a, (s.lock a).Resolved → ((s.move c .held).lock a).Resolved :=
    resolved_move fun hresolved => by
      rw [hlock] at hresolved
      exact hresolved.elim
  have hgrants : ∀ a ∈ s.grants, a ≠ c := fun a ha heq => by
    have := h.granted a ha
    rw [heq, hlock] at this
    exact this
  have hrest : ∀ a ∈ rest, a ≠ c := by
    have hnodup := h.nodup
    rw [hsplit, List.nodup_middle, List.nodup_cons] at hnodup
    rintro a ha rfl
    exact hnodup.1 (List.mem_append_right _ ha)
  exact {
    nodup := h.nodup
    mem := by
      intro a
      refine (h.mem a).trans ?_
      by_cases hac : a = c
      · subst hac
        rw [hlock]
        simp
      · exact (congrArg (· ≠ Lock.free) (Chain.lock_move_of_ne hac .held)).symm.to_iff
    split := by
      refine ⟨rest, ?_, fun a ha => ?_⟩
      · show s.requests = s.grants ++ [c] ++ rest
        rw [hsplit, List.append_assoc]
        rfl
      · obtain ⟨previous, hwait⟩ := hwaiting a ha
        exact ⟨previous, (Chain.lock_move_of_ne (hrest a ha) _).trans hwait⟩
    granted := by
      intro a ha
      show ((s.move c .held).lock a).Granted
      rcases List.mem_append.mp ha with ha | ha
      · rw [Chain.lock_move_of_ne (hgrants a ha)]
        exact h.granted a ha
      · obtain rfl := List.mem_singleton.mp ha
        rw [Chain.lock_move_self]
        trivial
    handed := by
      intro front last hlast a ha
      obtain ⟨rfl, -⟩ := List.append_singleton_inj.mp hlast
      exact hkeep a (hsettled a ha)
    slot := h.slot.mono hkeep
    present := by
      intro a ha
      show (s.move c .held).lock a ≠ .left
      by_cases hac : a = c
      · subst hac
        rw [Chain.lock_move_self]
        nofun
      · rw [Chain.lock_move_of_ne hac]
        exact h.present a ha
    waits := by
      intro a previous hwait before after hrequests
      have hac : a ≠ c := by
        rintro rfl
        change (s.move a .held).lock a = .waiting previous at hwait
        rw [Chain.lock_move_self] at hwait
        cases hwait
      change (s.move c .held).lock a = .waiting previous at hwait
      rw [Chain.lock_move_of_ne hac] at hwait
      exact (h.waits a previous hwait before after hrequests).mono hkeep }

/-- A caller that leaves empties the slot when nobody came after it. -/
theorem Inv.leave (h : Inv s) {c : ι} (hlock : s.lock c = .settled) :
    Inv { s.move c .left with queued := if s.queued = some c then none else s.queued } := by
  have hresolved : (s.lock c).Resolved := by
    rw [hlock]
    trivial
  by_cases hqueued : s.queued = some c
  · rw [if_pos hqueued]
    have hclear := h.clear (h.resolved_of_slot hqueued hresolved)
    exact hclear.move hresolved.granted trivial (fun _ => trivial) nofun
  · rw [if_neg hqueued]
    exact h.move hresolved.granted trivial (fun _ => trivial) fun _ => hqueued

theorem Inv.step (h : Inv s) (hstep : Step s s') : Inv s' := by
  cases hstep with
  | request hfree => exact h.request hfree
  | grant hlock hprevious => exact h.grant hlock hprevious
  | @finish c hlock =>
      have hinside : (s.lock c).Inside := by
        rw [hlock]
        trivial
      exact h.move hinside.granted trivial (fun hresolved => absurd hresolved hinside.not_resolved)
        nofun
  | @settle c hlock =>
      have hinside : (s.lock c).Inside := by
        rw [hlock]
        trivial
      exact h.move hinside.granted trivial (fun _ => trivial) nofun
  | leave hlock => exact h.leave hlock

end Preservation

end PromiseChain
