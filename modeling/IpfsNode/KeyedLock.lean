import IpfsNode.Prog
import IpfsNode.PromiseChain
import Mathlib.Data.Fin.Basic
import Mathlib.Data.DFinsupp.WellFounded
import Mathlib.Data.Fintype.Card

/-!
# Locks by key

Calls that hold several keys while they work. Every key has a promise chain;
a call goes through its keys in one order that all calls share, requests one
when it holds those before, works when it holds all, and gives them back in
reverse.

Seen from one key, every step of the calls is a step of its chain or none
(`chain_step`), so the facts about one chain hold for each key. On top of them:

- `exists_step`: some call can go on until all are done. The calls that wait
  for the greatest key somebody waits for are not behind each other's back.
- `wellFounded_step`: nobody goes on forever.
- `serialized`: the store is what the finished calls make of it one after the
  other, in the order in which each key was handed on.
-/

namespace Prog

variable {Op : Type} {Ret : Op → Type} {E S α : Type} {sem : Sem Op Ret E S}

/-! ## Partial runs -/

/-- Part of a run: from the program `p` in the first state to what is left of it. -/
inductive Steps (sem : Sem Op Ret E S) (p : Prog Op Ret E α) (s : S) :
    Prog Op Ret E α → S → Prop
  | refl : Steps sem p s p s
  | tail {o k s₁ r s₂} (h : Steps sem p s (.act o k) s₁) (ho : sem o s₁ r s₂) :
      Steps sem p s (k r) s₂

variable {p q : Prog Op Ret E α} {s s₁ s₂ : S} {r : Except E α}

theorem Steps.runs (h : Steps sem p s q s₁) (hq : Runs sem q s₁ r s₂) : Runs sem p s r s₂ := by
  induction h with
  | refl => exact hq
  | tail _ ho ih => exact ih (.act ho hq)

theorem runs_ofExcept (r : Except E α) (s : S) : Runs sem (ofExcept r) s r s := by
  cases r with
  | ok a => exact .ret
  | error e => exact .fail

theorem Steps.requests {φ : Op → Prop} (hp : Requests φ p) (h : Steps sem p s q s₁) :
    Requests φ q := by
  induction h with
  | refl => exact hp
  | tail _ _ ih => exact ih.2 _

end Prog

namespace KeyedLock

open PromiseChain (Lock Chain)

/-! ## Calls -/

section Calls

variable {K V Op E R : Type} {Ret : Op → Type} {n : Nat}

/-- The effect reads and changes nothing but the values of the keys. -/
structure LocalTo (sem : Prog.Sem Op Ret E (K → V)) (keys : List K) (o : Op) : Prop where
  frame : ∀ σ r σ', sem o σ r σ' → ∀ k ∉ keys, σ' k = σ k
  agree : ∀ σ r σ' τ, sem o σ r σ' → (∀ k ∈ keys, τ k = σ k) →
    ∃ τ', sem o τ r τ' ∧ ∀ k ∈ keys, τ' k = σ' k

/-- Where a call is; indices count its keys. -/
inductive Phase (Op : Type) (Ret : Op → Type) (E R : Type) (n : Nat) where
  /-- Holds the keys before the index and asks for the one at it next. -/
  | acquiring (index : Nat)
  | waiting (index : Nat) (previous : Option (Fin n))
  | working (p : Prog Op Ret E R)
  /-- The work under the key before the index is over, and so are the later ones. -/
  | releasing (index : Nat) (r : Except E R)
  /-- The promise of the key at the index has settled. -/
  | cleaning (index : Nat) (r : Except E R)

/-- How far the call is with the key at an index. -/
def Phase.lock : Phase Op Ret E R n → Nat → Lock (Fin n)
  | .acquiring i, j => if j < i then .held else .free
  | .waiting i previous, j =>
      if j < i then .held else if j = i then .waiting previous else .free
  | .working _, _ => .held
  | .releasing i _, j => if j + 1 < i then .held else if j + 1 = i then .ended else .left
  | .cleaning i _, j => if j < i then .held else if j = i then .settled else .left

/-- What the log keeps. -/
inductive Event (K E R : Type) (n : Nat) where
  | requested (c : Fin n) (k : K)
  | granted (c : Fin n) (k : K)
  | finished (c : Fin n) (r : Except E R)

structure State (K V Op : Type) (Ret : Op → Type) (E R : Type) (n : Nat) where
  /-- Whose promise the map keeps for a key. -/
  queued : K → Option (Fin n)
  phase : Fin n → Phase Op Ret E R n
  store : K → V
  log : List (Event K E R n)

/-- Nobody has asked for anything. -/
def State.init (store : K → V) : State K V Op Ret E R n where
  queued := fun _ => none
  phase := fun _ => .acquiring 0
  store
  log := []

/-- The call gets to another phase. -/
def State.goto (s : State K V Op Ret E R n) (c : Fin n) (phase : Phase Op Ret E R n) :
    State K V Op Ret E R n :=
  { s with phase := Function.update s.phase c phase }

@[simp] theorem State.phase_goto_self (s : State K V Op Ret E R n) (c : Fin n)
    (phase : Phase Op Ret E R n) : (s.goto c phase).phase c = phase :=
  Function.update_self ..

theorem State.phase_goto_of_ne {s : State K V Op Ret E R n} {a c : Fin n} (h : a ≠ c)
    (phase : Phase Op Ret E R n) : (s.goto c phase).phase a = s.phase a :=
  Function.update_of_ne h ..

section Local

variable {sem : Prog.Sem Op Ret E (K → V)} {keys : List K} {p q : Prog Op Ret E R} {σ σ' τ : K → V}

/-- Part of a local run can be done from any store that agrees on its keys. -/
theorem steps_agree (hp : Prog.Requests (LocalTo sem keys) p) (h : Prog.Steps sem p σ q σ')
    (hτ : ∀ k ∈ keys, τ k = σ k) :
    ∃ τ', Prog.Steps sem p τ q τ' ∧ ∀ k ∈ keys, τ' k = σ' k := by
  induction h with
  | refl => exact ⟨τ, .refl, hτ⟩
  | @tail o k σ₁ r σ₂ hsteps ho ih =>
      obtain ⟨τ₁, hsteps', hagree⟩ := ih
      have hlocal : LocalTo sem keys o := (hsteps.requests hp).1
      obtain ⟨τ₂, ho', hagree'⟩ := hlocal.agree σ₁ r σ₂ τ₁ ho hagree
      exact ⟨τ₂, .tail hsteps' ho', hagree'⟩

theorem steps_frame (hp : Prog.Requests (LocalTo sem keys) p) (h : Prog.Steps sem p σ q σ') :
    ∀ k ∉ keys, σ' k = σ k := by
  induction h with
  | refl => exact fun _ _ => rfl
  | @tail o k σ₁ r σ₂ hsteps ho ih =>
      have hlocal : LocalTo sem keys o := (hsteps.requests hp).1
      exact fun k hk => (hlocal.frame σ₁ r σ₂ ho k hk).trans (ih k hk)

end Local

/-- The finished calls with their results, in order. -/
def finishedOf (log : List (Event K E R n)) : List (Fin n × Except E R) :=
  log.filterMap fun
    | .finished c r => some (c, r)
    | _ => none

section Finished

variable (log : List (Event K E R n)) (c : Fin n) (k : K) (r : Except E R)

@[simp] theorem finishedOf_requested :
    finishedOf (log ++ [.requested c k]) = finishedOf log := by
  simp [finishedOf]

@[simp] theorem finishedOf_granted : finishedOf (log ++ [.granted c k]) = finishedOf log := by
  simp [finishedOf]

@[simp] theorem finishedOf_finished :
    finishedOf (log ++ [.finished c r]) = finishedOf log ++ [(c, r)] := by
  simp [finishedOf]

end Finished

variable [LinearOrder K]

/-- Work under the locks of some keys, taken in order. -/
structure Call (sem : Prog.Sem Op Ret E (K → V)) (R : Type) where
  keys : List K
  ordered : keys.Pairwise (· < ·)
  body : Prog Op Ret E R
  within : Prog.Requests (LocalTo sem keys) body

variable {sem : Prog.Sem Op Ret E (K → V)} (calls : Fin n → Call sem R)

/-- How far a call is with a key. -/
def State.lock (s : State K V Op Ret E R n) (c : Fin n) (k : K) : Lock (Fin n) :=
  if k ∈ (calls c).keys then (s.phase c).lock ((calls c).keys.idxOf k) else .free

inductive Step (s : State K V Op Ret E R n) : State K V Op Ret E R n → Prop
  /-- Take the promise out of the map and put the own one there. -/
  | request {c i k} (h : s.phase c = .acquiring i) (hk : (calls c).keys[i]? = some k) :
      Step s { s.goto c (.waiting i (s.queued k)) with
        queued := Function.update s.queued k (some c)
        log := s.log ++ [.requested c k] }
  | grant {c i previous k} (h : s.phase c = .waiting i previous)
      (hk : (calls c).keys[i]? = some k)
      (hprevious : ∀ a ∈ previous, (s.lock calls a k).Resolved) :
      Step s { s.goto c (.acquiring (i + 1)) with log := s.log ++ [.granted c k] }
  | enter {c} (h : s.phase c = .acquiring (calls c).keys.length) :
      Step s (s.goto c (.working (calls c).body))
  | work {c o k r store} (h : s.phase c = .working (.act o k)) (ho : sem o s.store r store) :
      Step s { s.goto c (.working (k r)) with store }
  /-- The work came to its result, a value or an error. -/
  | finish {c r} (h : s.phase c = .working (Prog.ofExcept r)) :
      Step s { s.goto c (.releasing (calls c).keys.length r) with
        log := s.log ++ [.finished c r] }
  | settle {c i r} (h : s.phase c = .releasing (i + 1) r) :
      Step s (s.goto c (.cleaning i r))
  /-- Take the own promise out of the map when nobody replaced it. -/
  | clean {c i k r} (h : s.phase c = .cleaning i r) (hk : (calls c).keys[i]? = some k) :
      Step s { s.goto c (.releasing i r) with
        queued := if s.queued k = some c then Function.update s.queued k none else s.queued }

abbrev Reach (store : K → V) : State K V Op Ret E R n → Prop :=
  Relation.ReflTransGen (Step calls) (State.init store)

/-- The call has settled. -/
def State.Done (s : State K V Op Ret E R n) (c : Fin n) (r : Except E R) : Prop :=
  s.phase c = .releasing 0 r

/-! ## One key -/

def requestsOf (log : List (Event K E R n)) (k : K) : List (Fin n) :=
  log.filterMap fun
    | .requested c k' => if k' = k then some c else none
    | _ => none

def grantsOf (log : List (Event K E R n)) (k : K) : List (Fin n) :=
  log.filterMap fun
    | .granted c k' => if k' = k then some c else none
    | _ => none

/-- What the key sees. -/
def State.chain (s : State K V Op Ret E R n) (k : K) : Chain (Fin n) where
  queued := s.queued k
  lock := fun c => s.lock calls c k
  requests := requestsOf s.log k
  grants := grantsOf s.log k

/-! ### Every step is a step of the chains -/

section Chains

variable {calls} {s s' : State K V Op Ret E R n} {store : K → V}

theorem idxOf_of_getElem? {c : Fin n} {i : Nat} {k : K} (hk : (calls c).keys[i]? = some k) :
    k ∈ (calls c).keys ∧ (calls c).keys.idxOf k = i := by
  have hnodup : (calls c).keys.Nodup := (calls c).ordered.imp fun h => ne_of_lt h
  obtain ⟨hi, rfl⟩ := List.getElem?_eq_some_iff.mp hk
  exact ⟨List.getElem_mem hi, hnodup.idxOf_getElem i hi⟩

theorem lock_of_getElem? {c : Fin n} {i : Nat} {k : K} (hk : (calls c).keys[i]? = some k) :
    s.lock calls c k = (s.phase c).lock i := by
  obtain ⟨hmem, hidx⟩ := idxOf_of_getElem? hk
  rw [State.lock, if_pos hmem, hidx]

theorem lock_goto_of_ne {a c : Fin n} (h : a ≠ c) (phase : Phase Op Ret E R n) (k : K) :
    (s.goto c phase).lock calls a k = s.lock calls a k := by
  unfold State.lock
  rw [State.phase_goto_of_ne h]

/-- A call that gets elsewhere changes its own place in one chain at most. -/
theorem lock_goto {c : Fin n} {phase : Phase Op Ret E R n} (k : K) (l : Lock (Fin n))
    (h : (s.goto c phase).lock calls c k = l) :
    (fun a => (s.goto c phase).lock calls a k)
      = Function.update (fun a => s.lock calls a k) c l := by
  funext a
  by_cases hac : a = c
  · subst hac
    rw [Function.update_self, h]
  · rw [Function.update_of_ne hac, lock_goto_of_ne hac]

/-- A call that gets elsewhere may not change its place in the chain. -/
theorem lock_goto_same {c : Fin n} {phase : Phase Op Ret E R n} {k : K}
    (h : k ∈ (calls c).keys → phase.lock ((calls c).keys.idxOf k)
      = (s.phase c).lock ((calls c).keys.idxOf k)) :
    (fun a => (s.goto c phase).lock calls a k) = fun a => s.lock calls a k := by
  rw [lock_goto k _ rfl]
  funext a
  by_cases hac : a = c
  · subst hac
    rw [Function.update_self]
    unfold State.lock
    rw [State.phase_goto_self]
    split
    · rename_i hmem
      exact h hmem
    · rfl
  · rw [Function.update_of_ne hac]

theorem idxOf_ne {c : Fin n} {i : Nat} {k k₀ : K} (hk : (calls c).keys[i]? = some k₀)
    (hne : k ≠ k₀) (hmem : k ∈ (calls c).keys) : (calls c).keys.idxOf k ≠ i := by
  rintro rfl
  rw [List.getElem?_eq_getElem (List.idxOf_lt_length_of_mem hmem), List.getElem_idxOf] at hk
  exact hne (Option.some.inj hk)

section Log

variable (log : List (Event K E R n)) (c : Fin n) (k k' : K) (r : Except E R)

@[simp] theorem requestsOf_requested :
    requestsOf (log ++ [.requested c k']) k
      = if k' = k then requestsOf log k ++ [c] else requestsOf log k := by
  unfold requestsOf
  split <;> simp_all

@[simp] theorem requestsOf_granted :
    requestsOf (log ++ [.granted c k']) k = requestsOf log k := by
  simp [requestsOf]

@[simp] theorem requestsOf_finished :
    requestsOf (log ++ [.finished c r]) k = requestsOf log k := by
  simp [requestsOf]

@[simp] theorem grantsOf_requested :
    grantsOf (log ++ [.requested c k']) k = grantsOf log k := by
  simp [grantsOf]

@[simp] theorem grantsOf_granted :
    grantsOf (log ++ [.granted c k']) k
      = if k' = k then grantsOf log k ++ [c] else grantsOf log k := by
  unfold grantsOf
  split <;> simp_all

@[simp] theorem grantsOf_finished :
    grantsOf (log ++ [.finished c r]) k = grantsOf log k := by
  simp [grantsOf]

end Log

/-- A call is elsewhere, and no key has noticed. -/
theorem chain_goto_same {c : Fin n} {phase : Phase Op Ret E R n} {k : K}
    (h : k ∈ (calls c).keys → phase.lock ((calls c).keys.idxOf k)
      = (s.phase c).lock ((calls c).keys.idxOf k)) :
    (s.goto c phase).chain calls k = s.chain calls k := by
  unfold State.chain
  rw [lock_goto_same h]
  rfl

/-- A call is elsewhere, and the key sees it at another place in its chain. -/
theorem chain_goto {c : Fin n} {phase : Phase Op Ret E R n} {i : Nat} {k : K}
    (hk : (calls c).keys[i]? = some k) :
    (s.goto c phase).chain calls k = (s.chain calls k).move c (phase.lock i) := by
  have hlock : (s.goto c phase).lock calls c k = phase.lock i := by
    rw [lock_of_getElem? hk, State.phase_goto_self]
  unfold State.chain
  rw [lock_goto k _ hlock]
  rfl

/-- Seen from one key, a step of the calls is a step of its chain or none. -/
theorem chain_step (h : Step calls s s') (k : K) :
    s'.chain calls k = s.chain calls k ∨
      PromiseChain.Step (s.chain calls k) (s'.chain calls k) := by
  cases h with
  | @request c i k₀ hphase hk =>
      set phase : Phase Op Ret E R n := .waiting i (s.queued k₀) with hwaiting
      have hchain : ({ s.goto c phase with
            queued := Function.update s.queued k₀ (some c)
            log := s.log ++ [.requested c k₀] } : State K V Op Ret E R n).chain calls k =
          { (s.goto c phase).chain calls k with
            queued := Function.update s.queued k₀ (some c) k
            requests := requestsOf (s.log ++ [.requested c k₀]) k } := by
        simp [State.chain, State.goto, State.lock]
      rw [hchain]
      by_cases hne : k = k₀
      · subst hne
        right
        have hfree : (s.chain calls k).lock c = .free := by
          show s.lock calls c k = .free
          rw [lock_of_getElem? hk, hphase]
          simp [Phase.lock]
        have hlock : phase.lock i = .waiting (s.queued k) := by simp [hwaiting, Phase.lock]
        rw [chain_goto hk, hlock, Function.update_self, requestsOf_requested, if_pos rfl]
        exact PromiseChain.Step.request hfree
      · left
        rw [chain_goto_same fun hmem => ?_]
        · simp [hne, Ne.symm hne, State.chain]
        · rw [hphase]
          simp [Phase.lock, hwaiting, idxOf_ne hk hne hmem]
  | @grant c i previous k₀ hphase hk hprevious =>
      have hchain : ({ s.goto c (.acquiring (i + 1)) with
            log := s.log ++ [.granted c k₀] } : State K V Op Ret E R n).chain calls k =
          { (s.goto c (.acquiring (i + 1))).chain calls k with
            grants := grantsOf (s.log ++ [.granted c k₀]) k } := by
        simp [State.chain, State.goto, State.lock]
      rw [hchain]
      by_cases hne : k = k₀
      · subst hne
        right
        have hwaiting : (s.chain calls k).lock c = .waiting previous := by
          show s.lock calls c k = .waiting previous
          rw [lock_of_getElem? hk, hphase]
          simp [Phase.lock]
        have hlock : (Phase.acquiring (i + 1) : Phase Op Ret E R n).lock i = .held := by
          simp [Phase.lock]
        rw [chain_goto hk, hlock, grantsOf_granted, if_pos rfl]
        exact PromiseChain.Step.grant hwaiting hprevious
      · left
        rw [chain_goto_same fun hmem => ?_]
        · simp [Ne.symm hne, State.chain]
        · rw [hphase]
          have hidx := idxOf_ne hk hne hmem
          have hlt : (calls c).keys.idxOf k < i + 1 ↔ (calls c).keys.idxOf k < i := by omega
          simp [Phase.lock, hlt, hidx]
  | @enter c hphase =>
      left
      refine chain_goto_same fun hmem => ?_
      rw [hphase]
      simp [Phase.lock, List.idxOf_lt_length_of_mem hmem]
  | @work c o next r store hphase ho =>
      left
      have hchain : ({ s.goto c (.working (next r)) with store } :
          State K V Op Ret E R n).chain calls k
            = (s.goto c (.working (next r))).chain calls k := rfl
      rw [hchain]
      refine chain_goto_same fun _ => ?_
      rw [hphase]
      rfl
  | @finish c r hphase =>
      have hchain : ({ s.goto c (.releasing (calls c).keys.length r) with
            log := s.log ++ [.finished c r] } : State K V Op Ret E R n).chain calls k =
          (s.goto c (.releasing (calls c).keys.length r)).chain calls k := by
        simp [State.chain, State.goto, State.lock]
      rw [hchain]
      by_cases hlast : k ∈ (calls c).keys ∧ (calls c).keys.idxOf k + 1 = (calls c).keys.length
      · right
        have hk : (calls c).keys[(calls c).keys.idxOf k]? = some k := by
          rw [List.getElem?_eq_getElem (List.idxOf_lt_length_of_mem hlast.1), List.getElem_idxOf]
        have hheld : (s.chain calls k).lock c = .held := by
          show s.lock calls c k = .held
          rw [lock_of_getElem? hk, hphase]
          rfl
        rw [chain_goto hk]
        simpa [Phase.lock, hlast.2] using PromiseChain.Step.finish hheld
      · left
        refine chain_goto_same fun hmem => ?_
        have hlt := List.idxOf_lt_length_of_mem hmem
        have hne : (calls c).keys.idxOf k + 1 ≠ (calls c).keys.length :=
          fun heq => hlast ⟨hmem, heq⟩
        have hlt : (calls c).keys.idxOf k + 1 < (calls c).keys.length := by omega
        rw [hphase]
        simp [Phase.lock, hlt]
  | @settle c i r hphase =>
      by_cases hidx : k ∈ (calls c).keys ∧ (calls c).keys.idxOf k = i
      · right
        have hk : (calls c).keys[i]? = some k := by
          rw [← hidx.2, List.getElem?_eq_getElem (List.idxOf_lt_length_of_mem hidx.1),
            List.getElem_idxOf]
        have hended : (s.chain calls k).lock c = .ended := by
          show s.lock calls c k = .ended
          rw [lock_of_getElem? hk, hphase]
          simp [Phase.lock]
        rw [chain_goto hk]
        simpa [Phase.lock] using PromiseChain.Step.settle hended
      · left
        refine chain_goto_same fun hmem => ?_
        have hne : (calls c).keys.idxOf k ≠ i := fun heq => hidx ⟨hmem, heq⟩
        rw [hphase]
        simp [Phase.lock, hne]
  | @clean c i k₀ r hphase hk =>
      set queued := if s.queued k₀ = some c then Function.update s.queued k₀ none else s.queued
        with hqueued
      have hchain : ({ s.goto c (.releasing i r) with queued } : State K V Op Ret E R n).chain
          calls k = { (s.goto c (.releasing i r)).chain calls k with queued := queued k } := rfl
      rw [hchain]
      by_cases hne : k = k₀
      · subst hne
        right
        have hsettled : (s.chain calls k).lock c = .settled := by
          show s.lock calls c k = .settled
          rw [lock_of_getElem? hk, hphase]
          simp [Phase.lock]
        have hlock : (Phase.releasing i r : Phase Op Ret E R n).lock i = .left := by
          simp [Phase.lock]
        have hslot : queued k = if s.queued k = some c then none else s.queued k := by
          rw [hqueued]
          split <;> simp
        rw [chain_goto hk, hlock, hslot]
        exact PromiseChain.Step.leave hsettled
      · have hslot : queued k = s.queued k := by
          rw [hqueued]
          split
          · exact Function.update_of_ne hne ..
          · rfl
        rw [hslot]
        by_cases hlast : k ∈ (calls c).keys ∧ (calls c).keys.idxOf k + 1 = i
        · right
          have hk' : (calls c).keys[(calls c).keys.idxOf k]? = some k := by
            rw [List.getElem?_eq_getElem (List.idxOf_lt_length_of_mem hlast.1),
              List.getElem_idxOf]
          have hheld : (s.chain calls k).lock c = .held := by
            show s.lock calls c k = .held
            rw [lock_of_getElem? hk', hphase]
            simp only [Phase.lock]
            rw [if_pos (by omega)]
          have hlock : (Phase.releasing i r : Phase Op Ret E R n).lock
              ((calls c).keys.idxOf k) = .ended := by
            simp [Phase.lock, hlast.2]
          rw [chain_goto hk', hlock]
          exact PromiseChain.Step.finish hheld
        · left
          have hsame : (s.goto c (.releasing i r)).chain calls k = s.chain calls k := by
            refine chain_goto_same fun hmem => ?_
            have hidx := idxOf_ne hk hne hmem
            have hlast' : (calls c).keys.idxOf k + 1 ≠ i := fun heq => hlast ⟨hmem, heq⟩
            have hlt : (calls c).keys.idxOf k + 1 < i ↔ (calls c).keys.idxOf k < i := by omega
            rw [hphase]
            simp [Phase.lock, hlt, hidx, hlast']
          rw [hsame]
          rfl

/-- What holds of promise chains holds of the chain of every key. -/
theorem chain_inv (h : Reach calls store s) (k : K) : PromiseChain.Inv (s.chain calls k) := by
  induction h with
  | refl =>
      have hinit : (State.init store : State K V Op Ret E R n).chain calls k = Chain.init := by
        simp [State.chain, State.init, State.lock, Phase.lock, requestsOf, grantsOf, Chain.init]
      rw [hinit]
      exact .init
  | tail _ hstep ih =>
      rcases chain_step hstep k with hsame | hchain
      · rw [hsame]
        exact ih
      · exact ih.step hchain

end Chains

/-! ## Progress -/

section Progress

variable {calls} {s s' : State K V Op Ret E R n} {store : K → V}

/-- Indices stay within the keys of the call. -/
def Phase.Within (keys : List K) : Phase Op Ret E R n → Prop
  | .acquiring i | .releasing i _ => i ≤ keys.length
  | .waiting i _ | .cleaning i _ => i < keys.length
  | .working _ => True

theorem phase_within (h : Reach calls store s) (c : Fin n) :
    (s.phase c).Within (calls c).keys := by
  induction h with
  | refl => exact Nat.zero_le _
  | @tail s s' _ hstep ih =>
      have hgoto : ∀ (c' : Fin n) (phase : Phase Op Ret E R n),
          (c = c' → phase.Within (calls c).keys) →
          ((s.goto c' phase).phase c).Within (calls c).keys := by
        intro c' phase hphase
        by_cases hcc : c = c'
        · subst hcc
          rw [State.phase_goto_self]
          exact hphase rfl
        · rw [State.phase_goto_of_ne hcc]
          exact ih
      cases hstep with
      | @request c' i k hphase hk =>
          refine hgoto c' _ ?_
          rintro rfl
          exact (List.getElem?_eq_some_iff.mp hk).1
      | @grant c' i previous k hphase hk hprevious =>
          refine hgoto c' _ ?_
          rintro rfl
          exact (List.getElem?_eq_some_iff.mp hk).1
      | enter => exact hgoto _ _ fun _ => trivial
      | work => exact hgoto _ _ fun _ => trivial
      | @finish c' r hphase =>
          refine hgoto c' _ ?_
          rintro rfl
          exact le_rfl
      | @settle c' i r hphase =>
          refine hgoto c' _ ?_
          rintro rfl
          rw [hphase] at ih
          exact ih
      | @clean c' i k r hphase hk =>
          refine hgoto c' _ ?_
          rintro rfl
          rw [hphase] at ih
          exact le_of_lt ih

/-- The key a call waits for. -/
def State.awaited (s : State K V Op Ret E R n) (calls : Fin n → Call sem R) (c : Fin n) :
    WithBot K :=
  match s.phase c with
  | .waiting i _ => (calls c).keys[i]?
  | _ => none

/-- A call that waits in the chain of a key is at this key. -/
theorem waiting_of_lock {c : Fin n} {k : K} {previous : Option (Fin n)}
    (h : s.lock calls c k = .waiting previous) :
    ∃ i, s.phase c = .waiting i previous ∧ (calls c).keys[i]? = some k := by
  unfold State.lock at h
  split at h
  · rename_i hmem
    have hlt := List.idxOf_lt_length_of_mem hmem
    have hk : (calls c).keys[(calls c).keys.idxOf k]? = some k := by
      rw [List.getElem?_eq_getElem hlt, List.getElem_idxOf]
    cases hphase : s.phase c with
    | waiting i previous' =>
        rw [hphase] at h
        simp only [Phase.lock] at h
        split at h
        · cases h
        · split at h
          · rename_i heq
            cases h
            exact ⟨i, rfl, heq ▸ hk⟩
          · cases h
    | acquiring i | working p | releasing i r | cleaning i r =>
        rw [hphase] at h
        simp only [Phase.lock] at h
        repeat' split at h
        all_goals cases h
  · cases h

/-- While some call has not settled, some call can go on. -/
theorem exists_step (htotal : ∀ o σ, ∃ r σ', sem o σ r σ') (h : Reach calls store s)
    {c : Fin n} (hc : ∀ r, ¬ s.Done c r) : ∃ s', Step calls s s' := by
  by_cases hready : ∃ c, (∀ r, ¬ s.Done c r) ∧ ∀ i previous, s.phase c ≠ .waiting i previous
  · obtain ⟨c, hdone, hnot⟩ := hready
    have hwithin := phase_within h c
    cases hphase : s.phase c with
    | waiting i previous => exact absurd hphase (hnot i previous)
    | acquiring i =>
        rw [hphase] at hwithin
        rcases Nat.lt_or_eq_of_le hwithin with hlt | rfl
        · exact ⟨_, .request hphase (List.getElem?_eq_getElem hlt)⟩
        · exact ⟨_, .enter hphase⟩
    | working p =>
        cases p with
        | ret a => exact ⟨_, .finish (r := .ok a) hphase⟩
        | fail e => exact ⟨_, .finish (r := .error e) hphase⟩
        | act o k =>
            obtain ⟨r, σ, ho⟩ := htotal o s.store
            exact ⟨_, .work hphase ho⟩
    | releasing i r =>
        cases i with
        | zero => exact absurd hphase (hdone r)
        | succ i => exact ⟨_, .settle hphase⟩
    | cleaning i r =>
        rw [hphase] at hwithin
        exact ⟨_, .clean hphase (List.getElem?_eq_getElem hwithin)⟩
  -- everybody waits or has settled: look at the greatest key somebody waits for
  · push Not at hready
    have hawaited : ∀ c i previous, s.phase c = .waiting i previous →
        ∃ k : K, (calls c).keys[i]? = some k ∧ s.awaited calls c = (k : WithBot K) := by
      intro c i previous hphase
      have hlt : i < (calls c).keys.length := by
        have hwithin := phase_within h c
        rwa [hphase] at hwithin
      refine ⟨_, List.getElem?_eq_getElem hlt, ?_⟩
      unfold State.awaited
      rw [hphase]
      exact List.getElem?_eq_getElem hlt
    obtain ⟨i, previous, hphase⟩ := hready c hc
    obtain ⟨k, -, hk⟩ := hawaited c i previous hphase
    obtain ⟨m, -, hmax⟩ :=
      Finset.exists_max_image Finset.univ (s.awaited calls) ⟨c, Finset.mem_univ c⟩
    have hm : ∀ r, ¬ s.Done m r := by
      intro r hdone
      have hnone : s.awaited calls m = ⊥ := by
        unfold State.awaited
        rw [hdone]
        rfl
      have hle := hmax c (Finset.mem_univ c)
      rw [hk, hnone] at hle
      exact absurd hle (WithBot.not_coe_le_bot k)
    obtain ⟨i, previous, hphase⟩ := hready m hm
    obtain ⟨k, hk, hkm⟩ := hawaited m i previous hphase
    have hlock : (s.chain calls k).lock m = .waiting previous := by
      show s.lock calls m k = _
      rw [lock_of_getElem? hk, hphase]
      simp [Phase.lock]
    rcases (chain_inv h k).grantable_or_inside hlock with
      ⟨a, previous', hwaiting, hprevious⟩ | ⟨a, hinside⟩
    · obtain ⟨j, hphase', hk'⟩ := waiting_of_lock hwaiting
      exact ⟨_, .grant hphase' hk' hprevious⟩
    · exfalso
      have hnot : ∀ r, ¬ s.Done a r := by
        intro r hdone
        change (s.lock calls a k).Inside at hinside
        unfold State.lock at hinside
        rw [hdone] at hinside
        split at hinside
        · simp only [Phase.lock, Nat.not_lt_zero, if_false, Nat.succ_ne_zero] at hinside
          exact hinside
        · exact hinside
      obtain ⟨j, previous', hphase'⟩ := hready a hnot
      obtain ⟨k', hk', hka⟩ := hawaited a j previous' hphase'
      -- the call inside has the key and waits for a greater one
      have hlt : k < k' := by
        change (s.lock calls a k).Inside at hinside
        unfold State.lock at hinside
        rw [hphase'] at hinside
        split at hinside
        · rename_i hmem
          simp only [Phase.lock] at hinside
          split at hinside
          · rename_i hidx
            obtain ⟨hj, hkj⟩ := List.getElem?_eq_some_iff.mp hk'
            have hlen := List.idxOf_lt_length_of_mem hmem
            have := List.pairwise_iff_getElem.mp (calls a).ordered _ _ hlen hj hidx
            rwa [List.getElem_idxOf, hkj] at this
          · split at hinside <;> exact hinside.elim
        · exact hinside.elim
      have hle := hmax a (Finset.mem_univ a)
      rw [hkm, hka] at hle
      exact absurd (WithBot.coe_le_coe.mp hle) (not_le_of_gt hlt)

/-! ### Nobody goes on forever -/

/-- How much a call has still to do besides its work. -/
def Phase.stage (length : Nat) : Phase Op Ret E R n → Nat
  | .acquiring i => 2 * (length - i) + 1 + (2 * length + 2)
  | .waiting i _ => 2 * (length - i) + (2 * length + 2)
  | .working _ => 2 * length + 1
  | .cleaning i _ => 2 * i + 1
  | .releasing i _ => 2 * i

/-- A call gets on: to a later stage, or in its work. -/
inductive Phase.Next (length : Nat) : Phase Op Ret E R n → Phase Op Ret E R n → Prop
  | stage {phase phase'} (h : Phase.stage length phase' < Phase.stage length phase) :
      Next length phase' phase
  | work {o k r} : Next length (.working (k r)) (.working (.act o k))

theorem wellFounded_next (length : Nat) :
    WellFounded (Phase.Next length : Phase Op Ret E R n → Phase Op Ret E R n → Prop) := by
  suffices H : ∀ m (phase : Phase Op Ret E R n), phase.stage length = m →
      Acc (Phase.Next length) phase from ⟨fun phase => H _ phase rfl⟩
  intro m
  induction m using Nat.strong_induction_on with
  | _ m ih =>
      have hlater : ∀ phase phase' : Phase Op Ret E R n, phase.stage length = m →
          phase'.stage length < phase.stage length → Acc (Phase.Next length) phase' := by
        rintro phase phase' rfl hlt
        exact ih _ hlt phase' rfl
      have hwork : ∀ p : Prog Op Ret E R, (Phase.working p : Phase Op Ret E R n).stage length = m →
          Acc (Phase.Next length) (Phase.working p : Phase Op Ret E R n) := by
        intro p hp
        induction p with
        | ret a =>
            refine Acc.intro _ fun phase' hnext => ?_
            cases hnext with
            | stage hlt => exact hlater _ _ hp hlt
        | fail e =>
            refine Acc.intro _ fun phase' hnext => ?_
            cases hnext with
            | stage hlt => exact hlater _ _ hp hlt
        | act o k ihp =>
            refine Acc.intro _ fun phase' hnext => ?_
            cases hnext with
            | stage hlt => exact hlater _ _ hp hlt
            | work => exact ihp _ hp
      intro phase hphase
      cases phase with
      | working p => exact hwork p hphase
      | acquiring i | waiting i previous | releasing i r | cleaning i r =>
          refine Acc.intro _ fun phase' hnext => ?_
          cases hnext with
          | stage hlt => exact hlater _ _ hphase hlt

/-- A step takes one call further and leaves the others where they are. -/
theorem next_of_step (h : Step calls s s') : ∃ c, (∀ a, a ≠ c → s'.phase a = s.phase a) ∧
    Phase.Next (calls c).keys.length (s'.phase c) (s.phase c) := by
  have hgoto : ∀ (c : Fin n) (phase : Phase Op Ret E R n),
      Phase.Next (calls c).keys.length phase (s.phase c) →
      ∃ c', (∀ a, a ≠ c' → (s.goto c phase).phase a = s.phase a) ∧
        Phase.Next (calls c').keys.length ((s.goto c phase).phase c') (s.phase c') := by
    intro c phase hnext
    refine ⟨c, fun a hac => State.phase_goto_of_ne hac phase, ?_⟩
    rwa [State.phase_goto_self]
  cases h with
  | @request c i k hphase hk =>
      refine hgoto c _ (.stage ?_)
      rw [hphase]
      simp only [Phase.stage]
      omega
  | @grant c i previous k hphase hk hprevious =>
      refine hgoto c _ (.stage ?_)
      have hlt := (List.getElem?_eq_some_iff.mp hk).1
      rw [hphase]
      simp only [Phase.stage]
      omega
  | @enter c hphase =>
      refine hgoto c _ (.stage ?_)
      rw [hphase]
      simp only [Phase.stage]
      omega
  | @work c o k r store hphase ho =>
      refine hgoto c _ ?_
      rw [hphase]
      exact .work
  | @finish c r hphase =>
      refine hgoto c _ (.stage ?_)
      rw [hphase]
      simp only [Phase.stage]
      omega
  | @settle c i r hphase =>
      refine hgoto c _ (.stage ?_)
      rw [hphase]
      simp only [Phase.stage]
      omega
  | @clean c i k r hphase hk =>
      refine hgoto c _ (.stage ?_)
      rw [hphase]
      simp only [Phase.stage]
      omega

/-- No run goes on forever. -/
theorem wellFounded_step :
    WellFounded fun s' s : State K V Op Ret E R n => Step calls s s' := by
  have hnext : ∀ c, WellFounded (Phase.Next (calls c).keys.length :
      Phase Op Ret E R n → Phase Op Ret E R n → Prop) := fun c => wellFounded_next _
  have hlex := Pi.Lex.wellFounded (· < · : Fin n → Fin n → Prop) hnext
  refine Subrelation.wf (fun {s' s} hstep => ?_) (InvImage.wf State.phase hlex)
  obtain ⟨c, hothers, hnext⟩ := next_of_step hstep
  exact ⟨c, fun a ha => hothers a (ne_of_lt ha), hnext⟩

end Progress

/-! ## One call after the other -/

/-- Whole calls one after the other, with what each came to. -/
inductive Serial (calls : Fin n → Call sem R) (store : K → V) :
    List (Fin n × Except E R) → (K → V) → Prop
  | nil : Serial calls store [] store
  | snoc {done σ c r σ'} (h : Serial calls store done σ)
      (hrun : Prog.Runs sem (calls c).body σ r σ') :
      Serial calls store (done ++ [(c, r)]) σ'

section Serializing

variable {calls} {s s' : State K V Op Ret E R n} {store : K → V}

/-- What a call came to, once it is through with its work. -/
def Phase.result : Phase Op Ret E R n → Option (Except E R)
  | .releasing _ r | .cleaning _ r => some r
  | _ => none

/-- The calls that came to a result are the finished ones. -/
theorem mem_finishedOf (h : Reach calls store s) :
    (∀ c r, (c, r) ∈ finishedOf s.log ↔ (s.phase c).result = some r) ∧
      ((finishedOf s.log).map Prod.fst).Nodup := by
  induction h with
  | refl => simp [State.init, finishedOf, Phase.result]
  | @tail s s' _ hstep ih =>
      obtain ⟨hmem, hnodup⟩ := ih
      have hgoto : ∀ (c : Fin n) (phase : Phase Op Ret E R n),
          phase.result = (s.phase c).result → ∀ a r,
          (a, r) ∈ finishedOf s.log ↔ ((s.goto c phase).phase a).result = some r := by
        intro c phase hsame a r
        rw [hmem a r]
        by_cases hac : a = c
        · subst hac
          rw [State.phase_goto_self, hsame]
        · rw [State.phase_goto_of_ne hac]
      cases hstep with
      | @request c i k hphase hk =>
          refine ⟨fun a r => ?_, ?_⟩
          · rw [finishedOf_requested]
            exact hgoto c _ (by rw [hphase]; rfl) a r
          · rw [finishedOf_requested]
            exact hnodup
      | @grant c i previous k hphase hk hprevious =>
          refine ⟨fun a r => ?_, ?_⟩
          · rw [finishedOf_granted]
            exact hgoto c _ (by rw [hphase]; rfl) a r
          · rw [finishedOf_granted]
            exact hnodup
      | @enter c hphase => exact ⟨hgoto c _ (by rw [hphase]; rfl), hnodup⟩
      | @work c o k r σ hphase ho => exact ⟨hgoto c _ (by rw [hphase]; rfl), hnodup⟩
      | @settle c i r hphase => exact ⟨hgoto c _ (by rw [hphase]; rfl), hnodup⟩
      | @clean c i k r hphase hk => exact ⟨hgoto c _ (by rw [hphase]; rfl), hnodup⟩
      | @finish c r hphase =>
          have hnew : ∀ r', (c, r') ∉ finishedOf s.log := by
            intro r' hin
            have := (hmem c r').mp hin
            rw [hphase] at this
            cases this
          refine ⟨fun a r' => ?_, ?_⟩
          · rw [finishedOf_finished, List.mem_append, List.mem_singleton]
            show _ ↔ ((s.goto c _).phase a).result = some r'
            by_cases hac : a = c
            · subst hac
              rw [State.phase_goto_self]
              constructor
              · rintro (hin | heq)
                · exact absurd hin (hnew r')
                · cases heq
                  rfl
              · intro heq
                cases heq
                exact .inr rfl
            · rw [State.phase_goto_of_ne hac, ← hmem a r']
              refine ⟨fun hin => hin.resolve_right fun heq => ?_, .inl⟩
              exact hac (congrArg Prod.fst heq)
          · rw [finishedOf_finished, List.map_append, List.nodup_append]
            refine ⟨hnodup, List.nodup_singleton c, ?_⟩
            rintro a ha b hb rfl
            obtain rfl := List.mem_singleton.mp hb
            obtain ⟨⟨_, r'⟩, hin, rfl⟩ := List.mem_map.mp ha
            exact hnew r' hin

/-- A call whose promise has settled came to a result. -/
theorem result_of_resolved {c : Fin n} {k : K} (h : (s.lock calls c k).Resolved) :
    k ∈ (calls c).keys ∧ ∃ r, (s.phase c).result = some r := by
  unfold State.lock at h
  split at h
  · rename_i hmem
    refine ⟨hmem, ?_⟩
    cases hphase : s.phase c with
    | releasing i r => exact ⟨r, rfl⟩
    | cleaning i r => exact ⟨r, rfl⟩
    | working p =>
        rw [hphase] at h
        exact h.elim
    | acquiring i =>
        rw [hphase] at h
        simp only [Phase.lock] at h
        split at h <;> exact h.elim
    | waiting i previous =>
        rw [hphase] at h
        simp only [Phase.lock] at h
        split at h
        · exact h.elim
        · split at h <;> exact h.elim
  · exact h.elim

/-- A call at work holds all its keys. -/
theorem inside_of_working {c : Fin n} {p : Prog Op Ret E R} {k : K}
    (hphase : s.phase c = .working p) (hk : k ∈ (calls c).keys) :
    (s.lock calls c k).Inside := by
  unfold State.lock
  rw [if_pos hk, hphase]
  trivial

/-- Calls at work have no key in common. -/
theorem eq_of_working (h : Reach calls store s) {c c' : Fin n} {p p' : Prog Op Ret E R} {k : K}
    (hc : s.phase c = .working p) (hc' : s.phase c' = .working p') (hk : k ∈ (calls c).keys)
    (hk' : k ∈ (calls c').keys) : c = c' :=
  (chain_inv h k).unique (inside_of_working hc hk) (inside_of_working hc' hk')

/-- The store is what the finished calls made of it one after the other, and
each call at work has done part of its work from there. -/
def Serialized (calls : Fin n → Call sem R) (store : K → V) (s : State K V Op Ret E R n) : Prop :=
  ∃ σ, Serial calls store (finishedOf s.log) σ ∧
    (∀ c p, s.phase c = .working p →
      ∃ τ, Prog.Steps sem (calls c).body σ p τ ∧ ∀ k ∈ (calls c).keys, s.store k = τ k) ∧
    ∀ k, (∀ c p, s.phase c = .working p → k ∉ (calls c).keys) → s.store k = σ k

/-- A step of a call that is not at work leaves everything as it is. -/
theorem Serialized.goto (h : Serialized calls store s) (c : Fin n) (phase : Phase Op Ret E R n)
    (hc : ∀ p, s.phase c ≠ .working p) (hphase : ∀ p, phase ≠ .working p) :
    Serialized calls store (s.goto c phase) := by
  obtain ⟨σ, hserial, hworking, hidle⟩ := h
  have hsame : ∀ a p, (s.goto c phase).phase a = .working p ↔ s.phase a = .working p := by
    intro a p
    by_cases hac : a = c
    · subst hac
      rw [State.phase_goto_self]
      exact ⟨fun heq => absurd heq (hphase p), fun heq => absurd heq (hc p)⟩
    · rw [State.phase_goto_of_ne hac]
  refine ⟨σ, hserial, fun a p hp => hworking a p ((hsame a p).mp hp), fun k hk => ?_⟩
  exact hidle k fun a p hp => hk a p ((hsame a p).mpr hp)

theorem serialized_enter (hreach : Reach calls store s) (h : Serialized calls store s)
    {c : Fin n} (hphase : s.phase c = .acquiring (calls c).keys.length) :
    Serialized calls store (s.goto c (.working (calls c).body)) := by
  obtain ⟨σ, hserial, hworking, hidle⟩ := h
  have hothers : ∀ a p, a ≠ c → ((s.goto c (.working (calls c).body)).phase a = .working p ↔
      s.phase a = .working p) := fun a p hac => by rw [State.phase_goto_of_ne hac]
  refine ⟨σ, hserial, fun a p hp => ?_, fun k hk => hidle k fun a p hp => ?_⟩
  · by_cases hac : a = c
    · subst hac
      rw [State.phase_goto_self] at hp
      cases hp
      refine ⟨σ, .refl, fun k hk => hidle k fun a' p' hp' hk' => ?_⟩
      have hinside : (s.lock calls a k).Inside := by
        unfold State.lock
        rw [if_pos hk, hphase]
        simp [Phase.lock, List.idxOf_lt_length_of_mem hk, Lock.Inside]
      obtain rfl := (chain_inv hreach k).unique hinside (inside_of_working hp' hk')
      rw [hphase] at hp'
      cases hp'
    · exact hworking a p ((hothers a p hac).mp hp)
  · have hac : a ≠ c := by
      rintro rfl
      rw [hphase] at hp
      cases hp
    exact hk a p ((hothers a p hac).mpr hp)

theorem serialized_work (hreach : Reach calls store s) (h : Serialized calls store s)
    {c : Fin n} {o : Op} {next : Except E (Ret o) → Prog Op Ret E R} {r : Except E (Ret o)}
    {store' : K → V} (hphase : s.phase c = .working (.act o next))
    (ho : sem o s.store r store') :
    Serialized calls store { s.goto c (.working (next r)) with store := store' } := by
  obtain ⟨σ, hserial, hworking, hidle⟩ := h
  obtain ⟨τ, hsteps, hagree⟩ := hworking c _ hphase
  have hlocal : LocalTo sem (calls c).keys o := (hsteps.requests (calls c).within).1
  have hframe := hlocal.frame s.store r store' ho
  obtain ⟨τ', ho', hagree'⟩ := hlocal.agree s.store r store' τ ho fun k hk => (hagree k hk).symm
  refine ⟨σ, hserial, fun a p hp => ?_, fun k hk => ?_⟩
  · change (s.goto c (.working (next r))).phase a = .working p at hp
    by_cases hac : a = c
    · subst hac
      rw [State.phase_goto_self] at hp
      cases hp
      exact ⟨τ', .tail hsteps ho', fun k hk => (hagree' k hk).symm⟩
    · rw [State.phase_goto_of_ne hac] at hp
      obtain ⟨τa, hstepsa, hagreea⟩ := hworking a p hp
      refine ⟨τa, hstepsa, fun k hk => (hframe k fun hkc => hac ?_).trans (hagreea k hk)⟩
      exact eq_of_working hreach hp hphase hk hkc
  · have hkc : k ∉ (calls c).keys := hk c (next r) (State.phase_goto_self ..)
    refine (hframe k hkc).trans (hidle k fun a p hp hka => ?_)
    by_cases hac : a = c
    · exact hkc (hac ▸ hka)
    · exact hk a p ((State.phase_goto_of_ne hac _).trans hp) hka

/-- The finished call is the next one in the serial order. -/
theorem serialized_finish (hreach : Reach calls store s) (h : Serialized calls store s)
    {c : Fin n} {r : Except E R} (hphase : s.phase c = .working (Prog.ofExcept r)) :
    Serialized calls store { s.goto c (.releasing (calls c).keys.length r) with
      log := s.log ++ [.finished c r] } := by
  obtain ⟨σ, hserial, hworking, hidle⟩ := h
  obtain ⟨τ, hsteps, hagree⟩ := hworking c _ hphase
  have hrun : Prog.Runs sem (calls c).body σ r τ := hsteps.runs (Prog.runs_ofExcept r τ)
  have hframe := steps_frame (calls c).within hsteps
  refine ⟨τ, ?_, fun a p hp => ?_, fun k hk => ?_⟩
  · rw [finishedOf_finished]
    exact .snoc hserial hrun
  · change (s.goto c _).phase a = .working p at hp
    by_cases hac : a = c
    · subst hac
      rw [State.phase_goto_self] at hp
      cases hp
    · rw [State.phase_goto_of_ne hac] at hp
      obtain ⟨τa, hstepsa, hagreea⟩ := hworking a p hp
      have hapart : ∀ k ∈ (calls a).keys, τ k = σ k := fun k hk =>
        hframe k fun hkc => hac (eq_of_working hreach hp hphase hk hkc)
      obtain ⟨τ', hstepsa', hagree'⟩ := steps_agree (calls a).within hstepsa hapart
      exact ⟨τ', hstepsa', fun k hk => (hagreea k hk).trans (hagree' k hk).symm⟩
  · by_cases hkc : k ∈ (calls c).keys
    · exact hagree k hkc
    · refine (hidle k fun a p hp hka => ?_).trans (hframe k hkc).symm
      by_cases hac : a = c
      · exact hkc (hac ▸ hka)
      · exact hk a p ((State.phase_goto_of_ne hac _).trans hp) hka

theorem serialized (h : Reach calls store s) : Serialized calls store s := by
  induction h with
  | refl =>
      refine ⟨store, .nil, fun c p hp => ?_, fun _ _ => rfl⟩
      cases hp
  | @tail s s' hreach hstep ih =>
      cases hstep with
      | @request c i k hphase hk =>
          obtain ⟨σ, hserial, hrest⟩ :=
            ih.goto c (.waiting i (s.queued k)) (by rw [hphase]; nofun) nofun
          exact ⟨σ, by rw [finishedOf_requested]; exact hserial, hrest⟩
      | @grant c i previous k hphase hk hprevious =>
          obtain ⟨σ, hserial, hrest⟩ :=
            ih.goto c (.acquiring (i + 1)) (by rw [hphase]; nofun) nofun
          exact ⟨σ, by rw [finishedOf_granted]; exact hserial, hrest⟩
      | @settle c i r hphase => exact ih.goto c _ (by rw [hphase]; nofun) nofun
      | @clean c i k r hphase hk => exact ih.goto c _ (by rw [hphase]; nofun) nofun
      | enter hphase => exact serialized_enter hreach ih hphase
      | work hphase ho => exact serialized_work hreach ih hphase ho
      | finish hphase => exact serialized_finish hreach ih hphase

/-- Of the calls that use a key, those that finished did so in the order in
which the key was handed on. -/
theorem finished_prefix (h : Reach calls store s) (k : K) :
    ((finishedOf s.log).map Prod.fst).filter (fun c => k ∈ (calls c).keys) <+:
      grantsOf s.log k := by
  induction h with
  | refl => simp [State.init, finishedOf]
  | @tail s s' hreach hstep ih =>
      cases hstep with
      | @request c i k' hphase hk =>
          rw [finishedOf_requested, grantsOf_requested]
          exact ih
      | @grant c i previous k' hphase hk hprevious =>
          rw [finishedOf_granted, grantsOf_granted]
          split
          · exact ih.trans (List.prefix_append ..)
          · exact ih
      | enter => exact ih
      | work => exact ih
      | settle => exact ih
      | clean => exact ih
      | @finish c r hphase =>
          rw [finishedOf_finished, grantsOf_finished, List.map_append, List.filter_append]
          by_cases hk : k ∈ (calls c).keys
          · -- everybody the key was given before is through with it
            obtain ⟨front, hgrants, hresolved⟩ :=
              (chain_inv hreach k).last_of_inside (inside_of_working hphase hk)
            change grantsOf s.log k = front ++ [c] at hgrants
            have hmem := (mem_finishedOf hreach).1
            set before := ((finishedOf s.log).map Prod.fst).filter
              (fun c => k ∈ (calls c).keys) with hbefore
            have hnot : c ∉ before := by
              intro hin
              obtain ⟨⟨_, r'⟩, hfinished, rfl⟩ := List.mem_map.mp (List.mem_of_mem_filter hin)
              have := (hmem _ r').mp hfinished
              rw [hphase] at this
              cases this
            have hfront : front.Subperm before := by
              have hnodup : front.Nodup := by
                have := (chain_inv hreach k).nodup_grants
                rw [show (s.chain calls k).grants = front ++ [c] from hgrants] at this
                exact (List.nodup_append.mp this).1
              refine hnodup.subperm fun a ha => ?_
              obtain ⟨hka, r', hr'⟩ := result_of_resolved (hresolved a ha)
              exact List.mem_filter.mpr
                ⟨List.mem_map.mpr ⟨(a, r'), (hmem a r').mpr hr', rfl⟩, decide_eq_true hka⟩
            rw [hgrants] at ih ⊢
            have heq : before = front := by
              rcases List.prefix_concat_iff.mp ih with heq | hfront'
              · exact absurd (heq ▸ by simp) hnot
              · exact hfront'.eq_of_length_le hfront.length_le
            simp [heq, hk]
          · simpa [hk] using ih

/-! ## When all have settled -/

theorem lock_of_done {c : Fin n} {r : Except E R} (h : s.Done c r) (k : K) :
    s.lock calls c k = .free ∨ s.lock calls c k = .left := by
  unfold State.lock
  rw [show s.phase c = .releasing 0 r from h]
  split
  · right
    simp [Phase.lock]
  · exact .inl rfl

/-- The map is empty. -/
theorem queued_of_done (h : Reach calls store s) (hdone : ∀ c, ∃ r, s.Done c r) (k : K) :
    s.queued k = none :=
  (chain_inv h k).empty fun c => by
    obtain ⟨r, hr⟩ := hdone c
    exact lock_of_done hr k

/-- The store is what all calls make of it one after the other. -/
theorem serial_of_done (h : Reach calls store s) (hdone : ∀ c, ∃ r, s.Done c r) :
    Serial calls store (finishedOf s.log) s.store := by
  obtain ⟨σ, hserial, -, hidle⟩ := serialized h
  have hstore : s.store = σ := funext fun k => hidle k fun c p hp => by
    obtain ⟨r, hr⟩ := hdone c
    rw [show s.phase c = .releasing 0 r from hr] at hp
    cases hp
  rwa [hstore]

/-- From wherever the calls got to, they can get to the end. -/
theorem exists_done (htotal : ∀ o σ, ∃ r σ', sem o σ r σ') (h : Reach calls store s) :
    ∃ s', Relation.ReflTransGen (Step calls) s s' ∧ ∀ c, ∃ r, s'.Done c r := by
  have hwf : WellFounded fun s' s => Step calls s s' := wellFounded_step
  induction s using hwf.induction with
  | _ s ih =>
      by_cases hdone : ∀ c, ∃ r, s.Done c r
      · exact ⟨s, .refl, hdone⟩
      · push Not at hdone
        obtain ⟨c, hc⟩ := hdone
        obtain ⟨s₁, hstep⟩ := exists_step htotal h hc
        obtain ⟨s', hreach, hdone⟩ := ih s₁ hstep (h.tail hstep)
        exact ⟨s', .head hstep hreach, hdone⟩

end Serializing

end Calls

end KeyedLock
