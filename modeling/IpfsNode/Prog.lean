import Mathlib.Logic.Relation
import Mathlib.Data.List.Nodup

/-!
# Programs with effects

A program is a tree of effect requests: it returns, fails, or asks for an
effect `o` and continues with the answer. What the effects do is not part of
the tree; a *semantics* is a relation between the state before an effect, its
answer, and the state after it. One tree can so be run alone, run while
other programs change the state between its effects, or run in parts.

- `wp` is the demonic weakest precondition of an undisturbed run, and
  `wp_iff_runs` says that it is exactly what all runs satisfy.
- `wpi` is the same with interference: between two effects the state may move
  along a relation `le`, and each effect must be requested in a state that
  satisfies its own precondition `pre`.
- `Pool` interleaves any number of tasks at the granularity of effects;
  `Pool.invariant` lifts `wpi` to all its runs, and `Pool.traced` keeps the
  history of a run.
- `run` executes a tree against an executable semantics.
-/

/-- Programs over the effects `Op`; effect `o` answers with a `Ret o` or fails
with an `E`. -/
inductive Prog (Op : Type) (Ret : Op → Type) (E α : Type) : Type where
  | ret (a : α)
  | fail (e : E)
  | act (o : Op) (k : Except E (Ret o) → Prog Op Ret E α)

namespace Prog

variable {Op : Type} {Ret : Op → Type} {E S α β γ : Type}

/-! ## The monad -/

protected def bind : Prog Op Ret E α → (α → Prog Op Ret E β) → Prog Op Ret E β
  | .ret a, f => f a
  | .fail e, _ => .fail e
  | .act o k, f => .act o fun r => (k r).bind f

protected def tryCatch :
    Prog Op Ret E α → (E → Prog Op Ret E α) → Prog Op Ret E α
  | .ret a, _ => .ret a
  | .fail e, h => h e
  | .act o k, h => .act o fun r => (k r).tryCatch h

instance : Monad (Prog Op Ret E) where
  pure := .ret
  bind := Prog.bind

instance : MonadExcept E (Prog Op Ret E) where
  throw := .fail
  tryCatch := Prog.tryCatch

/-- A program that only returns or fails. -/
def ofExcept : Except E α → Prog Op Ret E α
  | .ok a => .ret a
  | .error e => .fail e

/-- Request one effect and return its answer. -/
def perform (o : Op) : Prog Op Ret E (Ret o) :=
  .act o ofExcept

/-- Run `p`, and hand its result to the caller whether it returned or failed. -/
protected def attempt (p : Prog Op Ret E α) : Prog Op Ret E (Except E α) :=
  match p with
  | .ret a => .ret (.ok a)
  | .fail e => .ret (.error e)
  | .act o k => .act o fun r => (k r).attempt

/-! ## Undisturbed runs -/

/-- What an effect may do: the state before it, its answer, the state after. -/
abbrev Sem (Op : Type) (Ret : Op → Type) (E S : Type) :=
  (o : Op) → S → Except E (Ret o) → S → Prop

/-- `Runs sem p s r s'`: some run of `p` from `s` ends in `s'` with result `r`. -/
inductive Runs (sem : Sem Op Ret E S) :
    Prog Op Ret E α → S → Except E α → S → Prop
  | ret {a s} : Runs sem (.ret a) s (.ok a) s
  | fail {e s} : Runs sem (.fail e) s (.error e) s
  | act {o k s r s' res s''} (h : sem o s r s')
      (hk : Runs sem (k r) s' res s'') : Runs sem (.act o k) s res s''

/-- Every run of the program from the state ends as `Q` says. -/
def wp (sem : Sem Op Ret E S) :
    Prog Op Ret E α → (Except E α → S → Prop) → S → Prop
  | .ret a, Q, s => Q (.ok a) s
  | .fail e, Q, s => Q (.error e) s
  | .act o k, Q, s => ∀ r s', sem o s r s' → wp sem (k r) Q s'

/-- The postcondition a sequence asks of its first part. -/
def thenPost (f : α → S → Prop) (Q : Except E β → S → Prop) :
    Except E α → S → Prop
  | .ok a => f a
  | .error e => Q (.error e)

/-- The postcondition a handler asks of the part it guards. -/
def catchPost (h : E → S → Prop) (Q : Except E α → S → Prop) :
    Except E α → S → Prop
  | .ok a => Q (.ok a)
  | .error e => h e

@[simp] theorem thenPost_ok {f : α → S → Prop} {Q : Except E β → S → Prop}
    {a : α} {s : S} : thenPost f Q (.ok a) s = f a s := rfl

@[simp] theorem thenPost_error {f : α → S → Prop} {Q : Except E β → S → Prop}
    {e : E} {s : S} : thenPost f Q (.error e) s = Q (.error e) s := rfl

@[simp] theorem catchPost_ok {h : E → S → Prop} {Q : Except E α → S → Prop}
    {a : α} {s : S} : catchPost h Q (.ok a) s = Q (.ok a) s := rfl

@[simp] theorem catchPost_error {h : E → S → Prop} {Q : Except E α → S → Prop}
    {e : E} {s : S} : catchPost h Q (.error e) s = h e s := rfl

variable {sem : Sem Op Ret E S}

theorem wp_iff_runs {p : Prog Op Ret E α} {Q : Except E α → S → Prop} {s : S} :
    wp sem p Q s ↔ ∀ r s', Runs sem p s r s' → Q r s' := by
  induction p generalizing s with
  | ret a =>
      constructor
      · rintro h r s' ⟨⟩
        exact h
      · exact fun h => h _ _ .ret
  | fail e =>
      constructor
      · rintro h r s' ⟨⟩
        exact h
      · exact fun h => h _ _ .fail
  | act o k ih =>
      constructor
      · rintro h r s' (_ | _ | ⟨ho, hk⟩)
        exact (ih _).mp (h _ _ ho) _ _ hk
      · exact fun h r s' ho => (ih r).mpr fun _ _ hk => h _ _ (.act ho hk)

/-- Where every effect is answered, every program has a run. -/
theorem exists_runs (htotal : ∀ o s, ∃ r s', sem o s r s') (p : Prog Op Ret E α) (s : S) :
    ∃ r s', Runs sem p s r s' := by
  induction p generalizing s with
  | ret a => exact ⟨_, _, .ret⟩
  | fail e => exact ⟨_, _, .fail⟩
  | act o k ih =>
      obtain ⟨r, s₁, ho⟩ := htotal o s
      obtain ⟨r', s', hk⟩ := ih r s₁
      exact ⟨r', s', .act ho hk⟩

/-- A run stays a run when its states are seen through `f`. -/
theorem Runs.map {S' : Type} {sem' : Sem Op Ret E S'} (f : S → S')
    (hsem : ∀ o s r s', sem o s r s' → sem' o (f s) r (f s')) {p : Prog Op Ret E α}
    {s s' : S} {r : Except E α} (h : Runs sem p s r s') : Runs sem' p (f s) r (f s') := by
  induction h with
  | ret => exact .ret
  | fail => exact .fail
  | act ho _ ih => exact .act (hsem _ _ _ _ ho) ih

theorem Runs.mono {sem' : Sem Op Ret E S}
    (hsem : ∀ o s r s', sem o s r s' → sem' o s r s') {p : Prog Op Ret E α} {s s' : S}
    {r : Except E α} (h : Runs sem p s r s') : Runs sem' p s r s' :=
  h.map id hsem

/-! ## The rules -/

section Rules

variable {Q Q' : Except E α → S → Prop} {s : S}

@[simp] theorem wp_pure {a : α} :
    wp sem (pure a : Prog Op Ret E α) Q s ↔ Q (.ok a) s := Iff.rfl

@[simp] theorem wp_throw {e : E} :
    wp sem (throw e : Prog Op Ret E α) Q s ↔ Q (.error e) s := Iff.rfl

@[simp] theorem wp_ofExcept {r : Except E α} :
    wp sem (ofExcept r) Q s ↔ Q r s := by
  cases r <;> exact Iff.rfl

theorem wp_perform {o : Op} {Q : Except E (Ret o) → S → Prop} :
    wp sem (perform o) Q s ↔ ∀ r s', sem o s r s' → Q r s' := by
  simp only [perform, wp, wp_ofExcept]

theorem wp_mono {p : Prog Op Ret E α} (hQ : ∀ r s', Q r s' → Q' r s')
    (h : wp sem p Q s) : wp sem p Q' s :=
  wp_iff_runs.mpr fun r s' hr => hQ r s' (wp_iff_runs.mp h r s' hr)

@[simp] theorem wp_bind {p : Prog Op Ret E α} {f : α → Prog Op Ret E β}
    {Q : Except E β → S → Prop} :
    wp sem (p >>= f) Q s ↔ wp sem p (thenPost (fun a => wp sem (f a) Q) Q) s := by
  show wp sem (p.bind f) Q s ↔ _
  induction p generalizing s with
  | ret a => exact Iff.rfl
  | fail e => exact Iff.rfl
  | act o k ih =>
      simp only [Prog.bind, wp]
      exact forall_congr' fun r => forall_congr' fun s' => imp_congr_right fun _ => ih r

@[simp] theorem wp_tryCatch {p : Prog Op Ret E α} {h : E → Prog Op Ret E α} :
    wp sem (tryCatch p h) Q s ↔ wp sem p (catchPost (fun e => wp sem (h e) Q) Q) s := by
  show wp sem (p.tryCatch h) Q s ↔ _
  induction p generalizing s with
  | ret a => exact Iff.rfl
  | fail e => exact Iff.rfl
  | act o k ih =>
      simp only [Prog.tryCatch, wp]
      exact forall_congr' fun r => forall_congr' fun s' => imp_congr_right fun _ => ih r

@[simp] theorem wp_attempt {p : Prog Op Ret E α} {Q : Except E (Except E α) → S → Prop} :
    wp sem p.attempt Q s ↔ wp sem p (fun r => Q (.ok r)) s := by
  induction p generalizing s with
  | ret a => exact Iff.rfl
  | fail e => exact Iff.rfl
  | act o k ih =>
      simp only [Prog.attempt, wp]
      exact forall_congr' fun r => forall_congr' fun s' => imp_congr_right fun _ => ih r

theorem wp_and {p : Prog Op Ret E α} (h : wp sem p Q s) (h' : wp sem p Q' s) :
    wp sem p (fun r s' => Q r s' ∧ Q' r s') s :=
  wp_iff_runs.mpr fun r s' hr => ⟨wp_iff_runs.mp h r s' hr, wp_iff_runs.mp h' r s' hr⟩

end Rules

/-! ## Invariant triples

`Keeps sem I p φ`: from every state of `I`, each run of `p` stays in `I` at
its end, and its result satisfies `φ`, which does not look at the state. -/

/-- `p` keeps the invariant `I` and returns a result that satisfies `φ`. -/
def Keeps (sem : Sem Op Ret E S) (I : S → Prop) (p : Prog Op Ret E α)
    (φ : Except E α → Prop) : Prop :=
  ∀ s, I s → wp sem p (fun r s' => I s' ∧ φ r) s

section Keeps

variable {I : S → Prop} {φ ψ : Except E α → Prop}

theorem Keeps.mono {p : Prog Op Ret E α} (h : Keeps sem I p φ) (hφ : ∀ r, φ r → ψ r) :
    Keeps sem I p ψ :=
  fun s hs => wp_mono (fun r _ hr => ⟨hr.1, hφ r hr.2⟩) (h s hs)

theorem Keeps.pure {a : α} (h : φ (.ok a)) : Keeps sem I (pure a) φ :=
  fun _ hs => ⟨hs, h⟩

theorem Keeps.throw {e : E} (h : φ (.error e)) : Keeps sem I (throw e) φ :=
  fun _ hs => ⟨hs, h⟩

theorem Keeps.perform {o : Op} {φ : Except E (Ret o) → Prop}
    (h : ∀ s, I s → ∀ r s', sem o s r s' → I s' ∧ φ r) :
    Keeps sem I (perform o) φ :=
  fun s hs => wp_perform.mpr (h s hs)

theorem Keeps.bind {p : Prog Op Ret E α} {f : α → Prog Op Ret E β}
    {χ : Except E β → Prop} (hp : Keeps sem I p φ)
    (hf : ∀ a, φ (.ok a) → Keeps sem I (f a) χ)
    (he : ∀ e, φ (.error e) → χ (.error e)) : Keeps sem I (p >>= f) χ := by
  intro s hs
  rw [wp_bind]
  refine wp_mono ?_ (hp s hs)
  rintro (e | a) s' ⟨hI, hφ⟩
  · exact ⟨hI, he e hφ⟩
  · exact hf a hφ s' hI

theorem Keeps.attempt {p : Prog Op Ret E α} (hp : Keeps sem I p φ) :
    Keeps sem I p.attempt (fun r => ∃ a, r = .ok a ∧ φ a) := by
  intro s hs
  rw [wp_attempt]
  exact wp_mono (fun r s' hr => ⟨hr.1, r, rfl, hr.2⟩) (hp s hs)

/-- Whatever the first part comes to is handed on. -/
theorem Keeps.attempt_bind {p : Prog Op Ret E α} {f : Except E α → Prog Op Ret E β}
    {χ : Except E β → Prop} (hp : Keeps sem I p φ)
    (hf : ∀ r, φ r → Keeps sem I (f r) χ) : Keeps sem I (p.attempt >>= f) χ := by
  intro s hs
  rw [wp_bind, wp_attempt]
  exact wp_mono (fun r s' hr => hf r hr.2 s' hr.1) (hp s hs)

theorem Keeps.tryCatch {p : Prog Op Ret E α} {h : E → Prog Op Ret E α}
    (hp : Keeps sem I p φ) (hh : ∀ e, φ (.error e) → Keeps sem I (h e) ψ)
    (ho : ∀ a, φ (.ok a) → ψ (.ok a)) : Keeps sem I (tryCatch p h) ψ := by
  intro s hs
  rw [wp_tryCatch]
  refine wp_mono ?_ (hp s hs)
  rintro (e | a) s' ⟨hI, hφ⟩
  · exact hh e hφ s' hI
  · exact ⟨hI, ho a hφ⟩

end Keeps

/-! ## The states a run passes through -/

/-- The semantics that also keeps every state passed through. -/
def visiting (sem : Sem Op Ret E S) : Sem Op Ret E (S × List S) :=
  fun o s r s' => sem o s.1 r s'.1 ∧ s'.2 = s.2 ++ [s'.1]

/-- All states passed through, and the one reached, satisfy `I`. -/
def Throughout (I : S → Prop) (s : S × List S) : Prop :=
  I s.1 ∧ ∀ x ∈ s.2, I x

section Visiting

variable {p : Prog Op Ret E α} {r : Except E α}

theorem Throughout.step {I : S → Prop} {s s' : S × List S} (h : Throughout I s)
    (hI : I s'.1) (hs : s'.2 = s.2 ++ [s'.1]) : Throughout I s' := by
  refine ⟨hI, fun x hx => ?_⟩
  rw [hs, List.mem_append, List.mem_singleton] at hx
  rcases hx with hx | rfl
  · exact h.2 x hx
  · exact hI

/-- Every run passes through some states. -/
theorem Runs.visiting {s s' : S} (h : Runs sem p s r s') (before : List S) :
    ∃ after, Runs (visiting sem) p (s, before) r (s', before ++ after) := by
  induction h generalizing before with
  | ret => exact ⟨[], by rw [List.append_nil]; exact .ret⟩
  | fail => exact ⟨[], by rw [List.append_nil]; exact .fail⟩
  | @act o k s r s' res s'' ho _ ih =>
      obtain ⟨after, hk⟩ := ih (before ++ [s'])
      rw [List.append_assoc] at hk
      have hstep : Prog.visiting sem o (s, before) r (s', before ++ [s']) := ⟨ho, rfl⟩
      exact ⟨[s'] ++ after, .act hstep hk⟩

end Visiting

/-! ## Requests of a program -/

/-- Every effect the program can request satisfies `φ`, whatever it is answered. -/
def Requests (φ : Op → Prop) : Prog Op Ret E α → Prop
  | .ret _ => True
  | .fail _ => True
  | .act o k => φ o ∧ ∀ r, Requests φ (k r)

section Requests

variable {φ : Op → Prop}

theorem Requests.mono {ψ : Op → Prop} {p : Prog Op Ret E α} (hφ : ∀ o, φ o → ψ o)
    (hp : Requests φ p) : Requests ψ p := by
  induction p with
  | ret a => trivial
  | fail e => trivial
  | act o k ih => exact ⟨hφ o hp.1, fun r => ih r (hp.2 r)⟩

theorem Requests.all (p : Prog Op Ret E α) : Requests (fun _ => True) p := by
  induction p with
  | ret a => trivial
  | fail e => trivial
  | act o k ih => exact ⟨trivial, ih⟩

theorem Requests.ofExcept {r : Except E α} :
    Requests φ (ofExcept r : Prog Op Ret E α) := by
  cases r <;> trivial

theorem Requests.perform {o : Op} (h : φ o) :
    Requests φ (perform o : Prog Op Ret E (Ret o)) :=
  ⟨h, fun _ => .ofExcept⟩

theorem Requests.bind {p : Prog Op Ret E α} {f : α → Prog Op Ret E β} (hp : Requests φ p)
    (hf : ∀ a, Requests φ (f a)) : Requests φ (p >>= f) := by
  show Requests φ (p.bind f)
  induction p with
  | ret a => exact hf a
  | fail e => trivial
  | act o k ih => exact ⟨hp.1, fun r => ih r (hp.2 r)⟩

theorem Requests.attempt {p : Prog Op Ret E α} (hp : Requests φ p) :
    Requests φ p.attempt := by
  induction p with
  | ret a => trivial
  | fail e => trivial
  | act o k ih => exact ⟨hp.1, fun r => ih r (hp.2 r)⟩

end Requests

/-! ## A program among more effects -/

/-- The program over effects of which `ι o` stands for `o`. -/
def embed {Op' : Type} {Ret' : Op' → Type} (ι : Op → Op')
    (back : ∀ o, Except E (Ret' (ι o)) → Except E (Ret o)) :
    Prog Op Ret E α → Prog Op' Ret' E α
  | .ret a => .ret a
  | .fail e => .fail e
  | .act o k => .act (ι o) fun r => embed ι back (k (back o r))

/-- What the larger semantics says about the effects of the program. -/
def Sem.along {Op' : Type} {Ret' : Op' → Type} (sem : Sem Op' Ret' E S) (ι : Op → Op')
    (back : ∀ o, Except E (Ret' (ι o)) → Except E (Ret o)) : Sem Op Ret E S :=
  fun o s r s' => ∃ answer, back o answer = r ∧ sem (ι o) s answer s'

/-! ## Runs with interference -/

/-- Every run of the program ends as `Q` says and requests each effect in a
state satisfying `pre`, when between two effects the state may move along
`le` inside `inv`. -/
def wpi (sem : Sem Op Ret E S) (le : S → S → Prop) (inv : S → Prop)
    (pre : Op → S → Prop) : Prog Op Ret E α → (Except E α → S → Prop) → S → Prop
  | .ret a, Q, s => Q (.ok a) s
  | .fail e, Q, s => Q (.error e) s
  | .act o k, Q, s => ∀ s₁, le s s₁ → inv s₁ →
      pre o s₁ ∧ ∀ r s₂, sem o s₁ r s₂ → wpi sem le inv pre (k r) Q s₂

section Interference

variable {le : S → S → Prop} {inv : S → Prop} {pre : Op → S → Prop}
variable {Q Q' : Except E α → S → Prop} {s : S}

@[simp] theorem wpi_pure {a : α} :
    wpi sem le inv pre (pure a) Q s ↔ Q (.ok a) s := Iff.rfl

@[simp] theorem wpi_throw {e : E} :
    wpi sem le inv pre (throw e) Q s ↔ Q (.error e) s := Iff.rfl

@[simp] theorem wpi_ofExcept {r : Except E α} :
    wpi sem le inv pre (ofExcept r) Q s ↔ Q r s := by
  cases r <;> exact Iff.rfl

theorem wpi_mono {p : Prog Op Ret E α} (hQ : ∀ r s', Q r s' → Q' r s')
    (h : wpi sem le inv pre p Q s) : wpi sem le inv pre p Q' s := by
  induction p generalizing s with
  | ret a => exact hQ _ _ h
  | fail e => exact hQ _ _ h
  | act o k ih =>
      intro s₁ hle hinv
      obtain ⟨hpre, hk⟩ := h s₁ hle hinv
      exact ⟨hpre, fun r s₂ ho => ih r (hk r s₂ ho)⟩

@[simp] theorem wpi_bind {p : Prog Op Ret E α} {f : α → Prog Op Ret E β}
    {Q : Except E β → S → Prop} :
    wpi sem le inv pre (p >>= f) Q s ↔
      wpi sem le inv pre p (thenPost (fun a => wpi sem le inv pre (f a) Q) Q) s := by
  show wpi sem le inv pre (p.bind f) Q s ↔ _
  induction p generalizing s with
  | ret a => exact Iff.rfl
  | fail e => exact Iff.rfl
  | act o k ih => simp only [Prog.bind, wpi, ih]

/-- Parts that are safe on their own are safe one after the other. -/
theorem wpi_bind_true {p : Prog Op Ret E α} {f : α → Prog Op Ret E β}
    (hp : wpi sem le inv pre p (fun _ _ => True) s)
    (hf : ∀ a s', wpi sem le inv pre (f a) (fun _ _ => True) s') :
    wpi sem le inv pre (p >>= f) (fun _ _ => True) s := by
  refine wpi_bind.mpr (wpi_mono ?_ hp)
  rintro (e | a) s' -
  · trivial
  · exact hf a s'

@[simp] theorem wpi_tryCatch {p : Prog Op Ret E α} {h : E → Prog Op Ret E α} :
    wpi sem le inv pre (tryCatch p h) Q s ↔
      wpi sem le inv pre p (catchPost (fun e => wpi sem le inv pre (h e) Q) Q) s := by
  show wpi sem le inv pre (p.tryCatch h) Q s ↔ _
  induction p generalizing s with
  | ret a => exact Iff.rfl
  | fail e => exact Iff.rfl
  | act o k ih => simp only [Prog.tryCatch, wpi, ih]

@[simp] theorem wpi_attempt {p : Prog Op Ret E α} {Q : Except E (Except E α) → S → Prop} :
    wpi sem le inv pre p.attempt Q s ↔ wpi sem le inv pre p (fun r => Q (.ok r)) s := by
  induction p generalizing s with
  | ret a => exact Iff.rfl
  | fail e => exact Iff.rfl
  | act o k ih => simp only [Prog.attempt, wpi, ih]

theorem wpi_perform {o : Op} {Q : Except E (Ret o) → S → Prop} :
    wpi sem le inv pre (perform o) Q s ↔ ∀ s₁, le s s₁ → inv s₁ →
      pre o s₁ ∧ ∀ r s₂, sem o s₁ r s₂ → Q r s₂ := by
  simp only [perform, wpi, wpi_ofExcept]

theorem wpi_embed {Op' : Type} {Ret' : Op' → Type} {ι : Op → Op'}
    {back : ∀ o, Except E (Ret' (ι o)) → Except E (Ret o)} {sem' : Sem Op' Ret' E S}
    {pre' : Op' → S → Prop} {p : Prog Op Ret E α} :
    wpi sem' le inv pre' (p.embed ι back) Q s ↔
      wpi (sem'.along ι back) le inv (fun o => pre' (ι o)) p Q s := by
  induction p generalizing s with
  | ret a => exact Iff.rfl
  | fail e => exact Iff.rfl
  | act o k ih =>
      simp only [embed, wpi, Sem.along, ih]
      refine forall_congr' fun s₁ => forall_congr' fun _ => forall_congr' fun _ =>
        and_congr_right fun _ => ⟨?_, fun h r s₂ ho => h _ s₂ ⟨r, rfl, ho⟩⟩
      rintro h r s₂ ⟨answer, rfl, ho⟩
      exact h answer s₂ ho

/-- What neither the others nor the program itself destroy still holds at the end. -/
theorem wpi_frame {φ : Op → Prop} {F : S → Prop} (hle : ∀ s s', le s s' → F s → F s')
    (hstep : ∀ o s r s', inv s → pre o s → φ o → sem o s r s' → F s → F s')
    {p : Prog Op Ret E α} (hp : Requests φ p) (h : wpi sem le inv pre p Q s) (hF : F s) :
    wpi sem le inv pre p (fun r s' => Q r s' ∧ F s') s := by
  induction p generalizing s with
  | ret a => exact ⟨h, hF⟩
  | fail e => exact ⟨h, hF⟩
  | act o k ih =>
      intro s₁ hle₁ hinv
      obtain ⟨hpre, hk⟩ := h s₁ hle₁ hinv
      have hF₁ := hle s s₁ hle₁ hF
      exact ⟨hpre, fun r s₂ ho =>
        ih r (hp.2 r) (hk r s₂ ho) (hstep o s₁ r s₂ hinv hpre hp.1 ho hF₁)⟩

/-- A program that only makes requests which are allowed wherever `F` holds, and
none that destroy it. -/
theorem wpi_of_requests_frame {φ : Op → Prop} {F : S → Prop}
    (hpre : ∀ o s, inv s → F s → φ o → pre o s) (hle : ∀ s s', le s s' → F s → F s')
    (hstep : ∀ o s r s', φ o → sem o s r s' → F s → F s') {p : Prog Op Ret E α}
    (hp : Requests φ p) (hF : F s) : wpi sem le inv pre p (fun _ => F) s := by
  induction p generalizing s with
  | ret a => exact hF
  | fail e => exact hF
  | act o k ih =>
      intro s₁ hle₁ hinv
      have hF₁ := hle s s₁ hle₁ hF
      exact ⟨hpre o s₁ hinv hF₁ hp.1, fun r s₂ ho =>
        ih r (hp.2 r) (hstep o s₁ r s₂ hp.1 ho hF₁)⟩

/-- A program that only makes requests which are allowed anywhere. -/
theorem wpi_of_requests {φ : Op → Prop} (hpre : ∀ o s, inv s → φ o → pre o s)
    {p : Prog Op Ret E α} (hp : Requests φ p) :
    wpi sem le inv pre p (fun _ _ => True) s :=
  wpi_of_requests_frame (fun o s hinv _ => hpre o s hinv) (fun _ _ _ h => h)
    (fun _ _ _ _ _ _ h => h) hp trivial

/-- What is safe under an invariant is safe under a stronger one. -/
theorem wpi_of_inv {inv' : S → Prop} (hinv : ∀ s, inv' s → inv s) {p : Prog Op Ret E α}
    (h : wpi sem le inv pre p Q s) : wpi sem le inv' pre p Q s := by
  induction p generalizing s with
  | ret a => exact h
  | fail e => exact h
  | act o k ih =>
      intro s₁ hle hs₁
      obtain ⟨hpre, hk⟩ := h s₁ hle (hinv s₁ hs₁)
      exact ⟨hpre, fun r s₂ ho => ih r (hk r s₂ ho)⟩

/-- The interference before the first effect can be taken beforehand. -/
theorem wpi_le (htrans : ∀ a b c, le a b → le b c → le a c)
    {p : Prog Op Ret E α} {s s' : S} (h : wpi sem le inv pre p (fun _ _ => True) s)
    (hle : le s s') : wpi sem le inv pre p (fun _ _ => True) s' := by
  cases p with
  | ret a => trivial
  | fail e => trivial
  | act o k => exact fun s₁ h₁ hinv => h s₁ (htrans _ _ _ hle h₁) hinv

end Interference

/-! ## Any number of programs -/

namespace Pool

variable {T : Type}

/-- A state together with what is left of the tasks running on it. -/
abbrev Config (T Op : Type) (Ret : Op → Type) (E S : Type) :=
  S × List (T × Prog Op Ret E Unit)

/-- One step of the pool: a task that may start does so under a name of its
own, a running task makes its next effect, or all tasks disappear and the state
is reset. -/
inductive Step (sem : T → Sem Op Ret E S) (entry : T → Prog Op Ret E Unit → Prop)
    (reset : S → S → Prop) : Config T Op Ret E S → Config T Op Ret E S → Prop
  | spawn {s ts t p} (h : entry t p) (hnew : ∀ task ∈ ts, task.1 ≠ t) :
      Step sem entry reset (s, ts) (s, (t, p) :: ts)
  | act {s s' before after t o k r} (h : sem t o s r s') :
      Step sem entry reset (s, before ++ (t, .act o k) :: after)
        (s', before ++ (t, k r) :: after)
  | reset {s s' ts} (h : reset s s') : Step sem entry reset (s, ts) (s', [])

/-- The configurations a pool reaches from `c`. -/
abbrev Reach (sem : T → Sem Op Ret E S) (entry : T → Prog Op Ret E Unit → Prop)
    (reset : S → S → Prop) : Config T Op Ret E S → Config T Op Ret E S → Prop :=
  Relation.ReflTransGen (Step sem entry reset)

variable {sem : T → Sem Op Ret E S} {entry : T → Prog Op Ret E Unit → Prop}
variable {reset : S → S → Prop}

/-- Running tasks have different names. -/
theorem nodup_of_reach {s₀ s : S} {ts : List (T × Prog Op Ret E Unit)}
    (h : Reach sem entry reset (s₀, []) (s, ts)) : (ts.map (·.1)).Nodup := by
  suffices H : ∀ c : Config T Op Ret E S, Reach sem entry reset (s₀, []) c →
      (c.2.map (·.1)).Nodup from H _ h
  intro c hc
  induction hc with
  | refl => simp
  | tail _ hs ih =>
      cases hs with
      | spawn _ hnew =>
          rw [List.map_cons, List.nodup_cons]
          refine ⟨fun hmem => ?_, ih⟩
          obtain ⟨task, htask, heq⟩ := List.mem_map.mp hmem
          exact hnew task htask heq
      | act => simpa using ih
      | reset => simp

/-- The invariant of a pool. Each task `t` relies on the other tasks moving the
state along `le t` only. If every effect requested under its precondition keeps
`inv` and moves the state as the other tasks rely on, and every task that can
start is safe under that interference, then `inv` holds in all runs and every
running task stays safe. -/
theorem invariant {le : T → S → S → Prop} {inv : S → Prop} {pre : T → Op → S → Prop}
    (htrans : ∀ t a b c, le t a b → le t b c → le t a c)
    (hrefl : ∀ t s, le t s s)
    (hstep : ∀ t o s r s', inv s → pre t o s → sem t o s r s' →
      inv s' ∧ ∀ t', t' ≠ t → le t' s s')
    (hentry : ∀ t p, entry t p → ∀ s, inv s →
      wpi (sem t) (le t) inv (pre t) p (fun _ _ => True) s)
    (hreset : ∀ s s', inv s → reset s s' → inv s')
    {s₀ s : S} {ts : List (T × Prog Op Ret E Unit)} (h₀ : inv s₀)
    (h : Reach sem entry reset (s₀, []) (s, ts)) :
    inv s ∧ ∀ task ∈ ts,
      wpi (sem task.1) (le task.1) inv (pre task.1) task.2 (fun _ _ => True) s := by
  suffices H : ∀ c : Config T Op Ret E S, Reach sem entry reset (s₀, []) c →
      inv c.1 ∧ ∀ task ∈ c.2,
        wpi (sem task.1) (le task.1) inv (pre task.1) task.2 (fun _ _ => True) c.1 from H _ h
  intro c hc
  induction hc with
  | refl => exact ⟨h₀, by simp⟩
  | tail hreach hs ih =>
      obtain ⟨hinv, hall⟩ := ih
      have hnodup := nodup_of_reach hreach
      cases hs with
      | spawn hp hnew =>
          refine ⟨hinv, fun task hmem => ?_⟩
          rcases List.mem_cons.mp hmem with rfl | hmem
          · exact hentry _ _ hp _ hinv
          · exact hall task hmem
      | @act s s' before after t o k r ho =>
          obtain ⟨hpre, hk⟩ := hall (t, .act o k) (by simp) s (hrefl t s) hinv
          obtain ⟨hinv', hle⟩ := hstep t o s r s' hinv hpre ho
          have hothers : ∀ task, task ∈ before ∨ task ∈ after →
              wpi (sem task.1) (le task.1) inv (pre task.1) task.2 (fun _ _ => True) s' := by
            intro task hmem
            have hne : task.1 ≠ t := by
              rw [List.map_append, List.map_cons, List.nodup_middle, List.nodup_cons,
                List.mem_append] at hnodup
              rintro rfl
              refine hnodup.1 (hmem.imp ?_ ?_) <;> exact List.mem_map_of_mem
            have hsafe := hall task (by
              rcases hmem with hmem | hmem <;> simp [hmem])
            exact wpi_le (htrans task.1) hsafe (hle task.1 hne)
          refine ⟨hinv', fun task hmem => ?_⟩
          simp only [List.mem_append, List.mem_cons] at hmem
          rcases hmem with hmem | rfl | hmem
          · exact hothers task (.inl hmem)
          · exact hk r s' ho
          · exact hothers task (.inr hmem)
      | reset hr => exact ⟨hreset _ _ hinv hr, by simp⟩

/-- The invariant of a pool whose tasks rely on it alone. -/
theorem invariant_of_pre (inv : S → Prop) {pre : T → Op → S → Prop}
    (hstep : ∀ t o s r s', inv s → pre t o s → sem t o s r s' → inv s')
    (hentry : ∀ t p, entry t p → ∀ s, inv s →
      wpi (sem t) (fun _ _ => True) inv (pre t) p (fun _ _ => True) s)
    (hreset : ∀ s s', inv s → reset s s' → inv s')
    {s₀ : S} {c : Config T Op Ret E S} (h₀ : inv s₀)
    (h : Reach sem entry reset (s₀, []) c) : inv c.1 := by
  have hrefl : ∀ (t : T) (s : S), (fun _ _ _ => True : T → S → S → Prop) t s s :=
    fun _ _ => trivial
  exact (invariant (fun _ _ _ _ _ _ => trivial) hrefl
    (fun t o s r s' hinv hpre ho => ⟨hstep t o s r s' hinv hpre ho, fun _ _ => trivial⟩)
    hentry hreset h₀ h).1

/-! ### Histories -/

/-- What happened in a run: a request of a task, or a reset. -/
inductive Event (T Op : Type) (Ret : Op → Type) (E S : Type) where
  | request (task : T) (op : Op) (before : S) (answer : Except E (Ret op)) (after : S)
  | reset (before after : S)

namespace Event

def before : Event T Op Ret E S → S
  | .request _ _ before _ _ => before
  | .reset before _ => before

def after : Event T Op Ret E S → S
  | .request _ _ _ _ after => after
  | .reset _ after => after

end Event

/-- A state together with the history that led to it. -/
abbrev Past (T Op : Type) (Ret : Op → Type) (E S : Type) := S × List (Event T Op Ret E S)

/-- The semantics that also writes the history. -/
def traced (sem : Sem Op Ret E S) (t : T) : Sem Op Ret E (Past T Op Ret E S) :=
  fun o s r s' => sem o s.1 r s'.1 ∧ s'.2 = s.2 ++ [.request t o s.1 r s'.1]

section Traced

variable {p : Prog Op Ret E α} {sem : Sem Op Ret E S} {t : T} {r : Except E α}

theorem runs_of_traced {s s' : Past T Op Ret E S} (h : Runs (traced sem t) p s r s') :
    Runs sem p s.1 r s'.1 :=
  h.map Prod.fst fun _ _ _ _ hstep => hstep.1

/-- A run adds events to the history, and passes through the states after them. -/
theorem exists_events_of_traced {s s' : Past T Op Ret E S} (h : Runs (traced sem t) p s r s') :
    ∃ events, s'.2 = s.2 ++ events ∧ ∀ visited,
      Runs (visiting sem) p (s.1, visited) r (s'.1, visited ++ events.map Event.after) := by
  induction h with
  | ret => exact ⟨[], by simp, fun _ => by simpa using .ret⟩
  | fail => exact ⟨[], by simp, fun _ => by simpa using .fail⟩
  | @act o k s r s' res s'' ho _ ih =>
      obtain ⟨hsem, hpast⟩ := ho
      obtain ⟨events, hevents, hvisits⟩ := ih
      refine ⟨.request t o s.1 r s'.1 :: events, ?_, fun visited => ?_⟩
      · rw [hevents, hpast, List.append_assoc]
        rfl
      · have hstep : visiting sem o (s.1, visited) r (s'.1, visited ++ [s'.1]) := ⟨hsem, rfl⟩
        have hk := hvisits (visited ++ [s'.1])
        rw [List.append_assoc] at hk
        exact .act hstep hk

/-- The events of a run are requests of its program. -/
theorem events_of_requests {φ : Op → Prop} (hp : Requests φ p) {s s' : Past T Op Ret E S}
    (h : Runs (traced sem t) p s r s') :
    ∃ events, s'.2 = s.2 ++ events ∧ ∀ e ∈ events,
      ∃ o before answer after, e = .request t o before answer after ∧ φ o := by
  induction h with
  | ret => exact ⟨[], by simp, by simp⟩
  | fail => exact ⟨[], by simp, by simp⟩
  | @act o k s r s' res s'' ho _ ih =>
      obtain ⟨events, hevents, hall⟩ := ih (hp.2 _)
      refine ⟨.request t o s.1 r s'.1 :: events, ?_, ?_⟩
      · rw [hevents, ho.2, List.append_assoc]
        rfl
      · rw [List.forall_mem_cons]
        exact ⟨⟨o, _, _, _, rfl, hp.1⟩, hall⟩

end Traced

def tracedReset (reset : S → S → Prop) : Past T Op Ret E S → Past T Op Ret E S → Prop :=
  fun s s' => reset s.1 s'.1 ∧ s'.2 = s.2 ++ [.reset s.1 s'.1]

/-- An event is a step of the semantics or of the reset. -/
def Event.Of (sem : Sem Op Ret E S) (reset : S → S → Prop) : Event T Op Ret E S → Prop
  | .request _ op before answer after => sem op before answer after
  | .reset before after => reset before after

/-- The events lead from the first state to the last one, each beginning where
the one before it ended. -/
inductive Leads (sem : Sem Op Ret E S) (reset : S → S → Prop) :
    S → List (Event T Op Ret E S) → S → Prop
  | nil {s} : Leads sem reset s [] s
  | snoc {s s' e events} (h : Leads sem reset s events s') (he : e.Of sem reset)
      (hbefore : e.before = s') : Leads sem reset s (events ++ [e]) e.after

/-- A history with one more event splits where it did before, or at that event. -/
theorem split_snoc {α : Type} {past rest all : List α} {e last : α}
    (h : past ++ e :: rest = all ++ [last]) :
    (∃ front, all = past ++ e :: front) ∨ (past = all ∧ e = last) := by
  rcases List.eq_nil_or_concat rest with rfl | ⟨front, last', rfl⟩
  · obtain ⟨rfl, heq⟩ := List.append_inj' h rfl
    exact .inr ⟨rfl, List.singleton_inj.mp heq⟩
  · have hfront : (past ++ e :: front) ++ [last'] = all ++ [last] := by
      simpa using h
    exact .inl ⟨front, (List.append_inj' hfront rfl).1.symm⟩

/-- Every event of a history is a step from a state the events before it lead to. -/
theorem Leads.split {sem : Sem Op Ret E S} {reset : S → S → Prop} {s s' : S}
    {past rest : List (Event T Op Ret E S)} {e : Event T Op Ret E S}
    (h : Leads sem reset s (past ++ e :: rest) s') :
    Leads sem reset s past e.before ∧ e.Of sem reset := by
  generalize hall : past ++ e :: rest = all at h
  induction h generalizing rest with
  | nil => simp at hall
  | @snoc s' e' events h he hbefore ih =>
      rcases split_snoc hall with ⟨front, hfront⟩ | ⟨rfl, rfl⟩
      · exact ih hfront.symm
      · subst hbefore
        exact ⟨h, he⟩

/-- ... and the events after it lead on from where it ended. -/
theorem Leads.rest {sem : Sem Op Ret E S} {reset : S → S → Prop} {s s' : S}
    {past rest : List (Event T Op Ret E S)} {e : Event T Op Ret E S}
    (h : Leads sem reset s (past ++ e :: rest) s') : Leads sem reset e.after rest s' := by
  generalize hall : past ++ e :: rest = all at h
  induction h generalizing rest with
  | nil => simp at hall
  | @snoc s' e' events h he hbefore ih =>
      rcases split_snoc hall with ⟨front, rfl⟩ | ⟨rfl, rfl⟩
      · have hrest : rest = front ++ [e'] := by simpa using hall
        subst hrest
        exact .snoc (ih rfl) he hbefore
      · have hrest : rest = [] := by simpa using hall
        subst hrest
        exact .nil

/-- What no event destroys holds at the end. -/
theorem Leads.invariant {sem : Sem Op Ret E S} {reset : S → S → Prop} {s s' : S}
    {events : List (Event T Op Ret E S)} (h : Leads sem reset s events s') (inv : S → Prop)
    (hs : inv s) (hstep : ∀ e ∈ events, e.Of sem reset → inv e.before → inv e.after) :
    inv s' := by
  induction h with
  | nil => exact hs
  | snoc h he hbefore ih =>
      have hinv := ih fun e hmem => hstep e (List.mem_append_left _ hmem)
      subst hbefore
      exact hstep _ (by simp) he hinv

/-- ... also when a step may use what held before every earlier event. -/
theorem Leads.invariant_past {sem : Sem Op Ret E S} {reset : S → S → Prop} {s s' : S}
    {events : List (Event T Op Ret E S)} (h : Leads sem reset s events s') (inv : S → Prop)
    (hs : inv s) (hstep : ∀ past e rest, events = past ++ e :: rest →
      (∀ e' ∈ past, inv e'.before) → e.Of sem reset → inv e.before → inv e.after) :
    (∀ e ∈ events, inv e.before ∧ inv e.after) ∧ inv s' := by
  induction h with
  | nil => exact ⟨fun e hmem => absurd hmem List.not_mem_nil, hs⟩
  | @snoc s' e events h he hbefore ih =>
      obtain ⟨hall, hs'⟩ := ih fun past e' rest heq =>
        hstep past e' (rest ++ [e]) (by rw [heq, List.append_assoc]; rfl)
      subst hbefore
      have hafter := hstep events e [] rfl (fun e' hmem => (hall e' hmem).1) he hs'
      refine ⟨fun e' hmem => ?_, hafter⟩
      rcases List.mem_append.mp hmem with hmem | hmem
      · exact hall e' hmem
      · rw [List.mem_singleton.mp hmem]
        exact ⟨hs', hafter⟩

/-- Every request of a history was made under its precondition. -/
def Lawful (sem : Sem Op Ret E S) (inv : Past T Op Ret E S → Prop)
    (pre : T → Op → Past T Op Ret E S → Prop) (h : List (Event T Op Ret E S)) : Prop :=
  ∀ past rest t o before r after, h = past ++ .request t o before r after :: rest →
    inv (before, past) ∧ pre t o (before, past) ∧ sem o before r after

/-- The invariant of a pool that keeps its history, with what it says about every
request made so far. -/
theorem lawful {sem : Sem Op Ret E S} {entry : T → Prog Op Ret E Unit → Prop}
    {reset : S → S → Prop} {le : T → Past T Op Ret E S → Past T Op Ret E S → Prop}
    {inv : Past T Op Ret E S → Prop} {pre : T → Op → Past T Op Ret E S → Prop}
    (htrans : ∀ t a b c, le t a b → le t b c → le t a c) (hrefl : ∀ t s, le t s s)
    (hstep : ∀ t o s r s', inv s → pre t o s → traced sem t o s r s' →
      inv s' ∧ ∀ t', t' ≠ t → le t' s s')
    (hentry : ∀ t p, entry t p → ∀ s, inv s →
      wpi (traced sem t) (le t) inv (pre t) p (fun _ _ => True) s)
    (hreset : ∀ s s', inv s → tracedReset reset s s' → inv s')
    {s₀ : S} {c : Config T Op Ret E (Past T Op Ret E S)} (h₀ : inv (s₀, []))
    (h : Reach (traced sem) entry (tracedReset reset) ((s₀, []), []) c) :
    inv c.1 ∧ Lawful sem inv pre c.1.2 := by
  have hstart : Lawful sem inv pre ([] : List (Event T Op Ret E S)) := by
    intro past rest t o before r after hnil
    simp at hnil
  let both : Past T Op Ret E S → Prop := fun s => inv s ∧ Lawful sem inv pre s.2
  have hboth : both (s₀, []) := ⟨h₀, hstart⟩
  have hsafe : ∀ t p, entry t p → ∀ s, both s →
      wpi (traced sem t) (le t) both (pre t) p (fun _ _ => True) s :=
    fun t p hp s hs => wpi_of_inv (fun _ hs' => hs'.1) (hentry t p hp s hs.1)
  refine (invariant htrans hrefl ?_ hsafe ?_ hboth h).1
  · rintro t o s r s' ⟨hinv, hlawful⟩ hpre hsem
    obtain ⟨hinv', hle⟩ := hstep t o s r s' hinv hpre hsem
    refine ⟨⟨hinv', ?_⟩, hle⟩
    intro past rest t' o' before r' after heq
    rw [hsem.2] at heq
    rcases split_snoc heq.symm with ⟨front, hfront⟩ | ⟨rfl, hlast⟩
    · exact hlawful past front t' o' before r' after hfront
    · cases hlast
      exact ⟨hinv, hpre, hsem.1⟩
  · rintro s s' ⟨hinv, hlawful⟩ hr
    refine ⟨hreset s s' hinv hr, ?_⟩
    intro past rest t o before r after heq
    rw [hr.2] at heq
    rcases split_snoc heq.symm with ⟨front, hfront⟩ | ⟨-, hlast⟩
    · exact hlawful past front t o before r after hfront
    · cases hlast

/-- The history of a run leads to the state it reached. -/
theorem leads_of_reach {sem : Sem Op Ret E S} {reset : S → S → Prop}
    {entry : T → Prog Op Ret E Unit → Prop} {s₀ : S} {c : Config T Op Ret E (Past T Op Ret E S)}
    (h : Reach (traced sem) entry (tracedReset reset) ((s₀, []), []) c) :
    Leads sem reset s₀ c.1.2 c.1.1 := by
  induction h with
  | refl => exact .nil
  | tail _ hs ih =>
      cases hs with
      | spawn => exact ih
      | @act s s' before after t o k r ho =>
          obtain ⟨hsem, hpast⟩ := ho
          have := Leads.snoc (e := .request t o s.1 r s'.1) ih hsem rfl
          rw [← hpast] at this
          exact this
      | @reset s s' ts hr =>
          obtain ⟨hreset, hpast⟩ := hr
          have := Leads.snoc (e := .reset s.1 s'.1) ih hreset rfl
          rw [← hpast] at this
          exact this

end Pool

/-! ## Execution -/

/-- Execute a program against an executable semantics. -/
def run (exec : (o : Op) → S → Except E (Ret o) × S) :
    Prog Op Ret E α → S → Except E α × S
  | .ret a, s => (.ok a, s)
  | .fail e, s => (.error e, s)
  | .act o k, s => run exec (k (exec o s).1) (exec o s).2

section Run

variable {exec : (o : Op) → S → Except E (Ret o) × S} {s : S}

theorem runs_run (h : ∀ o s, sem o s (exec o s).1 (exec o s).2) (p : Prog Op Ret E α) (s : S) :
    Runs sem p s (run exec p s).1 (run exec p s).2 := by
  induction p generalizing s with
  | ret a => exact .ret
  | fail e => exact .fail
  | act o k ih => exact .act (h o s) (ih _ _)

/-- A semantics that is a function has one run. -/
theorem runs_iff_run (h : ∀ o s r s', sem o s r s' ↔ (r, s') = exec o s)
    {p : Prog Op Ret E α} {r : Except E α} {s s' : S} :
    Runs sem p s r s' ↔ (r, s') = run exec p s := by
  constructor
  · intro hr
    induction hr with
    | ret => rfl
    | fail => rfl
    | @act o k s r s' res s'' ho _ ih =>
        rw [ih]
        have hexec := (h _ _ _ _).mp ho
        simp only [run, ← hexec]
  · intro hr
    have := runs_run (fun o s => (h o s _ _).mpr rfl) p s
    rwa [← hr] at this

@[simp] theorem run_pure {a : α} :
    run exec (pure a : Prog Op Ret E α) s = (.ok a, s) := rfl

@[simp] theorem run_throw {e : E} :
    run exec (throw e : Prog Op Ret E α) s = (.error e, s) := rfl

@[simp] theorem run_ofExcept {r : Except E α} : run exec (ofExcept r) s = (r, s) := by
  cases r <;> rfl

@[simp] theorem run_perform {o : Op} : run exec (perform o) s = exec o s :=
  run_ofExcept

theorem run_bind {p : Prog Op Ret E α} {f : α → Prog Op Ret E β} :
    run exec (p >>= f) s = match run exec p s with
      | (.ok a, s') => run exec (f a) s'
      | (.error e, s') => (.error e, s') := by
  show run exec (p.bind f) s = _
  induction p generalizing s with
  | ret a => rfl
  | fail e => rfl
  | act o k ih => exact ih _

theorem run_tryCatch {p : Prog Op Ret E α} {h : E → Prog Op Ret E α} :
    run exec (tryCatch p h) s = match run exec p s with
      | (.ok a, s') => (.ok a, s')
      | (.error e, s') => run exec (h e) s' := by
  show run exec (p.tryCatch h) s = _
  induction p generalizing s with
  | ret a => rfl
  | fail e => rfl
  | act o k ih => exact ih _

theorem run_bind_ok {p : Prog Op Ret E α} {f : α → Prog Op Ret E β} {a : α} {s' : S}
    (h : run exec p s = (.ok a, s')) : run exec (p >>= f) s = run exec (f a) s' := by
  rw [run_bind, h]

theorem run_bind_error {p : Prog Op Ret E α} {f : α → Prog Op Ret E β} {e : E} {s' : S}
    (h : run exec p s = (.error e, s')) : run exec (p >>= f) s = (.error e, s') := by
  rw [run_bind, h]

theorem run_tryCatch_ok {p : Prog Op Ret E α} {f : E → Prog Op Ret E α} {a : α} {s' : S}
    (h : run exec p s = (.ok a, s')) : run exec (tryCatch p f) s = (.ok a, s') := by
  rw [run_tryCatch, h]

theorem run_tryCatch_error {p : Prog Op Ret E α} {f : E → Prog Op Ret E α} {e : E} {s' : S}
    (h : run exec p s = (.error e, s')) :
    run exec (tryCatch p f) s = run exec (f e) s' := by
  rw [run_tryCatch, h]

/-- A program among more effects runs as their part for it says. -/
theorem run_embed {Op' : Type} {Ret' : Op' → Type} {ι : Op → Op'}
    {back : ∀ o, Except E (Ret' (ι o)) → Except E (Ret o)}
    {exec : (o : Op') → S → Except E (Ret' o) × S} {p : Prog Op Ret E α} :
    run exec (embed ι back p) s =
      run (fun o s => (back o (exec (ι o) s).1, (exec (ι o) s).2)) p s := by
  induction p generalizing s with
  | ret a => rfl
  | fail e => rfl
  | act o k ih => exact ih _

/-- A program whose effects touch one part of the state only. -/
theorem run_within {W : Type} (get : S → W) (set : S → W → S)
    (inner : (o : Op) → W → Except E (Ret o) × W) (hget : ∀ s w, get (set s w) = w)
    (hset : ∀ s, set s (get s) = s) (hsets : ∀ s w w', set (set s w) w' = set s w')
    (hexec : ∀ o s, exec o s = ((inner o (get s)).1, set s (inner o (get s)).2))
    {p : Prog Op Ret E α} :
    run exec p s = ((run inner p (get s)).1, set s (run inner p (get s)).2) := by
  induction p generalizing s with
  | ret a => exact Prod.ext rfl (hset s).symm
  | fail e => exact Prod.ext rfl (hset s).symm
  | act o k ih =>
      show run exec (k (exec o s).1) (exec o s).2 = _
      rw [hexec, ih, hget, hsets]
      rfl

@[simp] theorem run_attempt {p : Prog Op Ret E α} :
    run exec p.attempt s = (.ok (run exec p s).1, (run exec p s).2) := by
  induction p generalizing s with
  | ret a => rfl
  | fail e => rfl
  | act o k ih => exact ih _

/-! ### Executed pools -/

namespace Pool

variable {T : Type} {sem : T → Sem Op Ret E S} {entry : T → Prog Op Ret E Unit → Prop}
variable {reset : S → S → Prop}

/-- Execute and write the history. -/
def tracing (exec : (o : Op) → S → Except E (Ret o) × S) (t : T) (o : Op)
    (s : Past T Op Ret E S) : Except E (Ret o) × Past T Op Ret E S :=
  ((exec o s.1).1, (exec o s.1).2, s.2 ++ [.request t o s.1 (exec o s.1).1 (exec o s.1).2])

theorem traced_tracing {sem : Sem Op Ret E S} {exec : (o : Op) → S → Except E (Ret o) × S}
    (h : ∀ o s, sem o s (exec o s).1 (exec o s).2) (t : T) (o : Op) (s : Past T Op Ret E S) :
    traced sem t o s (tracing exec t o s).1 (tracing exec t o s).2 :=
  ⟨h o s.1, rfl⟩

/-- A task can do its part while the others wait. -/
theorem reach_of_runs {t : T} {p : Prog Op Ret E Unit} {s s' : S} {r : Except E Unit}
    {others : List (T × Prog Op Ret E Unit)} (h : Runs (sem t) p s r s') :
    Reach sem entry reset (s, (t, p) :: others) (s', (t, ofExcept r) :: others) := by
  induction h with
  | ret => exact .refl
  | fail => exact .refl
  | @act o k s r s₁ _ _ ho _ ih =>
      have hstep : Step sem entry reset (s, [] ++ (t, .act o k) :: others)
          (s₁, [] ++ (t, k r) :: others) := .act ho
      exact .head hstep ih

/-- A pool that executes one task from its start to its end. -/
theorem reach_of_run {exec : (o : Op) → S → Except E (Ret o) × S} {t : T}
    (h : ∀ o s, sem t o s (exec o s).1 (exec o s).2) {p : Prog Op Ret E Unit}
    (hentry : entry t p) (s : S) :
    Reach sem entry reset (s, []) ((run exec p s).2, [(t, ofExcept (run exec p s).1)]) :=
  .head (.spawn hentry fun task hmem => by cases hmem) (reach_of_runs (runs_run h p s))

/-! ### Schedules -/

/-- What happens next in a pool. -/
inductive Move (T Op : Type) (Ret : Op → Type) (E : Type) where
  | spawn (t : T) (p : Prog Op Ret E Unit)
  | act (t : T)
  | reset

section Schedules

variable [DecidableEq T]

/-- The task makes its next effect. -/
def turn (exec : T → (o : Op) → S → Except E (Ret o) × S) (t : T) (s : S) :
    List (T × Prog Op Ret E Unit) → S × List (T × Prog Op Ret E Unit)
  | [] => (s, [])
  | (t', p) :: ts =>
      if t' = t then
        match p with
        | .act o k => ((exec t' o s).2, (t', k (exec t' o s).1) :: ts)
        | .ret a => (s, (t', .ret a) :: ts)
        | .fail e => (s, (t', .fail e) :: ts)
      else ((turn exec t s ts).1, (t', p) :: (turn exec t s ts).2)

/-- Play a schedule. A name that is taken does not start again. -/
def play (exec : T → (o : Op) → S → Except E (Ret o) × S) (restart : S → S) :
    List (Move T Op Ret E) → Config T Op Ret E S → Config T Op Ret E S
  | [], c => c
  | .spawn t p :: moves, c =>
      play exec restart moves (if c.2.any (·.1 = t) then c else (c.1, (t, p) :: c.2))
  | .act t :: moves, c => play exec restart moves (turn exec t c.1 c.2)
  | .reset :: moves, c => play exec restart moves (restart c.1, [])

variable {exec : T → (o : Op) → S → Except E (Ret o) × S} {restart : S → S}

theorem reach_turn (hexec : ∀ t o s, sem t o s (exec t o s).1 (exec t o s).2) (t : T) (s : S)
    (before ts : List (T × Prog Op Ret E Unit)) :
    Reach sem entry reset (s, before ++ ts)
      ((turn exec t s ts).1, before ++ (turn exec t s ts).2) := by
  induction ts generalizing before with
  | nil => exact .refl
  | cons task ts ih =>
      obtain ⟨t', p⟩ := task
      unfold turn
      split
      · cases p with
        | ret a => exact .refl
        | fail e => exact .refl
        | act o k => exact .single (.act (hexec t' o s))
      · have hrest := ih (before ++ [(t', p)])
        simpa using hrest

/-- A schedule that starts only what may start plays a run of the pool. -/
theorem reach_play (hexec : ∀ t o s, sem t o s (exec t o s).1 (exec t o s).2)
    (hrestart : ∀ s, reset s (restart s)) {moves : List (Move T Op Ret E)}
    (hentry : ∀ t p, .spawn t p ∈ moves → entry t p) (c : Config T Op Ret E S) :
    Reach sem entry reset c (play exec restart moves c) := by
  induction moves generalizing c with
  | nil => exact .refl
  | cons move moves ih =>
      have ih := ih fun t p hmem => hentry t p (List.mem_cons_of_mem _ hmem)
      cases move with
      | act t => exact (reach_turn hexec t c.1 [] c.2).trans (ih _)
      | reset => exact .head (.reset (hrestart c.1)) (ih _)
      | spawn t p =>
          unfold play
          split
          · exact ih c
          · rename_i hnew
            refine .head (.spawn (hentry t p List.mem_cons_self) fun task hmem => ?_) (ih _)
            simp only [List.any_eq_true, decide_eq_true_eq, not_exists, not_and] at hnew
            exact hnew task hmem

end Schedules

end Pool

end Run

end Prog
