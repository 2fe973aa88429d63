/-!
# Runs of a transition relation

States that a system reaches by labelled steps, each of which meets a condition
on the state it starts from. What one step preserves, every run does.
-/

namespace TransitionSystem

variable {S A : Type}

/-- The states reached by steps that all meet the condition. -/
inductive Run (step : S → A → S → Prop) (ok : S → A → Prop) (s₀ : S) : S → Prop
  | start : Run step ok s₀ s₀
  | next {s s' : S} {a : A} (hrun : Run step ok s₀ s) (hok : ok s a) (hstep : step s a s') :
      Run step ok s₀ s'

/-- Any step is taken. -/
def always : S → A → Prop := fun _ _ => True

variable {step : S → A → S → Prop} {ok ok' : S → A → Prop} {s₀ s : S}

theorem Run.invariant {I : S → Prop} (hrun : Run step ok s₀ s) (h₀ : I s₀)
    (hstep : ∀ s a s', I s → ok s a → step s a s' → I s') : I s := by
  induction hrun with
  | start => exact h₀
  | next _ hok hs ih => exact hstep _ _ _ ih hok hs

theorem Run.mono (hrun : Run step ok s₀ s) (h : ∀ s a, ok s a → ok' s a) :
    Run step ok' s₀ s := by
  induction hrun with
  | start => exact .start
  | next _ hok hs ih => exact .next ih (h _ _ hok) hs

theorem Run.free (hrun : Run step ok s₀ s) : Run step always s₀ s :=
  hrun.mono fun _ _ _ => trivial

end TransitionSystem
