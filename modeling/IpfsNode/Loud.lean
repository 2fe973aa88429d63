import IpfsNode.Prog

/-!
# Failures that are not hidden

A program is loud about some answers when it fails after each of them, whatever
follows. The rules go by the shape of the program, and a run with such an answer
in its history ends in an error (`Loud.error_of_event`).
-/

namespace Prog

variable {Op : Type} {Ret : Op → Type} {E α β S : Type}

/-- No answer makes the program return. -/
def Rejects : Prog Op Ret E α → Prop
  | .ret _ => False
  | .fail _ => True
  | .act _ k => ∀ r, Rejects (k r)

/-- After a bad answer the program does not return. -/
def Loud (bad : (o : Op) → Except E (Ret o) → Prop) : Prog Op Ret E α → Prop
  | .ret _ => True
  | .fail _ => True
  | .act o k => ∀ r, Loud bad (k r) ∧ (bad o r → Rejects (k r))

section Rejects

theorem Rejects.bind_left {p : Prog Op Ret E α} (hp : Rejects p) (f : α → Prog Op Ret E β) :
    Rejects (p >>= f) := by
  show Rejects (p.bind f)
  induction p with
  | ret a => exact hp.elim
  | fail e => trivial
  | act o k ih => exact fun r => ih r (hp r)

theorem Rejects.bind {p : Prog Op Ret E α} {f : α → Prog Op Ret E β}
    (hf : ∀ a, Rejects (f a)) : Rejects (p >>= f) := by
  show Rejects (p.bind f)
  induction p with
  | ret a => exact hf a
  | fail e => trivial
  | act o k ih => exact fun r => ih r

theorem Rejects.tryCatch {p : Prog Op Ret E α} {h : E → Prog Op Ret E α} (hp : Rejects p)
    (hh : ∀ e, Rejects (h e)) : Rejects (tryCatch p h) := by
  show Rejects (p.tryCatch h)
  induction p with
  | ret a => exact hp.elim
  | fail e => exact hh e
  | act o k ih => exact fun r => ih r (hp r)

theorem Rejects.error {sem : Sem Op Ret E S} {p : Prog Op Ret E α} (hp : Rejects p)
    {s s' : S} {r : Except E α} (h : Runs sem p s r s') : ∃ e, r = .error e := by
  induction h with
  | ret => exact hp.elim
  | fail => exact ⟨_, rfl⟩
  | act _ _ ih => exact ih (hp _)

end Rejects

section Loud

variable {bad : (o : Op) → Except E (Ret o) → Prop}

theorem Loud.pure (a : α) : Loud bad (pure a : Prog Op Ret E α) := trivial

theorem Loud.throw (e : E) : Loud bad (throw e : Prog Op Ret E α) := trivial

/-- A request passes its answer on, so it is loud when bad answers are errors. -/
theorem Loud.perform {o : Op} (h : ∀ r, bad o r → ∃ e, r = .error e) :
    Loud bad (perform o : Prog Op Ret E (Ret o)) := by
  intro r
  cases r with
  | ok a => exact ⟨trivial, fun hbad => nomatch h _ hbad⟩
  | error e => exact ⟨trivial, fun _ => trivial⟩

/-- A program that is never answered badly is loud. -/
theorem Loud.of_requests {p : Prog Op Ret E α} (h : p.Requests fun o => ∀ r, ¬bad o r) :
    Loud bad p := by
  induction p with
  | ret a => trivial
  | fail e => trivial
  | act o k ih => exact fun r => ⟨ih r (h.2 r), fun hbad => absurd hbad (h.1 r)⟩

theorem Loud.bind {p : Prog Op Ret E α} {f : α → Prog Op Ret E β} (hp : Loud bad p)
    (hf : ∀ a, Loud bad (f a)) : Loud bad (p >>= f) := by
  show Loud bad (p.bind f)
  induction p with
  | ret a => exact hf a
  | fail e => trivial
  | act o k ih =>
      exact fun r => ⟨ih r (hp r).1, fun hbad => ((hp r).2 hbad).bind_left f⟩

/-- A handler that always fails hides nothing. -/
theorem Loud.tryCatch {p : Prog Op Ret E α} {h : E → Prog Op Ret E α} (hp : Loud bad p)
    (hh : ∀ e, Loud bad (h e)) (hrejects : ∀ e, Rejects (h e)) : Loud bad (tryCatch p h) := by
  show Loud bad (p.tryCatch h)
  induction p with
  | ret a => trivial
  | fail e => exact hh e
  | act o k ih =>
      exact fun r => ⟨ih r (hp r).1, fun hbad => ((hp r).2 hbad).tryCatch hrejects⟩

/-- A run that was answered badly ends in an error. -/
theorem Loud.error_of_event {T : Type} {sem : Sem Op Ret E S} {t : T} {p : Prog Op Ret E α}
    (hp : Loud bad p) {s s' : Pool.Past T Op Ret E S} {r : Except E α}
    (h : Runs (Pool.traced sem t) p s r s') :
    ∃ events, s'.2 = s.2 ++ events ∧
      ((∃ o before answer after,
          Pool.Event.request t o before answer after ∈ events ∧ bad o answer) →
        ∃ e, r = .error e) := by
  induction h with
  | ret => exact ⟨[], by simp, by simp⟩
  | fail => exact ⟨[], by simp, fun _ => ⟨_, rfl⟩⟩
  | @act o k s r s' res s'' ho hk ih =>
      obtain ⟨events, hevents, herror⟩ := ih (hp r).1
      refine ⟨.request t o s.1 r s'.1 :: events, ?_, ?_⟩
      · rw [hevents, ho.2, List.append_assoc]
        rfl
      · rintro ⟨o', before, answer, after, hmem, hbad⟩
        rcases List.mem_cons.mp hmem with heq | hmem
        · cases heq
          exact ((hp _).2 hbad).error hk
        · exact herror ⟨o', before, answer, after, hmem, hbad⟩

end Loud

end Prog
