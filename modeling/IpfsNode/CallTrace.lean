import IpfsNode.Prog

/-!
# The calls of a program

`Trace answers p calls result`: `p` makes these calls, in this order and with
these answers, and ends in `result`. What a call may be answered is all that is
said of the rest of the world, so a fact about every trace holds whatever runs
beside the program. The traces of a sequence are those of its parts, put end to
end. `Obeys` is the weakest precondition over the calls made so far: where each
call may stand, and what the calls say of the result.
-/

namespace Prog

variable {Op : Type} {Ret : Op → Type} {E α β : Type}

/-- An effect with its answer. -/
abbrev Call (Op : Type) (Ret : Op → Type) (E : Type) := (o : Op) × Except E (Ret o)

inductive Trace (answers : (o : Op) → Except E (Ret o) → Prop) :
    Prog Op Ret E α → List (Call Op Ret E) → Except E α → Prop
  | ret {a} : Trace answers (.ret a) [] (.ok a)
  | fail {e} : Trace answers (.fail e) [] (.error e)
  | act {o k r calls result} (h : answers o r) (hk : Trace answers (k r) calls result) :
      Trace answers (.act o k) (⟨o, r⟩ :: calls) result

/-- What a sequence makes of the end of its first part. -/
def Continues (answers : (o : Op) → Except E (Ret o) → Prop) (f : α → Prog Op Ret E β)
    (calls : List (Call Op Ret E)) (result : Except E β) : Except E α → Prop
  | .ok a => Trace answers (f a) calls result
  | .error e => calls = [] ∧ result = .error e

@[simp] theorem continues_ok {answers : (o : Op) → Except E (Ret o) → Prop}
    {f : α → Prog Op Ret E β} {calls : List (Call Op Ret E)} {result : Except E β} {a : α} :
    Continues answers f calls result (.ok a) ↔ Trace answers (f a) calls result := Iff.rfl

@[simp] theorem continues_error {answers : (o : Op) → Except E (Ret o) → Prop}
    {f : α → Prog Op Ret E β} {calls : List (Call Op Ret E)} {result : Except E β} {e : E} :
    Continues answers f calls result (.error e) ↔ calls = [] ∧ result = .error e := Iff.rfl

section Rules

variable {answers : (o : Op) → Except E (Ret o) → Prop}
variable {calls : List (Call Op Ret E)}

theorem trace_pure {a : α} {result : Except E α} :
    Trace answers (pure a : Prog Op Ret E α) calls result ↔ calls = [] ∧ result = .ok a := by
  constructor
  · rintro ⟨⟩
    exact ⟨rfl, rfl⟩
  · rintro ⟨rfl, rfl⟩
    exact .ret

theorem trace_throw {e : E} {result : Except E α} :
    Trace answers (throw e : Prog Op Ret E α) calls result ↔ calls = [] ∧ result = .error e := by
  constructor
  · rintro ⟨⟩
    exact ⟨rfl, rfl⟩
  · rintro ⟨rfl, rfl⟩
    exact .fail

theorem trace_ofExcept {r result : Except E α} :
    Trace answers (ofExcept r : Prog Op Ret E α) calls result ↔ calls = [] ∧ result = r := by
  cases r with
  | ok a => exact trace_pure
  | error e => exact trace_throw

theorem trace_perform {o : Op} {result : Except E (Ret o)} :
    Trace answers (perform o) calls result ↔ answers o result ∧ calls = [⟨o, result⟩] := by
  constructor
  · rintro (_ | _ | ⟨h, hk⟩)
    obtain ⟨rfl, rfl⟩ := trace_ofExcept.mp hk
    exact ⟨h, rfl⟩
  · rintro ⟨h, rfl⟩
    exact .act h (trace_ofExcept.mpr ⟨rfl, rfl⟩)

theorem trace_bind {p : Prog Op Ret E α} {f : α → Prog Op Ret E β} {result : Except E β} :
    Trace answers (p >>= f) calls result ↔ ∃ first rest r, calls = first ++ rest ∧
      Trace answers p first r ∧ Continues answers f rest result r := by
  show Trace answers (p.bind f) calls result ↔ _
  induction p generalizing calls with
  | ret a =>
      constructor
      · exact fun h => ⟨[], calls, _, rfl, .ret, h⟩
      · rintro ⟨_, _, _, rfl, ⟨⟩, h⟩
        exact h
  | fail e =>
      constructor
      · rintro ⟨⟩
        exact ⟨[], [], _, rfl, .fail, rfl, rfl⟩
      · rintro ⟨_, _, _, rfl, ⟨⟩, rfl, rfl⟩
        exact .fail
  | act o k ih =>
      constructor
      · rintro (_ | _ | ⟨ho, hk⟩)
        obtain ⟨first, rest, r, rfl, hfirst, hrest⟩ := (ih _).mp hk
        exact ⟨_ :: first, rest, r, rfl, .act ho hfirst, hrest⟩
      · rintro ⟨_, rest, r, rfl, _ | _ | ⟨ho, hk⟩, hrest⟩
        exact .act ho ((ih _).mpr ⟨_, rest, r, rfl, hk, hrest⟩)

theorem trace_attempt {p : Prog Op Ret E α} {result : Except E (Except E α)} :
    Trace answers p.attempt calls result ↔ ∃ r, result = .ok r ∧ Trace answers p calls r := by
  induction p generalizing calls with
  | ret a =>
      constructor
      · rintro ⟨⟩
        exact ⟨_, rfl, .ret⟩
      · rintro ⟨_, rfl, ⟨⟩⟩
        exact .ret
  | fail e =>
      constructor
      · rintro ⟨⟩
        exact ⟨_, rfl, .fail⟩
      · rintro ⟨_, rfl, ⟨⟩⟩
        exact .ret
  | act o k ih =>
      constructor
      · rintro (_ | _ | ⟨ho, hk⟩)
        obtain ⟨r, rfl, hr⟩ := (ih _).mp hk
        exact ⟨r, rfl, .act ho hr⟩
      · rintro ⟨r, rfl, _ | _ | ⟨ho, hk⟩⟩
        exact .act ho ((ih _).mpr ⟨r, rfl, hk⟩)

theorem trace_tryCatch {p : Prog Op Ret E α} {handler : E → Prog Op Ret E α}
    {result : Except E α} :
    Trace answers (tryCatch p handler) calls result ↔
      ∃ first rest r, calls = first ++ rest ∧ Trace answers p first r ∧
        match r with
        | .ok a => rest = [] ∧ result = .ok a
        | .error e => Trace answers (handler e) rest result := by
  show Trace answers (p.tryCatch handler) calls result ↔ _
  induction p generalizing calls with
  | ret a =>
      constructor
      · rintro ⟨⟩
        exact ⟨[], [], _, rfl, .ret, rfl, rfl⟩
      · rintro ⟨_, _, _, rfl, ⟨⟩, rfl, rfl⟩
        exact .ret
  | fail e =>
      constructor
      · exact fun h => ⟨[], calls, _, rfl, .fail, h⟩
      · rintro ⟨_, _, _, rfl, ⟨⟩, h⟩
        exact h
  | act o k ih =>
      constructor
      · rintro (_ | _ | ⟨ho, hk⟩)
        obtain ⟨first, rest, r, rfl, hfirst, hrest⟩ := (ih _).mp hk
        exact ⟨_ :: first, rest, r, rfl, .act ho hfirst, hrest⟩
      · rintro ⟨_, rest, r, rfl, _ | _ | ⟨ho, hk⟩, hrest⟩
        exact .act ho ((ih _).mpr ⟨_, rest, r, rfl, hk, hrest⟩)

/-- A sequence that returned. -/
theorem trace_bind_ok {p : Prog Op Ret E α} {f : α → Prog Op Ret E β} {b : β}
    (h : Trace answers (p >>= f) calls (.ok b)) :
    ∃ first rest a, calls = first ++ rest ∧ Trace answers p first (.ok a) ∧
      Trace answers (f a) rest (.ok b) := by
  obtain ⟨first, rest, r, hcalls, hfirst, hrest⟩ := trace_bind.mp h
  cases r with
  | ok a => exact ⟨first, rest, a, hcalls, hfirst, hrest⟩
  | error e => cases hrest.2

theorem trace_perform_bind_ok {o : Op} {f : Ret o → Prog Op Ret E β} {b : β}
    (h : Trace answers (perform o >>= f) calls (.ok b)) :
    ∃ a rest, calls = ⟨o, .ok a⟩ :: rest ∧ answers o (.ok a) ∧
      Trace answers (f a) rest (.ok b) := by
  obtain ⟨first, rest, a, rfl, hfirst, hrest⟩ := trace_bind_ok h
  obtain ⟨ho, rfl⟩ := trace_perform.mp hfirst
  exact ⟨a, rest, rfl, ho, hrest⟩

/-- Every call is one the program requests. -/
theorem Trace.requests {φ : Op → Prop} {p : Prog Op Ret E α} {result : Except E α}
    (h : Trace answers p calls result) (hp : Requests φ p) : ∀ call ∈ calls, φ call.1 := by
  induction h with
  | ret | fail => exact fun _ hmem => absurd hmem List.not_mem_nil
  | act _ _ ih =>
      intro call hmem
      rcases List.mem_cons.mp hmem with rfl | hmem
      · exact hp.1
      · exact ih (hp.2 _) call hmem

end Rules

/-! ## Execution -/

/-- The calls of a program that are answered so, and its result. -/
def answering (exec : (o : Op) → Except E (Ret o)) :
    Prog Op Ret E α → List (Call Op Ret E) × Except E α
  | .ret a => ([], .ok a)
  | .fail e => ([], .error e)
  | .act o k => (⟨o, exec o⟩ :: (answering exec (k (exec o))).1, (answering exec (k (exec o))).2)

theorem trace_answering {answers : (o : Op) → Except E (Ret o) → Prop}
    {exec : (o : Op) → Except E (Ret o)} {p : Prog Op Ret E α}
    (h : ∀ call ∈ (answering exec p).1, answers call.1 (exec call.1)) :
    Trace answers p (answering exec p).1 (answering exec p).2 := by
  induction p with
  | ret a => exact .ret
  | fail e => exact .fail
  | act o k ih =>
      exact .act (h _ (.head _)) (ih (exec o) fun call hmem => h call (.tail _ hmem))

/-! ## Order -/

/-- The calls so far, as a state. -/
def logging : Sem Op Ret E (List (Call Op Ret E)) :=
  fun o past r past' => past' = past ++ [⟨o, r⟩]

/-- The program makes each call where the rule allows it, and ends as `Q` says of all
calls made by then. -/
def Obeys (rule : Op → List (Call Op Ret E) → Prop) (p : Prog Op Ret E α)
    (Q : Except E α → List (Call Op Ret E) → Prop) (past : List (Call Op Ret E)) : Prop :=
  wpi logging Eq (fun _ => True) rule p Q past

section Obeys

variable {rule : Op → List (Call Op Ret E) → Prop} {past : List (Call Op Ret E)}
variable {Q Q' : Except E α → List (Call Op Ret E) → Prop}

theorem obeys_pure {a : α} (h : Q (.ok a) past) : Obeys rule (pure a) Q past := h

theorem obeys_throw {e : E} (h : Q (.error e) past) : Obeys rule (throw e) Q past := h

theorem obeys_perform {o : Op} {Q : Except E (Ret o) → List (Call Op Ret E) → Prop}
    (ho : rule o past) (h : ∀ r, Q r (past ++ [⟨o, r⟩])) : Obeys rule (perform o) Q past := by
  refine wpi_perform.mpr fun s hs _ => ?_
  subst hs
  exact ⟨ho, fun r s' hs' => hs' ▸ h r⟩

theorem obeys_bind {p : Prog Op Ret E α} {f : α → Prog Op Ret E β}
    {Q : Except E β → List (Call Op Ret E) → Prop}
    (h : Obeys rule p (thenPost (fun a => Obeys rule (f a) Q) Q) past) :
    Obeys rule (p >>= f) Q past := wpi_bind.mpr h

theorem obeys_perform_bind {o : Op} {f : Ret o → Prog Op Ret E β}
    {Q : Except E β → List (Call Op Ret E) → Prop} (ho : rule o past)
    (herr : ∀ e, Q (.error e) (past ++ [⟨o, .error e⟩]))
    (hok : ∀ a, Obeys rule (f a) Q (past ++ [⟨o, .ok a⟩])) :
    Obeys rule (perform o >>= f) Q past := by
  refine obeys_bind (obeys_perform ho fun r => ?_)
  cases r with
  | ok a => exact hok a
  | error e => exact herr e

theorem obeys_tryCatch {p : Prog Op Ret E α} {handler : E → Prog Op Ret E α}
    (h : Obeys rule p (catchPost (fun e => Obeys rule (handler e) Q) Q) past) :
    Obeys rule (tryCatch p handler) Q past := wpi_tryCatch.mpr h

theorem Obeys.mono {p : Prog Op Ret E α} (h : Obeys rule p Q past)
    (hQ : ∀ r past', Q r past' → Q' r past') : Obeys rule p Q' past := wpi_mono hQ h

/-- What is known of a trace of such a program. -/
theorem Trace.obeys {answers : (o : Op) → Except E (Ret o) → Prop} {p : Prog Op Ret E α}
    {calls : List (Call Op Ret E)} {result : Except E α} (h : Trace answers p calls result)
    (hp : Obeys rule p Q past) :
    (∀ front call back, calls = front ++ call :: back → rule call.1 (past ++ front)) ∧
      Q result (past ++ calls) := by
  induction h generalizing past with
  | ret | fail =>
      rw [List.append_nil]
      exact ⟨fun front call back h => by simp at h, hp⟩
  | @act o k r calls result _ _ ih =>
      obtain ⟨ho, hk⟩ := hp past rfl trivial
      have hnext : logging o past r (past ++ [⟨o, r⟩]) := rfl
      obtain ⟨hrule, hend⟩ := ih (hk r _ hnext)
      rw [List.append_assoc, List.singleton_append] at hend
      refine ⟨fun front call back hcalls => ?_, hend⟩
      cases front with
      | nil =>
          cases hcalls
          rwa [List.append_nil]
      | cons first front =>
          obtain ⟨rfl, rfl⟩ := List.cons.inj hcalls
          have hcall := hrule front call back rfl
          rwa [List.append_assoc, List.singleton_append] at hcall

end Obeys

/-! ## Giving back -/

/-- `try p finally o`: `o` is performed at the end of `p`, which then ends as it did. -/
def finally_ (p : Prog Op Ret E α) (o : Op) : Prog Op Ret E α := do
  let result ← p.attempt
  let _ ← perform o
  ofExcept result

/-- Where the last effect cannot fail, it is the last, whatever came before. -/
theorem trace_finally {answers : (o : Op) → Except E (Ret o) → Prop} {p : Prog Op Ret E α}
    {o : Op} {calls : List (Call Op Ret E)} {result : Except E α}
    (hserved : ∀ r, answers o r → ∃ a, r = .ok a) (h : Trace answers (finally_ p o) calls result) :
    ∃ first a, calls = first ++ [⟨o, .ok a⟩] ∧ Trace answers p first result := by
  obtain ⟨first, rest, r, rfl, hfirst, hrest⟩ := trace_bind.mp h
  obtain ⟨r, rfl, hp⟩ := trace_attempt.mp hfirst
  obtain ⟨last, none_, r', rfl, hlast, hnone⟩ := trace_bind.mp hrest
  obtain ⟨ho, rfl⟩ := trace_perform.mp hlast
  obtain ⟨a, rfl⟩ := hserved r' ho
  obtain ⟨rfl, rfl⟩ := trace_ofExcept.mp hnone
  exact ⟨first, a, rfl, hp⟩

end Prog
