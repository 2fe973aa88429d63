import IpfsNode.Transition
import Mathlib.Data.List.Basic
import Mathlib.Data.Nat.Init

/-!
# The driver of the repair cycle

Startup, schedule, operator and timer share one slot for a pass, one
continuation timer and one budget of failures. A pass reports to the driver by
two reactions that its promise queues when it settles, one right after the
other; other code can call the driver before the first and after the second of
them, but not in between. `driver_runs` says what holds of every state.
-/

namespace IpfsNode

open TransitionSystem

/-! ## The code -/

inductive RepairTrigger where
  | startup
  | schedule
  | continuation
  | manual
deriving DecidableEq, Repr

/-- How a pass ends. -/
inductive PassResult where
  | report (cycleCompleted : Bool)
  | failed
deriving DecidableEq, Repr

structure RepairCycleDriver where
  active : Option Nat
  continuationTimer : Option Nat
  stopped : Bool
  consecutiveFailures : Nat
deriving DecidableEq, Repr

def DEFAULT_MAX_CONSECUTIVE_FAILURES : Nat := 3

/-- The calls of the driver. -/
inductive DriverCall where
  | start
  | triggerSchedule
  | runManual
  | stop
deriving DecidableEq, Repr

/-- What waits to run once the present code has returned. -/
inductive Microtask where
  /-- Other code that calls the driver. -/
  | call (call : DriverCall)
  /-- The two reactions of a pass. -/
  | report (pass : Nat) (result : PassResult)
  | clearActive (pass : Nat)
deriving DecidableEq, Repr

/-- What the last pass that reported left behind. -/
inductive PassEnd where
  | completed
  | incomplete
  | failed (abandoned : Bool)
deriving DecidableEq, Repr

/-- The driver in its event loop. -/
structure DriverLoop where
  driver : RepairCycleDriver
  microtasks : List Microtask
  /-- The timers that are set. -/
  timers : List Nat
  /-- The passes whose promise has not settled. -/
  running : List Nat
  /-- How many passes were started, and timers set. -/
  passes : Nat
  timersSet : Nat
  last : Option PassEnd
  /-- Passes that failed since one succeeded. -/
  failuresInRow : Nat
  /-- Passes that failed since one succeeded or the driver was called. -/
  failuresSinceCall : Nat
deriving DecidableEq, Repr

namespace DriverLoop

def new : DriverLoop where
  driver := { active := none, continuationTimer := none, stopped := true, consecutiveFailures := 0 }
  microtasks := []
  timers := []
  running := []
  passes := 0
  timersSet := 0
  last := none
  failuresInRow := 0
  failuresSinceCall := 0

/-- `clearTimeout` of the continuation, if there is one. -/
def cancelContinuation (l : DriverLoop) : DriverLoop :=
  { l with
    timers := l.timers.filter fun timer => l.driver.continuationTimer ≠ some timer
    driver := { l.driver with continuationTimer := none } }

def scheduleContinuation (l : DriverLoop) : DriverLoop :=
  if l.driver.stopped || l.driver.continuationTimer.isSome then l
  else
    { l with
      timers := l.timers ++ [l.timersSet], timersSet := l.timersSet + 1
      driver := { l.driver with continuationTimer := some l.timersSet } }

/-- Start a pass. Only a continuation inherits the failure budget. -/
def run (l : DriverLoop) (trigger : RepairTrigger) : DriverLoop :=
  { l with
    running := l.running ++ [l.passes], passes := l.passes + 1
    driver := { l.driver with
      active := some l.passes
      consecutiveFailures :=
        if trigger ≠ .continuation then 0 else l.driver.consecutiveFailures } }

def runAutomatic (l : DriverLoop) (trigger : RepairTrigger) : DriverLoop :=
  if l.driver.stopped then l
  else if l.driver.continuationTimer.isSome && trigger ≠ .continuation then l
  else if l.driver.active.isSome then
    if trigger = .continuation then l.scheduleContinuation else l
  else l.run trigger

def start (l : DriverLoop) : DriverLoop :=
  { l with driver := { l.driver with stopped := false, consecutiveFailures := 0 } }.runAutomatic
    .startup

def triggerSchedule (l : DriverLoop) : DriverLoop := l.runAutomatic .schedule

def runManual (l : DriverLoop) : DriverLoop :=
  if l.driver.stopped || l.driver.active.isSome then l else l.run .manual

def stop (l : DriverLoop) : DriverLoop :=
  { l with driver := { l.driver with stopped := true } }.cancelContinuation

def onPassFailed (maxConsecutiveFailures : Nat) (l : DriverLoop) : DriverLoop :=
  let failures := l.driver.consecutiveFailures + 1
  let l := { l with driver := { l.driver with consecutiveFailures := failures } }
  if maxConsecutiveFailures ≤ failures then l.cancelContinuation else l.scheduleContinuation

/-- The first reaction of a pass. -/
def onReport (maxConsecutiveFailures : Nat) (l : DriverLoop) : PassResult → DriverLoop
  | .report cycleCompleted =>
      let l := { l with driver := { l.driver with consecutiveFailures := 0 } }
      if cycleCompleted then l.cancelContinuation else l.scheduleContinuation
  | .failed => l.onPassFailed maxConsecutiveFailures

/-- The second one. -/
def clearActive (l : DriverLoop) (pass : Nat) : DriverLoop :=
  if l.driver.active = some pass then { l with driver := { l.driver with active := none } } else l

def call (l : DriverLoop) : DriverCall → DriverLoop
  | .start => l.start
  | .triggerSchedule => l.triggerSchedule
  | .runManual => l.runManual
  | .stop => l.stop

/-- The timer goes off. -/
def onTimer (l : DriverLoop) : DriverLoop :=
  { l with driver := { l.driver with continuationTimer := none } }.runAutomatic .continuation

/-! ## The event loop -/

/-- What the last pass left behind, and the failures counted since. -/
def recordEnd (maxConsecutiveFailures : Nat) (l : DriverLoop) : PassResult → DriverLoop
  | .report cycleCompleted =>
      { l with
        last := some (if cycleCompleted then .completed else .incomplete)
        failuresInRow := 0, failuresSinceCall := 0 }
  | .failed =>
      { l with
        last := some (.failed (maxConsecutiveFailures ≤ l.driver.consecutiveFailures + 1))
        failuresInRow := l.failuresInRow + 1, failuresSinceCall := l.failuresSinceCall + 1 }

def recordCall (l : DriverLoop) : DriverCall → DriverLoop
  | .stop => l
  | _ => { l with failuresSinceCall := 0 }

/-- Run one microtask. -/
def runMicrotask (maxConsecutiveFailures : Nat) (l : DriverLoop) : Microtask → DriverLoop
  | .call call => (l.recordCall call).call call
  | .report _ result =>
      (l.recordEnd maxConsecutiveFailures result).onReport maxConsecutiveFailures result
  | .clearActive pass => l.clearActive pass

inductive Action where
  /-- Other code queues a call of the driver. -/
  | queue (call : DriverCall)
  | microtask
  /-- The timer and other events come once no microtask is left. -/
  | call (call : DriverCall)
  | timer (timer : Nat)
  | settle (pass : Nat) (result : PassResult)
deriving DecidableEq, Repr

inductive Step (maxConsecutiveFailures : Nat) : DriverLoop → Action → DriverLoop → Prop
  | queue {l : DriverLoop} {call : DriverCall} : Step maxConsecutiveFailures l (.queue call)
      { l with microtasks := l.microtasks ++ [.call call] }
  | microtask {l : DriverLoop} {task : Microtask} {rest : List Microtask}
      (h : l.microtasks = task :: rest) : Step maxConsecutiveFailures l .microtask
      ({ l with microtasks := rest }.runMicrotask maxConsecutiveFailures task)
  | call {l : DriverLoop} {call : DriverCall} (h : l.microtasks = []) :
      Step maxConsecutiveFailures l (.call call) ((l.recordCall call).call call)
  | timer {l : DriverLoop} {timer : Nat} (h : l.microtasks = []) (hmem : timer ∈ l.timers) :
      Step maxConsecutiveFailures l (.timer timer)
        { l with timers := l.timers.erase timer }.onTimer
  | settle {l : DriverLoop} {pass : Nat} {result : PassResult} (hmem : pass ∈ l.running) :
      Step maxConsecutiveFailures l (.settle pass result)
        { l with
          running := l.running.erase pass
          microtasks := l.microtasks ++ [.report pass result, .clearActive pass] }

def callOf : Microtask → Option DriverCall
  | .call call => some call
  | _ => none

/-- The call that the driver gets in a step. -/
def calls (l : DriverLoop) : Action → Option DriverCall
  | .call call => some call
  | .microtask => l.microtasks.head?.bind callOf
  | _ => none

/-! ## The invariant -/

/-- Where the pass of the driver stands. Nothing comes between its reactions. -/
inductive Phase : Option Nat → List Nat → List Microtask → Prop
  | idle (calls : List DriverCall) : Phase none [] (calls.map .call)
  | running (pass : Nat) (calls : List DriverCall) :
      Phase (some pass) [pass] (calls.map .call)
  | settled (pass : Nat) (result : PassResult) (before after : List DriverCall) :
      Phase (some pass) []
        (before.map .call ++ .report pass result :: .clearActive pass :: after.map .call)
  | clearing (pass : Nat) (after : List DriverCall) :
      Phase (some pass) [] (.clearActive pass :: after.map .call)

/-- No pass has still to report. -/
def Reported (l : DriverLoop) : Prop :=
  l.running = [] ∧ ∀ pass result, Microtask.report pass result ∉ l.microtasks

structure Driven (maxConsecutiveFailures : Nat) (l : DriverLoop) : Prop where
  phase : Phase l.driver.active l.running l.microtasks
  timers : l.timers = l.driver.continuationTimer.toList
  quiet : l.driver.stopped → l.driver.continuationTimer = none
  budget : l.driver.consecutiveFailures ≤ max 1 maxConsecutiveFailures
  /-- The budget is not spent before a pass that is still to report. -/
  retrying : l.driver.continuationTimer.isSome ∨ ¬ l.Reported →
    l.driver.consecutiveFailures < max 1 maxConsecutiveFailures
  ended : l.last = some .completed ∨ l.last = some (.failed true) →
    l.driver.continuationTimer = none
  counted : l.failuresSinceCall ≤ l.driver.consecutiveFailures
  inRow : l.driver.consecutiveFailures ≤ l.failuresInRow
  spent : l.last = some (.failed true) → maxConsecutiveFailures ≤ l.failuresInRow

/-- A cycle that was left unfinished is continued. -/
def Owed (l : DriverLoop) : Prop :=
  l.driver.stopped = false → l.Reported →
    l.last = some .incomplete ∨ l.last = some (.failed false) →
      l.driver.continuationTimer.isSome

section Invariant

variable {maxConsecutiveFailures : Nat} {l : DriverLoop} {trigger : RepairTrigger}

theorem not_reported_of_running {pass : Nat} {passes : List Nat}
    (h : l.running = pass :: passes) : ¬ l.Reported := by
  intro hreported
  rw [Reported, h] at hreported
  exact absurd hreported.1 (List.cons_ne_nil _ _)

theorem Phase.calls_of_idle {running : List Nat} {microtasks : List Microtask}
    (h : Phase none running microtasks) :
    running = [] ∧ ∃ calls : List DriverCall, microtasks = calls.map .call := by
  cases h with
  | idle calls => exact ⟨rfl, calls, rfl⟩

theorem report_notMem_calls {calls : List DriverCall} {pass : Nat} {result : PassResult} :
    Microtask.report pass result ∉ calls.map .call := by
  simp

theorem Driven.reported_of_idle (h : Driven maxConsecutiveFailures l)
    (hidle : l.driver.active = none) : l.Reported := by
  have hphase := h.phase
  rw [hidle] at hphase
  obtain ⟨hrunning, calls, hcalls⟩ := hphase.calls_of_idle
  refine ⟨hrunning, fun pass result => ?_⟩
  rw [hcalls]
  exact report_notMem_calls

/-! ## What each call of the driver keeps -/

theorem Driven.run (h : Driven maxConsecutiveFailures l) (hidle : l.driver.active = none)
    (hbudget : l.driver.consecutiveFailures < max 1 maxConsecutiveFailures ∨
      trigger ≠ .continuation)
    (hsince : trigger = .continuation ∨ l.failuresSinceCall = 0) :
    Driven maxConsecutiveFailures (l.run trigger) := by
  have hphase := h.phase
  rw [hidle] at hphase
  obtain ⟨hrunning, calls, hcalls⟩ := hphase.calls_of_idle
  have hcount : (l.run trigger).driver.consecutiveFailures = l.driver.consecutiveFailures ∧
        trigger = .continuation ∨
      (l.run trigger).driver.consecutiveFailures = 0 ∧ l.failuresSinceCall = 0 := by
    by_cases htrigger : trigger = .continuation
    · exact .inl ⟨if_neg (not_not_intro htrigger), htrigger⟩
    · exact .inr ⟨if_pos htrigger, hsince.resolve_left htrigger⟩
  have hlt : (l.run trigger).driver.consecutiveFailures < max 1 maxConsecutiveFailures := by
    rcases hcount with ⟨hcount, htrigger⟩ | ⟨hcount, -⟩
    · rw [hcount]
      exact hbudget.resolve_right (not_not_intro htrigger)
    · omega
  refine
    { phase := ?_, timers := h.timers, quiet := h.quiet, budget := Nat.le_of_lt hlt
      retrying := fun _ => hlt, ended := h.ended, counted := ?_, inRow := ?_, spent := h.spent }
  · have hrunning' : (l.run trigger).running = [l.passes] := by
      show l.running ++ [l.passes] = [l.passes]
      rw [hrunning]
      rfl
    have hcalls' : (l.run trigger).microtasks = calls.map .call := hcalls
    rw [hrunning', hcalls']
    exact .running l.passes calls
  · have := h.counted
    show l.failuresSinceCall ≤ (l.run trigger).driver.consecutiveFailures
    omega
  · have := h.inRow
    show (l.run trigger).driver.consecutiveFailures ≤ l.failuresInRow
    omega

theorem Driven.scheduleContinuation (h : Driven maxConsecutiveFailures l)
    (hbudget : l.driver.consecutiveFailures < max 1 maxConsecutiveFailures)
    (hopen : l.last ≠ some .completed ∧ l.last ≠ some (.failed true)) :
    Driven maxConsecutiveFailures l.scheduleContinuation := by
  unfold DriverLoop.scheduleContinuation
  split
  · exact h
  · next hfree =>
    simp only [Bool.or_eq_true, not_or, Bool.not_eq_true, Option.isSome_eq_false_iff,
      Option.isNone_iff_eq_none] at hfree
    refine { h with timers := ?_, quiet := ?_, retrying := fun _ => hbudget, ended := ?_ }
    · show l.timers ++ [l.timersSet] = [l.timersSet]
      rw [h.timers, hfree.2]
      rfl
    · intro hstopped
      rw [hfree.1] at hstopped
      exact absurd hstopped (by decide)
    · exact fun hended => absurd hended (not_or.2 hopen)

theorem Driven.cancelContinuation (h : Driven maxConsecutiveFailures l) :
    Driven maxConsecutiveFailures l.cancelContinuation := by
  refine { h with timers := ?_, quiet := fun _ => rfl, retrying := ?_, ended := fun _ => rfl }
  · show l.timers.filter (fun timer => l.driver.continuationTimer ≠ some timer) = []
    rw [h.timers]
    cases l.driver.continuationTimer <;> simp
  · rintro (htimer | hreported)
    · cases htimer
    · exact h.retrying (.inr hreported)

/-- A trigger from outside. -/
theorem Driven.runAutomatic (h : Driven maxConsecutiveFailures l)
    (htrigger : trigger ≠ .continuation) (hsince : l.failuresSinceCall = 0) :
    Driven maxConsecutiveFailures (l.runAutomatic trigger) := by
  unfold DriverLoop.runAutomatic
  split
  · exact h
  split
  · exact h
  split
  · exact h
  · next hidle =>
    simp only [Option.not_isSome_iff_eq_none] at hidle
    exact h.run hidle (.inr htrigger) (.inr hsince)

/-- `start` renews the budget before it asks for a pass. -/
theorem Driven.start (h : Driven maxConsecutiveFailures l) (hsince : l.failuresSinceCall = 0) :
    Driven maxConsecutiveFailures l.start := by
  refine Driven.runAutomatic ?_ (by decide) hsince
  have hlt : 0 < max 1 maxConsecutiveFailures := by omega
  exact
    { h with
      quiet := fun hstopped => nomatch hstopped
      budget := Nat.zero_le _, retrying := fun _ => hlt
      counted := by
        show l.failuresSinceCall ≤ 0
        omega
      inRow := Nat.zero_le _ }

theorem Driven.runManual (h : Driven maxConsecutiveFailures l) (hsince : l.failuresSinceCall = 0) :
    Driven maxConsecutiveFailures l.runManual := by
  unfold DriverLoop.runManual
  split
  · exact h
  · next hfree =>
    simp only [Bool.or_eq_true, not_or, Option.not_isSome_iff_eq_none] at hfree
    exact h.run hfree.2 (.inr (by decide)) (.inr hsince)

theorem Driven.stop (h : Driven maxConsecutiveFailures l) :
    Driven maxConsecutiveFailures l.stop := by
  have hclear := h.cancelContinuation
  exact { hclear with quiet := fun _ => rfl }

theorem Driven.recordCall {call : DriverCall} (h : Driven maxConsecutiveFailures l) :
    Driven maxConsecutiveFailures (l.recordCall call) := by
  cases call with
  | stop => exact h
  | start | triggerSchedule | runManual => exact { h with counted := Nat.zero_le _ }

theorem Driven.call {call : DriverCall} (h : Driven maxConsecutiveFailures l) :
    Driven maxConsecutiveFailures ((l.recordCall call).call call) := by
  have hrecord : Driven maxConsecutiveFailures (l.recordCall call) := h.recordCall
  cases call with
  | start => exact hrecord.start rfl
  | triggerSchedule => exact hrecord.runAutomatic (by decide) rfl
  | runManual => exact hrecord.runManual rfl
  | stop => exact hrecord.stop

/-- The timer goes off, and is set again when a pass is active. -/
theorem Driven.onTimer {timer : Nat} (h : Driven maxConsecutiveFailures l)
    (hmem : timer ∈ l.timers) :
    Driven maxConsecutiveFailures
      { l with timers := l.timers.erase timer }.onTimer := by
  rw [h.timers, Option.mem_toList] at hmem
  have hbudget := h.retrying (.inl (by rw [hmem]; rfl))
  have hopen : l.last ≠ some .completed ∧ l.last ≠ some (.failed true) := by
    refine not_or.1 fun hended => ?_
    rw [h.ended hended] at hmem
    cases hmem
  have hfired : Driven maxConsecutiveFailures
      { l with
        timers := l.timers.erase timer
        driver := { l.driver with continuationTimer := none } } := by
    refine
      { h with
        timers := ?_, quiet := fun _ => rfl, retrying := fun _ => hbudget
        ended := fun _ => rfl }
    show l.timers.erase timer = []
    rw [h.timers, hmem]
    simp
  unfold DriverLoop.onTimer DriverLoop.runAutomatic
  split
  · exact hfired
  split
  · exact hfired
  split
  · exact hfired.scheduleContinuation hbudget hopen
  · next hidle =>
    simp only [Option.not_isSome_iff_eq_none] at hidle
    exact hfired.run hidle (.inl hbudget) (.inl rfl)

/-! ## The reactions of a pass -/

theorem Phase.of_report {active : Option Nat} {running : List Nat} {pass : Nat}
    {result : PassResult} {rest : List Microtask}
    (h : Phase active running (.report pass result :: rest)) :
    active = some pass ∧ running = [] ∧
      ∃ after : List DriverCall, rest = .clearActive pass :: after.map .call := by
  generalize hqueue : Microtask.report pass result :: rest = queue at h
  cases h with
  | idle calls => cases calls <;> simp at hqueue
  | running p calls => cases calls <;> simp at hqueue
  | settled p r before after =>
    cases before with
    | nil =>
      injection hqueue with hhead hrest
      injection hhead with hpass hresult
      exact ⟨by rw [hpass], rfl, after, by rw [hrest, hpass]⟩
    | cons call before => simp at hqueue
  | clearing p after => simp at hqueue

theorem Driven.timers_cancel (h : Driven maxConsecutiveFailures l) :
    l.cancelContinuation.timers = [] := h.cancelContinuation.timers

theorem owed_of_ended
    (h : l.last ≠ some .incomplete ∧ l.last ≠ some (.failed false)) : l.Owed :=
  fun _ _ hlast => absurd hlast (not_or.2 h)

theorem owed_scheduleContinuation : l.scheduleContinuation.Owed := by
  intro hstopped _ _
  unfold DriverLoop.scheduleContinuation at hstopped ⊢
  split
  · next hbusy =>
    rw [if_pos hbusy] at hstopped
    rw [hstopped, Bool.false_or] at hbusy
    exact hbusy
  · rfl

/-- The pass reports while it is still the active one. -/
theorem Driven.report {pass : Nat} {result : PassResult} {rest : List Microtask}
    (h : Driven maxConsecutiveFailures l) (hqueue : l.microtasks = .report pass result :: rest) :
    Driven maxConsecutiveFailures
        (({ l with microtasks := rest }.recordEnd maxConsecutiveFailures result).onReport
          maxConsecutiveFailures result) ∧
      (({ l with microtasks := rest }.recordEnd maxConsecutiveFailures result).onReport
          maxConsecutiveFailures result).Owed := by
  have hphase := h.phase
  rw [hqueue] at hphase
  obtain ⟨hactive, hrunning, after, hrest⟩ := hphase.of_report
  have hclearing : Phase l.driver.active l.running rest := by
    rw [hactive, hrunning, hrest]
    exact .clearing pass after
  have hreport : Microtask.report pass result ∈ l.microtasks := by
    rw [hqueue]
    exact List.mem_cons_self
  have hbudget := h.retrying (.inr fun hreported => hreported.2 pass result hreport)
  have hreported : ∀ p r, Microtask.report p r ∉ rest := by
    rw [hrest]
    simp
  have hcounted := h.counted
  have hinRow := h.inRow
  cases result with
  | report cycleCompleted =>
    cases cycleCompleted with
    | true =>
      refine ⟨?_, owed_of_ended ⟨nofun, nofun⟩⟩
      exact
        { phase := hclearing, timers := h.timers_cancel, quiet := fun _ => rfl
          budget := Nat.zero_le _
          retrying := fun _ => by
            show 0 < max 1 maxConsecutiveFailures
            omega
          ended := fun _ => rfl, counted := Nat.le_refl _, inRow := Nat.le_refl _
          spent := fun hlast => nomatch hlast }
    | false =>
      refine ⟨Driven.scheduleContinuation ?_ ?_ ⟨nofun, nofun⟩, owed_scheduleContinuation⟩
      · exact
          { phase := hclearing, timers := h.timers, quiet := h.quiet, budget := Nat.zero_le _
            retrying := fun _ => by
              show 0 < max 1 maxConsecutiveFailures
              omega
            ended := fun hended => by simp [recordEnd] at hended
            counted := Nat.le_refl _, inRow := Nat.le_refl _
            spent := fun hlast => nomatch hlast }
      · show 0 < max 1 maxConsecutiveFailures
        omega
  | failed =>
    unfold onReport onPassFailed recordEnd
    dsimp only
    split
    · next hlimit =>
      rw [decide_eq_true hlimit]
      refine ⟨?_, owed_of_ended ⟨nofun, nofun⟩⟩
      exact
        { phase := hclearing, timers := h.timers_cancel, quiet := fun _ => rfl
          budget := by
            show l.driver.consecutiveFailures + 1 ≤ max 1 maxConsecutiveFailures
            omega
          retrying := by
            rintro (htimer | hopen)
            · cases htimer
            · exact absurd ⟨hrunning, hreported⟩ hopen
          ended := fun _ => rfl
          counted := Nat.succ_le_succ hcounted, inRow := Nat.succ_le_succ hinRow
          spent := fun _ => by
            show maxConsecutiveFailures ≤ l.failuresInRow + 1
            omega }
    · next hlimit =>
      rw [decide_eq_false hlimit]
      have hlt : l.driver.consecutiveFailures + 1 < max 1 maxConsecutiveFailures := by omega
      refine ⟨Driven.scheduleContinuation ?_ hlt ⟨nofun, nofun⟩, owed_scheduleContinuation⟩
      exact
        { phase := hclearing, timers := h.timers, quiet := h.quiet, budget := Nat.le_of_lt hlt
          retrying := fun _ => hlt
          ended := fun hended => by simp at hended
          counted := Nat.succ_le_succ hcounted, inRow := Nat.succ_le_succ hinRow
          spent := fun hlast => by simp at hlast }

theorem Phase.of_clearActive {active : Option Nat} {running : List Nat} {pass : Nat}
    {rest : List Microtask} (h : Phase active running (.clearActive pass :: rest)) :
    active = some pass ∧ running = [] ∧ ∃ after : List DriverCall, rest = after.map .call := by
  generalize hqueue : Microtask.clearActive pass :: rest = queue at h
  cases h with
  | idle calls => cases calls <;> simp at hqueue
  | running p calls => cases calls <;> simp at hqueue
  | settled p r before after => cases before <;> simp at hqueue
  | clearing p after =>
    injection hqueue with hhead hrest
    injection hhead with hpass
    exact ⟨by rw [hpass], rfl, after, hrest⟩

theorem Driven.clearActive {pass : Nat} {rest : List Microtask}
    (h : Driven maxConsecutiveFailures l) (hqueue : l.microtasks = .clearActive pass :: rest) :
    Driven maxConsecutiveFailures ({ l with microtasks := rest }.clearActive pass) ∧
      (l.Owed → ({ l with microtasks := rest }.clearActive pass).Owed) := by
  have hphase := h.phase
  rw [hqueue] at hphase
  obtain ⟨hactive, hrunning, after, hrest⟩ := hphase.of_clearActive
  have hreports : ∀ p r, Microtask.report p r ∉ rest := by
    rw [hrest]
    simp
  have hreported : l.Reported := by
    refine ⟨hrunning, ?_⟩
    rw [hqueue]
    intro p r hmem
    rcases List.mem_cons.1 hmem with hmem | hmem
    · cases hmem
    · exact hreports p r hmem
  unfold DriverLoop.clearActive
  rw [if_pos (show l.driver.active = some pass from hactive)]
  refine ⟨{ h with phase := ?_, retrying := ?_ }, fun howed hstopped _ => howed hstopped hreported⟩
  · show Phase none l.running rest
    rw [hrunning, hrest]
    exact .idle after
  · rintro (htimer | hopen)
    · exact h.retrying (.inl htimer)
    · exact absurd ⟨hrunning, hreports⟩ hopen

/-! ## What is owed -/

theorem not_reported_run : ¬ (l.run trigger).Reported := by
  intro hreported
  have hrunning : l.running ++ [l.passes] = [] := hreported.1
  simp at hrunning

/-- A trigger finds the driver stopped, a timer, a pass that will report, or starts one. -/
theorem owed_runAutomatic (hactive : l.driver.active.isSome → ¬ l.Reported) :
    (l.runAutomatic trigger).Owed := by
  intro hstopped hreported hlast
  unfold DriverLoop.runAutomatic at hstopped hreported hlast ⊢
  split
  · next hstop =>
    rw [if_pos hstop, hstop] at hstopped
    cases hstopped
  rw [if_neg ‹_›] at hstopped hreported hlast
  split
  · next htimer =>
    exact (Bool.and_eq_true_iff.1 htimer).1
  rw [if_neg ‹_›] at hstopped hreported hlast
  split
  · next hbusy =>
    rw [if_pos hbusy] at hstopped hreported hlast
    split
    · next htrigger =>
      rw [if_pos htrigger] at hstopped hreported hlast
      exact owed_scheduleContinuation hstopped hreported hlast
    · next htrigger =>
      rw [if_neg htrigger] at hreported
      exact absurd hreported (hactive hbusy)
  · next hidle =>
    rw [if_neg hidle] at hreported
    exact absurd hreported not_reported_run

theorem Owed.runManual (h : l.Owed) : l.runManual.Owed := by
  unfold DriverLoop.runManual
  split
  · exact h
  · exact fun _ hreported => absurd hreported not_reported_run

theorem Owed.call {call : DriverCall} (h : l.Owed)
    (hactive : l.driver.active.isSome → ¬ l.Reported) :
    ((l.recordCall call).call call).Owed := by
  cases call with
  | start => exact owed_runAutomatic hactive
  | triggerSchedule => exact owed_runAutomatic hactive
  | runManual =>
    have hrecord : (l.recordCall .runManual).Owed := h
    exact hrecord.runManual
  | stop => exact fun hstopped => nomatch hstopped

/-! ## Every step -/

theorem Phase.of_call {active : Option Nat} {running : List Nat} {call : DriverCall}
    {rest : List Microtask} (h : Phase active running (.call call :: rest)) :
    Phase active running rest ∧
      (active.isSome → running = [] → ∃ pass result, Microtask.report pass result ∈ rest) := by
  generalize hqueue : Microtask.call call :: rest = queue at h
  cases h with
  | idle calls =>
    cases calls with
    | nil => cases hqueue
    | cons c calls =>
      injection hqueue with hhead hrest
      exact ⟨hrest ▸ .idle calls, fun hactive => nomatch hactive⟩
  | running p calls =>
    cases calls with
    | nil => cases hqueue
    | cons c calls =>
      injection hqueue with hhead hrest
      exact ⟨hrest ▸ .running p calls, fun _ hrunning => nomatch hrunning⟩
  | settled p r before after =>
    cases before with
    | nil => cases hqueue
    | cons c before =>
      injection hqueue with hhead hrest
      rw [hrest]
      refine ⟨.settled p r before after, fun _ _ => ⟨p, r, ?_⟩⟩
      simp
  | clearing p after => cases hqueue

theorem Phase.running_of_active {active : Option Nat} {running : List Nat}
    (h : Phase active running []) (hactive : active.isSome) : running ≠ [] := by
  generalize hqueue : ([] : List Microtask) = queue at h
  cases h with
  | idle => cases hactive
  | running => exact List.cons_ne_nil _ _
  | settled p r before after => simp at hqueue
  | clearing => cases hqueue

theorem Phase.queue {active : Option Nat} {running : List Nat} {microtasks : List Microtask}
    {call : DriverCall} (h : Phase active running microtasks) :
    Phase active running (microtasks ++ [.call call]) := by
  have hcall : ∀ calls : List DriverCall, calls.map .call ++ [Microtask.call call]
      = (calls ++ [call]).map .call := fun calls => by simp
  cases h with
  | idle calls => exact hcall calls ▸ .idle _
  | running p calls => exact hcall calls ▸ .running p _
  | settled p r before after =>
    have hafter : before.map .call ++ .report p r :: .clearActive p :: after.map .call
          ++ [Microtask.call call]
        = before.map .call ++ .report p r :: .clearActive p :: (after ++ [call]).map .call := by
      simp
    exact hafter ▸ .settled p r before (after ++ [call])
  | clearing p after =>
    have hafter : .clearActive p :: after.map .call ++ [Microtask.call call]
        = .clearActive p :: (after ++ [call]).map .call := by simp
    exact hafter ▸ .clearing p (after ++ [call])

theorem Phase.of_running {active : Option Nat} {running : List Nat}
    {microtasks : List Microtask} {pass : Nat} (h : Phase active running microtasks)
    (hmem : pass ∈ running) :
    active = some pass ∧ running = [pass] ∧
      ∃ calls : List DriverCall, microtasks = calls.map .call := by
  cases h with
  | running p calls =>
    obtain rfl := List.mem_singleton.1 hmem
    exact ⟨rfl, rfl, calls, rfl⟩
  | idle | settled | clearing => exact absurd hmem List.not_mem_nil

theorem reported_congr {microtasks : List Microtask}
    (h : ∀ pass result, Microtask.report pass result ∈ microtasks ↔
      Microtask.report pass result ∈ l.microtasks) :
    Reported { l with microtasks := microtasks } ↔ l.Reported :=
  and_congr_right fun _ => forall₂_congr fun pass result => not_congr (h pass result)

theorem Driven.withQueue {microtasks : List Microtask} (hdriven : Driven maxConsecutiveFailures l)
    (howed : l.Owed) (hphase : Phase l.driver.active l.running microtasks)
    (h : ∀ pass result, Microtask.report pass result ∈ microtasks ↔
      Microtask.report pass result ∈ l.microtasks) :
    Driven maxConsecutiveFailures { l with microtasks := microtasks } ∧
      Owed { l with microtasks := microtasks } := by
  have hreported := reported_congr h
  refine ⟨{ hdriven with phase := hphase, retrying := ?_ }, ?_⟩
  · rw [hreported]
    exact hdriven.retrying
  · intro hstopped hreported'
    exact howed hstopped (hreported.1 hreported')

theorem Driven.microtask {task : Microtask} {rest : List Microtask}
    (hdriven : Driven maxConsecutiveFailures l) (howed : l.Owed)
    (hqueue : l.microtasks = task :: rest) :
    Driven maxConsecutiveFailures
        ({ l with microtasks := rest }.runMicrotask maxConsecutiveFailures task) ∧
      ({ l with microtasks := rest }.runMicrotask maxConsecutiveFailures task).Owed := by
  cases task with
  | call call =>
    have hphase := hdriven.phase
    rw [hqueue] at hphase
    obtain ⟨hrest, hreports⟩ := hphase.of_call
    obtain ⟨hdriven', howed'⟩ := hdriven.withQueue howed hrest fun pass result => by
      simp [hqueue]
    refine ⟨hdriven'.call, howed'.call fun hactive hreported => ?_⟩
    obtain ⟨pass, result, hmem⟩ := hreports hactive hreported.1
    exact hreported.2 pass result hmem
  | report pass result => exact hdriven.report hqueue
  | clearActive pass =>
    obtain ⟨hdriven', howed'⟩ := hdriven.clearActive hqueue
    exact ⟨hdriven', howed' howed⟩

theorem Driven.settle {pass : Nat} {result : PassResult}
    (hdriven : Driven maxConsecutiveFailures l) (hmem : pass ∈ l.running) :
    Driven maxConsecutiveFailures
        { l with
          running := l.running.erase pass
          microtasks := l.microtasks ++ [.report pass result, .clearActive pass] } ∧
      Owed
        { l with
          running := l.running.erase pass
          microtasks := l.microtasks ++ [.report pass result, .clearActive pass] } := by
  obtain ⟨hactive, hrunning, calls, hcalls⟩ := hdriven.phase.of_running hmem
  have hopen := hdriven.retrying (.inr (not_reported_of_running hrunning))
  refine ⟨{ hdriven with phase := ?_, retrying := fun _ => hopen }, ?_⟩
  · show Phase l.driver.active (l.running.erase pass)
      (l.microtasks ++ [.report pass result, .clearActive pass])
    rw [hactive, hrunning, hcalls, List.erase_cons_head]
    exact .settled pass result calls []
  · intro _ hreported
    exact absurd (List.mem_append_right _ List.mem_cons_self) (hreported.2 pass result)

theorem Step.driven {a : Action} {l' : DriverLoop} (h : Step maxConsecutiveFailures l a l')
    (hdriven : Driven maxConsecutiveFailures l) (howed : l.Owed) :
    Driven maxConsecutiveFailures l' ∧ l'.Owed := by
  cases h with
  | queue => exact hdriven.withQueue howed hdriven.phase.queue fun pass result => by simp
  | microtask hqueue => exact hdriven.microtask howed hqueue
  | call hqueue =>
    refine ⟨hdriven.call, howed.call fun hactive hreported => ?_⟩
    have hphase := hdriven.phase
    rw [hqueue] at hphase
    exact hphase.running_of_active hactive hreported.1
  | timer hqueue hmem =>
    refine ⟨hdriven.onTimer hmem, owed_runAutomatic fun hactive hreported => ?_⟩
    have hphase := hdriven.phase
    rw [hqueue] at hphase
    exact hphase.running_of_active hactive hreported.1
  | settle hmem => exact hdriven.settle hmem

/-! ## Runs -/

theorem new_driven : Driven maxConsecutiveFailures new where
  phase := .idle []
  timers := rfl
  quiet := fun _ => rfl
  budget := Nat.zero_le _
  retrying := fun _ => by
    show 0 < max 1 maxConsecutiveFailures
    omega
  ended := nofun
  counted := Nat.le_refl _
  inRow := Nat.le_refl _
  spent := nofun

theorem run_driven (hrun : Run (Step maxConsecutiveFailures) always new l) :
    Driven maxConsecutiveFailures l ∧ l.Owed :=
  hrun.invariant ⟨new_driven, nofun⟩ fun _ _ _ h _ hstep => hstep.driven h.1 h.2

/-- The driver is stopped, with as many passes as when it was. -/
def Halted (passes : Nat) (l : DriverLoop) : Prop := l.driver.stopped = true ∧ l.passes = passes

theorem Halted.runAutomatic {passes : Nat} (h : Halted passes l) :
    Halted passes (l.runAutomatic trigger) := by
  unfold DriverLoop.runAutomatic
  rwa [if_pos h.1]

theorem Halted.scheduleContinuation {passes : Nat} (h : Halted passes l) :
    Halted passes l.scheduleContinuation := by
  unfold DriverLoop.scheduleContinuation
  rwa [if_pos (by rw [h.1]; rfl)]

theorem Halted.call {passes : Nat} {call : DriverCall} (h : Halted passes l)
    (hcall : call ≠ .start) : Halted passes ((l.recordCall call).call call) := by
  cases call with
  | start => exact absurd rfl hcall
  | triggerSchedule =>
    have hrecord : Halted passes (l.recordCall .triggerSchedule) := h
    exact hrecord.runAutomatic
  | runManual =>
    have hrecord : Halted passes (l.recordCall .runManual) := h
    show Halted passes (l.recordCall .runManual).runManual
    unfold DriverLoop.runManual
    rwa [if_pos (by rw [hrecord.1]; rfl)]
  | stop => exact ⟨rfl, h.2⟩

theorem Halted.report {passes : Nat} {result : PassResult} (h : Halted passes l) :
    Halted passes
      ((l.recordEnd maxConsecutiveFailures result).onReport maxConsecutiveFailures result) := by
  cases result with
  | report cycleCompleted =>
    cases cycleCompleted with
    | true => exact h
    | false => exact Halted.scheduleContinuation h
  | failed =>
    unfold onReport onPassFailed
    dsimp only
    split
    · exact h
    · exact Halted.scheduleContinuation h

theorem Halted.clearActive {passes pass : Nat} (h : Halted passes l) :
    Halted passes (l.clearActive pass) := by
  unfold DriverLoop.clearActive
  split <;> exact h

theorem calls_microtask {task : Microtask} {rest : List Microtask}
    (hqueue : l.microtasks = task :: rest) : l.calls .microtask = callOf task := by
  show l.microtasks.head?.bind callOf = callOf task
  rw [hqueue]
  rfl

theorem Halted.step {passes : Nat} {a : Action} {l' : DriverLoop} (h : Halted passes l)
    (hstep : Step maxConsecutiveFailures l a l') (hcalls : l.calls a ≠ some .start) :
    Halted passes l' := by
  cases hstep with
  | queue | settle => exact h
  | timer => exact Halted.runAutomatic h
  | call => exact h.call fun hstart => hcalls (congrArg some hstart)
  | @microtask task rest hqueue =>
    have hrest : Halted passes { l with microtasks := rest } := h
    cases task with
    | report pass result => exact hrest.report
    | clearActive pass => exact hrest.clearActive
    | call call =>
      refine hrest.call fun hstart => hcalls ?_
      rw [calls_microtask hqueue, hstart]
      rfl

theorem Step.halted {a : Action} {l' : DriverLoop} (hstep : Step maxConsecutiveFailures l a l')
    (hcalls : l.calls a = some .stop) : Halted l.passes l' := by
  cases hstep with
  | queue | settle | timer => cases hcalls
  | call =>
    obtain rfl := Option.some.inj hcalls
    exact ⟨rfl, rfl⟩
  | @microtask task rest hqueue =>
    rw [calls_microtask hqueue] at hcalls
    cases task with
    | report | clearActive => cases hcalls
    | call call =>
      obtain rfl := Option.some.inj hcalls
      exact ⟨rfl, rfl⟩

end Invariant

/-- One pass and one timer; no pass after `stop` until `start`; an unfinished
cycle is continued and a finished one is not; and a bound on the failures. -/
theorem driver_runs {maxConsecutiveFailures : Nat} {l : DriverLoop}
    (hrun : Run (Step maxConsecutiveFailures) always new l) :
    (l.running.length ≤ 1 ∧ (∀ pass ∈ l.running, l.driver.active = some pass) ∧
        l.timers.length ≤ 1) ∧
      (∀ a l' l'', Step maxConsecutiveFailures l a l' → l.calls a = some .stop →
        Run (Step maxConsecutiveFailures) (fun s a => s.calls a ≠ some .start) l' l'' →
        l''.passes = l.passes) ∧
      (l.driver.stopped = false → l.driver.active = none →
        (l.last = some .incomplete ∨ l.last = some (.failed false) ∨
          ∃ abandoned, l.last = some (.failed abandoned) ∧
            l.failuresInRow < maxConsecutiveFailures) →
        l.timers ≠ []) ∧
      (l.last = some .completed ∨ l.last = some (.failed true) → l.timers = []) ∧
      l.failuresSinceCall ≤ max 1 maxConsecutiveFailures := by
  obtain ⟨hdriven, howed⟩ := run_driven hrun
  refine ⟨⟨?_, ?_, ?_⟩, ?_, ?_, ?_, Nat.le_trans hdriven.counted hdriven.budget⟩
  · have hphase := hdriven.phase
    generalize l.driver.active = active, l.running = running, l.microtasks = queue at hphase
    cases hphase <;> simp
  · exact fun pass hmem => (hdriven.phase.of_running hmem).1
  · rw [hdriven.timers]
    cases l.driver.continuationTimer <;> simp
  · intro a l' l'' hstep hcalls hlater
    have hhalted : Halted l.passes l'' :=
      hlater.invariant (hstep.halted hcalls) fun _ _ _ h hok hs => h.step hs hok
    exact hhalted.2
  · intro hstarted hidle hlast
    have hunfinished : l.last = some .incomplete ∨ l.last = some (.failed false) := by
      rcases hlast with hlast | hlast | ⟨abandoned, hlast, hlt⟩
      · exact .inl hlast
      · exact .inr hlast
      · cases abandoned with
        | false => exact .inr hlast
        | true =>
          have := hdriven.spent hlast
          omega
    have htimer := howed hstarted (hdriven.reported_of_idle hidle) hunfinished
    rw [hdriven.timers]
    intro hnil
    rw [Option.toList_eq_nil_iff.1 hnil] at htimer
    cases htimer
  · intro hended
    rw [hdriven.timers, hdriven.ended hended]
    rfl

/-- The first pass has failed, and its reactions wait. -/
def failedPass : DriverLoop :=
  { new.start with running := [], microtasks := [.report 0 .failed, .clearActive 0] }

/-- It is retried. -/
def retriedPass : DriverLoop :=
  { failedPass with microtasks := [.clearActive 0] }.runMicrotask
    DEFAULT_MAX_CONSECUTIVE_FAILURES (.report 0 .failed)

theorem driver_runs_retried :
    retriedPass.last = some (.failed false) ∧ retriedPass.timers = [0] ∧
      retriedPass.failuresSinceCall ≤ max 1 DEFAULT_MAX_CONSECUTIVE_FAILURES := by
  have hstart : Step DEFAULT_MAX_CONSECUTIVE_FAILURES new (.call .start) new.start := .call rfl
  have hsettle : Step DEFAULT_MAX_CONSECUTIVE_FAILURES new.start (.settle 0 .failed) failedPass :=
    .settle List.mem_cons_self
  have hreport : Step DEFAULT_MAX_CONSECUTIVE_FAILURES failedPass .microtask retriedPass :=
    .microtask rfl
  have hrun : Run (Step DEFAULT_MAX_CONSECUTIVE_FAILURES) always new retriedPass :=
    .next (.next (.next .start trivial hstart) trivial hsettle) trivial hreport
  exact ⟨rfl, rfl, (driver_runs hrun).2.2.2.2⟩

end DriverLoop

end IpfsNode
