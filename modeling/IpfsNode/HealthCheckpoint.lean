import IpfsNode.Health
import IpfsNode.Transition

/-!
# The height of the checkpoint

Attempts follow each other under any clock, in one process after another. An
attempt under a clock behind the checkpoint the process knows fails, so a
checkpoint is completed at a time that is not before that one and not before its
round: this is what `parseCheckpoint` asks for when it is loaded. A put may
persist a checkpoint and then reject, and the process does not know that one: a
later attempt in an earlier round then takes the persisted height back
(`landed_put_lowers_height`). `height_runs` says that this is the only way.
-/

namespace IpfsNode

open TransitionSystem

/-- What a node holds between two attempts, and its datastore. -/
structure HealthStore where
  previous : Option HealthCheckpoint
  snapshot : HealthSnapshot
  persisted : Option HealthCheckpoint

namespace HealthStore

/-- The last checkpoint, unless it is not trusted or from another membership. -/
def startHealthService (node : HealthNode) (now : Nat) (persisted : Option HealthCheckpoint) :
    HealthStore where
  previous :=
    (persisted.bind fun checkpoint => parseCheckpoint checkpoint.toJson now).filter
      fun checkpoint => checkpoint.membershipVersion = node.membershipVersion
  snapshot := initialSnapshot node now
  persisted := persisted

/-- How a put ends; a datastore may reject after it has persisted the value. -/
inductive PutOutcome where
  | saved
  | landed
  | refused
deriving DecidableEq, Repr

/-- `saveHealthCheckpoint` throws unless the put is answered; so does the attempt. -/
def runHealthCheckpoint (node : HealthNode) (s : HealthStore) (now : Nat) (seen : Observations)
    (put : PutOutcome) : HealthStore :=
  let evaluated := evaluateHealth node.policy (healthInputs node s.previous now seen)
  match evaluated.2 with
  | none => { s with snapshot := evaluated.1 }
  | some completed =>
    match put with
    | .saved => { previous := some completed, snapshot := evaluated.1, persisted := some completed }
    -- neither `previous` nor the snapshot is assigned
    | .landed => { s with persisted := some completed }
    | .refused => s

inductive Action where
  | attempt (now : Nat) (seen : Observations) (put : PutOutcome)
  | restart (now : Nat)

/-- The clock is any time; a restart finds a checkpoint that it accepts, if any. -/
inductive Step (node : HealthNode) : HealthStore → Action → HealthStore → Prop
  | attempt {s : HealthStore} {now : Nat} {seen : Observations} {put : PutOutcome}
      (hmax : now ≤ MAX_TIME) (hpeers : seen.answers.length ≤ node.peers) :
      Step node s (.attempt now seen put) (runHealthCheckpoint node s now seen put)
  | restart {s : HealthStore} {now : Nat}
      (haccepted : ∀ checkpoint, s.persisted = some checkpoint →
        parseCheckpoint checkpoint.toJson now ≠ none) :
      Step node s (.restart now) (startHealthService node now s.persisted)

def persistedHeight (s : HealthStore) : Nat := s.persisted.elim 0 (·.height)

def previousHeight (s : HealthStore) : Nat := s.previous.elim 0 (·.height)

/-- An attempt that persists does not begin in a round before that of a persisted checkpoint that
the process does not know. -/
def Aware (node : HealthNode) (s : HealthStore) : Action → Prop
  | .attempt now _ put => put ≠ .refused → s.previous ≠ s.persisted →
      ∀ checkpoint, s.persisted = some checkpoint →
        checkpointRound checkpoint.completedAt node.policy.checkpointIntervalMs
          ≤ checkpointRound now node.policy.checkpointIntervalMs
  | .restart _ => True

/-- A checkpoint of this membership that can be loaded. -/
structure Loadable (node : HealthNode) (checkpoint : HealthCheckpoint) : Prop where
  wellFormed : checkpoint.WellFormed
  membership : checkpoint.membershipVersion = node.membershipVersion

/-- The process knows the checkpoint that is persisted, or the one before it. -/
structure Kept (node : HealthNode) (s : HealthStore) : Prop where
  previous : ∀ checkpoint, s.previous = some checkpoint → Loadable node checkpoint
  persisted : ∀ checkpoint, s.persisted = some checkpoint → Loadable node checkpoint
  known : s.previous = s.persisted ∨ ∃ checkpoint, s.persisted = some checkpoint ∧
    checkpoint.height = max s.previousHeight
      (checkpointRound checkpoint.completedAt node.policy.checkpointIntervalMs)
  reported : s.snapshot.height ≤ s.previousHeight

section

variable {node : HealthNode} {s s' : HealthStore} {now : Nat} {seen : Observations}
  {put : PutOutcome} {completed : HealthCheckpoint}

/-- Everything that an attempt can do. -/
theorem runHealthCheckpoint_cases (node : HealthNode) (s : HealthStore) (now : Nat)
    (seen : Observations) (put : PutOutcome) :
    (runHealthCheckpoint node s now seen put =
        { s with
          snapshot := (evaluateHealth node.policy (healthInputs node s.previous now seen)).1 } ∧
      (evaluateHealth node.policy (healthInputs node s.previous now seen)).2 = none) ∨
    runHealthCheckpoint node s now seen put = s ∨
    ∃ completed,
      (evaluateHealth node.policy (healthInputs node s.previous now seen)).2 = some completed ∧
      ((put = .saved ∧ runHealthCheckpoint node s now seen put =
          { previous := some completed
            snapshot := (evaluateHealth node.policy (healthInputs node s.previous now seen)).1
            persisted := some completed }) ∨
        (put = .landed ∧
          runHealthCheckpoint node s now seen put = { s with persisted := some completed })) := by
  unfold runHealthCheckpoint
  dsimp only
  cases hcompleted : (evaluateHealth node.policy (healthInputs node s.previous now seen)).2 with
  | none => exact .inl ⟨rfl, rfl⟩
  | some completed =>
    cases put with
    | saved => exact .inr (.inr ⟨completed, rfl, .inl ⟨rfl, rfl⟩⟩)
    | landed => exact .inr (.inr ⟨completed, rfl, .inr ⟨rfl, rfl⟩⟩)
    | refused => exact .inr (.inl rfl)

/-- A checkpoint is not completed before the one that the process knows. -/
theorem previous_le_of_completed {checkpoint : HealthCheckpoint}
    (h : (evaluateHealth node.policy (healthInputs node s.previous now seen)).2 = some completed)
    (hprevious : s.previous = some checkpoint) : checkpoint.completedAt ≤ now := by
  have hevery := (evaluateHealth_completed h).1
  simp only [HealthChecks.every, Bool.and_eq_true] at hevery
  have hclock := hevery.1.1.1.1.1.1.2
  simp only [prerequisiteChecks, healthInputs, hprevious, Option.map_some, notInFuture,
    Option.all_some, Bool.and_eq_true, decide_eq_true_eq] at hclock
  exact hclock.1.1

theorem completed_height
    (h : (evaluateHealth node.policy (healthInputs node s.previous now seen)).2 = some completed) :
    completed.completedAt = now ∧ completed.height =
      max s.previousHeight (checkpointRound now node.policy.checkpointIntervalMs) :=
  have hevaluated := evaluateHealth_completed h
  ⟨hevaluated.2.2.1, hevaluated.2.1⟩

theorem previousHeight_le_of_completed (h : Kept node s)
    (hcompleted : (evaluateHealth node.policy (healthInputs node s.previous now seen)).2
      = some completed) : s.previousHeight ≤ now := by
  unfold previousHeight
  cases hlast : s.previous with
  | none => exact Nat.zero_le _
  | some checkpoint =>
    exact Nat.le_trans (h.previous checkpoint hlast).wellFormed.height
      (previous_le_of_completed hcompleted hlast)

theorem completed_loadable (h : Kept node s) (hmax : now ≤ MAX_TIME)
    (hpeers : seen.answers.length ≤ node.peers)
    (hcompleted : (evaluateHealth node.policy (healthInputs node s.previous now seen)).2
      = some completed) : Loadable node completed := by
  obtain ⟨hat, hheight⟩ := completed_height hcompleted
  obtain ⟨-, -, -, hversion, hattested⟩ := evaluateHealth_completed hcompleted
  have hprevious := previousHeight_le_of_completed h hcompleted
  have hround := checkpointRound_le now node.policy.checkpointIntervalMs
  have hcount := countAttestations_le node.policy seen.answers
  have hlt := node.peers_lt
  have hsafe : 2 ^ 32 ≤ MAX_SAFE_INTEGER ∧ MAX_TIME ≤ MAX_SAFE_INTEGER := by decide
  have hattested' : completed.attestedPeers = countAttestations node.policy seen.answers :=
    hattested
  refine ⟨⟨by omega, by omega, by omega, ?_⟩, hversion⟩
  rw [hversion]
  exact node.membershipVersion_valid

theorem runHealthCheckpoint_kept (h : Kept node s) (hmax : now ≤ MAX_TIME)
    (hpeers : seen.answers.length ≤ node.peers) :
    Kept node (runHealthCheckpoint node s now seen put) := by
  have hreported := evaluateHealth_height node.policy (healthInputs node s.previous now seen)
  obtain ⟨hafter, hnone⟩ | hafter | ⟨completed, hcompleted, ⟨-, hafter⟩ | ⟨-, hafter⟩⟩ :=
    runHealthCheckpoint_cases node s now seen put
  all_goals rw [hafter]
  · rw [hnone, Option.none_or] at hreported
    exact { h with reported := Nat.le_of_eq hreported }
  · exact h
  · rw [hcompleted, Option.some_or] at hreported
    have hloadable := completed_loadable h hmax hpeers hcompleted
    have honly : ∀ checkpoint, some completed = some checkpoint → Loadable node checkpoint := by
      rintro _ ⟨⟩
      exact hloadable
    exact ⟨honly, honly, .inl rfl, Nat.le_of_eq hreported⟩
  · obtain ⟨hat, hheight⟩ := completed_height hcompleted
    refine ⟨h.previous, ?_, .inr ⟨completed, rfl, ?_⟩, h.reported⟩
    · rintro _ ⟨⟩
      exact completed_loadable h hmax hpeers hcompleted
    · rw [hat]
      exact hheight

theorem startHealthService_previous (h : Kept node s)
    (haccepted : ∀ checkpoint, s.persisted = some checkpoint →
      parseCheckpoint checkpoint.toJson now ≠ none) :
    (startHealthService node now s.persisted).previous = s.persisted := by
  show (s.persisted.bind fun checkpoint => parseCheckpoint checkpoint.toJson now).filter _
    = s.persisted
  cases hpersisted : s.persisted with
  | none => rfl
  | some checkpoint =>
    obtain ⟨hwell, hmembership⟩ := h.persisted checkpoint hpersisted
    have haccept := haccepted checkpoint hpersisted
    rw [parseCheckpoint_toJson hwell] at haccept
    have hnow : checkpoint.completedAt ≤ now + CLOCK_TOLERANCE_MS := by
      by_contra hlate
      exact haccept (if_neg hlate)
    rw [Option.bind_some, parseCheckpoint_toJson hwell, if_pos hnow]
    exact Option.filter_eq_some_iff.2 ⟨rfl, decide_eq_true hmembership⟩

theorem Step.kept {a : Action} (hstep : Step node s a s') (h : Kept node s) : Kept node s' := by
  cases hstep with
  | attempt hmax hpeers => exact runHealthCheckpoint_kept h hmax hpeers
  | restart haccepted =>
    have hprevious := startHealthService_previous h haccepted
    refine ⟨?_, h.persisted, .inl hprevious, Nat.zero_le _⟩
    rw [hprevious]
    exact h.persisted

theorem new_kept (node : HealthNode) (now : Nat) :
    Kept node (startHealthService node now none) := by
  refine ⟨fun _ hsome => ?_, fun _ hsome => ?_, .inl rfl, Nat.zero_le _⟩
  all_goals cases hsome

theorem run_kept {ok : HealthStore → Action → Prop} (hrun : Run (Step node) ok s s')
    (h : Kept node s) : Kept node s' :=
  hrun.invariant h fun _ _ _ h _ hstep => hstep.kept h

/-- What the process knows, the next checkpoint is at least as high as; what it does not know has
the height of its round. -/
theorem persistedHeight_le_completed (h : Kept node s)
    (haware : s.previous ≠ s.persisted → ∀ checkpoint, s.persisted = some checkpoint →
      checkpointRound checkpoint.completedAt node.policy.checkpointIntervalMs
        ≤ checkpointRound now node.policy.checkpointIntervalMs)
    (hcompleted : (evaluateHealth node.policy (healthInputs node s.previous now seen)).2
      = some completed) : s.persistedHeight ≤ completed.height := by
  rw [(completed_height hcompleted).2]
  by_cases hsame : s.previous = s.persisted
  · rw [persistedHeight, ← hsame]
    exact Nat.le_max_left _ _
  · obtain ⟨checkpoint, hpersisted, hheight⟩ := h.known.resolve_left hsame
    have hround := haware hsame checkpoint hpersisted
    rw [persistedHeight, hpersisted, Option.elim_some, hheight]
    exact max_le_max (Nat.le_refl _) hround

theorem Step.persistedHeight_le {a : Action} (hstep : Step node s a s') (h : Kept node s)
    (haware : Aware node s a) : s.persistedHeight ≤ s'.persistedHeight := by
  cases hstep with
  | restart => exact Nat.le_refl _
  | @attempt now seen put hmax hpeers =>
    obtain ⟨hafter, -⟩ | hafter | ⟨completed, hcompleted, ⟨hput, hafter⟩ | ⟨hput, hafter⟩⟩ :=
      runHealthCheckpoint_cases node s now seen put
    all_goals rw [hafter]
    · exact Nat.le_refl _
    · exact persistedHeight_le_completed h (haware (by simp [hput])) hcompleted
    · exact persistedHeight_le_completed h (haware (by simp [hput])) hcompleted

theorem Step.reportedHeight_le {a : Action} (hstep : Step node s a s') (h : Kept node s)
    (ha : ∀ now, a ≠ .restart now) : s.snapshot.height ≤ s'.snapshot.height := by
  cases hstep with
  | restart => exact absurd rfl (ha _)
  | @attempt now seen put hmax hpeers =>
    have hreported := evaluateHealth_height node.policy (healthInputs node s.previous now seen)
    obtain ⟨hafter, hnone⟩ | hafter | ⟨completed, hcompleted, ⟨-, hafter⟩ | ⟨-, hafter⟩⟩ :=
      runHealthCheckpoint_cases node s now seen put
    all_goals rw [hafter]
    · rw [hnone, Option.none_or] at hreported
      exact Nat.le_trans h.reported (Nat.le_of_eq hreported.symm)
    · rw [hcompleted, Option.some_or] at hreported
      have hheight : s.previousHeight ≤ completed.height := by
        rw [(completed_height hcompleted).2]
        exact Nat.le_max_left _ _
      exact Nat.le_trans h.reported (Nat.le_trans hheight (Nat.le_of_eq hreported.symm))

theorem persistedHeight_mono (hrun : Run (Step node) (Aware node) s s') (h : Kept node s) :
    s.persistedHeight ≤ s'.persistedHeight := by
  induction hrun with
  | start => exact Nat.le_refl _
  | next hrun hok hstep ih =>
    exact Nat.le_trans ih (hstep.persistedHeight_le (run_kept hrun h) hok)

theorem reportedHeight_mono
    (hrun : Run (Step node) (fun _ a => ∀ now, a ≠ .restart now) s s') (h : Kept node s) :
    s.snapshot.height ≤ s'.snapshot.height := by
  induction hrun with
  | start => exact Nat.le_refl _
  | next hrun hok hstep ih =>
    exact Nat.le_trans ih (hstep.reportedHeight_le (run_kept hrun h) hok)

/-- Only an attempt that passed every check changes what is persisted. -/
theorem Step.persists {a : Action} (hstep : Step node s a s')
    (hchanged : s'.persisted ≠ s.persisted) :
    ∃ now seen put, a = .attempt now seen put ∧ put ≠ .refused ∧
      s'.persisted = (evaluateHealth node.policy (healthInputs node s.previous now seen)).2 ∧
      (evaluateHealth node.policy
        (healthInputs node s.previous now seen)).1.checks.every = true := by
  cases hstep with
  | restart => exact absurd rfl hchanged
  | @attempt now seen put hmax hpeers =>
    obtain ⟨hafter, -⟩ | hafter | ⟨completed, hcompleted, ⟨hput, hafter⟩ | ⟨hput, hafter⟩⟩ :=
      runHealthCheckpoint_cases node s now seen put
    all_goals rw [hafter] at hchanged ⊢
    · exact absurd rfl hchanged
    · exact absurd rfl hchanged
    · exact ⟨now, seen, put, rfl, by simp [hput], hcompleted.symm, evaluateHealth_every hcompleted⟩
    · exact ⟨now, seen, put, rfl, by simp [hput], hcompleted.symm, evaluateHealth_every hcompleted⟩

end

/-- The persisted height and the reported one. Only the first needs attempts that are aware of what
is persisted. -/
theorem height_runs {node : HealthNode} {start : Nat} {s : HealthStore}
    (hrun : Run (Step node) always (startHealthService node start none) s) :
    (∀ checkpoint, s.persisted = some checkpoint →
        checkpoint.height ≤ checkpoint.completedAt ∧
          ∀ now, checkpoint.completedAt ≤ now →
            parseCheckpoint checkpoint.toJson now = some checkpoint) ∧
      (∀ a s', Step node s a s' → s'.persisted ≠ s.persisted →
        ∃ now seen put, a = .attempt now seen put ∧ put ≠ .refused ∧
          s'.persisted = (evaluateHealth node.policy (healthInputs node s.previous now seen)).2 ∧
          (evaluateHealth node.policy
            (healthInputs node s.previous now seen)).1.checks.every = true) ∧
      (∀ s', Run (Step node) (Aware node) s s' → s.persistedHeight ≤ s'.persistedHeight) ∧
      ∀ s', Run (Step node) (fun _ a => ∀ now, a ≠ .restart now) s s' →
        s.snapshot.height ≤ s'.snapshot.height := by
  have h := run_kept hrun (new_kept node start)
  refine ⟨fun checkpoint hpersisted => ?_, fun a s' hstep => hstep.persists,
    fun s' hlater => persistedHeight_mono hlater h,
    fun s' hlater => reportedHeight_mono hlater h⟩
  have hwell := (h.persisted checkpoint hpersisted).wellFormed
  refine ⟨hwell.height, fun now hnow => ?_⟩
  rw [parseCheckpoint_toJson hwell, if_pos (Nat.le_trans hnow (Nat.le_add_right _ _))]

/-- Everything a node without peers needs to see, measured at the time. -/
def healthySight (measuredAt : Nat) : Observations where
  heliaReady := true
  startupComplete := true
  startupHealthy := true
  storage := { availableBytes := 10, reservedBytes := 5, updatedAt := some measuredAt }
  repair :=
    { required := false, schedule := "0 * * * *", completedAt := some measuredAt, healthy := true
      backlog := 0, consecutiveUnsuccessfulCycles := 0, lastCycle := none }
  answers := []

/-- An attempt in the second round whose put lands before it rejects, and the node is restarted. -/
theorem height_runs_restart :
    ∃ s, Run (Step HealthNode.sample) (Aware HealthNode.sample)
        (startHealthService HealthNode.sample 0 none) s ∧
      s.persisted.map (·.height) = some 60000 ∧
      ∀ s', Run (Step HealthNode.sample) (Aware HealthNode.sample) s s' →
        s.persistedHeight ≤ s'.persistedHeight := by
  have hattempt : Step HealthNode.sample (startHealthService HealthNode.sample 0 none)
      (.attempt 100000 (healthySight 90000) .landed) _ :=
    .attempt (by decide) (by decide)
  have hrestart : Step HealthNode.sample _ (.restart 110000) _ :=
    .restart (s := runHealthCheckpoint HealthNode.sample
      (startHealthService HealthNode.sample 0 none) 100000 (healthySight 90000) .landed)
      (fun checkpoint hpersisted => by
        obtain rfl := Option.some.inj hpersisted
        decide)
  have hfirst : Run (Step HealthNode.sample) (Aware HealthNode.sample)
      (startHealthService HealthNode.sample 0 none) _ :=
    .next (a := .attempt 100000 (healthySight 90000) .landed) .start
      (fun _ hdiffers => absurd rfl hdiffers) hattempt
  have haware (s : HealthStore) : Aware HealthNode.sample s (.restart 110000) := trivial
  have hrun := hfirst.next (haware _) hrestart
  exact ⟨_, hrun, by decide, (height_runs hrun.free).2.2.1⟩

/-- A put that lands before it rejects, and an attempt under a clock that went back. -/
theorem landed_put_lowers_height :
    ¬ ∀ (node : HealthNode) (start : Nat) (s s' : HealthStore),
        Run (Step node) always (startHealthService node start none) s →
        Run (Step node) always s s' → s.persistedHeight ≤ s'.persistedHeight := by
  intro hall
  have hlanded : Step HealthNode.sample (startHealthService HealthNode.sample 0 none)
      (.attempt 100000 (healthySight 40000) .landed) _ :=
    .attempt (by decide) (by decide)
  have hearlier : Step HealthNode.sample _ (.attempt 50000 (healthySight 40000) .saved) _ :=
    .attempt (s := runHealthCheckpoint HealthNode.sample
      (startHealthService HealthNode.sample 0 none) 100000 (healthySight 40000) .landed)
      (by decide) (by decide)
  have hlower := hall HealthNode.sample 0 _ _ (.next .start trivial hlanded)
    (.next .start trivial hearlier)
  revert hlower
  decide

end HealthStore

end IpfsNode
