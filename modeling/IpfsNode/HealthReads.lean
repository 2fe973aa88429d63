import IpfsNode.HealthClock

/-!
# Reading the health snapshot

The endpoint does not report a snapshot as it was evaluated: each read refreshes
its ages and what depends on them. `ready_reads` says what a ready answer means
at the time of the read, and that later reads never say more than earlier ones.
`refresh_evaluated_iff` compares the two at the time of the evaluation, where
they differ for a checkpoint that is checked against a clock that went back.
-/

namespace IpfsNode

open HealthService

/-! ## Freshness -/

/-- Observed by the time it is read, and not too long before. -/
def FreshAt (now : Nat) (observedAt : Option Nat) (maxAgeMs : Nat) : Prop :=
  ∃ t, observedAt = some t ∧ t ≤ now ∧ now - t ≤ maxAgeMs

variable {policy : HealthConfig} {input : HealthInputs} {snapshot : HealthSnapshot}
  {now later : Nat} {observedAt : Option Nat} {maxAgeMs : Nat}

theorem freshAt_of_observedWithin (h : observedWithin now observedAt maxAgeMs = true)
    (hpast : NotAfter now observedAt) : FreshAt now observedAt maxAgeMs := by
  cases observedAt with
  | none => cases h
  | some t => exact ⟨t, rfl, hpast t rfl, of_decide_eq_true h⟩

/-- Time alone never makes an observation fresh. -/
theorem observedWithin_mono (h : observedWithin later observedAt maxAgeMs = true)
    (hle : now ≤ later) : observedWithin now observedAt maxAgeMs = true := by
  cases observedAt with
  | none => cases h
  | some t =>
    have hlater : later - t ≤ maxAgeMs := of_decide_eq_true h
    exact decide_eq_true (by omega)

theorem age_le : (age now observedAt).any (fun ms => decide (ms ≤ maxAgeMs)) =
    observedWithin now observedAt maxAgeMs := by
  cases observedAt <;> rfl

/-- Too old, as opposed to never observed. -/
def observedBefore (now : Nat) (observedAt : Option Nat) (maxAgeMs : Nat) : Bool :=
  observedAt.any fun t => decide (maxAgeMs < now - t)

theorem age_gt : (age now observedAt).any (fun ms => decide (maxAgeMs < ms)) =
    observedBefore now observedAt maxAgeMs := by
  cases observedAt <;> rfl

theorem observedBefore_mono (h : observedBefore now observedAt maxAgeMs = true)
    (hle : now ≤ later) : observedBefore later observedAt maxAgeMs = true := by
  cases observedAt with
  | none => cases h
  | some t =>
    have hnow : maxAgeMs < now - t := of_decide_eq_true h
    exact decide_eq_true (by omega)

/-! ## What a refresh recomputes -/

theorem refresh_clockConsistent :
    (refreshHealthSnapshot snapshot now policy).checks.clockConsistent = true ↔
      snapshot.checks.clockConsistent = true ∧ SnapshotPast now snapshot := by
  have heq : (refreshHealthSnapshot snapshot now policy).checks.clockConsistent =
      (snapshot.checks.clockConsistent && notInFuture now snapshot.checkpoint.observedAt &&
        notInFuture now snapshot.storage.measuredAt &&
        notInFuture now snapshot.replication.lastCompleteAt) := rfl
  rw [heq, Bool.and_eq_true, Bool.and_eq_true, Bool.and_eq_true, notInFuture_eq, notInFuture_eq,
    notInFuture_eq]
  exact ⟨fun h => ⟨h.1.1.1, h.1.1.2, h.1.2, h.2⟩,
    fun h => ⟨⟨⟨h.1, h.2.observedAt⟩, h.2.measuredAt⟩, h.2.lastCompleteAt⟩⟩

theorem refresh_checkpointFresh :
    (refreshHealthSnapshot snapshot now policy).checks.checkpointFresh =
      ((refreshHealthSnapshot snapshot now policy).checks.clockConsistent &&
        observedWithin now snapshot.checkpoint.observedAt snapshot.checkpoint.maxAgeMs) :=
  congrArg (_ && ·) age_le

theorem refresh_storageFresh :
    (refreshHealthSnapshot snapshot now policy).checks.storageFresh =
      (snapshot.checks.storageFresh &&
        (refreshHealthSnapshot snapshot now policy).checks.clockConsistent &&
        observedWithin now snapshot.storage.measuredAt policy.storageMaxAgeMs) :=
  congrArg (_ && ·) age_le

/-- The backlog is worked off, or still within its grace. -/
def backlogAllowed (policy : HealthConfig) (replication : ReplicationStatus) : Bool :=
  replication.backlog = 0 || withinGrace policy replication.consecutiveUnsuccessfulCycles

theorem refresh_repairFresh :
    (refreshHealthSnapshot snapshot now policy).checks.repairFresh =
      (!snapshot.replication.repairRequired ||
        (snapshot.checks.repairFresh &&
          (refreshHealthSnapshot snapshot now policy).checks.clockConsistent &&
          backlogAllowed policy snapshot.replication &&
          observedWithin now snapshot.replication.lastCompleteAt policy.repairMaxAgeMs)) :=
  congrArg (fun fresh => !snapshot.replication.repairRequired || (_ && fresh)) age_le

/-- A check that elapsed time can invalidate failed. -/
def freshnessFailed (checks : HealthChecks) : Bool :=
  !checks.clockConsistent || !checks.storageFresh || !checks.repairFresh

/-- The state of a read, from the one before and what has become too old. -/
def readState (state : HealthState) (checkpointExpired freshnessFailed : Bool) : HealthState :=
  if state ≠ .starting ∧ checkpointExpired then .stale
  else if state = .ready ∧ freshnessFailed then .degraded
  else state

theorem refresh_state :
    (refreshHealthSnapshot snapshot now policy).state =
      readState snapshot.state
        (observedBefore now snapshot.checkpoint.observedAt snapshot.checkpoint.maxAgeMs)
        (freshnessFailed (refreshHealthSnapshot snapshot now policy).checks) := by
  rw [← age_gt]
  rfl

theorem readState_ready {state : HealthState} {expired failed : Bool} :
    readState state expired failed = .ready ↔
      state = .ready ∧ expired = false ∧ failed = false := by
  cases state <;> cases expired <;> cases failed <;> decide

/-- Reading again, when more is too old, makes up for reading before. -/
theorem readState_readState {state : HealthState} {expired expired' failed failed' : Bool}
    (hexpired : expired = true → expired' = true) (hfailed : failed = true → failed' = true) :
    readState (readState state expired failed) expired' failed' =
      readState state expired' failed' := by
  cases expired with
  | true =>
    rw [hexpired rfl]
    cases state <;> cases failed <;> cases failed' <;> decide
  | false =>
    cases failed with
    | true =>
      rw [hfailed rfl]
      cases state <;> cases expired' <;> decide
    | false =>
      cases state <;> cases expired' <;> cases failed' <;> decide

/-- A read reports ready when the evaluation did and nothing failed since. -/
theorem refresh_ready_iff :
    (refreshHealthSnapshot snapshot now policy).state = .ready ↔
      snapshot.state = .ready ∧
        observedBefore now snapshot.checkpoint.observedAt snapshot.checkpoint.maxAgeMs = false ∧
        freshnessFailed (refreshHealthSnapshot snapshot now policy).checks = false := by
  rw [refresh_state, readState_ready]

/-! ## A ready answer -/

/-- What a ready answer at a time stands for. -/
structure ReadyAt (policy : HealthConfig) (input : HealthInputs) (now : Nat) : Prop where
  complete : (prerequisiteChecks policy input).every = true
  previous : NotAfter now (input.previous.map (·.completedAt))
  observed : SnapshotPast now (evaluateHealth policy input).1
  checkpoint : FreshAt now (some input.now) policy.maxCheckpointAgeMs
  storage : FreshAt now input.storageUpdatedAt policy.storageMaxAgeMs
  repair : input.repairRequired = true →
    FreshAt now input.repairCompletedAt policy.repairMaxAgeMs ∧
      (input.repairBacklog = 0 ∨
        withinGrace policy input.repairConsecutiveUnsuccessfulCycles = true)

theorem evaluateHealth_ready (h : (evaluateHealth policy input).1.state = .ready) :
    (prerequisiteChecks policy input).every = true := by
  unfold evaluateHealth at h
  dsimp only at h
  split at h
  · assumption
  · split at h
    · cases h
    · split at h <;> cases h

/-- A complete attempt observes its checkpoint as it is evaluated; any other
reports the one before. -/
theorem evaluateHealth_observedAt (policy : HealthConfig) (input : HealthInputs) :
    (evaluateHealth policy input).1.checkpoint.observedAt =
      if (prerequisiteChecks policy input).every then some input.now
      else input.previous.map (·.completedAt) := by
  unfold evaluateHealth
  dsimp only
  split <;> rfl

theorem readyAt_of_ready
    (h : (refreshHealthSnapshot (evaluateHealth policy input).1 now policy).state = .ready) :
    ReadyAt policy input now := by
  obtain ⟨hstate, hyoung, hfresh⟩ := refresh_ready_iff.mp h
  have hcomplete := evaluateHealth_ready hstate
  have hobserved := evaluateHealth_observedAt policy input
  rw [if_pos hcomplete] at hobserved
  simp only [freshnessFailed, Bool.or_eq_false_iff, Bool.not_eq_false'] at hfresh
  obtain ⟨⟨hclock, hstorage⟩, hrepair⟩ := hfresh
  obtain ⟨hevaluated, hpast⟩ := refresh_clockConsistent.mp hclock
  have hnow : input.now ≤ now := hpast.observedAt input.now hobserved
  rw [refresh_storageFresh, Bool.and_eq_true] at hstorage
  rw [refresh_repairFresh, Bool.or_eq_true] at hrepair
  refine ⟨hcomplete, ((clockConsistent_iff policy input).mp hevaluated).1.mono hnow, hpast, ?_, ?_,
    fun hrequired => ?_⟩
  · rw [hobserved] at hyoung
    exact ⟨input.now, rfl, hnow, not_lt.mp (of_decide_eq_false hyoung)⟩
  · exact freshAt_of_observedWithin hstorage.2 hpast.measuredAt
  · have hrequired : (evaluateHealth policy input).1.replication.repairRequired = true := hrequired
    rcases hrepair with hexempt | hrepair
    · rw [hrequired] at hexempt
      cases hexempt
    · rw [Bool.and_eq_true, Bool.and_eq_true] at hrepair
      obtain ⟨⟨-, hbacklog⟩, hwithin⟩ := hrepair
      have hbacklog : (decide (input.repairBacklog = 0) ||
          withinGrace policy input.repairConsecutiveUnsuccessfulCycles) = true := hbacklog
      exact ⟨freshAt_of_observedWithin hwithin hpast.lastCompleteAt, by simpa using hbacklog⟩

/-! ## Later reads -/

/-- Between two reads no check is restored and the node does not become ready. -/
structure NoBetter (later earlier : HealthSnapshot) : Prop where
  failed : freshnessFailed later.checks = false → freshnessFailed earlier.checks = false
  ready : later.state = .ready → earlier.state = .ready
  checkpointFresh : later.checks.checkpointFresh = true → earlier.checks.checkpointFresh = true
  storageFresh : later.checks.storageFresh = true → earlier.checks.storageFresh = true
  repairFresh : later.checks.repairFresh = true → earlier.checks.repairFresh = true

/-- From when all is observed, the clock is as consistent as it was evaluated. -/
theorem refresh_clockConsistent_of_past (h : SnapshotPast now snapshot) :
    (refreshHealthSnapshot snapshot now policy).checks.clockConsistent =
      snapshot.checks.clockConsistent := by
  rw [Bool.eq_iff_iff, refresh_clockConsistent]
  exact and_iff_left h

theorem refresh_noBetter (h : SnapshotPast now snapshot) (hle : now ≤ later) :
    NoBetter (refreshHealthSnapshot snapshot later policy)
      (refreshHealthSnapshot snapshot now policy) := by
  have hnow := @refresh_clockConsistent_of_past policy _ _ h
  have hlater := @refresh_clockConsistent_of_past policy _ _ (h.mono hle)
  have hstorage : (refreshHealthSnapshot snapshot later policy).checks.storageFresh = true →
      (refreshHealthSnapshot snapshot now policy).checks.storageFresh = true := by
    simp only [refresh_storageFresh, hnow, hlater, Bool.and_eq_true]
    exact fun hfresh => ⟨hfresh.1, observedWithin_mono hfresh.2 hle⟩
  have hrepair : (refreshHealthSnapshot snapshot later policy).checks.repairFresh = true →
      (refreshHealthSnapshot snapshot now policy).checks.repairFresh = true := by
    simp only [refresh_repairFresh, hnow, hlater, Bool.or_eq_true, Bool.and_eq_true]
    exact Or.imp id fun hfresh => ⟨hfresh.1, observedWithin_mono hfresh.2 hle⟩
  have hfailed : freshnessFailed (refreshHealthSnapshot snapshot later policy).checks = false →
      freshnessFailed (refreshHealthSnapshot snapshot now policy).checks = false := by
    simp only [freshnessFailed, Bool.or_eq_false_iff, Bool.not_eq_false']
    exact fun hall =>
      ⟨⟨hnow.trans (hlater.symm.trans hall.1.1), hstorage hall.1.2⟩, hrepair hall.2⟩
  refine ⟨hfailed, fun hready => ?_, fun hfresh => ?_, hstorage, hrepair⟩
  · obtain ⟨hstate, hyoung, hall⟩ := refresh_ready_iff.mp hready
    refine refresh_ready_iff.mpr ⟨hstate, Bool.eq_false_iff.mpr fun hold => ?_, hfailed hall⟩
    rw [observedBefore_mono hold hle] at hyoung
    cases hyoung
  · rw [refresh_checkpointFresh, Bool.and_eq_true] at hfresh ⊢
    exact ⟨hnow.trans (hlater.symm.trans hfresh.1), observedWithin_mono hfresh.2 hle⟩

attribute [ext] HealthChecks

/-- Whoever refreshes a snapshot that was read before gets what the snapshot
itself would have given. -/
theorem refresh_refresh (h : SnapshotPast now snapshot) (hle : now ≤ later) :
    refreshHealthSnapshot (refreshHealthSnapshot snapshot now policy) later policy =
      refreshHealthSnapshot snapshot later policy := by
  set read := refreshHealthSnapshot snapshot now policy with hread
  set direct := refreshHealthSnapshot snapshot later policy with hdirect
  set again := refreshHealthSnapshot read later policy with hagain
  have hbetter : NoBetter direct read := refresh_noBetter h hle
  have hlater := h.mono hle
  have hpast : SnapshotPast later read := ⟨hlater.1, hlater.2, hlater.3⟩
  have hclock : again.checks.clockConsistent = direct.checks.clockConsistent := by
    rw [hagain, refresh_clockConsistent_of_past hpast, hread, refresh_clockConsistent_of_past h,
      hdirect, refresh_clockConsistent_of_past hlater]
  have hcheckpoint : again.checks.checkpointFresh = direct.checks.checkpointFresh := by
    rw [hagain, refresh_checkpointFresh, ← hagain, hclock, hdirect, refresh_checkpointFresh]
    rfl
  have hstorage : again.checks.storageFresh = direct.checks.storageFresh := by
    rw [Bool.eq_iff_iff]
    constructor
    · intro hfresh
      rw [hagain, refresh_storageFresh, ← hagain, hclock, hread, refresh_storageFresh] at hfresh
      rw [hdirect, refresh_storageFresh, ← hdirect]
      simp only [Bool.and_eq_true] at hfresh ⊢
      exact ⟨⟨hfresh.1.1.1.1, hfresh.1.2⟩, hfresh.2⟩
    · intro hfresh
      have hkept := hbetter.storageFresh hfresh
      rw [hdirect, refresh_storageFresh, ← hdirect] at hfresh
      rw [hagain, refresh_storageFresh, ← hagain, hclock]
      simp only [Bool.and_eq_true] at hfresh ⊢
      exact ⟨⟨hkept, hfresh.1.2⟩, hfresh.2⟩
  have hrepair : again.checks.repairFresh = direct.checks.repairFresh := by
    rw [Bool.eq_iff_iff]
    constructor
    · intro hfresh
      rw [hagain, refresh_repairFresh, ← hagain, hclock, hread, refresh_repairFresh] at hfresh
      rw [hdirect, refresh_repairFresh, ← hdirect]
      simp only [Bool.or_eq_true, Bool.and_eq_true] at hfresh ⊢
      rcases hfresh with hexempt | hfresh
      · exact .inl hexempt
      · rcases hfresh.1.1.1 with hexempt | hevaluated
        · exact .inl hexempt
        · exact .inr ⟨⟨⟨hevaluated.1.1.1, hfresh.1.1.2⟩, hfresh.1.2⟩, hfresh.2⟩
    · intro hfresh
      have hkept := hbetter.repairFresh hfresh
      rw [hdirect, refresh_repairFresh, ← hdirect] at hfresh
      rw [hagain, refresh_repairFresh, ← hagain, hclock]
      simp only [Bool.or_eq_true, Bool.and_eq_true] at hfresh ⊢
      exact hfresh.imp id fun hfresh => ⟨⟨⟨hkept, hfresh.1.1.2⟩, hfresh.1.2⟩, hfresh.2⟩
  have hchecks : again.checks = direct.checks :=
    HealthChecks.ext hcheckpoint hclock rfl rfl hstorage rfl hrepair rfl
  have hstate : again.state = direct.state := by
    rw [hagain, refresh_state, ← hagain, hchecks, hread, refresh_state, ← hread, hdirect,
      refresh_state, ← hdirect]
    refine readState_readState (fun hold => observedBefore_mono hold hle) fun hfailed => ?_
    by_contra hfresh
    rw [hbetter.failed (Bool.eq_false_iff.mpr hfresh)] at hfailed
    cases hfailed
  calc again = { direct with state := again.state, checks := again.checks } := rfl
    _ = direct := by rw [hstate, hchecks]

/-- A read reports ready only while the evaluation was complete and everything
it recorded is neither in the future nor too old; reads in the order of time,
once everything recorded is past, never get better, and it does not matter
whether the snapshot was read before. -/
theorem ready_reads (policy : HealthConfig) (input : HealthInputs) :
    let snapshot := (evaluateHealth policy input).1
    (∀ now, (refreshHealthSnapshot snapshot now policy).state = .ready →
      ReadyAt policy input now) ∧
    ∀ times : List Nat, times.Pairwise (· ≤ ·) → (∀ now ∈ times, SnapshotPast now snapshot) →
      times.Pairwise fun now later =>
        NoBetter (refreshHealthSnapshot snapshot later policy)
          (refreshHealthSnapshot snapshot now policy) ∧
        refreshHealthSnapshot (refreshHealthSnapshot snapshot now policy) later policy =
          refreshHealthSnapshot snapshot later policy := by
  refine ⟨fun now hready => readyAt_of_ready hready, fun times hsorted hpast => ?_⟩
  refine List.Pairwise.imp_of_mem (fun hnow _ hle => ?_) hsorted
  exact ⟨refresh_noBetter (hpast _ hnow) hle, refresh_refresh (hpast _ hnow) hle⟩

namespace TimelyRead

/-- An attempt that succeeds, with a measurement of ten seconds before. -/
def inputs : HealthInputs :=
  { now := 600000, heliaReady := true, startupComplete := true, startupHealthy := true
    storageUpdatedAt := some 590000, storageAvailableBytes := 10, storageReservedBytes := 5
    repairRequired := false, repairSchedule := "0 * * * *", repairCompletedAt := none
    repairHealthy := true, repairBacklog := 0, repairConsecutiveUnsuccessfulCycles := 0
    repairLastCycle := none, attestedPeers := 0, membershipVersion := "a", previous := none }

def readAt (now : Nat) : HealthSnapshot :=
  refreshHealthSnapshot (evaluateHealth HealthNode.sample.policy inputs).1 now
    HealthNode.sample.policy

end TimelyRead

open TimelyRead in
theorem ready_reads_timely :
    FreshAt 700000 inputs.storageUpdatedAt HealthNode.sample.policy.storageMaxAgeMs ∧
      (readAt 720000).state ≠ .ready ∧ NoBetter (readAt 720000) (readAt 700000) := by
  obtain ⟨hsound, hlater⟩ := ready_reads HealthNode.sample.policy inputs
  have hobserved : (evaluateHealth HealthNode.sample.policy inputs).1.checkpoint.observedAt =
      some 600000 := by
    decide
  have hpast : ∀ now ∈ [700000, 720000],
      SnapshotPast now (evaluateHealth HealthNode.sample.policy inputs).1 := by
    intro now hmem
    have hnow : 600000 ≤ now := by
      simp only [List.mem_cons, List.not_mem_nil, or_false] at hmem
      omega
    refine ⟨?_, notAfter_some (by omega), notAfter_none⟩
    rw [hobserved]
    exact notAfter_some hnow
  have hpairs := hlater [700000, 720000] (by decide) hpast
  have hready : (readAt 700000).state = .ready := by decide
  exact ⟨(hsound 700000 hready).storage, by decide,
    ((List.pairwise_cons.mp hpairs).1 720000 (by simp)).1⟩

/-! ## Reading at the time of the evaluation -/

theorem evaluateHealth_state (policy : HealthConfig) (input : HealthInputs) :
    (evaluateHealth policy input).1.state =
      if (prerequisiteChecks policy input).every then .ready
      else if !input.startupComplete then .starting
      else if observedBefore input.now (input.previous.map (·.completedAt))
          policy.maxCheckpointAgeMs then .stale
      else .degraded := by
  unfold observedBefore
  rw [Option.any_map]
  rfl

/-- What is consistent at the time of the evaluation is past by then. -/
theorem evaluated_past (h : (evaluateHealth policy input).1.checks.clockConsistent = true) :
    SnapshotPast input.now (evaluateHealth policy input).1 := by
  obtain ⟨hprevious, hstorage, hrepair⟩ := (clockConsistent_iff policy input).mp h
  refine ⟨?_, hstorage, hrepair⟩
  rw [evaluateHealth_observedAt]
  split
  · exact notAfter_some le_rfl
  · exact hprevious

theorem refresh_evaluated_clockConsistent :
    (refreshHealthSnapshot (evaluateHealth policy input).1 input.now
      policy).checks.clockConsistent =
        (evaluateHealth policy input).1.checks.clockConsistent := by
  rw [Bool.eq_iff_iff, refresh_clockConsistent]
  exact and_iff_left_of_imp evaluated_past

theorem refresh_evaluated_storageFresh :
    (refreshHealthSnapshot (evaluateHealth policy input).1 input.now policy).checks.storageFresh =
      (evaluateHealth policy input).1.checks.storageFresh := by
  have hevaluated : (evaluateHealth policy input).1.checks.storageFresh =
      ((evaluateHealth policy input).1.checks.clockConsistent &&
        observedWithin input.now input.storageUpdatedAt policy.storageMaxAgeMs) := rfl
  have hread := @refresh_storageFresh policy (evaluateHealth policy input).1 input.now
  rw [refresh_evaluated_clockConsistent] at hread
  refine hread.trans ((Bool.and_assoc _ _ _).trans ?_)
  exact (congrArg (_ && ·) hevaluated.symm).trans (Bool.and_self _)

theorem refresh_evaluated_repairFresh :
    (refreshHealthSnapshot (evaluateHealth policy input).1 input.now policy).checks.repairFresh =
      (evaluateHealth policy input).1.checks.repairFresh := by
  have hevaluated : (evaluateHealth policy input).1.checks.repairFresh =
      (!input.repairRequired ||
        ((evaluateHealth policy input).1.checks.clockConsistent &&
          observedWithin input.now input.repairCompletedAt policy.repairMaxAgeMs &&
          if input.repairBacklog = 0 then input.repairHealthy
          else withinGrace policy input.repairConsecutiveUnsuccessfulCycles)) := rfl
  have hread := @refresh_repairFresh policy (evaluateHealth policy input).1 input.now
  rw [refresh_evaluated_clockConsistent] at hread
  rw [hread, Bool.eq_iff_iff]
  constructor
  · intro hfresh
    rcases Bool.or_eq_true_iff.mp hfresh with hexempt | hfresh
    · rw [hevaluated]
      exact Bool.or_eq_true_iff.mpr (.inl hexempt)
    · simp only [Bool.and_eq_true] at hfresh
      exact hfresh.1.1.1
  · intro hfresh
    have hparts := hfresh
    rw [hevaluated] at hparts
    simp only [Bool.or_eq_true, Bool.and_eq_true] at hparts ⊢
    refine hparts.imp id fun hparts => ⟨⟨⟨hfresh, hparts.1.1⟩, ?_⟩, hparts.1.2⟩
    have hbacklog := hparts.2
    show (decide (input.repairBacklog = 0) ||
      withinGrace policy input.repairConsecutiveUnsuccessfulCycles) = true
    split at hbacklog
    · rename_i hnone
      rw [decide_eq_true hnone, Bool.true_or]
    · rw [hbacklog, Bool.or_true]

/-- The state is the same, whatever the checks say about the checkpoint. -/
theorem refresh_evaluated_state :
    (refreshHealthSnapshot (evaluateHealth policy input).1 input.now policy).state =
      (evaluateHealth policy input).1.state := by
  have hobserved := evaluateHealth_observedAt policy input
  have hmax : (evaluateHealth policy input).1.checkpoint.maxAgeMs = policy.maxCheckpointAgeMs := rfl
  rw [refresh_state, hobserved, hmax, evaluateHealth_state]
  cases hcomplete : (prerequisiteChecks policy input).every with
  | true =>
    have hpassed := hcomplete
    simp only [HealthChecks.every, Bool.and_eq_true] at hpassed
    have hfailed : freshnessFailed (refreshHealthSnapshot (evaluateHealth policy input).1
        input.now policy).checks = false := by
      simp only [freshnessFailed, refresh_evaluated_clockConsistent, refresh_evaluated_storageFresh,
        refresh_evaluated_repairFresh, Bool.or_eq_false_iff, Bool.not_eq_false']
      exact ⟨⟨hpassed.1.1.1.1.1.1.2, hpassed.1.1.1.2⟩, hpassed.1.2⟩
    simp [hfailed, observedBefore, readState]
  | false =>
    simp only [Bool.false_eq_true, if_false]
    cases input.startupComplete with
    | false => simp [readState]
    | true =>
      cases observedBefore input.now (input.previous.map (·.completedAt))
          policy.maxCheckpointAgeMs <;> simp [readState]

/-- With the clock inconsistent, it is the last checkpoint that is looked at. -/
theorem checkpointFresh_of_inconsistent
    (h : (evaluateHealth policy input).1.checks.clockConsistent = false) :
    (evaluateHealth policy input).1.checks.checkpointFresh = false ↔
      ∀ previous ∈ input.previous,
        policy.maxCheckpointAgeMs < input.now - previous.completedAt := by
  have hobserved := evaluateHealth_observedAt policy input
  have hincomplete : (prerequisiteChecks policy input).every = false := by
    have hclock : (prerequisiteChecks policy input).clockConsistent = false := h
    simp [HealthChecks.every, hclock]
  rw [hincomplete, if_neg Bool.false_ne_true] at hobserved
  have hfresh : (evaluateHealth policy input).1.checks.checkpointFresh =
      observedWithin input.now (evaluateHealth policy input).1.checkpoint.observedAt
        policy.maxCheckpointAgeMs := rfl
  rw [hfresh, hobserved]
  cases input.previous with
  | none => exact ⟨fun _ _ hmem => absurd hmem (Option.not_mem_none _), fun _ => rfl⟩
  | some previous =>
    simp only [observedWithin, Option.map_some, Option.any_some, decide_eq_false_iff_not, not_le,
      Option.mem_some_iff, forall_eq']

/-- Reading the snapshot when it was evaluated gives it back, unless something
that it recorded is in the future while the last checkpoint counts as fresh. -/
theorem refresh_evaluated_iff (policy : HealthConfig) (input : HealthInputs) :
    refreshHealthSnapshot (evaluateHealth policy input).1 input.now policy =
        (evaluateHealth policy input).1 ↔
      (NotAfter input.now (input.previous.map (·.completedAt)) ∧
        NotAfter input.now input.storageUpdatedAt ∧
        NotAfter input.now input.repairCompletedAt) ∨
      ∀ previous ∈ input.previous,
        policy.maxCheckpointAgeMs < input.now - previous.completedAt := by
  rw [← clockConsistent_iff policy]
  have hfresh : (refreshHealthSnapshot (evaluateHealth policy input).1 input.now
      policy).checks.checkpointFresh =
      ((evaluateHealth policy input).1.checks.clockConsistent &&
        (evaluateHealth policy input).1.checks.checkpointFresh) := by
    rw [refresh_checkpointFresh, refresh_evaluated_clockConsistent]
    rfl
  constructor
  · intro hsame
    rw [hsame] at hfresh
    cases hclock : (evaluateHealth policy input).1.checks.clockConsistent with
    | true => exact .inl rfl
    | false =>
      rw [hclock, Bool.false_and] at hfresh
      exact .inr ((checkpointFresh_of_inconsistent hclock).mp hfresh)
  · intro hcondition
    have hcheckpoint : (refreshHealthSnapshot (evaluateHealth policy input).1 input.now
        policy).checks.checkpointFresh =
          (evaluateHealth policy input).1.checks.checkpointFresh := by
      rw [hfresh]
      cases hclock : (evaluateHealth policy input).1.checks.clockConsistent with
      | true => rw [Bool.true_and]
      | false =>
        rcases hcondition with hconsistent | hold
        · rw [hclock] at hconsistent
          cases hconsistent
        · rw [(checkpointFresh_of_inconsistent hclock).mpr hold, Bool.false_and]
    have hchecks := HealthChecks.ext hcheckpoint (@refresh_evaluated_clockConsistent policy input)
      rfl rfl refresh_evaluated_storageFresh rfl refresh_evaluated_repairFresh rfl
    calc refreshHealthSnapshot (evaluateHealth policy input).1 input.now policy
        = { (evaluateHealth policy input).1 with
            state := (refreshHealthSnapshot (evaluateHealth policy input).1 input.now policy).state
            checks :=
              (refreshHealthSnapshot (evaluateHealth policy input).1 input.now policy).checks } :=
          rfl
      _ = (evaluateHealth policy input).1 := by rw [refresh_evaluated_state, hchecks]

/-- The clock is a second behind the checkpoint that was loaded. -/
def rolledBack : HealthInputs :=
  { TimelyRead.inputs with
    previous := some { height := 600000, completedAt := 601000, membershipVersion := "a"
                       attestedPeers := 0 } }

theorem evaluated_fresh_read_stale :
    (evaluateHealth HealthNode.sample.policy rolledBack).1.checks.checkpointFresh = true ∧
      (refreshHealthSnapshot (evaluateHealth HealthNode.sample.policy rolledBack).1
        rolledBack.now HealthNode.sample.policy).checks.checkpointFresh = false ∧
      ¬ ∀ (policy : HealthConfig) (input : HealthInputs),
        refreshHealthSnapshot (evaluateHealth policy input).1 input.now policy =
          (evaluateHealth policy input).1 := by
  refine ⟨by decide, by decide, fun hsame => ?_⟩
  have hfresh := congrArg (·.checks.checkpointFresh) (hsame HealthNode.sample.policy rolledBack)
  revert hfresh
  decide

end IpfsNode
