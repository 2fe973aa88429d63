import IpfsNode.Health
import IpfsNode.RepairEvidence
import IpfsNode.Transition

/-!
# The clock of the health snapshot

An attempt captures the time, reads the repair evidence, waits for its peers and
only then reads the storage report; what is stamped while it waits is later than
the time it captured, and is taken for a sign that the clock went back.
`clock_runs` says that nothing else is: in a run in which no attempt meets such
a stamp, every snapshot is consistent.
-/

namespace IpfsNode

open TransitionSystem

def getRepairHealthEvidence (node : HealthNode) (evidence : Option (RepairCycleEvidence String))
    (now : Nat) : RepairHealthEvidence where
  required := node.repairRequired
  schedule := node.repairSchedule
  completedAt :=
    (evidence.bind (·.lastCompletedAt)).or (if node.repairRequired then none else some now)
  healthy := !node.repairRequired || evidence.any (·.lastCompletedSuccessfully)
  backlog :=
    if node.repairRequired then
      max (evidence.elim 0 (·.lastCompletedBacklog))
        (evidence.elim 0 fun evidence =>
          evidence.counts.stillMissing + evidence.counts.unrecoverable)
    else 0
  consecutiveUnsuccessfulCycles :=
    if node.repairRequired then evidence.elim 0 (·.consecutiveUnsuccessfulCycles) else 0
  lastCycle := evidence.bind fun evidence => evidence.lastCompletedAt.map fun completedAt =>
    { examined := evidence.lastCompletedExamined
      stillMissing := evidence.lastCompletedStillMissing
      unrecoverable := evidence.lastCompletedUnrecoverable
      completedAt := some completedAt
      successful := evidence.lastCompletedSuccessfully }

/-- Where the attempt in flight waits. -/
inductive HealthAttempt where
  /-- For the peers; the time and the repair evidence are captured. -/
  | attesting (now : Nat) (repair : RepairHealthEvidence)
  /-- For its checkpoint to be saved. -/
  | saving (snapshot : HealthSnapshot) (completed : HealthCheckpoint)

/-- The service with the clock, and what the jobs beside it keep. -/
structure HealthService where
  clock : Nat
  storage : StorageReport
  evidence : Option (RepairCycleEvidence String)
  previous : Option HealthCheckpoint
  snapshot : HealthSnapshot
  inFlight : Option HealthAttempt

namespace HealthService

def start (node : HealthNode) (clock : Nat) (previous : Option HealthCheckpoint) :
    HealthService where
  clock := clock
  storage :=
    { availableBytes := 0, reservedBytes := node.diskReserveBytes, updatedAt := none }
  evidence := none
  previous := previous
  snapshot := initialSnapshot node clock
  inFlight := none

/-- What an attempt sees once its peers have answered. -/
def seen (s : HealthService) (repair : RepairHealthEvidence)
    (heliaReady startupComplete startupHealthy : Bool) (answers : List Bool) : Observations where
  heliaReady := heliaReady
  startupComplete := startupComplete
  startupHealthy := startupHealthy
  storage := s.storage
  repair := repair
  answers := answers

/-- The snapshot is published at once, or when the checkpoint is saved. -/
def evaluated (s : HealthService) : HealthSnapshot × Option HealthCheckpoint → HealthService
  | (snapshot, none) => { s with snapshot, inFlight := none }
  | (snapshot, some completed) => { s with inFlight := some (.saving snapshot completed) }

def settled (s : HealthService) (snapshot : HealthSnapshot) (completed : HealthCheckpoint) :
    Bool → HealthService
  | true => { s with previous := some completed, snapshot, inFlight := none }
  | false => { s with inFlight := none }

inductive Action where
  | refreshStorageMetrics (now availableBytes : Nat)
  | loadEvidence (now : Nat) (config : EvidenceConfig) (stored : Option Json)
  | repairPass (now completedAt : Nat) (report : RepairReport String)
  | begin (now asked : Nat)
  | evaluate (now : Nat) (heliaReady startupComplete startupHealthy : Bool) (answers : List Bool)
  | settle (now : Nat) (saved : Bool)
  | read (now : Nat)

/-- Every step is taken at a time that is not before the last one. -/
inductive Step (node : HealthNode) : HealthService → Action → HealthService → Prop
  | refreshStorageMetrics {s : HealthService} {now availableBytes : Nat} (hnow : s.clock ≤ now) :
      Step node s (.refreshStorageMetrics now availableBytes)
        { s with
          clock := now
          storage :=
            { availableBytes, reservedBytes := node.diskReserveBytes, updatedAt := some now } }
  | loadEvidence {s : HealthService} {now : Nat} {config : EvidenceConfig}
      {stored : Option Json} (hnow : s.clock ≤ now) (hnone : s.evidence = none) :
      Step node s (.loadEvidence now config stored)
        { s with
          clock := now
          evidence := some
            (IpfsNode.loadEvidence config { evidence := none, stored } now).evidence }
  | repairPass {s : HealthService} {now completedAt : Nat} {report : RepairReport String}
      {current : RepairCycleEvidence String} (hnow : s.clock ≤ now)
      (hcompleted : completedAt ≤ now) (hcurrent : s.evidence = some current) :
      Step node s (.repairPass now completedAt report)
        { s with clock := now, evidence := some (nextEvidence current report completedAt) }
  | begin {s : HealthService} {now asked : Nat} (hnow : s.clock ≤ now) (hasked : now ≤ asked)
      (hidle : s.inFlight = none) :
      Step node s (.begin now asked)
        { s with
          clock := asked
          inFlight :=
            some (.attesting now (getRepairHealthEvidence node s.evidence asked)) }
  | evaluate {s : HealthService} {now captured : Nat} {repair : RepairHealthEvidence}
      {heliaReady startupComplete startupHealthy : Bool} {answers : List Bool}
      (hnow : s.clock ≤ now) (hflight : s.inFlight = some (.attesting captured repair)) :
      Step node s (.evaluate now heliaReady startupComplete startupHealthy answers)
        ({ s with clock := now }.evaluated
          (evaluateHealth node.policy (healthInputs node s.previous captured
            (s.seen repair heliaReady startupComplete startupHealthy answers))))
  | settle {s : HealthService} {now : Nat} {saved : Bool} {snapshot : HealthSnapshot}
      {completed : HealthCheckpoint} (hnow : s.clock ≤ now)
      (hflight : s.inFlight = some (.saving snapshot completed)) :
      Step node s (.settle now saved) ({ s with clock := now }.settled snapshot completed saved)
  | read {s : HealthService} {now : Nat} (hnow : s.clock ≤ now) :
      Step node s (.read now) { s with clock := now }

/-- What an attempt compares with the time it captured is not later. -/
def Timely (node : HealthNode) (s : HealthService) : Action → Prop
  | .begin now asked =>
      s.evidence.bind (·.lastCompletedAt) = none → node.repairRequired = false → asked ≤ now
  | .evaluate .. =>
      ∀ captured repair, s.inFlight = some (.attesting captured repair) →
        ∀ t ∈ s.storage.updatedAt, t ≤ captured
  | _ => True

/-! ## Nothing is recorded ahead of the clock -/

def NotAfter (clock : Nat) (observedAt : Option Nat) : Prop := ∀ t ∈ observedAt, t ≤ clock

/-- The times that a snapshot carries. -/
structure SnapshotPast (clock : Nat) (snapshot : HealthSnapshot) : Prop where
  observedAt : NotAfter clock snapshot.checkpoint.observedAt
  measuredAt : NotAfter clock snapshot.storage.measuredAt
  lastCompleteAt : NotAfter clock snapshot.replication.lastCompleteAt

def AttemptPast (clock : Nat) (previous : Option HealthCheckpoint) : HealthAttempt → Prop
  | .attesting now repair =>
      now ≤ clock ∧ NotAfter now (previous.map (·.completedAt)) ∧ NotAfter clock repair.completedAt
  | .saving snapshot completed => SnapshotPast clock snapshot ∧ completed.completedAt ≤ clock

structure Past (s : HealthService) : Prop where
  storage : NotAfter s.clock s.storage.updatedAt
  evidence : NotAfter s.clock (s.evidence.bind (·.lastCompletedAt))
  previous : NotAfter s.clock (s.previous.map (·.completedAt))
  snapshot : SnapshotPast s.clock s.snapshot
  inFlight : ∀ attempt, s.inFlight = some attempt → AttemptPast s.clock s.previous attempt

section

variable {node : HealthNode} {s s' : HealthService} {a : Action} {clock now : Nat}
  {observedAt : Option Nat} {snapshot : HealthSnapshot}

theorem NotAfter.mono (h : NotAfter clock observedAt) (hle : clock ≤ now) :
    NotAfter now observedAt :=
  fun t ht => Nat.le_trans (h t ht) hle

theorem notAfter_none : NotAfter clock none := nofun

theorem notAfter_some {t : Nat} (h : t ≤ clock) : NotAfter clock (some t) := by
  rintro _ ⟨⟩
  exact h

theorem notInFuture_eq : notInFuture now observedAt = true ↔ NotAfter now observedAt := by
  cases observedAt with
  | none => exact ⟨fun _ => notAfter_none, fun _ => rfl⟩
  | some t =>
    simp only [notInFuture, Option.all_some, decide_eq_true_eq]
    exact ⟨notAfter_some, fun h => h t rfl⟩

theorem SnapshotPast.mono (h : SnapshotPast clock snapshot) (hle : clock ≤ now) :
    SnapshotPast now snapshot :=
  ⟨h.observedAt.mono hle, h.measuredAt.mono hle, h.lastCompleteAt.mono hle⟩

theorem AttemptPast.mono {previous : Option HealthCheckpoint} {attempt : HealthAttempt}
    (h : AttemptPast clock previous attempt) (hle : clock ≤ now) :
    AttemptPast now previous attempt := by
  cases attempt with
  | attesting captured repair => exact ⟨Nat.le_trans h.1 hle, h.2.1, h.2.2.mono hle⟩
  | saving snapshot completed => exact ⟨h.1.mono hle, Nat.le_trans h.2 hle⟩

theorem Past.at_later (h : Past s) (hle : s.clock ≤ now) : Past { s with clock := now } where
  storage := h.storage.mono hle
  evidence := h.evidence.mono hle
  previous := h.previous.mono hle
  snapshot := h.snapshot.mono hle
  inFlight := fun attempt hflight => (h.inFlight attempt hflight).mono hle

theorem repairEvidence_past {evidence : Option (RepairCycleEvidence String)}
    (h : NotAfter now (evidence.bind (·.lastCompletedAt))) :
    NotAfter now (getRepairHealthEvidence node evidence now).completedAt := by
  show NotAfter now ((evidence.bind (·.lastCompletedAt)).or
    (if node.repairRequired then none else some now))
  cases hcompleted : evidence.bind (·.lastCompletedAt) with
  | some t =>
    rw [hcompleted] at h
    exact h
  | none =>
    rw [Option.none_or]
    split
    · exact notAfter_none
    · exact notAfter_some (Nat.le_refl _)

theorem nextEvidence_past {current : RepairCycleEvidence String} {report : RepairReport String}
    {completedAt : Nat} (h : NotAfter now current.lastCompletedAt) (hle : completedAt ≤ now) :
    NotAfter now (nextEvidence current report completedAt).lastCompletedAt := by
  unfold nextEvidence
  dsimp only
  split
  · dsimp only
    split
    · exact notAfter_some hle
    · exact h
  · exact h

/-- The times in the snapshot of an attempt are those that it compared. -/
theorem evaluated_past (policy : HealthConfig) (input : HealthInputs)
    (hnow : input.now ≤ clock)
    (hprevious : NotAfter input.now (input.previous.map (·.completedAt)))
    (hstorage : NotAfter clock input.storageUpdatedAt)
    (hrepair : NotAfter clock input.repairCompletedAt) :
    SnapshotPast clock (evaluateHealth policy input).1 ∧
      ∀ completed, (evaluateHealth policy input).2 = some completed →
        completed.completedAt ≤ clock := by
  have hcompleted : ∀ completed, (evaluateHealth policy input).2 = some completed →
      completed.completedAt ≤ clock := by
    intro completed h
    rw [(evaluateHealth_completed h).2.2.1]
    exact hnow
  refine ⟨⟨?_, hstorage, hrepair⟩, hcompleted⟩
  show NotAfter clock
    (((evaluateHealth policy input).2.or input.previous).map (·.completedAt))
  cases h : (evaluateHealth policy input).2 with
  | none => exact hprevious.mono hnow
  | some completed => exact notAfter_some (hcompleted completed h)

theorem Past.evaluated {result : HealthSnapshot × Option HealthCheckpoint} (h : Past s)
    (hsnapshot : SnapshotPast s.clock result.1)
    (hcompleted : ∀ completed, result.2 = some completed → completed.completedAt ≤ s.clock) :
    Past (s.evaluated result) := by
  obtain ⟨snapshot, completed⟩ := result
  cases completed with
  | none => exact { h with snapshot := hsnapshot, inFlight := fun _ hflight => nomatch hflight }
  | some completed =>
    refine { h with inFlight := ?_ }
    rintro _ ⟨⟩
    exact ⟨hsnapshot, hcompleted completed rfl⟩

theorem Step.past (hstep : Step node s a s') (h : Past s) : Past s' := by
  cases hstep with
  | refreshStorageMetrics hnow =>
    exact { h.at_later hnow with storage := notAfter_some (Nat.le_refl _) }
  | loadEvidence hnow hnone =>
    exact { h.at_later hnow with evidence := loadEvidence_lastCompletedAt }
  | repairPass hnow hcompleted hcurrent =>
    have hevidence := h.evidence
    rw [hcurrent] at hevidence
    exact
      { h.at_later hnow with
        evidence := nextEvidence_past (hevidence.mono hnow) hcompleted }
  | begin hnow hasked hidle =>
    have hle := Nat.le_trans hnow hasked
    refine { h.at_later hle with inFlight := ?_ }
    rintro _ ⟨⟩
    exact ⟨hasked, h.previous.mono hnow, repairEvidence_past (h.evidence.mono hle)⟩
  | @evaluate now captured repair heliaReady startupComplete startupHealthy answers hnow hflight =>
    obtain ⟨hcaptured, hprevious, hrepair⟩ := h.inFlight _ hflight
    have hpast := evaluated_past node.policy
      (healthInputs node s.previous captured
        (s.seen repair heliaReady startupComplete startupHealthy answers))
      (Nat.le_trans hcaptured hnow) hprevious (h.storage.mono hnow) (hrepair.mono hnow)
    exact (h.at_later hnow).evaluated hpast.1 hpast.2
  | @settle now saved snapshot completed hnow hflight =>
    obtain ⟨hsnapshot, hcompleted⟩ := h.inFlight _ hflight
    have hlater := h.at_later hnow
    cases saved with
    | true =>
      exact
        { hlater with
          previous := notAfter_some (Nat.le_trans hcompleted hnow)
          snapshot := hsnapshot.mono hnow, inFlight := fun _ hflight => nomatch hflight }
    | false => exact { hlater with inFlight := fun _ hflight => nomatch hflight }
  | read hnow => exact h.at_later hnow

/-! ## What is not reported as inconsistent -/

/-- The attempt has captured nothing that is later than its time. -/
def AttemptConsistent : HealthAttempt → Prop
  | .attesting now repair => NotAfter now repair.completedAt
  | .saving snapshot _ => snapshot.checks.clockConsistent = true

structure Consistent (s : HealthService) : Prop where
  snapshot : s.snapshot.checks.clockConsistent = true
  inFlight : ∀ attempt, s.inFlight = some attempt → AttemptConsistent attempt

theorem clockConsistent_iff (policy : HealthConfig) (input : HealthInputs) :
    (evaluateHealth policy input).1.checks.clockConsistent = true ↔
      NotAfter input.now (input.previous.map (·.completedAt)) ∧
        NotAfter input.now input.storageUpdatedAt ∧ NotAfter input.now input.repairCompletedAt := by
  rw [evaluateHealth_clockConsistent, Bool.and_eq_true, Bool.and_eq_true, notInFuture_eq,
    notInFuture_eq, notInFuture_eq, and_assoc]

theorem refresh_consistent {policy : HealthConfig} (hpast : SnapshotPast now snapshot)
    (h : snapshot.checks.clockConsistent = true) :
    (refreshHealthSnapshot snapshot now policy).checks.clockConsistent = true := by
  show (snapshot.checks.clockConsistent &&
      notInFuture now snapshot.checkpoint.observedAt &&
      notInFuture now snapshot.storage.measuredAt &&
      notInFuture now snapshot.replication.lastCompleteAt) = true
  rw [h, notInFuture_eq.2 hpast.observedAt, notInFuture_eq.2 hpast.measuredAt,
    notInFuture_eq.2 hpast.lastCompleteAt]
  rfl

/-- The repair evidence of an attempt is from the past, or stamped as it is read. -/
theorem repairEvidence_timely {evidence : Option (RepairCycleEvidence String)} {asked : Nat}
    (hevidence : NotAfter now (evidence.bind (·.lastCompletedAt)))
    (hasked : evidence.bind (·.lastCompletedAt) = none → node.repairRequired = false →
      asked ≤ now) :
    NotAfter now (getRepairHealthEvidence node evidence asked).completedAt := by
  show NotAfter now ((evidence.bind (·.lastCompletedAt)).or
    (if node.repairRequired then none else some asked))
  cases hcompleted : evidence.bind (·.lastCompletedAt) with
  | some t =>
    rw [hcompleted] at hevidence
    exact hevidence
  | none =>
    rw [Option.none_or]
    cases hrequired : node.repairRequired with
    | true => exact notAfter_none
    | false => exact notAfter_some (hasked hcompleted hrequired)

theorem Consistent.evaluated {result : HealthSnapshot × Option HealthCheckpoint}
    (h : Consistent s) (hresult : result.1.checks.clockConsistent = true) :
    Consistent (s.evaluated result) := by
  obtain ⟨snapshot, completed⟩ := result
  cases completed with
  | none => exact ⟨hresult, fun _ hflight => nomatch hflight⟩
  | some completed =>
    refine ⟨h.snapshot, ?_⟩
    rintro _ ⟨⟩
    exact hresult

theorem Step.consistent (hstep : Step node s a s') (hpast : Past s) (h : Consistent s)
    (htimely : Timely node s a) : Consistent s' := by
  cases hstep with
  | refreshStorageMetrics | loadEvidence | repairPass | read => exact ⟨h.snapshot, h.inFlight⟩
  | begin hnow hasked hidle =>
    refine ⟨h.snapshot, ?_⟩
    rintro _ ⟨⟩
    exact repairEvidence_timely (hpast.evidence.mono hnow) htimely
  | @evaluate now captured repair heliaReady startupComplete startupHealthy answers hnow hflight =>
    have hrepair : NotAfter captured repair.completedAt := h.inFlight _ hflight
    have hconsistent := (clockConsistent_iff node.policy
      (healthInputs node s.previous captured
        (s.seen repair heliaReady startupComplete startupHealthy answers))).2
      ⟨(hpast.inFlight _ hflight).2.1, htimely captured repair hflight, hrepair⟩
    have hlater : Consistent { s with clock := now } := ⟨h.snapshot, h.inFlight⟩
    exact hlater.evaluated hconsistent
  | @settle now saved snapshot completed hnow hflight =>
    cases saved with
    | true => exact ⟨h.inFlight _ hflight, fun _ hflight => nomatch hflight⟩
    | false => exact ⟨h.snapshot, fun _ hflight => nomatch hflight⟩

theorem start_past {previous : Option HealthCheckpoint}
    (hprevious : ∀ checkpoint, previous = some checkpoint → checkpoint.completedAt ≤ clock) :
    Past (start node clock previous) := by
  refine ⟨notAfter_none, notAfter_none, ?_, ?_, fun _ hflight => nomatch hflight⟩
  · cases previous with
    | none => exact notAfter_none
    | some checkpoint => exact notAfter_some (hprevious checkpoint rfl)
  · exact (evaluated_past node.policy (initialInputs node clock) (Nat.le_refl clock)
      notAfter_none notAfter_none notAfter_none).1

theorem start_consistent {previous : Option HealthCheckpoint} :
    Consistent (start node clock previous) :=
  ⟨(clockConsistent_iff _ _).2 ⟨notAfter_none, notAfter_none, notAfter_none⟩,
    fun _ hflight => nomatch hflight⟩

end

/-- While no attempt meets a stamp later than its own time, every snapshot is
consistent; and an attempt that meets one in the storage report is not. -/
theorem clock_runs {node : HealthNode} {clock : Nat} {previous : Option HealthCheckpoint}
    {s : HealthService}
    (hprevious : ∀ checkpoint, previous = some checkpoint → checkpoint.completedAt ≤ clock)
    (hrun : Run (Step node) (Timely node) (start node clock previous) s) :
    s.snapshot.checks.clockConsistent = true ∧
      (∀ snapshot completed, s.inFlight = some (.saving snapshot completed) →
        snapshot.checks.clockConsistent = true) ∧
      (∀ now, s.clock ≤ now →
        (refreshHealthSnapshot s.snapshot now node.policy).checks.clockConsistent = true) ∧
      ∀ captured repair heliaReady startupComplete startupHealthy answers,
        s.inFlight = some (.attesting captured repair) →
        ((evaluateHealth node.policy (healthInputs node s.previous captured
            (s.seen repair heliaReady startupComplete startupHealthy answers))).1.checks.clockConsistent
            = true ↔
          ∀ t, s.storage.updatedAt = some t → t ≤ captured) := by
  have h : Past s ∧ Consistent s :=
    hrun.invariant (I := fun s => Past s ∧ Consistent s)
      ⟨start_past hprevious, start_consistent⟩ fun _ _ _ h htimely hstep =>
        ⟨hstep.past h.1, hstep.consistent h.1 h.2 htimely⟩
  obtain ⟨hpast, hconsistent⟩ := h
  refine ⟨hconsistent.snapshot, ?_, ?_, ?_⟩
  · exact fun snapshot completed hflight => hconsistent.inFlight _ hflight
  · exact fun now hnow => refresh_consistent (hpast.snapshot.mono hnow) hconsistent.snapshot
  intro captured repair heliaReady startupComplete startupHealthy answers hflight
  rw [clockConsistent_iff]
  constructor
  · exact fun hall t ht => hall.2.1 t ht
  · intro hstorage
    exact ⟨(hpast.inFlight _ hflight).2.1, hstorage, hconsistent.inFlight _ hflight⟩

/-- A node that asks its one peer for an attestation. -/
def peeredNode : HealthNode :=
  { HealthNode.sample with
    policy := { HealthNode.sample.policy with requiredPeerCount := 1 }
    peers := 1
    peers_lt := by decide }

/-- An attempt that began at time 100 and waits for the peer. -/
def waitingAttempt (s : HealthService) : HealthService :=
  { s with
    clock := 100
    inFlight := some (.attesting 100 (getRepairHealthEvidence peeredNode none 100)) }

/-- The storage report is refreshed. -/
def refreshedReport (s : HealthService) (now : Nat) : HealthService :=
  { s with
    clock := now
    storage := { availableBytes := 10, reservedBytes := 5, updatedAt := some now } }

/-- The report was refreshed before the attempt, whose checkpoint is saved before a read. -/
theorem clock_runs_read :
    ∃ s, Run (Step peeredNode) (Timely peeredNode) (start peeredNode 5 none) s ∧
      s.snapshot.state = .ready ∧
      (refreshHealthSnapshot s.snapshot 400 peeredNode.policy).checks.clockConsistent = true := by
  have hprevious : ∀ checkpoint : HealthCheckpoint, none = some checkpoint →
      checkpoint.completedAt ≤ 5 := by
    intro checkpoint hnone
    cases hnone
  let refreshed := refreshedReport (start peeredNode 5 none) 50
  have hrefresh : Step peeredNode (start peeredNode 5 none) (.refreshStorageMetrics 50 10)
      refreshed := .refreshStorageMetrics (by decide)
  have hbegin : Step peeredNode refreshed (.begin 100 100) (waitingAttempt refreshed) :=
    .begin (by decide) (by decide) rfl
  have hread : Step peeredNode (waitingAttempt refreshed) (.read 150) _ := .read (by decide)
  have hevaluate : Step peeredNode { waitingAttempt refreshed with clock := 150 }
      (.evaluate 300 true true true [true]) _ := .evaluate (by decide) rfl
  have hwaiting : Run (Step peeredNode) (Timely peeredNode) (start peeredNode 5 none)
      { waitingAttempt refreshed with clock := 150 } :=
    ((Run.start.next (a := .refreshStorageMetrics 50 10) trivial hrefresh).next
      (a := .begin 100 100) (fun _ _ => Nat.le_refl _) hbegin).next (a := .read 150) trivial hread
  have htimely : Timely peeredNode { waitingAttempt refreshed with clock := 150 }
      (.evaluate 300 true true true [true]) := by
    rintro captured repair ⟨⟩ t ⟨⟩
    decide
  have hsettle (s : HealthService) : Timely peeredNode s (.settle 350 true) := trivial
  have hrun := (hwaiting.next htimely hevaluate).next (hsettle _) (.settle (by decide) rfl)
  exact ⟨_, hrun, by decide, (clock_runs hprevious hrun).2.2.1 400 (by decide)⟩

/-- The clock went forward only, and the snapshot says that it did not. -/
theorem refresh_during_attempt :
    ∃ s, Run (Step peeredNode) always (start peeredNode 5 none) s ∧
      s.snapshot.checks.clockConsistent = false := by
  let waiting := waitingAttempt (start peeredNode 5 none)
  have hbegin : Step peeredNode (start peeredNode 5 none) (.begin 100 100) waiting :=
    .begin (by decide) (by decide) rfl
  have hrefresh : Step peeredNode waiting (.refreshStorageMetrics 200 10)
      (refreshedReport waiting 200) := .refreshStorageMetrics (by decide)
  have hevaluate : Step peeredNode (refreshedReport waiting 200)
      (.evaluate 300 true true true [true]) _ := .evaluate (by decide) rfl
  have hrun : Run (Step peeredNode) always (start peeredNode 5 none) _ := .start
  exact ⟨_, ((hrun.next trivial hbegin).next trivial hrefresh).next trivial hevaluate, by decide⟩

end HealthService

end IpfsNode
