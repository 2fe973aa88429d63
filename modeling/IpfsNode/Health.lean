import IpfsNode.Json

/-!
# Health

An attempt at a checkpoint evaluates what the node observes against its policy.
One that passes every check completes a checkpoint, whose height is the round
the attempt began in, or the height before if that is higher; any other attempt
freezes the height. The checkpoint survives a restart as JSON.
-/

namespace IpfsNode

inductive HealthState where
  | starting
  | ready
  | stale
  | degraded
deriving DecidableEq, Repr

structure HealthConfig where
  checkpointIntervalMs : Nat
  maxCheckpointAgeMs : Nat
  storageMaxAgeMs : Nat
  repairMaxAgeMs : Nat
  requiredPeerCount : Nat
  repairBacklogGraceCycles : Nat
deriving DecidableEq, Repr

structure HealthCheckpoint where
  /-- The start of the validated round. -/
  height : Nat
  completedAt : Nat
  membershipVersion : String
  attestedPeers : Nat
deriving DecidableEq, Repr

structure HealthRepairLastCycle where
  examined : Nat
  stillMissing : Nat
  unrecoverable : Nat
  completedAt : Option Nat
  successful : Bool
deriving DecidableEq, Repr

structure HealthInputs where
  now : Nat
  heliaReady : Bool
  startupComplete : Bool
  startupHealthy : Bool
  storageUpdatedAt : Option Nat
  storageAvailableBytes : Nat
  storageReservedBytes : Nat
  repairRequired : Bool
  repairSchedule : String
  repairCompletedAt : Option Nat
  repairHealthy : Bool
  repairBacklog : Nat
  repairConsecutiveUnsuccessfulCycles : Nat
  repairLastCycle : Option HealthRepairLastCycle
  attestedPeers : Nat
  membershipVersion : String
  previous : Option HealthCheckpoint
deriving DecidableEq, Repr

structure HealthChecks where
  checkpointFresh : Bool
  clockConsistent : Bool
  helia : Bool
  startupReconciliation : Bool
  storageFresh : Bool
  storageReserve : Bool
  repairFresh : Bool
  peerAttestations : Bool
deriving DecidableEq, Repr

structure CheckpointStatus where
  intervalMs : Nat
  observedAt : Option Nat
  ageMs : Option Nat
  maxAgeMs : Nat
deriving DecidableEq, Repr

structure MembershipStatus where
  version : String
  requiredPeers : Nat
  attestedPeers : Nat
deriving DecidableEq, Repr

structure StartupStatus where
  complete : Bool
  healthy : Bool
deriving DecidableEq, Repr

structure StorageStatus where
  measuredAt : Option Nat
  measurementAgeMs : Option Nat
  reserveHealthy : Bool
deriving DecidableEq, Repr

structure ReplicationStatus where
  repairRequired : Bool
  schedule : String
  lastCompleteAt : Option Nat
  ageMs : Option Nat
  backlog : Nat
  consecutiveUnsuccessfulCycles : Nat
  lastCycle : Option HealthRepairLastCycle
deriving DecidableEq, Repr

structure HealthSnapshot where
  state : HealthState
  height : Nat
  timestamp : Nat
  evaluatedAt : Nat
  checkpoint : CheckpointStatus
  membership : MembershipStatus
  startup : StartupStatus
  storage : StorageStatus
  replication : ReplicationStatus
  checks : HealthChecks
deriving DecidableEq, Repr

def age (now : Nat) (observedAt : Option Nat) : Option Nat := observedAt.map (now - ·)

/-- Whether an observation could have been made by the time it is being read. -/
def notInFuture (now : Nat) (observedAt : Option Nat) : Bool :=
  observedAt.all fun t => decide (t ≤ now)

/-- An observation that was made, and not too long ago. -/
def observedWithin (now : Nat) (observedAt : Option Nat) (maxAgeMs : Nat) : Bool :=
  observedAt.any fun t => decide (now - t ≤ maxAgeMs)

/-- The start of the round that contains the time. -/
def checkpointRound (time intervalMs : Nat) : Nat := time / intervalMs * intervalMs

def withinGrace (policy : HealthConfig) (cycles : Nat) : Bool :=
  0 < policy.repairBacklogGraceCycles && cycles ≤ policy.repairBacklogGraceCycles

/-- The checks that an attempt has to pass; the last one is filled in later. -/
def prerequisiteChecks (policy : HealthConfig) (input : HealthInputs) : HealthChecks :=
  let clockConsistent :=
    notInFuture input.now (input.previous.map (·.completedAt)) &&
      notInFuture input.now input.storageUpdatedAt &&
      notInFuture input.now input.repairCompletedAt
  { checkpointFresh := true
    clockConsistent
    helia := input.heliaReady
    startupReconciliation := input.startupComplete && input.startupHealthy
    storageFresh :=
      clockConsistent && observedWithin input.now input.storageUpdatedAt policy.storageMaxAgeMs
    storageReserve := input.storageReservedBytes ≤ input.storageAvailableBytes
    repairFresh :=
      !input.repairRequired ||
        (clockConsistent &&
          observedWithin input.now input.repairCompletedAt policy.repairMaxAgeMs &&
          if input.repairBacklog = 0 then input.repairHealthy
          else withinGrace policy input.repairConsecutiveUnsuccessfulCycles)
    peerAttestations := policy.requiredPeerCount ≤ input.attestedPeers }

/-- `Object.values(checks).every(Boolean)`. -/
def HealthChecks.every (checks : HealthChecks) : Bool :=
  checks.checkpointFresh && checks.clockConsistent && checks.helia &&
    checks.startupReconciliation && checks.storageFresh && checks.storageReserve &&
    checks.repairFresh && checks.peerAttestations

/-- Evaluate one checkpoint attempt. A failed one freezes the previous height. -/
def evaluateHealth (policy : HealthConfig) (input : HealthInputs) :
    HealthSnapshot × Option HealthCheckpoint :=
  let prerequisites := prerequisiteChecks policy input
  let complete := prerequisites.every
  let state : HealthState :=
    if complete then .ready
    else if !input.startupComplete then .starting
    else if input.previous.any fun previous =>
        decide (policy.maxCheckpointAgeMs < input.now - previous.completedAt) then .stale
    else .degraded
  let completed : Option HealthCheckpoint :=
    if complete then
      some
        { height := max (input.previous.elim 0 (·.height))
            (checkpointRound input.now policy.checkpointIntervalMs)
          completedAt := input.now
          membershipVersion := input.membershipVersion
          attestedPeers := input.attestedPeers }
    else none
  let observedAt := (completed.or input.previous).map (·.completedAt)
  let checks :=
    { prerequisites with
      checkpointFresh := observedWithin input.now observedAt policy.maxCheckpointAgeMs }
  ({ state
     height := (completed.or input.previous).elim 0 (·.height)
     timestamp := input.now
     evaluatedAt := input.now
     checkpoint :=
       { intervalMs := policy.checkpointIntervalMs, observedAt
         ageMs := age input.now observedAt, maxAgeMs := policy.maxCheckpointAgeMs }
     membership :=
       { version := input.membershipVersion, requiredPeers := policy.requiredPeerCount
         attestedPeers := input.attestedPeers }
     startup := { complete := input.startupComplete, healthy := input.startupHealthy }
     storage :=
       { measuredAt := input.storageUpdatedAt
         measurementAgeMs := age input.now input.storageUpdatedAt
         reserveHealthy := checks.storageReserve }
     replication :=
       { repairRequired := input.repairRequired, schedule := input.repairSchedule
         lastCompleteAt := input.repairCompletedAt
         ageMs := age input.now input.repairCompletedAt
         backlog := input.repairBacklog
         consecutiveUnsuccessfulCycles := input.repairConsecutiveUnsuccessfulCycles
         lastCycle := input.repairLastCycle }
     checks }, completed)

/-- Refresh ages and freshness checks; a read can clear a flag, never restore it. -/
def refreshHealthSnapshot (current : HealthSnapshot) (timestamp : Nat) (policy : HealthConfig) :
    HealthSnapshot :=
  let checkpointAge := age timestamp current.checkpoint.observedAt
  let storageAge := age timestamp current.storage.measuredAt
  let repairAge := age timestamp current.replication.lastCompleteAt
  let clockConsistent :=
    current.checks.clockConsistent &&
      notInFuture timestamp current.checkpoint.observedAt &&
      notInFuture timestamp current.storage.measuredAt &&
      notInFuture timestamp current.replication.lastCompleteAt
  let checks :=
    { current.checks with
      clockConsistent
      checkpointFresh := clockConsistent &&
        checkpointAge.any fun ms => decide (ms ≤ current.checkpoint.maxAgeMs)
      storageFresh := current.checks.storageFresh && clockConsistent &&
        storageAge.any fun ms => decide (ms ≤ policy.storageMaxAgeMs)
      repairFresh :=
        !current.replication.repairRequired ||
          (current.checks.repairFresh && clockConsistent &&
            (current.replication.backlog = 0 ||
              withinGrace policy current.replication.consecutiveUnsuccessfulCycles) &&
            repairAge.any fun ms => decide (ms ≤ policy.repairMaxAgeMs)) }
  let freshnessFailed := !checks.clockConsistent || !checks.storageFresh || !checks.repairFresh
  { current with
    state :=
      if current.state ≠ .starting ∧
          checkpointAge.any fun ms => decide (current.checkpoint.maxAgeMs < ms) then .stale
      else if current.state = .ready ∧ freshnessFailed then .degraded
      else current.state
    timestamp
    checkpoint := { current.checkpoint with ageMs := checkpointAge }
    storage := { current.storage with measurementAgeMs := storageAge }
    replication := { current.replication with ageMs := repairAge }
    checks }

/-! ## The service -/

/-- `/^[0-9a-f]{64}$/`. -/
def isMembershipVersion (version : String) : Bool :=
  version.length = 64 &&
    version.toList.all fun c => ('0' ≤ c && c ≤ '9') || ('a' ≤ c && c ≤ 'f')

/-- The cached report on the storage. -/
structure StorageReport where
  availableBytes : Nat
  reservedBytes : Nat
  updatedAt : Option Nat
deriving DecidableEq, Repr

structure RepairHealthEvidence where
  required : Bool
  schedule : String
  completedAt : Option Nat
  healthy : Bool
  backlog : Nat
  consecutiveUnsuccessfulCycles : Nat
  lastCycle : Option HealthRepairLastCycle
deriving DecidableEq, Repr

/-- What is configured on a node that takes checkpoints. -/
structure HealthNode where
  policy : HealthConfig
  repairRequired : Bool
  repairSchedule : String
  diskReserveBytes : Nat
  /-- A hexadecimal digest of the configured peers. -/
  membershipVersion : String
  membershipVersion_valid : isMembershipVersion membershipVersion = true
  /-- The configured peers other than this node; an array holds no more. -/
  peers : Nat
  peers_lt : peers < 2 ^ 32

/-- A node without peers and without repair. -/
def HealthNode.sample : HealthNode where
  policy :=
    { checkpointIntervalMs := 60000, maxCheckpointAgeMs := 180000, storageMaxAgeMs := 120000
      repairMaxAgeMs := 3600000, requiredPeerCount := 0, repairBacklogGraceCycles := 0 }
  repairRequired := false
  repairSchedule := "0 * * * *"
  diskReserveBytes := 5
  membershipVersion := String.ofList (List.replicate 64 'a')
  membershipVersion_valid := by decide
  peers := 0
  peers_lt := by decide

/-- One answer for each peer that was asked. -/
def countAttestations (policy : HealthConfig) (answers : List Bool) : Nat :=
  if policy.requiredPeerCount = 0 then 0 else (answers.filter (·)).length

/-- What an attempt looks at besides the clock. -/
structure Observations where
  heliaReady : Bool
  startupComplete : Bool
  startupHealthy : Bool
  storage : StorageReport
  repair : RepairHealthEvidence
  answers : List Bool
deriving DecidableEq, Repr

def healthInputs (node : HealthNode) (previous : Option HealthCheckpoint) (now : Nat)
    (seen : Observations) : HealthInputs where
  now := now
  heliaReady := seen.heliaReady
  startupComplete := seen.startupComplete
  startupHealthy := seen.startupHealthy
  storageUpdatedAt := seen.storage.updatedAt
  storageAvailableBytes := seen.storage.availableBytes
  storageReservedBytes := seen.storage.reservedBytes
  repairRequired := seen.repair.required
  repairSchedule := seen.repair.schedule
  repairCompletedAt := seen.repair.completedAt
  repairHealthy := seen.repair.healthy
  repairBacklog := seen.repair.backlog
  repairConsecutiveUnsuccessfulCycles := seen.repair.consecutiveUnsuccessfulCycles
  repairLastCycle := seen.repair.lastCycle
  attestedPeers := countAttestations node.policy seen.answers
  membershipVersion := node.membershipVersion
  previous := previous

def initialInputs (node : HealthNode) (now : Nat) : HealthInputs where
  now := now
  heliaReady := false
  startupComplete := false
  startupHealthy := false
  storageUpdatedAt := none
  storageAvailableBytes := 0
  storageReservedBytes := node.diskReserveBytes
  repairRequired := node.repairRequired
  repairSchedule := node.repairSchedule
  repairCompletedAt := none
  repairHealthy := !node.repairRequired
  repairBacklog := 0
  repairConsecutiveUnsuccessfulCycles := 0
  repairLastCycle := none
  attestedPeers := 0
  membershipVersion := node.membershipVersion
  previous := none

/-- The snapshot before the first attempt. -/
def initialSnapshot (node : HealthNode) (now : Nat) : HealthSnapshot :=
  (evaluateHealth node.policy (initialInputs node now)).1

/-! ## Persistence -/

def CLOCK_TOLERANCE_MS : Nat := 60000

/-- Accept only a checkpoint this node could have written. -/
def parseCheckpoint (value : Json) (now : Nat) : Option HealthCheckpoint := do
  let .object fields := value | none
  let height ← (Json.field "height" fields).bind Json.asCount
  let completedAt ← (Json.field "completedAt" fields).bind Json.asCount
  let attestedPeers ← (Json.field "attestedPeers" fields).bind Json.asCount
  let membershipVersion ← (Json.field "membershipVersion" fields).bind Json.asString
  if isMembershipVersion membershipVersion ∧ height ≤ completedAt ∧
      completedAt ≤ now + CLOCK_TOLERANCE_MS then
    some { height, completedAt, membershipVersion, attestedPeers }
  else none

def HealthCheckpoint.fields (checkpoint : HealthCheckpoint) : List (String × Json) :=
  [("height", .nat checkpoint.height), ("completedAt", .nat checkpoint.completedAt),
    ("membershipVersion", .string checkpoint.membershipVersion),
    ("attestedPeers", .nat checkpoint.attestedPeers)]

/-- `JSON.stringify` of the checkpoint, as it is parsed again. -/
def HealthCheckpoint.toJson (checkpoint : HealthCheckpoint) : Json := .object checkpoint.fields

/-! ## What an evaluation can do -/

section Evaluate

variable {policy : HealthConfig} {input : HealthInputs} {snapshot : HealthSnapshot}
  {completed : HealthCheckpoint}

theorem evaluateHealth_completed (h : (evaluateHealth policy input).2 = some completed) :
    (prerequisiteChecks policy input).every = true ∧
      completed.height = max (input.previous.elim 0 (·.height))
        (checkpointRound input.now policy.checkpointIntervalMs) ∧
      completed.completedAt = input.now ∧
      completed.membershipVersion = input.membershipVersion ∧
      completed.attestedPeers = input.attestedPeers := by
  unfold evaluateHealth at h
  dsimp only at h
  split at h
  · next hevery =>
    obtain rfl := Option.some.inj h
    exact ⟨hevery, rfl, rfl, rfl, rfl⟩
  · cases h

theorem evaluateHealth_height (policy : HealthConfig) (input : HealthInputs) :
    (evaluateHealth policy input).1.height =
      ((evaluateHealth policy input).2.or input.previous).elim 0 (·.height) := rfl

theorem evaluateHealth_clockConsistent :
    (evaluateHealth policy input).1.checks.clockConsistent =
      (notInFuture input.now (input.previous.map (·.completedAt)) &&
        notInFuture input.now input.storageUpdatedAt &&
        notInFuture input.now input.repairCompletedAt) := rfl

/-- What passes the prerequisites passes every check. -/
theorem evaluateHealth_every (h : (evaluateHealth policy input).2 = some completed) :
    (evaluateHealth policy input).1.checks.every = true := by
  obtain ⟨hevery, -, hcompletedAt, -, -⟩ := evaluateHealth_completed h
  have hfresh : (evaluateHealth policy input).1.checks.checkpointFresh = true := by
    show observedWithin input.now
      (((evaluateHealth policy input).2.or input.previous).map (·.completedAt))
      policy.maxCheckpointAgeMs = true
    rw [h, Option.some_or, Option.map_some, hcompletedAt]
    simp [observedWithin]
  simp only [HealthChecks.every, Bool.and_eq_true] at hevery ⊢
  exact ⟨⟨⟨⟨⟨⟨⟨hfresh, hevery.1.1.1.1.1.1.2⟩, hevery.1.1.1.1.1.2⟩, hevery.1.1.1.1.2⟩,
    hevery.1.1.1.2⟩, hevery.1.1.2⟩, hevery.1.2⟩, hevery.2⟩

theorem checkpointRound_le (time intervalMs : Nat) : checkpointRound time intervalMs ≤ time :=
  Nat.div_mul_le_self time intervalMs

end Evaluate

theorem countAttestations_le (policy : HealthConfig) (answers : List Bool) :
    countAttestations policy answers ≤ answers.length := by
  unfold countAttestations
  split
  · exact Nat.zero_le _
  · exact List.length_filter_le _ _

/-! ## Reading back -/

/-- A checkpoint this node writes. -/
structure HealthCheckpoint.WellFormed (checkpoint : HealthCheckpoint) : Prop where
  height : checkpoint.height ≤ checkpoint.completedAt
  completedAt : checkpoint.completedAt ≤ MAX_SAFE_INTEGER
  attestedPeers : checkpoint.attestedPeers ≤ MAX_SAFE_INTEGER
  membershipVersion : isMembershipVersion checkpoint.membershipVersion = true

/-- It is read back unless the clock is far behind it. -/
theorem parseCheckpoint_toJson {checkpoint : HealthCheckpoint} {now : Nat}
    (h : checkpoint.WellFormed) :
    parseCheckpoint checkpoint.toJson now =
      if checkpoint.completedAt ≤ now + CLOCK_TOLERANCE_MS then some checkpoint else none := by
  have hheight : Json.field "height" checkpoint.fields = some (.nat checkpoint.height) := rfl
  have hcompleted : Json.field "completedAt" checkpoint.fields
      = some (.nat checkpoint.completedAt) := rfl
  have hattested : Json.field "attestedPeers" checkpoint.fields
      = some (.nat checkpoint.attestedPeers) := rfl
  have hversion : Json.field "membershipVersion" checkpoint.fields
      = some (.string checkpoint.membershipVersion) := rfl
  simp only [parseCheckpoint, HealthCheckpoint.toJson, hheight, hcompleted, hattested, hversion,
    Option.bind_some, Option.bind_eq_bind, Json.asCount_nat, Json.asString_string,
    if_pos (Nat.le_trans h.height h.completedAt), if_pos h.completedAt, if_pos h.attestedPeers]
  by_cases hnow : checkpoint.completedAt ≤ now + CLOCK_TOLERANCE_MS
  · rw [if_pos hnow]
    exact if_pos ⟨h.membershipVersion, h.height, hnow⟩
  · rw [if_neg hnow]
    exact if_neg fun hall => hnow hall.2.2

end IpfsNode
