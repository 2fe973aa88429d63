import IpfsNode.Json
import IpfsNode.RepairCycle
import IpfsNode.Transition
import Mathlib.Data.List.DropRight

/-!
# The evidence of the repair cycle

What the node keeps about its repair is rewritten after every pass and survives
a restart as JSON, which is read back with suspicion. It is compared with what
it stands for: the passes themselves, cut into cycles, of which only those that
covered their candidates are published. `evidence_fold` says that the two agree
for as long as no counter leaves the safe integers; a counter that does is
refused at the next restart.
-/

namespace IpfsNode

open TransitionSystem

/-! ## The code -/

structure EvidenceConfig where
  membershipVersion : String
  policyVersion : String
  /-- Replication and its repair are both enabled. -/
  required : Bool

/-- The evidence with what it was collected under. -/
structure VersionedEvidence where
  membershipVersion : String
  policyVersion : String
  evidence : RepairCycleEvidence String
deriving DecidableEq, Repr

def emptyEvidence (config : EvidenceConfig) (now : Nat) : VersionedEvidence where
  membershipVersion := config.membershipVersion
  policyVersion := config.policyVersion
  evidence :=
    { cursor := none, startedAt := now, superseded := false, counts := .zero
      lastCompletedAt := if config.required then none else some now
      lastCompletedSuccessfully := !config.required
      lastCompletedBacklog := 0, consecutiveUnsuccessfulCycles := 0
      lastCompletedExamined := 0, lastCompletedStillMissing := 0
      lastCompletedUnrecoverable := 0 }

/-- Accept only repair evidence this node could have written. -/
def parseEvidence (value : Json) (now : Nat) : Option VersionedEvidence := do
  let .object fields := value | none
  let membershipVersion ← (Json.field "membershipVersion" fields).bind Json.asString
  let policyVersion ← (Json.field "policyVersion" fields).bind Json.asString
  let cursor ← Json.optional Json.asString (Json.field "cursor" fields)
  let startedAt ← (Json.field "startedAt" fields).bind Json.asCount
  let examined ← Json.optional Json.asCount (Json.field "examined" fields)
  let superseded ← Json.optional Json.asBool (Json.field "superseded" fields)
  let checked ← (Json.field "checked" fields).bind Json.asCount
  let underReplicated ← (Json.field "underReplicated" fields).bind Json.asCount
  let repaired ← (Json.field "repaired" fields).bind Json.asCount
  let stillMissing ← (Json.field "stillMissing" fields).bind Json.asCount
  let unrecoverable ← (Json.field "unrecoverable" fields).bind Json.asCount
  let lastCompletedAt ← (Json.field "lastCompletedAt" fields).bind Json.asTime
  let lastCompletedSuccessfully ←
    (Json.field "lastCompletedSuccessfully" fields).bind Json.asBool
  let lastCompletedBacklog ← (Json.field "lastCompletedBacklog" fields).bind Json.asCount
  let consecutiveUnsuccessfulCycles ←
    Json.optional Json.asCount (Json.field "consecutiveUnsuccessfulCycles" fields)
  let lastCompletedExamined ←
    Json.optional Json.asCount (Json.field "lastCompletedExamined" fields)
  let lastCompletedStillMissing ←
    Json.optional Json.asCount (Json.field "lastCompletedStillMissing" fields)
  let lastCompletedUnrecoverable ←
    Json.optional Json.asCount (Json.field "lastCompletedUnrecoverable" fields)
  if startedAt ≤ now ∧ (∀ completedAt ∈ lastCompletedAt, completedAt ≤ now) ∧
      checked ≤ examined.getD checked ∧
      (lastCompletedSuccessfully → lastCompletedBacklog = 0) then
    some
      { membershipVersion, policyVersion
        evidence :=
          { cursor, startedAt, superseded := superseded.getD false
            counts :=
              { examined := examined.getD checked, checked, underReplicated, repaired
                stillMissing, unrecoverable }
            lastCompletedAt, lastCompletedSuccessfully, lastCompletedBacklog
            consecutiveUnsuccessfulCycles := consecutiveUnsuccessfulCycles.getD
              (if lastCompletedSuccessfully then 0
              else if 0 < lastCompletedBacklog then 1 else 0)
            lastCompletedExamined := lastCompletedExamined.getD 0
            lastCompletedStillMissing := lastCompletedStillMissing.getD lastCompletedBacklog
            lastCompletedUnrecoverable := lastCompletedUnrecoverable.getD 0 } }
  else none

/-- The fields of the evidence; one that is `undefined` is left out. -/
def VersionedEvidence.fields (value : VersionedEvidence) : List (String × Json) :=
  let evidence := value.evidence
  [("membershipVersion", .string value.membershipVersion),
    ("policyVersion", .string value.policyVersion),
    ("startedAt", .nat evidence.startedAt),
    ("superseded", .bool evidence.superseded),
    ("examined", .nat evidence.counts.examined),
    ("checked", .nat evidence.counts.checked),
    ("underReplicated", .nat evidence.counts.underReplicated),
    ("repaired", .nat evidence.counts.repaired),
    ("stillMissing", .nat evidence.counts.stillMissing),
    ("unrecoverable", .nat evidence.counts.unrecoverable),
    ("lastCompletedAt", .time evidence.lastCompletedAt),
    ("lastCompletedSuccessfully", .bool evidence.lastCompletedSuccessfully),
    ("lastCompletedBacklog", .nat evidence.lastCompletedBacklog),
    ("consecutiveUnsuccessfulCycles", .nat evidence.consecutiveUnsuccessfulCycles),
    ("lastCompletedExamined", .nat evidence.lastCompletedExamined),
    ("lastCompletedStillMissing", .nat evidence.lastCompletedStillMissing),
    ("lastCompletedUnrecoverable", .nat evidence.lastCompletedUnrecoverable)] ++
  evidence.cursor.elim [] fun cursor => [("cursor", .string cursor)]

/-- `JSON.stringify` of the evidence, as it is parsed again. -/
def VersionedEvidence.toJson (value : VersionedEvidence) : Json := .object value.fields

/-- What the process remembers and what its datastore holds. -/
structure EvidenceState where
  evidence : Option VersionedEvidence
  stored : Option Json

def EvidenceState.restart (s : EvidenceState) : EvidenceState where
  evidence := none
  stored := s.stored

def loadEvidence (config : EvidenceConfig) (s : EvidenceState) (now : Nat) : VersionedEvidence :=
  match s.evidence with
  | some evidence => evidence
  | none =>
      let evidence :=
        match s.stored with
        | none => emptyEvidence config now
        | some value => (parseEvidence value now).getD (emptyEvidence config now)
      if evidence.membershipVersion ≠ config.membershipVersion ∨
          evidence.policyVersion ≠ config.policyVersion then
        emptyEvidence config now
      else evidence

/-- The evidence that a pass saves. It asks twice for the time: when the next
cycle starts, and when the last one was completed. -/
def savedEvidence (config : EvidenceConfig) (current : VersionedEvidence)
    (report : RepairReport String) (startedAt completedAt : Nat) : VersionedEvidence :=
  let evidence := nextEvidence current.evidence report completedAt
  if report.cycleCompleted then
    { emptyEvidence config startedAt with evidence := { evidence with startedAt } }
  else { current with evidence }

def saveEvidence (value : VersionedEvidence) : EvidenceState where
  evidence := some value
  stored := some value.toJson

/-! ## Reading back -/

def RepairCounts.Safe (counts : RepairCounts) : Prop :=
  counts.examined ≤ MAX_SAFE_INTEGER ∧ counts.checked ≤ MAX_SAFE_INTEGER ∧
    counts.underReplicated ≤ MAX_SAFE_INTEGER ∧ counts.repaired ≤ MAX_SAFE_INTEGER ∧
    counts.stillMissing + counts.unrecoverable ≤ MAX_SAFE_INTEGER

structure RepairCycleEvidence.Storable (evidence : RepairCycleEvidence String) (now : Nat) :
    Prop where
  startedAt : evidence.startedAt ≤ now
  now_le : now ≤ MAX_SAFE_INTEGER
  counts : evidence.counts.Safe
  checked : evidence.counts.checked ≤ evidence.counts.examined
  lastCompletedAt : ∀ t ∈ evidence.lastCompletedAt, t ≤ now
  consecutive : evidence.consecutiveUnsuccessfulCycles ≤ MAX_SAFE_INTEGER
  examined : evidence.lastCompletedExamined ≤ MAX_SAFE_INTEGER
  backlog : evidence.lastCompletedBacklog ≤ MAX_SAFE_INTEGER
  stillMissing : evidence.lastCompletedStillMissing ≤ MAX_SAFE_INTEGER
  unrecoverable : evidence.lastCompletedUnrecoverable ≤ MAX_SAFE_INTEGER
  successful : evidence.lastCompletedSuccessfully → evidence.lastCompletedBacklog = 0

open Json in
/-- Evidence in range is read back as it was written. -/
theorem parseEvidence_toJson {value : VersionedEvidence} {now : Nat}
    (h : value.evidence.Storable now) : parseEvidence value.toJson now = some value := by
  have hcursor : Json.field "cursor" value.fields = value.evidence.cursor.map .string := by
    show List.lookup "cursor" (value.evidence.cursor.elim [] fun cursor => [("cursor", string cursor)])
      = value.evidence.cursor.map .string
    cases value.evidence.cursor <;> rfl
  have hoptional : Json.optional Json.asString (value.evidence.cursor.map .string)
      = some value.evidence.cursor := by
    cases value.evidence.cursor <;> rfl
  obtain ⟨hexamined, hchecked, hunder, hrepaired, hbacklog⟩ := h.counts
  have hstarted := Nat.le_trans h.startedAt h.now_le
  have hstill : value.evidence.counts.stillMissing ≤ MAX_SAFE_INTEGER := by omega
  have hunrecoverable : value.evidence.counts.unrecoverable ≤ MAX_SAFE_INTEGER := by omega
  have hlast : ∀ t ∈ value.evidence.lastCompletedAt, t ≤ MAX_SAFE_INTEGER :=
    fun t ht => Nat.le_trans (h.lastCompletedAt t ht) h.now_le
  simp only [parseEvidence, VersionedEvidence.toJson, hcursor, hoptional,
    show field "membershipVersion" value.fields = some (.string value.membershipVersion) from rfl,
    show field "policyVersion" value.fields = some (.string value.policyVersion) from rfl,
    show field "startedAt" value.fields = some (.nat value.evidence.startedAt) from rfl,
    show field "superseded" value.fields = some (.bool value.evidence.superseded) from rfl,
    show field "examined" value.fields = some (.nat value.evidence.counts.examined) from rfl,
    show field "checked" value.fields = some (.nat value.evidence.counts.checked) from rfl,
    show field "underReplicated" value.fields = some (.nat value.evidence.counts.underReplicated)
      from rfl,
    show field "repaired" value.fields = some (.nat value.evidence.counts.repaired) from rfl,
    show field "stillMissing" value.fields = some (.nat value.evidence.counts.stillMissing)
      from rfl,
    show field "unrecoverable" value.fields = some (.nat value.evidence.counts.unrecoverable)
      from rfl,
    show field "lastCompletedAt" value.fields = some (.time value.evidence.lastCompletedAt)
      from rfl,
    show field "lastCompletedSuccessfully" value.fields
      = some (.bool value.evidence.lastCompletedSuccessfully) from rfl,
    show field "lastCompletedBacklog" value.fields
      = some (.nat value.evidence.lastCompletedBacklog) from rfl,
    show field "consecutiveUnsuccessfulCycles" value.fields
      = some (.nat value.evidence.consecutiveUnsuccessfulCycles) from rfl,
    show field "lastCompletedExamined" value.fields
      = some (.nat value.evidence.lastCompletedExamined) from rfl,
    show field "lastCompletedStillMissing" value.fields
      = some (.nat value.evidence.lastCompletedStillMissing) from rfl,
    show field "lastCompletedUnrecoverable" value.fields
      = some (.nat value.evidence.lastCompletedUnrecoverable) from rfl,
    Option.bind_some, asCount_nat, asString_string, asBool_bool, asTime_time, optional_some,
    if_pos hexamined, if_pos hchecked, if_pos hunder, if_pos hrepaired, if_pos hstarted,
    if_pos hstill, if_pos hunrecoverable, if_pos hlast, if_pos h.consecutive, if_pos h.examined,
    if_pos h.backlog, if_pos h.stillMissing, if_pos h.unrecoverable, Option.map_some,
    Option.bind_eq_bind, Option.getD_some]
  exact if_pos ⟨h.startedAt, h.lastCompletedAt, h.checked, h.successful⟩

/-- Evidence is not loaded from ahead of the clock. -/
theorem parseEvidence_lastCompletedAt {value : Json} {evidence : VersionedEvidence} {now : Nat}
    (h : parseEvidence value now = some evidence) :
    ∀ t ∈ evidence.evidence.lastCompletedAt, t ≤ now := by
  cases value with
  | object fields =>
    rw [parseEvidence] at h
    -- one bind for each field
    iterate 18 obtain ⟨_, -, h⟩ := Option.bind_eq_some_iff.1 h
    split at h
    · next hall =>
      obtain rfl := Option.some.inj h
      exact hall.2.1
    · cases h
  | null | bool | number | string | array => cases h

theorem emptyEvidence_lastCompletedAt {config : EvidenceConfig} {now : Nat} :
    ∀ t ∈ (emptyEvidence config now).evidence.lastCompletedAt, t ≤ now := by
  intro t ht
  simp only [emptyEvidence] at ht
  split at ht
  · cases ht
  · exact Nat.le_of_eq (Option.mem_some_iff.1 ht).symm

theorem loadEvidence_fresh {config : EvidenceConfig} {now : Nat} :
    loadEvidence config { evidence := none, stored := none } now = emptyEvidence config now := by
  simp only [loadEvidence]
  split <;> rfl

theorem loadEvidence_lastCompletedAt {config : EvidenceConfig} {stored : Option Json}
    {now : Nat} :
    ∀ t ∈ (loadEvidence config { evidence := none, stored } now).evidence.lastCompletedAt,
      t ≤ now := by
  cases stored with
  | none =>
    rw [loadEvidence_fresh]
    exact emptyEvidence_lastCompletedAt
  | some value =>
    have hread : ∀ t ∈ ((parseEvidence value now).getD
        (emptyEvidence config now)).evidence.lastCompletedAt, t ≤ now := by
      cases hparse : parseEvidence value now with
      | none => exact emptyEvidence_lastCompletedAt
      | some evidence => exact parseEvidence_lastCompletedAt hparse
    simp only [loadEvidence]
    split
    · exact emptyEvidence_lastCompletedAt
    · exact hread

/-! ## The passes -/

section Fold

/-- The cycles that were completed, and the passes of the one that is open. -/
def cutCycles (log : List (RepairReport String)) :
    List (List (RepairReport String)) × List (RepairReport String) :=
  log.foldl
    (fun cycles report =>
      if report.cycleCompleted then (cycles.1 ++ [cycles.2 ++ [report]], [])
      else (cycles.1, cycles.2 ++ [report]))
    ([], [])

def openCycle (log : List (RepairReport String)) : List (RepairReport String) := (cutCycles log).2

def total (cycle : List (RepairReport String)) : RepairCounts :=
  cycle.foldl (fun counts report => counts.add report.counts) .zero

def covered (cycle : List (RepairReport String)) : Bool :=
  cycle.all fun report => decide (report.uncovered = 0) && report.coverageProven

/-- The cycles that were completed and covered their candidates. -/
def published (log : List (RepairReport String)) : List (List (RepairReport String)) :=
  (cutCycles log).1.filter covered

def unsuccessful (cycle : List (RepairReport String)) : Bool :=
  0 < (total cycle).stillMissing + (total cycle).unrecoverable

/-- What the last published cycle left in the evidence. -/
structure Publishes (evidence : RepairCycleEvidence String)
    (cycle : List (RepairReport String)) : Prop where
  examined : evidence.lastCompletedExamined = (total cycle).examined
  stillMissing : evidence.lastCompletedStillMissing = (total cycle).stillMissing
  unrecoverable : evidence.lastCompletedUnrecoverable = (total cycle).unrecoverable
  backlog : evidence.lastCompletedBacklog =
    (total cycle).stillMissing + (total cycle).unrecoverable
  successful : evidence.lastCompletedSuccessfully = !unsuccessful cycle

/-- And what is there before the first one. -/
structure Unpublished (config : EvidenceConfig) (evidence : RepairCycleEvidence String) :
    Prop where
  examined : evidence.lastCompletedExamined = 0
  stillMissing : evidence.lastCompletedStillMissing = 0
  unrecoverable : evidence.lastCompletedUnrecoverable = 0
  backlog : evidence.lastCompletedBacklog = 0
  successful : evidence.lastCompletedSuccessfully = !config.required

/-- The evidence describes the passes. -/
structure Describes (config : EvidenceConfig) (log : List (RepairReport String))
    (value : VersionedEvidence) : Prop where
  membershipVersion : value.membershipVersion = config.membershipVersion
  policyVersion : value.policyVersion = config.policyVersion
  counts : value.evidence.counts = total (openCycle log)
  superseded : value.evidence.superseded = !covered (openCycle log)
  last : ∀ cycle ∈ (published log).getLast?, Publishes value.evidence cycle
  first : published log = [] → Unpublished config value.evidence
  consecutive : value.evidence.consecutiveUnsuccessfulCycles =
    ((published log).rtakeWhile unsuccessful).length
  backlog : value.evidence.lastCompletedSuccessfully → value.evidence.lastCompletedBacklog = 0

variable {config : EvidenceConfig} {log : List (RepairReport String)}
  {report : RepairReport String} {value : VersionedEvidence} {now startedAt completedAt : Nat}

theorem cutCycles_completed (hcompleted : report.cycleCompleted = true) :
    cutCycles (log ++ [report]) = ((cutCycles log).1 ++ [openCycle log ++ [report]], []) := by
  simp [cutCycles, openCycle, hcompleted]

theorem cutCycles_open (log : List (RepairReport String)) (hopen : report.cycleCompleted = false) :
    cutCycles (log ++ [report]) = ((cutCycles log).1, openCycle log ++ [report]) := by
  simp [cutCycles, openCycle, hopen]

theorem total_append (cycle : List (RepairReport String)) :
    total (cycle ++ [report]) = (total cycle).add report.counts := by
  simp [total]

theorem covered_append (cycle : List (RepairReport String)) :
    covered (cycle ++ [report]) =
      (covered cycle && (decide (report.uncovered = 0) && report.coverageProven)) := by
  simp [covered]

theorem supersededBy_eq (h : Describes config log value) :
    supersededBy value.evidence report = !covered (openCycle log ++ [report]) := by
  have hpositive : decide (0 < report.uncovered) = !decide (report.uncovered = 0) := by
    by_cases hzero : report.uncovered = 0 <;> simp [hzero, Nat.pos_iff_ne_zero]
  rw [supersededBy, h.superseded, covered_append, hpositive, Bool.not_and, Bool.not_and,
    Bool.or_assoc]

theorem describes_emptyEvidence : Describes config [] (emptyEvidence config now) where
  membershipVersion := rfl
  policyVersion := rfl
  counts := rfl
  superseded := rfl
  last := nofun
  first := fun _ => ⟨rfl, rfl, rfl, rfl, rfl⟩
  consecutive := rfl
  backlog := fun _ => rfl

/-- One more pass of a cycle that goes on. -/
theorem Describes.open (h : Describes config log value)
    (hopen : report.cycleCompleted = false) :
    Describes config (log ++ [report])
      (savedEvidence config value report startedAt completedAt) := by
  have hcut := cutCycles_open log hopen
  have hcycle : openCycle (log ++ [report]) = openCycle log ++ [report] := by
    rw [openCycle, hcut]
  have hpublished : published (log ++ [report]) = published log := by
    rw [published, hcut]
    rfl
  have hsaved : savedEvidence config value report startedAt completedAt =
      { value with
        evidence :=
          { value.evidence with
            superseded := supersededBy value.evidence report
            cursor := report.nextCursor
            counts := value.evidence.counts.add report.counts } } := by
    simp [savedEvidence, nextEvidence, hopen]
  rw [hsaved]
  refine
    { membershipVersion := h.membershipVersion, policyVersion := h.policyVersion
      counts := ?_, superseded := ?_, last := ?_, first := ?_, consecutive := ?_
      backlog := h.backlog }
  · rw [hcycle, total_append, ← h.counts]
  · rw [hcycle]
    exact supersededBy_eq h
  · intro cycle hlast
    rw [hpublished] at hlast
    obtain ⟨h1, h2, h3, h4, h5⟩ := h.last cycle hlast
    exact ⟨h1, h2, h3, h4, h5⟩
  · intro hnone
    rw [hpublished] at hnone
    obtain ⟨h1, h2, h3, h4, h5⟩ := h.first hnone
    exact ⟨h1, h2, h3, h4, h5⟩
  · rw [hpublished]
    exact h.consecutive

theorem published_superseded (hcompleted : report.cycleCompleted = true)
    (hcovered : covered (openCycle log ++ [report]) = false) :
    published (log ++ [report]) = published log := by
  rw [published, cutCycles_completed hcompleted, List.filter_append]
  simp [published, hcovered]

theorem published_covered (hcompleted : report.cycleCompleted = true)
    (hcovered : covered (openCycle log ++ [report]) = true) :
    published (log ++ [report]) = published log ++ [openCycle log ++ [report]] := by
  rw [published, cutCycles_completed hcompleted, List.filter_append]
  simp [published, hcovered]

theorem publishes_eq (h : Describes config log value)
    (hcompleted : report.cycleCompleted = true) :
    publishes value.evidence report = covered (openCycle log ++ [report]) := by
  rw [publishes, hcompleted, supersededBy_eq h, Bool.true_and, Bool.not_not]

/-- A cycle that ends without being published starts the next one, and leaves
what is said of the last as it is. -/
theorem savedEvidence_superseded (h : Describes config log value)
    (hcompleted : report.cycleCompleted = true)
    (hcovered : covered (openCycle log ++ [report]) = false) :
    savedEvidence config value report startedAt completedAt =
      { emptyEvidence config startedAt with
        evidence :=
          { value.evidence with
            cursor := none, startedAt, superseded := false, counts := .zero } } := by
  have hpublishes := publishes_eq h hcompleted
  rw [hcovered] at hpublishes
  simp [savedEvidence, nextEvidence, hcompleted, hpublishes]

theorem Describes.superseded_cycle (h : Describes config log value)
    (hcompleted : report.cycleCompleted = true)
    (hcovered : covered (openCycle log ++ [report]) = false) :
    Describes config (log ++ [report])
      (savedEvidence config value report startedAt completedAt) := by
  have hcycle : openCycle (log ++ [report]) = [] := by
    rw [openCycle, cutCycles_completed hcompleted]
  have hpublished := published_superseded hcompleted hcovered
  rw [savedEvidence_superseded h hcompleted hcovered]
  refine
    { membershipVersion := rfl, policyVersion := rfl, counts := ?_, superseded := ?_
      last := ?_, first := ?_, consecutive := ?_, backlog := h.backlog }
  · rw [hcycle]
    rfl
  · rw [hcycle]
    rfl
  · intro cycle hlast
    rw [hpublished] at hlast
    obtain ⟨h1, h2, h3, h4, h5⟩ := h.last cycle hlast
    exact ⟨h1, h2, h3, h4, h5⟩
  · intro hnone
    rw [hpublished] at hnone
    obtain ⟨h1, h2, h3, h4, h5⟩ := h.first hnone
    exact ⟨h1, h2, h3, h4, h5⟩
  · rw [hpublished]
    exact h.consecutive

/-- A published cycle: what it left is the sum of its passes. -/
theorem savedEvidence_published (h : Describes config log value)
    (hcompleted : report.cycleCompleted = true)
    (hcovered : covered (openCycle log ++ [report]) = true) :
    savedEvidence config value report startedAt completedAt =
      { emptyEvidence config startedAt with
        evidence :=
          { cursor := none, startedAt, superseded := false, counts := .zero
            lastCompletedAt := some completedAt
            lastCompletedSuccessfully := !unsuccessful (openCycle log ++ [report])
            lastCompletedBacklog := (total (openCycle log ++ [report])).stillMissing +
              (total (openCycle log ++ [report])).unrecoverable
            consecutiveUnsuccessfulCycles :=
              if unsuccessful (openCycle log ++ [report]) then
                value.evidence.consecutiveUnsuccessfulCycles + 1
              else 0
            lastCompletedExamined := (total (openCycle log ++ [report])).examined
            lastCompletedStillMissing := (total (openCycle log ++ [report])).stillMissing
            lastCompletedUnrecoverable :=
              (total (openCycle log ++ [report])).unrecoverable } } := by
  have hpublishes := publishes_eq h hcompleted
  rw [hcovered] at hpublishes
  have htotal : value.evidence.counts.add report.counts = total (openCycle log ++ [report]) := by
    rw [total_append, ← h.counts]
  have hunsuccessful : unsuccessful (openCycle log ++ [report]) =
      !(decide ((total (openCycle log ++ [report])).stillMissing = 0) &&
        decide ((total (openCycle log ++ [report])).unrecoverable = 0)) := by
    rw [unsuccessful, ← Bool.decide_and, ← decide_not]
    exact decide_eq_decide.2 (by omega)
  rw [hunsuccessful]
  simp only [savedEvidence, nextEvidence, hcompleted, hpublishes, htotal, if_true]
  cases decide ((total (openCycle log ++ [report])).stillMissing = 0) &&
      decide ((total (openCycle log ++ [report])).unrecoverable = 0) <;> rfl

theorem Describes.published_cycle (h : Describes config log value)
    (hcompleted : report.cycleCompleted = true)
    (hcovered : covered (openCycle log ++ [report]) = true) :
    Describes config (log ++ [report])
      (savedEvidence config value report startedAt completedAt) := by
  have hcycle : openCycle (log ++ [report]) = [] := by
    rw [openCycle, cutCycles_completed hcompleted]
  have hpublished := published_covered hcompleted hcovered
  rw [savedEvidence_published h hcompleted hcovered]
  refine
    { membershipVersion := rfl, policyVersion := rfl, counts := ?_, superseded := ?_
      last := ?_, first := ?_, consecutive := ?_, backlog := ?_ }
  · rw [hcycle]
    rfl
  · rw [hcycle]
    rfl
  · intro cycle hlast
    rw [hpublished, List.getLast?_concat, Option.mem_some_iff] at hlast
    rw [← hlast]
    exact ⟨rfl, rfl, rfl, rfl, rfl⟩
  · intro hnone
    rw [hpublished] at hnone
    simp at hnone
  · rw [hpublished, List.rtakeWhile_concat]
    split
    · rw [List.length_append, ← h.consecutive]
      rfl
    · rfl
  · intro hsuccess
    simp only [Bool.not_eq_true', unsuccessful, decide_eq_false_iff_not, Nat.not_lt,
      Nat.le_zero] at hsuccess
    exact hsuccess

/-- The pass that is saved is one more pass of the fold. -/
theorem Describes.pass (h : Describes config log value) :
    Describes config (log ++ [report])
      (savedEvidence config value report startedAt completedAt) := by
  cases hcompleted : report.cycleCompleted with
  | false => exact h.open hcompleted
  | true =>
    cases hcovered : covered (openCycle log ++ [report]) with
    | false => exact h.superseded_cycle hcompleted hcovered
    | true => exact h.published_cycle hcompleted hcovered

/-! ## Evidence in range -/

/-- The sums that a pass saves are safe integers. -/
def SafePass (log : List (RepairReport String)) (report : RepairReport String) : Prop :=
  (total (openCycle log ++ [report])).Safe ∧
    ((published (log ++ [report])).rtakeWhile unsuccessful).length ≤ MAX_SAFE_INTEGER

theorem RepairCycleEvidence.Storable.mono {evidence : RepairCycleEvidence String} {later : Nat}
    (h : evidence.Storable now) (hle : now ≤ later) (hmax : later ≤ MAX_SAFE_INTEGER) :
    evidence.Storable later :=
  { h with
    startedAt := Nat.le_trans h.startedAt hle, now_le := hmax
    lastCompletedAt := fun t ht => Nat.le_trans (h.lastCompletedAt t ht) hle }

theorem storable_emptyEvidence (hmax : now ≤ MAX_SAFE_INTEGER) :
    (emptyEvidence config now).evidence.Storable now where
  startedAt := Nat.le_refl _
  now_le := hmax
  counts := ⟨Nat.zero_le _, Nat.zero_le _, Nat.zero_le _, Nat.zero_le _, Nat.zero_le _⟩
  checked := Nat.le_refl _
  lastCompletedAt := emptyEvidence_lastCompletedAt
  consecutive := Nat.zero_le _
  examined := Nat.zero_le _
  backlog := Nat.zero_le _
  stillMissing := Nat.zero_le _
  unrecoverable := Nat.zero_le _
  successful := fun _ => rfl

theorem storable_savedEvidence (h : Describes config log value)
    (hstorable : value.evidence.Storable now) (hsafe : SafePass log report)
    (hchecked : report.counts.checked ≤ report.counts.examined)
    (hstarted : now ≤ startedAt) (hcompleted : startedAt ≤ completedAt)
    (hmax : completedAt ≤ MAX_SAFE_INTEGER) :
    (savedEvidence config value report startedAt completedAt).evidence.Storable completedAt := by
  have hlater := hstorable.mono (Nat.le_trans hstarted hcompleted) hmax
  have hpass : Describes config (log ++ [report])
      (savedEvidence config value report startedAt completedAt) := h.pass
  have hconsecutive := hsafe.2
  rw [← hpass.consecutive] at hconsecutive
  cases hcycle : report.cycleCompleted with
  | false =>
    have hsaved : savedEvidence config value report startedAt completedAt =
        { value with
          evidence :=
            { value.evidence with
              superseded := supersededBy value.evidence report
              cursor := report.nextCursor
              counts := value.evidence.counts.add report.counts } } := by
      simp [savedEvidence, nextEvidence, hcycle]
    have hcounts := hsafe.1
    rw [total_append, ← h.counts] at hcounts
    rw [hsaved]
    exact
      { hlater with
        counts := hcounts
        checked := Nat.add_le_add hlater.checked hchecked }
  | true =>
    cases hcovered : covered (openCycle log ++ [report]) with
    | false =>
      rw [savedEvidence_superseded h hcycle hcovered]
      exact
        { hlater with
          startedAt := hcompleted
          counts :=
            ⟨Nat.zero_le _, Nat.zero_le _, Nat.zero_le _, Nat.zero_le _, Nat.zero_le _⟩
          checked := Nat.le_refl _ }
    | true =>
      obtain ⟨hexamined, -, -, -, hbacklog⟩ := hsafe.1
      rw [savedEvidence_published h hcycle hcovered] at hpass hconsecutive ⊢
      exact
        { startedAt := hcompleted, now_le := hmax
          counts :=
            ⟨Nat.zero_le _, Nat.zero_le _, Nat.zero_le _, Nat.zero_le _, Nat.zero_le _⟩
          checked := Nat.le_refl _
          lastCompletedAt := fun t ht => Nat.le_of_eq (Option.mem_some_iff.1 ht).symm
          consecutive := hconsecutive, examined := hexamined, backlog := hbacklog
          stillMissing := Nat.le_trans (Nat.le_add_right _ _) hbacklog
          unrecoverable := Nat.le_trans (Nat.le_add_left _ _) hbacklog
          successful := hpass.backlog }

end Fold

/-! ## Runs -/

/-- The node with the passes it made. -/
structure EvidenceRun where
  state : EvidenceState
  clock : Nat
  /-- What was saved last. -/
  saved : Option VersionedEvidence
  log : List (RepairReport String)

namespace EvidenceRun

def new (clock : Nat) : EvidenceRun where
  state := { evidence := none, stored := none }
  clock := clock
  saved := none
  log := []

inductive Action where
  | load (now : Nat)
  | pass (report : RepairReport String) (now startedAt completedAt : Nat)
  | restart

/-- A pass that succeeds, under a clock that does not go back. -/
inductive Step (config : EvidenceConfig) : EvidenceRun → Action → EvidenceRun → Prop
  | load {s : EvidenceRun} {now : Nat} (hnow : s.clock ≤ now) (hmax : now ≤ MAX_TIME) :
      Step config s (.load now)
        { s with
          state := { s.state with evidence := some (loadEvidence config s.state now) }
          clock := now }
  | pass {s : EvidenceRun} {report : RepairReport String} {now startedAt completedAt : Nat}
      (hnow : s.clock ≤ now) (hstarted : now ≤ startedAt) (hcompleted : startedAt ≤ completedAt)
      (hmax : completedAt ≤ MAX_TIME)
      (hchecked : report.counts.checked ≤ report.counts.examined) :
      Step config s (.pass report now startedAt completedAt)
        { state := saveEvidence
            (savedEvidence config (loadEvidence config s.state now) report startedAt completedAt)
          clock := completedAt
          saved := some
            (savedEvidence config (loadEvidence config s.state now) report startedAt completedAt)
          log := s.log ++ [report] }
  | restart {s : EvidenceRun} : Step config s .restart { s with state := s.state.restart }

/-- The sums of every pass are safe integers. -/
def Safe (s : EvidenceRun) : Action → Prop
  | .pass report _ _ _ => SafePass s.log report
  | _ => True

/-- What is saved describes the passes, and memory holds it or nothing. -/
structure Recorded (config : EvidenceConfig) (s : EvidenceRun) : Prop where
  stored : ∀ value, s.saved = some value → s.state.stored = some value.toJson
  describes : ∀ value, s.saved = some value → Describes config s.log value
  storable : ∀ value, s.saved = some value → value.evidence.Storable s.clock
  memory : ∀ value, s.saved = some value →
    s.state.evidence = none ∨ s.state.evidence = some value
  fresh : s.saved = none → s.log = [] ∧ s.state.stored = none ∧
    ∀ value, s.state.evidence = some value →
      ∃ now ≤ s.clock, now ≤ MAX_TIME ∧ value = emptyEvidence config now

variable {config : EvidenceConfig} {s : EvidenceRun} {now : Nat}

theorem max_time_safe : MAX_TIME ≤ MAX_SAFE_INTEGER := by decide

theorem loadEvidence_stored {value : VersionedEvidence} {log : List (RepairReport String)}
    (hdescribes : Describes config log value) (hstorable : value.evidence.Storable now) :
    loadEvidence config { evidence := none, stored := some value.toJson } now = value := by
  have hparse := parseEvidence_toJson hstorable
  simp only [loadEvidence, hparse, Option.getD_some]
  exact if_neg (not_or.2 ⟨not_not_intro hdescribes.membershipVersion,
    not_not_intro hdescribes.policyVersion⟩)

theorem Recorded.load {value : VersionedEvidence} (h : Recorded config s)
    (hsaved : s.saved = some value) (hnow : s.clock ≤ now) (hmax : now ≤ MAX_TIME) :
    loadEvidence config s.state now = value ∧
      loadEvidence config s.state.restart now = value := by
  have hstored := h.stored value hsaved
  have hreload : loadEvidence config s.state.restart now = value := by
    rw [EvidenceState.restart, hstored]
    exact loadEvidence_stored (h.describes value hsaved)
      ((h.storable value hsaved).mono hnow (Nat.le_trans hmax max_time_safe))
  refine ⟨?_, hreload⟩
  rcases h.memory value hsaved with hnone | hsome
  · have hstate : s.state = s.state.restart := by rw [EvidenceState.restart, ← hnone]
    rw [hstate]
    exact hreload
  · rw [loadEvidence, hsome]

theorem Recorded.loaded (h : Recorded config s) (hnow : s.clock ≤ now) (hmax : now ≤ MAX_TIME) :
    Describes config s.log (loadEvidence config s.state now) ∧
      (loadEvidence config s.state now).evidence.Storable now := by
  have hsafe := Nat.le_trans hmax max_time_safe
  cases hsaved : s.saved with
  | some value =>
    rw [(h.load hsaved hnow hmax).1]
    exact ⟨h.describes value hsaved, (h.storable value hsaved).mono hnow hsafe⟩
  | none =>
    obtain ⟨hlog, hstored, hmemory⟩ := h.fresh hsaved
    rw [hlog]
    cases hevidence : s.state.evidence with
    | none =>
      have hstate : s.state = { evidence := none, stored := none } := by
        rw [← hevidence, ← hstored]
      rw [hstate, loadEvidence_fresh]
      exact ⟨describes_emptyEvidence, storable_emptyEvidence hsafe⟩
    | some value =>
      obtain ⟨t, ht, htmax, hvalue⟩ := hmemory value hevidence
      rw [loadEvidence, hevidence, hvalue]
      refine ⟨describes_emptyEvidence, ?_⟩
      exact (storable_emptyEvidence (Nat.le_trans htmax max_time_safe)).mono
        (Nat.le_trans ht hnow) hsafe

theorem new_recorded (clock : Nat) : Recorded config (new clock) where
  stored := nofun
  describes := nofun
  storable := nofun
  memory := nofun
  fresh := fun _ => ⟨rfl, rfl, nofun⟩

theorem Step.recorded {a : Action} {s' : EvidenceRun} (hstep : Step config s a s')
    (h : Recorded config s) (hsafe : s.Safe a) : Recorded config s' := by
  cases hstep with
  | @load now hnow hmax =>
    refine
      { stored := h.stored, describes := h.describes
        storable := fun value hsaved =>
          (h.storable value hsaved).mono hnow (Nat.le_trans hmax max_time_safe)
        memory := fun value hsaved => .inr (congrArg some (h.load hsaved hnow hmax).1)
        fresh := fun hsaved => ?_ }
    obtain ⟨hlog, hstored, hmemory⟩ := h.fresh hsaved
    refine ⟨hlog, hstored, fun value hvalue => ?_⟩
    obtain rfl := Option.some.inj hvalue
    cases hevidence : s.state.evidence with
    | none =>
      have hstate : s.state = { evidence := none, stored := none } := by
        rw [← hevidence, ← hstored]
      exact ⟨now, Nat.le_refl _, hmax, by rw [hstate, loadEvidence_fresh]⟩
    | some value =>
      obtain ⟨t, ht, htmax, hvalue⟩ := hmemory value hevidence
      exact ⟨t, Nat.le_trans ht hnow, htmax, by rw [loadEvidence, hevidence, hvalue]⟩
  | pass hnow hstarted hcompleted hmax hchecked =>
    have hle := Nat.le_trans hstarted hcompleted
    obtain ⟨hdescribes, hstorable⟩ := h.loaded hnow (Nat.le_trans hle hmax)
    refine
      { stored := ?_, describes := ?_, storable := ?_, memory := ?_
        fresh := fun hsaved => nomatch hsaved }
    · exact fun value hsaved => by rw [← Option.some.inj hsaved]; rfl
    · exact fun value hsaved => by rw [← Option.some.inj hsaved]; exact hdescribes.pass
    · intro value hsaved
      rw [← Option.some.inj hsaved]
      exact storable_savedEvidence hdescribes hstorable hsafe hchecked hstarted hcompleted
        (Nat.le_trans hmax max_time_safe)
    · exact fun value hsaved => .inr (by rw [← Option.some.inj hsaved]; rfl)
  | restart =>
    refine { h with memory := fun _ _ => .inl rfl, fresh := fun hsaved => ?_ }
    obtain ⟨hlog, hstored, -⟩ := h.fresh hsaved
    exact ⟨hlog, hstored, nofun⟩

theorem run_recorded {clock : Nat} (hrun : Run (Step config) Safe (new clock) s) :
    Recorded config s :=
  hrun.invariant (new_recorded clock) fun _ _ _ h hsafe hstep => hstep.recorded h hsafe

/-- What is said of the last cycle that was published. -/
def lastCompleted (value : VersionedEvidence) : Option Nat × Bool × Nat × Nat × Nat × Nat :=
  (value.evidence.lastCompletedAt, value.evidence.lastCompletedSuccessfully,
    value.evidence.lastCompletedBacklog, value.evidence.lastCompletedExamined,
    value.evidence.lastCompletedStillMissing, value.evidence.lastCompletedUnrecoverable)

/-- A restart loads the evidence that was saved, and the evidence describes the
passes, while their sums are safe integers. -/
theorem evidence_fold {clock : Nat} (hrun : Run (Step config) Safe (new clock) s)
    (hnow : s.clock ≤ now) (hmax : now ≤ MAX_TIME) :
    (s.log ≠ [] → ∃ value, s.saved = some value) ∧
      (∀ value, s.saved = some value →
        s.state.stored = some value.toJson ∧ parseEvidence value.toJson now = some value ∧
          loadEvidence config s.state.restart now = value ∧
          loadEvidence config s.state now = value) ∧
      Describes config s.log (loadEvidence config s.state now) ∧
      ∀ (report : RepairReport String) (startedAt completedAt : Nat),
        report.cycleCompleted = true → covered (openCycle s.log ++ [report]) = false →
        lastCompleted (savedEvidence config (loadEvidence config s.state now) report startedAt
          completedAt) = lastCompleted (loadEvidence config s.state now) := by
  have h := run_recorded hrun
  have hdescribes := (h.loaded hnow hmax).1
  refine ⟨fun hlog => ?_, fun value hsaved => ?_, hdescribes, ?_⟩
  · cases hsaved : s.saved with
    | none => exact absurd (h.fresh hsaved).1 hlog
    | some value => exact ⟨value, rfl⟩
  · obtain ⟨hload, hreload⟩ := h.load hsaved hnow hmax
    have hstorable :=
      (h.storable value hsaved).mono hnow (Nat.le_trans hmax max_time_safe)
    exact ⟨h.stored value hsaved, parseEvidence_toJson hstorable, hreload, hload⟩
  · intro report startedAt completedAt hcompleted hcovered
    rw [savedEvidence_superseded hdescribes hcompleted hcovered]
    rfl

def sampleConfig : EvidenceConfig where
  membershipVersion := "m"
  policyVersion := "p"
  required := true

/-- A pass that ends a cycle and leaves one file without its copies. -/
def backlogReport : RepairReport String where
  counts := { examined := 3, checked := 2, underReplicated := 1, repaired := 0
              stillMissing := 1, unrecoverable := 0 }
  cycleCompleted := true
  nextCursor := none
  uncovered := 0
  coverageProven := true

def savedBacklog : VersionedEvidence :=
  savedEvidence sampleConfig (emptyEvidence sampleConfig 5) backlogReport 6 7

theorem evidence_fold_backlog :
    loadEvidence sampleConfig (saveEvidence savedBacklog).restart 9 = savedBacklog ∧
      savedBacklog.evidence.lastCompletedBacklog = 1 := by
  have hsafe : (new 0).Safe (.pass backlogReport 5 6 7) :=
    ⟨⟨by decide, by decide, by decide, by decide, by decide⟩, by decide⟩
  have hpass : Step sampleConfig (new 0) (.pass backlogReport 5 6 7) _ :=
    .pass (by decide) (by decide) (by decide) (by decide) (by decide)
  have hrun : Run (Step sampleConfig) Safe (new 0) _ := .next .start hsafe hpass
  have hnow : 7 ≤ 9 := by decide
  exact ⟨((evidence_fold hrun hnow (by decide)).2.1 savedBacklog rfl).2.2.1, rfl⟩

/-- What is saved after that many cycles that each left the same file without its copies. -/
def backlogEvidence (cycles : Nat) : VersionedEvidence :=
  { emptyEvidence sampleConfig 5 with
    evidence :=
      { (emptyEvidence sampleConfig 5).evidence with
        lastCompletedAt := some 5, lastCompletedSuccessfully := false, lastCompletedBacklog := 1
        consecutiveUnsuccessfulCycles := cycles, lastCompletedExamined := 3
        lastCompletedStillMissing := 1 } }

def backlogRun (cycles : Nat) : EvidenceRun where
  state := saveEvidence (backlogEvidence cycles)
  clock := 5
  saved := some (backlogEvidence cycles)
  log := List.replicate cycles backlogReport

theorem run_backlogRun (cycles : Nat) :
    Run (Step sampleConfig) always (new 0) (backlogRun (cycles + 1)) := by
  induction cycles with
  | zero =>
    have hpass : Step sampleConfig (new 0) (.pass backlogReport 5 5 5) (backlogRun 1) :=
      .pass (by decide) (by decide) (by decide) (by decide) (by decide)
    exact .next .start trivial hpass
  | succ cycles ih =>
    have hlog : backlogRun (cycles + 1 + 1) =
        { backlogRun (cycles + 1 + 1) with
          log := (backlogRun (cycles + 1)).log ++ [backlogReport] } := by
      rw [backlogRun, backlogRun, List.replicate_succ' (n := cycles + 1)]
    have hpass : Step sampleConfig (backlogRun (cycles + 1)) (.pass backlogReport 5 5 5)
        (backlogRun (cycles + 1 + 1)) := by
      rw [hlog]
      exact .pass (Nat.le_refl _) (by decide) (by decide) (by decide) (by decide)
    exact ih.next trivial hpass

theorem parseEvidence_backlogEvidence {cycles : Nat} (h : MAX_SAFE_INTEGER < cycles) :
    parseEvidence (backlogEvidence cycles).toJson now = none := by
  by_contra hparse
  obtain ⟨value, hvalue⟩ := Option.ne_none_iff_exists'.1 hparse
  rw [VersionedEvidence.toJson.eq_def, parseEvidence] at hvalue
  -- the fields before `consecutiveUnsuccessfulCycles`
  iterate 14 obtain ⟨_, -, hvalue⟩ := Option.bind_eq_some_iff.1 hvalue
  obtain ⟨consecutive, hconsecutive, -⟩ := Option.bind_eq_some_iff.1 hvalue
  have hfield : Json.field "consecutiveUnsuccessfulCycles" (backlogEvidence cycles).fields
      = some (.nat cycles) := rfl
  rw [hfield, Json.optional_some, Json.asCount_nat, if_neg (Nat.not_le.2 h)] at hconsecutive
  cases hconsecutive

/-- A restart refuses a count that is no safe integer, and with it the whole evidence. -/
theorem countless_cycles_lost :
    ∃ s, Run (Step sampleConfig) always (new 0) s ∧
      s.log = List.replicate (2 ^ 53) backlogReport ∧
      ∃ value, s.saved = some value ∧
        loadEvidence sampleConfig s.state.restart s.clock ≠ value := by
  obtain ⟨before, hcycles⟩ : ∃ before, 2 ^ 53 = before + 1 := ⟨2 ^ 53 - 1, by decide⟩
  have hunsafe : MAX_SAFE_INTEGER < before + 1 := by
    rw [← hcycles]
    decide
  rw [hcycles]
  refine ⟨_, run_backlogRun before, rfl, _, rfl, fun hload => ?_⟩
  have hparse : parseEvidence (backlogEvidence (before + 1)).toJson 5 = none :=
    parseEvidence_backlogEvidence hunsafe
  have hempty : loadEvidence sampleConfig (backlogRun (before + 1)).state.restart 5
      = emptyEvidence sampleConfig 5 := by
    simp only [loadEvidence, backlogRun, saveEvidence, EvidenceState.restart, hparse,
      Option.getD_none]
    exact ite_self _
  have hbacklog : 0 = 1 := congrArg (fun value => value.evidence.lastCompletedBacklog)
    (hempty.symm.trans hload)
  cases hbacklog

end EvidenceRun

end IpfsNode
