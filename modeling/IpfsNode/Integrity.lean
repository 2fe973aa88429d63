import IpfsNode.NodeRuns

/-!
# What every run keeps of the records

`SoundRecord` is what holds of each record whatever ran before: tokens were
issued, a pinned copy is a held one, a confirmed record says since when and has
no expiry, and an upload in flight owns a live, held copy that no transaction
has staged. Each operation keeps it, and gives the token of a running upload to
no other record.
-/

namespace IpfsNode

section Records

variable {Cid : Type}

structure SoundRecord (proc : Process Cid) (issued : Finset AdmissionId)
    (record : FileRecord Cid) : Prop where
  token : ∀ id, record.admissionId = some id → id ∈ issued
  held : record.pinned = record.heldLocally
  confirmed : record.state = .confirmed →
    record.expiresAt = none ∧ record.confirmedAt.isSome = true
  temporary : record.state = .temporary → record.expiresAt.isSome = true
  flight : isAdmissionInFlight proc record = true →
    record.heldLocally = true ∧ record.replicaStage = none ∧ record.state ≠ .expired

/-- The same uploads and repairs are running. -/
structure Process.SameOwners (proc proc' : Process Cid) : Prop where
  admissions : proc'.activeAdmissions = proc.activeAdmissions
  repairs : proc'.activeRepairs = proc.activeRepairs

variable {proc proc' : Process Cid} {issued : Finset AdmissionId} {record current : FileRecord Cid}

theorem isActiveAdmission_congr (h : proc'.activeAdmissions = proc.activeAdmissions)
    (id : Option AdmissionId) : proc'.isActiveAdmission id = proc.isActiveAdmission id := by
  unfold Process.isActiveAdmission
  rw [h]

theorem isAdmissionInFlight_congr (h : proc'.activeAdmissions = proc.activeAdmissions)
    (record : FileRecord Cid) :
    isAdmissionInFlight proc' record = isAdmissionInFlight proc record := by
  unfold isAdmissionInFlight
  rw [isActiveAdmission_congr h]

theorem isActiveAdmission_some {id : AdmissionId} :
    proc.isActiveAdmission (some id) = true ↔ id ∈ proc.activeAdmissions := by
  simp [Process.isActiveAdmission]

/-- A record without a token is not in flight. -/
theorem not_inFlight_of_none (h : record.admissionId = none) :
    isAdmissionInFlight proc record = false := by
  simp [isAdmissionInFlight, isAdmissionSettled, Process.isActiveAdmission, h]

/-- An upload in flight has a token. -/
theorem exists_token_of_inFlight (h : isAdmissionInFlight proc record = true) :
    ∃ id, record.admissionId = some id := by
  cases htoken : record.admissionId with
  | none => rw [not_inFlight_of_none htoken] at h; cases h
  | some id => exact ⟨id, rfl⟩

/-- Records with the same token are in flight at the same time. -/
theorem inFlight_congr (htoken : record.admissionId = current.admissionId)
    (hsettled : record.admissionSettledAt = current.admissionSettledAt) :
    isAdmissionInFlight proc record = isAdmissionInFlight proc current := by
  simp only [isAdmissionInFlight, isAdmissionSettled, htoken, hsettled]

theorem SoundRecord.stamped (h : SoundRecord proc issued record) (n : Nat) :
    SoundRecord proc issued (record.stamped n) :=
  ⟨h.token, h.held, h.confirmed, h.temporary, h.flight⟩

theorem SoundRecord.of_owners (h : SoundRecord proc issued record) {issued' : Finset AdmissionId}
    (hissued : issued ⊆ issued')
    (hflight : isAdmissionInFlight proc' record = true →
      isAdmissionInFlight proc record = true) : SoundRecord proc' issued' record :=
  ⟨fun id hid => hissued (h.token id hid), h.held, h.confirmed, h.temporary, fun hf =>
    h.flight (hflight hf)⟩

/-- A staged copy is not in flight. -/
theorem SoundRecord.not_inFlight_of_staged (h : SoundRecord proc issued record)
    {stage : ReplicaStage} (hstage : record.replicaStage = some stage) :
    isAdmissionInFlight proc record = false := by
  rw [Bool.eq_false_iff]
  intro hflight
  rw [(h.flight hflight).2.1] at hstage
  cases hstage

/-! ### What operations store is sound -/

theorem soundRecord_registrationOf {existing : Option (FileRecord Cid)}
    {file : NewFileRecord Cid} {options : RegisterFileOptions}
    (hexisting : ∀ current, existing = some current → SoundRecord proc issued current)
    (htoken : ∀ id, options.admissionId = some id → id ∈ issued) :
    SoundRecord proc issued (registrationOf existing file options) := by
  have hreg := isRegistration_registrationOf existing file options
  have hfresh : ∀ existing, ((registeredRecord existing file options).state = .confirmed →
      (registeredRecord existing file options).expiresAt = none ∧
        (registeredRecord existing file options).confirmedAt.isSome = true) ∧
      ((registeredRecord existing file options).state = .temporary →
        (registeredRecord existing file options).expiresAt.isSome = true) := by
    intro existing
    unfold registeredRecord
    cases options.confirmationRequired <;> simp
  have htimes : ((registrationOf existing file options).state = .confirmed →
      (registrationOf existing file options).expiresAt = none ∧
        (registrationOf existing file options).confirmedAt.isSome = true) ∧
      ((registrationOf existing file options).state = .temporary →
        (registrationOf existing file options).expiresAt.isSome = true) := by
    unfold registrationOf
    cases existing with
    | none => exact hfresh none
    | some current =>
        dsimp only
        split
        · rename_i hstate
          refine ⟨fun _ => (hexisting current rfl).confirmed hstate, fun htemp => ?_⟩
          have htemp : current.state = .temporary := htemp
          rw [hstate] at htemp
          cases htemp
        · exact hfresh (some current)
  refine ⟨fun id hid => htoken id ?_, ?_, htimes.1, htimes.2, fun _ => ?_⟩
  · rw [← hreg.token, hid]
  · rw [hreg.pinned, hreg.held]
  · exact ⟨hreg.held, hreg.unstaged, hreg.live⟩

theorem soundRecord_confirmedRecord (now : Nat) :
    SoundRecord proc issued (confirmedRecord current now) := by
  refine ⟨nofun, rfl, fun _ => ⟨rfl, rfl⟩, nofun, fun hflight => ?_⟩
  rw [not_inFlight_of_none rfl] at hflight
  cases hflight

theorem SoundRecord.released (h : SoundRecord proc issued current) {state : FileState}
    (hstate : state = .expired ∨ state = current.state) :
    SoundRecord proc issued (current.released state) := by
  refine ⟨nofun, rfl, fun hconfirmed => ?_, fun htemp => ?_, fun hflight => ?_⟩
  · rcases hstate with rfl | rfl
    · cases hconfirmed
    · exact h.confirmed hconfirmed
  · rcases hstate with rfl | rfl
    · cases htemp
    · exact h.temporary htemp
  · rw [not_inFlight_of_none rfl] at hflight
    cases hflight

/-- Losing the token keeps a record sound. -/
theorem SoundRecord.withoutAdmission (h : SoundRecord proc issued current) :
    SoundRecord proc issued current.withoutAdmission := by
  refine ⟨nofun, h.held, h.confirmed, h.temporary, fun hflight => ?_⟩
  rw [not_inFlight_of_none rfl] at hflight
  cases hflight

theorem SoundRecord.replicas (h : SoundRecord proc issued current) (replicas : List String) :
    SoundRecord proc issued { current with replicas } :=
  ⟨h.token, h.held, h.confirmed, h.temporary, h.flight⟩

theorem SoundRecord.settled (h : SoundRecord proc issued current) (settledAt : Nat) :
    SoundRecord proc issued (current.settled settledAt) := by
  refine ⟨h.token, h.held, h.confirmed, h.temporary, fun hflight => h.flight ?_⟩
  simp only [isAdmissionInFlight, isAdmissionSettled, FileRecord.settled, Option.isSome_some,
    Bool.or_true, Bool.not_true, Bool.false_or] at hflight
  simp [isAdmissionInFlight, hflight]

theorem SoundRecord.unstaged (h : SoundRecord proc issued current)
    (hidle : isAdmissionInFlight proc current = false) :
    SoundRecord proc issued (unstagedRecord current) := by
  refine ⟨h.token, rfl, nofun, nofun, fun hflight => ?_⟩
  have hsame : isAdmissionInFlight proc (unstagedRecord current) =
      isAdmissionInFlight proc current := inFlight_congr rfl rfl
  rw [hsame, hidle] at hflight
  cases hflight

theorem SoundRecord.joined (h : SoundRecord proc issued current)
    (options : ReplicaStageTarget Cid) {stage : ReplicaStage}
    (hstage : current.replicaStage = some stage) :
    SoundRecord proc issued (joinedRecord options current stage) := by
  refine ⟨h.token, rfl, nofun, fun _ => rfl, fun hflight => ?_⟩
  have hsame : isAdmissionInFlight proc (joinedRecord options current stage) =
      isAdmissionInFlight proc current := inFlight_congr rfl rfl
  rw [hsame, h.not_inFlight_of_staged hstage] at hflight
  cases hflight

theorem SoundRecord.unclaimed (h : SoundRecord proc issued current) {stage : ReplicaStage}
    (hstage : current.replicaStage = some stage) (transactionId : TransactionId) :
    SoundRecord proc issued (unclaimedRecord current stage transactionId) := by
  refine ⟨h.token, h.held, h.confirmed, h.temporary, fun hflight => ?_⟩
  have hsame : isAdmissionInFlight proc (unclaimedRecord current stage transactionId) =
      isAdmissionInFlight proc current := inFlight_congr rfl rfl
  rw [hsame, h.not_inFlight_of_staged hstage] at hflight
  cases hflight

theorem soundRecord_stable {options : ReplicaStageTarget Cid}
    {previous : Option (FileRecord Cid)} {name : String} {stats : DagStats}
    (h : ∀ record, previous = some record → SoundRecord proc issued record) :
    SoundRecord proc issued (stableReplicaRecord options previous name stats) := by
  refine ⟨fun id hid => ?_, rfl, fun _ => ⟨rfl, rfl⟩, nofun, fun _ => ⟨rfl, rfl, nofun⟩⟩
  obtain ⟨record, hrecord, htoken⟩ := Option.bind_eq_some_iff.mp hid
  exact (h record hrecord).token id htoken

theorem soundRecord_staged {options : ReplicaStageTarget Cid}
    {previous : Option (FileRecord Cid)} {name : String} {stats : DagStats}
    (h : ∀ record, previous = some record → SoundRecord proc issued record)
    (hexpired : ∀ record, previous = some record → record.state = .expired) :
    SoundRecord proc issued (stagedRecord options previous name stats) := by
  refine ⟨fun id hid => ?_, rfl, nofun, fun _ => rfl, fun hflight => ?_⟩
  · obtain ⟨record, hrecord, htoken⟩ := Option.bind_eq_some_iff.mp hid
    exact (h record hrecord).token id htoken
  · cases previous with
    | none =>
        rw [not_inFlight_of_none rfl] at hflight
        cases hflight
    | some record =>
        have hsame : isAdmissionInFlight proc (stagedRecord options (some record) name stats) =
            isAdmissionInFlight proc record := inFlight_congr rfl rfl
        rw [hsame] at hflight
        exact absurd (hexpired record rfl) ((h record rfl).flight hflight).2.2

theorem SoundRecord.rescued (h : SoundRecord proc issued current) :
    SoundRecord proc issued (rescuedRecord current) := by
  refine ⟨nofun, rfl, h.confirmed, h.temporary, fun hflight => ?_⟩
  rw [not_inFlight_of_none rfl] at hflight
  cases hflight

theorem SoundRecord.repinned (h : SoundRecord proc issued current)
    (hheld : current.heldLocally = true) : SoundRecord proc issued (repinnedRecord current) :=
  ⟨h.token, hheld.symm, h.confirmed, h.temporary, h.flight⟩

theorem soundRecord_backfilled (options : BackfillOptions) (cid : Cid) (name : String)
    (stats : DagStats) (interrupted : Bool) :
    SoundRecord proc issued (backfilledRecord options cid name stats interrupted) := by
  refine ⟨nofun, rfl, fun hstate => ?_, fun hstate => ?_, fun hflight => ?_⟩
  · revert hstate
    unfold backfilledRecord
    dsimp only
    split <;> simp
  · revert hstate
    unfold backfilledRecord
    dsimp only
    split <;> simp
  · rw [not_inFlight_of_none rfl] at hflight
    cases hflight

end Records

/-! ## Nodes -/

section Nodes

variable {Cid : Type} [DecidableEq Cid]

structure World.Sound (w : World Cid) : Prop where
  record : ∀ cid record, w.files.get cid = some record →
    SoundRecord w.proc w.issued record
  active : w.proc.activeAdmissions ⊆ w.issued
  claimed : ∀ cid ∈ w.proc.activeRepairs, ∃ record, w.files.get cid = some record ∧
    record.state = .confirmed ∧ record.heldLocally = true ∧
    isAdmissionInFlight w.proc record = false
  stamped : w.Stamped

/-- The token the record of the file carries. -/
def World.token (w : World Cid) (cid : Cid) : Option AdmissionId :=
  (w.files.get cid).bind (·.admissionId)

/-- The upload an operation acts for. -/
def LocalOp.own : LocalOp Cid → Option AdmissionId
  | .admitUpload options _ => some options.admissionId
  | .rollbackAdmitted _ id | .finalizeAdmitted _ _ _ id _ | .clearSettledAdmissions _ id _ =>
      some id
  | _ => none

/-- Records stay sound, and a running upload has its token on the files it took
only. -/
def soundPolicy (w : World Cid) (own : Option AdmissionId) : Policy Cid where
  record cid record := ∀ stored, record = some stored →
    SoundRecord w.proc w.issued stored ∧ ∀ id ∈ w.proc.activeAdmissions,
      stored.admissionId = some id → own = some id ∨ w.token cid = some id
  pin _ := False
  process proc := w.proc.SameOwners proc
  stamped := by
    rintro cid record n h _ ⟨⟩
    obtain ⟨hsound, htoken⟩ := h record rfl
    exact ⟨hsound.stamped n, htoken⟩

/-- What an operation was given can be stored. -/
structure LocalOp.SoundArgs (w : World Cid) (o : LocalOp Cid) : Prop where
  own : ∀ id, o.own = some id → id ∈ w.issued
  baselines : ∀ baseline ∈ o.baselines, baseline.Valid ∧ ∀ previous,
    baseline.previous = some previous → SoundRecord w.proc w.issued previous ∧
      ∀ id ∈ w.proc.activeAdmissions, previous.admissionId ≠ some id
  created : ∀ record, o = .createIfAbsent record → ∃ options cid name stats interrupted,
    record = backfilledRecord options cid name stats interrupted

variable {w : World Cid} {o : LocalOp Cid}

theorem World.Sound.holds (h : w.Sound) (own : Option AdmissionId) :
    (soundPolicy w own).Holds w where
  record := by
    intro cid stored hget
    refine ⟨h.record cid stored hget, fun id _ hid => .inr ?_⟩
    unfold World.token
    rw [hget]
    exact hid
  pin _ := False.elim
  process := ⟨rfl, rfl⟩
  block _ := False.elim

theorem permits_soundPolicy (h : o.SoundArgs w) : (soundPolicy w o.own).Permits o where
  aborted _ _ hproc := ⟨hproc.admissions, hproc.repairs⟩
  block _ := id
  removes _ _ _ _ _ h := nomatch h
  unpins _ _ _ _ _ _ := id
  stores := by
    intro proc existing record hproc hread _ hstores
    have hidle : ∀ current, isAdmissionInFlight proc current = false →
        isAdmissionInFlight w.proc current = false := fun current hidle => by
      rwa [isAdmissionInFlight_congr hproc.admissions] at hidle
    have hsound : ∀ current, existing = some current → SoundRecord w.proc w.issued current :=
      fun current heq => (hread.1 current heq).1
    -- a record that keeps the token of the one that was read
    have hkept : ∀ current, existing = some current → SoundRecord w.proc w.issued record →
        record.admissionId = current.admissionId →
        (soundPolicy w o.own).record record.cid (some record) := by
      rintro current heq hrecord htoken _ ⟨⟩
      refine ⟨hrecord, fun id hid hown => (hread.1 current heq).2 id hid ?_⟩
      rw [← htoken, hown]
    -- a record without a token
    have hnone : SoundRecord w.proc w.issued record → record.admissionId = none →
        (soundPolicy w o.own).record record.cid (some record) := by
      rintro hrecord htoken _ ⟨⟩
      refine ⟨hrecord, fun id _ hid => ?_⟩
      rw [htoken] at hid
      cases hid
    cases hstores with
    | register =>
        exact hnone (soundRecord_registrationOf hsound nofun)
          (isRegistration_registrationOf ..).token
    | adopt =>
        exact hnone (soundRecord_registrationOf hsound nofun)
          (isRegistration_registrationOf ..).token
    | confirm => exact hnone (soundRecord_confirmedRecord _) rfl
    | release => exact hnone ((hsound _ rfl).released (.inl rfl)) rfl
    | join hstage => exact hkept _ rfl ((hsound _ rfl).joined _ hstage) rfl
    | stable =>
        cases existing with
        | none => exact hnone (soundRecord_stable hsound) rfl
        | some previous => exact hkept previous rfl (soundRecord_stable hsound) rfl
    | stage _ hexpired =>
        cases existing with
        | none => exact hnone (soundRecord_staged hsound hexpired) rfl
        | some previous => exact hkept previous rfl (soundRecord_staged hsound hexpired) rfl
    | commit => exact hnone (soundRecord_confirmedRecord _) rfl
    | unclaim hstage =>
        have hstaged := (FileRecord.stageOf_eq_some.mp hstage).1
        exact hkept _ rfl ((hsound _ rfl).unclaimed hstaged _) rfl
    | unstage hstage =>
        have hstaged := (FileRecord.stageOf_eq_some.mp hstage).1
        have hidle := (hsound _ rfl).not_inFlight_of_staged hstaged
        exact hkept _ rfl ((hsound _ rfl).unstaged hidle) rfl
    | admission =>
        rintro _ ⟨⟩
        have hissued := h.own
        refine ⟨soundRecord_registrationOf hsound hissued, fun id _ hid => .inl ?_⟩
        rw [(isRegistration_registrationOf ..).token] at hid
        exact hid
    | undo hmem _ hprevious =>
        rintro _ ⟨⟩
        obtain ⟨hrecord, htoken⟩ := (h.baselines _ hmem).2 _ hprevious
        exact ⟨hrecord, fun id hid hown => absurd hown (htoken id hid)⟩
    | undoFinal hmem _ hprevious =>
        rintro _ ⟨⟩
        obtain ⟨hrecord, htoken⟩ := (h.baselines _ hmem).2 _ hprevious
        exact ⟨hrecord, fun id hid hown => absurd hown (htoken id hid)⟩
    | report => exact hkept _ rfl ((hsound _ rfl).replicas _) rfl
    | settle => exact hkept _ rfl ((hsound _ rfl).settled _) rfl
    | clear => exact hnone ((hsound _ rfl).replicas _).withoutAdmission rfl
    | recover => exact hnone (hsound _ rfl).withoutAdmission rfl
    | forget => exact hnone (hsound _ rfl).withoutAdmission rfl
    | replicas => exact hkept _ rfl ((hsound _ rfl).replicas _) rfl
    | rescue => exact hnone (hsound _ rfl).rescued rfl
    | demote => exact hnone ((hsound _ rfl).released (.inr rfl)) rfl
    | repin _ hheld => exact hkept _ rfl ((hsound _ rfl).repinned hheld) rfl
    | expire => exact hnone ((hsound _ rfl).released (.inl rfl)) rfl
    | expireStage _ hflight => exact hkept _ rfl ((hsound _ rfl).unstaged (hidle _ hflight)) rfl
    | create =>
        obtain ⟨options, cid, name, stats, interrupted, rfl⟩ := h.created record rfl
        exact hnone (soundRecord_backfilled ..) rfl

end Nodes

/-! ## Files somebody owns -/

section Owned

variable {Cid : Type} [DecidableEq Cid]

/-- The record apart from its revision, its sizes and its replica list. -/
def FileRecord.core (record : FileRecord Cid) : FileRecord Cid :=
  { record with
    fileSize := 0
    storedBytes := 0
    protectedBytes := none
    replicas := []
    revision := none }

/-- An upload in flight or a repair pass owns the file. -/
def World.Owned (w : World Cid) (record : FileRecord Cid) : Prop :=
  isAdmissionInFlight w.proc record = true ∨ record.cid ∈ w.proc.activeRepairs

/-- The file keeps its record, apart from what everybody may write, and its pin. -/
structure World.Keeps (w w' : World Cid) (cid : Cid) : Prop where
  record : (w'.files.get cid).map FileRecord.core = (w.files.get cid).map FileRecord.core
  pin : cid ∈ w.pins → cid ∈ w'.pins

/-- The file keeps record and pin. -/
def frozenPolicy (w : World Cid) (current : FileRecord Cid) : Policy Cid where
  record cid record := cid = current.cid →
    ∃ stored, record = some stored ∧ stored.core = current.core
  pin cid := cid = current.cid ∧ cid ∈ w.pins
  process proc := w.proc.SameOwners proc
  stamped := by
    intro cid record n h hcid
    obtain ⟨_, ⟨⟩, hcore⟩ := h hcid
    exact ⟨_, rfl, hcore⟩

/-- The operation does not act for the owner of the file. -/
structure LocalOp.Stranger (w : World Cid) (current : FileRecord Cid) (o : LocalOp Cid) :
    Prop where
  own : ∀ id, o.own = some id → current.admissionId ≠ some id
  recover : ∀ cid, o = .recoverInterruptedAdmission cid → cid = current.cid →
    isAdmissionSettled current = true ∨ w.proc.isActiveAdmission current.admissionId = true
  forget : ∀ record, o = .clearSettledAdmission record →
    isAdmissionInFlight w.proc current = true ∨ record.cid ≠ current.cid

/-- What is known of the record of an owned file. -/
structure OwnedRecord (proc : Process Cid) (current : FileRecord Cid) : Prop where
  owned : isAdmissionInFlight proc current = true ∨
    current.cid ∈ proc.activeRepairs ∧ current.state = .confirmed
      ∧ isAdmissionInFlight proc current = false
  held : current.heldLocally = true
  pinned : current.pinned = true
  unstaged : current.replicaStage = none
  live : current.state ≠ .expired
  confirmed : current.state = .confirmed →
    current.expiresAt = none ∧ current.confirmedAt.isSome = true

theorem World.Sound.ownedRecord {w : World Cid} (h : w.Sound) {cid : Cid}
    {current : FileRecord Cid} (hget : w.files.get cid = some current)
    (howned : w.Owned current) : OwnedRecord w.proc current := by
  have hsound := h.record cid current hget
  have hcid := Registry.cid_of_get hget
  by_cases hflight : isAdmissionInFlight w.proc current = true
  · obtain ⟨hheld, hunstaged, hlive⟩ := hsound.flight hflight
    exact ⟨.inl hflight, hheld, hsound.held.trans hheld, hunstaged, hlive, hsound.confirmed⟩
  · have hrepair := howned.resolve_left hflight
    obtain ⟨record, hrecord, hstate, hheld, hidle⟩ := h.claimed _ hrepair
    rw [hcid, hget] at hrecord
    cases hrecord
    exact ⟨.inr ⟨hrepair, hstate, hidle⟩, hheld, hsound.held.trans hheld,
      unstaged_of_confirmed (Registry.valid_of_get hget) hstate, by rw [hstate]; nofun,
      hsound.confirmed⟩

omit [DecidableEq Cid] in
theorem core_eq_iff {record current : FileRecord Cid} : record.core = current.core ↔
    record.cid = current.cid ∧ record.name = current.name ∧ record.state = current.state ∧
    record.createdAt = current.createdAt ∧ record.expiresAt = current.expiresAt ∧
    record.confirmedAt = current.confirmedAt ∧ record.pinned = current.pinned ∧
    record.heldLocally = current.heldLocally ∧ record.admissionId = current.admissionId ∧
    record.admissionSettledAt = current.admissionSettledAt ∧
    record.replicaStage = current.replicaStage := by
  simp [FileRecord.core]

omit [DecidableEq Cid] in
/-- An owned record stays one when its core does. -/
theorem OwnedRecord.of_core {proc : Process Cid} {current record : FileRecord Cid}
    (h : OwnedRecord proc current) (hcore : record.core = current.core) :
    OwnedRecord proc record := by
  obtain ⟨hcid, -, hstate, -, hexpires, hsince, hpinned, hheld, htoken, hsettled, hstage⟩ :=
    core_eq_iff.mp hcore
  have hflight : isAdmissionInFlight proc record = isAdmissionInFlight proc current :=
    inFlight_congr htoken hsettled
  refine ⟨?_, hheld.trans h.held, hpinned.trans h.pinned, hstage.trans h.unstaged, ?_, ?_⟩
  · rw [hflight, hcid, hstate]
    exact h.owned
  · rw [hstate]
    exact h.live
  · rw [hstate, hexpires, hsince]
    exact h.confirmed

/-- Nobody registers an owned file but its owner. -/
theorem OwnedRecord.not_mayRegister {proc proc' : Process Cid} {current : FileRecord Cid}
    (h : OwnedRecord proc current) (hproc : proc.SameOwners proc')
    {admissionId : Option AdmissionId} (hother : current.admissionId ≠ admissionId ∨
      admissionId = none) :
    mayRegister proc' current.cid (some current) admissionId = false := by
  rw [Bool.eq_false_iff]
  intro hmay
  simp only [mayRegister, Process.isActiveRepair, hproc.repairs, Option.all_some,
    Bool.and_eq_true, Bool.not_eq_true', decide_eq_false_iff_not] at hmay
  rcases h.owned with hflight | ⟨hrepair, -⟩
  · obtain ⟨id, hid⟩ := exists_token_of_inFlight hflight
    have hne : current.admissionId ≠ admissionId := by
      rcases hother with hother | rfl
      · exact hother
      · rw [hid]
        exact Option.some_ne_none id
    have hnot := hmay.2.2
    rw [isOwnedByAnother, isAdmissionInFlight_congr hproc.admissions, hflight, Bool.and_true,
      Bool.and_eq_false_iff, decide_eq_false_iff_not, not_not, hid] at hnot
    rcases hnot with hnot | hnot
    · cases hnot
    · exact hne (hid.trans hnot)
  · exact hmay.1 hrepair

theorem OwnedRecord.busy {proc proc' : Process Cid} {current : FileRecord Cid}
    (h : OwnedRecord proc current) (hproc : proc.SameOwners proc') :
    isLifecycleBusy proc' current = true := by
  simp only [isLifecycleBusy, Process.isActiveRepair, hproc.repairs,
    isAdmissionInFlight_congr hproc.admissions]
  rcases h.owned with hflight | ⟨hrepair, -⟩
  · simp [hflight]
  · simp [hrepair]

omit [DecidableEq Cid] in
/-- Staging over an owned file stores what is there. -/
theorem core_stable {proc : Process Cid} {current : FileRecord Cid} (h : OwnedRecord proc current)
    {options : ReplicaStageTarget Cid} {name : String} {stats : DagStats}
    (hcid : options.cid = current.cid) (hbegin : MayBeginStage (some current)) :
    (stableReplicaRecord options (some current) name stats).core = current.core := by
  have hconfirmed : current.state = .confirmed := by
    have htemp := (hbegin current rfl).2.1
    have hlive := h.live
    cases hstate : current.state with
    | temporary => exact absurd hstate htemp
    | confirmed => rfl
    | expired => exact absurd hstate hlive
  obtain ⟨hexpires, hsince⟩ := h.confirmed hconfirmed
  obtain ⟨since, hsince⟩ := Option.isSome_iff_exists.mp hsince
  rw [core_eq_iff]
  refine ⟨hcid, rfl, hconfirmed.symm, rfl, hexpires.symm, ?_, h.pinned.symm, h.held.symm, rfl,
    rfl, h.unstaged.symm⟩
  simp [stableReplicaRecord, hsince]

section Stranger

variable {w : World Cid} {proc : Process Cid} {o : LocalOp Cid} {current record : FileRecord Cid}

omit [DecidableEq Cid] in
theorem LocalOp.Stranger.of_core (h : o.Stranger w current) (hcore : record.core = current.core) :
    o.Stranger w record := by
  obtain ⟨hcid, -, -, -, -, -, -, -, htoken, hsettled, -⟩ := core_eq_iff.mp hcore
  refine ⟨fun id hid => ?_, fun cid hcid' => ?_, fun r hr => ?_⟩
  · rw [htoken]
    exact h.own id hid
  · simp only [isAdmissionSettled, htoken, hsettled]
    exact fun heq => h.recover cid hcid' (heq.trans hcid)
  · rw [inFlight_congr htoken hsettled, hcid]
    exact h.forget r hr

omit [DecidableEq Cid] in
theorem OwnedRecord.not_staged (h : OwnedRecord proc current) {transactionId : TransactionId}
    {stage : ReplicaStage} : current.stageOf transactionId ≠ some stage := by
  intro hstage
  have hstaged := (FileRecord.stageOf_eq_some.mp hstage).1
  rw [h.unstaged] at hstaged
  cases hstaged

omit [DecidableEq Cid] in
/-- A file that is not confirmed is owned by an upload. -/
theorem OwnedRecord.inFlight (h : OwnedRecord w.proc current) (hproc : w.proc.SameOwners proc)
    (hstate : current.state ≠ .confirmed) : isAdmissionInFlight proc current = true := by
  rw [isAdmissionInFlight_congr hproc.admissions]
  rcases h.owned with hflight | ⟨-, hconfirmed, -⟩
  · exact hflight
  · exact absurd hconfirmed hstate

/-- What a stranger stores over an owned file is what is there. -/
theorem OwnedRecord.core_of_stores (h : OwnedRecord w.proc current) (hstranger : o.Stranger w current)
    (hproc : w.proc.SameOwners proc) (hcid : current.cid = record.cid)
    (htouches : o.Touches record.cid) (hstores : o.Stores proc (some current) record) :
    record.core = current.core := by
  have hnotBusy : isLifecycleBusy proc current ≠ false := by
    rw [h.busy hproc]
    nofun
  have hnotIdle : current.state ≠ .confirmed → isAdmissionInFlight proc current ≠ false := by
    intro hstate
    rw [h.inFlight hproc hstate]
    nofun
  cases hstores with
  | @register options file _ hfile hmay =>
      have hsame : file.cid = current.cid := by
        rw [hfile]
        exact htouches.trans hcid.symm
      rw [hsame, h.not_mayRegister hproc (.inr rfl)] at hmay
      cases hmay
  | @adopt options _ file _ hfile hmay =>
      have hsame : file.cid = current.cid := by
        rw [hfile]
        exact htouches.trans hcid.symm
      rw [hsame, h.not_mayRegister hproc (.inr rfl)] at hmay
      cases hmay
  | confirm hbusy => exact absurd hbusy hnotBusy
  | release hbusy => exact absurd hbusy hnotBusy
  | demote _ hbusy => exact absurd hbusy hnotBusy
  | join hstage =>
      rw [h.unstaged] at hstage
      cases hstage
  | stable hbegin => exact core_stable h hcid.symm hbegin
  | stage _ hexpired => exact absurd (hexpired current rfl) h.live
  | commit hstage => exact absurd hstage h.not_staged
  | unclaim hstage => exact absurd hstage h.not_staged
  | unstage hstage => exact absurd hstage h.not_staged
  | admission _ hsame hmay =>
      rw [← hsame current rfl, h.not_mayRegister hproc (.inl (hstranger.own _ rfl))] at hmay
      cases hmay
  | undo _ htoken => exact absurd htoken (hstranger.own _ rfl)
  | undoFinal _ htoken => exact absurd htoken (hstranger.own _ rfl)
  | report htoken => exact absurd htoken (hstranger.own _ rfl)
  | settle htoken => exact absurd htoken (hstranger.own _ rfl)
  | clear htoken => exact absurd htoken (hstranger.own _ rfl)
  | recover _ hended hunsettled =>
      rw [isActiveAdmission_congr hproc.admissions] at hended
      rcases hstranger.recover _ rfl (htouches.trans hcid.symm) with hsettled | hactive
      · rw [hsettled] at hunsettled
        cases hunsettled
      · rw [hactive] at hended
        cases hended
  | forget hsettled hended =>
      rw [isActiveAdmission_congr hproc.admissions] at hended
      rcases hstranger.forget _ rfl with hflight | hother
      · rw [isAdmissionInFlight, hsettled, hended] at hflight
        cases hflight
      · exact absurd htouches (hcid ▸ hother)
  | replicas => rfl
  | rescue _ hheld =>
      rw [h.held] at hheld
      cases hheld
  | repin =>
      rw [core_eq_iff]
      exact ⟨rfl, rfl, rfl, rfl, rfl, rfl, h.pinned.symm, rfl, rfl, rfl, rfl⟩
  | expire hstate hidle => exact absurd hidle (hnotIdle hstate)
  | expireStage hstate hidle => exact absurd hidle (hnotIdle hstate)

omit [DecidableEq Cid] in
theorem OwnedRecord.not_removes (h : OwnedRecord w.proc current)
    (hstranger : o.Stranger w current)
    (hcleanup : ∀ record, o = .cleanupReleased record → record.cid ≠ current.cid)
    (htouches : o.Touches current.cid) : ¬ o.Removes current := by
  intro hremoves
  cases hremoves with
  | abort hstage => exact h.not_staged hstage
  | cleanup => exact hcleanup _ rfl htouches
  | undo _ htoken => exact hstranger.own _ rfl htoken
  | undoFinal _ htoken => exact hstranger.own _ rfl htoken

theorem OwnedRecord.not_unpins (h : OwnedRecord w.proc current)
    (hstranger : o.Stranger w current) (hproc : w.proc.SameOwners proc) :
    ¬ o.Unpins proc current := by
  intro hunpins
  cases hunpins with
  | release hbusy =>
      rw [h.busy hproc] at hbusy
      cases hbusy
  | demote _ hbusy =>
      rw [h.busy hproc] at hbusy
      cases hbusy
  | abort hstage => exact h.not_staged hstage
  | expire hstate hidle =>
      rw [h.inFlight hproc hstate] at hidle
      cases hidle
  | undo _ htoken => exact hstranger.own _ rfl htoken
  | undoFinal _ htoken => exact hstranger.own _ rfl htoken

end Stranger

/-- Whoever does not own a file leaves record and pin alone. -/
theorem permits_frozenPolicy {w : World Cid} {current : FileRecord Cid} {o : LocalOp Cid}
    (h : OwnedRecord w.proc current) (hstranger : o.Stranger w current)
    (hcleanup : ∀ record, o = .cleanupReleased record → record.cid ≠ current.cid) :
    (frozenPolicy w current).Permits o where
  aborted _ _ hproc := ⟨hproc.admissions, hproc.repairs⟩
  block _ := id
  stores := by
    intro proc existing record hproc hread htouches hstores hcid
    obtain ⟨stored, rfl, hcore⟩ := hread.1 hcid
    have hsame := (h.of_core hcore).core_of_stores (hstranger.of_core hcore) hproc
      (hread.2 stored rfl) htouches hstores
    exact ⟨record, rfl, hsame.trans hcore⟩
  removes := by
    intro record hread htouches hremoves hcid
    obtain ⟨_, ⟨⟩, hcore⟩ := hread hcid
    have hcleanup' : ∀ r, o = .cleanupReleased r → r.cid ≠ record.cid := by
      rw [hcid]
      exact hcleanup
    exact absurd hremoves
      ((h.of_core hcore).not_removes (hstranger.of_core hcore) hcleanup' htouches)
  unpins := by
    rintro proc record hproc hread _ hunpins ⟨hcid, -⟩
    obtain ⟨_, ⟨⟩, hcore⟩ := hread hcid
    exact (h.of_core hcore).not_unpins (hstranger.of_core hcore) hproc hunpins

/-- A cleanup removes the record of that revision, or does nothing. -/
theorem wp_cleanupReleased {content : Content Cid} {w : World Cid} {record : FileRecord Cid} :
    Prog.wp (storeSem content anyFault) (cleanupReleased record) (fun _ w' => w' = w ∨
      ∃ current, w.files.get record.cid = some current ∧ current.revision = record.revision ∧
        w' = w.remove record.cid) w := by
  refine Prog.wp_bind.mpr (wp_get ?_ (.inl rfl))
  show Prog.wp _ _ _ w
  cases hget : w.files.get record.cid with
  | none => exact .inl rfl
  | some current =>
      show Prog.wp _ (ite _ _ _) _ w
      split
      · rename_i hrevision
        exact wp_remove (.inr ⟨current, rfl, hrevision, rfl⟩)
          (.inr ⟨current, rfl, hrevision, rfl⟩) (.inl rfl)
      · exact .inl rfl

/-- What a run that owns nothing of the file leaves of it. -/
theorem keeps_of_stranger {content : Content Cid} {w w' : World Cid} {cid : Cid}
    {current : FileRecord Cid} (hget : w.files.get cid = some current)
    (howned : OwnedRecord w.proc current) {o : LocalOp Cid} (howners : o.leavesOwners = true)
    (hvalid : ∀ baseline ∈ o.baselines, baseline.Valid) (hstranger : o.Stranger w current)
    (hcleanup : ∀ record, o = .cleanupReleased record → record.cid = cid →
      current.revision ≠ record.revision)
    {r : Except (LifecycleError Cid) o.Ret}
    (hrun : Prog.Runs (storeSem content anyFault) o.body w r w') : w.Keeps w' cid := by
  have hcid := Registry.cid_of_get hget
  by_cases hother : ∀ record, o = .cleanupReleased record → record.cid ≠ current.cid
  · have hholds : (frozenPolicy w current).Holds w :=
      ⟨fun cid' heq => ⟨current, by rw [heq, hcid, hget], rfl⟩, fun cid' hpin => hpin.2,
        ⟨rfl, rfl⟩, fun _ => False.elim⟩
    have hsafe : Safe content (frozenPolicy w current) o.body :=
      (permits_frozenPolicy howned hstranger hother).safe howners hvalid
    have hholds' := hsafe.holds hholds hrun
    obtain ⟨stored, hstored, hcore⟩ := hholds'.record cid hcid.symm
    refine ⟨by rw [hstored, hget, Option.map_some, Option.map_some, hcore], fun hpin => ?_⟩
    exact hholds'.pin cid ⟨hcid.symm, hpin⟩
  · push Not at hother
    obtain ⟨record, rfl, hsame⟩ := hother
    rcases Prog.wp_iff_runs.mp wp_cleanupReleased _ _ hrun with rfl | ⟨stored, hstored, hrev, -⟩
    · exact ⟨rfl, id⟩
    · rw [hsame, hcid, hget] at hstored
      cases hstored
      exact absurd hrev (hcleanup record rfl (hsame.trans hcid))

end Owned

end IpfsNode
