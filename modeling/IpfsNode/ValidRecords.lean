import IpfsNode.RegistryStore
import IpfsNode.StageRollback
import IpfsNode.TaskSafety

/-!
# Every record that is written is valid

The check of a stored record couples fields: a stage is only on a temporary
record with a copy and an expiry, a settlement only on one with a token, and the
origins of a stage are those of transactions it lists. Every operation builds its
records from older ones. `LocalOp.Stores.valid` goes through what operations
store, and `Accepts` through their code, compensation included: `save` refuses
none of it.
-/

namespace IpfsNode

/-! ## Records -/

section Records

variable {Cid : Type} {record current : FileRecord Cid} {stage : ReplicaStage}

theorem isReplicaStage_iff : isReplicaStage stage = true ↔
    stage.transactionIds ≠ [] ∧ stage.transactionIds.Nodup ∧
      (∀ id ∈ stage.transactionIds, id ≠ "") ∧
      ∀ origin ∈ stage.origins.getD [], origin.1 ∈ stage.transactionIds ∧ origin.2 ≠ "" := by
  unfold isReplicaStage
  simp [and_assoc]

/-- What the check asks of a record. -/
theorem isFileRecord_iff : isFileRecord record = true ↔
    record.admissionId ≠ some "" ∧
      (record.admissionSettledAt.isSome = true → record.admissionId.isSome = true) ∧
      ∀ stage, record.replicaStage = some stage → record.state = .temporary ∧
        record.pinned = true ∧ record.heldLocally = true ∧ record.expiresAt.isSome = true ∧
        isReplicaStage stage = true := by
  unfold isFileRecord
  cases record.replicaStage with
  | none => cases record.admissionSettledAt <;> simp
  | some stage => cases record.admissionSettledAt <;> simp [and_assoc]

theorem isFileRecord_of_unstaged (htoken : record.admissionId ≠ some "")
    (hsettled : record.admissionSettledAt.isSome = true → record.admissionId.isSome = true)
    (hstage : record.replicaStage = none) : isFileRecord record = true := by
  refine isFileRecord_iff.mpr ⟨htoken, hsettled, fun stage h => ?_⟩
  rw [hstage] at h
  cases h

/-- A record that keeps token and stage, and the copy the stage needs. -/
theorem isFileRecord_of_kept (h : isFileRecord current = true)
    (htoken : record.admissionId = current.admissionId)
    (hsettled : record.admissionSettledAt = current.admissionSettledAt)
    (hstage : record.replicaStage = current.replicaStage) (hstate : record.state = current.state)
    (hpinned : record.pinned = current.pinned ∨ record.pinned = true)
    (hheld : record.heldLocally = current.heldLocally)
    (hexpires : record.expiresAt = current.expiresAt) : isFileRecord record = true := by
  obtain ⟨htoken', hsettled', hstage'⟩ := isFileRecord_iff.mp h
  refine isFileRecord_iff.mpr ⟨htoken ▸ htoken', htoken ▸ hsettled ▸ hsettled',
    fun stage hsome => ?_⟩
  obtain ⟨hstate', hpinned', hheld', hexpires', hvalid⟩ := hstage' stage (hstage ▸ hsome)
  refine ⟨hstate ▸ hstate', ?_, hheld ▸ hheld', hexpires ▸ hexpires', hvalid⟩
  exact hpinned.elim (fun heq => heq ▸ hpinned') id

theorem isFileRecord_registrationOf [DecidableEq Cid] {existing : Option (FileRecord Cid)}
    {file : NewFileRecord Cid} {options : RegisterFileOptions}
    (htoken : options.admissionId ≠ some "") :
    isFileRecord (registrationOf existing file options) = true := by
  have hreg := isRegistration_registrationOf existing file options
  refine isFileRecord_of_unstaged (hreg.token ▸ htoken) (fun h => ?_) hreg.unstaged
  rw [hreg.unsettled] at h
  cases h

theorem isFileRecord_confirmedRecord {now : Nat} :
    isFileRecord (confirmedRecord current now) = true :=
  isFileRecord_of_unstaged nofun nofun rfl

theorem isFileRecord_rescuedRecord : isFileRecord (rescuedRecord current) = true :=
  isFileRecord_of_unstaged nofun nofun rfl

theorem isFileRecord_backfilledRecord {options : BackfillOptions} {cid : Cid} {name : String}
    {stats : DagStats} {interrupted : Bool} :
    isFileRecord (backfilledRecord options cid name stats interrupted) = true :=
  isFileRecord_of_unstaged nofun nofun rfl

theorem isFileRecord_settled (h : isFileRecord current = true)
    (htoken : current.admissionId.isSome = true) (settledAt : Nat) :
    isFileRecord (current.settled settledAt) = true :=
  isFileRecord_iff.mpr ⟨(isFileRecord_iff.mp h).1, fun _ => htoken, (isFileRecord_iff.mp h).2.2⟩

theorem isFileRecord_withReplicas (h : isFileRecord current = true) (replicas : List String) :
    isFileRecord { current with replicas } = true :=
  isFileRecord_of_kept h rfl rfl rfl rfl (.inl rfl) rfl rfl

theorem isFileRecord_repinnedRecord (h : isFileRecord current = true) :
    isFileRecord (repinnedRecord current) = true :=
  isFileRecord_of_kept h rfl rfl rfl rfl (.inr rfl) rfl rfl

/-- What a record inherits of a token. -/
theorem token_of_previous {previous : Option (FileRecord Cid)}
    (h : ∀ record, previous = some record → isFileRecord record = true) :
    previous.bind (·.admissionId) ≠ some "" ∧
      ((previous.bind (·.admissionSettledAt)).isSome = true →
        (previous.bind (·.admissionId)).isSome = true) := by
  cases previous with
  | none => exact ⟨nofun, nofun⟩
  | some record =>
      obtain ⟨htoken, hsettled, -⟩ := isFileRecord_iff.mp (h record rfl)
      exact ⟨htoken, hsettled⟩

theorem isFileRecord_stableReplicaRecord {options : ReplicaStageTarget Cid}
    {previous : Option (FileRecord Cid)} {name : String} {stats : DagStats}
    (h : ∀ record, previous = some record → isFileRecord record = true) :
    isFileRecord (stableReplicaRecord options previous name stats) = true :=
  isFileRecord_of_unstaged (token_of_previous h).1 (token_of_previous h).2 rfl

/-! ### Stages -/

/-- Transactions and peers are named. -/
structure ReplicaStageTarget.Named (options : ReplicaStageTarget Cid) : Prop where
  transaction : options.transactionId ≠ ""
  origin : options.originPeerId ≠ some ""

variable {options : ReplicaStageTarget Cid}

theorem mem_withOrigin {previous : Option (List (TransactionId × PeerId))}
    {transactionId : TransactionId} {originPeerId : Option PeerId}
    {origin : TransactionId × PeerId}
    (h : origin ∈ (withOrigin previous transactionId originPeerId).getD []) :
    origin ∈ previous.getD [] ∨ (origin.1 = transactionId ∧ originPeerId = some origin.2) := by
  unfold withOrigin at h
  cases originPeerId with
  | none => exact .inl h
  | some peerId =>
      rcases List.mem_append.mp h with hmem | hmem
      · exact .inl (List.mem_of_mem_filter hmem)
      · rw [List.mem_singleton] at hmem
        subst hmem
        exact .inr ⟨rfl, rfl⟩

theorem mem_withoutOrigin {origins : Option (List (TransactionId × PeerId))}
    {transactionId : TransactionId} {origin : TransactionId × PeerId}
    (h : origin ∈ (withoutOrigin origins transactionId).getD []) :
    origin ∈ origins.getD [] ∧ origin.1 ≠ transactionId := by
  have hmem : origin ∈ (origins.getD []).filter (·.1 ≠ transactionId) := by
    unfold withoutOrigin at h
    split at h
    · cases h
    · exact h
  rwa [List.mem_filter, decide_eq_true_iff] at hmem

theorem isFileRecord_stagedRecord {previous : Option (FileRecord Cid)} {name : String}
    {stats : DagStats} (hnamed : options.Named)
    (h : ∀ record, previous = some record → isFileRecord record = true) :
    isFileRecord (stagedRecord options previous name stats) = true := by
  refine isFileRecord_iff.mpr ⟨(token_of_previous h).1, (token_of_previous h).2, ?_⟩
  rintro stage ⟨⟩
  refine ⟨rfl, rfl, rfl, rfl, isReplicaStage_iff.mpr ⟨nofun, by simp, ?_, fun origin horigin => ?_⟩⟩
  · simpa using hnamed.transaction
  · rcases mem_withOrigin horigin with hmem | ⟨hid, hpeer⟩
    · cases hmem
    · refine ⟨by simp [hid], fun hempty => hnamed.origin ?_⟩
      rw [hpeer, hempty]

theorem isFileRecord_joinedRecord (hnamed : options.Named) (h : isFileRecord current = true)
    (hstage : current.replicaStage = some stage) :
    isFileRecord (joinedRecord options current stage) = true := by
  obtain ⟨htoken, hsettled, hstaged⟩ := isFileRecord_iff.mp h
  obtain ⟨-, -, -, -, hvalid⟩ := hstaged stage hstage
  obtain ⟨hsome, hnodup, hnames, horigins⟩ := isReplicaStage_iff.mp hvalid
  refine isFileRecord_iff.mpr ⟨htoken, hsettled, ?_⟩
  rintro joined ⟨⟩
  refine ⟨rfl, rfl, rfl, rfl, ?_⟩
  by_cases hknown : options.transactionId ∈ stage.transactionIds
  · simp only [hknown, if_true]
    exact isReplicaStage_iff.mpr ⟨hsome, hnodup, hnames, horigins⟩
  · simp only [hknown, if_false]
    refine isReplicaStage_iff.mpr ⟨by simp, ?_, fun id hmem => ?_, fun origin horigin => ?_⟩
    · exact hnodup.append (List.nodup_singleton _) (by simpa using hknown)
    · rcases List.mem_append.mp hmem with hmem | hmem
      · exact hnames id hmem
      · rw [List.mem_singleton.mp hmem]
        exact hnamed.transaction
    · rcases mem_withOrigin horigin with hmem | ⟨hid, hpeer⟩
      · exact ⟨List.mem_append_left _ (horigins origin hmem).1, (horigins origin hmem).2⟩
      · refine ⟨by simp [hid], fun hempty => hnamed.origin ?_⟩
        rw [hpeer, hempty]

theorem isFileRecord_unclaimedRecord {transactionId : TransactionId}
    (h : isFileRecord current = true) (hstage : current.replicaStage = some stage)
    (hleft : ∃ id ∈ stage.transactionIds, id ≠ transactionId) :
    isFileRecord (unclaimedRecord current stage transactionId) = true := by
  obtain ⟨htoken, hsettled, hstaged⟩ := isFileRecord_iff.mp h
  obtain ⟨hstate, hpinned, hheld, hexpires, hvalid⟩ := hstaged stage hstage
  obtain ⟨-, hnodup, hnames, horigins⟩ := isReplicaStage_iff.mp hvalid
  refine isFileRecord_iff.mpr ⟨htoken, hsettled, ?_⟩
  rintro unclaimed ⟨⟩
  refine ⟨hstate, hpinned, hheld, hexpires, isReplicaStage_iff.mpr ⟨?_, hnodup.filter _,
    fun id hmem => hnames id (List.mem_of_mem_filter hmem), fun origin horigin => ?_⟩⟩
  · obtain ⟨id, hmem, hne⟩ := hleft
    exact List.ne_nil_of_mem (List.mem_filter.mpr ⟨hmem, decide_eq_true hne⟩)
  · obtain ⟨hmem, hne⟩ := mem_withoutOrigin horigin
    exact ⟨List.mem_filter.mpr ⟨(horigins origin hmem).1, decide_eq_true hne⟩,
      (horigins origin hmem).2⟩

end Records

/-! ## What operations store -/

section Stores

variable {Cid : Type} [DecidableEq Cid] {proc : Process Cid} {o : LocalOp Cid}

/-- The operation was given names where it needs them, and records that were
valid when they were read or built. -/
structure LocalOp.ValidArgs (o : LocalOp Cid) : Prop where
  own : o.own ≠ some ""
  baselines : ∀ baseline ∈ o.baselines, baseline.Valid
  staged : ∀ options name, o = .stageReplica options name → options.Named
  created : ∀ record, o = .createIfAbsent record → isFileRecord record = true

/-- Over a valid record, an operation stores a valid one. -/
theorem LocalOp.Stores.valid {existing : Option (FileRecord Cid)} {record : FileRecord Cid}
    (h : o.Stores proc existing record) (hargs : o.ValidArgs)
    (hexisting : ∀ current, existing = some current → isFileRecord current = true) :
    isFileRecord record = true := by
  cases h with
  | register | adopt => exact isFileRecord_registrationOf nofun
  | admission =>
      exact isFileRecord_registrationOf fun heq => hargs.own heq
  | confirm | commit => exact isFileRecord_confirmedRecord
  | release | demote | expire => exact isFileRecord_released
  | join hstage =>
      exact isFileRecord_joinedRecord (hargs.staged _ _ rfl) (hexisting _ rfl) hstage
  | stable => exact isFileRecord_stableReplicaRecord hexisting
  | stage => exact isFileRecord_stagedRecord (hargs.staged _ _ rfl) hexisting
  | unclaim hstage _ hleft =>
      exact isFileRecord_unclaimedRecord (hexisting _ rfl)
        (FileRecord.stageOf_eq_some.mp hstage).1 hleft
  | unstage | expireStage => exact isFileRecord_unstagedRecord (hexisting _ rfl)
  | undo hmem _ hprevious => exact (hargs.baselines _ hmem _ hprevious).2
  | undoFinal hmem _ hprevious => exact (hargs.baselines _ hmem _ hprevious).2
  | report => exact isFileRecord_withReplicas (hexisting _ rfl) _
  | settle htoken =>
      exact isFileRecord_settled (hexisting _ rfl) (Option.isSome_iff_exists.mpr ⟨_, htoken⟩) _
  | clear =>
      exact isFileRecord_withoutAdmission (isFileRecord_withReplicas (hexisting _ rfl) _)
  | recover | forget => exact isFileRecord_withoutAdmission (hexisting _ rfl)
  | replicas => exact isFileRecord_withReplicas (hexisting _ rfl) _
  | rescue => exact isFileRecord_rescuedRecord
  | repin => exact isFileRecord_repinnedRecord (hexisting _ rfl)
  | create => exact hargs.created _ rfl

end Stores

end IpfsNode
