import IpfsNode.Admission
import IpfsNode.Operations

/-!
# What an operation can do

Every operation decides from records it reads and from process memory. `Stores`
lists what each of them may put in place of the record it read, with the checks
it made before; `Removes` and `Unpins` list which records and pins it may take
away. `Policy.Permits.safe` is the only place where the code of the operations
is walked through: a policy that permits what is listed is kept at every step of
the operation, whatever fails.

Compensation is not listed. It puts back what was there.
-/

namespace IpfsNode

section Transitions

variable {Cid : Type} [DecidableEq Cid]

/-- How a permanent store registers its file. -/
def RegisterPinnedOptions.registration (options : RegisterPinnedOptions Cid) :
    RegisterFileOptions :=
  { confirmationRequired := false, temporaryTtlMs := options.temporaryTtlMs
    now := options.now, admissionId := none }

namespace LocalOp

/-- The operation may put the new record in place of the one it read. -/
inductive Stores (proc : Process Cid) :
    LocalOp Cid → Option (FileRecord Cid) → FileRecord Cid → Prop
  | register {options file existing} (hcid : file.cid = options.cid)
      (hmay : mayRegister proc file.cid existing none = true) :
      Stores proc (.registerPinnedFile options) existing
        (registrationOf existing file options.registration)
  | adopt {options registerUnknown file existing} (hcid : file.cid = options.cid)
      (hmay : mayRegister proc file.cid existing none = true) :
      Stores proc (.confirmStoredFile options registerUnknown) existing
        (registrationOf existing file options.registration)
  | confirm {options registerUnknown current} (hbusy : isLifecycleBusy proc current = false) :
      Stores proc (.confirmStoredFile options registerUnknown) (some current)
        (confirmedRecord current options.now)
  | release {cid current} (hbusy : isLifecycleBusy proc current = false) :
      Stores proc (.releaseStoredFile cid) (some current) (current.released .expired)
  | join {options name previous stage} (hstage : previous.replicaStage = some stage) :
      Stores proc (.stageReplica options name) (some previous)
        (joinedRecord options previous stage)
  | stable {options name previous stats} (hbegin : MayBeginStage previous) :
      Stores proc (.stageReplica options name) previous
        (stableReplicaRecord options previous name stats)
  | stage {options name previous stats} (hbegin : MayBeginStage previous)
      (hexpired : ∀ record, previous = some record → record.state = .expired) :
      Stores proc (.stageReplica options name) previous
        (stagedRecord options previous name stats)
  | commit {options current stage}
      (hstage : current.stageOf options.transactionId = some stage) :
      Stores proc (.commitReplica options) (some current) (confirmedRecord current options.now)
  | unclaim {options current stage}
      (hstage : current.stageOf options.transactionId = some stage)
      (howner : isStageOwner (stage.origin options.transactionId) options.peerId = true)
      (hleft : ∃ id ∈ stage.transactionIds, id ≠ options.transactionId) :
      Stores proc (.abortReplica options) (some current)
        (unclaimedRecord current stage options.transactionId)
  | unstage {options current stage}
      (hstage : current.stageOf options.transactionId = some stage)
      (howner : isStageOwner (stage.origin options.transactionId) options.peerId = true)
      (hlast : ∀ id ∈ stage.transactionIds, id = options.transactionId) :
      Stores proc (.abortReplica options) (some current) (unstagedRecord current)
  | admission {options files file existing} (hfile : file ∈ files)
      (hcid : ∀ record, existing = some record → record.cid = file.cid)
      (hmay : mayRegister proc file.cid existing (some options.admissionId) = true) :
      Stores proc (.admitUpload options files) existing
        (registrationOf existing file.registration options.registration)
  | undo {baselines admissionId baseline current previous} (hmem : baseline ∈ baselines)
      (htoken : current.admissionId = some admissionId)
      (hprevious : baseline.previous = some previous) (hcid : current.cid = baseline.cid) :
      Stores proc (.rollbackAdmitted baselines admissionId) (some current) previous
  | undoFinal {cids baselines reports admissionId settledAt baseline current previous}
      (hmem : baseline ∈ baselines) (htoken : current.admissionId = some admissionId)
      (hprevious : baseline.previous = some previous) (hcid : current.cid = baseline.cid) :
      Stores proc (.finalizeAdmitted cids baselines reports admissionId settledAt)
        (some current) previous
  | report {cids baselines reports admissionId settledAt current}
      (htoken : current.admissionId = some admissionId) :
      Stores proc (.finalizeAdmitted cids baselines reports admissionId settledAt)
        (some current) (reportedRecord reports current)
  | settle {cids baselines reports admissionId settledAt current}
      (htoken : current.admissionId = some admissionId) :
      Stores proc (.finalizeAdmitted cids baselines reports admissionId settledAt)
        (some current) (current.settled settledAt)
  | clear {reports admissionId cids current} (htoken : current.admissionId = some admissionId) :
      Stores proc (.clearSettledAdmissions reports admissionId cids) (some current)
        (reportedRecord reports current).withoutAdmission
  | recover {cid current} (htoken : current.admissionId.isSome = true)
      (hended : proc.isActiveAdmission current.admissionId = false)
      (hunsettled : isAdmissionSettled current = false) :
      Stores proc (.recoverInterruptedAdmission cid) (some current) current.withoutAdmission
  | forget {record current} (hsettled : isAdmissionSettled current = true)
      (hended : proc.isActiveAdmission current.admissionId = false) :
      Stores proc (.clearSettledAdmission record) (some current) current.withoutAdmission
  | replicas {cid replicas current} :
      Stores proc (.setReplicas cid replicas) (some current) { current with replicas }
  | rescue {record current} (hstate : current.state = .confirmed)
      (hheld : current.heldLocally = false) :
      Stores proc (.rescueOrphanedFile record) (some current) (rescuedRecord current)
  | demote {record current} (hstate : current.state = .confirmed)
      (hbusy : isLifecycleBusy proc current = false) :
      Stores proc (.demoteCopy record) (some current) (current.released current.state)
  | repin {cid current} (hstate : current.state = .confirmed)
      (hheld : current.heldLocally = true) :
      Stores proc (.guardPin cid) (some current) (repinnedRecord current)
  | expire {record current} (hstate : current.state ≠ .confirmed)
      (hidle : isAdmissionInFlight proc current = false) :
      Stores proc (.releasePlanned record) (some current) (current.released .expired)
  | expireStage {record current} (hstate : current.state ≠ .confirmed)
      (hidle : isAdmissionInFlight proc current = false) :
      Stores proc (.releasePlanned record) (some current) (unstagedRecord current)
  | create {record} : Stores proc (.createIfAbsent record) none record

/-- The operation may remove the record it read. -/
inductive Removes : LocalOp Cid → FileRecord Cid → Prop
  | abort {options current stage}
      (hstage : current.stageOf options.transactionId = some stage)
      (howner : isStageOwner (stage.origin options.transactionId) options.peerId = true)
      (hlast : ∀ id ∈ stage.transactionIds, id = options.transactionId) :
      Removes (.abortReplica options) current
  | cleanup {record current} (hrevision : current.revision = record.revision) :
      Removes (.cleanupReleased record) current
  | undo {baselines admissionId baseline current} (hmem : baseline ∈ baselines)
      (htoken : current.admissionId = some admissionId)
      (hprevious : baseline.previous = none) (hcid : current.cid = baseline.cid) :
      Removes (.rollbackAdmitted baselines admissionId) current
  | undoFinal {cids baselines reports admissionId settledAt baseline current}
      (hmem : baseline ∈ baselines) (htoken : current.admissionId = some admissionId)
      (hprevious : baseline.previous = none) (hcid : current.cid = baseline.cid) :
      Removes (.finalizeAdmitted cids baselines reports admissionId settledAt) current

/-- The operation may remove a pin that was there, with the record it read. -/
inductive Unpins (proc : Process Cid) : LocalOp Cid → FileRecord Cid → Prop
  | release {cid current} (hbusy : isLifecycleBusy proc current = false) :
      Unpins proc (.releaseStoredFile cid) current
  | abort {options current stage}
      (hstage : current.stageOf options.transactionId = some stage)
      (howner : isStageOwner (stage.origin options.transactionId) options.peerId = true)
      (hlast : ∀ id ∈ stage.transactionIds, id = options.transactionId) :
      Unpins proc (.abortReplica options) current
  | demote {record current} (hstate : current.state = .confirmed)
      (hbusy : isLifecycleBusy proc current = false) :
      Unpins proc (.demoteCopy record) current
  | expire {record current} (hstate : current.state ≠ .confirmed)
      (hidle : isAdmissionInFlight proc current = false) :
      Unpins proc (.releasePlanned record) current
  | undo {baselines admissionId baseline current} (hmem : baseline ∈ baselines)
      (htoken : current.admissionId = some admissionId) (hcreated : baseline.createdPin = true)
      (hunpinned : (baseline.previous.map (·.pinned)).getD false = false)
      (hcid : current.cid = baseline.cid) :
      Unpins proc (.rollbackAdmitted baselines admissionId) current
  | undoFinal {cids baselines reports admissionId settledAt baseline current}
      (hmem : baseline ∈ baselines) (htoken : current.admissionId = some admissionId)
      (hcreated : baseline.createdPin = true)
      (hunpinned : (baseline.previous.map (·.pinned)).getD false = false)
      (hcid : current.cid = baseline.cid) :
      Unpins proc (.finalizeAdmitted cids baselines reports admissionId settledAt) current

/-- Baselines the operation may put back. -/
def baselines : LocalOp Cid → List (UploadBaseline Cid)
  | .rollbackAdmitted baselines _ => baselines
  | .finalizeAdmitted _ baselines .. => baselines
  | _ => []

/-- The file an operation on one file is about; those of an upload are about all
files of its request. -/
def Touches (cid : Cid) : LocalOp Cid → Prop
  | .registerPinnedFile options | .confirmStoredFile options _ => options.cid = cid
  | .stageReplica options _ => options.cid = cid
  | .commitReplica options | .abortReplica options => options.cid = cid
  | .releaseStoredFile cid' | .guardPin cid' | .recoverInterruptedAdmission cid'
  | .setReplicas cid' _ => cid' = cid
  | .releasePlanned record | .cleanupReleased record | .clearSettledAdmission record
  | .rescueOrphanedFile record | .demoteCopy record | .createIfAbsent record =>
      record.cid = cid
  | _ => True

/-- The operation leaves the running admissions and repairs alone. -/
def leavesOwners : LocalOp Cid → Bool
  | .beginAdmission _ | .endAdmission _ | .claimRepairRecord _ | .releaseRepairRecord _ => false
  | _ => true

/-- The operation neither leaves nor looks at abort markers. -/
def leavesMarkers : LocalOp Cid → Bool
  | .stageReplica .. | .abortReplica _ => false
  | _ => true

end LocalOp

/-- The policy allows what the operation can do. -/
structure Policy.Permits (P : Policy Cid) (o : LocalOp Cid) : Prop where
  aborted : ∀ (proc : Process Cid) abortedTransactions, P.process proc →
    P.process { proc with abortedTransactions }
  block : ∀ b, ¬ P.block b
  stores : ∀ proc existing record, P.process proc → P.Reads record.cid existing →
    o.Touches record.cid → o.Stores proc existing record → P.Allows record
  removes : ∀ current, P.Allows current → o.Touches current.cid → o.Removes current →
    P.record current.cid none
  unpins : ∀ proc current, P.process proc → P.Allows current → o.Touches current.cid →
    o.Unpins proc current → ¬ P.pin current.cid

/-- ... whatever becomes of abort markers. -/
structure Policy.PermitsWrites (P : Policy Cid) (o : LocalOp Cid) : Prop where
  block : ∀ b, ¬ P.block b
  stores : ∀ proc existing record, P.process proc → P.Reads record.cid existing →
    o.Touches record.cid → o.Stores proc existing record → P.Allows record
  removes : ∀ current, P.Allows current → o.Touches current.cid → o.Removes current →
    P.record current.cid none
  unpins : ∀ proc current, P.process proc → P.Allows current → o.Touches current.cid →
    o.Unpins proc current → ¬ P.pin current.cid

theorem Policy.Permits.writes {P : Policy Cid} {o : LocalOp Cid} (h : P.Permits o) :
    P.PermitsWrites o :=
  ⟨h.block, h.stores, h.removes, h.unpins⟩

variable {content : Content Cid} {P : Policy Cid}

theorem Policy.PermitsWrites.registers {o : LocalOp Cid} (h : P.PermitsWrites o)
    {options : RegisterPinnedOptions Cid} (htouches : ∀ cid, options.cid = cid → o.Touches cid)
    (hstores : ∀ proc (file : NewFileRecord Cid) existing, file.cid = options.cid →
      mayRegister proc file.cid existing none = true →
      o.Stores proc existing (registrationOf existing file options.registration)) :
    P.RegistersPinned options := by
  intro file hcid existing proc hread hproc hmay
  have hstored : (registrationOf existing file options.registration).cid = file.cid :=
    cid_registrationOf hread.2
  have hread : P.Reads (registrationOf existing file options.registration).cid existing := by
    rwa [hstored]
  exact h.stores proc existing _ hproc hread (htouches _ (hcid.symm.trans hstored.symm))
    (hstores proc file existing hcid hmay)

theorem Policy.PermitsWrites.mayUndo {o : LocalOp Cid} (h : P.PermitsWrites o)
    {proc : Process Cid} (hproc : P.process proc) {admissionId : AdmissionId}
    {baseline : UploadBaseline Cid} (hvalid : baseline.Valid) (htouches : ∀ cid, o.Touches cid)
    (hstores : ∀ proc current previous, current.cid = baseline.cid →
      current.admissionId = some admissionId → baseline.previous = some previous →
      o.Stores proc (some current) previous)
    (hremoves : ∀ current, current.cid = baseline.cid →
      current.admissionId = some admissionId → baseline.previous = none → o.Removes current)
    (hunpins : ∀ proc current, current.cid = baseline.cid →
      current.admissionId = some admissionId → baseline.createdPin = true → (baseline.previous.map (·.pinned)).getD false = false →
      o.Unpins proc current) :
    P.MayUndo (some admissionId) baseline := by
  intro current hread htoken
  have hcid : current.cid = baseline.cid := hread.2 current rfl
  refine ⟨?_, fun hcreated hunpinned => ?_⟩
  · cases hprevious : baseline.previous with
    | none =>
        refine ⟨?_, fun _ => nofun⟩
        rw [← hcid]
        exact h.removes current hread.allows (htouches _) (hremoves current hcid htoken hprevious)
    | some previous =>
        have hsame : previous.cid = baseline.cid := (hvalid previous hprevious).1
        refine ⟨?_, fun r hr => Option.some.inj hr ▸ hsame⟩
        rw [← hsame] at hread ⊢
        exact h.stores proc (some current) previous hproc hread (htouches _)
          (hstores proc current previous hcid htoken hprevious)
  · rw [← hcid]
    exact h.unpins proc current hproc hread.allows (htouches _)
      (hunpins proc current hcid htoken hcreated hunpinned)

/-- Where the policy holds, process memory is some it allows. -/
theorem safe_of_process {α : Type} {p : Store Cid α}
    (h : ∀ proc, P.process proc → Safe content P p) : Safe content P p :=
  fun s hs => h s.1.proc hs.1.process s hs

omit [DecidableEq Cid] in
theorem Policy.Allows.reads {record : FileRecord Cid} (h : P.Allows record) :
    P.Reads record.cid (some record) :=
  ⟨h, fun _ heq => congrArg FileRecord.cid (Option.some.inj heq).symm⟩

theorem Policy.Permits.stages {options : ReplicaStageTarget Cid} {name : String}
    (h : P.Permits (.stageReplica options name)) {proc : Process Cid} (hproc : P.process proc) :
    P.Stages options name where
  prune proc hproc := h.aborted proc _ hproc
  join previous stage _ hread hstage := by
    have hcid : (joinedRecord options previous stage).cid = options.cid := hread.2 previous rfl
    rw [← hcid] at hread
    exact h.stores proc _ _ hproc hread hcid.symm (.join hstage)
  stable previous stats hread hbegin := h.stores proc _ _ hproc hread rfl (.stable hbegin)
  staged previous stats _ hread hbegin hexpired :=
    h.stores proc _ _ hproc hread rfl (.stage hbegin hexpired)

theorem Policy.PermitsWrites.unstages {options : SettleReplicaOptions Cid}
    (h : P.PermitsWrites (.abortReplica options)) {proc : Process Cid} (hproc : P.process proc)
    {current : FileRecord Cid} {stage : ReplicaStage} (hread : P.Allows current)
    (hcid : options.cid = current.cid)
    (hstage : current.stageOf options.transactionId = some stage)
    (howner : isStageOwner (stage.origin options.transactionId) options.peerId = true) :
    P.Unstages options current stage where
  last hlast := ⟨h.unpins proc current hproc hread hcid (.abort hstage howner hlast),
    h.stores proc _ (unstagedRecord current) hproc hread.reads hcid
      (.unstage hstage howner hlast),
    h.removes current hread hcid (.abort hstage howner hlast)⟩
  unclaimed hleft := h.stores proc _ (unclaimedRecord current stage options.transactionId) hproc
    hread.reads hcid (.unclaim hstage howner hleft)

/-- Whatever fails, an operation does only what is listed for it. -/
theorem Policy.PermitsWrites.safe {o : LocalOp Cid} (h : P.PermitsWrites o)
    (howners : o.leavesOwners = true) (hmarkers : o.leavesMarkers = true)
    (hvalid : ∀ baseline ∈ o.baselines, baseline.Valid) : Safe content P o.body := by
  refine safe_of_process fun proc hproc => ?_
  cases o with
  | registerPinnedFile options =>
      exact safe_registerPinnedFile (h.registers (fun _ hcid => hcid) fun _ _ _ hcid hmay =>
        .register hcid hmay)
  | confirmStoredFile options registerUnknown =>
      refine safe_confirmStoredFile (h.registers (fun _ hcid => hcid) fun _ _ _ hcid hmay =>
        .adopt hcid hmay)
        (fun current proc hread hproc hbusy => ?_) registerUnknown
      exact h.stores proc _ (confirmedRecord current options.now) hproc hread.allows.reads
        (hread.2 current rfl).symm (.confirm hbusy)
  | releaseStoredFile cid =>
      refine safe_releaseStoredFile fun current proc hread hproc hbusy => ?_
      have hcid := hread.2 current rfl
      have hunpin := h.unpins proc current hproc hread.allows hcid.symm (.release hbusy)
      rw [hcid] at hunpin
      exact ⟨hunpin, h.stores proc _ (current.released .expired) hproc hread.allows.reads
        hcid.symm (.release hbusy)⟩
  | stageReplica | abortReplica => cases hmarkers
  | commitReplica options =>
      refine safe_commitReplica fun current stage hread hstage => ?_
      exact h.stores proc _ (confirmedRecord current options.now) hproc hread.allows.reads
        (hread.2 current rfl).symm (.commit hstage)
  | beginAdmission id => cases howners
  | endAdmission id => cases howners
  | admitUpload options files =>
      refine safe_admitUpload fun file hfile existing proc hread hproc hmay => ?_
      have hcid := hread.2
      have hread : P.Reads (registrationOf existing file.registration
          options.registration).cid existing := by
        rwa [cid_registrationOf hcid]
      exact h.stores proc existing _ hproc hread trivial (.admission hfile hcid hmay)
  | rollbackAdmitted baselines admissionId =>
      exact safe_rollbackAdmitted fun baseline hmem => h.mayUndo hproc (hvalid baseline hmem)
            (fun _ => trivial)
        (fun _ _ _ hcid htoken hprevious => .undo hmem htoken hprevious hcid)
        (fun _ hcid htoken hprevious => .undo hmem htoken hprevious hcid)
        fun _ _ hcid htoken hcreated hunpinned => .undo hmem htoken hcreated hunpinned hcid
  | finalizeAdmitted cids baselines reports admissionId settledAt =>
      refine safe_finalizeAdmitted ⟨fun record hown => ?_, fun record hown => ?_,
        fun baseline hmem => ?_⟩
      · exact h.stores proc _ (reportedRecord reports record) hproc hown.1.reads trivial
          (.report hown.2)
      · exact h.stores proc _ (record.settled settledAt) hproc hown.1.reads trivial
          (.settle hown.2)
      · exact h.mayUndo hproc (hvalid baseline hmem)
            (fun _ => trivial)
          (fun _ _ _ hcid htoken hprevious => .undoFinal hmem htoken hprevious hcid)
          (fun _ hcid htoken hprevious => .undoFinal hmem htoken hprevious hcid)
          fun _ _ hcid htoken hcreated hunpinned =>
            .undoFinal hmem htoken hcreated hunpinned hcid
  | clearSettledAdmissions reports admissionId cids =>
      refine safe_clearSettledAdmissions fun record hown => ?_
      exact h.stores proc _ (reportedRecord reports record).withoutAdmission hproc hown.1.reads
        trivial (.clear hown.2)
  | scanRegistry => exact safe_scanRegistry
  | isProtected cid => exact safe_isProtected cid
  | guardPin cid =>
      refine safe_guardPin fun current hread hstate hheld => ?_
      exact h.stores proc _ (repinnedRecord current) hproc hread.allows.reads
        (hread.2 current rfl).symm (.repin hstate hheld)
  | releasePlanned record =>
      refine safe_releasePlanned fun current proc hread hproc _ hstate hidle => ?_
      have hcid := hread.2 current rfl
      have hunpin := h.unpins proc current hproc hread.allows hcid.symm (.expire hstate hidle)
      rw [hcid] at hunpin
      exact ⟨hunpin,
        h.stores proc _ (unstagedRecord current) hproc hread.allows.reads
          hcid.symm (.expireStage hstate hidle),
        h.stores proc _ (current.released .expired) hproc hread.allows.reads
          hcid.symm (.expire hstate hidle)⟩
  | collectBlocks =>
      exact safe_request fun _ hw => ⟨hw.record, hw.pin, hw.process, fun b hb =>
        absurd hb (h.block b)⟩
  | cleanupReleased record =>
      refine safe_cleanupReleased fun current hread hrevision => ?_
      have hcid := hread.2 current rfl
      have hremove := h.removes current hread.allows hcid.symm (.cleanup hrevision)
      rwa [hcid] at hremove
  | recoverInterruptedAdmission cid =>
      refine safe_recoverInterruptedAdmission
        fun current proc hread hproc htoken hended hunsettled => ?_
      exact h.stores proc _ current.withoutAdmission hproc hread.allows.reads
        (hread.2 current rfl).symm (.recover htoken hended hunsettled)
  | claimRepairRecord selected => cases howners
  | releaseRepairRecord cid => cases howners
  | setReplicas cid replicas =>
      refine safe_setReplicas fun record hread => ?_
      exact h.stores proc _ { record with replicas } hproc hread.allows.reads
        (hread.2 record rfl).symm .replicas
  | clearSettledAdmission record =>
      refine safe_clearSettledAdmission fun current proc hread hproc hsettled hended => ?_
      exact h.stores proc _ current.withoutAdmission hproc hread.allows.reads
        (hread.2 current rfl).symm (.forget hsettled hended)
  | rescueOrphanedFile record =>
      refine safe_rescueOrphanedFile fun current hread hstate hheld => ?_
      exact h.stores proc _ (rescuedRecord current) hproc hread.allows.reads
        (hread.2 current rfl).symm (.rescue hstate hheld)
  | demoteCopy record =>
      refine safe_demoteCopy fun current proc hread hproc hstate hbusy => ?_
      have hcid := hread.2 current rfl
      have hunpin := h.unpins proc current hproc hread.allows hcid.symm (.demote hstate hbusy)
      rw [hcid] at hunpin
      exact ⟨hunpin, h.stores proc _ (current.released current.state) hproc hread.allows.reads
        hcid.symm (.demote hstate hbusy)⟩
  | getRecord cid => exact (keeps_get cid).safe
  | hasPinIntent cid => exact safe_request fun _ hw => hw
  | clearPinIntent cid => exact safe_clearPinIntent cid
  | statDag cid => exact safe_statDag cid
  | createIfAbsent record =>
      refine safe_createIfAbsent fun hnone => ?_
      have hread : P.Reads record.cid none := ⟨hnone, fun _ => nofun⟩
      exact h.stores proc none record hproc hread rfl .create
  | importBlocks blocks =>
      exact safe_request fun _ hw => ⟨hw.record, hw.pin, hw.process, fun b hb =>
        absurd hb (h.block b)⟩

theorem Policy.Permits.safe {o : LocalOp Cid} (h : P.Permits o) (howners : o.leavesOwners = true)
    (hvalid : ∀ baseline ∈ o.baselines, baseline.Valid) : Safe content P o.body := by
  by_cases hmarkers : o.leavesMarkers = true
  · exact h.writes.safe howners hmarkers hvalid
  refine safe_of_process fun proc hproc => ?_
  cases o with
  | stageReplica options name => exact safe_stageReplica (h.stages hproc)
  | abortReplica options =>
      refine safe_abortReplica (fun proc hproc => h.aborted proc _ hproc)
        fun current stage hread hstage howner => ?_
      exact h.writes.unstages hproc hread.allows (hread.2 current rfl).symm hstage howner
  | _ => exact absurd rfl hmarkers

end Transitions

end IpfsNode
