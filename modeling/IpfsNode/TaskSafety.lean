import IpfsNode.Coexistence
import IpfsNode.UploadRun

/-!
# Every task keeps to its part

Each job of a node asks only for what `LifeOp.Allowed` lets it ask for, whatever
other tasks do between its operations. With `LifeInvariant.step` this gives
`coexistence`: in every run the node is sound, and every request of the history
was allowed when it was made.
-/

namespace IpfsNode

section Jobs

variable {Cid α : Type} [DecidableEq Cid] (content : Content Cid) (faults : Faults Cid)
variable (site : Site Cid) (t : LifeTask)

/-- A part of a job that keeps to what it may ask for, and ends as `Q` says. -/
abbrev JobSafe (job : Job Cid α)
    (Q : Except (LifecycleError Cid) α → LifePast Cid → Prop) : LifePast Cid → Prop :=
  Prog.wpi ((Prog.Pool.traced (lifeSem content faults) t).along LifeOp.node
    fun _ answer => answer) (Rely t) LifeInvariant (fun o => LifeOp.Allowed site t (.node o)) job Q

/-- A request to this node that any task may make, and that claims nothing. -/
def NodeOp.Harmless : NodeOp Cid → Prop
  | .run op => op.leavesOwners = true ∧ ∀ past, op.Allowed site t past
  | .ask _ => True

variable {content faults site t} {past past' : LifePast Cid}

theorem allowed_run {op : LocalOp Cid} (h : op.Allowed site t past) :
    LifeOp.Allowed site t (.node (.run op)) past := by
  rintro _ ⟨⟩
  exact h

theorem allowed_ask {o : NetworkOp Cid} : LifeOp.Allowed site t (.node (.ask o)) past := by
  intro op h
  cases h

theorem NodeOp.Harmless.allowed {o : NodeOp Cid} (h : o.Harmless site t) :
    LifeOp.Allowed site t (.node o) past := by
  cases o with
  | run op => exact allowed_run (h.2 past)
  | ask o => exact allowed_ask

/-- A claim stays with its pass over harmless requests. -/
theorem NodeOp.Harmless.claimant {o : NodeOp Cid} (h : o.Harmless site t)
    {r : Except (LifecycleError Cid) (LifeOp.Ret (.node o))}
    (hstep : Prog.Pool.traced (lifeSem content faults) t (.node o) past r past') (cid : Cid) :
    claimant past'.2 cid = IpfsNode.claimant past.2 cid := by
  have howners : ∀ op, (LifeOp.node o).local = some op → op.leavesOwners = true := by
    cases o with
    | run op =>
        rintro _ ⟨⟩
        exact h.1
    | ask o => exact fun _ => nofun
  rw [hstep.2, claimant_snoc, claimant_of_leavesOwners howners]

theorem jobSafe_of_harmless {job : Job Cid α}
    (h : Prog.Requests (fun o => NodeOp.Harmless site t o) job) :
    JobSafe content faults site t job (fun _ _ => True) past :=
  Prog.wpi_of_requests (fun _ _ _ ho => ho.allowed) h

/-! ## Jobs without a part of their own -/

theorem LocalOp.harmless_of_isRequest {op : LocalOp Cid} (h : op.isRequest = true) :
    NodeOp.Harmless site t (.run op) := by
  cases op <;> first
    | exact ⟨rfl, fun _ => trivial⟩
    | cases h

theorem requests_job {op : LocalOp Cid} (h : NodeOp.Harmless site t (.run op)) :
    Prog.Requests (fun o => NodeOp.Harmless site t o) op.job :=
  (Prog.Requests.perform h).bind fun _ => trivial

theorem requests_replicateFile (cid : Cid) :
    Prog.Requests (fun o => NodeOp.Harmless site t o) (replicateFile cid) := by
  refine (Prog.Requests.perform ⟨rfl, fun _ => trivial⟩).bind fun record => ?_
  refine (Prog.Requests.perform trivial).bind fun report => ?_
  split
  · exact (Prog.Requests.perform ⟨rfl, fun _ => trivial⟩).bind fun _ => trivial
  · trivial

theorem requests_recoverEach (records : List (FileRecord Cid)) :
    Prog.Requests (fun o => NodeOp.Harmless site t o) (recoverEach records) := by
  induction records with
  | nil => trivial
  | cons candidate rest ih =>
      have hone : NodeOp.Harmless site t (.run (.recoverInterruptedAdmission candidate.cid)) :=
        ⟨rfl, fun _ => trivial⟩
      exact (Prog.Requests.perform hone).attempt.bind fun _ => ih

theorem requests_recoverInterruptedAdmissions :
    Prog.Requests (fun o => NodeOp.Harmless site t o)
      (recoverInterruptedAdmissions : Job Cid Unit) := by
  have hscan : NodeOp.Harmless site t (.run .scanRegistry) := ⟨rfl, fun _ => trivial⟩
  exact (Prog.Requests.perform hscan).bind fun _ => requests_recoverEach _

theorem requests_backfillPin (options : BackfillOptions) (name : Cid → String) (cid : Cid) :
    Prog.Requests (fun o => NodeOp.Harmless site t o) (backfillPin options name cid) := by
  have hharmless : ∀ op : LocalOp Cid, op.leavesOwners = true →
      (∀ past, op.Allowed site t past) → Prog.Requests (fun o => NodeOp.Harmless site t o)
        (locked op) := fun op howners hallowed => Prog.Requests.perform ⟨howners, hallowed⟩
  refine (hharmless (.getRecord cid) rfl fun _ => trivial).bind fun known => ?_
  cases known with
  | some record => exact hharmless (.clearPinIntent cid) rfl fun _ => trivial
  | none =>
      refine (hharmless (.hasPinIntent cid) rfl fun _ => trivial).bind fun interrupted => ?_
      refine (hharmless (.statDag cid) rfl fun _ => trivial).bind fun stats => ?_
      refine (hharmless (.createIfAbsent _) rfl fun _ => ⟨_, _, _, _, _, rfl⟩).bind fun _ => ?_
      exact hharmless (.clearPinIntent cid) rfl fun _ => trivial

theorem requests_backfill (options : BackfillOptions) (name : Cid → String) (pins : List Cid) :
    Prog.Requests (fun o => NodeOp.Harmless site t o)
      (backfillRegistryFromPins options name pins) := by
  induction pins with
  | nil => trivial
  | cons cid rest ih => exact (requests_backfillPin options name cid).attempt.bind fun _ => ih

theorem requests_acceptReplica (options : RegisterPinnedOptions Cid) (blocks : Finset Cid) :
    Prog.Requests (fun o => NodeOp.Harmless site t o) (acceptReplica options blocks) := by
  refine (Prog.Requests.perform ⟨rfl, fun _ => trivial⟩).bind fun existing => ?_
  split
  · trivial
  refine (Prog.Requests.perform ⟨rfl, fun _ => trivial⟩).bind fun _ => ?_
  refine (Prog.Requests.perform ⟨rfl, fun _ => trivial⟩).bind fun stored => ?_
  split
  · trivial
  · trivial

theorem requests_acceptStagedReplica (options : ReplicaStageTarget Cid) (name : String)
    (blocks : Finset Cid) : Prog.Requests (fun o => NodeOp.Harmless site t o)
      (acceptStagedReplica options name blocks) :=
  (Prog.Requests.perform ⟨rfl, fun _ => trivial⟩).bind fun _ =>
    Prog.Requests.perform ⟨rfl, fun _ => trivial⟩

theorem requests_confirmFile (options : RegisterPinnedOptions Cid) (registerUnknown : Bool)
    (blocks : Finset Cid) : Prog.Requests (fun o => NodeOp.Harmless site t o)
      (confirmFile options registerUnknown blocks) := by
  have hconfirm : Prog.Requests (fun o => NodeOp.Harmless site t o)
      (locked (.confirmStoredFile options registerUnknown)) :=
    Prog.Requests.perform ⟨rfl, fun _ => trivial⟩
  have hrest : ∀ confirmed : Option (FileRecord Cid),
      Prog.Requests (fun o => NodeOp.Harmless site t o) (if confirmed.isNone then pure none
        else do
          replicateFile options.cid
          locked (.getRecord options.cid) : Job Cid (Option (FileRecord Cid))) := by
    intro confirmed
    cases confirmed with
    | none => trivial
    | some record => exact (requests_replicateFile _).bind fun _ => Prog.Requests.perform ⟨rfl, fun _ => trivial⟩
  unfold confirmFile
  cases registerUnknown with
  | true =>
      exact (Prog.Requests.perform ⟨rfl, fun _ => trivial⟩).bind fun _ => hconfirm.bind hrest
  | false => exact hconfirm.bind hrest

/-! ## A repair pass -/

/-- What a repair pass asks for while it holds the claim. -/
def AsksClaimed (site : Site Cid) (t : LifeTask) (record : FileRecord Cid) (o : NodeOp Cid) :
    Prop :=
  NodeOp.Harmless site t o ∨ o = .run (.clearSettledAdmission record)

theorem requests_repairClaimed (placement : Placement) (selfPeerId : PeerId)
    (record : FileRecord Cid) :
    Prog.Requests (AsksClaimed site t record) (repairClaimed placement selfPeerId record) := by
  have hask : ∀ o : NetworkOp Cid, Prog.Requests (AsksClaimed site t record) (ask o) :=
    fun o => Prog.Requests.perform (.inl trivial)
  have hset : ∀ live, Prog.Requests (AsksClaimed site t record)
      (locked (.setReplicas record.cid live)) :=
    fun live => Prog.Requests.perform (.inl ⟨rfl, fun _ => trivial⟩)
  have hclear : Prog.Requests (AsksClaimed site t record)
      (locked (.clearSettledAdmission record)) := Prog.Requests.perform (.inr rfl)
  refine (hask _).bind fun live => (hset live).bind fun _ => ?_
  cases isUnderReplicated (List.length live) placement selfPeerId with
  | false => exact hclear
  | true =>
    refine Prog.Requests.bind ((requests_replicateFile record.cid).mono fun o ho => .inl ho)
      fun _ => ?_
    refine (hask _).bind fun verified => (hset verified).bind fun _ => ?_
    cases isUnderReplicated (List.length verified) placement selfPeerId with
    | true => trivial
    | false => exact hclear

theorem jobSafe_repairRecord (placement : Placement) (selfPeerId : PeerId)
    (record : FileRecord Cid) :
    JobSafe content faults site t (repairRecord placement selfPeerId record)
      (fun _ _ => True) past := by
  refine Prog.wpi_bind.mpr (Prog.wpi_perform.mpr fun past₁ _ _ => ⟨allowed_run trivial, ?_⟩)
  rintro (err | claimed) past₂ ⟨answer, rfl, hstep⟩
  · trivial
  cases claimed with
  | false => trivial
  | true =>
      have hclaim : claimant past₂.2 record.cid = some t := by
        rw [hstep.2, claimant_snoc]
        exact if_pos rfl
      have hclaimed : JobSafe content faults site t (repairClaimed placement selfPeerId record)
          (fun _ past => claimant past.2 record.cid = some t) past₂ := by
        have hrequests : Prog.Requests (AsksClaimed site t record)
            (repairClaimed placement selfPeerId record) := requests_repairClaimed ..
        refine Prog.wpi_of_requests_frame ?_ (fun _ _ hrely hF => hrely.claims _ hF) ?_
          hrequests hclaim
        · intro o past _ hF ho
          rcases ho with ho | rfl
          · exact ho.allowed
          · exact allowed_run hF
        · rintro o past r past' ho ⟨answer, rfl, hstep⟩ hF
          rcases ho with ho | rfl
          · rw [ho.claimant hstep, hF]
          · rw [hstep.2, claimant_snoc]
            exact hF
      refine Prog.wpi_bind.mpr (Prog.wpi_attempt.mpr (Prog.wpi_mono ?_ hclaimed))
      intro result past₃ hclaim₃
      refine Prog.wpi_bind.mpr (Prog.wpi_perform.mpr fun past₄ hrely _ => ⟨?_, ?_⟩)
      · exact allowed_run (hrely.claims _ hclaim₃)
      · rintro (err | done) past₅ -
        · trivial
        · exact Prog.wpi_ofExcept.mpr trivial

/-! ## A collection -/

/-- What a release stores is its own. -/
theorem isOwnRelease_of_releases {w w' : World Cid} {record stored : FileRecord Cid}
    (hw : w.Stamped)
    (hrun : Prog.Runs (storeSem content anyFault) (releasePlanned record) w
      (.ok (some stored)) w') : IsOwnRelease stored w' := by
  have hreleases := Prog.wp_iff_runs.mp wp_releasePlanned _ _ hrun
  obtain ⟨hget, current, n, -, -, hstored⟩ := hreleases.stored stored rfl
  have hcid : stored.cid = record.cid := Registry.cid_of_get hget
  have hn : stored.revision = some n := by
    rcases hstored with rfl | rfl
    · rfl
    · rfl
  refine ⟨?_, n, hn, runs_stamped hrun hw _ stored n hget hn, fun other hother _ => ?_⟩
  · rcases hstored with rfl | rfl
    · rfl
    · rfl
  · rw [hcid, hget] at hother
    exact (Option.some.inj hother).symm

theorem collectsWith_life (options : GcRunOptions) :
    CollectsWith ((Prog.Pool.traced (lifeSem content faults) t).along LifeOp.node
      fun _ answer => answer) (Rely t) LifeInvariant
      (fun o => LifeOp.Allowed site t (.node o)) options (fun _ _ => True)
      (fun stored past => IsOwnRelease stored past.1) where
  scan _ _ := allowed_run trivial
  scans _ _ _ _ _ := trivial
  scanned_le _ _ _ _ _ := trivial
  scanned_step _ _ _ _ _ _ _ _ _ _ := trivial
  check _ _ _ _ _ _ := ⟨allowed_run trivial, allowed_run trivial⟩
  release _ _ _ _ _ _ := allowed_run trivial
  released := by
    rintro record past stored past' hinv _ ⟨answer, rfl, hstep, -⟩
    exact isOwnRelease_of_releases hinv.sound.stamped (runs_anyFault hstep)
  own_le _ _ _ hrely hown := hown.evolves hrely.evolves
  own_step := by
    rintro stored o past r past' _ _ _ ⟨answer, rfl, hstep, -⟩ hown
    exact hown.evolves (lifeSem_evolves hstep)
  collect _ _ := allowed_run trivial
  cleanup _ _ _ hown := allowed_run hown

/-! ## An upload -/

/-- The upload runs, and none of its files is taken yet. -/
structure Begun (id : AdmissionId) (past : LifePast Cid) : Prop where
  running : id ∈ past.1.proc.activeAdmissions
  untaken : ∀ cid, past.1.token cid ≠ some id

/-- The upload runs, and can put back what it took. -/
structure Uploading (id : AdmissionId) (baselines : List (UploadBaseline Cid))
    (past : LifePast Cid) : Prop where
  running : id ∈ past.1.proc.activeAdmissions
  restorable : ∀ baseline ∈ baselines, Restorable id past baseline

variable {id : AdmissionId} {baselines : List (UploadBaseline Cid)}

theorem token_eq_some_iff {w : World Cid} {cid : Cid} :
    w.token cid = some id ↔ (w.ownedBy id cid).isSome = true := by
  constructor
  · intro h
    obtain ⟨record, hget, htoken⟩ := Option.bind_eq_some_iff.mp h
    rw [World.ownedBy_some hget htoken]
    rfl
  · intro h
    by_contra hnot
    rw [World.ownedBy_none hnot] at h
    cases h

theorem Begun.rely (h : Begun id past) (hrely : Rely (.upload id) past past') :
    Begun id past' := by
  obtain ⟨hrunning, howned⟩ := hrely.running id rfl h.running
  refine ⟨hrunning, fun cid htoken => h.untaken cid ?_⟩
  rw [token_eq_some_iff, ← howned cid, ← token_eq_some_iff]
  exact htoken

/-- Records that carry the token afterwards carried it before, on the same file. -/
def Inherits (id : AdmissionId) (w w' : World Cid) : Prop :=
  ∀ cid record, w'.files.get cid = some record → record.admissionId = some id →
    ∃ old, w.files.get cid = some old ∧ old.admissionId = some id ∧
      record.createdAt = old.createdAt ∧ record.state = old.state ∧
      record.confirmedAt = old.confirmedAt

theorem inherits_of_ownedBy {w w' : World Cid}
    (h : ∀ cid, w'.ownedBy id cid = w.ownedBy id cid) : Inherits id w w' := by
  intro cid record hget htoken
  have hnew := World.ownedBy_some hget htoken
  rw [h cid] at hnew
  obtain ⟨old, hold, hcore⟩ := Option.map_eq_some_iff.mp hnew
  obtain ⟨hget', hold'⟩ := Option.filter_eq_some_iff.mp hold
  obtain ⟨-, -, hstate, hcreated, -, hsince, -⟩ := core_eq_iff.mp hcore
  exact ⟨old, hget', by simpa using hold', hcreated.symm, hstate.symm, hsince.symm⟩

/-- A baseline stays restorable while its upload keeps the file. -/
theorem Restorable.move {baseline : UploadBaseline Cid} (h : Restorable id past baseline)
    {events : List (LifeEvent Cid)} (hhistory : past'.2 = past.2 ++ events)
    (hevolves : past.1.Evolves past'.1) (hinherits : Inherits id past.1 past'.1) :
    Restorable id past' baseline where
  admitted := by
    obtain ⟨e, hmem, hadmission⟩ := h.admitted
    exact ⟨e, hhistory ▸ List.mem_append_left _ hmem, hadmission⟩
  valid := h.valid
  sound previous hprevious := by
    obtain ⟨hsound, hidle⟩ := h.sound previous hprevious
    have hidle' : isAdmissionInFlight past'.1.proc previous = false := by
      cases htoken : previous.admissionId with
      | none => exact not_inFlight_of_none htoken
      | some tok =>
          rw [isAdmissionInFlight, htoken, Bool.or_eq_false_iff] at hidle ⊢
          refine ⟨hidle.1, ?_⟩
          rw [Bool.eq_false_iff, ne_eq, isActiveAdmission_some]
          refine hevolves.ended tok (hsound.token tok htoken) fun hactive => ?_
          rw [isActiveAdmission_some.mpr hactive] at hidle
          cases hidle.2
    refine ⟨hsound.of_owners hevolves.issued fun hflight => ?_, hidle'⟩
    rw [hidle'] at hflight
    cases hflight
  derives record hget htoken := by
    obtain ⟨old, hold, hold', hcreated, hstate, hsince⟩ := hinherits _ record hget htoken
    intro previous hprevious
    obtain ⟨hcreated', hconfirmed⟩ := h.derives old hold hold' previous hprevious
    refine ⟨hcreated.trans hcreated', fun hprev => ?_⟩
    obtain ⟨hstate', hsince'⟩ := hconfirmed hprev
    exact ⟨hstate.trans hstate', hsince.trans hsince'⟩

theorem Uploading.move (h : Uploading id baselines past) {events : List (LifeEvent Cid)}
    (hhistory : past'.2 = past.2 ++ events) (hevolves : past.1.Evolves past'.1)
    (hrunning : id ∈ past'.1.proc.activeAdmissions) (hinherits : Inherits id past.1 past'.1) :
    Uploading id baselines past' :=
  ⟨hrunning, fun baseline hmem => (h.restorable baseline hmem).move hhistory hevolves hinherits⟩

theorem Uploading.rely (h : Uploading id baselines past)
    (hrely : Rely (.upload id) past past') : Uploading id baselines past' := by
  obtain ⟨events, hhistory, -⟩ := hrely.history
  obtain ⟨hrunning, howned⟩ := hrely.running id rfl h.running
  exact h.move hhistory hrely.evolves hrunning (inherits_of_ownedBy howned)

/-! ### What an admission takes -/

/-- Every record is as it was, or carries the token and derives from what was
there. -/
def takingPolicy (w : World Cid) (id : AdmissionId) : Policy Cid where
  record cid record := record.map FileRecord.unstamped =
      (w.files.get cid).map FileRecord.unstamped ∨
    ∃ stored, record = some stored ∧ stored.admissionId = some id ∧
      Derives (w.files.get cid) stored
  pin _ := False
  process _ := True
  stamped := by
    rintro cid record n (hsame | ⟨_, ⟨⟩, htoken, hderives⟩)
    · exact .inl hsame
    · exact .inr ⟨_, rfl, htoken, hderives⟩

omit [DecidableEq Cid] in
/-- A registration derives from what it replaces. -/
theorem derives_registrationOf {existing previous : Option (FileRecord Cid)}
    {file : NewFileRecord Cid} {options : RegisterFileOptions}
    (hsome : ∀ old, previous = some old → existing.isSome = true)
    (h : ∀ current, existing = some current → Derives previous current) :
    Derives previous (registrationOf existing file options) := by
  intro old hold
  obtain ⟨current, rfl⟩ := Option.isSome_iff_exists.mp (hsome old hold)
  obtain ⟨hcreated, hconfirmed⟩ := h current rfl old hold
  unfold registrationOf
  dsimp only
  split
  · rename_i hstate
    exact ⟨hcreated, fun hprev => ⟨(hconfirmed hprev).1, (hconfirmed hprev).2⟩⟩
  · rename_i hstate
    exact ⟨hcreated, fun hprev => absurd (hconfirmed hprev).1 hstate⟩

theorem permits_takingPolicy {w : World Cid} {options : AdmitOptions}
    {files : List (UploadFile Cid)} :
    (takingPolicy w options.admissionId).Permits (.admitUpload options files) where
  aborted _ _ _ := trivial
  block _ := fun h => h
  removes _ _ _ := nofun
  unpins _ _ _ _ _ := nofun
  stores := by
    intro proc existing record _ hread _ hstores
    cases hstores with
    | admission hfile hcid hmay =>
        refine .inr ⟨_, rfl, (isRegistration_registrationOf ..).token, ?_⟩
        rcases hread.1 with hsame | ⟨stored, rfl, -, hderives⟩
        · refine derives_registrationOf (fun old hold => ?_) fun current hcurrent old hold => ?_
          · rw [hold] at hsame
            obtain ⟨current, rfl, -⟩ := Option.map_eq_some_iff.mp hsame
            rfl
          · rw [hold, hcurrent] at hsame
            have hsame := Option.some.inj hsame
            have hcreated : current.createdAt = old.createdAt :=
              (congrArg FileRecord.createdAt hsame :)
            have hstate : current.state = old.state := (congrArg FileRecord.state hsame :)
            have hsince : current.confirmedAt = old.confirmedAt :=
              (congrArg FileRecord.confirmedAt hsame :)
            exact ⟨hcreated, fun hprev => ⟨hstate.trans hprev, hsince⟩⟩
        · refine derives_registrationOf (fun _ _ => rfl) fun current hcurrent => ?_
          cases hcurrent
          exact hderives

/-- An upload that was admitted can put back what it took. -/
theorem uploading_of_admitted {options : AdmitOptions} {files : List (UploadFile Cid)}
    {admitted : Admitted Cid} (hinv : LifeInvariant past)
    (hbegun : Begun options.admissionId past)
    (hrun : Prog.Runs (storeSem content anyFault) (admitUpload options files) past.1
      (.ok admitted) past'.1)
    (hpast : past'.2 = past.2 ++ [.request (.upload options.admissionId)
      (.node (.run (.admitUpload options files))) past.1 (.ok admitted) past'.1]) :
    Uploading options.admissionId admitted.baselines past' := by
  have hin : AdmittedIn options past.1 files admitted past'.1 :=
    Prog.wp_iff_runs.mp wp_admitUpload _ _ hrun
  have hevolves := runs_evolves hrun
  have hpermits : (takingPolicy past.1 options.admissionId).Permits (.admitUpload options files) :=
    permits_takingPolicy
  have hsafe : Safe content (takingPolicy past.1 options.admissionId)
      (LocalOp.admitUpload options files).body :=
    hpermits.safe rfl (by simp [LocalOp.baselines])
  have hholds : (takingPolicy past.1 options.admissionId).Holds past.1 :=
    ⟨fun _ => .inl rfl, fun _ => False.elim, trivial, fun _ => False.elim⟩
  have hholds' := hsafe.holds hholds hrun
  refine ⟨by rw [hin.proc]; exact hbegun.running, fun baseline hmem => ?_⟩
  have hprevious := hin.remembers.previous baseline hmem
  have hadmission : LifeEvent.IsAdmission options.admissionId
      (.request (.upload options.admissionId) (.node (.run (.admitUpload options files))) past.1
        (.ok admitted) past'.1) := ⟨rfl, rfl⟩
  refine ⟨⟨_, by rw [hpast]; simp, hadmission, hprevious⟩, hin.remembers.valid baseline hmem,
    fun previous heq => ?_, fun record hget htoken => ?_⟩
  · rw [hprevious] at heq
    have hsound := hinv.sound.record _ previous heq
    have hallowed := hin.allowed _ ((hin.baselines _).mp (List.mem_map_of_mem hmem))
    have hidle : isAdmissionInFlight past.1.proc previous = false := by
      rw [Bool.eq_false_iff]
      intro hflight
      obtain ⟨tok, htok⟩ := exists_token_of_inFlight hflight
      have hne : tok ≠ options.admissionId := by
        rintro rfl
        refine hbegun.untaken baseline.cid ?_
        rw [World.token, heq]
        exact htok
      simp [mayRegister, heq, isOwnedByAnother, hflight, htok, hne] at hallowed
    have hsame : isAdmissionInFlight past'.1.proc previous = false := by
      rw [hin.proc]
      exact hidle
    refine ⟨hsound.of_owners hevolves.issued fun hflight => ?_, hsame⟩
    rw [hsame] at hflight
    cases hflight
  · rcases hholds'.record _ with hsame | ⟨stored, hstored, -, hderives⟩
    · rw [hget] at hsame
      obtain ⟨old, hold, heq⟩ := Option.map_eq_some_iff.mp hsame.symm
      have hold' : old.admissionId = some options.admissionId :=
        (congrArg FileRecord.admissionId heq :).trans htoken
      refine absurd ?_ (hbegun.untaken baseline.cid)
      rw [World.token, hold]
      exact hold'
    · rw [hget] at hstored
      cases hstored
      rw [hprevious]
      exact hderives

/-! ### What the decision leaves -/

/-- Whatever carries the token did so before, on the same file. -/
def inheritingPolicy (w : World Cid) (id : AdmissionId) : Policy Cid where
  record cid record := ∀ stored, record = some stored → stored.admissionId = some id →
    ∃ old, w.files.get cid = some old ∧ old.admissionId = some id ∧
      stored.createdAt = old.createdAt ∧ stored.state = old.state ∧
      stored.confirmedAt = old.confirmedAt
  pin _ := False
  process _ := True
  stamped := by
    rintro cid record n h _ ⟨⟩ htoken
    exact h record rfl htoken

theorem permits_inheritingPolicy {w : World Cid} {cids : List Cid} {reports : Reports Cid}
    {settledAt : Nat} (hprevious : ∀ baseline ∈ baselines, ∀ previous,
      baseline.previous = some previous → previous.admissionId ≠ some id) :
    (inheritingPolicy w id).Permits (.finalizeAdmitted cids baselines reports id settledAt) where
  aborted _ _ _ := trivial
  block _ := fun h => h
  removes _ _ _ _ _ h := nomatch h
  unpins _ _ _ _ _ _ := fun h => h
  stores := by
    intro proc existing record _ hread _ hstores
    cases hstores with
    | @undoFinal _ _ _ _ _ baseline current previous hmem _ heq _ =>
        rintro _ ⟨⟩ htoken
        exact absurd htoken (hprevious baseline hmem record heq)
    | @report _ _ _ _ _ current htoken =>
        rintro _ ⟨⟩ _
        exact hread.1 current rfl htoken
    | @settle _ _ _ _ _ current htoken =>
        rintro _ ⟨⟩ _
        exact hread.1 current rfl htoken

/-- A decision leaves the token to files that had it, whatever fails. -/
theorem inherits_of_finalized {w w' : World Cid} {cids : List Cid} {reports : Reports Cid}
    {settledAt : Nat} {r : Except (LifecycleError Cid) (List (FileRecord Cid))}
    (hvalid : ∀ baseline ∈ baselines, baseline.Valid)
    (hprevious : ∀ baseline ∈ baselines, ∀ previous, baseline.previous = some previous →
      previous.admissionId ≠ some id)
    (hrun : Prog.Runs (storeSem content anyFault)
      (finalizeAdmitted cids baselines reports id settledAt) w r w') : Inherits id w w' := by
  have hsafe : Safe content (inheritingPolicy w id)
      (LocalOp.finalizeAdmitted cids baselines reports id settledAt).body :=
    (permits_inheritingPolicy hprevious).safe rfl hvalid
  have hholds : (inheritingPolicy w id).Holds w :=
    ⟨fun cid stored hstored htoken => ⟨stored, hstored, htoken, rfl, rfl, rfl⟩,
      fun _ => False.elim, trivial, fun _ => False.elim⟩
  exact fun cid record hget htoken =>
    (hsafe.holds hholds hrun).record cid record hget htoken

/-- A decision that fails leaves the upload able to withdraw. -/
theorem uploading_of_finalized {cids : List Cid} {reports : Reports Cid} {settledAt : Nat}
    {e : LifeEvent Cid} {r : Except (LifecycleError Cid) (List (FileRecord Cid))}
    (hinv : LifeInvariant past) (hup : Uploading id baselines past)
    (hpre : LocalOp.Allowed site (.upload id) past
      (.finalizeAdmitted cids baselines reports id settledAt))
    (hrun : Prog.Runs (storeSem content anyFault)
      (finalizeAdmitted cids baselines reports id settledAt) past.1 r past'.1)
    (hpast : past'.2 = past.2 ++ [e]) : Uploading id baselines past' := by
  have hstep := undisturbed_of_run hinv hpre rfl hrun
  refine hup.move hpast (runs_evolves hrun) ?_ (inherits_of_finalized ?_ ?_ hrun)
  · rw [hstep.owners.admissions]
    exact hup.running
  · exact fun baseline hmem => (hup.restorable baseline hmem).valid
  · exact fun baseline hmem previous heq =>
      token_ne_of_idle ((hup.restorable baseline hmem).sound previous heq).2 hup.running

/-! ### The handler -/

/-- An upload that could begin has taken nothing yet: its id is new. -/
theorem begun_of_begin {w : World Cid}
    (htokens : ∀ cid id, w.token cid = some id → id ∈ w.issued)
    (hrun : Prog.Runs (storeSem content anyFault) (request (.beginAdmission id)) w (.ok ())
      past'.1) : Begun id past' := by
  obtain ⟨hr, hafter⟩ := runs_request rfl rfl hrun
  simp only [StoreOp.effect] at hr hafter
  split at hafter
  · rename_i hused
    rw [if_pos hused] at hr
    cases hr
  · rename_i hnew
    rw [not_or] at hnew
    refine ⟨by rw [hafter]; exact Finset.mem_insert_self _ _, fun cid htoken => hnew.2 ?_⟩
    rw [hafter] at htoken
    exact htokens cid id htoken

theorem uploadsWith_life : UploadsWith ((Prog.Pool.traced (lifeSem content faults)
      (.upload id)).along LifeOp.node fun _ answer => answer) (Rely (.upload id)) LifeInvariant
    (fun o => LifeOp.Allowed site (.upload id) (.node o)) id (Begun id) (Uploading id) where
  begin _ _ := allowed_run rfl
  begins := by
    rintro past past' hinv ⟨answer, rfl, hsem, -⟩
    refine begun_of_begin (fun cid id htoken => ?_) (runs_anyFault hsem)
    obtain ⟨record, hget, hrecord⟩ := Option.bind_eq_some_iff.mp htoken
    exact (hinv.sound.record cid record hget).token id hrecord
  begun_le _ _ hrely hbegun := hbegun.rely hrely
  admission := by
    rintro options files past rfl - hbegun
    exact allowed_run ⟨rfl, hbegun.running, hbegun.untaken⟩
  admits := by
    rintro options files past admitted past' rfl hinv hbegun ⟨answer, rfl, hsem, hpast⟩
    exact uploading_of_admitted hinv hbegun (runs_anyFault hsem) hpast
  up_le _ _ _ hrely hup := hup.rely hrely
  ask _ _ _ := allowed_ask
  asks := by
    rintro baselines o past r past' ⟨answer, rfl, hsem, hpast⟩ hup
    have hsame : past'.1 = past.1 := hsem
    refine hup.move hpast (hsame ▸ .refl _) (hsame ▸ hup.running) (inherits_of_ownedBy ?_)
    exact fun cid => by rw [hsame]
  rollback _ _ _ hup := allowed_run ⟨rfl, hup.running, hup.restorable⟩
  finalize _ _ _ _ _ _ hup := allowed_run ⟨rfl, hup.running, hup.restorable⟩
  finalizes := by
    rintro cids baselines reports settledAt past r past' hinv hup ⟨answer, rfl, hsem, hpast⟩
    have hpre : LocalOp.Allowed site (.upload id) past
        (.finalizeAdmitted cids baselines reports id settledAt) :=
      ⟨rfl, hup.running, hup.restorable⟩
    exact uploading_of_finalized hinv hup hpre (runs_anyFault hsem) hpast
  clear _ _ _ _ _ hup := allowed_run ⟨rfl, hup.running⟩
  finish _ _ := allowed_run rfl

end Jobs

/-! ## A handover pass -/

section Passes

variable {Cid α : Type} [DecidableEq Cid] {content : Content Cid} {faults : Faults Cid}
variable {site : Site Cid} {t : LifeTask} {past past' : LifePast Cid}

/-- A part of a handover pass that drops only copies that were handed over. -/
abbrev SweepSafe (content : Content Cid) (faults : Faults Cid) (site : Site Cid) (t : LifeTask)
    (sweep : Sweep Cid α) (Q : Except (LifecycleError Cid) α → LifePast Cid → Prop) :
    LifePast Cid → Prop :=
  Prog.wpi ((Prog.Pool.traced (lifeSem content faults) t).along LifeOp.sweep
    fun _ answer => answer) (Rely t) LifeInvariant (fun o => LifeOp.Allowed site t (.sweep o))
    sweep Q

/-- Since its pass began, the task saw events of each of these kinds. -/
def InPass (t : LifeTask) (facts : List (LifeEvent Cid → Prop)) (h : List (LifeEvent Cid)) :
    Prop :=
  ∃ early late, h = early ++ late ∧ (∀ e ∈ late, ¬ LifeEvent.BeginsPass t e) ∧
    ∀ fact ∈ facts, ∃ e ∈ late, fact e

variable {facts : List (LifeEvent Cid → Prop)}

omit [DecidableEq Cid] in
theorem LifeEvent.by_of_beginsPass {e : LifeEvent Cid} (h : LifeEvent.BeginsPass t e) :
    LifeEvent.By t e := by
  unfold LifeEvent.BeginsPass at h
  split at h
  · exact h
  · cases h

omit [DecidableEq Cid] in
/-- A pass can begin at any time. -/
theorem inPass_nil (h : List (LifeEvent Cid)) : InPass t [] h :=
  ⟨h, [], by simp, by simp, by simp⟩

omit [DecidableEq Cid] in
theorem InPass.append {h events : List (LifeEvent Cid)} (hpass : InPass t facts h)
    (hevents : ∀ e ∈ events, ¬ LifeEvent.BeginsPass t e) : InPass t facts (h ++ events) := by
  obtain ⟨early, late, rfl, hlate, hfacts⟩ := hpass
  refine ⟨early, late ++ events, by simp, fun e hmem => ?_, fun fact hfact => ?_⟩
  · exact (List.mem_append.mp hmem).elim (hlate e) (hevents e)
  · obtain ⟨e, hmem, he⟩ := hfacts fact hfact
    exact ⟨e, List.mem_append_left _ hmem, he⟩

omit [DecidableEq Cid] in
theorem InPass.learn {h : List (LifeEvent Cid)} {e : LifeEvent Cid} (hpass : InPass t facts h)
    (he : ¬ LifeEvent.BeginsPass t e) {fact : LifeEvent Cid → Prop} (hfact : fact e) :
    InPass t (fact :: facts) (h ++ [e]) := by
  obtain ⟨early, late, rfl, hlate, hfacts⟩ := hpass
  refine ⟨early, late ++ [e], by simp, fun e' hmem => ?_, ?_⟩
  · rcases List.mem_append.mp hmem with hmem | hmem
    · exact hlate e' hmem
    · rw [List.mem_singleton.mp hmem]
      exact he
  · rw [List.forall_mem_cons]
    refine ⟨⟨e, by simp, hfact⟩, fun fact' hfact' => ?_⟩
    obtain ⟨e', hmem, he'⟩ := hfacts fact' hfact'
    exact ⟨e', List.mem_append_left _ hmem, he'⟩

omit [DecidableEq Cid] in
theorem InPass.snoc {h : List (LifeEvent Cid)} {e : LifeEvent Cid} (hpass : InPass t facts h)
    (he : ¬ LifeEvent.BeginsPass t e) : InPass t facts (h ++ [e]) :=
  hpass.append fun e' hmem => by
    rw [List.mem_singleton.mp hmem]
    exact he

theorem InPass.rely (h : InPass t facts past.2) (hrely : Rely t past past') :
    InPass t facts past'.2 := by
  obtain ⟨events, hevents, hothers⟩ := hrely.history
  rw [hevents]
  exact h.append fun e hmem hbegins => hothers e hmem (LifeEvent.by_of_beginsPass hbegins)

omit [DecidableEq Cid] in
theorem InPass.mono {facts' : List (LifeEvent Cid → Prop)} {h : List (LifeEvent Cid)}
    (hpass : InPass t facts h) (hsub : facts' ⊆ facts) : InPass t facts' h := by
  obtain ⟨early, late, hh, hlate, hfacts⟩ := hpass
  exact ⟨early, late, hh, hlate, fun fact hmem => hfacts fact (hsub hmem)⟩

/-- What the peers that confirmed said. -/
def confirmations (t : LifeTask) (cid : Cid) (peers : List ReplicationPeer) :
    List (LifeEvent Cid → Prop) :=
  peers.map fun peer => LifeEvent.Confirms t peer.peerId cid

/-- When all peers confirmed, all of them were heard in this pass. -/
theorem sweepSafe_probeEach {cid : Cid} {peers : List ReplicationPeer}
    (hpass : InPass t facts past.2) :
    SweepSafe content faults site t (probeEach cid peers) (fun r past' =>
      InPass t facts past'.2 ∧ ∀ answers, r = .ok answers → answers.all id = true →
        InPass t (confirmations t cid peers ++ facts) past'.2) past := by
  induction peers generalizing facts past with
  | nil => exact ⟨hpass, fun _ _ _ => hpass⟩
  | cons peer peers ih =>
      refine Prog.wpi_bind.mpr (Prog.wpi_attempt.mpr
        (Prog.wpi_perform.mpr fun past₁ hrely _ => ⟨fun _ => nofun, ?_⟩))
      rintro r past₂ ⟨answer, rfl, -, hpast⟩
      have hnot : ¬ LifeEvent.BeginsPass t
          (.request t (.sweep (.probeHave peer cid)) past₁.1 answer past₂.1) := id
      by_cases hyes : answer = .ok true
      · have hsaid : LifeEvent.Confirms t peer.peerId cid
            (.request t (.sweep (.probeHave peer cid)) past₁.1 answer past₂.1) :=
          ⟨rfl, rfl, rfl, hyes⟩
        have hpass₂ := (hpass.rely hrely).learn hnot hsaid
        rw [← hpast] at hpass₂
        refine Prog.wpi_bind.mpr (Prog.wpi_mono ?_ (ih hpass₂))
        rintro (err | answers) past₃ ⟨hpass₃, hall⟩
        · exact ⟨hpass₃.mono (List.subset_cons_self _ _), fun _ => nofun⟩
        · refine ⟨hpass₃.mono (List.subset_cons_self _ _), fun answers' heq hyes' => ?_⟩
          cases heq
          have hrest : answers.all id = true := by
            rw [List.all_cons, Bool.and_eq_true] at hyes'
            exact hyes'.2
          refine (hall answers rfl hrest).mono ?_
          intro fact hfact
          simp only [confirmations, List.map_cons, List.cons_append, List.mem_cons,
            List.mem_append] at hfact ⊢
          rcases hfact with hfact | hfact | hfact
          · exact .inr (.inl hfact)
          · exact .inl hfact
          · exact .inr (.inr hfact)
      · have hpass₂ : InPass t facts past₂.2 := by
          rw [hpast]
          exact (hpass.rely hrely).snoc hnot
        refine Prog.wpi_bind.mpr (Prog.wpi_mono ?_ (ih hpass₂))
        rintro (err | answers) past₃ ⟨hpass₃, -⟩
        · exact ⟨hpass₃, fun _ => nofun⟩
        · refine ⟨hpass₃, fun answers' heq hall => ?_⟩
          cases heq
          rw [List.all_cons, Bool.and_eq_true] at hall
          refine absurd ?_ hyes
          rcases answer with err | has
          · cases hall.1
          · exact congrArg Except.ok hall.1

/-- A candidate is dropped after every designated holder confirmed. -/
theorem sweepSafe_demoteRecord {dryRun : Bool} {report : DemotionReport Cid}
    {record : FileRecord Cid} (hpass : InPass t [] past.2) :
    SweepSafe content faults site t (demoteRecord site.score site.config.placement
      (getReplicationPeers site.nodes site.selfPeerId) site.selfPeerId dryRun report record)
      (fun _ past' => InPass t [] past'.2) past := by
  set peers := getReplicationPeers site.nodes site.selfPeerId with hpeers
  refine Prog.wpi_bind.mpr (Prog.wpi_perform.mpr fun past₁ hrely _ => ⟨fun _ => nofun, ?_⟩)
  rintro r past₂ ⟨answer, rfl, -, hpast⟩
  have hnow : ¬ LifeEvent.BeginsPass t
      (.request t (.sweep .now) past₁.1 answer past₂.1) := id
  rcases answer with err | now
  · show InPass t [] past₂.2
    rw [hpast]
    exact (hpass.rely hrely).snoc hnow
  have htells : LifeEvent.Tells t now
      (.request t (.sweep .now) past₁.1 (.ok now) past₂.1) := ⟨rfl, rfl⟩
  have hpass₂ := (hpass.rely hrely).learn hnow htells
  rw [← hpast] at hpass₂
  set placement := site.placement record now with hplacement
  have hdone : ∀ {facts : List (LifeEvent Cid → Prop)} {past' : LifePast Cid},
      InPass t facts past'.2 → InPass t [] past'.2 := fun h => h.mono (List.nil_subset _)
  show SweepSafe content faults site t (ite _ _ _) _ past₂
  split
  · exact hdone hpass₂
  rename_i hmay
  split
  · exact hdone hpass₂
  refine Prog.wpi_bind.mpr (Prog.wpi_perform.mpr fun past₃ hrely₃ _ => ⟨fun _ => nofun, ?_⟩)
  rintro r past₄ ⟨answer, rfl, ⟨-, order, rfl, hperm⟩, hpast₄⟩
  have hpass₄ : InPass t [LifeEvent.Tells t now] past₄.2 := by
    rw [hpast₄]
    exact (hpass₂.rely hrely₃).snoc id
  refine Prog.wpi_bind.mpr (Prog.wpi_mono ?_ (sweepSafe_probeEach hpass₄))
  rintro (err | answers) past₅ ⟨hpass₅, hall⟩
  · exact hdone hpass₅
  show SweepSafe content faults site t (ite _ _ _) _ past₅
  split
  · exact hdone hpass₅
  rename_i hyes
  have hheard := hall answers rfl (by simpa using hyes)
  split
  · exact hdone hpass₅
  refine Prog.wpi_bind.mpr (Prog.wpi_perform.mpr fun past₆ hrely₆ _ => ⟨?_, ?_⟩)
  · rintro _ ⟨⟩
    obtain ⟨early, late, hh, hlate, hfacts⟩ := hheard.rely hrely₆
    have hself : site.selfPeerId ∉ placement.holders := by
      intro hmem
      have hholder : placement.selfIsHolder = true := decide_eq_true hmem
      have hkeep : mayDemote placement = false := by simp [mayDemote, hholder]
      exact hmay (congrArg Bool.not hkeep)
    refine ⟨early, late, now, hh, hlate, hfacts _ (by simp), hself, fun peerId hmem => ?_⟩
    have hne : peerId ≠ site.selfPeerId := fun heq => hself (heq ▸ hmem)
    have hknown := (mem_of_mem_holders hmem).resolve_left hne
    have hmem' := (hperm.map (·.peerId)).mem_iff.mpr (mem_knownHolders hmem hne hknown)
    obtain ⟨peer, hpeer, rfl⟩ := List.mem_map.mp hmem'
    exact hfacts _ (List.mem_append_left _ (List.mem_map_of_mem hpeer))
  · rintro r past₇ ⟨answer, rfl, -, hpast₇⟩
    have hpass₇ : InPass t [] past₇.2 := by
      rw [hpast₇]
      exact (hdone (hheard.rely hrely₆)).snoc id
    rcases answer with err | released
    · exact hpass₇
    · exact hpass₇

theorem sweepSafe_demoteEach {dryRun : Bool} {report : DemotionReport Cid}
    {records : List (FileRecord Cid)} (hpass : InPass t [] past.2) :
    SweepSafe content faults site t (demoteEach site.score site.config.placement
      (getReplicationPeers site.nodes site.selfPeerId) site.selfPeerId dryRun report records)
      (fun _ _ => True) past := by
  induction records generalizing report past with
  | nil => trivial
  | cons record records ih =>
      refine Prog.wpi_bind.mpr (Prog.wpi_mono ?_ (sweepSafe_demoteRecord hpass))
      rintro (err | report') past' hpass'
      · trivial
      · exact ih hpass'

theorem sweepSafe_demoteReleasableCopies {dryRun : Bool} :
    SweepSafe content faults site t (demoteReleasableCopies site.score site.config site.nodes
      site.selfPeerId dryRun) (fun _ _ => True) past := by
  unfold demoteReleasableCopies
  dsimp only
  split
  · trivial
  refine Prog.wpi_bind.mpr (Prog.wpi_perform.mpr fun past₁ _ _ => ⟨fun _ => nofun, ?_⟩)
  rintro (err | candidates) past₂ -
  · trivial
  · exact sweepSafe_demoteEach (inPass_nil _)

/-! ## All tasks together -/

/-- Whatever may start on a node keeps to what its tasks may ask for. -/
theorem safe_of_entry {p : Life Cid Unit} (h : LifeEntry site t p) :
    Prog.wpi (Prog.Pool.traced (lifeSem content faults) t) (Rely t) LifeInvariant
      (LifeOp.Allowed site t) p (fun _ _ => True) past := by
  cases h with
  | upload request =>
      exact Prog.wpi_embed.mpr
        (Prog.wpi_bind_true (wpi_uploadHandler uploadsWith_life past) fun _ _ => trivial)
  | request n o ho =>
      exact Prog.wpi_embed.mpr (jobSafe_of_harmless
        (requests_job (LocalOp.harmless_of_isRequest ho)))
  | accept n options blocks =>
      exact Prog.wpi_embed.mpr (Prog.wpi_bind_true
        (jobSafe_of_harmless (requests_acceptReplica options blocks)) fun _ _ => trivial)
  | acceptStaged n options name blocks =>
      exact Prog.wpi_embed.mpr (Prog.wpi_bind_true
        (jobSafe_of_harmless (requests_acceptStagedReplica options name blocks))
        fun _ _ => trivial)
  | confirm n options registerUnknown blocks =>
      exact Prog.wpi_embed.mpr (Prog.wpi_bind_true
        (jobSafe_of_harmless (requests_confirmFile options registerUnknown blocks))
        fun _ _ => trivial)
  | replicate n cid =>
      exact Prog.wpi_embed.mpr (jobSafe_of_harmless (requests_replicateFile cid))
  | repair n placement record =>
      exact Prog.wpi_embed.mpr (jobSafe_repairRecord placement site.selfPeerId record)
  | collect n options =>
      exact Prog.wpi_embed.mpr (Prog.wpi_bind_true
        (wpi_runGarbageCollection (collectsWith_life options) past) fun _ _ => trivial)
  | recover n =>
      exact Prog.wpi_embed.mpr (jobSafe_of_harmless requests_recoverInterruptedAdmissions)
  | backfill n options name pins =>
      exact Prog.wpi_embed.mpr (jobSafe_of_harmless (requests_backfill options name pins))
  | demote n dryRun =>
      exact Prog.wpi_embed.mpr
        (Prog.wpi_bind_true sweepSafe_demoteReleasableCopies fun _ _ => trivial)

/-- A node with no files yet. -/
structure World.Starting (w : World Cid) : Prop where
  files : w.files = Registry.empty
  proc : w.proc = Process.fresh

theorem World.Starting.invariant {w : World Cid} (h : w.Starting) :
    LifeInvariant ((w, []) : LifePast Cid) := by
  have hget : ∀ cid, w.files.get cid = none := fun cid => by
    rw [h.files]
    rfl
  refine ⟨⟨fun cid record hrecord => ?_, ?_, fun cid hcid => ?_, fun cid record n hrecord _ => ?_⟩,
    fun cid => ?_⟩
  · rw [hget] at hrecord
    cases hrecord
  · rw [h.proc]
    exact Finset.empty_subset _
  · rw [h.proc] at hcid
    cases hcid
  · rw [hget] at hrecord
    cases hrecord
  · show cid ∈ w.proc.activeRepairs ↔ _
    rw [h.proc]
    simp [Process.fresh, claimant]

/-- In every run the node is sound, and every request was one its task may make
at that moment. -/
theorem coexistence {w₀ : World Cid} (h₀ : w₀.Starting)
    {c : Prog.Pool.Config LifeTask (LifeOp Cid) LifeOp.Ret (LifecycleError Cid) (LifePast Cid)}
    (hrun : LifeRun content faults site w₀ c) :
    LifeInvariant c.1 ∧
      Prog.Pool.Lawful (lifeSem content faults) LifeInvariant (LifeOp.Allowed site) c.1.2 := by
  have htrans : ∀ t (a b c : LifePast Cid), Rely t a b → Rely t b c → Rely t a c :=
    fun _ _ _ _ h h' => h.trans h'
  refine Prog.Pool.lawful htrans Rely.refl ?_
    (fun t p hp past _ => safe_of_entry hp) (fun _ _ hinv hreset => hinv.restart hreset)
    h₀.invariant hrun
  intro t o past r past' hinv hpre hstep
  have hkept := hinv.step hpre hstep
  exact ⟨hkept.invariant, fun t' hne => hkept.rely t' hne⟩

end Passes

end IpfsNode
