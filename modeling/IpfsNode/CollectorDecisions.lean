import IpfsNode.Ownership

/-!
# A collection applies current decisions only

A collection decides from one scan of the registry and applies its decisions
file by file, with anything in between. `Since` is what its task saw in its last
scan and what happened since, and `LocalOp.Decided` where each of its decisions
comes from: the pins it checks and the files it releases are those of the scan,
and the records it removes are those it stored when it released a file.
-/

namespace IpfsNode

section Decisions

variable {Cid α : Type}

/-- The operation applies a decision of a collection. -/
def LocalOp.decides : LocalOp Cid → Bool
  | .guardPin _ | .releasePlanned _ | .cleanupReleased _ => true
  | _ => false

/-- The task scanned the registry. -/
def LifeEvent.Scans (t : LifeTask) : LifeEvent Cid → Prop
  | .request t' (.node (.run .scanRegistry)) .. => t' = t
  | _ => False

/-- The task stored the record when it released a file. -/
def LifeEvent.Releases (t : LifeTask) (stored : FileRecord Cid) : LifeEvent Cid → Prop
  | .request t' (.node (.run (.releasePlanned _))) _ answer _ =>
      t' = t ∧ answer = .ok (some stored)
  | _ => False

/-- What the task found in its last scan, and what happened since. -/
structure Since (t : LifeTask) (h : List (LifeEvent Cid)) (found : RegistryScan Cid)
    (late : List (LifeEvent Cid)) : Prop where
  scan : ∃ early before after, h =
    early ++ .request t (.node (.run .scanRegistry)) before (.ok found) after :: late
  last : ∀ e ∈ late, ¬ LifeEvent.Scans t e

variable {t : LifeTask} {h : List (LifeEvent Cid)} {found : RegistryScan Cid}
variable {late : List (LifeEvent Cid)}

theorem Since.append (hsince : Since t h found late) {events : List (LifeEvent Cid)}
    (hevents : ∀ e ∈ events, ¬ LifeEvent.Scans t e) :
    Since t (h ++ events) found (late ++ events) := by
  obtain ⟨⟨early, before, after, rfl⟩, hlast⟩ := hsince
  refine ⟨⟨early, before, after, by simp⟩, fun e hmem => ?_⟩
  exact (List.mem_append.mp hmem).elim (hlast e) (hevents e)

theorem LifeEvent.by_of_scans {e : LifeEvent Cid} (h : LifeEvent.Scans t e) :
    LifeEvent.By t e := by
  unfold LifeEvent.Scans at h
  split at h
  · exact h
  · cases h

variable [DecidableEq Cid] (site : Site Cid)

/-- Where a decision of the task comes from. -/
def LocalOp.Decided (t : LifeTask) (h : List (LifeEvent Cid)) : LocalOp Cid → Prop
  | .guardPin cid => ∃ found late, Since t h found late ∧ ∃ record ∈ found.records,
      record.cid = cid ∧ record.state = .confirmed ∧ record.heldLocally = true
  | .releasePlanned record => ∃ found late, Since t h found late ∧
      ∃ options, site.collects t options ∧ record ∈ (options.plan found).released
  | .cleanupReleased stored => ∃ found late, Since t h found late ∧
      ∃ e ∈ late, LifeEvent.Releases t stored e
  | _ => True

def LifeOp.Decided (t : LifeTask) (o : LifeOp Cid) (past : LifePast Cid) : Prop :=
  ∀ op, o = .node (.run op) → op.Decided site t past.2

/-- Only other tasks act. -/
def Others (t : LifeTask) (past past' : LifePast Cid) : Prop :=
  ∃ events, past'.2 = past.2 ++ events ∧ ∀ e ∈ events, ¬ LifeEvent.By t e

omit [DecidableEq Cid] in
theorem Since.others {past past' : LifePast Cid} (hsince : Since t past.2 found late)
    (hothers : Others t past past') : ∃ events, Since t past'.2 found (late ++ events) := by
  obtain ⟨events, hevents, hby⟩ := hothers
  refine ⟨events, ?_⟩
  rw [hevents]
  exact hsince.append fun e hmem hscans => hby e hmem (LifeEvent.by_of_scans hscans)

end Decisions

/-! ## Other tasks -/

section Others

variable {Cid α : Type}

/-- The request decides nothing for a collection. -/
def NodeOp.Plain : NodeOp Cid → Prop
  | .run op => op.decides = false
  | .ask _ => True

/-- A job that is no collection. -/
abbrev PlainJob (job : Job Cid α) : Prop := Prog.Requests NodeOp.Plain job

theorem plain_locked {o : LocalOp Cid} (h : o.decides = false) : PlainJob (locked o) :=
  Prog.Requests.perform h

theorem plain_ask (o : NetworkOp Cid) : PlainJob (ask o) := Prog.Requests.perform trivial

theorem plain_job {o : LocalOp Cid} (h : o.isRequest = true) : PlainJob o.job := by
  have hplain : o.decides = false := by
    cases o <;> first
      | rfl
      | cases h
  exact (plain_locked hplain).bind fun _ => trivial

theorem plain_replicateFile (cid : Cid) : PlainJob (replicateFile cid) := by
  refine (plain_locked rfl).bind fun record => (plain_ask _).bind fun report => ?_
  split
  · exact (plain_locked rfl).bind fun _ => trivial
  · trivial

theorem plain_repairClaimed (placement : Placement) (selfPeerId : PeerId)
    (record : FileRecord Cid) : PlainJob (repairClaimed placement selfPeerId record) := by
  refine (plain_ask _).bind fun live => (plain_locked rfl).bind fun _ => ?_
  cases isUnderReplicated (List.length live) placement selfPeerId with
  | false => exact plain_locked rfl
  | true =>
      refine Prog.Requests.bind (plain_replicateFile record.cid) fun _ => ?_
      refine (plain_ask _).bind fun verified => (plain_locked rfl).bind fun _ => ?_
      cases isUnderReplicated (List.length verified) placement selfPeerId with
      | false => exact plain_locked rfl
      | true => trivial

theorem plain_repairRecord (placement : Placement) (selfPeerId : PeerId)
    (record : FileRecord Cid) : PlainJob (repairRecord placement selfPeerId record) := by
  refine (plain_locked rfl).bind fun claimed => ?_
  split
  · trivial
  refine (plain_repairClaimed placement selfPeerId record).attempt.bind fun result => ?_
  exact (plain_locked rfl).bind fun _ => Prog.Requests.ofExcept

theorem plain_recoverEach (records : List (FileRecord Cid)) : PlainJob (recoverEach records) := by
  induction records with
  | nil => trivial
  | cons candidate rest ih => exact (plain_locked rfl).attempt.bind fun _ => ih

theorem plain_recoverInterruptedAdmissions :
    PlainJob (recoverInterruptedAdmissions : Job Cid Unit) :=
  (plain_locked rfl).bind fun _ => plain_recoverEach _

theorem plain_backfillPin (options : BackfillOptions) (name : Cid → String) (cid : Cid) :
    PlainJob (backfillPin options name cid) := by
  refine (plain_locked rfl).bind fun known => ?_
  cases known with
  | some record => exact plain_locked rfl
  | none =>
      refine (plain_locked rfl).bind fun interrupted => (plain_locked rfl).bind fun stats => ?_
      exact (plain_locked rfl).bind fun _ => plain_locked rfl

theorem plain_backfill (options : BackfillOptions) (name : Cid → String) (pins : List Cid) :
    PlainJob (backfillRegistryFromPins options name pins) := by
  induction pins with
  | nil => trivial
  | cons cid rest ih => exact (plain_backfillPin options name cid).attempt.bind fun _ => ih

theorem plain_acceptReplica (options : RegisterPinnedOptions Cid) (blocks : Finset Cid) :
    PlainJob (acceptReplica options blocks) := by
  refine (plain_locked rfl).bind fun existing => ?_
  split
  · trivial
  refine (plain_locked rfl).bind fun _ => (plain_locked rfl).bind fun stored => ?_
  split <;> trivial

theorem plain_acceptStagedReplica (options : ReplicaStageTarget Cid) (name : String)
    (blocks : Finset Cid) : PlainJob (acceptStagedReplica options name blocks) :=
  (plain_locked rfl).bind fun _ => plain_locked rfl

theorem plain_confirmFile (options : RegisterPinnedOptions Cid) (registerUnknown : Bool)
    (blocks : Finset Cid) : PlainJob (confirmFile options registerUnknown blocks) := by
  have hrest : PlainJob (do
      let confirmed : Option (FileRecord Cid) ← locked (.confirmStoredFile options registerUnknown)
      if confirmed.isNone then pure none
      else do
        replicateFile options.cid
        locked (.getRecord options.cid) : Job Cid (Option (FileRecord Cid))) := by
    refine (plain_locked rfl).bind fun confirmed => ?_
    cases confirmed with
    | none => trivial
    | some record => exact Prog.Requests.bind (plain_replicateFile _) fun _ => plain_locked rfl
  unfold confirmFile
  split
  · exact (plain_locked rfl).bind fun _ => hrest
  · exact hrest

theorem plain_abortEach (admissionId : AdmissionId) (replication : Replication Cid) :
    PlainJob (abortEach admissionId replication) := by
  induction replication with
  | nil => trivial
  | cons item rest ih =>
      obtain ⟨cid, report⟩ := item
      exact (plain_ask _).attempt.bind fun _ => ih.bind fun _ => trivial

theorem plain_commitEach (admissionId : AdmissionId) (replication : Replication Cid) :
    PlainJob (commitEach admissionId replication) := by
  induction replication with
  | nil => trivial
  | cons item rest ih =>
      obtain ⟨cid, report⟩ := item
      exact (plain_ask _).attempt.bind fun _ => ih.bind fun _ => trivial

theorem plain_abandonUpload (request : UploadRequest Cid) (admitted : Admitted Cid)
    (replication : Replication Cid) : PlainJob (abandonUpload request admitted replication) :=
  (plain_abortEach _ _).bind fun _ => (plain_locked rfl).attempt.bind fun _ => trivial

variable [DecidableEq Cid]

theorem plain_settleUpload (request : UploadRequest Cid) (admitted : Admitted Cid)
    (replication : Replication Cid) (finalized : List (FileRecord Cid)) :
    PlainJob (settleUpload request admitted replication finalized) := by
  unfold settleUpload
  split
  · refine (plain_commitEach _ _).bind fun commits => (plain_locked rfl).bind fun cleared => ?_
    split <;> trivial
  · exact (plain_locked rfl).bind fun _ => trivial

theorem plain_decideUpload (request : UploadRequest Cid) (admitted : Admitted Cid)
    (replication : Replication Cid) : PlainJob (decideUpload request admitted replication) := by
  unfold decideUpload
  split
  · refine (plain_abandonUpload _ _ _).bind fun failures => ?_
    split <;> trivial
  · refine (plain_locked rfl).attempt.bind fun decided => ?_
    rcases decided with err | finalized
    · exact (plain_abandonUpload _ _ _).bind fun _ => trivial
    · exact plain_settleUpload _ _ _ _

theorem plain_placeUpload (request : UploadRequest Cid) (admitted : Admitted Cid) :
    PlainJob (placeUpload request admitted) := by
  refine (plain_ask _).attempt.bind fun placed => ?_
  rcases placed with err | reports
  · refine (plain_locked rfl).attempt.bind fun undone => ?_
    rcases undone with err | done <;> trivial
  · exact plain_decideUpload _ _ _

theorem plain_uploadHandler (request : UploadRequest Cid) : PlainJob (uploadHandler request) := by
  have hhandle : PlainJob (handleUpload request) := by
    unfold handleUpload
    split
    · trivial
    split
    · trivial
    · exact (plain_locked rfl).bind fun _ => plain_placeUpload _ _
  exact (plain_locked rfl).bind fun _ => hhandle.attempt.bind fun _ =>
    (plain_locked rfl).bind fun _ => Prog.Requests.ofExcept

end Others

/-! ## A collection among them -/

section Runs

variable {Cid α : Type} [DecidableEq Cid] {content : Content Cid} {faults : Faults Cid}
variable {site : Site Cid} {t : LifeTask} {past : LifePast Cid}

/-- A part of a job whose decisions come from where they should. -/
abbrev DecidedJob (content : Content Cid) (faults : Faults Cid) (site : Site Cid) (t : LifeTask)
    (job : Job Cid α) (past : LifePast Cid) : Prop :=
  Prog.wpi ((Prog.Pool.traced (lifeSem content faults) t).along LifeOp.node
    fun _ answer => answer) (Others t) (fun _ => True)
    (fun o => LifeOp.Decided site t (.node o)) job (fun _ _ => True) past

theorem decided_of_plain {job : Job Cid α} (h : PlainJob job) :
    DecidedJob content faults site t job past := by
  have hdecided : ∀ (o : NodeOp Cid) (past : LifePast Cid), True → o.Plain →
      LifeOp.Decided site t (.node o) past := by
    rintro o past - hplain op ⟨⟩
    cases op <;> trivial
  exact Prog.wpi_of_requests hdecided h

omit [DecidableEq Cid] in
theorem not_scans {o : NodeOp Cid} (ho : o ≠ .run .scanRegistry) {before after : World Cid}
    {answer : Except (LifecycleError Cid) (LifeOp.node o).Ret} :
    ¬ LifeEvent.Scans t (.request t (.node o) before answer after) := by
  cases o with
  | run op =>
      cases op with
      | scanRegistry => exact absurd rfl ho
      | _ => exact id
  | ask o => exact id

theorem mem_records_of_heldConfirmed {options : GcRunOptions} {found : RegistryScan Cid}
    {record : FileRecord Cid} (h : record ∈ (options.plan found).heldConfirmed) :
    record ∈ found.records ∧ record.state = .confirmed ∧ record.heldLocally = true := by
  obtain ⟨hretained, hdurable⟩ := List.mem_filter.mp h
  rw [Bool.and_eq_true, decide_eq_true_iff] at hdurable
  exact ⟨List.mem_of_mem_filter hretained, hdurable⟩

theorem collectsWith_decided {options : GcRunOptions} (hcollects : site.collects t options) :
    CollectsWith ((Prog.Pool.traced (lifeSem content faults) t).along LifeOp.node
      fun _ answer => answer) (Others t) (fun _ => True)
      (fun o => LifeOp.Decided site t (.node o)) options
      (fun found past => ∃ late, Since t past.2 found late)
      (fun stored past => ∃ found late, Since t past.2 found late ∧
        ∃ e ∈ late, LifeEvent.Releases t stored e) where
  scan := by
    rintro past - op ⟨⟩
    trivial
  scans := by
    rintro past found past' - ⟨answer, rfl, -, hpast⟩
    exact ⟨[], ⟨past.2, past.1, past'.1, hpast⟩, by simp⟩
  scanned_le := by
    rintro found past past' hothers ⟨late, hsince⟩
    obtain ⟨events, hsince'⟩ := hsince.others hothers
    exact ⟨_, hsince'⟩
  scanned_step := by
    rintro found o past r past' - - ho ⟨answer, rfl, -, hpast⟩ ⟨late, hsince⟩
    rw [hpast]
    exact ⟨_, hsince.append (by simpa using not_scans ho)⟩
  check := by
    rintro found past - ⟨late, hsince⟩ record hmem
    refine ⟨?_, ?_⟩
    · rintro op ⟨⟩
      trivial
    · rintro op ⟨⟩
      obtain ⟨hrecord, hdurable⟩ := mem_records_of_heldConfirmed hmem
      exact ⟨found, late, hsince, record, hrecord, rfl, hdurable⟩
  release := by
    rintro found past - ⟨late, hsince⟩ record hmem op ⟨⟩
    exact ⟨found, late, hsince, options, hcollects, hmem⟩
  released := by
    rintro record past stored past' - hpre ⟨answer, rfl, -, hpast⟩
    obtain ⟨found, late, hsince, -⟩ := hpre _ rfl
    rw [hpast]
    refine ⟨found, _, hsince.append fun e hmem => ?_, _,
      List.mem_append_right _ (List.mem_singleton_self _), rfl, rfl⟩
    rw [List.mem_singleton.mp hmem]
    exact id
  own_le := by
    rintro stored past past' hothers ⟨found, late, hsince, e, hmem, hreleases⟩
    obtain ⟨events, hsince'⟩ := hsince.others hothers
    exact ⟨found, _, hsince', e, List.mem_append_left _ hmem, hreleases⟩
  own_step := by
    rintro stored o past r past' - - ho ⟨answer, rfl, -, hpast⟩
      ⟨found, late, hsince, e, hmem, hreleases⟩
    rw [hpast]
    exact ⟨found, _, hsince.append (by simpa using not_scans ho), e,
      List.mem_append_left _ hmem, hreleases⟩
  collect := by
    rintro past - op ⟨⟩
    trivial
  cleanup := by
    rintro stored past - hown op ⟨⟩
    exact hown

/-- Whatever may start on a node decides from where it should. -/
theorem decided_of_entry {p : Life Cid Unit} (h : LifeEntry site t p) :
    Prog.wpi (Prog.Pool.traced (lifeSem content faults) t) (Others t) (fun _ => True)
      (LifeOp.Decided site t) p (fun _ _ => True) past := by
  have hplain : ∀ {job : Job Cid Unit}, PlainJob job →
      Prog.wpi (Prog.Pool.traced (lifeSem content faults) t) (Others t) (fun _ => True)
        (LifeOp.Decided site t) job.life (fun _ _ => True) past :=
    fun hjob => Prog.wpi_embed.mpr (decided_of_plain hjob)
  cases h with
  | upload request => exact hplain ((plain_uploadHandler request).bind fun _ => trivial)
  | request n o ho => exact hplain (plain_job ho)
  | accept n options blocks =>
      exact hplain ((plain_acceptReplica options blocks).bind fun _ => trivial)
  | acceptStaged n options name blocks =>
      exact hplain ((plain_acceptStagedReplica options name blocks).bind fun _ => trivial)
  | confirm n options registerUnknown blocks =>
      exact hplain ((plain_confirmFile options registerUnknown blocks).bind fun _ => trivial)
  | replicate n cid => exact hplain (plain_replicateFile cid)
  | repair n placement record =>
      exact hplain (plain_repairRecord placement site.selfPeerId record)
  | collect n options hcollects =>
      exact Prog.wpi_embed.mpr (Prog.wpi_bind_true
        (wpi_runGarbageCollection (collectsWith_decided hcollects) past) fun _ _ => trivial)
  | recover n => exact hplain plain_recoverInterruptedAdmissions
  | backfill n options name pins => exact hplain (plain_backfill options name pins)
  | demote n dryRun =>
      have hdecided : ∀ (o : SweepOp Cid) (past : LifePast Cid), True → True →
          LifeOp.Decided site (.other n) (.sweep o) past := by
        rintro o past - - op ⟨⟩
      exact Prog.wpi_embed.mpr (Prog.wpi_of_requests hdecided (Prog.Requests.all _))

/-- In every run each decision of a collection comes from its own scan, and from
what it stored itself. -/
theorem decided_of_run {w₀ : World Cid}
    {c : Prog.Pool.Config LifeTask (LifeOp Cid) LifeOp.Ret (LifecycleError Cid) (LifePast Cid)}
    (hrun : LifeRun content faults site w₀ c) :
    Prog.Pool.Lawful (lifeSem content faults) (fun _ => True) (LifeOp.Decided site) c.1.2 := by
  have htrans : ∀ t (past past₁ past₂ : LifePast Cid), Others t past past₁ →
      Others t past₁ past₂ → Others t past past₂ := by
    rintro t past past₁ past₂ ⟨events, heq, hall⟩ ⟨events', heq', hall'⟩
    refine ⟨events ++ events', by rw [heq', heq, List.append_assoc], fun e hmem => ?_⟩
    exact (List.mem_append.mp hmem).elim (hall e) (hall' e)
  refine (Prog.Pool.lawful htrans (fun t past => ⟨[], by simp, by simp⟩) ?_
    (fun t p hp past _ => decided_of_entry hp) (fun _ _ _ _ => trivial) trivial hrun).2
  rintro t o past r past' - - ⟨-, hpast⟩
  refine ⟨trivial, fun t' hne => ⟨_, hpast, fun e hmem hby => hne ?_⟩⟩
  rw [List.mem_singleton] at hmem
  subst hmem
  exact hby.symm

end Runs

/-! ## What the decisions can do -/

section Effects

variable {Cid : Type} [DecidableEq Cid] {content : Content Cid} {w w' : World Cid}

omit [DecidableEq Cid] in
/-- The record apart from its revision and from the note of its pin. -/
def FileRecord.unnoted (record : FileRecord Cid) : FileRecord Cid :=
  { record with pinned := true, revision := none }

/-- The file keeps its record, but for its revision and the note of its pin, and
its pin. -/
structure World.KeepsFile (w w' : World Cid) (cid : Cid) : Prop where
  record : (w'.files.get cid).map FileRecord.unnoted = (w.files.get cid).map FileRecord.unnoted
  pin : cid ∈ w.pins → cid ∈ w'.pins

theorem World.KeepsFile.of_same {cid : Cid} (hfiles : w'.files.get cid = w.files.get cid)
    (hpin : cid ∈ w.pins → cid ∈ w'.pins) : w.KeepsFile w' cid :=
  ⟨by rw [hfiles], hpin⟩

/-- Every file is kept. -/
def keepsFilesPolicy (w : World Cid) : Policy Cid where
  record cid record := record.map FileRecord.unnoted = (w.files.get cid).map FileRecord.unnoted
  pin cid := cid ∈ w.pins
  process _ := True
  stamped _ h := h

theorem holds_keepsFilesPolicy (w : World Cid) : (keepsFilesPolicy w).Holds w :=
  ⟨fun _ => rfl, fun _ h => h, trivial, fun _ => False.elim⟩

theorem keepsFile_of_safe {α : Type} {p : Store Cid α}
    (h : Safe content (keepsFilesPolicy w) p) {r : Except (LifecycleError Cid) α}
    (hrun : Prog.Runs (storeSem content anyFault) p w r w') (cid : Cid) : w.KeepsFile w' cid :=
  have hholds := h.holds (holds_keepsFilesPolicy w) hrun
  ⟨hholds.record cid, hholds.pin cid⟩

theorem keepsFile_of_guardPin {cid : Cid} {r : Except (LifecycleError Cid) Bool}
    (hrun : Prog.Runs (storeSem content anyFault) (guardPin cid) w r w') (cid' : Cid) :
    w.KeepsFile w' cid' := by
  refine keepsFile_of_safe (safe_guardPin fun current hread _ _ => ?_) hrun cid'
  have hcid : current.cid = cid := hread.2 current rfl
  have hrecord : (some current).map FileRecord.unnoted =
      (w.files.get cid).map FileRecord.unnoted := hread.1
  show some (repinnedRecord current).unnoted = (w.files.get current.cid).map FileRecord.unnoted
  rw [hcid, ← hrecord]
  rfl

/-- What changes under a release was planned. -/
theorem planned_of_releasePlanned {record : FileRecord Cid}
    {r : Except (LifecycleError Cid) (Option (FileRecord Cid))}
    (hrun : Prog.Runs (storeSem content anyFault) (releasePlanned record) w r w') {cid : Cid}
    (hchanged : ¬ (w'.files.get cid = w.files.get cid ∧ (cid ∈ w.pins → cid ∈ w'.pins))) :
    record.cid = cid ∧ IsPlanned record w := by
  have hreleases := Prog.wp_iff_runs.mp wp_releasePlanned _ _ hrun
  refine ⟨?_, ?_⟩
  · by_contra hne
    have hne : cid ≠ record.cid := fun heq => hne heq.symm
    exact hchanged ⟨hreleases.only.files cid hne, (hreleases.only.pins cid hne).mpr⟩
  · by_contra hnot
    obtain ⟨rfl, -⟩ := hreleases.idle hnot
    exact hchanged ⟨rfl, id⟩

/-- Every record stays, or another one comes in its place. -/
def occupiedPolicy (w : World Cid) : Policy Cid where
  record cid record := w.files.get cid ≠ none → record ≠ none
  pin _ := False
  process _ := True
  stamped _ _ _ := nofun

theorem occupied_of_releasePlanned {record : FileRecord Cid}
    {r : Except (LifecycleError Cid) (Option (FileRecord Cid))}
    (hrun : Prog.Runs (storeSem content anyFault) (releasePlanned record) w r w') (cid : Cid)
    (hget : w.files.get cid ≠ none) : w'.files.get cid ≠ none := by
  have hholds : (occupiedPolicy w).Holds w :=
    ⟨fun _ h => h, fun _ => False.elim, trivial, fun _ => False.elim⟩
  have hallows : ∀ record, (occupiedPolicy w).Allows record := fun _ _ => nofun
  have hsafe : Safe content (occupiedPolicy w) (releasePlanned record) :=
    safe_releasePlanned fun _ _ _ _ _ _ _ => ⟨id, hallows _, hallows _⟩
  exact (hsafe.holds hholds hrun).record cid hget

/-- What changes under a cleanup is the record it was asked to remove. -/
theorem removed_of_cleanupReleased {stored : FileRecord Cid} (hown : IsOwnRelease stored w)
    {r : Except (LifecycleError Cid) Unit}
    (hrun : Prog.Runs (storeSem content anyFault) (cleanupReleased stored) w r w') :
    w'.pins = w.pins ∧ ∀ cid, w'.files.get cid = w.files.get cid ∨
      stored.cid = cid ∧ w.files.get cid = some stored ∧ w'.files.get cid = none := by
  rcases Prog.wp_iff_runs.mp wp_cleanupReleased _ _ hrun with rfl | ⟨current, hget, hrevision, rfl⟩
  · exact ⟨rfl, fun _ => .inl rfl⟩
  obtain ⟨-, n, hn, -, hsame⟩ := hown
  obtain rfl := hsame current hget (hrevision.trans hn)
  refine ⟨rfl, fun cid => ?_⟩
  rw [World.get_remove]
  by_cases hcid : cid = current.cid
  · rw [if_pos hcid, hcid]
    exact .inr ⟨rfl, hget, rfl⟩
  · rw [if_neg hcid]
    exact .inl rfl

end Effects

/-! ## The decisions of a run -/

section Current

variable {Cid : Type} [DecidableEq Cid] {content : Content Cid} {faults : Faults Cid}

/-- The operation releases the file as its task planned, with options of its own,
from what it found: the record is the planned one, unconfirmed, and in no flight. -/
def LocalOp.AppliesPlan (site : Site Cid) (t : LifeTask) (found : RegistryScan Cid) (w : World Cid)
    (cid : Cid) (op : LocalOp Cid) : Prop :=
  ∃ record, op = .releasePlanned record ∧ record.cid = cid ∧
    (∃ options, site.collects t options ∧ record ∈ (options.plan found).released) ∧
    IsPlanned record w

/-- A record that came after the scan, and not from this collection. -/
def Adopted (t : LifeTask) (found : RegistryScan Cid) (late : List (LifeEvent Cid))
    (current : FileRecord Cid) : Prop :=
  (∀ record ∈ found.records, record.cid = current.cid → record.revision ≠ current.revision) ∧
    ∀ e ∈ late, ∀ stored, LifeEvent.Releases t stored e → stored.revision ≠ current.revision

/-- What a decision respects: a file is unpinned and its record expires only as
planned, only a record that the collection stored itself is removed, and an
adopted file keeps record and pin. -/
structure IsCurrent (site : Site Cid) (t : LifeTask) (found : RegistryScan Cid)
    (late : List (LifeEvent Cid)) (op : LocalOp Cid) (before after : World Cid) : Prop where
  unpins : ∀ cid ∈ before.pins, cid ∉ after.pins → op.AppliesPlan site t found before cid
  expires : ∀ cid record, after.files.get cid = some record →
    before.files.get cid ≠ some record → record.state = .expired →
    op.AppliesPlan site t found before cid
  removes : ∀ cid, before.files.get cid ≠ none → after.files.get cid = none →
    ∃ stored, op = .cleanupReleased stored ∧ before.files.get cid = some stored ∧
      ∃ e ∈ late, LifeEvent.Releases t stored e
  adopted : ∀ cid current, before.files.get cid = some current → Adopted t found late current →
    before.KeepsFile after cid

variable {site : Site Cid} {t : LifeTask} {found : RegistryScan Cid}
variable {late : List (LifeEvent Cid)} {before after : World Cid}

theorem isCurrent_guardPin {cid : Cid} {r : Except (LifecycleError Cid) Bool}
    (hrun : Prog.Runs (storeSem content anyFault) (guardPin cid) before r after) :
    IsCurrent site t found late (.guardPin cid) before after where
  unpins p hp hnot := absurd ((keepsFile_of_guardPin hrun p).pin hp) hnot
  expires p record hget hchanged hstate := by
    rcases (Prog.wp_iff_runs.mp (wp_guardPin cid before) _ _ hrun).steps.record p with
      hsame | ⟨-, record', hget', hstate', -⟩
    · exact absurd (hsame ▸ hget) hchanged
    · rw [hget] at hget'
      cases hget'
      rw [hstate] at hstate'
      cases hstate'
  removes p hsome hnone := by
    have hkept := (keepsFile_of_guardPin hrun p).record
    rw [hnone, Option.map_none] at hkept
    exact absurd (Option.map_eq_none_iff.mp hkept.symm) hsome
  adopted p _ _ _ := keepsFile_of_guardPin hrun p

theorem isCurrent_releasePlanned {record : FileRecord Cid}
    (hplan : ∃ options, site.collects t options ∧ record ∈ (options.plan found).released)
    {r : Except (LifecycleError Cid) (Option (FileRecord Cid))}
    (hrun : Prog.Runs (storeSem content anyFault) (releasePlanned record) before r after) :
    IsCurrent site t found late (.releasePlanned record) before after := by
  have happlies : ∀ {cid : Cid}, ¬ (after.files.get cid = before.files.get cid ∧
      (cid ∈ before.pins → cid ∈ after.pins)) →
      LocalOp.AppliesPlan site t found before cid (.releasePlanned record) := fun hchanged =>
    have hplanned := planned_of_releasePlanned hrun hchanged
    ⟨record, rfl, hplanned.1, hplan, hplanned.2⟩
  refine ⟨fun cid hp hnot => happlies fun hkept => hnot (hkept.2 hp), ?_, ?_, ?_⟩
  · exact fun cid stored hget hchanged _ => happlies fun hkept => hchanged (hkept.1 ▸ hget)
  · exact fun cid hsome hnone => absurd hnone (occupied_of_releasePlanned hrun cid hsome)
  · intro cid current hget hadopted
    by_contra hnot
    obtain ⟨hcid, current', hget', hrevision, -⟩ :=
      planned_of_releasePlanned hrun fun hkept => hnot (.of_same hkept.1 hkept.2)
    rw [hcid, hget] at hget'
    cases hget'
    obtain ⟨options, -, hreleased⟩ := hplan
    have hrecord : record ∈ found.records := (mem_released hreleased).1
    exact hadopted.1 record hrecord (hcid.trans (Registry.cid_of_get hget).symm) hrevision.symm

theorem isCurrent_cleanupReleased {stored : FileRecord Cid}
    (hreleases : ∃ e ∈ late, LifeEvent.Releases t stored e) (hown : IsOwnRelease stored before)
    {r : Except (LifecycleError Cid) Unit}
    (hrun : Prog.Runs (storeSem content anyFault) (cleanupReleased stored) before r after) :
    IsCurrent site t found late (.cleanupReleased stored) before after := by
  obtain ⟨hpins, hfiles⟩ := removed_of_cleanupReleased hown hrun
  refine ⟨fun cid hp hnot => absurd (hpins ▸ hp) hnot, ?_, ?_, ?_⟩
  · intro cid record hget hchanged _
    rcases hfiles cid with hsame | ⟨-, -, hnone⟩
    · exact absurd (hsame ▸ hget) hchanged
    · rw [hnone] at hget
      cases hget
  · intro cid hsome hnone
    rcases hfiles cid with hsame | ⟨-, hget, -⟩
    · exact absurd (hsame ▸ hnone) hsome
    · exact ⟨stored, rfl, hget, hreleases⟩
  · intro cid current hget hadopted
    rcases hfiles cid with hsame | ⟨-, hget', -⟩
    · exact .of_same hsame fun hp => hpins ▸ hp
    · rw [hget] at hget'
      cases hget'
      obtain ⟨e, hmem, he⟩ := hreleases
      exact absurd rfl (hadopted.2 e hmem _ he)

/-- In every run, every decision of a collection comes from its own scan and options
and is current when it is applied; what else a collection does leaves every file
alone. -/
theorem collector_applies_current_decisions {w₀ : World Cid} (h₀ : w₀.Starting)
    {c : Prog.Pool.Config LifeTask (LifeOp Cid) LifeOp.Ret (LifecycleError Cid) (LifePast Cid)}
    (hrun : LifeRun content faults site w₀ c) {past rest : List (LifeEvent Cid)}
    {op : LocalOp Cid} {r : Except (LifecycleError Cid) op.Ret}
    (hevent : c.1.2 = past ++ .request t (.node (.run op)) before r after :: rest) :
    (op.decides = true →
      ∃ found late, Since t past found late ∧ IsCurrent site t found late op before after) ∧
    (op = .scanRegistry ∨ op = .collectBlocks ∨ (∃ cid, op = .isProtected cid) →
      ∀ cid, before.KeepsFile after cid) := by
  obtain ⟨-, hpre, hstep⟩ := (coexistence h₀ hrun).2 _ _ _ _ _ _ _ hevent
  have hruns : Prog.Runs (storeSem content anyFault) op.body before r after := runs_anyFault hstep
  refine ⟨fun hdecides => ?_, fun hlooks cid => ?_⟩
  · have hdecided := (decided_of_run hrun _ _ _ _ _ _ _ hevent).2.1 op rfl
    cases op with
    | guardPin cid =>
        obtain ⟨found, late, hsince, -⟩ := hdecided
        exact ⟨found, late, hsince, isCurrent_guardPin hruns⟩
    | releasePlanned record =>
        obtain ⟨found, late, hsince, hplan⟩ := hdecided
        exact ⟨found, late, hsince, isCurrent_releasePlanned hplan hruns⟩
    | cleanupReleased stored =>
        obtain ⟨found, late, hsince, hreleases⟩ := hdecided
        have hown : IsOwnRelease stored before := hpre _ rfl
        exact ⟨found, late, hsince, isCurrent_cleanupReleased hreleases hown hruns⟩
    | _ => cases hdecides
  · rcases hlooks with rfl | rfl | ⟨cid', rfl⟩
    · exact keepsFile_of_safe safe_scanRegistry hruns cid
    · have hcollect : Safe content (keepsFilesPolicy before) (request .gc) :=
        safe_request fun w hw => ⟨hw.record, hw.pin, hw.process, fun _ => False.elim⟩
      exact keepsFile_of_safe hcollect hruns cid
    · exact keepsFile_of_safe (safe_isProtected cid') hruns cid

end Current

/-! ## A copy that was never committed -/

namespace ExpiredStage

open OwnedUpload (answers)

def target : ReplicaStageTarget Nat := ⟨7, "upload", 5, 9, some "peer"⟩

/-- A forced collection after the stage expired. -/
def options : GcRunOptions where
  measures :=
    { blockstoreBytes := 100, reclaimableBytes := none
      watermarks := ⟨90, 80⟩, availableBytes := none, reserveBytes := none }
  now := 100
  force := true
  dryRun := false

/-- The one collection has these options. -/
def site : Site Nat :=
  { OwnedUpload.site with collects := fun t o => t = .other 1 ∧ o = options }

def moves : List (Prog.Pool.Move LifeTask (LifeOp Nat) LifeOp.Ret (LifecycleError Nat)) :=
  [.spawn (.other 0) (Job.life (LocalOp.stageReplica target "7").job),
    .act (.other 0),
    .spawn (.other 1) (Job.life (runGarbageCollection options >>= fun _ => pure ())),
    .act (.other 1)]

def scanned : LifePast Nat := (playLife Content.flat answers World.empty moves).1

def released : LifePast Nat :=
  (playLife Content.flat answers World.empty (moves ++ [.act (.other 1)])).1

theorem lifeRun_released : LifeRun Content.flat noFault site World.empty
    (playLife Content.flat answers World.empty (moves ++ [.act (.other 1)])) := by
  refine lifeRun_playLife fun t p hmem => ?_
  simp only [moves, List.cons_append, List.nil_append, List.mem_cons, reduceCtorEq, false_or,
    List.not_mem_nil, or_false, Prog.Pool.Move.spawn.injEq] at hmem
  rcases hmem with ⟨rfl, rfl⟩ | ⟨rfl, rfl⟩
  · exact .request 0 (.stageReplica _ _) rfl
  · exact .collect 1 options ⟨rfl, rfl⟩

end ExpiredStage

open ExpiredStage in
/-- The expired stage is released while it is the one that was planned. -/
theorem collector_applies_current_decisions_expired :
    7 ∈ scanned.1.pins ∧ 7 ∉ released.1.pins ∧
      ∃ record, record.cid = 7 ∧ IsPlanned record scanned.1 := by
  have hstart : (World.empty : World Nat).Starting := ⟨rfl, rfl⟩
  have hanswer : ∃ record answer, released.2 = scanned.2 ++ .request (.other 1)
      (.node (.run (.releasePlanned record))) scanned.1 answer released.1 :: [] := ⟨_, _, rfl⟩
  obtain ⟨record, answer, hevent⟩ := hanswer
  have hpinned : 7 ∈ scanned.1.pins := by decide
  have hunpinned : 7 ∉ released.1.pins := by decide
  obtain ⟨found, late, -, hcurrent⟩ :=
    (collector_applies_current_decisions hstart lifeRun_released hevent).1 rfl
  obtain ⟨planned, -, hcid, -, hplanned⟩ := hcurrent.unpins 7 hpinned hunpinned
  exact ⟨hpinned, hunpinned, planned, hcid, hplanned⟩

end IpfsNode
