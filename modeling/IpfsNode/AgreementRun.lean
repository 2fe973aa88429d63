import IpfsNode.Ownership
import IpfsNode.PinAgreement
import IpfsNode.TaskSafety
import IpfsNode.ValidRecords

/-!
# Record and pin agree in every run

`PinAgreement` looks at one operation. Here all tasks of a node run among each
other. An upload that is withdrawn hands back what it found when it was
admitted, a collection removes only what it released itself; the history of the
run says so. One task writes the flag on the word of an earlier read: a backfill
records a pin that it saw some time ago. Record and pin agree throughout exactly
when each pin is still there when it is recorded.

In these runs no call fails, the process dies only between the operations that
hold a lock, and blocks are deleted by collections alone.
-/

namespace IpfsNode

section Handed

variable {Cid α : Type} [DecidableEq Cid]

/-! ## What tasks hand back -/

/-- The upload admitted its files and remembers these baselines. -/
def LifeEvent.Admits (id : AdmissionId) (baselines : List (UploadBaseline Cid)) :
    LifeEvent Cid → Prop
  | .request _ (.node (.run (.admitUpload options _))) _ (.ok admitted) _ =>
      options.admissionId = id ∧ admitted.baselines = baselines
  | _ => False

/-- What a task gives to the operations that undo its work comes from that work. -/
def LocalOp.Handed (past : LifePast Cid) : LocalOp Cid → Prop
  | .rollbackAdmitted baselines id => ∃ e ∈ past.2, LifeEvent.Admits id baselines e
  | .cleanupReleased record => record.pinned = false
  | _ => True

def LifeOp.Handed (o : LifeOp Cid) (past : LifePast Cid) : Prop :=
  ∀ op, o.local = some op → op.Handed past

/-- The history goes on. -/
def GoesOn (past past' : LifePast Cid) : Prop :=
  ∃ events, past'.2 = past.2 ++ events

omit [DecidableEq Cid] in
theorem GoesOn.trans {past past₁ past₂ : LifePast Cid} (h : GoesOn past past₁)
    (h' : GoesOn past₁ past₂) : GoesOn past past₂ := by
  obtain ⟨events, heq⟩ := h
  obtain ⟨events', heq'⟩ := h'
  exact ⟨events ++ events', by rw [heq', heq, List.append_assoc]⟩

variable {content : Content Cid} {faults : Faults Cid} {site : Site Cid} {t : LifeTask}
variable {past past' : LifePast Cid}

/-- The request undoes nothing. -/
def NodeOp.UndoesNothing : NodeOp Cid → Prop
  | .run (.rollbackAdmitted ..) | .run (.cleanupReleased _) => False
  | _ => True

omit [DecidableEq Cid] in
theorem handed_run {op : LocalOp Cid} (h : op.Handed past) :
    LifeOp.Handed (.node (.run op)) past := by
  rintro _ ⟨⟩
  exact h

omit [DecidableEq Cid] in
theorem handed_ask {o : NetworkOp Cid} : LifeOp.Handed (.node (.ask o)) past := by
  intro op h
  cases h

omit [DecidableEq Cid] in
theorem NodeOp.UndoesNothing.handed {o : NodeOp Cid} (h : o.UndoesNothing) :
    LifeOp.Handed (.node o) past := by
  cases o with
  | ask o => exact handed_ask
  | run op =>
      refine handed_run ?_
      cases op with
      | rollbackAdmitted => exact h.elim
      | cleanupReleased => exact h.elim
      | _ => trivial

/-- What any task may ask for at any time undoes nothing. -/
theorem NodeOp.Harmless.undoesNothing {o : NodeOp Cid} (h : o.Harmless site t)
    (w : World Cid) : o.UndoesNothing := by
  cases o with
  | ask o => trivial
  | run op =>
      have hallowed := h.2 ({ w with proc := Process.fresh, nextRevision := 0 }, [])
      cases op with
      | rollbackAdmitted =>
          obtain ⟨-, hactive, -⟩ := hallowed
          exact absurd hactive (Finset.notMem_empty _)
      | cleanupReleased =>
          obtain ⟨-, n, -, hlt, -⟩ := hallowed
          exact absurd hlt (Nat.not_lt_zero n)
      | _ => trivial

/-! ### Jobs -/

/-- A part of a job that hands back only what it found or did. -/
abbrev JobHanded (content : Content Cid) (faults : Faults Cid) (t : LifeTask) (job : Job Cid α)
    (Q : Except (LifecycleError Cid) α → LifePast Cid → Prop) : LifePast Cid → Prop :=
  Prog.wpi ((Prog.Pool.traced (lifeSem content faults) t).along LifeOp.node
    fun _ answer => answer) GoesOn (fun _ => True) (fun o => LifeOp.Handed (.node o)) job Q

theorem jobHanded_of_harmless (site : Site Cid) {job : Job Cid α}
    (h : Prog.Requests (fun o => NodeOp.Harmless site t o) job) :
    JobHanded content faults t job (fun _ _ => True) past :=
  Prog.wpi_of_requests (fun _ past _ ho => (ho.undoesNothing past.1).handed) h

theorem jobHanded_repairRecord (site : Site Cid) (placement : Placement) (selfPeerId : PeerId)
    (record : FileRecord Cid) :
    JobHanded content faults t (repairRecord placement selfPeerId record)
      (fun _ _ => True) past := by
  have hclaimed : Prog.Requests (AsksClaimed site t record)
      (repairClaimed placement selfPeerId record) := requests_repairClaimed ..
  have hasks : Prog.Requests NodeOp.UndoesNothing
      (repairClaimed placement selfPeerId record) := by
    refine hclaimed.mono fun o ho => ?_
    rcases ho with ho | rfl
    · exact ho.undoesNothing past.1
    · trivial
  have hrequests : Prog.Requests NodeOp.UndoesNothing
      (repairRecord placement selfPeerId record) := by
    refine Prog.Requests.bind (Prog.Requests.perform trivial) fun claimed => ?_
    cases claimed with
    | false => trivial
    | true =>
        refine hasks.attempt.bind fun result => ?_
        exact Prog.Requests.bind (Prog.Requests.perform trivial) fun _ => .ofExcept
  exact Prog.wpi_of_requests (fun _ _ _ ho => ho.handed) hrequests

/-- What a release stores is not pinned. -/
theorem unpinned_of_releases {w w' : World Cid} {record stored : FileRecord Cid}
    (hrun : Prog.Runs (storeSem content anyFault) (releasePlanned record) w
      (.ok (some stored)) w') : stored.pinned = false := by
  obtain ⟨-, current, n, -, -, hstored⟩ :=
    (Prog.wp_iff_runs.mp wp_releasePlanned _ _ hrun).stored stored rfl
  rcases hstored with rfl | rfl
  · rfl
  · rfl

theorem collectsWith_handed (options : GcRunOptions) :
    CollectsWith ((Prog.Pool.traced (lifeSem content faults) t).along LifeOp.node
      fun _ answer => answer) GoesOn (fun _ => True)
      (fun o => LifeOp.Handed (.node o)) options (fun _ _ => True)
      (fun stored _ => stored.pinned = false) where
  scan _ _ := handed_run trivial
  scans _ _ _ _ _ := trivial
  scanned_le _ _ _ _ _ := trivial
  scanned_step _ _ _ _ _ _ _ _ _ _ := trivial
  check _ _ _ _ _ _ := ⟨handed_run trivial, handed_run trivial⟩
  release _ _ _ _ _ _ := handed_run trivial
  released := by
    rintro record past stored past' - - ⟨answer, rfl, hstep, -⟩
    exact unpinned_of_releases (runs_anyFault hstep)
  own_le _ _ _ _ hown := hown
  own_step _ _ _ _ _ _ _ _ _ hown := hown
  collect _ _ := handed_run trivial
  cleanup _ _ _ hown := handed_run hown

/-- The upload remembers what it found: the history says what it is given. -/
def Remembered (id : AdmissionId) (baselines : List (UploadBaseline Cid))
    (past : LifePast Cid) : Prop :=
  ∃ e ∈ past.2, LifeEvent.Admits id baselines e

omit [DecidableEq Cid] in
theorem Remembered.goesOn {id : AdmissionId} {baselines : List (UploadBaseline Cid)}
    (h : Remembered id baselines past) (hle : GoesOn past past') :
    Remembered id baselines past' := by
  obtain ⟨e, hmem, hadmits⟩ := h
  obtain ⟨events, heq⟩ := hle
  exact ⟨e, heq ▸ List.mem_append_left _ hmem, hadmits⟩

theorem uploadsWith_handed {id : AdmissionId} :
    UploadsWith ((Prog.Pool.traced (lifeSem content faults) t).along LifeOp.node
      fun _ answer => answer) GoesOn (fun _ => True)
      (fun o => LifeOp.Handed (.node o)) id (fun _ => True) (Remembered id) where
  begin _ _ := handed_run trivial
  begins _ _ _ _ := trivial
  begun_le _ _ _ _ := trivial
  admission _ _ _ _ _ _ := handed_run trivial
  admits := by
    rintro options files past admitted past' rfl - - ⟨answer, rfl, -, hpast⟩
    refine ⟨.request t (.node (.run (.admitUpload options files))) past.1 (.ok admitted) past'.1,
      ?_, rfl, rfl⟩
    rw [hpast]
    exact List.mem_append_right _ (List.mem_singleton_self _)
  up_le _ _ _ hle hup := hup.goesOn hle
  ask _ _ _ := handed_ask
  asks := by
    rintro baselines o past r past' ⟨answer, rfl, -, hpast⟩ hup
    exact hup.goesOn ⟨_, hpast⟩
  rollback _ _ _ hup := handed_run hup
  finalize _ _ _ _ _ _ _ := handed_run trivial
  finalizes := by
    rintro cids baselines reports settledAt past r past' - hup ⟨answer, rfl, -, hpast⟩
    exact hup.goesOn ⟨_, hpast⟩
  clear _ _ _ _ _ _ := handed_run trivial
  finish _ _ := handed_run trivial

/-! ### All tasks together -/

theorem handed_of_entry {p : Life Cid Unit} (h : LifeEntry site t p) :
    Prog.wpi (Prog.Pool.traced (lifeSem content faults) t) GoesOn (fun _ => True)
      LifeOp.Handed p (fun _ _ => True) past := by
  cases h with
  | upload request =>
      exact Prog.wpi_embed.mpr
        (Prog.wpi_bind_true (wpi_uploadHandler uploadsWith_handed past) fun _ _ => trivial)
  | request n o ho =>
      exact Prog.wpi_embed.mpr (jobHanded_of_harmless site
        (requests_job (LocalOp.harmless_of_isRequest ho)))
  | accept n options blocks =>
      exact Prog.wpi_embed.mpr (Prog.wpi_bind_true (jobHanded_of_harmless site
        (requests_acceptReplica options blocks)) fun _ _ => trivial)
  | acceptStaged n options name blocks =>
      exact Prog.wpi_embed.mpr (Prog.wpi_bind_true (jobHanded_of_harmless site
        (requests_acceptStagedReplica options name blocks)) fun _ _ => trivial)
  | confirm n options registerUnknown blocks =>
      exact Prog.wpi_embed.mpr (Prog.wpi_bind_true (jobHanded_of_harmless site
        (requests_confirmFile options registerUnknown blocks)) fun _ _ => trivial)
  | replicate n cid =>
      exact Prog.wpi_embed.mpr (jobHanded_of_harmless site (requests_replicateFile cid))
  | repair n placement record =>
      exact Prog.wpi_embed.mpr (jobHanded_repairRecord site placement site.selfPeerId record)
  | collect n options =>
      exact Prog.wpi_embed.mpr (Prog.wpi_bind_true
        (wpi_runGarbageCollection (collectsWith_handed options) past) fun _ _ => trivial)
  | recover n =>
      exact Prog.wpi_embed.mpr (jobHanded_of_harmless site
        requests_recoverInterruptedAdmissions)
  | backfill n options name pins =>
      exact Prog.wpi_embed.mpr (jobHanded_of_harmless site
        (requests_backfill options name pins))
  | demote n dryRun =>
      refine Prog.wpi_embed.mpr (Prog.wpi_of_requests ?_ (Prog.Requests.all _))
      intro o past _ _ op hop
      cases o with
      | demoteCopy record =>
          cases hop
          trivial
      | _ => cases hop

/-- In every run each operation that undoes work is given what that work left. -/
theorem handed_of_run {w₀ : World Cid}
    {c : Prog.Pool.Config LifeTask (LifeOp Cid) LifeOp.Ret (LifecycleError Cid) (LifePast Cid)}
    (hrun : LifeRun content faults site w₀ c) :
    Prog.Pool.Lawful (lifeSem content faults) (fun _ => True) (fun _ => LifeOp.Handed) c.1.2 := by
  have htrans : ∀ (_ : LifeTask) (a b c : LifePast Cid), GoesOn a b → GoesOn b c →
      GoesOn a c := fun _ _ _ _ h h' => h.trans h'
  have hrefl : ∀ (_ : LifeTask) (past : LifePast Cid), GoesOn past past :=
    fun _ past => ⟨[], (List.append_nil past.2).symm⟩
  refine (Prog.Pool.lawful htrans hrefl ?_ (fun t p hp past _ => handed_of_entry hp)
    (fun _ _ _ _ => trivial) trivial hrun).2
  exact fun t o past r past' _ _ hstep => ⟨trivial, fun _ _ => ⟨_, hstep.2⟩⟩

end Handed

/-! ## One operation -/

section Step

variable {Cid : Type} [DecidableEq Cid] {content : Content Cid} {site : Site Cid}
variable {t : LifeTask} {h : List (LifeEvent Cid)} {w₀ w w' : World Cid}

/-- Process memory, blocks and markers do not matter. -/
theorem coherent_request {o : StoreOp Cid} (hw : w.Coherent)
    (hfiles : (o.effect content w).2.files = w.files)
    (hpins : (o.effect content w).2.pins = w.pins) :
    Prog.wp (storeSem content noFault) (request o) (fun _ => StaysCoherent w) w := by
  refine wp_noFault.mpr ?_
  rw [run_request]
  exact .of_same hw hfiles hpins

theorem coherent_beginAdmission (hw : w.Coherent) (id : AdmissionId) :
    Prog.wp (storeSem content noFault) (request (.beginAdmission id))
      (fun _ => StaysCoherent w) w := by
  refine coherent_request hw ?_ ?_
  · simp only [StoreOp.effect]
    split
    · rfl
    · rfl
  · simp only [StoreOp.effect]
    split
    · rfl
    · rfl

theorem coherent_statDag (hw : w.Coherent) (cid : Cid) :
    Prog.wp (storeSem content noFault) (statDag cid) (fun _ => StaysCoherent w) w := by
  refine coherent_request hw ?_ ?_
  · simp only [StoreOp.effect]
    split
    · rfl
    · rfl
  · simp only [StoreOp.effect]
    split
    · rfl
    · rfl

theorem coherent_claimRepairRecord (hw : w.Coherent) (selected : FileRecord Cid) :
    Prog.wp (storeSem content noFault) (claimRepairRecord selected)
      (fun _ => StaysCoherent w) w := by
  refine Prog.wp_iff_runs.mpr fun r w' hrun => ?_
  rcases Prog.wp_iff_runs.mp wp_claimRepairRecord r w' (runs_anyFault hrun) with
    ⟨-, rfl⟩ | ⟨-, -, -, rfl⟩
  · exact .refl hw
  · exact .of_same hw rfl rfl

/-- What the collection removes is what it released itself. -/
theorem unpinned_of_ownRelease {record : FileRecord Cid} (hown : IsOwnRelease record w)
    (hunpinned : record.pinned = false) {current : FileRecord Cid}
    (hget : w.files.get record.cid = some current)
    (hrevision : current.revision = record.revision) : current.pinned = false := by
  obtain ⟨-, n, hn, -, hsame⟩ := hown
  rw [hsame current hget (hrevision.trans hn)]
  exact hunpinned

/-- The record is written because its pin was seen. -/
def LocalOp.Backfills (w : World Cid) : LocalOp Cid → Prop
  | .createIfAbsent record => w.files.get record.cid = none → record.cid ∈ w.pins
  | _ => True

/-- Each operation keeps records and pins in agreement; withdrawing an upload is
another matter. -/
theorem coherent_body {op : LocalOp Cid} (hw : w.Coherent)
    (hpre : op.Allowed site t (w, h)) (hhanded : op.Handed (w, h))
    (hback : op.Backfills w) (hundo : ∀ baselines id, op ≠ .rollbackAdmitted baselines id) :
    Prog.wp (storeSem content noFault) op.body (fun _ => StaysCoherent w) w := by
  cases op with
  | registerPinnedFile options => exact coherent_registerPinnedFile ordinary_noFault hw options
  | confirmStoredFile options registerUnknown =>
      exact coherent_confirmStoredFile ordinary_noFault hw options registerUnknown
  | releaseStoredFile cid => exact coherent_releaseStoredFile ordinary_noFault hw cid
  | stageReplica options name => exact coherent_stageReplica ordinary_noFault hw
  | commitReplica options => exact coherent_commitReplica hw options
  | abortReplica options => exact coherent_abortReplica hw options
  | beginAdmission id => exact coherent_beginAdmission hw id
  | endAdmission id => exact coherent_request hw rfl rfl
  | admitUpload options files => exact coherent_admitUpload hw options files
  | rollbackAdmitted baselines id => exact absurd rfl (hundo baselines id)
  | finalizeAdmitted cids baselines reports id settledAt =>
      exact coherent_finalizeAdmitted hw cids baselines reports id settledAt
  | clearSettledAdmissions reports id cids =>
      exact coherent_clearSettledAdmissions hw reports id cids
  | scanRegistry => exact wp_noFault.mpr (.refl hw)
  | isProtected cid => exact coherent_request hw rfl rfl
  | guardPin cid => exact coherent_guardPin hw cid
  | releasePlanned record => exact coherent_releasePlanned hw record
  | collectBlocks => exact coherent_request hw rfl rfl
  | cleanupReleased record =>
      exact coherent_cleanupReleased hw fun current hget hrevision =>
        unpinned_of_ownRelease hpre hhanded hget hrevision
  | recoverInterruptedAdmission cid => exact coherent_recoverInterruptedAdmission hw cid
  | claimRepairRecord selected => exact coherent_claimRepairRecord hw selected
  | releaseRepairRecord cid => exact coherent_request hw rfl rfl
  | setReplicas cid replicas => exact coherent_setReplicas hw cid replicas
  | clearSettledAdmission record => exact coherent_clearSettledAdmission hw record
  | rescueOrphanedFile record => exact coherent_rescueOrphanedFile hw record
  | demoteCopy record => exact coherent_demoteCopy hw record
  | getRecord cid => exact coherent_request hw rfl rfl
  | hasPinIntent cid => exact coherent_request hw rfl rfl
  | clearPinIntent cid => exact coherent_request hw rfl rfl
  | statDag cid => exact coherent_statDag hw cid
  | createIfAbsent record =>
      obtain ⟨options, cid, name, stats, interrupted, rfl⟩ := hpre
      exact coherent_createIfAbsent hw rfl hback
  | importBlocks blocks => exact coherent_request hw rfl rfl

/-- An upload that is withdrawn puts back what it found. -/
theorem staysCoherent_rollback (hstay : StaysCoherent w₀ w) (hinv : LifeInvariant (w, h))
    {baselines : List (UploadBaseline Cid)} {id : AdmissionId}
    (hid : id ∈ w.proc.activeAdmissions) {found : World Cid} (hfound : StaysCoherent w₀ found)
    (hremembers : Remembers baselines found) :
    Prog.wp (storeSem content noFault) (rollbackAdmitted baselines id)
      (fun _ => StaysCoherent w₀) w := by
  have hagreed : ∀ baseline ∈ baselines, baseline.Agreed := fun baseline hmem =>
    UploadBaseline.agreed_of_remembers hfound.coherent hremembers hmem
  have htaken : ∀ cid, w.token cid = some id → cid ∈ w.pins := by
    intro cid htoken
    obtain ⟨record, hget, hrecord⟩ := Option.bind_eq_some_iff.mp htoken
    have hsound := hinv.sound.record cid record hget
    have hflight : isAdmissionInFlight w.proc record = true := by
      rw [isAdmissionInFlight, hrecord, isActiveAdmission_some.mpr hid, Bool.or_true]
    exact hstay.coherent.claimsPin cid record hget (hsound.held.trans (hsound.flight hflight).1)
  refine Prog.wp_mono (fun _ w' hback => ⟨hback.1, fun cid hcid => ?_⟩)
    (coherent_rollbackAdmitted hstay.coherent hremembers.nodup hagreed htaken)
  rcases hback.2 cid hcid with hbefore | ⟨baseline, hmem, rfl, hnone, hpin, -⟩
  · exact hstay.unrecorded cid hbefore
  · refine hfound.unrecorded baseline.cid ⟨?_, ?_⟩
    · rw [← hremembers.previous baseline hmem, hnone]
    · rw [hremembers.createdPin baseline hmem, decide_eq_false_iff_not, not_not] at hpin
      exact hpin

end Step

/-! ## Whole runs -/

section Runs

variable {Cid : Type} [DecidableEq Cid] {content : Content Cid} {site : Site Cid}
variable {t : LifeTask} {w₀ : World Cid}

/-- A backfill records a pin while the file is pinned. -/
def LifeEvent.Covered : LifeEvent Cid → Prop
  | .request _ (.node (.run (.createIfAbsent record))) before (.ok (some _)) _ =>
      record.cid ∈ before.pins
  | _ => True

theorem run_createIfAbsent (content : Content Cid) {w : World Cid} {record : FileRecord Cid}
    (hget : w.files.get record.cid = none) (hvalid : isFileRecord record = true) :
    Prog.run (serve content) (createIfAbsent record) w =
      (.ok (some (record.stamped w.nextRevision)), w.put record hvalid) := by
  unfold createIfAbsent
  rw [Prog.run_bind_ok run_get, hget]
  exact Prog.run_bind_ok (run_save hvalid)

/-- What a node does is covered when the backfills in it are. -/
theorem backfills_of_covered {o : LifeOp Cid} {before after : World Cid}
    {r : Except (LifecycleError Cid) o.Ret} {h : List (LifeEvent Cid)}
    (hpre : o.Allowed site t (before, h)) (hstep : lifeSem content noFault o before r after)
    (hcovered : LifeEvent.Covered (.request t o before r after)) {op : LocalOp Cid}
    (hop : o.local = some op) : op.Backfills before := by
  have hallowed := hpre op hop
  cases op with
  | createIfAbsent record =>
      intro hnone
      obtain ⟨options, cid, name, stats, interrupted, rfl⟩ := hallowed
      have hrun := run_createIfAbsent content hnone isFileRecord_backfilledRecord
      cases o with
      | sweep o => cases o <;> cases hop
      | node o =>
          cases o with
          | ask o => cases hop
          | run op =>
              cases hop
              have hanswer := (runs_noFault.mp hstep).trans hrun
              cases hanswer
              exact hcovered
  | _ => trivial

/-- One event of a covered run. -/
theorem staysCoherent_step {o : LifeOp Cid} {before after : World Cid}
    {r : Except (LifecycleError Cid) o.Ret} {h : List (LifeEvent Cid)}
    (hstay : StaysCoherent w₀ before) (hinv : LifeInvariant (before, h))
    (hpre : o.Allowed site t (before, h)) (hhanded : o.Handed (before, h))
    (hfound : ∀ baselines id, o.local = some (.rollbackAdmitted baselines id) →
      ∃ found, StaysCoherent w₀ found ∧ Remembers baselines found)
    (hstep : lifeSem content noFault o before r after)
    (hcovered : LifeEvent.Covered (.request t o before r after)) : StaysCoherent w₀ after := by
  have hrun : ∀ (op : LocalOp Cid) (r' : Except (LifecycleError Cid) op.Ret),
      o.local = some op → Prog.Runs (storeSem content noFault) op.body before r' after →
      StaysCoherent w₀ after := by
    intro op r' hop hruns
    by_cases hundo : ∀ baselines id, op ≠ .rollbackAdmitted baselines id
    · have hback := backfills_of_covered hpre hstep hcovered hop
      have hbody : Prog.wp (storeSem content noFault) op.body (fun _ => StaysCoherent before)
          before := coherent_body hstay.coherent (hpre op hop) (hhanded op hop) hback hundo
      exact hstay.trans (Prog.wp_iff_runs.mp hbody r' after hruns)
    · push Not at hundo
      obtain ⟨baselines, id, rfl⟩ := hundo
      obtain ⟨found, hstays, hremembers⟩ := hfound baselines id hop
      obtain ⟨-, hid, -⟩ := hpre _ hop
      exact Prog.wp_iff_runs.mp (staysCoherent_rollback hstay hinv hid hstays hremembers)
        r' after hruns
  cases o with
  | node o =>
      cases o with
      | run op => exact hrun op r rfl hstep
      | ask o =>
          obtain rfl : after = before := hstep
          exact hstay
  | sweep o =>
      cases o with
      | demoteCopy record => exact hrun (.demoteCopy record) r rfl hstep
      | nextSweepBatch | answerOrder =>
          obtain rfl : after = before := hstep.1
          exact hstay
      | _ =>
          obtain rfl : after = before := hstep
          exact hstay

/-- What a withdrawn upload puts back is what it found. -/
theorem remembers_of_admits {h : List (LifeEvent Cid)} {e : LifeEvent Cid} {id : AdmissionId}
    {baselines : List (UploadBaseline Cid)}
    (hhanded : Prog.Pool.Lawful (lifeSem content noFault) (fun _ => True)
      (fun _ => LifeOp.Handed) h) (hmem : e ∈ h) (hadmits : LifeEvent.Admits id baselines e) :
    Remembers baselines e.before := by
  obtain ⟨past, rest, hsplit⟩ := List.append_of_mem hmem
  unfold LifeEvent.Admits at hadmits
  split at hadmits
  · obtain ⟨-, rfl⟩ := hadmits
    rename_i t options files before admitted after
    obtain ⟨-, -, hstep⟩ := hhanded past rest _ _ _ _ _ hsplit
    have hin : AdmittedIn options before files admitted after :=
      Prog.wp_iff_runs.mp wp_admitUpload _ _ hstep
    exact hin.remembers
  · exact hadmits.elim

/-- A backfill that records a lost pin breaks the agreement. -/
theorem covered_of_coherent {o : LifeOp Cid} {before after : World Cid}
    {r : Except (LifecycleError Cid) o.Ret} {h : List (LifeEvent Cid)}
    (hpre : o.Allowed site t (before, h)) (hstep : lifeSem content noFault o before r after)
    (hcoherent : after.Coherent) : LifeEvent.Covered (.request t o before r after) := by
  unfold LifeEvent.Covered
  split
  · rename_i heq
    cases heq
    rename_i record stored
    obtain ⟨options, cid, name, stats, interrupted, rfl⟩ := hpre _ rfl
    set record := backfilledRecord options cid name stats interrupted with hrecord
    cases hget : before.files.get record.cid with
    | some existing =>
        have hrun : Prog.run (serve content) (createIfAbsent record) before =
            (.ok none, before) := by
          unfold createIfAbsent
          rw [Prog.run_bind_ok run_get, hget]
          rfl
        cases (runs_noFault.mp hstep).trans hrun
    | none =>
        have hvalid : isFileRecord record = true := isFileRecord_backfilledRecord
        cases (runs_noFault.mp hstep).trans (run_createIfAbsent content hget hvalid)
        have hstored : (before.put record hvalid).files.get record.cid =
            some (record.stamped before.nextRevision) := World.get_put.trans (if_pos rfl)
        exact hcoherent.claimsPin record.cid _ hstored rfl
  · trivial

/-- In a covered run records and pins agree at every moment. -/
theorem staysCoherent_of_covered (h₀ : w₀.Starting)
    {c : Prog.Pool.Config LifeTask (LifeOp Cid) LifeOp.Ret (LifecycleError Cid) (LifePast Cid)}
    (hrun : LifeRun content noFault site w₀ c) (hcovered : ∀ e ∈ c.1.2, LifeEvent.Covered e) :
    (∀ e ∈ c.1.2, StaysCoherent w₀ e.before ∧ StaysCoherent w₀ e.after) ∧
      StaysCoherent w₀ c.1.1 := by
  have hlawful := (coexistence h₀ hrun).2
  have hhanded := handed_of_run hrun
  have hcoherent : w₀.Coherent := fun cid record hget => by
    rw [h₀.files] at hget
    cases hget
  refine (Prog.Pool.leads_of_reach hrun).invariant_past (StaysCoherent w₀) (.refl hcoherent) ?_
  intro past e rest hsplit hpast he hbefore
  cases e with
  | reset before after =>
      obtain rfl : after = { before with proc := Process.fresh } := he
      exact hbefore.trans (.of_same hbefore.coherent rfl rfl)
  | request t o before r after =>
      obtain ⟨hinv, hpre, hstep⟩ := hlawful past rest t o before r after hsplit
      obtain ⟨-, hgiven, -⟩ := hhanded past rest t o before r after hsplit
      refine staysCoherent_step hbefore hinv hpre hgiven ?_ hstep (hcovered _ ?_)
      · intro baselines id hop
        obtain ⟨e, hmem, hadmits⟩ := hgiven _ hop
        refine ⟨e.before, hpast e hmem, remembers_of_admits hhanded ?_ hadmits⟩
        rw [hsplit]
        exact List.mem_append_left _ hmem
      · rw [hsplit]
        exact List.mem_append_right _ List.mem_cons_self

/-- Records and pins agree throughout a run without failing calls exactly when
every backfill records a pin that is there; then the only pins without a record
are those from before. -/
theorem record_and_pin_agree (h₀ : w₀.Starting)
    {c : Prog.Pool.Config LifeTask (LifeOp Cid) LifeOp.Ret (LifecycleError Cid) (LifePast Cid)}
    (hrun : LifeRun content noFault site w₀ c) :
    ((∀ e ∈ c.1.2, LifeEvent.Covered e) ↔ ∀ e ∈ c.1.2, e.after.Coherent) ∧
      ((∀ e ∈ c.1.2, LifeEvent.Covered e) → c.1.1.Coherent ∧
        ∀ cid, c.1.1.Unrecorded cid → cid ∈ w₀.pins) := by
  refine ⟨⟨fun hcovered e hmem => ?_, fun hagree e hmem => ?_⟩, fun hcovered => ?_⟩
  · exact ((staysCoherent_of_covered h₀ hrun hcovered).1 e hmem).2.coherent
  · cases e with
    | reset before after => trivial
    | request t o before r after =>
        obtain ⟨past, rest, hsplit⟩ := List.append_of_mem hmem
        obtain ⟨-, hpre, hstep⟩ := (coexistence h₀ hrun).2 past rest t o before r after hsplit
        exact covered_of_coherent hpre hstep (hagree _ hmem)
  · have hstays := (staysCoherent_of_covered h₀ hrun hcovered).2
    exact ⟨hstays.coherent, fun cid hcid => (hstays.unrecorded cid hcid).2⟩

end Runs

/-! ## A pin that was dropped meanwhile -/

namespace LostPin

open OwnedUpload (site answers)

/-- A node with a pin from before the registry. -/
def legacy : World Nat := { World.empty with pins := {7}, blocks := {7} }

/-- A forced collection. -/
def options : GcRunOptions where
  measures :=
    { blockstoreBytes := 100, reclaimableBytes := none
      watermarks := ⟨90, 80⟩, availableBytes := none, reserveBytes := none }
  now := 100
  force := true
  dryRun := false

/-- The backfill has seen the pin. Then the file is registered and released, and
a collection begins. -/
def moves : List (Prog.Pool.Move LifeTask (LifeOp Nat) LifeOp.Ret (LifecycleError Nat)) :=
  [.spawn (.other 0) (Job.life (backfillRegistryFromPins ⟨true, 5, 0⟩ (fun _ => "7") [7])),
    .act (.other 0), .act (.other 0), .act (.other 0),
    .spawn (.other 1) (Job.life (LocalOp.registerPinnedFile ⟨7, "file", 5, 0⟩).job),
    .act (.other 1),
    .spawn (.other 2) (Job.life (LocalOp.releaseStoredFile 7).job),
    .act (.other 2),
    .spawn (.other 3) (Job.life (runGarbageCollection options >>= fun _ => pure ()))]

def afterwards (ts : List LifeTask) : LifePast Nat :=
  (playLife Content.flat answers legacy (moves ++ ts.map .act)).1

theorem entries {t : LifeTask} {p : Life Nat Unit} (hmem : .spawn t p ∈ moves) :
    LifeEntry site t p := by
  simp only [moves, List.mem_cons, reduceCtorEq, false_or, List.not_mem_nil, or_false,
    Prog.Pool.Move.spawn.injEq] at hmem
  rcases hmem with ⟨rfl, rfl⟩ | ⟨rfl, rfl⟩ | ⟨rfl, rfl⟩ | ⟨rfl, rfl⟩
  · exact .backfill 0 _ _ _
  · exact .request 1 (.registerPinnedFile _) rfl
  · exact .request 2 (.releaseStoredFile 7) rfl
  · exact .collect 3 options trivial

theorem lifeRun_afterwards (ts : List LifeTask) : LifeRun Content.flat noFault site legacy
    (playLife Content.flat answers legacy (moves ++ ts.map .act)) := by
  refine lifeRun_playLife fun t p hmem => entries ?_
  rcases List.mem_append.mp hmem with hmem | hmem
  · exact hmem
  · obtain ⟨_, -, heq⟩ := List.mem_map.mp hmem
    cases heq

/-- The collection removes the record. -/
def collected : List LifeTask := [.other 3, .other 3, .other 3, .other 3]

def recorded : List LifeTask := collected ++ [.other 0]

end LostPin

open LostPin in
/-- The backfill records the pin that is gone. -/
theorem record_and_pin_agree_lost :
    ∃ e ∈ (afterwards recorded).2, ¬ e.after.Coherent := by
  have hstart : legacy.Starting := ⟨rfl, rfl⟩
  have hevents : ∃ record stored, (afterwards recorded).2 =
      (afterwards collected).2 ++ [.request (.other 0) (.node (.run (.createIfAbsent record)))
        (afterwards collected).1 (.ok (some stored)) (afterwards recorded).1] ∧
      record.cid ∉ (afterwards collected).1.pins := ⟨_, _, rfl, by decide⟩
  obtain ⟨record, stored, hevents, hlost⟩ := hevents
  by_contra hnone
  push Not at hnone
  have hcovered := (record_and_pin_agree hstart (lifeRun_afterwards recorded)).1.mpr hnone
  refine hlost (hcovered (.request (.other 0) (.node (.run (.createIfAbsent record)))
    (afterwards collected).1 (.ok (some stored)) (afterwards recorded).1) ?_)
  show _ ∈ (afterwards recorded).2
  rw [hevents]
  exact List.mem_append_right _ (List.mem_singleton_self _)

/-! ## Whatever is pinned is complete -/

section Complete

variable {Cid α : Type} [DecidableEq Cid] {content : Content Cid} {faults : Faults Cid}
variable {site : Site Cid} {w₀ w w' : World Cid}

/-- All blocks of every pinned file are stored. -/
def World.PinsComplete (content : Content Cid) (w : World Cid) : Prop :=
  ∀ cid ∈ w.pins, content.dag.Complete w.blocks cid

omit [DecidableEq Cid] in
theorem World.PinsComplete.of_subset (h : w.PinsComplete content) (hpins : w'.pins ⊆ w.pins)
    (hblocks : w.blocks ⊆ w'.blocks) : w'.PinsComplete content :=
  fun cid hcid => (h cid (hpins hcid)).trans hblocks

/-- A pin brings its blocks, and a collection leaves what is protected. -/
theorem StoreOp.pinsComplete_effect (o : StoreOp Cid) (h : w.PinsComplete content) :
    (o.effect content w).2.PinsComplete content := by
  cases o with
  | pinsAdd cid =>
      simp only [effect]
      split
      · exact h
      · intro pinned hpinned
        rcases Finset.mem_insert.mp hpinned with rfl | hpinned
        · exact Finset.subset_union_right
        · exact (h pinned hpinned).trans Finset.subset_union_left
  | pinsRm cid =>
      simp only [effect]
      split
      · exact h.of_subset (Finset.erase_subset _ _) (Finset.Subset.refl _)
      · exact h
  | gc =>
      intro cid hcid
      have hcollected : content.dag.blocks cid ⊆ content.dag.collect w.pins w.blocks :=
        Dag.blocks_subset_collect (Dag.protects_of_mem hcid) (h cid hcid)
      exact hcollected.trans Finset.subset_union_left
  | importBlocks blocks => exact h.of_subset (Finset.Subset.refl _) Finset.subset_union_left
  | pinsGet | statDag | beginRepair | beginAdmission =>
      simp only [effect]
      split
      · exact h
      · exact h
  | _ => exact h

/-- Whatever code runs and whatever fails in it, pinned files stay complete. -/
theorem runs_pinsComplete {p : Store Cid α} {r : Except (LifecycleError Cid) α}
    (hruns : Prog.Runs (storeSem content faults) p w r w') (h : w.PinsComplete content) :
    w'.PinsComplete content := by
  induction hruns with
  | ret => exact h
  | fail => exact h
  | @act q k w r w' res w'' hstep _ ih =>
      refine ih ?_
      cases hstep with
      | served => exact q.op.pinsComplete_effect h
      | failed => exact h
      | landed => exact q.op.pinsComplete_effect h

theorem pinsComplete_of_run (hpins : w₀.PinsComplete content)
    {c : Prog.Pool.Config LifeTask (LifeOp Cid) LifeOp.Ret (LifecycleError Cid) (LifePast Cid)}
    (hrun : LifeRun content faults site w₀ c) : c.1.1.PinsComplete content := by
  refine (Prog.Pool.leads_of_reach hrun).invariant (World.PinsComplete content) hpins ?_
  intro e _ he h
  cases e with
  | reset before after =>
      obtain rfl : after = { before with proc := Process.fresh } := he
      exact h
  | request t o before r after =>
      rcases lifeSem_cases he with ⟨op, r', -, hruns⟩ | ⟨-, rfl⟩
      · exact runs_pinsComplete hruns h
      · exact h

/-- In a covered run every file that the registry calls pinned, or permanent and
held, can be read to its last block, whatever was collected. -/
theorem recorded_files_complete (h₀ : w₀.Starting) (hpins : w₀.PinsComplete content)
    {c : Prog.Pool.Config LifeTask (LifeOp Cid) LifeOp.Ret (LifecycleError Cid) (LifePast Cid)}
    (hrun : LifeRun content noFault site w₀ c) (hcovered : ∀ e ∈ c.1.2, LifeEvent.Covered e)
    {cid : Cid} {record : FileRecord Cid} (hget : c.1.1.files.get cid = some record)
    (hrecord : record.pinned = true ∨ (record.state = .confirmed ∧ record.heldLocally = true)) :
    content.dag.Complete c.1.1.blocks cid := by
  have hagrees := (staysCoherent_of_covered h₀ hrun hcovered).2.coherent cid record hget
  have hpinned : record.pinned = true := by
    rcases hrecord with hpinned | ⟨hstate, hheld⟩
    · exact hpinned
    · exact hagrees.held hstate hheld
  have hpin := hagrees.pin.mp hpinned
  rw [Registry.cid_of_get hget] at hpin
  exact pinsComplete_of_run hpins hrun cid hpin

end Complete

namespace KeptPin

open LostPin (legacy options)
open OwnedUpload (site answers)

/-- The pin is recorded, other blocks arrive, and a collection runs to its end. -/
def moves : List (Prog.Pool.Move LifeTask (LifeOp Nat) LifeOp.Ret (LifecycleError Nat)) :=
  [.spawn (.other 0) (Job.life (backfillRegistryFromPins ⟨true, 5, 0⟩ (fun _ => "7") [7])),
    .act (.other 0), .act (.other 0), .act (.other 0), .act (.other 0), .act (.other 0),
    .spawn (.other 1) (Job.life (LocalOp.importBlocks {8}).job),
    .act (.other 1),
    .spawn (.other 2) (Job.life (runGarbageCollection options >>= fun _ => pure ())),
    .act (.other 2), .act (.other 2), .act (.other 2), .act (.other 2)]

def kept : LifePast Nat := (playLife Content.flat answers legacy moves).1

theorem lifeRun_kept :
    LifeRun Content.flat noFault site legacy (playLife Content.flat answers legacy moves) := by
  refine lifeRun_playLife fun t p hmem => ?_
  simp only [moves, List.mem_cons, reduceCtorEq, false_or, List.not_mem_nil, or_false,
    Prog.Pool.Move.spawn.injEq] at hmem
  rcases hmem with ⟨rfl, rfl⟩ | ⟨rfl, rfl⟩ | ⟨rfl, rfl⟩
  · exact .backfill 0 _ _ _
  · exact .request 1 (.importBlocks _) rfl
  · exact .collect 2 options trivial

theorem covered_kept : ∀ e ∈ kept.2, LifeEvent.Covered e := by
  have hevents : ∃ first second third record stored before after rest,
      kept.2 = first :: second :: third :: .request (.other 0)
        (.node (.run (.createIfAbsent record))) before (.ok (some stored)) after :: rest ∧
      LifeEvent.Covered first ∧ LifeEvent.Covered second ∧ LifeEvent.Covered third ∧
      record.cid ∈ before.pins ∧ ∀ e ∈ rest, LifeEvent.Covered e := by
    refine ⟨_, _, _, _, _, _, _, [_, _, _, _, _], rfl, trivial, trivial, trivial, by decide, ?_⟩
    simp only [List.forall_mem_cons]
    exact ⟨trivial, trivial, trivial, trivial, trivial, fun _ h => absurd h List.not_mem_nil⟩
  obtain ⟨first, second, third, record, stored, before, after, rest, hevents, hfirst, hsecond,
    hthird, hpin, hrest⟩ := hevents
  rw [hevents]
  simp only [List.forall_mem_cons]
  exact ⟨hfirst, hsecond, hthird, hpin, hrest⟩

end KeptPin

open KeptPin in
/-- The collection took the other block and left the file. -/
theorem recorded_files_complete_kept :
    8 ∉ kept.1.blocks ∧ Content.flat.dag.Complete kept.1.blocks 7 := by
  have hstart : LostPin.legacy.Starting := ⟨rfl, rfl⟩
  have hpins : LostPin.legacy.PinsComplete Content.flat := fun cid hcid =>
    Finset.singleton_subset_iff.mpr hcid
  have hrecord : ∃ record, kept.1.files.get 7 = some record ∧ record.pinned = true :=
    ⟨_, rfl, rfl⟩
  obtain ⟨record, hget, hpinned⟩ := hrecord
  exact ⟨by decide,
    recorded_files_complete hstart hpins lifeRun_kept covered_kept hget (.inl hpinned)⟩

end IpfsNode
