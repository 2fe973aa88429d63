import IpfsNode.Admission
import IpfsNode.UploadRoute

/-!
# An upload is one local transaction

The handler run alone, with the network answering anything and any of its own
steps failing but those that compensate. `upload_transactional` says that it
ends with all files as they were before or with all of them registered, pinned
and held, and that nothing is rolled back once a record of the request has been
stored as settled.

A record is settled by the last loop of `finalizeAdmitted` only. Up to there
every state the run passes through keeps `quietPolicy`, and from there on every
one keeps `keptPolicy` while no compensating request is made.
-/

namespace IpfsNode

section Transaction

variable {Cid : Type}

/-- The requests of a run to datastore, pinset and process memory. -/
abbrev RequestLog (Cid : Type) :=
  List (Prog.Pool.Event Unit (Request Cid) Request.Ret (LifecycleError Cid) (World Cid))

/-- The request undoes earlier ones. -/
def IsRollback :
    Prog.Pool.Event Unit (Request Cid) Request.Ret (LifecycleError Cid) (World Cid) → Prop
  | .request _ q _ _ _ => q.compensating = true
  | .reset _ _ => False

variable [DecidableEq Cid]

namespace UploadRequest

def cids (request : UploadRequest Cid) : List Cid := request.files.map (·.cid)

/-- Every file of the request is registered, pinned and held. -/
def Registered (request : UploadRequest Cid) (w : World Cid) : Prop :=
  ∀ cid ∈ request.cids, cid ∈ w.pins ∧ ∃ record, w.files.get cid = some record
    ∧ record.pinned = true ∧ record.heldLocally = true

/-- Some record of the request is stored as settled. -/
def Settled (request : UploadRequest Cid) (w : World Cid) : Prop :=
  ∃ cid ∈ request.cids, ∃ record, w.files.get cid = some record
    ∧ record.admissionId = some request.admissionId ∧ record.admissionSettledAt.isSome = true

end UploadRequest

/-! ## Two policies -/

/-- No record of the request is settled. -/
def quietPolicy (admissionId : AdmissionId) : Policy Cid where
  record := fun _ record => ∀ r, record = some r → r.admissionId = some admissionId →
    r.admissionSettledAt = none
  pin := fun _ => False
  process := fun _ => True
  stamped := by
    rintro _ r n h _ ⟨⟩
    exact h r rfl

/-- The given files are registered, pinned and held. -/
def keptPolicy (cids : List Cid) : Policy Cid where
  record := fun cid record => cid ∈ cids →
    ∃ r, record = some r ∧ r.pinned = true ∧ r.heldLocally = true
  pin := fun cid => cid ∈ cids
  process := fun _ => True
  stamped := by
    intro cid r n h hmem
    obtain ⟨_, ⟨⟩, hkept⟩ := h hmem
    exact ⟨_, rfl, hkept⟩

variable {content : Content Cid} {request : UploadRequest Cid} {w w' : World Cid}
variable {log log' : RequestLog Cid}

theorem not_settled_of_quiet (h : (quietPolicy request.admissionId).Holds w) :
    ¬ request.Settled w := by
  rintro ⟨cid, -, record, hget, htoken, hsettled⟩
  rw [h.record cid record hget htoken] at hsettled
  cases hsettled

theorem registered_of_kept (h : (keptPolicy request.cids).Holds w) : request.Registered w :=
  fun cid hmem => ⟨h.pin cid hmem, h.record cid hmem⟩

theorem UploadRequest.Registered.kept (h : request.Registered w) :
    (keptPolicy request.cids).Holds w :=
  ⟨fun cid hmem => (h cid hmem).2, fun cid hmem => (h cid hmem).1, trivial, fun _ => False.elim⟩

/-- Undoing is always quiet: no record from before the request has its token. -/
theorem quiet_mayUndo {admissionId : AdmissionId} {baselines : List (UploadBaseline Cid)}
    (hremembers : Remembers baselines w) (hw : (quietPolicy admissionId).Holds w) :
    ∀ baseline ∈ baselines, (quietPolicy admissionId).Undoes baseline := by
  intro baseline hmem
  refine ⟨?_, fun _ _ => id⟩
  rw [hremembers.previous baseline hmem]
  exact hw.reads baseline.cid

/-! ## Logs -/

/-- Nothing is settled so far. -/
structure QuietLog (admissionId : AdmissionId) (s : World Cid × RequestLog Cid) : Prop where
  now : (quietPolicy admissionId).Holds s.1
  past : ∀ e ∈ s.2, (quietPolicy admissionId).Holds e.after

/-- A quiet past, and then steps that keep the files and undo nothing. -/
def Irrevocable (request : UploadRequest Cid) (log : RequestLog Cid) : Prop :=
  ∃ quiet kept, log = quiet ++ kept ∧ (∀ e ∈ quiet, ¬ request.Settled e.after) ∧
    ∀ e ∈ kept, ¬ IsRollback e ∧ request.Registered e.after

theorem QuietLog.irrevocable {s : World Cid × RequestLog Cid}
    (h : QuietLog request.admissionId s) : Irrevocable request s.2 :=
  ⟨s.2, [], (List.append_nil _).symm, fun e he => not_settled_of_quiet (h.past e he), by simp⟩

/-- What is settled stays. -/
theorem Irrevocable.settled {before after : RequestLog Cid}
    {e : Prog.Pool.Event Unit (Request Cid) Request.Ret (LifecycleError Cid) (World Cid)}
    (h : Irrevocable request (before ++ e :: after)) (he : request.Settled e.after) :
    request.Registered e.after ∧ ∀ e' ∈ after, ¬ IsRollback e' ∧ request.Registered e'.after := by
  obtain ⟨quiet, kept, heq, hquiet, hkept⟩ := h
  rcases List.append_eq_append_iff.mp heq with ⟨mid, hq, hmid⟩ | ⟨mid, hb, hk⟩
  · cases mid with
    | nil =>
        have hk : kept = e :: after := by simpa using hmid.symm
        rw [hk, List.forall_mem_cons] at hkept
        exact ⟨hkept.1.2, hkept.2⟩
    | cons first mid =>
        obtain ⟨rfl, -⟩ := List.cons.inj hmid
        exact absurd he (hquiet e (by rw [hq]; simp))
  · have hall : ∀ e' ∈ e :: after, ¬ IsRollback e' ∧ request.Registered e'.after :=
      fun e' hmem => hkept e' (by rw [hk]; exact List.mem_append_right _ hmem)
    rw [List.forall_mem_cons] at hall
    exact ⟨hall.1.2, hall.2⟩

/-! ## One section -/

section Sections

variable {α : Type} {p : Store Cid α} {s : World Cid × RequestLog Cid}
variable {faults : Faults Cid}

/-- A section before the decision. -/
theorem wp_quiet {admissionId : AdmissionId}
    {Q : Except (LifecycleError Cid) α → World Cid → Prop}
    (hwp : Prog.wp (storeSem content faults) p Q s.1)
    (hsafe : Safe content (quietPolicy admissionId) p) (hs : QuietLog admissionId s) :
    Prog.wp (Prog.Pool.traced (storeSem content faults) ()) p
      (fun r s' => Q r s'.1 ∧ QuietLog admissionId s') s := by
  refine Prog.wp_iff_runs.mpr fun r s' hruns => ⟨?_, ?_⟩
  · exact Prog.wp_iff_runs.mp hwp r s'.1 (Prog.Pool.runs_of_traced hruns)
  · obtain ⟨events, hevents, hvisits⟩ := Prog.Pool.exists_events_of_traced hruns
    have hstart : Prog.Throughout (quietPolicy admissionId).Holds (s.1, []) :=
      ⟨hs.now, by simp⟩
    obtain ⟨⟨hnow, hvisited⟩, -⟩ := hsafe.visited hstart (hvisits [])
    refine ⟨hnow, fun e he => ?_⟩
    rw [hevents, List.mem_append] at he
    rcases he with he | he
    · exact hs.past e he
    · exact hvisited e.after (by simpa using ⟨e, he, rfl⟩)

/-- A section after it. -/
theorem wp_kept (hsafe : Safe content (keptPolicy request.cids) p)
    (hreq : Prog.Requests (·.compensating = false) p) (hkept : request.Registered s.1)
    (hlog : Irrevocable request s.2) :
    Prog.wp (Prog.Pool.traced (storeSem content faults) ()) p
      (fun _ s' => request.Registered s'.1 ∧ Irrevocable request s'.2) s := by
  refine Prog.wp_iff_runs.mpr fun r s' hruns => ?_
  obtain ⟨events, hevents, hvisits⟩ := Prog.Pool.exists_events_of_traced hruns
  obtain ⟨events', hevents', hrequests⟩ := Prog.Pool.events_of_requests hreq hruns
  obtain rfl : events' = events := List.append_cancel_left (hevents'.symm.trans hevents)
  have hstart : Prog.Throughout (keptPolicy request.cids).Holds (s.1, []) :=
    ⟨hkept.kept, by simp⟩
  obtain ⟨⟨hnow, hvisited⟩, -⟩ := hsafe.visited hstart (hvisits [])
  refine ⟨registered_of_kept hnow, ?_⟩
  obtain ⟨quiet, kept, hlog, hquiet, hkept⟩ := hlog
  refine ⟨quiet, kept ++ events', by rw [hevents, hlog, List.append_assoc], hquiet, ?_⟩
  intro e he
  rcases List.mem_append.mp he with he | he
  · exact hkept e he
  · refine ⟨?_, registered_of_kept (hvisited e.after (by simpa using ⟨e, he, rfl⟩))⟩
    obtain ⟨q, before, answer, after, rfl, hq⟩ := hrequests e he
    show ¬ q.compensating = true
    rw [hq]
    exact Bool.false_ne_true

end Sections

/-! ## Before the decision -/

/-- An upload that was admitted on the node `w` and can still be undone: each
of its files is still taken, or given back already. -/
structure Undecided (request : UploadRequest Cid) (w : World Cid) (admitted : Admitted Cid)
    (s : World Cid × RequestLog Cid) : Prop where
  remembers : Remembers admitted.baselines w
  baselines : ∀ cid, cid ∈ admitted.baselines.map (·.cid) ↔ cid ∈ request.cids
  records : ∀ cid, cid ∈ admitted.records.map (·.cid) ↔ cid ∈ request.cids
  files : ∀ cid ∈ request.cids, Restored w s.1 cid ∨ Taken request.admissionId s.1 cid
  others : ∀ cid, cid ∉ request.cids → Restored w s.1 cid
  start : (quietPolicy request.admissionId).Holds w
  quiet : QuietLog request.admissionId s

/-- The node is as it was, and nothing was ever settled. -/
structure Back (request : UploadRequest Cid) (w : World Cid) (s : World Cid × RequestLog Cid) :
    Prop where
  restored : ∀ cid, Restored w s.1 cid
  quiet : QuietLog request.admissionId s

/-- All files are there to stay. -/
structure Decided (request : UploadRequest Cid) (s : World Cid × RequestLog Cid) : Prop where
  registered : request.Registered s.1
  log : Irrevocable request s.2

variable {admitted : Admitted Cid} {s : World Cid × RequestLog Cid}

theorem Undecided.mayUndo (h : Undecided request w admitted s) :
    ∀ baseline ∈ admitted.baselines,
      (quietPolicy request.admissionId).MayUndo (some request.admissionId) baseline :=
  fun baseline hmem _ _ _ => quiet_mayUndo h.remembers h.start baseline hmem

/-- Rolling back an undecided upload restores every file. -/
theorem Undecided.restored (h : Undecided request w admitted s)
    (hback : RolledBack (some request.admissionId) admitted.baselines.reverse s.1 w') :
    ∀ cid, Restored w w' cid := by
  refine h.remembers.reverse.all_restored hback (fun baseline hmem => ?_) fun cid hnot => ?_
  · have hmem : baseline.cid ∈ admitted.baselines.map (·.cid) :=
      List.mem_map_of_mem (List.mem_reverse.mp hmem)
    rcases h.files _ ((h.baselines _).mp hmem) with hrestored | htaken
    · exact .inl hrestored
    · obtain ⟨record, hget, hreg⟩ := htaken.record
      refine .inr ⟨?_, htaken.pin⟩
      show (s.1.files.get baseline.cid).bind (·.admissionId) = some request.admissionId
      rw [hget]
      exact hreg.token
  · rw [List.map_reverse, List.mem_reverse, h.baselines] at hnot
    exact h.others cid hnot

theorem wp_undo (h : Undecided request w admitted s) :
    Prog.wp (Prog.Pool.traced (storeSem content ordinaryFault) ())
      (rollbackAdmitted admitted.baselines request.admissionId)
      (fun r s' => r = .ok () ∧ Back request w s') s := by
  have hordinary : (ordinaryFault : Faults Cid).Ordinary := fun _ => id
  refine Prog.wp_mono ?_ (wp_quiet (wp_rollbackAdmitted hordinary h.remembers)
    (safe_rollbackAdmitted h.mayUndo) h.quiet)
  rintro r s' ⟨⟨hok, hback⟩, hquiet⟩
  exact ⟨hok, h.restored hback, hquiet⟩

/-! ## The decision -/

theorem settleEach_ok {faults : Faults Cid} {settledAt : Nat} (records : List (FileRecord Cid)) :
    Prog.wp (storeSem content faults) (settleEach settledAt records)
      (fun r _ => ∃ stored, r = .ok stored) w := by
  induction records generalizing w with
  | nil => exact ⟨[], rfl⟩
  | cons record rest ih =>
      refine Prog.wp_bind.mpr (Prog.wp_attempt.mpr (Prog.wp_iff_runs.mpr fun r w₁ _ => ?_))
      refine Prog.wp_bind.mpr (Prog.wp_mono ?_ ih)
      rintro _ w₂ ⟨others, rfl⟩
      cases r <;> exact ⟨_, rfl⟩

omit [DecidableEq Cid] in
theorem requests_save {record : FileRecord Cid} :
    Prog.Requests (·.compensating = false) (Locked.save record) := by
  by_cases h : isFileRecord record = true
  · rw [Locked.save_valid h]
    exact .perform rfl
  · rw [Locked.save_invalid (by simpa using h)]
    trivial

omit [DecidableEq Cid] in
theorem requests_settleEach {settledAt : Nat} (records : List (FileRecord Cid)) :
    Prog.Requests (·.compensating = false) (settleEach settledAt records) := by
  induction records with
  | nil => trivial
  | cons record rest ih =>
      refine .bind (.attempt requests_save) fun settled => .bind ih fun others => ?_
      cases settled <;> trivial

omit [DecidableEq Cid] in
theorem requests_clearSettledAdmissions {reports : Reports Cid} {admissionId : AdmissionId}
    (cids : List Cid) : Prog.Requests (·.compensating = false)
      (clearSettledAdmissions reports admissionId cids) := by
  induction cids with
  | nil => trivial
  | cons cid rest ih =>
      refine .bind (.attempt (.perform rfl)) fun current => ?_
      rcases current with _ | _ | current
      · exact ih
      · trivial
      · dsimp only
        split
        · trivial
        · refine .bind (.attempt requests_save) fun stored => .bind ih fun others => ?_
          cases stored <;> trivial

/-- The local decision: all files stay for good, or the upload can still be
undone. -/
theorem wp_finalizeAdmitted (h : Undecided request w admitted s)
    (htaken : ∀ cid ∈ request.cids, Taken request.admissionId s.1 cid)
    {cids : List Cid} (hcids : ∀ cid, cid ∈ cids ↔ cid ∈ request.cids)
    {reports : Reports Cid} {settledAt : Nat} :
    Prog.wp (Prog.Pool.traced (storeSem content ordinaryFault) ())
      (finalizeAdmitted cids admitted.baselines reports request.admissionId settledAt)
      (fun r s' => match r with
        | .ok _ => Decided request s'
        | .error _ => Undecided request w admitted s') s := by
  have hordinary : (ordinaryFault : Faults Cid).Ordinary := fun _ => id
  refine Prog.wp_bind.mpr (Prog.wp_mono ?_ (wp_quiet (wp_readAdmitted cids)
    keeps_readAdmitted.safe h.quiet))
  rintro r ⟨w₁, log₁⟩ ⟨⟨hw₁, hread⟩, hquiet⟩
  have hw₁ : w₁ = s.1 := hw₁
  subst hw₁
  have h : Undecided request w admitted (s.1, log₁) :=
    ⟨h.remembers, h.baselines, h.records, h.files, h.others, h.start, hquiet⟩
  cases r with
  | error err => exact h
  | ok current =>
      obtain ⟨hmap, hcurrent⟩ := hread current rfl
      have hrecords : ∀ record ∈ current,
          IsRegistration (some request.admissionId) record := by
        intro record hmem
        have hcid : record.cid ∈ request.cids := by
          rw [← hcids, ← hmap]
          exact List.mem_map_of_mem hmem
        obtain ⟨record', hget, hreg⟩ := (htaken _ hcid).record
        rw [hcurrent record hmem] at hget
        cases hget
        exact hreg
      have hquietSave : Safe content (quietPolicy request.admissionId)
          (saveReports reports current) := by
        have hreport : ∀ record, (quietPolicy request.admissionId).Owns request.admissionId
            record → (quietPolicy request.admissionId).Allows (reportedRecord reports record) := by
          rintro record howns _ ⟨⟩
          exact howns.1 record rfl
        refine (keeps_saveReports hreport fun record hmem => ⟨?_, ?_⟩).safe
        · rintro _ ⟨⟩ -
          exact (hrecords record hmem).unsettled
        · exact (hrecords record hmem).token
      refine Prog.wp_bind.mpr (Prog.wp_attempt.mpr (Prog.wp_mono ?_
        (wp_quiet (wp_saveReports hrecords) hquietSave hquiet)))
      rintro r s₂ ⟨⟨hsaved, hstored⟩, hquiet₂⟩
      have hmem : ∀ cid, cid ∈ current.map (·.cid) ↔ cid ∈ request.cids := by
        rw [hmap]
        exact hcids
      have htaken₂ : ∀ cid ∈ request.cids, Taken request.admissionId s₂.1 cid :=
        fun cid hcid => hsaved.taken cid (htaken cid hcid)
      have h₂ : Undecided request w admitted s₂ := by
        refine ⟨h.remembers, h.baselines, h.records, fun cid hcid => .inr (htaken₂ cid hcid),
          fun cid hnot => ?_, h.start, hquiet₂⟩
        exact (h.others cid hnot).trans
          (hsaved.others cid fun hcid => hnot ((hmem cid).mp hcid)).restored
      cases r with
      | error err =>
          -- the rollback in place leaves an upload that a second one finds undone
          have hundo : Prog.wp (storeSem content ordinaryFault)
              (compensating (rollbackEach (some request.admissionId)
                admitted.baselines.reverse))
              (fun _ w' => ∀ cid, Restored w w' cid) s₂.1 := by
            refine (wp_compensating hordinary).mpr ?_
            obtain ⟨w', hrun, hback⟩ := run_rollbackEach (some request.admissionId)
              h.remembers.reverse.valid h.remembers.reverse.nodup s₂.1
            rw [hrun]
            exact h₂.restored hback
          have hsafe : Safe content (quietPolicy request.admissionId)
              (compensating (rollbackEach (some request.admissionId)
                admitted.baselines.reverse)) :=
            safe_compensating (safe_rollbackEach fun baseline hmem =>
              h.mayUndo baseline (List.mem_reverse.mp hmem))
          refine Prog.wp_bind.mpr (Prog.wp_mono ?_ (wp_quiet hundo hsafe hquiet₂))
          rintro r s₃ ⟨hrestored, hquiet₃⟩
          have h₃ : Undecided request w admitted s₃ :=
            ⟨h.remembers, h.baselines, h.records, fun cid _ => .inl (hrestored cid),
              fun cid _ => hrestored cid, h.start, hquiet₃⟩
          cases r <;> exact h₃
      | ok finalized =>
          obtain ⟨-, hfinalized⟩ := hstored finalized rfl
          have hregistered : request.Registered s₂.1 := by
            intro cid hcid
            obtain ⟨record, hget, hreg⟩ := (htaken₂ cid hcid).record
            exact ⟨(htaken₂ cid hcid).pin, record, hget, hreg.pinned, hreg.held⟩
          have hsettle : Safe content (keptPolicy request.cids)
              (settleEach settledAt finalized) := by
            have hallowed : ∀ record, (keptPolicy request.cids).Owns request.admissionId
                record → (keptPolicy request.cids).Allows (record.settled settledAt) := by
              intro record howns hcid
              obtain ⟨_, ⟨⟩, hkept⟩ := howns.1 hcid
              exact ⟨_, rfl, hkept⟩
            refine safe_settleEach hallowed fun record hmem => ⟨fun _ => ?_, ?_⟩
            · have hreg := hfinalized record hmem
              exact ⟨record, rfl, hreg.pinned, hreg.held⟩
            · exact (hfinalized record hmem).token
          have hkept : Prog.wp (Prog.Pool.traced (storeSem content ordinaryFault) ())
              (settleEach settledAt finalized)
              (fun _ s' => request.Registered s'.1 ∧ Irrevocable request s'.2) s₂ :=
            wp_kept hsettle (requests_settleEach finalized) hregistered h₂.quiet.irrevocable
          refine Prog.wp_iff_runs.mpr fun r s₃ hruns => ?_
          obtain ⟨stored, rfl⟩ := Prog.wp_iff_runs.mp (settleEach_ok finalized) r s₃.1
            (Prog.Pool.runs_of_traced hruns)
          obtain ⟨hregistered₃, hlog⟩ := Prog.wp_iff_runs.mp hkept _ s₃ hruns
          exact ⟨hregistered₃, hlog⟩

/-! ## The handler -/

/-- How the request ends: undone, or there to stay, and refused only if undone. -/
structure Ended (request : UploadRequest Cid) (w : World Cid)
    (r : Except (LifecycleError Cid) (UploadResponse Cid)) (s : World Cid × RequestLog Cid) :
    Prop where
  either : Back request w s ∨ Decided request s
  refused : r = .ok .replicationQuorum → Back request w s

theorem Ended.of_back {r : Except (LifecycleError Cid) (UploadResponse Cid)}
    (h : Back request w s) : Ended request w r s :=
  ⟨.inl h, fun _ => h⟩

theorem Ended.of_decided {r : Except (LifecycleError Cid) (UploadResponse Cid)}
    (h : Decided request s) (hr : r ≠ .ok .replicationQuorum) : Ended request w r s :=
  ⟨.inr h, fun heq => absurd heq hr⟩

section Network

variable {S : Type} {sem : Prog.Sem (Request Cid) Request.Ret (LifecycleError Cid) S} {x : S}

theorem wp_abortEach {admissionId : AdmissionId} (replication : Replication Cid) :
    Prog.wp (nodeStep sem) (abortEach admissionId replication)
      (fun r x' => x' = x ∧ ∃ failures, r = .ok failures) x := by
  induction replication with
  | nil => exact ⟨rfl, [], rfl⟩
  | cons item rest ih =>
      refine Prog.wp_bind.mpr (Prog.wp_attempt.mpr (wp_ask.mpr fun r => ?_))
      refine Prog.wp_bind.mpr (Prog.wp_mono ?_ ih)
      rintro _ _ ⟨rfl, failures, rfl⟩
      exact ⟨rfl, _, rfl⟩

theorem wp_commitEach {admissionId : AdmissionId} (replication : Replication Cid) :
    Prog.wp (nodeStep sem) (commitEach admissionId replication)
      (fun r x' => x' = x ∧ ∃ commits, r = .ok commits) x := by
  induction replication with
  | nil => exact ⟨rfl, [], rfl⟩
  | cons item rest ih =>
      refine Prog.wp_bind.mpr (Prog.wp_attempt.mpr (wp_ask.mpr fun r => ?_))
      refine Prog.wp_bind.mpr (Prog.wp_mono ?_ ih)
      rintro _ _ ⟨rfl, commits, rfl⟩
      exact ⟨rfl, _, rfl⟩

end Network

theorem wp_abandonUpload (h : Undecided request w admitted s) (replication : Replication Cid) :
    Prog.wp (nodeStep (Prog.Pool.traced (storeSem content ordinaryFault) ()))
      (abandonUpload request admitted replication)
      (fun r s' => Back request w s' ∧ ∃ failures, r = .ok failures) s := by
  refine Prog.wp_bind.mpr (Prog.wp_mono ?_ (wp_abortEach replication))
  rintro _ _ ⟨rfl, failures, rfl⟩
  refine Prog.wp_bind.mpr (Prog.wp_attempt.mpr (wp_section.mpr (Prog.wp_mono ?_ (wp_undo h))))
  rintro _ s' ⟨rfl, hback⟩
  exact ⟨hback, _, rfl⟩

/-- Nothing after the decision undoes it. -/
theorem wp_settleUpload (h : Decided request s) (replication : Replication Cid)
    (finalized : List (FileRecord Cid)) :
    Prog.wp (nodeStep (Prog.Pool.traced (storeSem content ordinaryFault) ()))
      (settleUpload request admitted replication finalized)
      (fun r s' => Decided request s' ∧ r ≠ .ok .replicationQuorum) s := by
  have hclear : ∀ (reports : Reports Cid) (cids : List Cid),
      Prog.wp (Prog.Pool.traced (storeSem content ordinaryFault) ())
        (LocalOp.clearSettledAdmissions reports request.admissionId cids).body
        (fun _ s' => Decided request s') s := by
    intro reports cids
    have hallowed : ∀ record, (keptPolicy request.cids).Owns request.admissionId record →
        (keptPolicy request.cids).Allows (reportedRecord reports record).withoutAdmission := by
      intro record howns hcid
      obtain ⟨_, ⟨⟩, hkept⟩ := howns.1 hcid
      exact ⟨_, rfl, hkept⟩
    refine Prog.wp_mono ?_ (wp_kept (safe_clearSettledAdmissions hallowed)
      (requests_clearSettledAdmissions cids) h.registered h.log)
    exact fun _ _ hs => ⟨hs.1, hs.2⟩
  unfold settleUpload
  split
  · refine Prog.wp_bind.mpr (Prog.wp_mono ?_ (wp_commitEach replication))
    rintro _ _ ⟨rfl, commits, rfl⟩
    refine Prog.wp_bind.mpr (wp_section.mpr (Prog.wp_mono ?_ (hclear _ _)))
    intro r s' hdecided
    cases r with
    | error err => exact ⟨hdecided, fun h => by cases h⟩
    | ok cleared =>
        dsimp only [Prog.thenPost]
        split
        · exact ⟨hdecided, by simp [sendUploaded]⟩
        · exact ⟨hdecided, fun h => by cases h⟩
  · refine Prog.wp_bind.mpr (wp_section.mpr (Prog.wp_mono ?_ (hclear _ _)))
    intro r s' hdecided
    cases r with
    | error err => exact ⟨hdecided, fun h => by cases h⟩
    | ok cleared => exact ⟨hdecided, by simp [sendUploaded]⟩

/-- From admission on. -/
theorem wp_placeUpload (h : Undecided request w admitted s)
    (htaken : ∀ cid ∈ request.cids, Taken request.admissionId s.1 cid) :
    Prog.wp (nodeStep (Prog.Pool.traced (storeSem content ordinaryFault) ()))
      (placeUpload request admitted) (Ended request w) s := by
  refine Prog.wp_bind.mpr (Prog.wp_attempt.mpr (wp_ask.mpr fun placed => ?_))
  cases placed with
  | error err =>
      refine Prog.wp_bind.mpr (Prog.wp_attempt.mpr (wp_section.mpr (Prog.wp_mono ?_
        (wp_undo h))))
      rintro _ s' ⟨rfl, hback⟩
      exact .of_back hback
  | ok reports =>
      show Prog.wp _ (decideUpload request admitted _) _ s
      unfold decideUpload
      split
      · refine Prog.wp_bind.mpr (Prog.wp_mono ?_ (wp_abandonUpload h _))
        rintro _ s' ⟨hback, failures, rfl⟩
        show Prog.wp _ (if _ then _ else _) _ s'
        split <;> exact .of_back hback
      · have hcids : ∀ cid, cid ∈ (admitted.records.map (·.cid)).eraseDups ↔
            cid ∈ request.cids := fun cid => List.mem_eraseDups.trans (h.records cid)
        refine Prog.wp_bind.mpr (Prog.wp_attempt.mpr (wp_section.mpr (Prog.wp_mono ?_
          (wp_finalizeAdmitted h htaken hcids))))
        intro r s' hdecided
        cases r with
        | ok finalized =>
            refine Prog.wp_mono ?_ (wp_settleUpload hdecided _ finalized)
            exact fun r s'' hs => .of_decided hs.1 hs.2
        | error err =>
            have hopen : Undecided request w admitted s' := hdecided
            refine Prog.wp_bind.mpr (Prog.wp_mono ?_ (wp_abandonUpload hopen _))
            rintro _ s'' ⟨hback, failures, rfl⟩
            exact .of_back hback

theorem wp_handleUpload (hs : QuietLog request.admissionId s) :
    Prog.wp (nodeStep (Prog.Pool.traced (storeSem content ordinaryFault) ()))
      (handleUpload request) (Ended request s.1) s := by
  have hsame : Back request s.1 s := ⟨fun cid => (World.Agrees.refl s.1 cid).restored, hs⟩
  unfold handleUpload
  split
  · exact .of_back hsame
  · split
    · exact .of_back hsame
    · have hquiet : Safe content (quietPolicy request.admissionId)
          (admitUpload request.admission request.files) := by
        refine safe_admitUpload fun file _ existing _ _ _ _ => ?_
        rintro _ ⟨⟩ -
        exact (isRegistration_registrationOf existing _ _).unsettled
      refine Prog.wp_bind.mpr (wp_section.mpr (Prog.wp_mono ?_
        (wp_quiet wp_admitUpload hquiet hs)))
      rintro r s' ⟨hadmitted, hquiet'⟩
      cases r with
      | error err =>
          have hback : GivenBack s.1 s'.1 := hadmitted fun _ => id
          exact .of_back ⟨hback.restored, hquiet'⟩
      | ok admitted =>
          have hin : AdmittedIn request.admission s.1 request.files admitted s'.1 := hadmitted
          have hopen : Undecided request s.1 admitted s' :=
            ⟨hin.remembers, hin.baselines, hin.records,
              fun cid hmem => .inr (hin.taken cid hmem),
              fun cid hnot => (hin.others cid hnot).restored, hs.now, hquiet'⟩
          exact wp_placeUpload hopen hin.taken

/-- The requests that begin and end an admission touch no file. -/
theorem wp_admissionMark {o : StoreOp Cid} {admissionId : AdmissionId}
    (ho : o = .beginAdmission admissionId ∨ o = .endAdmission admissionId) :
    Prog.wp (storeSem content ordinaryFault) (IpfsNode.request o)
      (fun _ w' => ∀ cid, w.Agrees w' cid) w := by
  rcases ho with rfl | rfl
  · refine wp_request ?_ (fun h => by cases h) (fun h => by cases h)
    simp only [StoreOp.effect]
    split <;> exact fun cid => ⟨rfl, Iff.rfl⟩
  · exact wp_request (fun cid => ⟨rfl, Iff.rfl⟩) (fun h => by cases h) (fun h => by cases h)

theorem safe_admissionMark {P : Policy Cid} (hP : ∀ proc, P.process proc) {o : StoreOp Cid}
    {admissionId : AdmissionId}
    (ho : o = .beginAdmission admissionId ∨ o = .endAdmission admissionId) :
    Safe content P (IpfsNode.request o) := by
  refine safe_request fun w hw => ?_
  rcases ho with rfl | rfl
  · simp only [StoreOp.effect]
    split <;> exact ⟨hw.record, hw.pin, hP _, hw.block⟩
  · exact ⟨hw.record, hw.pin, hP _, hw.block⟩

theorem wp_uploadHandler (hw : (quietPolicy request.admissionId).Holds w) :
    Prog.wp (nodeStep (Prog.Pool.traced (storeSem content ordinaryFault) ()))
      (uploadHandler request) (Ended request w) (w, []) := by
  have hstart : QuietLog request.admissionId (w, []) := ⟨hw, by simp⟩
  have hfree : ∀ proc : Process Cid, (quietPolicy request.admissionId).process proc :=
    fun _ => trivial
  refine Prog.wp_bind.mpr (wp_section.mpr (Prog.wp_mono ?_
    (wp_quiet (wp_admissionMark (.inl rfl)) (safe_admissionMark hfree (.inl rfl)) hstart)))
  rintro r s₁ ⟨hsame, hquiet⟩
  have hback : ∀ s', Back request s₁.1 s' → Back request w s' := fun s' h =>
    ⟨fun cid => (hsame cid).restored.trans (h.restored cid), h.quiet⟩
  cases r with
  | error err =>
      exact .of_back (hback s₁ ⟨fun cid => (World.Agrees.refl _ cid).restored, hquiet⟩)
  | ok _ =>
      refine Prog.wp_bind.mpr (Prog.wp_attempt.mpr (Prog.wp_mono ?_ (wp_handleUpload hquiet)))
      intro result s₂ hended
      -- the end of the admission changes no file, so the outcome stands
      have hundone : Back request s₁.1 s₂ →
          Prog.wp (Prog.Pool.traced (storeSem content ordinaryFault) ())
            (IpfsNode.request (.endAdmission request.admissionId))
            (fun _ s' => Back request w s') s₂ := by
        intro h
        refine Prog.wp_mono ?_ (wp_quiet (wp_admissionMark (.inr rfl))
          (safe_admissionMark hfree (.inr rfl)) h.quiet)
        exact fun r s' hs => hback s' ⟨fun cid => (h.restored cid).trans (hs.1 cid).restored, hs.2⟩
      refine Prog.wp_bind.mpr (wp_section.mpr ?_)
      rcases hended.either with h | h
      · refine Prog.wp_mono ?_ (hundone h)
        intro r s' hs
        cases r with
        | error err => exact .of_back hs
        | ok _ => exact Prog.wp_ofExcept.mpr (.of_back hs)
      · have hkept : Prog.wp (Prog.Pool.traced (storeSem content ordinaryFault) ())
            (IpfsNode.request (.endAdmission request.admissionId))
            (fun _ s' => request.Registered s'.1 ∧ Irrevocable request s'.2) s₂ :=
          wp_kept (safe_admissionMark (fun _ => trivial) (.inr rfl)) (.perform rfl)
            h.registered h.log
        by_cases hrefused : result = .ok .replicationQuorum
        · refine Prog.wp_mono ?_ (hundone (hended.refused hrefused))
          intro r s' hs
          cases r with
          | error err => exact .of_back hs
          | ok _ => exact Prog.wp_ofExcept.mpr (.of_back hs)
        · refine Prog.wp_mono ?_ hkept
          rintro r s' ⟨hregistered, hlog⟩
          cases r with
          | error err => exact .of_decided ⟨hregistered, hlog⟩ (fun h => by cases h)
          | ok _ => exact Prog.wp_ofExcept.mpr (.of_decided ⟨hregistered, hlog⟩ hrefused)

/-- A request ends undone or with all its files registered, pinned and held; it
is refused with 503 only when undone, and once one of its records is stored as
settled nothing of it is rolled back. -/
theorem upload_transactional (content : Content Cid) (request : UploadRequest Cid)
    (w w' : World Cid) (log : RequestLog Cid)
    (r : Except (LifecycleError Cid) (UploadResponse Cid))
    (hfresh : ∀ cid record, w.files.get cid = some record →
      record.admissionId ≠ some request.admissionId)
    (hruns : Prog.Runs (nodeStep (Prog.Pool.traced (storeSem content ordinaryFault) ()))
      (uploadHandler request) (w, []) r (w', log)) :
    ((∀ cid ∈ request.cids, Restored w w' cid) ∨ request.Registered w') ∧
      (r = .ok .replicationQuorum → ∀ cid ∈ request.cids, Restored w w' cid) ∧
      ∀ before e after, log = before ++ e :: after → request.Settled e.after →
        request.Registered e.after ∧
          ∀ e' ∈ after, ¬ IsRollback e' ∧ request.Registered e'.after := by
  have hquiet : (quietPolicy request.admissionId).Holds w :=
    ⟨fun cid record hget htoken => absurd htoken (hfresh cid record hget),
      fun _ => False.elim, trivial, fun _ => False.elim⟩
  have hended := Prog.wp_iff_runs.mp (wp_uploadHandler hquiet) r (w', log) hruns
  have hlog : Irrevocable request log := by
    rcases hended.either with h | h
    · exact h.quiet.irrevocable
    · exact h.log
  refine ⟨?_, fun hr cid _ => (hended.refused hr).restored cid, ?_⟩
  · exact hended.either.imp (fun h cid _ => h.restored cid) fun h => h.registered
  · rintro before e after rfl hsettled
    exact hlog.settled hsettled

end Transaction

namespace MissedQuorum

/-- One file, given twice. -/
def twoParts : UploadRequest Nat where
  admissionId := "upload"
  files := [⟨7, "a.txt", 1, 1, none⟩, ⟨7, "b.txt", 1, 1, none⟩]
  claimed := true
  confirmationRequired := false
  temporaryTtlMs := 10
  requireQuorumOnUpload := true
  now := 5
  settledAt := 6

/-- No peer took a copy. -/
def missed : ReplicationReport where
  mode := .quorum
  desiredCopies := 2
  copies := 1
  required := 2
  acknowledged := 1
  replicas := []
  cached := []
  satisfied := false
  networkTooSmall := false
  attempts := []

def answers : (o : NetworkOp Nat) → Except (LifecycleError Nat) o.Ret
  | .replicate .. => .ok fun _ => missed
  | .abortReplicas .. => .ok ()
  | _ => .error .io

def execute : (o : NodeOp Nat) → World Nat × RequestLog Nat →
    Except (LifecycleError Nat) o.Ret × (World Nat × RequestLog Nat)
  | .run o, s => Prog.run (Prog.Pool.tracing (serve Content.flat) ()) o.body s
  | .ask o, s => (answers o, s)

def executed :
    Except (LifecycleError Nat) (UploadResponse Nat) × (World Nat × RequestLog Nat) :=
  Prog.run execute (uploadHandler twoParts) (World.empty, [])

theorem runs_executed :
    Prog.Runs (nodeStep (Prog.Pool.traced (storeSem Content.flat ordinaryFault) ()))
      (uploadHandler twoParts) (World.empty, []) executed.1 executed.2 := by
  refine Prog.runs_run (fun o s => ?_) _ _
  cases o with
  | run o => exact Prog.runs_run (Prog.Pool.traced_tracing (fun _ _ => .served) ()) o.body s
  | ask o => rfl

end MissedQuorum

open MissedQuorum in
/-- The upload is refused, and the file is back where it was. -/
theorem upload_transactional_twoParts :
    executed.1 = .ok .replicationQuorum ∧ Restored World.empty executed.2.1 7 := by
  have hrefused : executed.1 = .ok .replicationQuorum := rfl
  refine ⟨hrefused, ?_⟩
  exact (upload_transactional Content.flat twoParts World.empty executed.2.1 executed.2.2 executed.1
    (fun _ _ => nofun) runs_executed).2.1 hrefused 7 (by decide)

end IpfsNode
