import IpfsNode.StageOwnership
import IpfsNode.Ownership

/-!
# What stays withdrawn

An abort takes one transaction out of a prepared copy, and leaves a marker that
stops a stage of the same peer which arrives later. `abort_final` follows a node
from such an abort on: while the marker lives, no operation lists the transaction
again, unless an upload that took the copy over before the abort is rolled back.
Such an upload kept the staged record as its baseline, and writes it back as it
was: `aborted_transaction_back` is a run in which it does.
-/

namespace IpfsNode

/-! ## Markers -/

section Markers

variable {Cid : Type} {aborted : List (AbortKey Cid × Nat)} {key : AbortKey Cid}
variable {now deadline expiresAt : Nat}

/-- The markers that are alive at the time. -/
def liveMarkers (aborted : List (AbortKey Cid × Nat)) (now : Nat) :
    List (AbortKey Cid × Nat) :=
  aborted.filter fun marker => now < marker.2

/-- The key is remembered, at least until the deadline. -/
def Marked (key : AbortKey Cid) (deadline : Nat) (aborted : List (AbortKey Cid × Nat)) : Prop :=
  ∃ expiresAt, (key, expiresAt) ∈ aborted ∧ deadline ≤ expiresAt

theorem Marked.live (h : Marked key deadline aborted) (hnow : now < deadline) :
    Marked key deadline (liveMarkers aborted now) := by
  obtain ⟨expiresAt, hmem, hle⟩ := h
  exact ⟨expiresAt, List.mem_filter.mpr ⟨hmem, decide_eq_true (hnow.trans_le hle)⟩, hle⟩

/-- With room for them all, only markers that expired are dropped. -/
theorem prune_of_room (h : (liveMarkers aborted now).length ≤ MAX_ABORT_TOMBSTONES) :
    pruneAbortTombstones aborted now = liveMarkers aborted now := by
  show dropOldest (liveMarkers aborted now) = _
  cases hlive : liveMarkers aborted now with
  | nil => rfl
  | cons oldest rest =>
      rw [hlive] at h
      exact if_neg (Nat.not_lt.mpr h)

variable [DecidableEq Cid]

theorem length_setTombstone_le :
    (setTombstone aborted key expiresAt).length ≤ aborted.length + 1 := by
  unfold setTombstone
  split <;> simp

theorem marked_setTombstone {own : AbortKey Cid} (h : Marked key deadline aborted ∨ own = key)
    (hown : own = key → deadline ≤ expiresAt) :
    Marked key deadline (setTombstone aborted own expiresAt) := by
  unfold setTombstone
  by_cases hkey : own = key
  · subst hkey
    refine ⟨expiresAt, ?_, hown rfl⟩
    split
    · rename_i hany
      obtain ⟨marker, hmem, hsame⟩ := List.any_eq_true.mp hany
      exact List.mem_map.mpr ⟨marker, hmem, if_pos (of_decide_eq_true hsame)⟩
    · exact List.mem_append_right _ (List.mem_singleton_self _)
  · obtain ⟨kept, hmem, hle⟩ := h.resolve_right hkey
    refine ⟨kept, ?_, hle⟩
    split
    · exact List.mem_map.mpr ⟨_, hmem, if_neg (Ne.symm hkey)⟩
    · exact List.mem_append_left _ hmem

variable {cid : Cid} {transactionId : TransactionId} {origin : Option PeerId}

theorem marked_rememberAbort
    (hroom : (liveMarkers aborted now).length < MAX_ABORT_TOMBSTONES) (hnow : now < deadline)
    (h : Marked key deadline aborted ∨ transactionKey cid transactionId origin = key)
    (hown : transactionKey cid transactionId origin = key → deadline ≤ expiresAt) :
    Marked key deadline (rememberAbort aborted cid transactionId expiresAt now origin) := by
  unfold rememberAbort
  rw [prune_of_room hroom.le]
  have hset : Marked key deadline (setTombstone (liveMarkers aborted now)
      (transactionKey cid transactionId origin) expiresAt) :=
    marked_setTombstone (h.imp_left fun h => h.live hnow) hown
  have hlength : (liveMarkers (setTombstone (liveMarkers aborted now)
      (transactionKey cid transactionId origin) expiresAt) now).length ≤ MAX_ABORT_TOMBSTONES :=
    (List.length_filter_le _ _).trans (length_setTombstone_le.trans hroom)
  rw [prune_of_room hlength]
  exact hset.live hnow

/-- A marker stops its peer, and callers that do not say who they are. -/
theorem wasAborted_of_marked {peer : PeerId}
    (hroom : (liveMarkers aborted now).length < MAX_ABORT_TOMBSTONES) (hnow : now < deadline)
    (h : Marked (transactionKey cid transactionId (some peer)) deadline aborted)
    (horigin : origin = none ∨ origin = some peer) :
    wasAborted aborted cid transactionId origin now = true := by
  obtain ⟨expiresAt, hmem, -⟩ := h.live hnow
  unfold wasAborted
  rw [prune_of_room hroom.le]
  rcases horigin with rfl | rfl
  · exact List.any_eq_true.mpr ⟨_, hmem, by simp [transactionKey]⟩
  · exact List.any_eq_true.mpr ⟨_, hmem, by simp⟩

end Markers

/-! ## Records -/

section Records

variable {Cid : Type} [DecidableEq Cid] {content : Content Cid}
variable {cid : Cid} {transactionId : TransactionId} {peer : PeerId}

/-- The record lists the transaction as staged by the peer. -/
def FileRecord.Lists (record : FileRecord Cid) (transactionId : TransactionId)
    (peer : PeerId) : Prop :=
  ∃ stage, record.replicaStage = some stage ∧ transactionId ∈ stage.transactionIds ∧
    stage.origin transactionId = some peer

omit [DecidableEq Cid] in
theorem FileRecord.not_lists_of_unstaged {record : FileRecord Cid}
    (h : record.replicaStage = none) : ¬ record.Lists transactionId peer := by
  rintro ⟨stage, hstage, -⟩
  rw [h] at hstage
  cases hstage

theorem stages_iff {w : World Cid} : w.Stages cid transactionId (some peer) ↔
    ∃ record, w.files.get cid = some record ∧ record.Lists transactionId peer := by
  constructor
  · rintro ⟨stage, hstage, hlisted⟩
    obtain ⟨record, hget, hrecord⟩ := Option.bind_eq_some_iff.mp hstage
    exact ⟨record, hget, stage, hrecord, hlisted⟩
  · rintro ⟨record, hget, stage, hrecord, hlisted⟩
    exact ⟨stage, Option.bind_eq_some_iff.mpr ⟨record, hget, hrecord⟩, hlisted⟩

/-- Nothing lists the transaction, and process memory is as `process` says. -/
def withdrawnPolicy (cid : Cid) (transactionId : TransactionId) (peer : PeerId)
    (process : Process Cid → Prop) : Policy Cid where
  record cid' record := cid' = cid → ∀ stored, record = some stored →
    ¬ stored.Lists transactionId peer
  pin _ := False
  process := process
  stamped := by
    rintro cid' record n h hcid _ ⟨⟩
    exact h hcid record rfl

variable {process : Process Cid → Prop}

theorem withdrawnPolicy_holds {w : World Cid} (hprocess : process w.proc) :
    (withdrawnPolicy cid transactionId peer process).Holds w ↔
      ¬ w.Stages cid transactionId (some peer) := by
  rw [stages_iff]
  constructor
  · rintro h ⟨record, hget, hlists⟩
    exact h.record cid rfl record hget hlists
  · refine fun h => ⟨fun cid' heq record hget hlists => ?_, fun _ => False.elim, hprocess,
      fun _ => False.elim⟩
    rw [heq] at hget
    exact h ⟨record, hget, hlists⟩

omit [DecidableEq Cid] in
theorem withdrawnPolicy_allows {record : FileRecord Cid}
    (h : ¬ record.Lists transactionId peer) :
    (withdrawnPolicy cid transactionId peer process).Allows record :=
  fun _ _ heq => Option.some.inj heq ▸ h

omit [DecidableEq Cid] in
/-- What keeps the stage of a record keeps what it lists. -/
theorem FileRecord.Lists.of_stage {record current : FileRecord Cid}
    (hstage : record.replicaStage = current.replicaStage)
    (h : record.Lists transactionId peer) : current.Lists transactionId peer := by
  obtain ⟨stage, hrecord, hlisted⟩ := h
  exact ⟨stage, hstage ▸ hrecord, hlisted⟩

omit [DecidableEq Cid] in
/-- Withdrawing a transaction lists no other one. -/
theorem FileRecord.Lists.of_unclaimed {current : FileRecord Cid} {stage : ReplicaStage}
    {other : TransactionId} (hstage : current.replicaStage = some stage)
    (h : (unclaimedRecord current stage other).Lists transactionId peer) :
    current.Lists transactionId peer := by
  obtain ⟨_, ⟨⟩, hmem, horigin⟩ := h
  obtain ⟨hmem, hne⟩ := List.mem_filter.mp hmem
  have hne : transactionId ≠ other := by simpa using hne
  rw [origin_withoutOrigin_of_ne hne] at horigin
  exact ⟨stage, hstage, hmem, horigin⟩

end Records

/-! ## Operations after the abort -/

section Operations

variable {Cid : Type} [DecidableEq Cid] {content : Content Cid} {site : Site Cid}
variable {t : LifeTask} {past : LifePast Cid} {op : LocalOp Cid} {w w' : World Cid}
variable {cid : Cid} {transactionId : TransactionId} {peer : PeerId} {deadline : Nat}
variable {process : Process Cid → Prop}

/-- The marker that stops a late stage of the peer. -/
def World.Remembers (w : World Cid) (cid : Cid) (transactionId : TransactionId) (peer : PeerId)
    (deadline : Nat) : Prop :=
  Marked (transactionKey cid transactionId (some peer)) deadline w.proc.abortedTransactions

/-- There is room for one more marker. -/
def World.HasRoom (w : World Cid) (now : Nat) : Prop :=
  (liveMarkers w.proc.abortedTransactions now).length < MAX_ABORT_TOMBSTONES

instance (w : World Cid) (now : Nat) : Decidable (w.HasRoom now) :=
  inferInstanceAs (Decidable (_ < _))

/-- The marker still lives when the operation looks at it or leaves one of its
own, and does not make room for another. -/
def LocalOp.LeavesMarker (cid : Cid) (transactionId : TransactionId) (peer : PeerId)
    (deadline : Nat) (w : World Cid) : LocalOp Cid → Prop
  | .stageReplica options _ => options.now < deadline ∧ w.HasRoom options.now
  | .abortReplica options => options.now < deadline ∧ w.HasRoom options.now ∧
      (transactionKey options.cid options.transactionId options.peerId =
          transactionKey cid transactionId (some peer) →
        deadline ≤ options.now + options.tombstoneTtlMs)
  | _ => True

/-! ### Stage -/

/-- A stage that was let through is not one of the transaction and its peer. -/
theorem not_lists_of_letsThrough {options : ReplicaStageTarget Cid} (hcid : options.cid = cid)
    (hnow : options.now < deadline)
    (hlets : (withdrawnPolicy cid transactionId peer fun proc =>
      Marked (transactionKey cid transactionId (some peer)) deadline proc.abortedTransactions ∧
        (liveMarkers proc.abortedTransactions options.now).length <
          MAX_ABORT_TOMBSTONES).LetsThrough options)
    (hsame : options.transactionId = transactionId) :
    options.originPeerId ≠ none ∧ options.originPeerId ≠ some peer := by
  obtain ⟨proc, ⟨hmarked, hroom⟩, hlets⟩ := hlets
  subst hcid hsame
  refine ⟨fun horigin => ?_, fun horigin => ?_⟩
  · rw [wasAborted_of_marked hroom hnow hmarked (.inl horigin)] at hlets
    cases hlets
  · rw [wasAborted_of_marked hroom hnow hmarked (.inr horigin)] at hlets
    cases hlets

theorem stages_withdrawnPolicy {options : ReplicaStageTarget Cid} {name : String}
    (hnow : options.now < deadline) :
    (withdrawnPolicy cid transactionId peer fun proc =>
      Marked (transactionKey cid transactionId (some peer)) deadline proc.abortedTransactions ∧
        (liveMarkers proc.abortedTransactions options.now).length <
          MAX_ABORT_TOMBSTONES).Stages options name where
  prune := by
    rintro proc ⟨hmarked, hroom⟩
    show Marked _ _ (pruneAbortTombstones _ _) ∧
      (liveMarkers (pruneAbortTombstones _ _) _).length < _
    rw [prune_of_room hroom.le]
    exact ⟨hmarked.live hnow, (List.length_filter_le _ _).trans_lt hroom⟩
  join := by
    rintro previous stage hlets hread hstage heq _ ⟨⟩ ⟨_, ⟨⟩, hmem, horigin⟩
    have hcid : options.cid = cid := (hread.2 previous rfl).symm.trans heq
    have hold := hread.1 hcid previous rfl
    by_cases hlisted : options.transactionId ∈ stage.transactionIds
    · unfold ReplicaStage.origin at horigin
      simp only [hlisted, if_true] at hmem horigin
      exact hold ⟨stage, hstage, hmem, horigin⟩
    · simp only [hlisted, if_false, List.mem_append, List.mem_singleton] at hmem horigin
      by_cases hsame : transactionId = options.transactionId
      · obtain ⟨hsome, hpeer⟩ := not_lists_of_letsThrough hcid hnow hlets hsame.symm
        obtain ⟨other, hother⟩ := Option.ne_none_iff_exists'.mp hsome
        rw [hsame, hother, origin_withOrigin] at horigin
        exact hpeer (hother.trans horigin)
      · rw [origin_withOrigin_of_ne hsame] at horigin
        exact hold ⟨stage, hstage, hmem.resolve_right hsame, horigin⟩
  stable _ _ _ _ := withdrawnPolicy_allows (FileRecord.not_lists_of_unstaged rfl)
  staged := by
    rintro previous stats hlets hread hbegin _ heq _ ⟨⟩ ⟨_, ⟨⟩, hmem, horigin⟩
    have hcid : options.cid = cid := heq
    have hsame : transactionId = options.transactionId := List.mem_singleton.mp hmem
    obtain ⟨hsome, hpeer⟩ := not_lists_of_letsThrough hcid hnow hlets hsame.symm
    obtain ⟨other, hother⟩ := Option.ne_none_iff_exists'.mp hsome
    rw [hsame, hother] at horigin
    have hstaged : (some other : Option PeerId) = some peer := by
      simpa [ReplicaStage.origin, withOrigin, List.lookup_cons] using horigin
    exact hpeer (hother.trans hstaged)

/-! ### Abort -/

/-- The node after it left the marker of the abort. -/
def World.remembering (w : World Cid) (options : SettleReplicaOptions Cid) : World Cid :=
  { w with proc := { w.proc with
      abortedTransactions := rememberAbort w.proc.abortedTransactions options.cid
        options.transactionId (options.now + options.tombstoneTtlMs) options.now
        options.peerId } }

theorem wp_rememberAborted_bind {α : Type} {options : SettleReplicaOptions Cid}
    {k : Unit → Store Cid α} {Q : Except (LifecycleError Cid) α → World Cid → Prop}
    (h : Prog.wp (storeSem content anyFault) (k ()) Q (w.remembering options)) :
    Prog.wp (storeSem content anyFault) (rememberAborted options >>= k) Q w :=
  Prog.wp_bind.mpr (wp_request h nofun nofun)

/-- An abort leaves its marker before it touches the record. -/
theorem wp_abortReplica_marked {key : AbortKey Cid} {options : SettleReplicaOptions Cid}
    (h : Marked key deadline (w.remembering options).proc.abortedTransactions) :
    Prog.wp (storeSem content anyFault) (abortReplica options) (fun r w' =>
      Marked key deadline w'.proc.abortedTransactions ∨
        ((∃ err, r = .error err) ∧ w' = w)) w := by
  let kept : Policy Cid :=
    { record := fun _ _ => True, pin := fun _ => False
      process := fun proc => Marked key deadline proc.abortedTransactions
      stamped := fun _ _ => trivial }
  have hkept : kept.Holds (w.remembering options) :=
    ⟨fun _ => trivial, fun _ => False.elim, h, fun _ => False.elim⟩
  have hsafe : ∀ {p : Store Cid (Option (FileRecord Cid))}, Safe content kept p →
      Prog.wp (storeSem content anyFault) p (fun r w' =>
        Marked key deadline w'.proc.abortedTransactions ∨
          ((∃ err, r = .error err) ∧ w' = w)) (w.remembering options) := fun hp =>
    Prog.wp_mono (fun _ _ hr => .inl hr.1.process) (Keeps.wp hp hkept)
  refine Prog.wp_bind.mpr (wp_get ?_ (.inr ⟨⟨_, rfl⟩, rfl⟩))
  show Prog.wp _ _ _ w
  split
  · exact wp_rememberAborted_bind (.inl h)
  · split
    · exact .inr ⟨⟨_, rfl⟩, rfl⟩
    · refine wp_rememberAborted_bind ?_
      split
      · exact hsafe (safe_restoreReplicaStage id trivial trivial fun _ => trivial)
      · exact hsafe (safe_bind (safe_save trivial) fun _ => safe_pure _)

/-- A stage that was restored lists nothing any more. -/
theorem wp_restoreReplicaStage_withdrawn {current : FileRecord Cid} {origin : Option PeerId} :
    Prog.wp (storeSem content anyFault) (restoreReplicaStage current false) (fun r w' =>
      ∀ stored, r = .ok stored → ¬ w'.Stages current.cid transactionId origin) w := by
  have hio : ∀ (w' : World Cid) (stored : Option (FileRecord Cid)),
      (.error .io : Except (LifecycleError Cid) (Option (FileRecord Cid))) = .ok stored →
        ¬ w'.Stages current.cid transactionId origin := fun _ _ h => by cases h
  refine Prog.wp_bind.mpr (wp_unpinFile ?_ (hio _) (hio _))
  show Prog.wp _ (ite _ _ _) _ (w.unpin current.cid)
  split
  · have hfail : ∀ (err : LifecycleError Cid) w₁, Prog.wp (storeSem content anyFault) (do
        let restored ← Prog.attempt (compensating (do
          let _ ← (if decide (current.cid ∈ w.pins) then pinFile current.cid else pure false)
          Locked.save current))
        throw (.aggregate (err :: failureOf restored)
          "Replica rollback failed and its staged state was restored"))
        (fun (r : Except (LifecycleError Cid) (Option (FileRecord Cid))) w' =>
          ∀ stored, r = .ok stored → ¬ w'.Stages current.cid transactionId origin) w₁ := by
      intro err w₁
      refine Prog.wp_bind.mpr (Prog.wp_attempt.mpr (Prog.wp_iff_runs.mpr fun r w₂ _ => ?_))
      exact fun _ h => by cases h
    refine Prog.wp_tryCatch.mpr (Prog.wp_bind.mpr (wp_remove ?_ (hfail _ _) (hfail _ _)))
    rintro _ - ⟨stage, hstage, -⟩
    rw [World.stage, World.get_remove, if_pos rfl] at hstage
    cases hstage
  · refine Prog.wp_bind.mpr (wp_save (fun hvalid => ?_) (fun _ _ h => by cases h) fun _ _ h => by cases h)
    rintro _ - ⟨stage, hstage, -⟩
    have hcid : current.cid = (unstagedRecord current).cid := rfl
    rw [World.stage, World.get_put, if_pos hcid] at hstage
    cases hstage

/-- An abort that returns leaves no record that lists its transaction. -/
theorem wp_abortReplica_withdrawn {options : SettleReplicaOptions Cid} {origin : Option PeerId} :
    Prog.wp (storeSem content anyFault) (abortReplica options) (fun r w' =>
      ∀ stored, r = .ok stored →
        ¬ w'.Stages options.cid options.transactionId origin) w := by
  refine Prog.wp_bind.mpr (wp_get ?_ fun _ h => by cases h)
  show Prog.wp _ _ _ w
  split
  · rename_i hnone
    refine wp_rememberAborted_bind fun _ _ => ?_
    rintro ⟨stage, hstage, hmem, -⟩
    obtain ⟨current, hget, hrecord⟩ := Option.bind_eq_some_iff.mp hstage
    have hget : w.files.get options.cid = some current := hget
    rw [hget, Option.bind_some, FileRecord.stageOf_eq_some.mpr ⟨hrecord, hmem⟩] at hnone
    cases hnone
  · rename_i current stage hmatch
    obtain ⟨record, hget, hstageOf⟩ := Option.bind_eq_some_iff.mp hmatch
    obtain ⟨stage', -, heq⟩ := Option.map_eq_some_iff.mp hstageOf
    obtain ⟨rfl, rfl⟩ := Prod.mk.inj heq
    have hcid : record.cid = options.cid := Registry.cid_of_get hget
    split
    · exact fun _ h => by cases h
    · refine wp_rememberAborted_bind ?_
      split
      · rw [← hcid]
        exact wp_restoreReplicaStage_withdrawn
      · refine Prog.wp_bind.mpr (wp_save (fun hvalid => ?_) (fun _ _ h => by cases h) fun _ _ h => by cases h)
        rintro _ - ⟨stage, hstage, hmem, -⟩
        have hput : options.cid =
            (unclaimedRecord record stage' options.transactionId).cid := hcid.symm
        rw [World.stage, World.get_put, if_pos hput] at hstage
        cases hstage
        simp at hmem

/-! ### Everything else -/

/-- The operation may put an upload back. -/
def LocalOp.undoes : LocalOp Cid → Bool
  | .rollbackAdmitted .. | .finalizeAdmitted .. => true
  | _ => false

/-- An operation that neither stages nor undoes an upload lists nothing new. -/
theorem permits_withdrawnPolicy (hmarkers : op.leavesMarkers = true)
    (hundoes : op.undoes = false) (hcreates : ∀ record, op = .createIfAbsent record →
      record.replicaStage = none) :
    (withdrawnPolicy cid transactionId peer process).PermitsWrites op where
  block _ := id
  unpins _ _ _ _ _ _ := id
  removes _ _ _ _ _ _ := nofun
  stores := by
    intro proc existing record _ hread _ hstores
    have hkept : ∀ {current : FileRecord Cid}, existing = some current →
        record.replicaStage = current.replicaStage →
        (withdrawnPolicy cid transactionId peer process).Allows record := by
      rintro current rfl hstage hcid _ ⟨⟩ hlists
      exact hread.1 hcid current rfl (hlists.of_stage hstage)
    have hunstaged : record.replicaStage = none →
        (withdrawnPolicy cid transactionId peer process).Allows record := fun hnone =>
      withdrawnPolicy_allows (FileRecord.not_lists_of_unstaged hnone)
    cases hstores with
    | register | adopt | admission =>
        exact hunstaged (isRegistration_registrationOf _ _ _).unstaged
    | create => exact hunstaged (hcreates _ rfl)
    | join | stable | stage | unclaim | unstage => cases hmarkers
    | undo | undoFinal | report | settle => cases hundoes
    | clear | recover | forget | replicas | repin => exact hkept rfl rfl
    | confirm | release | commit | rescue | demote | expire | expireStage =>
        exact hunstaged rfl

/-! ### Uploads that are undone -/

/-- The baseline is a record of the file that lists the transaction. -/
def UploadBaseline.Lists (baseline : UploadBaseline Cid) (cid : Cid)
    (transactionId : TransactionId) (peer : PeerId) : Prop :=
  baseline.cid = cid ∧
    ∃ previous, baseline.previous = some previous ∧ previous.Lists transactionId peer

/-- The operation undoes an upload that holds the file, and that took it over
from a stage of the transaction. -/
def LocalOp.Restages (cid : Cid) (transactionId : TransactionId) (peer : PeerId)
    (w : World Cid) : (op : LocalOp Cid) → Except (LifecycleError Cid) op.Ret → Prop
  | .rollbackAdmitted baselines id, _ | .finalizeAdmitted _ baselines _ id _, .error _ =>
      w.token cid = some id ∧ ∃ baseline ∈ baselines, baseline.Lists cid transactionId peer
  | _, _ => False

/-- Nothing lists the transaction, and the upload has the file if it had it. -/
def undoingPolicy (cid : Cid) (transactionId : TransactionId) (peer : PeerId)
    (id : AdmissionId) (token : Option AdmissionId) (process : Process Cid → Prop) :
    Policy Cid where
  record cid' record := cid' = cid → ∀ stored, record = some stored →
    ¬ stored.Lists transactionId peer ∧ (stored.admissionId = some id → token = some id)
  pin _ := False
  process := process
  stamped := by
    rintro cid' record n h hcid _ ⟨⟩
    exact h hcid record rfl

theorem permits_undoingPolicy {id : AdmissionId} {token : Option AdmissionId}
    (hundoes : op.undoes = true) (hown : op.own = some id)
    (hvalid : ∀ baseline ∈ op.baselines, baseline.Valid)
    (hlists : token = some id →
      ∀ baseline ∈ op.baselines, ¬ baseline.Lists cid transactionId peer) :
    (undoingPolicy cid transactionId peer id token process).PermitsWrites op where
  block _ := False.elim
  unpins _ _ _ _ _ _ := False.elim
  removes _ _ _ _ _ _ := nofun
  stores := by
    intro proc existing record _ hread _ hstores
    have hkept : ∀ {current : FileRecord Cid}, existing = some current →
        record.replicaStage = current.replicaStage → record.admissionId = current.admissionId →
        (undoingPolicy cid transactionId peer id token process).Allows record := by
      rintro current rfl hstage htoken hcid _ ⟨⟩
      obtain ⟨hunlisted, hkept⟩ := hread.1 hcid current rfl
      exact ⟨fun hlisted => hunlisted (hlisted.of_stage hstage), fun hid =>
        hkept (htoken.symm.trans hid)⟩
    have hundone : ∀ {baseline : UploadBaseline Cid} {current : FileRecord Cid},
        baseline ∈ op.baselines → existing = some current → current.admissionId = some id →
        baseline.previous = some record →
        (undoingPolicy cid transactionId peer id token process).Allows record := by
      rintro baseline current hmem rfl htoken hprevious hcid _ ⟨⟩
      have htaken := (hread.1 hcid current rfl).2 htoken
      have hbaseline : baseline.cid = cid := (hvalid baseline hmem record hprevious).1 ▸ hcid
      exact ⟨fun hlisted => hlists htaken baseline hmem ⟨hbaseline, record, hprevious, hlisted⟩,
        fun _ => htaken⟩
    cases hstores with
    | undo hmem htoken hprevious =>
        cases hown
        exact hundone hmem rfl htoken hprevious
    | undoFinal hmem htoken hprevious =>
        cases hown
        exact hundone hmem rfl htoken hprevious
    | report | settle => exact hkept rfl rfl rfl
    | _ => cases hundoes

/-- A finalization that returns undid nothing. -/
theorem wp_finalizeAdmitted_ok {P : Policy Cid} {cids : List Cid}
    {baselines : List (UploadBaseline Cid)} {reports : Reports Cid} {id : AdmissionId}
    {settledAt : Nat}
    (hreport : ∀ record, P.Owns id record → P.Allows (reportedRecord reports record))
    (hsettle : ∀ record, P.Owns id record → P.Allows (record.settled settledAt))
    (hw : P.Holds w) : Prog.wp (storeSem content anyFault)
      (finalizeAdmitted cids baselines reports id settledAt) (fun r w' =>
        ∀ records, r = .ok records → P.Holds w') w := by
  refine Prog.wp_bind.mpr (Prog.wp_mono ?_ (Keeps.wp keeps_readAdmitted hw))
  rintro (err | current) w₁ ⟨hw₁, howned⟩
  · exact fun _ => nofun
  refine Prog.wp_bind.mpr (Prog.wp_attempt.mpr (Prog.wp_mono ?_
    (Keeps.wp (keeps_saveReports hreport (howned current rfl)) hw₁)))
  rintro (err | finalized) w₂ ⟨hw₂, hstored⟩
  · refine Prog.wp_bind.mpr (Prog.wp_iff_runs.mpr fun r w₃ _ => ?_)
    cases r <;> exact fun _ => nofun
  · exact Prog.wp_mono (fun _ _ hr _ _ => hr.1)
      (Keeps.wp (safe_settleEach hsettle (hstored finalized rfl)) hw₂)

/-! ### One operation -/

/-- The transaction is withdrawn: a marker stops it, and no record lists it. -/
structure World.Withdrawn (w : World Cid) (cid : Cid) (transactionId : TransactionId)
    (peer : PeerId) (deadline : Nat) : Prop where
  remembers : w.Remembers cid transactionId peer deadline
  unlisted : ¬ w.Stages cid transactionId (some peer)

theorem World.Withdrawn.of_same (h : w.Withdrawn cid transactionId peer deadline)
    (hfiles : w'.files = w.files)
    (haborted : w'.proc.abortedTransactions = w.proc.abortedTransactions) :
    w'.Withdrawn cid transactionId peer deadline := by
  refine ⟨?_, ?_⟩
  · unfold World.Remembers
    rw [haborted]
    exact h.remembers
  · unfold World.Stages World.stage
    rw [hfiles]
    exact h.unlisted

/-- The beginning and the end of an upload or a repair change neither. -/
theorem same_of_owners (howners : op.leavesOwners = false)
    {r : Except (LifecycleError Cid) op.Ret}
    (hrun : Prog.Runs (storeSem content anyFault) op.body w r w') :
    w'.files = w.files ∧ w'.proc.abortedTransactions = w.proc.abortedTransactions := by
  cases op with
  | beginAdmission id =>
      rw [(runs_request rfl rfl hrun).2]
      simp only [StoreOp.effect]
      split <;> exact ⟨rfl, rfl⟩
  | endAdmission id =>
      rw [(runs_request rfl rfl hrun).2]
      exact ⟨rfl, rfl⟩
  | claimRepairRecord selected =>
      rcases Prog.wp_iff_runs.mp wp_claimRepairRecord _ _ hrun with ⟨-, rfl⟩ | ⟨-, -, -, rfl⟩
      · exact ⟨rfl, rfl⟩
      · exact ⟨rfl, rfl⟩
  | releaseRepairRecord cid =>
      rw [(runs_request rfl rfl hrun).2]
      exact ⟨rfl, rfl⟩
  | _ => cases howners

/-- Whatever keeps the records and the marker keeps the transaction withdrawn. -/
theorem withdrawn_of_safe {P : Policy Cid} {α : Type} {p : Store Cid α}
    (hp : Safe content P p) (hw : P.Holds w)
    (hrecord : ∀ stored, P.record cid (some stored) → ¬ stored.Lists transactionId peer)
    (hprocess : ∀ proc, P.process proc →
      Marked (transactionKey cid transactionId (some peer)) deadline proc.abortedTransactions)
    {r : Except (LifecycleError Cid) α}
    (hrun : Prog.Runs (storeSem content anyFault) p w r w') :
    w'.Withdrawn cid transactionId peer deadline := by
  have hholds := hp.holds hw hrun
  refine ⟨hprocess _ hholds.process, fun hstages => ?_⟩
  obtain ⟨record, hget, hlists⟩ := stages_iff.mp hstages
  exact hrecord record (hget ▸ hholds.record cid) hlists

theorem withdrawn_of_stage {options : ReplicaStageTarget Cid} {name : String}
    (hnow : options.now < deadline) (hroom : w.HasRoom options.now)
    (h : w.Withdrawn cid transactionId peer deadline)
    {r : Except (LifecycleError Cid) (ReplicaStageResult Cid)}
    (hrun : Prog.Runs (storeSem content anyFault) (stageReplica options name) w r w') :
    w'.Withdrawn cid transactionId peer deadline :=
  withdrawn_of_safe (safe_stageReplica (stages_withdrawnPolicy hnow))
    ((withdrawnPolicy_holds ⟨h.remembers, hroom⟩).mpr h.unlisted)
    (fun stored hrecord => hrecord rfl stored rfl) (fun _ hproc => hproc.1) hrun

theorem withdrawn_of_abort {options : SettleReplicaOptions Cid}
    (hnow : options.now < deadline) (hroom : w.HasRoom options.now)
    (hown : transactionKey options.cid options.transactionId options.peerId =
        transactionKey cid transactionId (some peer) →
      deadline ≤ options.now + options.tombstoneTtlMs)
    (h : w.Withdrawn cid transactionId peer deadline)
    {r : Except (LifecycleError Cid) (Option (FileRecord Cid))}
    (hrun : Prog.Runs (storeSem content anyFault) (abortReplica options) w r w') :
    w'.Withdrawn cid transactionId peer deadline := by
  have hmarked := marked_rememberAbort hroom hnow (.inl h.remembers) hown
  refine ⟨?_, ?_⟩
  · rcases Prog.wp_iff_runs.mp (wp_abortReplica_marked hmarked) r w' hrun with hkept | ⟨-, rfl⟩
    · exact hkept
    · exact h.remembers
  · have hsafe : Safe content (withdrawnPolicy cid transactionId peer fun _ => True)
        (abortReplica options) := by
      refine safe_abortReplica (fun _ => id) fun current stage hread hstage _ => ?_
      refine ⟨fun _ => ⟨id, ?_, fun _ _ => nofun⟩, fun _ hcid _ heq => ?_⟩
      · exact withdrawnPolicy_allows (FileRecord.not_lists_of_unstaged rfl)
      · have hcurrent : options.cid = cid := (hread.2 current rfl).symm.trans hcid
        cases heq
        exact fun hlists => hread.1 hcurrent current rfl
          (hlists.of_unclaimed (FileRecord.stageOf_eq_some.mp hstage).1)
    have hholds := hsafe.holds ((withdrawnPolicy_holds trivial).mpr h.unlisted) hrun
    exact (withdrawnPolicy_holds trivial).mp hholds

omit [DecidableEq Cid] in
/-- What an upload writes of its own records lists nothing new. -/
theorem withdrawnPolicy_owns {id : AdmissionId} {record stored : FileRecord Cid}
    (h : (withdrawnPolicy cid transactionId peer process).Owns id record)
    (hcid : stored.cid = record.cid) (hstage : stored.replicaStage = record.replicaStage) :
    (withdrawnPolicy cid transactionId peer process).Allows stored := by
  rintro hsame _ ⟨⟩ hlists
  exact h.1 (hcid ▸ hsame) record rfl (hlists.of_stage hstage)

/-- One operation after the abort leaves the transaction withdrawn. -/
theorem withdrawn_of_run (hinv : LifeInvariant past) (hpre : op.Allowed site t past)
    (hleaves : op.LeavesMarker cid transactionId peer deadline past.1)
    {r : Except (LifecycleError Cid) op.Ret}
    (hrestages : ¬ op.Restages cid transactionId peer past.1 r)
    (h : past.1.Withdrawn cid transactionId peer deadline)
    (hrun : Prog.Runs (storeSem content anyFault) op.body past.1 r w') :
    w'.Withdrawn cid transactionId peer deadline := by
  have hvalid : ∀ baseline ∈ op.baselines, baseline.Valid :=
    fun baseline hmem => ((soundArgs_of_allowed hinv hpre).baselines baseline hmem).1
  let remembered (proc : Process Cid) : Prop :=
    Marked (transactionKey cid transactionId (some peer)) deadline proc.abortedTransactions
  have hholds : (withdrawnPolicy cid transactionId peer remembered).Holds past.1 :=
    (withdrawnPolicy_holds h.remembers).mpr h.unlisted
  -- an upload that is undone puts back baselines that do not list the transaction
  have hundone : ∀ {id : AdmissionId}, op.undoes = true → op.own = some id →
      (past.1.token cid = some id →
        ∀ baseline ∈ op.baselines, ¬ baseline.Lists cid transactionId peer) →
      w'.Withdrawn cid transactionId peer deadline := by
    intro id hundoes hown hlists
    have howners : op.leavesOwners = true := by cases op <;> first | rfl | cases hundoes
    have hmarkers : op.leavesMarkers = true := by cases op <;> first | rfl | cases hundoes
    have hundoing : (undoingPolicy cid transactionId peer id (past.1.token cid)
        remembered).Holds past.1 := by
      refine ⟨fun cid' heq record hget => ⟨?_, fun hid => ?_⟩, fun _ => False.elim,
        h.remembers, fun _ => False.elim⟩
      · exact hholds.record cid' heq record hget
      · rw [← heq, World.token, hget]
        exact hid
    exact withdrawn_of_safe
      ((permits_undoingPolicy hundoes hown hvalid hlists).safe howners hmarkers hvalid) hundoing
      (fun stored hrecord => (hrecord rfl stored rfl).1) (fun _ hproc => hproc) hrun
  have hcreates : ∀ record, op = .createIfAbsent record → record.replicaStage = none := by
    rintro record rfl
    obtain ⟨_, _, _, _, _, rfl⟩ := hpre
    rfl
  by_cases howners : op.leavesOwners = true
  · by_cases hmarkers : op.leavesMarkers = true
    · cases hundoes : op.undoes with
      | false =>
          exact withdrawn_of_safe ((permits_withdrawnPolicy hmarkers hundoes hcreates).safe
            howners hmarkers hvalid) hholds (fun stored hrecord => hrecord rfl stored rfl)
            (fun _ hproc => hproc) hrun
      | true =>
          cases op with
          | rollbackAdmitted baselines id =>
              exact hundone rfl rfl fun htoken baseline hmem hlists =>
                hrestages ⟨htoken, baseline, hmem, hlists⟩
          | finalizeAdmitted cids baselines reports id settledAt =>
              rcases r with err | records
              · exact hundone rfl rfl fun htoken baseline hmem hlists =>
                  hrestages ⟨htoken, baseline, hmem, hlists⟩
              · have hfinal := Prog.wp_iff_runs.mp (wp_finalizeAdmitted_ok
                  (fun _ howns => withdrawnPolicy_owns howns rfl rfl)
                  (fun _ howns => withdrawnPolicy_owns howns rfl rfl) hholds) _ w' hrun records rfl
                exact ⟨hfinal.process, (withdrawnPolicy_holds hfinal.process).mp hfinal⟩
          | _ => cases hundoes
    · cases op with
      | stageReplica options name => exact withdrawn_of_stage hleaves.1 hleaves.2 h hrun
      | abortReplica options =>
          exact withdrawn_of_abort hleaves.1 hleaves.2.1 hleaves.2.2 h hrun
      | _ => exact absurd rfl hmarkers
  · obtain ⟨hfiles, haborted⟩ := same_of_owners (Bool.eq_false_iff.mpr howners) hrun
    exact h.of_same hfiles haborted

end Operations

/-! ## The abort in every run -/

section Runs

variable {Cid : Type} [DecidableEq Cid] {content : Content Cid} {faults : Faults Cid}
variable {site : Site Cid} {cid : Cid} {transactionId : TransactionId} {peer : PeerId}
variable {deadline : Nat}

/-- The abort of the transaction returned to its peer. -/
def LifeEvent.Aborted (cid : Cid) (transactionId : TransactionId) (peer : PeerId) :
    LifeEvent Cid → Prop
  | .request _ (.node (.run (.abortReplica options))) _ (.ok _) _ =>
      options.cid = cid ∧ options.transactionId = transactionId ∧ options.peerId = some peer
  | _ => False

/-- The marker of the abort lives through the event. -/
def LifeEvent.LeavesMarker (cid : Cid) (transactionId : TransactionId) (peer : PeerId)
    (deadline : Nat) : LifeEvent Cid → Prop
  | .request _ o before _ _ =>
      ∀ op, o.local = some op → op.LeavesMarker cid transactionId peer deadline before
  | .reset .. => False

/-- An upload that took the file over from a stage of the transaction is undone. -/
def LifeEvent.Restages (cid : Cid) (transactionId : TransactionId) (peer : PeerId) :
    LifeEvent Cid → Prop
  | .request _ (.node (.run op)) before r _ => op.Restages cid transactionId peer before r
  | _ => False

theorem withdrawn_of_aborted {e : LifeEvent Cid}
    (haborted : LifeEvent.Aborted cid transactionId peer e)
    (hmarker : LifeEvent.LeavesMarker cid transactionId peer deadline e)
    (hstep : e.Of (lifeSem content faults) restarts) :
    e.after.Withdrawn cid transactionId peer deadline := by
  rcases e with ⟨t, (op | o) | o, before, r, after⟩ | ⟨before, after⟩
  · cases op with
    | abortReplica options =>
        rcases r with err | stored
        · exact haborted.elim
        obtain ⟨rfl, rfl, hpeer⟩ := haborted
        obtain ⟨hnow, hroom, hown⟩ := hmarker _ rfl
        rw [hpeer] at hown
        have hrun : Prog.Runs (storeSem content anyFault) (abortReplica options) before
            (.ok stored) after := runs_anyFault hstep
        have hmarked : Marked (transactionKey options.cid options.transactionId (some peer))
            deadline (before.remembering options).proc.abortedTransactions :=
          marked_rememberAbort hroom hnow (.inr (by rw [hpeer])) fun _ => hown rfl
        refine ⟨?_, ?_⟩
        · rcases Prog.wp_iff_runs.mp (wp_abortReplica_marked hmarked) _ _ hrun with
            hkept | ⟨⟨err, herr⟩, -⟩
          · exact hkept
          · cases herr
        · exact Prog.wp_iff_runs.mp wp_abortReplica_withdrawn _ _ hrun stored rfl
    | _ => exact haborted.elim
  · exact haborted.elim
  · exact haborted.elim
  · exact haborted.elim

theorem withdrawn_of_event {t : LifeTask} {o : LifeOp Cid} {before after : World Cid}
    {past : List (LifeEvent Cid)} {r : Except (LifecycleError Cid) o.Ret}
    (hinv : LifeInvariant (before, past)) (hpre : o.Allowed site t (before, past))
    (hmarker : LifeEvent.LeavesMarker cid transactionId peer deadline
      (.request t o before r after))
    (hrestages : ¬ LifeEvent.Restages cid transactionId peer (.request t o before r after))
    (hstep : lifeSem content faults o before r after)
    (h : before.Withdrawn cid transactionId peer deadline) :
    after.Withdrawn cid transactionId peer deadline := by
  rcases o with (op | question) | op
  · exact withdrawn_of_run hinv (hpre op rfl) (hmarker op rfl) hrestages h (runs_anyFault hstep)
  · have hsame : after = before := hstep
    rwa [hsame]
  · rcases lifeSem_cases hstep with ⟨op', r', hop, hrun⟩ | ⟨-, hsame⟩
    · have hrestages' : ¬ op'.Restages cid transactionId peer before r' := by
        cases op with
        | demoteCopy record =>
            cases hop
            exact id
        | _ => cases hop
      exact withdrawn_of_run hinv (hpre op' hop) (hmarker op' hop) hrestages' h hrun
    · rwa [hsame]

/-- Once a peer aborted a transaction, and while its marker lives, no record of
the file lists the transaction as staged by the peer, in runs that undo no upload
which took the file over from such a stage. -/
theorem abort_final {w₀ : World Cid} (h₀ : w₀.Starting)
    {c : Prog.Pool.Config LifeTask (LifeOp Cid) LifeOp.Ret (LifecycleError Cid) (LifePast Cid)}
    (hrun : LifeRun content faults site w₀ c) {past later : List (LifeEvent Cid)}
    {abort : LifeEvent Cid} (hevents : c.1.2 = past ++ abort :: later)
    (haborted : LifeEvent.Aborted cid transactionId peer abort)
    (hmarker : ∀ e ∈ abort :: later, LifeEvent.LeavesMarker cid transactionId peer deadline e)
    (hrestages : ∀ e ∈ later, ¬ LifeEvent.Restages cid transactionId peer e) :
    ¬ c.1.1.Stages cid transactionId (some peer) := by
  have hlawful := (coexistence h₀ hrun).2
  have hleads := Prog.Pool.leads_of_reach hrun
  rw [hevents] at hlawful hleads
  have hfirst := withdrawn_of_aborted haborted (hmarker abort List.mem_cons_self) hleads.split.2
  refine (hleads.rest.invariant (·.Withdrawn cid transactionId peer deadline) hfirst
    fun e hmem hof hw => ?_).unlisted
  have hkeeps := hmarker e (List.mem_cons_of_mem _ hmem)
  obtain ⟨front, rest, rfl⟩ := List.append_of_mem hmem
  rcases e with ⟨t, o, before, r, after⟩ | ⟨before, after⟩
  · obtain ⟨hinv, hpre, hstep⟩ :=
      hlawful (past ++ abort :: front) rest t o before r after (by simp)
    exact withdrawn_of_event hinv hpre hkeeps (hrestages _ hmem) hstep hw
  · exact hkeeps.elim

end Runs

/-! ## An upload between stage and abort -/

namespace TakenOver

open OwnedUpload (site answers)

def stage : ReplicaStageTarget Nat := ⟨7, "strict", 50, 10, some "peer"⟩

def abort : SettleReplicaOptions Nat := ⟨7, "strict", 20, 40, some "peer"⟩

def request : UploadRequest Nat :=
  { admissionId := "upload", claimed := true, confirmationRequired := false, temporaryTtlMs := 5
    files := [⟨7, "file", 1, 1, none⟩]
    requireQuorumOnUpload := true, now := 12, settledAt := 13 }

/-- A peer stages the file, and an upload of this node has the same content. -/
def moves : List (Prog.Pool.Move LifeTask (LifeOp Nat) LifeOp.Ret (LifecycleError Nat)) :=
  [.spawn (.other 0) (Job.life (LocalOp.importBlocks {7}).job),
    .act (.other 0),
    .spawn (.other 1) (Job.life (LocalOp.stageReplica stage "7").job),
    .act (.other 1),
    .spawn (.upload "upload") (Job.life (uploadHandler request >>= fun _ => pure ())),
    .spawn (.other 2) (Job.life (LocalOp.abortReplica abort).job),
    .spawn (.other 3) (Job.life (LocalOp.stageReplica stage "7").job)]

/-- The node after these tasks took a step each. -/
def after (ts : List LifeTask) : LifePast Nat :=
  (playLife Content.flat answers World.empty (moves ++ ts.map .act)).1

theorem entries {t : LifeTask} {p : Life Nat Unit} (hmem : .spawn t p ∈ moves) :
    LifeEntry site t p := by
  simp only [moves, List.mem_cons, reduceCtorEq, false_or, List.not_mem_nil, or_false,
    Prog.Pool.Move.spawn.injEq] at hmem
  rcases hmem with ⟨rfl, rfl⟩ | ⟨rfl, rfl⟩ | ⟨rfl, rfl⟩ | ⟨rfl, rfl⟩ | ⟨rfl, rfl⟩
  · exact .request 0 (.importBlocks _) rfl
  · exact .request 1 (.stageReplica _ _) rfl
  · exact .upload request
  · exact .request 2 (.abortReplica _) rfl
  · exact .request 3 (.stageReplica _ _) rfl

theorem lifeRun_acts (ts : List LifeTask) : LifeRun Content.flat noFault site World.empty
    (playLife Content.flat answers World.empty (moves ++ ts.map .act)) := by
  refine lifeRun_playLife fun t p hmem => entries ?_
  rcases List.mem_append.mp hmem with hmem | hmem
  · exact hmem
  · obtain ⟨_, -, heq⟩ := List.mem_map.mp hmem
    cases heq

/-- The upload takes the copy over before the abort, and is undone after it. -/
def undone : List LifeTask :=
  [.upload "upload", .upload "upload", .upload "upload", .other 2, .upload "upload"]

end TakenOver

open TakenOver in
/-- The copy of an aborted transaction is prepared again when the upload that
took it over is undone. -/
theorem aborted_transaction_back :
    LifeRun Content.flat noFault OwnedUpload.site World.empty
      (playLife Content.flat OwnedUpload.answers World.empty (moves ++ undone.map .act)) ∧
    ∃ past abort later, (after undone).2 = past ++ abort :: later ∧
      LifeEvent.Aborted 7 "strict" "peer" abort ∧
      (∀ e ∈ abort :: later, LifeEvent.LeavesMarker 7 "strict" "peer" 60 e) ∧
      (after undone).1.Stages 7 "strict" (some "peer") := by
  refine ⟨lifeRun_acts undone, (after (undone.take 3)).2, _, [_], rfl, ⟨rfl, rfl, rfl⟩, ?_,
    _, rfl, by decide, rfl⟩
  intro e hmem
  simp only [List.mem_cons, List.not_mem_nil, or_false] at hmem
  rcases hmem with rfl | rfl
  · rintro _ ⟨⟩
    exact ⟨by decide, by decide, fun _ => by decide⟩
  · rintro _ ⟨⟩
    trivial

open TakenOver in
/-- Without such an upload a stage that arrives after the abort is refused. -/
theorem abort_final_late_stage :
    ¬ (after [.other 2, .other 3]).1.Stages 7 "strict" (some "peer") := by
  have hstart : (World.empty : World Nat).Starting := ⟨rfl, rfl⟩
  have hevents : ∃ answer restaged, (after [.other 2, .other 3]).2 = (after []).2 ++
      .request (.other 2) (.node (.run (.abortReplica abort))) (after []).1 (.ok answer)
        (after [.other 2]).1 ::
      [.request (.other 3) (.node (.run (.stageReplica stage "7"))) (after [.other 2]).1
        restaged (after [.other 2, .other 3]).1] := ⟨_, _, rfl⟩
  obtain ⟨answer, restaged, hevents⟩ := hevents
  have hmarker : ∀ e ∈ Prog.Pool.Event.request (.other 2)
      (.node (.run (.abortReplica abort))) (after []).1 (.ok answer) (after [.other 2]).1 ::
      [.request (.other 3) (.node (.run (.stageReplica stage "7"))) (after [.other 2]).1
        restaged (after [.other 2, .other 3]).1],
      LifeEvent.LeavesMarker 7 "strict" "peer" 60 e := by
    intro e hmem
    simp only [List.mem_cons, List.not_mem_nil, or_false] at hmem
    rcases hmem with rfl | rfl
    · rintro _ ⟨⟩
      exact ⟨by decide, by decide, fun _ => by decide⟩
    · rintro _ ⟨⟩
      exact ⟨by decide, by decide⟩
  refine abort_final hstart (lifeRun_acts [.other 2, .other 3]) hevents ⟨rfl, rfl, rfl⟩ hmarker ?_
  intro e hmem
  rw [List.mem_singleton] at hmem
  subst hmem
  exact id

end IpfsNode
