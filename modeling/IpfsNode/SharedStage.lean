import IpfsNode.Admission
import IpfsNode.GcRun

/-!
# A stage that transactions share

The first transaction that stages a copy pins it and remembers what it found;
later ones join, and each abort withdraws one claim. The claims are a set that
the sequence of calls determines (`NodeEvent.claims`), and the record lists
exactly this set: `SharedStage` relates a node to the baseline and the claims,
and every call that returns moves it as the set moves.

A commit ends this: from then on the copy is permanent for everything that can
still be asked in the name of its transactions, and for the collector.
-/

namespace IpfsNode

/-! ## Calls -/

section Calls

variable {T Cid : Type}

/-- What happened at a node. -/
abbrev NodeEvent (T Cid : Type) :=
  Prog.Pool.Event T (NodeOp Cid) NodeOp.Ret (LifecycleError Cid) (World Cid)

/-- A call that stages or aborts a copy of the CID. A stage may fail in any way;
an abort returns, or refuses a peer that does not own the claim. -/
def NodeEvent.IsStageCall (cid : Cid) : NodeEvent T Cid → Prop
  | .request _ (.run (.stageReplica options _)) _ _ _ => options.cid = cid
  | .request _ (.run (.abortReplica options)) _ answer _ => options.cid = cid ∧
      ((∃ record, answer = .ok record) ∨ ∃ id, answer = .error (.stagedByAnotherPeer id))
  | .request .. => False
  | .reset _ _ => True

/-- The transactions staged and not aborted, after one more call. -/
def NodeEvent.claims (claims : Finset TransactionId) : NodeEvent T Cid → Finset TransactionId
  | .request _ (.run (.stageReplica options _)) _ (.ok _) _ =>
      insert options.transactionId claims
  | .request _ (.run (.abortReplica options)) _ (.ok _) _ => claims.erase options.transactionId
  | _ => claims

/-- The record apart from its revision, its sizes and where the copy is. -/
def FileRecord.lifecycle (record : FileRecord Cid) : FileRecord Cid :=
  { record with
    fileSize := 0
    storedBytes := 0
    protectedBytes := none
    pinned := false
    heldLocally := false
    revision := none }

/-- What a stage takes over from the record it finds. -/
def FileRecord.inherited (record : FileRecord Cid) :
    String × Nat × List String × Option AdmissionId × Option Nat :=
  (record.name, record.createdAt, record.replicas, record.admissionId, record.admissionSettledAt)

/-- The record lists the claims, and remembers the record `old` from before. -/
structure PreparedFrom (old : Option (FileRecord Cid)) (claims : Finset TransactionId)
    (record : FileRecord Cid) (stage : ReplicaStage) : Prop where
  staged : record.replicaStage = some stage
  claims : stage.transactionIds.toFinset = claims
  previous : stage.previous = old.map fun old =>
    { expiresAt := old.expiresAt, confirmedAt := old.confirmedAt }
  inherited : ∀ before, old = some before → record.inherited = before.inherited

theorem PreparedFrom.stamped {old : Option (FileRecord Cid)} {claims : Finset TransactionId}
    {record : FileRecord Cid} {stage : ReplicaStage} (h : PreparedFrom old claims record stage)
    (n : Nat) : PreparedFrom old claims (record.stamped n) stage :=
  ⟨h.staged, h.claims, h.previous, h.inherited⟩

end Calls

section States

variable {Cid : Type} [DecidableEq Cid]

/-- Record, apart from its revision, and pin of the file are the same. -/
structure World.Matches (w w' : World Cid) (cid : Cid) : Prop where
  record : (w'.files.get cid).map FileRecord.unstamped =
    (w.files.get cid).map FileRecord.unstamped
  pin : cid ∈ w'.pins ↔ cid ∈ w.pins

/-- The node is as the first stage found it. -/
structure AtBaseline (w₀ w : World Cid) (cid : Cid) : Prop where
  record : (w.files.get cid).map FileRecord.lifecycle =
    (w₀.files.get cid).map FileRecord.lifecycle
  pin : cid ∉ w.pins

/-- The copy is pinned, and recorded for exactly these transactions. -/
structure Prepared (w₀ w : World Cid) (cid : Cid) (claims : Finset TransactionId) : Prop where
  record : ∃ record stage, w.files.get cid = some record ∧
    PreparedFrom (w₀.files.get cid) claims record stage
  pin : cid ∈ w.pins

/-- What the claims say about the node. -/
structure SharedStage (w₀ w : World Cid) (cid : Cid) (claims : Finset TransactionId) : Prop where
  empty : claims = ∅ → AtBaseline w₀ w cid
  prepared : claims ≠ ∅ → Prepared w₀ w cid claims

variable {w₀ w w' : World Cid} {cid : Cid} {claims : Finset TransactionId}

theorem World.Matches.refl (w : World Cid) (cid : Cid) : w.Matches w cid := ⟨rfl, Iff.rfl⟩

theorem SharedStage.of_matches (h : SharedStage w₀ w cid claims) (hsame : w.Matches w' cid) :
    SharedStage w₀ w' cid claims := by
  refine ⟨fun hempty => ?_, fun hne => ?_⟩
  · obtain ⟨hrecord, hpin⟩ := h.empty hempty
    refine ⟨?_, fun hmem => hpin (hsame.pin.mp hmem)⟩
    have hlifecycle : ∀ files : Option (FileRecord Cid), files.map FileRecord.lifecycle =
        (files.map FileRecord.unstamped).map FileRecord.lifecycle := by
      intro files
      cases files <;> rfl
    rw [hlifecycle, hsame.record, ← hlifecycle, hrecord]
  · obtain ⟨⟨record, stage, hget, hprepared⟩, hpin⟩ := h.prepared hne
    refine ⟨?_, hsame.pin.mpr hpin⟩
    have hrecord := hsame.record
    rw [hget] at hrecord
    obtain ⟨record', hget', heq⟩ := Option.map_eq_some_iff.mp hrecord
    have hstage : record'.replicaStage = record.replicaStage :=
      (congrArg FileRecord.replicaStage heq :)
    have hinherited : record'.inherited = record.inherited :=
      (congrArg FileRecord.inherited heq :)
    exact ⟨record', stage, hget', hstage.trans hprepared.staged, hprepared.claims,
      hprepared.previous, fun before hbefore => hinherited.trans (hprepared.inherited before hbefore)⟩

end States

/-! ## Stage -/

section Stage

variable {Cid : Type} [DecidableEq Cid] {content : Content Cid} {faults : Faults Cid}
variable {w₀ w w' : World Cid} {claims : Finset TransactionId}
variable {options : ReplicaStageTarget Cid} {name : String}

/-- A stage that cannot be stored puts record and pin back. -/
theorem wp_restoreStageWrite {α : Type} (hfaults : faults.Ordinary)
    {baseline : UploadBaseline Cid} (hvalid : baseline.Valid) (err : LifecycleError Cid)
    {Q : Except (LifecycleError Cid) α → World Cid → Prop}
    (h : ∀ w', (w'.files.get baseline.cid).map FileRecord.unstamped =
        baseline.previous.map FileRecord.unstamped →
      (baseline.cid ∈ w'.pins ↔ baseline.cid ∈ w.pins ∧ baseline.createdPin = false) →
      Q (.error err) w') :
    Prog.wp (storeSem content faults)
      (restoreStageWrite baseline.cid baseline.previous baseline.createdPin err) Q w := by
  obtain ⟨removed, w₁, hunpinned, hpin⟩ : ∃ removed w₁, Prog.run (serve content)
      (if baseline.createdPin then unpinFile baseline.cid else pure false) w =
        (.ok removed, w₁) ∧
      (baseline.cid ∈ w₁.pins ↔ baseline.cid ∈ w.pins ∧ baseline.createdPin = false) := by
    cases hcreated : baseline.createdPin with
    | true =>
        rw [if_pos rfl, run_unpinFile]
        exact ⟨_, _, rfl, by simp⟩
    | false =>
        rw [if_neg Bool.false_ne_true]
        exact ⟨_, _, rfl, by simp⟩
  refine Prog.wp_bind.mpr (Prog.wp_attempt.mpr ((wp_compensating hfaults).mpr ?_))
  rw [hunpinned]
  show Prog.wp _ _ _ w₁
  refine Prog.wp_bind.mpr (Prog.wp_attempt.mpr ((wp_compensating hfaults).mpr ?_))
  obtain ⟨w₂, hrun, hrecord, -, hpins, -⟩ := run_restoreRecord hvalid w₁
  rw [hrun]
  exact h w₂ hrecord (by rw [hpins]; exact hpin)

/-- The copy is pinned under the given record, or nothing changed. -/
def StageResult (cid : Cid) (record : DagStats → FileRecord Cid) (w : World Cid)
    (r : Except (LifecycleError Cid) (ReplicaStageResult Cid)) (w' : World Cid) : Prop :=
  match r with
  | .ok _ => cid ∈ w'.pins ∧
      ∃ stats n, w'.files.get cid = some ((record stats).stamped n)
  | .error _ => w.Matches w' cid

theorem wp_joinStage (hfaults : faults.Ordinary) {previous : FileRecord Cid}
    {stage : ReplicaStage} (hget : w.files.get options.cid = some previous)
    (hpin : options.cid ∈ w.pins) :
    Prog.wp (storeSem content faults) (joinStage options previous stage)
      (StageResult options.cid (fun _ => joinedRecord options previous stage) w) w := by
  have hcid : previous.cid = options.cid := Registry.cid_of_get hget
  have hsame : w.pin content options.cid = w := if_pos hpin
  have hvalid : (⟨options.cid, some previous, false⟩ : UploadBaseline Cid).Valid := by
    rintro record ⟨⟩
    exact ⟨hcid, Registry.valid_of_get hget⟩
  -- the pin belongs to the other transactions, and stays
  have hrestore : ∀ (w₁ : World Cid) err, w₁.pins = w.pins →
      Prog.wp (storeSem content faults)
        (restoreStageWrite options.cid (some previous) false err)
        (StageResult options.cid (fun _ => joinedRecord options previous stage) w) w₁ := by
    intro w₁ err hpins
    refine wp_restoreStageWrite hfaults hvalid err fun w' hrecord hpin' => ?_
    refine ⟨by rw [hget]; exact hrecord, hpin'.trans ?_⟩
    rw [hpins]
    exact and_iff_left rfl
  unfold joinStage
  split
  · exact .refl w _
  · refine Prog.wp_bind.mpr (wp_pinFile ?_ (.refl w _))
    rw [hsame]
    refine Prog.wp_tryCatch.mpr (Prog.wp_bind.mpr (wp_save (fun h => ?_) (fun h => ?_) fun err => ?_))
    · have hput : (w.put (joinedRecord options previous stage) h).files.get options.cid =
          some ((joinedRecord options previous stage).stamped w.nextRevision) :=
        World.get_put.trans (if_pos hcid.symm)
      exact ⟨hpin, ⟨0, 0⟩, _, hput⟩
    · exact hrestore _ _ rfl
    · exact hrestore _ _ rfl

theorem wp_beginStage (hfaults : faults.Ordinary) (hpin : options.cid ∉ w.pins)
    (hexpired : ∀ record, w.files.get options.cid = some record → record.state = .expired) :
    Prog.wp (storeSem content faults) (beginStage options name (w.files.get options.cid))
      (StageResult options.cid (stagedRecord options (w.files.get options.cid) name) w) w := by
  have hvalid : (⟨options.cid, w.files.get options.cid, true⟩ : UploadBaseline Cid).Valid :=
    fun _ hget => ⟨Registry.cid_of_get hget, Registry.valid_of_get hget⟩
  -- the pin was not there before
  have hrestore : ∀ (w₁ : World Cid) err,
      Prog.wp (storeSem content faults)
        (restoreStageWrite options.cid (w.files.get options.cid) true err)
        (StageResult options.cid (stagedRecord options (w.files.get options.cid) name) w) w₁ := by
    intro w₁ err
    refine wp_restoreStageWrite hfaults hvalid err fun w' hrecord hpin' => ?_
    refine ⟨hrecord, hpin'.trans (iff_of_false ?_ hpin)⟩
    exact fun h => Bool.noConfusion h.2
  refine Prog.wp_bind.mpr (wp_isDirectlyPinned ?_ (.refl w _))
  have hnew : (decide (options.cid ∈ w.pins)
      || (w.files.get options.cid).any (·.state = .confirmed)) = false := by
    rw [decide_eq_false hpin, Bool.false_or, Option.any_eq_false]
    intro record hget
    rw [hexpired record hget]
    rfl
  show Prog.wp _ (ite _ _ _) _ w
  rw [hnew, if_neg Bool.false_ne_true]
  refine Prog.wp_bind.mpr (wp_pinFile ?_ (.refl w _))
  rw [decide_eq_true hpin]
  refine Prog.wp_tryCatch.mpr (Prog.wp_bind.mpr (wp_statDag (fun _ => ?_) fun err => ?_))
  · refine Prog.wp_bind.mpr (wp_save (fun h => ?_) (fun h => ?_) fun err => ?_)
    · refine ⟨?_, ⟨_, _⟩, _, World.get_put.trans (if_pos rfl)⟩
      rw [World.pins_put, World.pins_pin]
      exact Finset.mem_insert_self _ _
    · exact hrestore _ _
    · exact hrestore _ _
  · exact hrestore _ _

omit [DecidableEq Cid] in
theorem PreparedFrom.joined {old : Option (FileRecord Cid)} {record : FileRecord Cid}
    {stage : ReplicaStage} (h : PreparedFrom old claims record stage) :
    ∃ stage', PreparedFrom old (insert options.transactionId claims)
      (joinedRecord options record stage) stage' := by
  refine ⟨_, rfl, ?_, h.previous, h.inherited⟩
  dsimp only
  split
  · rename_i hlisted
    have hmem : options.transactionId ∈ claims := by
      rw [← h.claims]
      exact List.mem_toFinset.mpr hlisted
    rw [Finset.insert_eq_of_mem hmem, h.claims]
  · rw [List.toFinset_append, h.claims, Finset.insert_eq, Finset.union_comm]
    rfl

omit [DecidableEq Cid] in
/-- The first transaction remembers what it found. -/
theorem preparedFrom_staged {old current : Option (FileRecord Cid)} (stats : DagStats)
    (h : current.map FileRecord.lifecycle = old.map FileRecord.lifecycle) :
    ∃ stage, PreparedFrom old {options.transactionId}
      (stagedRecord options current name stats) stage := by
  refine ⟨_, rfl, rfl, ?_, ?_⟩
  · have hold := congrArg (Option.map fun record : FileRecord Cid =>
      (⟨record.expiresAt, record.confirmedAt⟩ : ReplicaStageBaseline)) h
    rw [Option.map_map, Option.map_map] at hold
    exact hold
  · rintro before rfl
    obtain ⟨record, rfl, heq⟩ := Option.map_eq_some_iff.mp h
    exact (congrArg FileRecord.inherited heq :)

/-- A stage that returns adds its transaction to the claims, and one that fails
changes nothing. -/
theorem wp_stageReplica_shared (hfaults : faults.Ordinary)
    (hbase : ∀ record, w₀.files.get options.cid = some record → record.state = .expired)
    (h : SharedStage w₀ w options.cid claims) :
    Prog.wp (storeSem content faults) (stageReplica options name) (fun r w' =>
      match r with
      | .ok _ => SharedStage w₀ w' options.cid (insert options.transactionId claims)
      | .error _ => SharedStage w₀ w' options.cid claims) w := by
  refine Prog.wp_bind.mpr (wp_request ?_ (fun h => by cases h) (fun h => by cases h))
  set pruned := (StoreOp.effect content (.wasAborted options.cid options.transactionId
    options.originPeerId options.now) w).2
  have hpruned : SharedStage w₀ pruned options.cid claims := h.of_matches ⟨rfl, Iff.rfl⟩
  -- the claims after a stage of the given record, and after one that failed
  have hresult : ∀ (record : DagStats → FileRecord Cid) r w',
      (∀ stats, ∃ stage, PreparedFrom (w₀.files.get options.cid)
        (insert options.transactionId claims) (record stats) stage) →
      StageResult options.cid record pruned r w' →
      (match r with
        | .ok _ => SharedStage w₀ w' options.cid (insert options.transactionId claims)
        | .error _ => SharedStage w₀ w' options.cid claims) := by
    intro record r w' hrecord hr
    cases r with
    | error err => exact hpruned.of_matches hr
    | ok result =>
        obtain ⟨hpin, stats, n, hget⟩ := hr
        obtain ⟨stage, hprepared⟩ := hrecord stats
        exact ⟨fun hempty => absurd hempty (Finset.insert_ne_empty _ _),
          fun _ => ⟨⟨_, stage, hget, hprepared.stamped n⟩, hpin⟩⟩
  show Prog.wp _ (ite _ _ _) _ pruned
  split
  · exact hpruned
  refine Prog.wp_bind.mpr (wp_get ?_ hpruned)
  show Prog.wp _ _ _ pruned
  by_cases hclaims : claims = ∅
  · obtain ⟨hrecord, hpin⟩ := hpruned.empty hclaims
    have hexpired : ∀ record, pruned.files.get options.cid = some record →
        record.state = .expired := by
      intro record hget
      rw [hget] at hrecord
      obtain ⟨old, hold, heq⟩ := Option.map_eq_some_iff.mp hrecord.symm
      exact (congrArg FileRecord.state heq :).symm.trans (hbase old hold)
    have hprepared : ∀ stats, ∃ stage, PreparedFrom (w₀.files.get options.cid)
        (insert options.transactionId claims)
        (stagedRecord options (pruned.files.get options.cid) name stats) stage := by
      intro stats
      rw [hclaims]
      exact preparedFrom_staged stats hrecord
    have hbegin : Prog.wp (storeSem content faults)
        (beginStage options name (pruned.files.get options.cid)) _ pruned :=
      Prog.wp_mono (fun r w' hr => hresult _ r w' hprepared hr)
        (wp_beginStage hfaults hpin hexpired)
    split
    · rename_i hget
      rw [hget] at hbegin
      exact hbegin
    · rename_i previous hget
      rw [hget] at hbegin
      have hstate := hexpired previous hget
      have hunstaged : previous.replicaStage = none := by
        have hvalid := Registry.valid_of_get hget
        unfold isFileRecord at hvalid
        cases hstage : previous.replicaStage with
        | none => rfl
        | some stage => simp [hstage, hstate] at hvalid
      rw [hunstaged]
      dsimp only
      rw [if_neg (by rw [hstate]; decide)]
      split
      · exact hpruned
      · exact hbegin
  · obtain ⟨⟨record, stage, hget, hprepared⟩, hpin⟩ := hpruned.prepared hclaims
    rw [hget]
    dsimp only
    rw [hprepared.staged]
    dsimp only
    exact Prog.wp_mono (fun r w' hr => hresult _ r w' (fun _ => hprepared.joined) hr)
      (wp_joinStage hfaults hget hpin)

end Stage

/-! ## Abort -/

section Abort

variable {Cid : Type} [DecidableEq Cid] {content : Content Cid} {faults : Faults Cid}
variable {w₀ w w' : World Cid} {cid : Cid} {claims : Finset TransactionId}
variable {options : SettleReplicaOptions Cid} {record : FileRecord Cid} {stage : ReplicaStage}

omit [DecidableEq Cid] in
theorem PreparedFrom.unclaimed {old : Option (FileRecord Cid)} {transactionId : TransactionId}
    (h : PreparedFrom old claims record stage) :
    ∃ stage', PreparedFrom old (claims.erase transactionId)
      (unclaimedRecord record stage transactionId) stage' := by
  refine ⟨_, rfl, ?_, h.previous, h.inherited⟩
  rw [← h.claims]
  ext id
  simp [and_comm]

/-- What the stage inherited and remembers is what it found. -/
theorem lifecycle_unstaged (h : PreparedFrom (w₀.files.get cid) claims record stage)
    (hcid : record.cid = cid) {before : FileRecord Cid}
    (hbefore : w₀.files.get cid = some before) (hexpired : before.state = .expired) :
    (unstagedRecord record).lifecycle = before.lifecycle := by
  have hunstaged : before.replicaStage = none := by
    have hvalid := Registry.valid_of_get hbefore
    unfold isFileRecord at hvalid
    cases hstage : before.replicaStage with
    | none => rfl
    | some stage => simp [hstage, hexpired] at hvalid
  have hinherited := h.inherited before hbefore
  have hcid' : before.cid = cid := Registry.cid_of_get hbefore
  simp only [FileRecord.inherited, Prod.mk.injEq] at hinherited
  obtain ⟨hname, hcreated, hreplicas, hid, hsettled⟩ := hinherited
  have hprevious : record.replicaStage.bind (·.previous) =
      some ⟨before.expiresAt, before.confirmedAt⟩ := by
    rw [h.staged, Option.bind_some, h.previous, hbefore]
    rfl
  unfold unstagedRecord FileRecord.lifecycle
  rw [hprevious]
  simp only [Option.getD_some, hname, hcreated, hreplicas, hid, hsettled, hcid, ← hcid',
    hexpired, hunstaged]

/-- The last abort leads back to the baseline, if it returns. -/
theorem wp_restoreReplicaStage_shared
    (hbase : ∀ before, w₀.files.get cid = some before → before.state = .expired)
    (hget : w.files.get cid = some record)
    (h : PreparedFrom (w₀.files.get cid) claims record stage) :
    Prog.wp (storeSem content faults) (restoreReplicaStage record false) (fun r w' =>
      match r with
      | .ok _ => AtBaseline w₀ w' cid
      | .error err => ∀ id, err ≠ .stagedByAnotherPeer id) w := by
  have hcid : record.cid = cid := Registry.cid_of_get hget
  have hio : ∀ id, (.io : LifecycleError Cid) ≠ .stagedByAnotherPeer id := fun _ h => by cases h
  refine Prog.wp_bind.mpr (wp_unpinFile ?_ hio hio)
  rw [hcid]
  show Prog.wp _ (ite _ _ _) _ (w.unpin cid)
  have hunpinned : cid ∉ (w.unpin cid).pins := Finset.notMem_erase _ _
  split
  · rename_i hcreated
    have hnone : w₀.files.get cid = none := by
      have hprevious := h.previous
      rw [h.staged] at hcreated
      cases hold : w₀.files.get cid with
      | none => rfl
      | some before =>
          rw [hold] at hprevious
          simp [hprevious] at hcreated
    -- a removal that fails is compensated, and reported as an aggregate
    have hfail : ∀ (err : LifecycleError Cid) w₁, Prog.wp (storeSem content faults) (do
        let restored ← Prog.attempt (compensating (do
          let _ ← (if decide (cid ∈ w.pins) then pinFile cid else pure false)
          Locked.save record))
        throw (.aggregate (err :: failureOf restored)
          "Replica rollback failed and its staged state was restored"))
        (fun (r : Except (LifecycleError Cid) (Option (FileRecord Cid))) w' =>
          match r with
          | .ok _ => AtBaseline w₀ w' cid
          | .error err => ∀ id, err ≠ .stagedByAnotherPeer id) w₁ := by
      intro err w₁
      refine Prog.wp_bind.mpr (Prog.wp_attempt.mpr (Prog.wp_iff_runs.mpr fun r w₂ _ => ?_))
      exact fun _ h => by cases h
    refine Prog.wp_tryCatch.mpr (Prog.wp_bind.mpr (wp_remove ?_ (hfail _ _) (hfail _ _)))
    refine ⟨?_, hunpinned⟩
    rw [World.get_remove, if_pos rfl, hnone]
  · rename_i hkept
    refine Prog.wp_bind.mpr (wp_save_cases (fun hvalid => ?_) (fun _ => hio) hio
      fun _ _ h => by cases h)
    refine ⟨?_, hunpinned⟩
    have hput : ((w.unpin cid).put (unstagedRecord record) hvalid).files.get cid =
        some ((unstagedRecord record).stamped (w.unpin cid).nextRevision) :=
      World.get_put.trans (if_pos hcid.symm)
    rw [hput]
    cases hold : w₀.files.get cid with
    | none =>
        have hprevious := h.previous
        rw [hold] at hprevious
        simp [h.staged, hprevious] at hkept
    | some before =>
        exact congrArg some (lifecycle_unstaged h hcid hold (hbase before hold))

/-- An abort that returns takes its transaction from the claims, and one that is
refused changes nothing. -/
theorem wp_abortReplica_shared (hcid : options.cid = cid)
    (hbase : ∀ before, w₀.files.get cid = some before → before.state = .expired)
    (h : SharedStage w₀ w cid claims) :
    Prog.wp (storeSem content faults) (abortReplica options) (fun r w' =>
      match r with
      | .ok _ => SharedStage w₀ w' cid (claims.erase options.transactionId)
      | .error err => (∃ id, err = .stagedByAnotherPeer id) → SharedStage w₀ w' cid claims) w := by
  subst hcid
  refine Prog.wp_bind.mpr (wp_get ?_ (by rintro ⟨_, ⟨⟩⟩))
  dsimp only [Prog.thenPost]
  have hremembered : ∀ {α : Type} {k : Unit → Store Cid α}
      {Q : Except (LifecycleError Cid) α → World Cid → Prop},
      (∀ w₁ : World Cid, w₁.files = w.files → w₁.pins = w.pins →
        Prog.wp (storeSem content faults) (k ()) Q w₁) →
      Prog.wp (storeSem content faults) (rememberAborted options >>= k) Q w := by
    intro α k Q hk
    exact Prog.wp_bind.mpr (wp_request (hk _ rfl rfl) (fun h => by cases h) (fun h => by cases h))
  split
  · rename_i hnone
    -- the transaction is not among the claims
    have hclaims : claims.erase options.transactionId = claims := by
      refine Finset.erase_eq_of_notMem fun hmem => ?_
      have hne : claims ≠ ∅ := fun hempty => by simp [hempty] at hmem
      obtain ⟨⟨record, stage, hget, hprepared⟩, -⟩ := h.prepared hne
      rw [← hprepared.claims] at hmem
      have hlisted := FileRecord.stageOf_eq_some.mpr ⟨hprepared.staged, List.mem_toFinset.mp hmem⟩
      rw [hget, Option.bind_some, hlisted] at hnone
      cases hnone
    refine hremembered fun w₁ hfiles hpins => ?_
    show SharedStage w₀ w₁ options.cid (claims.erase options.transactionId)
    rw [hclaims]
    exact h.of_matches ⟨by rw [hfiles], by rw [hpins]⟩
  · rename_i record stage hmatch
    obtain ⟨record', hget, hstageOf⟩ := Option.bind_eq_some_iff.mp hmatch
    obtain ⟨stage', hstage', heq⟩ := Option.map_eq_some_iff.mp hstageOf
    obtain ⟨rfl, rfl⟩ := Prod.mk.inj heq
    obtain ⟨hstage, hlisted⟩ := FileRecord.stageOf_eq_some.mp hstage'
    have hne : claims ≠ ∅ := by
      intro hempty
      obtain ⟨hrecord, -⟩ := h.empty hempty
      rw [hget] at hrecord
      obtain ⟨before, hbefore, heq⟩ := Option.map_eq_some_iff.mp hrecord.symm
      have hstate : record'.state = .expired :=
        (congrArg FileRecord.state heq :).symm.trans (hbase before hbefore)
      have hvalid := Registry.valid_of_get hget
      unfold isFileRecord at hvalid
      simp [hstage, hstate] at hvalid
    obtain ⟨⟨record, stage, hget', hprepared⟩, hpin⟩ := h.prepared hne
    rw [hget] at hget'
    cases hget'
    have hsame : stage' = stage := Option.some.inj (hstage.symm.trans hprepared.staged)
    subst hsame
    split
    · exact fun _ => h
    · refine hremembered fun w₁ hfiles hpins => ?_
      have hget₁ : w₁.files.get options.cid = some record' := by rw [hfiles, hget]
      split
      · rename_i hlast
        have hempty : claims.erase options.transactionId = ∅ := by
          rw [← hprepared.claims, ← Finset.not_nonempty_iff_eq_empty]
          rintro ⟨id, hmem⟩
          rw [Finset.mem_erase, List.mem_toFinset] at hmem
          have hall : ∀ id ∈ stage'.transactionIds, id = options.transactionId := by
            simpa using hlast
          exact hmem.1 (hall id hmem.2)
        refine Prog.wp_mono ?_ (wp_restoreReplicaStage_shared hbase hget₁ hprepared)
        rintro (err | restored) w' hr
        · rintro ⟨id, rfl⟩
          exact absurd rfl (hr id)
        · exact ⟨fun _ => hr, fun hnot => absurd hempty hnot⟩
      · rename_i hleft
        have hnonempty : claims.erase options.transactionId ≠ ∅ := by
          have hleft : ∃ id ∈ stage'.transactionIds, id ≠ options.transactionId := by
            simpa using hleft
          obtain ⟨id, hmem, hid⟩ := hleft
          rw [← hprepared.claims, ← Finset.nonempty_iff_ne_empty]
          exact ⟨id, Finset.mem_erase.mpr ⟨hid, List.mem_toFinset.mpr hmem⟩⟩
        refine Prog.wp_bind.mpr (wp_save_cases (fun hvalid => ?_) (fun _ => by rintro ⟨_, ⟨⟩⟩)
          (by rintro ⟨_, ⟨⟩⟩)
          fun _ => by rintro ⟨_, ⟨⟩⟩)
        obtain ⟨stage, hprepared'⟩ : ∃ stage, PreparedFrom (w₀.files.get options.cid)
            (claims.erase options.transactionId)
            (unclaimedRecord record' stage' options.transactionId) stage := hprepared.unclaimed
        have hcid : record'.cid = options.cid := Registry.cid_of_get hget
        have hput := (World.get_put (h := hvalid) (w := w₁)).trans (if_pos hcid.symm)
        refine ⟨fun hempty => absurd hempty hnonempty, fun _ => ⟨⟨_, stage, hput,
          hprepared'.stamped _⟩, ?_⟩⟩
        rw [World.pins_put, hpins]
        exact hpin

end Abort

/-! ## Commit -/

section Commit

variable {Cid : Type} [DecidableEq Cid] {content : Content Cid} {faults : Faults Cid}
variable {w₀ w w' : World Cid} {cid : Cid} {claims : Finset TransactionId}

/-- A commit that returns is one of a claim, and makes the copy permanent. -/
theorem wp_commitReplica_shared {options : SettleReplicaOptions Cid} (hcid : options.cid = cid)
    (hbase : ∀ before, w₀.files.get cid = some before → before.state = .expired)
    (h : SharedStage w₀ w cid claims) :
    Prog.wp (storeSem content faults) (commitReplica options) (fun r w' =>
      ∀ record, r = .ok record →
        options.transactionId ∈ claims ∧ w'.holdsDurably cid = true) w := by
  subst hcid
  refine Prog.wp_bind.mpr (wp_get ?_ fun _ h => by cases h)
  dsimp only [Prog.thenPost]
  by_cases hclaims : claims = ∅
  · obtain ⟨hrecord, -⟩ := h.empty hclaims
    split
    · exact fun _ h => by cases h
    · rename_i current hget
      rw [hget] at hrecord
      obtain ⟨before, hbefore, heq⟩ := Option.map_eq_some_iff.mp hrecord.symm
      have hstate : current.state = .expired :=
        (congrArg FileRecord.state heq :).symm.trans (hbase before hbefore)
      split
      · rw [if_neg (by simp [hstate])]
        exact fun _ h => by cases h
      · rename_i stage hstage
        have hvalid := Registry.valid_of_get hget
        unfold isFileRecord at hvalid
        simp [(FileRecord.stageOf_eq_some.mp hstage).1, hstate] at hvalid
  · obtain ⟨⟨record, stage, hget, hprepared⟩, hpin⟩ := h.prepared hclaims
    rw [hget]
    dsimp only
    split
    · have hstate : record.state = .temporary := by
        have hvalid := Registry.valid_of_get hget
        unfold isFileRecord at hvalid
        rw [hprepared.staged] at hvalid
        simp only [Bool.and_eq_true, decide_eq_true_eq] at hvalid
        exact hvalid.2.1.1.1.1
      rw [if_neg (by simp [hstate])]
      exact fun _ h => by cases h
    · rename_i stage' hstage
      obtain ⟨hstage, hlisted⟩ := FileRecord.stageOf_eq_some.mp hstage
      have hmem : options.transactionId ∈ claims := by
        rw [hprepared.staged] at hstage
        cases hstage
        rw [← hprepared.claims]
        exact List.mem_toFinset.mpr hlisted
      split
      · exact fun _ h => by cases h
      · refine Prog.wp_bind.mpr (wp_save (fun hvalid => ?_) (fun _ _ h => by cases h) fun _ _ h => by cases h)
        intro _ _
        have hcid : record.cid = options.cid := Registry.cid_of_get hget
        have hput := (World.get_put (h := hvalid) (w := w)).trans (if_pos hcid.symm)
        refine ⟨hmem, ?_⟩
        unfold World.holdsDurably
        rw [hput, Option.any_some, Bool.and_eq_true]
        exact ⟨decide_eq_true hpin, rfl⟩

/-! ## What can still be asked -/

variable {options : SettleReplicaOptions Cid}

omit [DecidableEq Cid] in
/-- A permanent copy is not staged. -/
theorem not_staged_of_durable {record : FileRecord Cid} {stage : ReplicaStage}
    (h : record.isDurable = true) : record.replicaStage ≠ some stage := by
  unfold FileRecord.isDurable at h
  intro hstage
  simp [hstage] at h

omit [DecidableEq Cid] in
theorem isDurable_stable {target : ReplicaStageTarget Cid} {record : FileRecord Cid} {name : String}
    {stats : DagStats} (h : record.isDurable = true) :
    (stableReplicaRecord target (some record) name stats).isDurable = true := by
  simp only [FileRecord.isDurable, Bool.and_eq_true, isAdmissionSettled] at h ⊢
  simp [stableReplicaRecord, h.1.2]

theorem stages_durablePolicy {target : ReplicaStageTarget Cid} {name : String} :
    (durablePolicy cid).Stages target name where
  prune _ _ := trivial
  join := by
    intro previous stage _ hread hstage heq
    obtain ⟨_, ⟨⟩, hdurable⟩ := hread.1 ((hread.2 previous rfl).symm.trans heq)
    exact absurd hstage (not_staged_of_durable hdurable)
  stable := by
    intro previous stats hread _ heq
    obtain ⟨record, rfl, hdurable⟩ := hread.1 heq
    exact ⟨_, rfl, isDurable_stable hdurable⟩
  staged := by
    intro previous stats _ hread _ hexpired heq
    obtain ⟨record, rfl, hdurable⟩ := hread.1 heq
    rw [FileRecord.isDurable, hexpired record rfl] at hdurable
    simp at hdurable

theorem safe_commitReplica_durablePolicy :
    Safe content (durablePolicy cid) (commitReplica options) := by
  refine safe_commitReplica fun current stage hread hstage heq => ?_
  obtain ⟨_, ⟨⟩, hdurable⟩ := hread.1 ((hread.2 current rfl).symm.trans heq)
  exact absurd (FileRecord.stageOf_eq_some.mp hstage).1 (not_staged_of_durable hdurable)

theorem safe_abortReplica_durablePolicy :
    Safe content (durablePolicy cid) (abortReplica options) := by
  refine safe_abortReplica (fun _ _ => trivial) fun current stage hread hstage _ => ?_
  have hne : current.cid ≠ cid := by
    intro heq
    obtain ⟨_, ⟨⟩, hdurable⟩ := hread.1 ((hread.2 current rfl).symm.trans heq)
    exact not_staged_of_durable hdurable (FileRecord.stageOf_eq_some.mp hstage).1
  exact ⟨fun _ => ⟨hne, fun heq => absurd heq hne, fun heq => absurd heq hne⟩,
    fun _ heq => absurd heq hne⟩

theorem safe_guardPin_durablePolicy (other : Cid) :
    Safe content (durablePolicy cid) (guardPin other) := by
  refine safe_guardPin fun current hread _ _ heq => ?_
  obtain ⟨_, ⟨⟩, hdurable⟩ := hread.1 ((hread.2 current rfl).symm.trans heq)
  refine ⟨_, rfl, ?_⟩
  simp only [FileRecord.isDurable, Bool.and_eq_true] at hdurable ⊢
  exact ⟨⟨⟨⟨hdurable.1.1.1.1, rfl⟩, hdurable.1.1.2⟩, hdurable.1.2⟩, hdurable.2⟩

theorem safe_releasePlanned_durablePolicy (record : FileRecord Cid) :
    Safe content (durablePolicy cid) (releasePlanned record) := by
  refine safe_releasePlanned fun current _ hread _ _ hstate _ => ?_
  have hne : record.cid ≠ cid := by
    intro heq
    obtain ⟨_, ⟨⟩, hdurable⟩ := hread.1 heq
    simp [FileRecord.isDurable, hstate] at hdurable
  have hne' : current.cid ≠ cid := fun heq => hne ((hread.2 current rfl).symm.trans heq)
  exact ⟨hne, fun heq => absurd heq hne', fun heq => absurd heq hne'⟩

theorem safe_cleanupReleased_durablePolicy {record : FileRecord Cid} (hne : record.cid ≠ cid) :
    Safe content (durablePolicy cid) (cleanupReleased record) :=
  safe_cleanupReleased fun _ _ _ heq => absurd heq hne

/-- What may follow a commit: stages, commits and aborts under any id and of any
peer, and collections. -/
inductive LaterEntry : Nat → Job Cid Unit → Prop
  | stage (n : Nat) (options : ReplicaStageTarget Cid) (name : String) :
      LaterEntry n (LocalOp.job (.stageReplica options name))
  | commit (n : Nat) (options : SettleReplicaOptions Cid) :
      LaterEntry n (LocalOp.job (.commitReplica options))
  | abort (n : Nat) (options : SettleReplicaOptions Cid) :
      LaterEntry n (LocalOp.job (.abortReplica options))
  | collect (n : Nat) (options : GcRunOptions) :
      LaterEntry n (runGarbageCollection options >>= fun _ => pure ())

/-- The operation keeps the permanent copy. -/
def KeepsCopy (content : Content Cid) (cid : Cid) : NodeOp Cid → World Cid → Prop
  | .run o, _ => Safe content (durablePolicy cid) o.body
  | .ask _, _ => True

theorem holds_of_keepsCopy {o : NodeOp Cid} {r : Except (LifecycleError Cid) o.Ret}
    (hw : (durablePolicy cid).Holds w) (hpre : KeepsCopy content cid o w)
    (hstep : nodeSem content faults o w r w') : (durablePolicy cid).Holds w' := by
  cases o with
  | run o => exact Safe.holds hpre hw hstep
  | ask o =>
      obtain rfl : w' = w := hstep
      exact hw

/-- A collection leaves the permanent copy alone: it releases other files only. -/
theorem collectsWith_durablePolicy (options : GcRunOptions) :
    CollectsWith (nodeSem content faults) (fun _ _ => True) (durablePolicy cid).Holds
      (KeepsCopy content cid) options (fun _ _ => True) (fun stored _ => stored.cid ≠ cid) where
  scan _ _ := safe_scanRegistry
  scans _ _ _ _ _ := trivial
  scanned_le _ _ _ _ _ := trivial
  scanned_step _ _ _ _ _ _ _ _ _ _ := trivial
  check _ _ _ _ _ _ := ⟨safe_isProtected _, safe_guardPin_durablePolicy _⟩
  release _ _ _ _ _ _ := safe_releasePlanned_durablePolicy _
  released := by
    intro record w stored w' hw _ hstep heq
    have hreleases := Prog.wp_iff_runs.mp wp_releasePlanned _ _ (runs_anyFault hstep)
    obtain ⟨-, current, n, hget, -, hstored⟩ := hreleases.stored stored rfl
    have hcurrent : current.cid = record.cid := Registry.cid_of_get hget
    have hcid : stored.cid = record.cid := by
      rcases hstored with rfl | rfl
      · exact hcurrent
      · exact hcurrent
    have hplanned : IsPlanned record w := by
      by_contra hnot
      exact (hreleases.idle hnot).2 stored rfl
    obtain ⟨current', hget', -, hstate, -⟩ := hplanned
    obtain ⟨_, hrecord, hdurable⟩ := hw.record record.cid (hcid.symm.trans heq)
    rw [hget'] at hrecord
    cases hrecord
    simp [FileRecord.isDurable, hstate] at hdurable
  own_le _ _ _ _ hown := hown
  own_step _ _ _ _ _ _ _ _ _ hown := hown
  collect _ _ := safe_request fun _ hw => ⟨hw.record, hw.pin, hw.process, fun _ => False.elim⟩
  cleanup _ _ _ hown := safe_cleanupReleased_durablePolicy hown

/-- Nothing that can still be asked withdraws a permanent copy. -/
theorem durable_of_later (hw : w.holdsDurably cid = true)
    {c : Prog.Pool.Config Nat (NodeOp Cid) NodeOp.Ret (LifecycleError Cid) (World Cid)}
    (hreach : Prog.Pool.Reach (fun _ => nodeSem content faults) LaterEntry restarts (w, []) c) :
    c.1.holdsDurably cid = true := by
  refine holds_durablePolicy.mp (Prog.Pool.invariant_of_pre (durablePolicy cid).Holds
    (fun _ _ _ _ _ hinv hpre hstep => holds_of_keepsCopy hinv hpre hstep)
    (fun n p hentry w₁ _ => ?_) (fun before after hbefore hreset => ?_)
    (holds_durablePolicy.mpr hw) hreach)
  · have hone : ∀ o : LocalOp Cid, Safe content (durablePolicy cid) o.body →
        Prog.wpi (nodeSem content faults) (fun _ _ => True) (durablePolicy cid).Holds
          (KeepsCopy content cid) o.job (fun _ _ => True) w₁ := by
      intro o hsafe
      refine Prog.wpi_bind.mpr (Prog.wpi_perform.mpr fun w₂ _ _ => ⟨hsafe, fun r w₃ _ => ?_⟩)
      cases r <;> trivial
    cases hentry with
    | stage options name => exact hone _ (safe_stageReplica stages_durablePolicy)
    | commit options => exact hone _ safe_commitReplica_durablePolicy
    | abort options => exact hone _ safe_abortReplica_durablePolicy
    | collect options =>
        refine Prog.wpi_bind.mpr (Prog.wpi_mono ?_
          (wpi_runGarbageCollection (collectsWith_durablePolicy options) w₁))
        rintro (err | report) w₂ -
        · trivial
        · trivial
  · have hreset : after = { before with proc := Process.fresh } := hreset
    subst hreset
    exact ⟨hbefore.record, hbefore.pin, trivial, fun _ => False.elim⟩

end Commit

/-! ## Sequences of calls -/

section Runs

variable {T Cid : Type} [DecidableEq Cid] {content : Content Cid}
variable {w₀ w : World Cid} {cid : Cid} {events : List (NodeEvent T Cid)}

theorem sharedStage_of_leads
    (hbase : ∀ record, w₀.files.get cid = some record → record.state = .expired)
    (hpin : cid ∉ w₀.pins)
    (hrun : Prog.Pool.Leads (nodeSem content ordinaryFault) restarts w₀ events w)
    (hcalls : ∀ e ∈ events, NodeEvent.IsStageCall cid e) :
    SharedStage w₀ w cid (events.foldl NodeEvent.claims ∅) := by
  have hordinary : (ordinaryFault : Faults Cid).Ordinary := fun _ => id
  induction hrun with
  | nil => exact ⟨fun _ => ⟨rfl, hpin⟩, fun hne => absurd rfl hne⟩
  | @snoc w₁ e events _ he hbefore ih =>
      have ih := ih fun e' hmem => hcalls e' (List.mem_append_left _ hmem)
      have hcall := hcalls e (by simp)
      subst hbefore
      rw [List.foldl_append, List.foldl_cons, List.foldl_nil]
      cases e with
      | reset before after =>
          obtain rfl : after = { before with proc := Process.fresh } := he
          exact ih.of_matches ⟨rfl, Iff.rfl⟩
      | request t o before answer after =>
          unfold NodeEvent.IsStageCall at hcall
          split at hcall
          · rename_i heq
            cases heq
            subst hcall
            have hstage := Prog.wp_iff_runs.mp (wp_stageReplica_shared hordinary hbase ih) _ _ he
            split at hstage
            · exact hstage
            · exact hstage
          · rename_i heq
            cases heq
            have habort := Prog.wp_iff_runs.mp (wp_abortReplica_shared hcall.1 hbase ih) _ _ he
            split at habort
            · exact habort
            · refine habort ?_
              rcases hcall.2 with ⟨record, hok⟩ | ⟨id, hrefused⟩
              · cases hok
              · exact ⟨id, Except.error.inj hrefused⟩
          · exact hcall.elim
          · rename_i heq
            cases heq

/-- Any sequence of stages and aborts of a CID that began without a copy. After
each call the record lists exactly the transactions staged and not aborted, the
copy is pinned while there are any, and without them record and pin are what the
first stage found. A commit that returns is one of these transactions, and the
copy is permanent from then on, whatever is asked for any transaction and however
often files are collected. -/
theorem shared_stage
    (hbase : ∀ record, w₀.files.get cid = some record → record.state = .expired)
    (hpin : cid ∉ w₀.pins)
    (hrun : Prog.Pool.Leads (nodeSem content ordinaryFault) restarts w₀ events w)
    (hcalls : ∀ e ∈ events, NodeEvent.IsStageCall cid e) :
    let claims := events.foldl NodeEvent.claims ∅
    (claims ≠ ∅ → cid ∈ w.pins ∧ ∃ record stage, w.files.get cid = some record ∧
      record.pinned = true ∧ record.replicaStage = some stage ∧
      stage.transactionIds.Nodup ∧ stage.transactionIds.toFinset = claims) ∧
    (claims = ∅ → cid ∉ w.pins ∧ (w.files.get cid).map FileRecord.lifecycle =
      (w₀.files.get cid).map FileRecord.lifecycle) ∧
    (∀ options record w', options.cid = cid →
      nodeSem content anyFault (.run (.commitReplica options)) w (.ok record) w' →
      options.transactionId ∈ claims ∧ w'.holdsDurably cid = true ∧
      ∀ c, Prog.Pool.Reach (fun _ => nodeSem content anyFault) LaterEntry restarts (w', []) c →
        c.1.holdsDurably cid = true) := by
  intro claims
  have hshared : SharedStage w₀ w cid claims := sharedStage_of_leads hbase hpin hrun hcalls
  refine ⟨fun hne => ?_, fun hempty => ?_, fun options record w' hcid hcommit => ?_⟩
  · obtain ⟨⟨record, stage, hget, hprepared⟩, hpinned⟩ := hshared.prepared hne
    have hvalid := Registry.valid_of_get hget
    unfold isFileRecord at hvalid
    rw [hprepared.staged] at hvalid
    simp only [Bool.and_eq_true, isReplicaStage, decide_eq_true_eq] at hvalid
    exact ⟨hpinned, record, stage, hget, hvalid.2.1.1.1.2, hprepared.staged,
      hvalid.2.2.1.1.2, hprepared.claims⟩
  · obtain ⟨hrecord, hunpinned⟩ := hshared.empty hempty
    exact ⟨hunpinned, hrecord⟩
  · obtain ⟨hclaim, hdurable⟩ := Prog.wp_iff_runs.mp
      (wp_commitReplica_shared hcid hbase hshared) _ _ hcommit record rfl
    exact ⟨hclaim, hdurable, fun c hreach => durable_of_later hdurable hreach⟩

end Runs

namespace TwoTransactions

def stageFirst : ReplicaStageTarget Nat :=
  { cid := 7, transactionId := "first", temporaryTtlMs := 10, now := 0, originPeerId := some "a" }

def stageSecond : ReplicaStageTarget Nat :=
  { cid := 7, transactionId := "second", temporaryTtlMs := 10, now := 0, originPeerId := some "b" }

def abortFirst : SettleReplicaOptions Nat :=
  { cid := 7, transactionId := "first", now := 1, tombstoneTtlMs := 10, peerId := some "a" }

def first : Except (LifecycleError Nat) (ReplicaStageResult Nat) × World Nat :=
  Prog.run (serve Content.flat) (stageReplica stageFirst "file") World.empty

def second : Except (LifecycleError Nat) (ReplicaStageResult Nat) × World Nat :=
  Prog.run (serve Content.flat) (stageReplica stageSecond "file") first.2

def aborted : Except (LifecycleError Nat) (Option (FileRecord Nat)) × World Nat :=
  Prog.run (serve Content.flat) (abortReplica abortFirst) second.2

def stagedFirst : NodeEvent Unit Nat :=
  .request () (.run (.stageReplica stageFirst "file")) World.empty first.1 first.2

def stagedSecond : NodeEvent Unit Nat :=
  .request () (.run (.stageReplica stageSecond "file")) first.2 second.1 second.2

def abortedFirst : NodeEvent Unit Nat :=
  .request () (.run (.abortReplica abortFirst)) second.2 aborted.1 aborted.2

def events : List (NodeEvent Unit Nat) := [stagedFirst, stagedSecond, abortedFirst]

theorem served {o : LocalOp Nat} {w : World Nat} : nodeSem Content.flat ordinaryFault (.run o) w
    (Prog.run (serve Content.flat) o.body w).1 (Prog.run (serve Content.flat) o.body w).2 :=
  nodeSem_noFault (runs_noFault.mpr rfl)

theorem stagedFirst_of : stagedFirst.Of (nodeSem Content.flat ordinaryFault) restarts := served

theorem stagedSecond_of : stagedSecond.Of (nodeSem Content.flat ordinaryFault) restarts := served

theorem abortedFirst_of : abortedFirst.Of (nodeSem Content.flat ordinaryFault) restarts := served

end TwoTransactions

open TwoTransactions in
/-- Two peers share a copy, and the first one withdraws: the record lists the second. -/
theorem shared_stage_twoTransactions : 7 ∈ aborted.2.pins ∧
    ∃ record stage, aborted.2.files.get 7 = some record ∧ record.pinned = true ∧
      record.replicaStage = some stage ∧ stage.transactionIds.Nodup ∧
      stage.transactionIds.toFinset = {"second"} := by
  have hrun : Prog.Pool.Leads (nodeSem Content.flat ordinaryFault) restarts World.empty
      TwoTransactions.events aborted.2 :=
    .snoc (.snoc (.snoc .nil stagedFirst_of rfl) stagedSecond_of rfl) abortedFirst_of rfl
  have hcalls : ∀ e ∈ TwoTransactions.events, NodeEvent.IsStageCall 7 e := by
    intro e hmem
    rcases List.mem_cons.mp hmem with rfl | hmem
    · rfl
    rcases List.mem_cons.mp hmem with rfl | hmem
    · rfl
    obtain rfl := List.mem_singleton.mp hmem
    exact ⟨rfl, .inl ⟨_, rfl⟩⟩
  have hclaims : TwoTransactions.events.foldl NodeEvent.claims ∅ = {"second"} := by decide
  have hshared := (shared_stage (by rintro record ⟨⟩) (by decide) hrun hcalls).1
  rw [hclaims] at hshared
  exact hshared (by decide)

end IpfsNode
