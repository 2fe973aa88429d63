import IpfsNode.Lifecycle

/-!
# Prepared replicas

A strict upload of another node stages a copy here before it decides. The copy
is pinned as `temporary` and lists every transaction that depends on it; a
commit makes it permanent, an abort withdraws one transaction, and the last
abort puts the CID back to what the first stage found. Each function is the
code that runs while the lock of the CID is held.
-/

namespace IpfsNode

section Origins

def withOrigin (previous : Option (List (TransactionId × PeerId)))
    (transactionId : TransactionId) (originPeerId : Option PeerId) :
    Option (List (TransactionId × PeerId)) :=
  match originPeerId with
  | none => previous
  | some peerId =>
      some ((previous.getD []).filter (·.1 ≠ transactionId) ++ [(transactionId, peerId)])

/-- `delete origins[transactionId]`, and no map at all when it is empty. -/
def withoutOrigin (origins : Option (List (TransactionId × PeerId)))
    (transactionId : TransactionId) : Option (List (TransactionId × PeerId)) :=
  match (origins.getD []).filter (·.1 ≠ transactionId) with
  | [] => none
  | left => some left

/-- Commit and abort must come from the peer that staged, where both are known. -/
def isStageOwner (origin peerId : Option PeerId) : Bool :=
  origin.isNone || peerId.isNone || origin = peerId

end Origins

structure ReplicaStageTarget (Cid : Type) where
  cid : Cid
  transactionId : TransactionId
  temporaryTtlMs : Nat
  now : Nat
  originPeerId : Option PeerId
deriving DecidableEq, Repr

structure ReplicaStageResult (Cid : Type) where
  record : FileRecord Cid
  staged : Bool
deriving DecidableEq, Repr

structure SettleReplicaOptions (Cid : Type) where
  cid : Cid
  transactionId : TransactionId
  now : Nat
  tombstoneTtlMs : Nat
  peerId : Option PeerId
deriving DecidableEq, Repr

section Stage

variable {Cid : Type}

/-- Put pin and record back after a stage that could not be stored. -/
def restoreStageWrite {α : Type} (cid : Cid) (previous : Option (FileRecord Cid))
    (createdPin : Bool) (originalError : LifecycleError Cid) : Store Cid α := do
  let pinResult ← Prog.attempt
    (compensating (if createdPin then unpinFile cid else pure false))
  let recordResult ← Prog.attempt (compensating (restoreRecord cid previous))
  match failureOf pinResult ++ failureOf recordResult with
  | [] => throw originalError
  | errors =>
      throw (.aggregate (originalError :: errors)
        "Replica staging failed and its baseline was not restored")

/-- What a copy is known to protect, given what the record said so far. -/
def stableBytes (previous : Option (FileRecord Cid)) (dagBytes : Nat) : Nat × Nat :=
  (max ((previous.map (·.storedBytes)).getD 0) dagBytes,
    max ((previous.map protectedStorageBytes).getD 0) dagBytes)

def stableReplicaRecord (options : ReplicaStageTarget Cid)
    (previous : Option (FileRecord Cid)) (name : String) (stats : DagStats) :
    FileRecord Cid :=
  { cid := options.cid
    name := (previous.map (·.name)).getD name
    state := .confirmed
    createdAt := (previous.map (·.createdAt)).getD options.now
    expiresAt := none
    confirmedAt := some ((previous.bind (·.confirmedAt)).getD options.now)
    fileSize := stats.size
    storedBytes := (stableBytes previous stats.deduplicatedDagSize).1
    protectedBytes := some (stableBytes previous stats.deduplicatedDagSize).2
    pinned := true
    heldLocally := true
    replicas := (previous.map (·.replicas)).getD []
    admissionId := previous.bind (·.admissionId)
    admissionSettledAt := previous.bind (·.admissionSettledAt)
    replicaStage := none
    revision := none }

/-- Record a pin that was there before as a stable replica. -/
def registerStableReplica (options : ReplicaStageTarget Cid) (name : String)
    (previous : Option (FileRecord Cid)) (createdPin : Bool) :
    Store Cid (ReplicaStageResult Cid) :=
  try
    let stats ← statDag options.cid
    let record ← Locked.save (stableReplicaRecord options previous name stats)
    pure { record, staged := false }
  catch err => restoreStageWrite options.cid previous createdPin err

/-- The record of a copy that another transaction joins. -/
def joinedRecord (options : ReplicaStageTarget Cid) (previous : FileRecord Cid)
    (stage : ReplicaStage) : FileRecord Cid :=
  { previous with
    state := .temporary
    expiresAt := some (max (previous.expiresAt.getD 0) (options.now + options.temporaryTtlMs))
    pinned := true
    heldLocally := true
    replicaStage := some { stage with
      transactionIds :=
        if options.transactionId ∈ stage.transactionIds then stage.transactionIds
        else stage.transactionIds ++ [options.transactionId]
      origins :=
        if options.transactionId ∈ stage.transactionIds then stage.origins
        else withOrigin stage.origins options.transactionId options.originPeerId } }

/-- The record of a copy prepared for its first transaction. -/
def stagedRecord (options : ReplicaStageTarget Cid) (previous : Option (FileRecord Cid))
    (name : String) (stats : DagStats) : FileRecord Cid :=
  { cid := options.cid
    name := (previous.map (·.name)).getD name
    state := .temporary
    createdAt := (previous.map (·.createdAt)).getD options.now
    expiresAt := some (options.now + options.temporaryTtlMs)
    confirmedAt := none
    fileSize := stats.size
    storedBytes := (stableBytes previous stats.deduplicatedDagSize).1
    protectedBytes := some (stableBytes previous stats.deduplicatedDagSize).2
    pinned := true
    heldLocally := true
    replicas := (previous.map (·.replicas)).getD []
    admissionId := previous.bind (·.admissionId)
    admissionSettledAt := previous.bind (·.admissionSettledAt)
    replicaStage := some
      { transactionIds := [options.transactionId]
        origins := withOrigin none options.transactionId options.originPeerId
        previous := previous.map fun record =>
          { expiresAt := record.expiresAt, confirmedAt := record.confirmedAt } }
    revision := none }

/-- Join a copy that other transactions prepared. A join that fails does not
unpin it: the pin belongs to the others. -/
def joinStage (options : ReplicaStageTarget Cid) (previous : FileRecord Cid)
    (stage : ReplicaStage) : Store Cid (ReplicaStageResult Cid) := do
  if options.transactionId ∈ stage.transactionIds
      && !isStageOwner (stage.origin options.transactionId) options.originPeerId then
    throw (.stagedByAnotherPeer options.transactionId)
  else do
    let _ ← pinFile options.cid
    try
      let record ← Locked.save (joinedRecord options previous stage)
      pure { record, staged := true }
    catch err => restoreStageWrite options.cid (some previous) false err

/-- Prepare a copy of a CID that no transaction has staged. -/
def beginStage (options : ReplicaStageTarget Cid) (name : String)
    (previous : Option (FileRecord Cid)) : Store Cid (ReplicaStageResult Cid) := do
  let wasDirectlyPinned ← isDirectlyPinned options.cid
  if wasDirectlyPinned || previous.any (·.state = .confirmed) then do
    -- pins and confirmed records from before the transaction are worth keeping
    let createdPin ← pinFile options.cid
    registerStableReplica options name previous createdPin
  else do
    let createdPin ← pinFile options.cid
    try
      let stats ← statDag options.cid
      let record ← Locked.save (stagedRecord options previous name stats)
      pure { record, staged := true }
    catch err => restoreStageWrite options.cid previous createdPin err

/-- Whether the transaction was aborted before its stage arrived. -/
def stageWasAborted (options : ReplicaStageTarget Cid) : Store Cid Bool :=
  request (.wasAborted options.cid options.transactionId options.originPeerId options.now)

/-- Prepare a copy without making the rejection of the upload permanent. `name`
is the name of a file that has no record yet: its CID. -/
def stageReplica (options : ReplicaStageTarget Cid) (name : String) :
    Store Cid (ReplicaStageResult Cid) := do
  let aborted ← stageWasAborted options
  if aborted then throw (.alreadyAborted options.transactionId options.cid)
  else do
    let previous ← Locked.get options.cid
    match previous with
    | none => beginStage options name none
    | some previous =>
        match previous.replicaStage with
        | some stage => joinStage options previous stage
        | none =>
            -- a local upload owns these lifecycles
            if previous.state = .temporary then throw (.unrelatedTemporary options.cid)
            else if !isAdmissionSettled previous then throw (.unsettledUpload options.cid)
            else beginStage options name (some previous)

end Stage

section Settle

variable {Cid : Type}

/-- The record of a copy after one of its transactions was withdrawn. -/
def unclaimedRecord (current : FileRecord Cid) (stage : ReplicaStage)
    (transactionId : TransactionId) : FileRecord Cid :=
  { current with replicaStage := some { stage with
      transactionIds := stage.transactionIds.filter (· ≠ transactionId)
      origins := withoutOrigin stage.origins transactionId } }

/-- The stage of a record that lists the transaction. -/
def FileRecord.stageOf (record : FileRecord Cid) (transactionId : TransactionId) :
    Option ReplicaStage :=
  record.replicaStage.filter fun stage => transactionId ∈ stage.transactionIds

/-- Make a prepared copy durable; one commit settles every transaction of it. -/
def commitReplica (options : SettleReplicaOptions Cid) :
    Store Cid (Option (FileRecord Cid)) := do
  let current ← Locked.get options.cid
  match current with
  | none => throw (.notStaged options.transactionId options.cid)
  | some current =>
      match current.stageOf options.transactionId with
      | none =>
          -- a retry after this transaction, or one sharing its stage, committed
          if current.state = .confirmed && current.pinned && current.heldLocally
              && isAdmissionSettled current then pure (some current)
          else throw (.notStaged options.transactionId options.cid)
      | some stage =>
          if !isStageOwner (stage.origin options.transactionId) options.peerId then
            throw (.stagedByAnotherPeer options.transactionId)
          else do
            let record ← Locked.save (confirmedRecord current options.now)
            pure (some record)

/-- The record an abandoned stage leaves: what the stage found, or a record
without a copy when the stage created it. -/
def unstagedRecord (current : FileRecord Cid) : FileRecord Cid :=
  let baseline := (current.replicaStage.bind (·.previous)).getD
    { expiresAt := current.expiresAt, confirmedAt := none }
  { current with
    state := .expired
    expiresAt := baseline.expiresAt
    confirmedAt := baseline.confirmedAt
    pinned := false
    heldLocally := false
    replicaStage := none }

/-- Restore or remove a prepared replica. Only the removal is awaited inside
the guarded block, so a write that fails is not compensated. -/
def restoreReplicaStage (current : FileRecord Cid) (keepCreatedRecord : Bool) :
    Store Cid (Option (FileRecord Cid)) := do
  let removedPin ← unpinFile current.cid
  if current.replicaStage.any (·.previous.isNone) && !keepCreatedRecord then
    try
      Locked.remove current.cid
      pure none
    catch err =>
      let restored ← Prog.attempt (compensating (do
        let _ ← (if removedPin then pinFile current.cid else pure false)
        Locked.save current))
      throw (.aggregate (err :: failureOf restored)
        "Replica rollback failed and its staged state was restored")
  else do
    let record ← Locked.save (unstagedRecord current)
    pure (some record)

/-- Keep the transaction from being staged again. -/
def rememberAborted (options : SettleReplicaOptions Cid) : Store Cid Unit :=
  request (.rememberAbort options.cid options.transactionId
    (options.now + options.tombstoneTtlMs) options.now options.peerId)

/-- Remove the claim of one transaction, and the copy after the last claim. -/
def abortReplica (options : SettleReplicaOptions Cid) :
    Store Cid (Option (FileRecord Cid)) := do
  let current ← Locked.get options.cid
  match current.bind fun record => (record.stageOf options.transactionId).map (record, ·) with
  | none => do
      rememberAborted options
      pure current
  | some (current, stage) =>
      if !isStageOwner (stage.origin options.transactionId) options.peerId then
        throw (.stagedByAnotherPeer options.transactionId)
      else do
        rememberAborted options
        if (stage.transactionIds.filter (· ≠ options.transactionId)).isEmpty then
          restoreReplicaStage current false
        else do
          let record ← Locked.save (unclaimedRecord current stage options.transactionId)
          pure (some record)

end Settle

/-! ## What a policy has to allow -/

section Policies

variable {Cid α : Type} [DecidableEq Cid] {content : Content Cid} {P : Policy Cid}

theorem safe_restoreStageWrite {cid : Cid} {previous : Option (FileRecord Cid)}
    (hprevious : P.Reads cid previous) {createdPin : Bool}
    (hpin : createdPin = true → ¬ P.pin cid) (err : LifecycleError Cid) :
    Safe content P (restoreStageWrite cid previous createdPin err : Store Cid α) := by
  unfold restoreStageWrite
  refine safe_bind (safe_attempt (safe_compensating ?_)) fun _ =>
    safe_bind (safe_attempt (safe_compensating (safe_restoreRecord hprevious))) fun _ => ?_
  · cases createdPin with
    | true => exact safe_unpinFile (hpin rfl)
    | false => exact safe_pure _
  · split <;> exact safe_throw _

/-- Process memory may be as it is when the stage is let through. -/
def Policy.LetsThrough (P : Policy Cid) (options : ReplicaStageTarget Cid) : Prop :=
  ∃ proc, P.process proc ∧ wasAborted proc.abortedTransactions options.cid
    options.transactionId options.originPeerId options.now = false

/-- The records a new stage starts from: a settled, durable or expired one. -/
def MayBeginStage (previous : Option (FileRecord Cid)) : Prop :=
  ∀ record, previous = some record →
    record.replicaStage = none ∧ record.state ≠ .temporary ∧ isAdmissionSettled record = true

/-- The policy allows whatever a stage may store. -/
structure Policy.Stages (P : Policy Cid) (options : ReplicaStageTarget Cid)
    (name : String) : Prop where
  prune : ∀ proc, P.process proc → P.process { proc with
    abortedTransactions := pruneAbortTombstones proc.abortedTransactions options.now }
  join : ∀ previous stage, P.LetsThrough options → P.Reads options.cid (some previous) →
    previous.replicaStage = some stage → P.Allows (joinedRecord options previous stage)
  stable : ∀ previous stats, P.Reads options.cid previous → MayBeginStage previous →
    P.Allows (stableReplicaRecord options previous name stats)
  staged : ∀ previous stats, P.LetsThrough options → P.Reads options.cid previous →
    MayBeginStage previous → (∀ record, previous = some record → record.state = .expired) →
    P.Allows (stagedRecord options previous name stats)

variable {options : ReplicaStageTarget Cid} {name : String}

theorem keeps_stageWasAborted (hP : P.Stages options name) :
    Keeps content P (stageWasAborted options) fun r =>
      r = .ok false → P.LetsThrough options :=
  keeps_request
    (fun w hw => ⟨⟨hw.record, hw.pin, hP.prune _ hw.process, hw.block⟩, fun hr =>
      ⟨w.proc, hw.process, Except.ok.inj hr⟩⟩)
    fun _ => nofun

theorem safe_joinStage {previous : FileRecord Cid} {stage : ReplicaStage}
    (hread : P.Reads options.cid (some previous))
    (hsave : P.Allows (joinedRecord options previous stage)) :
    Safe content P (joinStage options previous stage) := by
  unfold joinStage
  split
  · exact safe_throw _
  · refine safe_bind (safe_pinFile _) fun _ => safe_tryCatch ?_ fun err => ?_
    · exact safe_bind (safe_save hsave) fun _ => safe_pure _
    · have hnot : false = true → ¬ P.pin options.cid := fun h => by cases h
      exact safe_restoreStageWrite hread hnot err

theorem safe_beginStage (hP : P.Stages options name) (hlets : P.LetsThrough options)
    {previous : Option (FileRecord Cid)} (hread : P.Reads options.cid previous)
    (hbegin : MayBeginStage previous) : Safe content P (beginStage options name previous) := by
  refine safe_bind (safe_isDirectlyPinned _) fun wasDirectlyPinned => ?_
  split
  · refine (keeps_pinFile _).safe_bind fun createdPin hpin => ?_
    refine safe_tryCatch (safe_bind (safe_statDag _) fun stats => ?_) fun err =>
      safe_restoreStageWrite hread (fun hc => hpin (by rw [hc])) err
    exact safe_bind (safe_save (hP.stable previous stats hread hbegin)) fun _ => safe_pure _
  · rename_i hnew
    have hexpired : ∀ record, previous = some record → record.state = .expired := by
      rintro record rfl
      have hnot := (hbegin record rfl).2.1
      simp only [Bool.or_eq_true, Option.any_some, decide_eq_true_eq, not_or] at hnew
      cases hstate : record.state with
      | temporary => exact absurd hstate hnot
      | confirmed => exact absurd hstate hnew.2
      | expired => rfl
    refine (keeps_pinFile _).safe_bind fun createdPin hpin => ?_
    refine safe_tryCatch (safe_bind (safe_statDag _) fun stats => ?_) fun err =>
      safe_restoreStageWrite hread (fun hc => hpin (by rw [hc])) err
    have hsave := hP.staged previous stats hlets hread hbegin hexpired
    exact safe_bind (safe_save hsave) fun _ => safe_pure _

theorem safe_stageReplica (hP : P.Stages options name) :
    Safe content P (stageReplica options name) := by
  refine (keeps_stageWasAborted hP).safe_bind fun aborted haborted => ?_
  split
  · exact safe_throw _
  · rename_i hnot
    have hlets : P.LetsThrough options := haborted (by simpa using hnot)
    refine safe_get_bind fun previous hread => ?_
    cases previous with
    | none =>
        have hbegin : MayBeginStage (none : Option (FileRecord Cid)) := fun _ h => by cases h
        exact safe_beginStage hP hlets hread hbegin
    | some previous =>
        dsimp only
        split
        · rename_i stage hstage
          exact safe_joinStage hread (hP.join previous stage hlets hread hstage)
        · rename_i hstage
          split
          · exact safe_throw _
          · rename_i hstate
            split
            · exact safe_throw _
            · rename_i hsettled
              refine safe_beginStage hP hlets hread ?_
              rintro record ⟨⟩
              exact ⟨hstage, hstate, by simpa using hsettled⟩

theorem safe_commitReplica {options : SettleReplicaOptions Cid}
    (hsave : ∀ current stage, P.Reads options.cid (some current) →
      current.stageOf options.transactionId = some stage →
      P.Allows (confirmedRecord current options.now)) :
    Safe content P (commitReplica options) := by
  refine safe_get_bind fun current hread => ?_
  cases current with
  | none => exact safe_throw _
  | some current =>
      dsimp only
      split
      · split
        · exact safe_pure _
        · exact safe_throw _
      · rename_i stage hstage
        split
        · exact safe_throw _
        · have hsave := hsave current stage hread hstage
          exact safe_bind (safe_save hsave) fun _ => safe_pure _

theorem safe_restoreReplicaStage {current : FileRecord Cid} {keepCreatedRecord : Bool}
    (hpin : ¬ P.pin current.cid) (hread : P.Allows current)
    (hunstaged : P.Allows (unstagedRecord current))
    (hremove : keepCreatedRecord = false → P.record current.cid none) :
    Safe content P (restoreReplicaStage current keepCreatedRecord) := by
  refine safe_bind (safe_unpinFile hpin) fun removedPin => ?_
  split
  · rename_i hcreated
    have hkeep : keepCreatedRecord = false := by
      simp only [Bool.and_eq_true, Bool.not_eq_true'] at hcreated
      exact hcreated.2
    refine safe_tryCatch (safe_bind (safe_remove (hremove hkeep)) fun _ => safe_pure _) ?_
    refine fun err => safe_bind (safe_attempt (safe_compensating ?_)) fun _ => safe_throw _
    refine safe_bind ?_ fun _ => safe_save hread
    split
    · exact safe_pinFile _
    · exact safe_pure _
  · exact safe_bind (safe_save hunstaged) fun _ => safe_pure _

/-- The policy allows a claim to be withdrawn from the record: the copy goes
with the last claim only. -/
structure Policy.Unstages (P : Policy Cid) (options : SettleReplicaOptions Cid)
    (current : FileRecord Cid) (stage : ReplicaStage) : Prop where
  last : (∀ id ∈ stage.transactionIds, id = options.transactionId) →
    ¬ P.pin current.cid ∧ P.Allows (unstagedRecord current) ∧ P.record current.cid none
  unclaimed : (∃ id ∈ stage.transactionIds, id ≠ options.transactionId) →
    P.Allows (unclaimedRecord current stage options.transactionId)

theorem safe_rememberAborted {options : SettleReplicaOptions Cid}
    (h : ∀ proc, P.process proc → P.process { proc with
      abortedTransactions := rememberAbort proc.abortedTransactions options.cid
        options.transactionId (options.now + options.tombstoneTtlMs) options.now
        options.peerId }) : Safe content P (rememberAborted options) :=
  safe_request fun _ hw => ⟨hw.record, hw.pin, h _ hw.process, hw.block⟩

omit [DecidableEq Cid] in
theorem FileRecord.stageOf_eq_some {record : FileRecord Cid} {transactionId : TransactionId}
    {stage : ReplicaStage} : record.stageOf transactionId = some stage ↔
      record.replicaStage = some stage ∧ transactionId ∈ stage.transactionIds := by
  unfold FileRecord.stageOf
  rw [Option.filter_eq_some_iff, decide_eq_true_iff]

theorem safe_abortReplica {options : SettleReplicaOptions Cid}
    (hremember : ∀ proc, P.process proc → P.process { proc with
      abortedTransactions := rememberAbort proc.abortedTransactions options.cid
        options.transactionId (options.now + options.tombstoneTtlMs) options.now
        options.peerId })
    (hsave : ∀ current stage, P.Reads options.cid (some current) →
      current.stageOf options.transactionId = some stage →
      isStageOwner (stage.origin options.transactionId) options.peerId = true →
      P.Unstages options current stage) :
    Safe content P (abortReplica options) := by
  refine safe_get_bind fun current hread => ?_
  split
  · exact safe_bind (safe_rememberAborted hremember) fun _ => safe_pure _
  · rename_i current' stage hmatch
    obtain ⟨record, hcurrent, hstageOf⟩ := Option.bind_eq_some_iff.mp hmatch
    obtain ⟨stage', hstage', heq⟩ := Option.map_eq_some_iff.mp hstageOf
    obtain ⟨rfl, rfl⟩ := Prod.mk.injEq .. ▸ heq
    rw [hcurrent] at hread
    have hU := hsave record stage' hread hstage'
    split
    · exact safe_throw _
    · rename_i howner
      have hU := hU (by simpa using howner)
      refine safe_bind (safe_rememberAborted hremember) fun _ => ?_
      split
      · rename_i hempty
        have hall : ∀ id ∈ stage'.transactionIds, id = options.transactionId := by
          simpa using hempty
        obtain ⟨hpin, hunstaged, hremove⟩ := hU.last hall
        exact safe_restoreReplicaStage hpin hread.allows hunstaged fun _ => hremove
      · rename_i hleft
        have hleft : ∃ id ∈ stage'.transactionIds, id ≠ options.transactionId := by
          simpa using hleft
        exact safe_bind (safe_save (hU.unclaimed hleft)) fun _ => safe_pure _

end Policies

end IpfsNode
