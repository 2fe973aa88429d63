import IpfsNode.Gc
import IpfsNode.Maintenance
import IpfsNode.Upload

/-!
# Operations of a node

What runs on a node: work on its own files, each piece done while the locks of
its CIDs are held (`LocalOp`), and questions to other nodes (`NetworkOp`), which
change nothing here. The jobs of the node are programs over these operations:
between two operations of a job anything else may run.
-/

namespace IpfsNode

inductive LocalOp (Cid : Type) where
  | registerPinnedFile (options : RegisterPinnedOptions Cid)
  | confirmStoredFile (options : RegisterPinnedOptions Cid) (registerUnknown : Bool)
  | releaseStoredFile (cid : Cid)
  | stageReplica (options : ReplicaStageTarget Cid) (name : String)
  | commitReplica (options : SettleReplicaOptions Cid)
  | abortReplica (options : SettleReplicaOptions Cid)
  | beginAdmission (admissionId : AdmissionId)
  | endAdmission (admissionId : AdmissionId)
  | admitUpload (options : AdmitOptions) (files : List (UploadFile Cid))
  | rollbackAdmitted (baselines : List (UploadBaseline Cid)) (admissionId : AdmissionId)
  | finalizeAdmitted (cids : List Cid) (baselines : List (UploadBaseline Cid))
      (reports : Reports Cid) (admissionId : AdmissionId) (settledAt : Nat)
  | clearSettledAdmissions (reports : Reports Cid) (admissionId : AdmissionId)
      (cids : List Cid)
  /-- One scan of the registry, with what the process knows at that moment. -/
  | scanRegistry
  | isProtected (cid : Cid)
  | guardPin (cid : Cid)
  | releasePlanned (record : FileRecord Cid)
  | collectBlocks
  | cleanupReleased (record : FileRecord Cid)
  | recoverInterruptedAdmission (cid : Cid)
  | claimRepairRecord (selected : FileRecord Cid)
  | releaseRepairRecord (cid : Cid)
  | setReplicas (cid : Cid) (replicas : List String)
  | clearSettledAdmission (record : FileRecord Cid)
  | rescueOrphanedFile (record : FileRecord Cid)
  | demoteCopy (record : FileRecord Cid)
  | getRecord (cid : Cid)
  | hasPinIntent (cid : Cid)
  | clearPinIntent (cid : Cid)
  | statDag (cid : Cid)
  | createIfAbsent (record : FileRecord Cid)
  | importBlocks (blocks : Finset Cid)

/-- What a scan of the registry finds. -/
structure RegistryScan (Cid : Type) where
  records : List (FileRecord Cid)
  proc : Process Cid

def scanRegistry {Cid : Type} : Store Cid (RegistryScan Cid) := do
  let records ← request .allRecords
  let proc ← process
  pure { records, proc }

theorem safe_scanRegistry {Cid : Type} [DecidableEq Cid] {content : Content Cid}
    {P : Policy Cid} : Safe content P (scanRegistry : Store Cid _) :=
  safe_bind (safe_request fun _ hw => hw) fun _ =>
    safe_bind (safe_request fun _ hw => hw) fun _ => safe_pure _

namespace LocalOp

variable {Cid : Type}

def Ret : LocalOp Cid → Type
  | registerPinnedFile _ => FileRecord Cid
  | confirmStoredFile .. | releaseStoredFile _ | commitReplica _ | abortReplica _ =>
      Option (FileRecord Cid)
  | stageReplica .. => ReplicaStageResult Cid
  | admitUpload .. => Admitted Cid
  | finalizeAdmitted .. | clearSettledAdmissions .. => List (FileRecord Cid)
  | scanRegistry => RegistryScan Cid
  | isProtected _ | guardPin _ | hasPinIntent _ => Bool
  | releasePlanned _ | setReplicas .. | rescueOrphanedFile _ | createIfAbsent _ =>
      Option (FileRecord Cid)
  | getRecord _ => Option (FileRecord Cid)
  | collectBlocks => Nat
  | recoverInterruptedAdmission _ | claimRepairRecord _ | demoteCopy _ => Bool
  | statDag _ => DagStats
  | _ => Unit

variable [DecidableEq Cid]

/-- The code of an operation. -/
def body : (o : LocalOp Cid) → Store Cid o.Ret
  | registerPinnedFile options => IpfsNode.registerPinnedFile options
  | confirmStoredFile options registerUnknown =>
      IpfsNode.confirmStoredFile options registerUnknown
  | releaseStoredFile cid => IpfsNode.releaseStoredFile cid
  | stageReplica options name => IpfsNode.stageReplica options name
  | commitReplica options => IpfsNode.commitReplica options
  | abortReplica options => IpfsNode.abortReplica options
  | beginAdmission admissionId => request (.beginAdmission admissionId)
  | endAdmission admissionId => request (.endAdmission admissionId)
  | admitUpload options files => IpfsNode.admitUpload options files
  | rollbackAdmitted baselines admissionId =>
      IpfsNode.rollbackAdmitted baselines admissionId
  | finalizeAdmitted cids baselines reports admissionId settledAt =>
      IpfsNode.finalizeAdmitted cids baselines reports admissionId settledAt
  | clearSettledAdmissions reports admissionId cids =>
      IpfsNode.clearSettledAdmissions reports admissionId cids
  | scanRegistry => IpfsNode.scanRegistry
  | isProtected cid => IpfsNode.isProtected cid
  | guardPin cid => IpfsNode.guardPin cid
  | releasePlanned record => IpfsNode.releasePlanned record
  | collectBlocks => request .gc
  | cleanupReleased record => IpfsNode.cleanupReleased record
  | recoverInterruptedAdmission cid => IpfsNode.recoverInterruptedAdmission cid
  | claimRepairRecord selected => IpfsNode.claimRepairRecord selected
  | releaseRepairRecord cid => request (.endRepair cid)
  | setReplicas cid replicas => IpfsNode.setReplicas cid replicas
  | clearSettledAdmission record => IpfsNode.clearSettledAdmission record
  | rescueOrphanedFile record => IpfsNode.rescueOrphanedFile record
  | demoteCopy record => IpfsNode.demoteCopy record
  | getRecord cid => Locked.get cid
  | hasPinIntent cid => Locked.hasPinIntent cid
  | clearPinIntent cid => Locked.clearPinIntent cid
  | statDag cid => IpfsNode.statDag cid
  | createIfAbsent record => IpfsNode.createIfAbsent record
  | importBlocks blocks => request (.importBlocks blocks)

end LocalOp

inductive NetworkOp (Cid : Type) where
  /-- Place copies of all files at once, with a report for each of them; one
  placement that rejects rejects all. -/
  | replicate (cids : List Cid) (transactionId : Option TransactionId)
  | commitReplicas (cid : Cid) (transactionId : TransactionId) (report : ReplicationReport)
  | abortReplicas (cid : Cid) (transactionId : TransactionId) (report : ReplicationReport)
  | placeReplicas (cid : Cid) (transactionId : Option TransactionId)
  | liveHolderNames (cid : Cid)

def NetworkOp.Ret {Cid : Type} : NetworkOp Cid → Type
  | replicate .. => Cid → ReplicationReport
  | commitReplicas .. | placeReplicas .. => ReplicationReport
  | abortReplicas .. => Unit
  | liveHolderNames _ => List String

inductive NodeOp (Cid : Type) where
  | run (o : LocalOp Cid)
  | ask (o : NetworkOp Cid)

def NodeOp.Ret {Cid : Type} : NodeOp Cid → Type
  | .run o => o.Ret
  | .ask o => o.Ret

/-- A job of the node. -/
abbrev Job (Cid : Type) (α : Type) :=
  Prog (NodeOp Cid) NodeOp.Ret (LifecycleError Cid) α

section Jobs

variable {Cid : Type}

def locked (o : LocalOp Cid) : Job Cid o.Ret := Prog.perform (NodeOp.run o)

def ask (o : NetworkOp Cid) : Job Cid o.Ret := Prog.perform (NodeOp.ask o)

/-- An operation that is a job of its own. -/
def LocalOp.job (o : LocalOp Cid) : Job Cid Unit := do
  let _ ← locked o
  pure ()

end Jobs

section Semantics

variable {Cid : Type} [DecidableEq Cid] (content : Content Cid) (faults : Faults Cid)

/-- An operation is done in one step; other nodes may answer anything. -/
def nodeStep {S : Type} (sem : Prog.Sem (Request Cid) Request.Ret (LifecycleError Cid) S) :
    Prog.Sem (NodeOp Cid) NodeOp.Ret (LifecycleError Cid) S
  | .run o, s, r, s' => Prog.Runs sem o.body s r s'
  | .ask _, s, _, s' => s' = s

def nodeSem : Prog.Sem (NodeOp Cid) NodeOp.Ret (LifecycleError Cid) (World Cid) :=
  nodeStep (storeSem content faults)

/-- Where every request is answered, every operation comes to some answer. -/
theorem nodeStep_total {S : Type}
    {sem : Prog.Sem (Request Cid) Request.Ret (LifecycleError Cid) S}
    (htotal : ∀ q s, ∃ r s', sem q s r s') (o : NodeOp Cid) (s : S) :
    ∃ r s', nodeStep sem o s r s' := by
  cases o with
  | run o => exact Prog.exists_runs htotal o.body s
  | ask o => exact ⟨.error .io, s, rfl⟩

theorem storeSem_total (q : Request Cid) (w : World Cid) :
    ∃ r w', storeSem content faults q w r w' :=
  ⟨_, _, .served⟩

theorem nodeSem_total (o : NodeOp Cid) (w : World Cid) :
    ∃ r w', nodeSem content faults o w r w' :=
  nodeStep_total (storeSem_total content faults) o w

/-- The process dies between two operations, and another one starts. -/
def restarts (w w' : World Cid) : Prop := w' = { w with proc := Process.fresh }

end Semantics

section Rules

variable {Cid : Type} [DecidableEq Cid] {content : Content Cid} {faults : Faults Cid}

theorem nodeSem_noFault {o : NodeOp Cid} {w w' : World Cid}
    {r : Except (LifecycleError Cid) o.Ret} (h : nodeSem content noFault o w r w') :
    nodeSem content faults o w r w' := by
  cases o with
  | run o => exact h.mono fun _ _ _ _ hstep => hstep.mono fun _ => False.elim
  | ask o => exact h

theorem wp_section {S : Type}
    {sem : Prog.Sem (Request Cid) Request.Ret (LifecycleError Cid) S} {o : LocalOp Cid}
    {Q : Except (LifecycleError Cid) o.Ret → S → Prop} {s : S} :
    Prog.wp (nodeStep sem) (locked o) Q s ↔ Prog.wp sem o.body Q s :=
  Prog.wp_perform.trans Prog.wp_iff_runs.symm

theorem wp_ask {S : Type}
    {sem : Prog.Sem (Request Cid) Request.Ret (LifecycleError Cid) S} {o : NetworkOp Cid}
    {Q : Except (LifecycleError Cid) o.Ret → S → Prop} {s : S} :
    Prog.wp (nodeStep sem) (ask o) Q s ↔ ∀ r, Q r s :=
  Prog.wp_perform.trans ⟨fun h r => h r s rfl, fun h r _ hs => hs ▸ h r⟩

/-- What a job gets from an operation, with the history of the run. -/
abbrev History (T Cid : Type) :=
  List (Prog.Pool.Event T (NodeOp Cid) NodeOp.Ret (LifecycleError Cid) (World Cid))

theorem wp_locked {T : Type} {t : T} {o : LocalOp Cid} {w : World Cid} {h : History T Cid}
    {Q : Except (LifecycleError Cid) o.Ret → World Cid × History T Cid → Prop} :
    Prog.wp (Prog.Pool.traced (nodeSem content faults) t) (locked o) Q (w, h) ↔
      Prog.wp (storeSem content faults) o.body
        (fun r w' => Q r (w', h ++ [.request t (.run o) w r w'])) w := by
  constructor
  · intro H
    refine Prog.wp_iff_runs.mpr fun r w' hr => ?_
    have hstep : Prog.Pool.traced (nodeSem content faults) t (.run o) (w, h) r
        (w', h ++ [.request t (.run o) w r w']) := ⟨hr, rfl⟩
    exact Prog.wp_perform.mp H r _ hstep
  · intro H
    refine Prog.wp_perform.mpr ?_
    rintro r ⟨w', h'⟩ ⟨hr, hh⟩
    have hh : h' = h ++ [.request t (.run o) w r w'] := hh
    subst hh
    exact Prog.wp_iff_runs.mp H r w' hr

end Rules

/-! ## Jobs -/

section Jobs

variable {Cid : Type} [DecidableEq Cid]

/-- Place copies of a known file and record who holds it. -/
def replicateFile (cid : Cid) : Job Cid Unit := do
  let record ← locked (.getRecord cid)
  let report ← ask (.placeReplicas cid (record.bind (·.admissionId)))
  if report.mode = .quorum then do
    let _ ← locked (.setReplicas cid report.replicas)
    pure ()
  else pure ()

/-- What a repair pass does with a file while it holds the claim. -/
def repairClaimed (placement : Placement) (selfPeerId : PeerId) (record : FileRecord Cid) :
    Job Cid Unit := do
  let live ← ask (.liveHolderNames record.cid)
  let _ ← locked (.setReplicas record.cid live)
  if !isUnderReplicated live.length placement selfPeerId then
    locked (.clearSettledAdmission record)
  else do
    replicateFile record.cid
    let verified ← ask (.liveHolderNames record.cid)
    let _ ← locked (.setReplicas record.cid verified)
    if isUnderReplicated verified.length placement selfPeerId then pure ()
    else locked (.clearSettledAdmission record)

/-- One file of a repair pass. -/
def repairRecord (placement : Placement) (selfPeerId : PeerId) (record : FileRecord Cid) :
    Job Cid Unit := do
  let claimed ← locked (.claimRepairRecord record)
  if !claimed then pure ()
  else do
    let result ← Prog.attempt (repairClaimed placement selfPeerId record)
    locked (.releaseRepairRecord record.cid)
    Prog.ofExcept result

/-- The candidates of an admission recovery. -/
def interruptedAdmissions (scan : RegistryScan Cid) : List (FileRecord Cid) :=
  scan.records.filter fun record => record.admissionId.isSome
    && !isAdmissionSettled record && !scan.proc.isActiveAdmission record.admissionId

def recoverEach : List (FileRecord Cid) → Job Cid Unit
  | [] => pure ()
  | candidate :: rest => do
      let _ ← Prog.attempt (locked (.recoverInterruptedAdmission candidate.cid))
      recoverEach rest

def recoverInterruptedAdmissions : Job Cid Unit := do
  let scan ← locked .scanRegistry
  recoverEach (interruptedAdmissions scan)

/-- Record one pin that was found when the node started. -/
def backfillPin (options : BackfillOptions) (name : Cid → String) (cid : Cid) :
    Job Cid Unit := do
  let known ← locked (.getRecord cid)
  match known with
  | some _ => locked (.clearPinIntent cid)
  | none => do
      let interrupted ← locked (.hasPinIntent cid)
      let stats ← locked (.statDag cid)
      let _ ← locked (.createIfAbsent
        (backfilledRecord options cid (name cid) stats interrupted))
      locked (.clearPinIntent cid)

/-- A pin that cannot be recorded is left to a later pass. -/
def backfillRegistryFromPins (options : BackfillOptions) (name : Cid → String) :
    List Cid → Job Cid Unit
  | [] => pure ()
  | cid :: rest => do
      let _ ← Prog.attempt (backfillPin options name cid)
      backfillRegistryFromPins options name rest

/-- Store a copy for another node. `blocks` are those a pull brings in. -/
def acceptReplica (options : RegisterPinnedOptions Cid) (blocks : Finset Cid) :
    Job Cid (FileRecord Cid) := do
  let existing ← locked (.getRecord options.cid)
  if existing.any (·.replicaStage.isSome) then throw (.busy options.cid)
  else do
    locked (.importBlocks blocks)
    let stored : FileRecord Cid ← locked (.registerPinnedFile options)
    -- a stage may have appeared during the pull
    if stored.replicaStage.isSome then throw (.busy options.cid) else pure stored

/-- Prepare a copy for a strict upload of another node. -/
def acceptStagedReplica (options : ReplicaStageTarget Cid) (name : String)
    (blocks : Finset Cid) : Job Cid (ReplicaStageResult Cid) := do
  locked (.importBlocks blocks)
  locked (.stageReplica options name)

/-- Make a file durable and place its copies. Only an explicit pin request
registers a file this node does not know, and fetches it first. -/
def confirmFile (options : RegisterPinnedOptions Cid) (registerUnknown : Bool)
    (blocks : Finset Cid) : Job Cid (Option (FileRecord Cid)) := do
  if registerUnknown then locked (.importBlocks blocks) else pure ()
  let confirmed : Option (FileRecord Cid) ← locked (.confirmStoredFile options registerUnknown)
  if confirmed.isNone then pure none
  else do
    replicateFile options.cid
    locked (.getRecord options.cid)

end Jobs

end IpfsNode
