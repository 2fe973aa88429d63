import IpfsNode.Demotion
import IpfsNode.GcRun
import IpfsNode.Transitions
import IpfsNode.UploadRoute

/-!
# Everything that runs on a node

A node serves any number of requests and jobs at once: uploads, confirmations,
releases, replication requests of other nodes, repair, rescue, collection,
handover of copies, recovery and backfill. Between two operations of one of them
anything else may run, any request may fail, and the process may die at any
point. An upload runs under its admission id.

The history of a run says which repair pass holds the claim of a file.
-/

namespace IpfsNode

/-! ## Operations and tasks -/

inductive LifeOp (Cid : Type) where
  | node (o : NodeOp Cid)
  /-- What a handover pass does. -/
  | sweep (o : SweepOp Cid)

def LifeOp.Ret {Cid : Type} : LifeOp Cid → Type
  | .node o => o.Ret
  | .sweep o => o.Ret

abbrev Life (Cid α : Type) := Prog (LifeOp Cid) LifeOp.Ret (LifecycleError Cid) α

/-- The operation on the files of this node, if it is one. -/
def LifeOp.local {Cid : Type} : LifeOp Cid → Option (LocalOp Cid)
  | .node (.run o) => some o
  | .sweep (.demoteCopy record) => some (.demoteCopy record)
  | _ => none

inductive LifeTask where
  | upload (admissionId : AdmissionId)
  | other (n : Nat)
deriving DecidableEq, Repr

section Tasks

variable {Cid : Type}

def Job.life {α : Type} (job : Job Cid α) : Life Cid α :=
  Prog.embed LifeOp.node (fun _ answer => answer) job

def Sweep.life {α : Type} (sweep : Sweep Cid α) : Life Cid α :=
  Prog.embed LifeOp.sweep (fun _ answer => answer) sweep

/-- Requests and jobs that are one operation. -/
def LocalOp.isRequest : LocalOp Cid → Bool
  | .registerPinnedFile _ | .confirmStoredFile .. | .releaseStoredFile _ | .stageReplica ..
  | .commitReplica _ | .abortReplica _ | .rescueOrphanedFile _ | .importBlocks _ => true
  | _ => false

/-- The other nodes as this node knows them, and what its tasks collect with. -/
structure Site (Cid : Type) where
  score : Score Cid
  config : ReplicationConfig
  nodes : List ReplicationPeer
  selfPeerId : PeerId
  collects : LifeTask → GcRunOptions → Prop

variable [DecidableEq Cid] (site : Site Cid)

inductive LifeEntry : LifeTask → Life Cid Unit → Prop
  | upload (request : UploadRequest Cid) : LifeEntry (.upload request.admissionId)
      (Job.life (uploadHandler request >>= fun _ => pure ()))
  | request (n : Nat) (o : LocalOp Cid) (ho : o.isRequest = true) :
      LifeEntry (.other n) (Job.life o.job)
  | accept (n : Nat) (options : RegisterPinnedOptions Cid) (blocks : Finset Cid) :
      LifeEntry (.other n) (Job.life (acceptReplica options blocks >>= fun _ => pure ()))
  | acceptStaged (n : Nat) (options : ReplicaStageTarget Cid) (name : String)
      (blocks : Finset Cid) : LifeEntry (.other n)
      (Job.life (acceptStagedReplica options name blocks >>= fun _ => pure ()))
  | confirm (n : Nat) (options : RegisterPinnedOptions Cid) (registerUnknown : Bool)
      (blocks : Finset Cid) : LifeEntry (.other n)
      (Job.life (confirmFile options registerUnknown blocks >>= fun _ => pure ()))
  | replicate (n : Nat) (cid : Cid) : LifeEntry (.other n) (Job.life (replicateFile cid))
  | repair (n : Nat) (placement : Placement) (record : FileRecord Cid) :
      LifeEntry (.other n) (Job.life (repairRecord placement site.selfPeerId record))
  | collect (n : Nat) (options : GcRunOptions) (h : site.collects (.other n) options) :
      LifeEntry (.other n) (Job.life (runGarbageCollection options >>= fun _ => pure ()))
  | recover (n : Nat) : LifeEntry (.other n) (Job.life recoverInterruptedAdmissions)
  | backfill (n : Nat) (options : BackfillOptions) (name : Cid → String) (pins : List Cid) :
      LifeEntry (.other n) (Job.life (backfillRegistryFromPins options name pins))
  | demote (n : Nat) (dryRun : Bool) : LifeEntry (.other n)
      (Sweep.life (demoteReleasableCopies site.score site.config site.nodes site.selfPeerId dryRun
        >>= fun _ => pure ()))

end Tasks

/-! ## Semantics -/

section Semantics

variable {Cid : Type} [DecidableEq Cid] (content : Content Cid) (faults : Faults Cid)

/-- A handover pass on this node; other nodes may answer anything. -/
def ownSweepSem : Prog.Sem (SweepOp Cid) SweepOp.Ret (LifecycleError Cid) (World Cid)
  | .nextSweepBatch, w, r, w' => w' = w ∧ ∀ records : List (FileRecord Cid),
      r = .ok records → ∀ record ∈ records, w.files.get record.cid = some record ∧
        isSettledHeldFile w.proc record = true
  | .answerOrder holders, w, r, w' => w' = w ∧ ∃ order, r = .ok order ∧ order.Perm holders
  | .demoteCopy record, w, r, w' =>
      Prog.Runs (storeSem content faults) (demoteCopy record) w r w'
  | _, w, _, w' => w' = w

def lifeSem : Prog.Sem (LifeOp Cid) LifeOp.Ret (LifecycleError Cid) (World Cid)
  | .node o => nodeSem content faults o
  | .sweep o => ownSweepSem content faults o

/-- What happened on the node. -/
abbrev LifeEvent (Cid : Type) :=
  Prog.Pool.Event LifeTask (LifeOp Cid) LifeOp.Ret (LifecycleError Cid) (World Cid)

/-- A node with what happened on it. -/
abbrev LifePast (Cid : Type) := World Cid × List (LifeEvent Cid)

/-- What runs on the node, with its history. -/
abbrev LifeRun (site : Site Cid) (w₀ : World Cid)
    (c : Prog.Pool.Config LifeTask (LifeOp Cid) LifeOp.Ret (LifecycleError Cid)
      (LifePast Cid)) : Prop :=
  Prog.Pool.Reach (Prog.Pool.traced (lifeSem content faults)) (LifeEntry site)
    (Prog.Pool.tracedReset restarts) ((w₀, []), []) c

variable {content faults}

/-- An operation is a run of its code, and everything else leaves the node alone. -/
theorem lifeSem_cases {o : LifeOp Cid} {w w' : World Cid}
    {r : Except (LifecycleError Cid) o.Ret} (h : lifeSem content faults o w r w') :
    (∃ op r', o.local = some op ∧ Prog.Runs (storeSem content anyFault) op.body w r' w') ∨
      (o.local = none ∧ w' = w) := by
  cases o with
  | node o =>
      cases o with
      | run o => exact .inl ⟨o, r, rfl, runs_anyFault h⟩
      | ask o => exact .inr ⟨rfl, h⟩
  | sweep o =>
      cases o with
      | demoteCopy record => exact .inl ⟨.demoteCopy record, r, rfl, runs_anyFault h⟩
      | nextSweepBatch | answerOrder => exact .inr ⟨rfl, h.1⟩
      | _ => exact .inr ⟨rfl, h⟩

theorem lifeSem_evolves {o : LifeOp Cid} {w w' : World Cid}
    {r : Except (LifecycleError Cid) o.Ret} (h : lifeSem content faults o w r w') :
    w.Evolves w' := by
  rcases lifeSem_cases h with ⟨op, r', -, hrun⟩ | ⟨-, rfl⟩
  · exact runs_evolves hrun
  · exact .refl _

/-- A node on which every call succeeds, in a network with these answers. -/
def serveLife (content : Content Cid)
    (answers : (o : NetworkOp Cid) → Except (LifecycleError Cid) o.Ret) :
    (o : LifeOp Cid) → World Cid → Except (LifecycleError Cid) o.Ret × World Cid
  | .node (.run o), w => Prog.run (serve content) o.body w
  | .node (.ask o), w => (answers o, w)
  | .sweep .nextSweepBatch, w =>
      (.ok (w.files.entries.filter (isSettledHeldFile w.proc)), w)
  | .sweep .now, w => (.ok (0 : Nat), w)
  | .sweep (.answerOrder holders), w => (.ok holders, w)
  | .sweep (.probeHave ..), w => (.ok true, w)
  | .sweep (.demoteCopy record), w => Prog.run (serve content) (demoteCopy record) w
  | .sweep .elsewhere, w => (.ok (), w)

theorem lifeSem_serveLife (answers : (o : NetworkOp Cid) → Except (LifecycleError Cid) o.Ret)
    (o : LifeOp Cid) (w : World Cid) :
    lifeSem content faults o w (serveLife content answers o w).1
      (serveLife content answers o w).2 := by
  have hserve : ∀ (q : Request Cid) (w : World Cid),
      storeSem content faults q w (serve content q w).1 (serve content q w).2 :=
    fun _ _ => .served
  cases o with
  | node o =>
      cases o with
      | run o => exact Prog.runs_run hserve o.body w
      | ask o => rfl
  | sweep o =>
      cases o with
      | nextSweepBatch =>
          refine ⟨rfl, fun records hrecords record hmem => ?_⟩
          cases hrecords
          obtain ⟨hentry, hsettled⟩ := List.mem_filter.mp hmem
          exact ⟨Registry.get_of_mem hentry, hsettled⟩
      | answerOrder holders => exact ⟨rfl, holders, rfl, .refl _⟩
      | demoteCopy record => exact Prog.runs_run hserve (demoteCopy record) w
      | now | probeHave | elsewhere => rfl

/-- What a schedule comes to on such a node, with its history. -/
def playLife (content : Content Cid)
    (answers : (o : NetworkOp Cid) → Except (LifecycleError Cid) o.Ret) (w₀ : World Cid)
    (moves : List (Prog.Pool.Move LifeTask (LifeOp Cid) LifeOp.Ret (LifecycleError Cid))) :
    Prog.Pool.Config LifeTask (LifeOp Cid) LifeOp.Ret (LifecycleError Cid) (LifePast Cid) :=
  Prog.Pool.play (Prog.Pool.tracing (serveLife content answers))
    (fun past => ({ past.1 with proc := Process.fresh },
      past.2 ++ [.reset past.1 { past.1 with proc := Process.fresh }])) moves ((w₀, []), [])

theorem lifeRun_playLife {site : Site Cid}
    {answers : (o : NetworkOp Cid) → Except (LifecycleError Cid) o.Ret} {w₀ : World Cid}
    {moves : List (Prog.Pool.Move LifeTask (LifeOp Cid) LifeOp.Ret (LifecycleError Cid))}
    (hentry : ∀ t p, .spawn t p ∈ moves → LifeEntry site t p) :
    LifeRun content faults site w₀ (playLife content answers w₀ moves) :=
  Prog.Pool.reach_play (fun t => Prog.Pool.traced_tracing (lifeSem_serveLife answers) t)
    (fun _ => ⟨rfl, rfl⟩) hentry _

end Semantics

/-! ## Claims -/

section Claims

variable {Cid : Type}

/-- The task made the event. -/
def LifeEvent.By (t : LifeTask) : LifeEvent Cid → Prop
  | .request t' .. => t' = t
  | .reset .. => False

variable [DecidableEq Cid]

/-- Who holds the claim of a file after the event. -/
def LifeEvent.claimant (cid : Cid) (holder : Option LifeTask) :
    LifeEvent Cid → Option LifeTask
  | .request t (.node (.run (.claimRepairRecord selected))) _ (.ok true) _ =>
      if selected.cid = cid then some t else holder
  | .request _ (.node (.run (.releaseRepairRecord cid'))) _ _ _ =>
      if cid' = cid then none else holder
  | .request .. => holder
  | .reset .. => none

/-- The repair pass that holds the claim of the file. -/
def claimant (h : List (LifeEvent Cid)) (cid : Cid) : Option LifeTask :=
  h.foldl (fun holder e => LifeEvent.claimant cid holder e) none

theorem claimant_snoc (h : List (LifeEvent Cid)) (e : LifeEvent Cid) (cid : Cid) :
    claimant (h ++ [e]) cid = LifeEvent.claimant cid (claimant h cid) e := by
  simp [claimant]

end Claims

end IpfsNode
