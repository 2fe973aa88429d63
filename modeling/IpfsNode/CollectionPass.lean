import Mathlib.Algebra.GroupWithZero.Nat
import IpfsNode.NodeRuns
import IpfsNode.Sweep

/-!
# A collection pass

`collectGarbage` is a whole pass: it recovers interrupted uploads, hands copies
over to their holders, measures the disk, and then collects. Recovery is left
out of a dry run; the other phases are told to report only.

A pass is executed here with nothing else running on the node and every call
answered: by the peers, the clock and the disk as `Surroundings` fixes them,
and by the node itself.
-/

namespace IpfsNode

/-! ## The order of the registry -/

/-- How a datastore lists its keys: in some order that depends on nothing but
which keys there are. -/
structure Listing (Cid : Type) where
  order : List Cid → List Cid
  perm : ∀ cids, (order cids).Perm cids
  canonical : ∀ cids cids', cids.Perm cids' → order cids = order cids'

section Listing

variable {Cid : Type} [DecidableEq Cid] (listing : Listing Cid)

/-- Every record, as the datastore lists them. -/
def Listing.records (files : Registry Cid) : List (FileRecord Cid) :=
  (listing.order (files.entries.map (·.cid))).filterMap files.get

end Listing

/-! ## Measuring -/

/-- What the file system says. -/
structure DiskUsage where
  blockstoreBytes : Nat
  datastoreBytes : Nat
  availableBytes : Nat
deriving DecidableEq, Repr

structure FileCounts where
  temporary : Nat
  confirmed : Nat
  expired : Nat
  total : Nat
deriving DecidableEq, Repr

structure StorageMetrics where
  blockstoreBytes : Nat
  datastoreBytes : Nat
  /-- Bytes protected by the pins of registered files. -/
  pinnedBytes : Nat
  reclaimableBytes : Nat
  availableBytes : Nat
  /-- Free bytes uploads must never consume. -/
  reservedBytes : Nat
  usableBytes : Nat
  files : FileCounts
  stagedReplicas : Nat
  updatedAt : Nat
deriving DecidableEq, Repr

section Metrics

variable {Cid : Type}

def pinnedStorageBytes (records : List (FileRecord Cid)) : Nat :=
  ((records.filter (·.pinned)).map protectedStorageBytes).sum

def countByState (records : List (FileRecord Cid)) : FileCounts :=
  { temporary := records.countP (·.state = .temporary)
    confirmed := records.countP (·.state = .confirmed)
    expired := records.countP (·.state = .expired)
    total := records.length }

/-- What no pin protects is reclaimable: released files and cached blocks. -/
def refreshStorageMetrics (disk : DiskUsage) (diskReserveBytes : Nat)
    (records : List (FileRecord Cid)) (now : Nat) : StorageMetrics :=
  let pinnedBytes := pinnedStorageBytes records
  { blockstoreBytes := disk.blockstoreBytes
    datastoreBytes := disk.datastoreBytes
    pinnedBytes
    reclaimableBytes := disk.blockstoreBytes - pinnedBytes
    availableBytes := disk.availableBytes
    reservedBytes := diskReserveBytes
    usableBytes := disk.availableBytes - diskReserveBytes
    files := countByState records
    stagedReplicas := records.countP (·.replicaStage.isSome)
    updatedAt := now }

end Metrics

/-! ## The pass -/

inductive PassOp (Cid : Type) where
  | node (o : NodeOp Cid)
  /-- What the handover asks for; a dry run leaves the sweep where it is. -/
  | sweep (advance : Bool) (o : SweepOp Cid)
  | measure
  | now

def PassOp.Ret {Cid : Type} : PassOp Cid → Type
  | .node o => o.Ret
  | .sweep _ o => o.Ret
  | .measure => StorageMetrics
  | .now => Nat

abbrev Pass (Cid α : Type) := Prog (PassOp Cid) PassOp.Ret (LifecycleError Cid) α

structure CollectionReport (Cid : Type) extends GcReport Cid where
  /-- Files whose local copy was released because peers hold enough copies. -/
  demoted : List Cid

structure PassConfig (Cid : Type) where
  site : Site Cid
  watermarks : Watermarks
  diskReserveBytes : Nat

structure PassOptions where
  dryRun : Bool
  force : Bool
deriving DecidableEq, Repr

section Code

variable {Cid : Type} [DecidableEq Cid]

/-- The collection itself, given what was measured. -/
def PassConfig.gcOptions (config : PassConfig Cid) (options : PassOptions)
    (metrics : StorageMetrics) (startedAt : Nat) : GcRunOptions :=
  { measures :=
      { blockstoreBytes := metrics.blockstoreBytes
        reclaimableBytes := some metrics.reclaimableBytes
        watermarks := config.watermarks
        availableBytes := some metrics.availableBytes
        reserveBytes := some config.diskReserveBytes }
    now := startedAt
    force := options.force
    dryRun := options.dryRun }

def recoverStaleAdmissions : Pass Cid Unit :=
  Prog.embed PassOp.node (fun _ answer => answer) recoverInterruptedAdmissions

/-- Hand copies over. -/
def PassConfig.demote (config : PassConfig Cid) (dryRun : Bool) :
    Pass Cid (DemotionReport Cid) :=
  Prog.embed (PassOp.sweep !dryRun) (fun _ answer => answer)
    (demoteReleasableCopies config.site.score config.site.config config.site.nodes
      config.site.selfPeerId dryRun)

/-- Hand over what belongs elsewhere, then reclaim. -/
def collectStorage (config : PassConfig Cid) (options : PassOptions) :
    Pass Cid (CollectionReport Cid) := do
  let handover ← config.demote options.dryRun
  let metrics : StorageMetrics ← Prog.perform PassOp.measure
  let startedAt : Nat ← Prog.perform PassOp.now
  let report ← Prog.embed PassOp.node (fun _ answer => answer)
    (runGarbageCollection (config.gcOptions options metrics startedAt))
  pure { report with demoted := handover.demoted }

def collectGarbage (config : PassConfig Cid) (options : PassOptions) :
    Pass Cid (CollectionReport Cid) := do
  -- a dry run is a report, and clearing leftover tokens would still be a write
  if options.dryRun then pure () else recoverStaleAdmissions
  let collection ← collectStorage config options
  if collection.dryRun then pure collection
  else do
    let _ ← Prog.perform PassOp.measure
    pure collection

end Code

/-! ## A pass with nothing else running -/

/-- What a pass finds outside of the node's own state. -/
structure Surroundings (Cid : Type) where
  content : Content Cid
  listing : Listing Cid
  /-- What a peer says when it is asked for a file. -/
  answers : ReplicationPeer → Cid → Except (LifecycleError Cid) Bool
  disk : World Cid → DiskUsage
  now : Nat

/-- The node, and where its handover sweep stopped. -/
structure Collector (Cid : Type) where
  world : World Cid
  position : Option Cid

section Serving

variable {Cid : Type} [LinearOrder Cid] (config : PassConfig Cid) (env : Surroundings Cid)

def Surroundings.scan (w : World Cid) : RegistryScan Cid :=
  { records := env.listing.records w.files, proc := w.proc }

def Surroundings.metrics (w : World Cid) : StorageMetrics :=
  refreshStorageMetrics (env.disk w) config.diskReserveBytes (env.listing.records w.files) env.now

/-- Work on the files of the node. The datastore lists them in its own order. -/
def serveLocal : (o : NodeOp Cid) → World Cid → Except (LifecycleError Cid) o.Ret × World Cid
  | .run .scanRegistry, w => (.ok (env.scan w), w)
  | .run o, w => Prog.run (serve env.content) o.body w
  | .ask _, w => (.error .io, w)

/-- The batch of the handover, from everything settled. -/
def Surroundings.batch (w : World Cid) (position : Option Cid) : SweepBatch Cid :=
  nextSweepBatch .demote ((env.listing.records w.files).filter (isSettledHeldFile w.proc)) position

def serveHandover (advance : Bool) :
    (o : SweepOp Cid) → Collector Cid → Except (LifecycleError Cid) o.Ret × Collector Cid
  | .nextSweepBatch, s =>
      let selected := env.batch s.world s.position
      (.ok selected.records,
        if advance then { s with position := selected.nextCursor } else s)
  | .now, s => (.ok env.now, s)
  | .answerOrder holders, s => (.ok holders, s)
  | .probeHave peer cid, s => (env.answers peer cid, s)
  | .demoteCopy record, s =>
      let released := Prog.run (serve env.content) (demoteCopy record) s.world
      (released.1, { s with world := released.2 })
  | .elsewhere, s => (.ok (), s)

def servePass : (o : PassOp Cid) → Collector Cid → Except (LifecycleError Cid) o.Ret × Collector Cid
  | .node o, s =>
      let done := serveLocal env o s.world
      (done.1, { s with world := done.2 })
  | .sweep advance o, s => serveHandover env advance o s
  | .measure, s => (.ok (env.metrics config s.world), s)
  | .now, s => (.ok env.now, s)

/-- What a pass reports, and what it leaves. -/
def runPass (options : PassOptions) (s : Collector Cid) :
    Except (LifecycleError Cid) (CollectionReport Cid) × Collector Cid :=
  Prog.run (servePass config env) (collectGarbage config options) s

end Serving

end IpfsNode
