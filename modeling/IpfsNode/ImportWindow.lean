import IpfsNode.AdmissionBalance

/-!
# Collection and the import window

Blocks of an upload stay unpinned from the parser's first write to the handler's
pin, and those of a pulled copy from its first block to its record. Uploads hold
a lease for their whole session, copies for one callback, and the collector runs
Helia's deletion in a callback of its own. Here all of them run together;
`no_collection_in_window` says that the deletion never falls into a window.
-/

namespace IpfsNode

open TransitionSystem (Run always)

/-! ## Callbacks under a lease -/

/-- What the node runs under `withShared` or `withExclusive`. -/
inductive LeasedWork where
  | store
  | stage
  | cache
  | confirm
  /-- Helia's deletion of unpinned blocks. -/
  | collect
deriving DecidableEq, Repr

def LeasedWork.mode : LeasedWork → LeaseMode
  | .collect => .exclusive
  | _ => .shared

inductive WorkPhase where
  | begun
  /-- The first block arrived. -/
  | pulling
  | pinned
  | registered
deriving DecidableEq, Repr

inductive WorkStep where
  | block
  | pin
  | register
deriving DecidableEq, Repr

/-- Content is pulled, unless it is here, then pinned, then recorded. A cache copy
is pulled only. -/
def LeasedWork.next : LeasedWork → WorkPhase → WorkStep → Option WorkPhase
  | .collect, _, _ => none
  | _, .begun, .block => some .pulling
  | _, .pulling, .block => some .pulling
  | .cache, _, _ => none
  | _, .begun, .pin => some .pinned
  | _, .pulling, .pin => some .pinned
  | _, .pinned, .register => some .registered
  | _, _, _ => none

inductive CallbackStage where
  | waiting
  | running (phase : WorkPhase)
  | ended
deriving DecidableEq, Repr

structure LeaseCallback where
  work : LeasedWork
  /-- The number of its request for the lease. -/
  ticket : Nat
  stage : CallbackStage
deriving DecidableEq, Repr

namespace LeaseCallback

def isRunning (c : LeaseCallback) : Bool :=
  match c.stage with
  | .running _ => true
  | _ => false

/-- Between its first block and its record. -/
def isImporting (c : LeaseCallback) : Bool :=
  c.work ≠ .collect && (c.stage = .running .pulling || c.stage = .running .pinned)

theorem isRunning_of_importing {c : LeaseCallback} (h : c.isImporting = true) :
    c.work ≠ .collect ∧ c.isRunning = true := by
  simp only [isImporting, Bool.and_eq_true, Bool.or_eq_true, decide_eq_true_eq] at h
  rcases h with ⟨hwork, hstage | hstage⟩ <;> exact ⟨hwork, by simp [isRunning, hstage]⟩

end LeaseCallback

/-! ## Uploads -/

inductive HandlerStage where
  | idle
  /-- It took the session over. -/
  | working
  | ended
deriving DecidableEq, Repr

/-- What the parser and the handler of a request did. -/
structure UploadImport (Block : Type) where
  /-- Written, or found present. -/
  touched : List Block
  /-- Of those, what a collection deleted since. -/
  deleted : List Block
  /-- What had been deleted when the handler pinned. -/
  deletedBeforePin : List Block
  handler : HandlerStage
deriving DecidableEq, Repr

def UploadImport.new {Block : Type} : UploadImport Block where
  touched := []
  deleted := []
  deletedBeforePin := []
  handler := .idle

def UploadImport.delete {Block : Type} [DecidableEq Block] (block : Block)
    (u : UploadImport Block) : UploadImport Block :=
  if block ∈ u.touched then { u with deleted := block :: u.deleted } else u

/-! ## All of them together -/

structure ImportNode (Block : Type) where
  node : UploadNode
  /-- By the position of the request. -/
  imports : Nat → UploadImport Block
  callbacks : List LeaseCallback

namespace ImportNode

variable {Block : Type} [DecidableEq Block]

def start (maxConcurrent : Nat) : ImportNode Block where
  node := .start maxConcurrent
  imports := fun _ => .new
  callbacks := []

/-- The lock after a call of a callback. -/
def lockCall (s : ImportNode Block) (call : LockCall) : UploadNode :=
  { s.node with
    resources :=
      { s.node.resources with operationLock := s.node.resources.operationLock.call call } }

def setImport (s : ImportNode Block) (i : Nat) (u : UploadImport Block) : ImportNode Block :=
  { s with imports := Function.update s.imports i u }

def setStage (s : ImportNode Block) (k : Nat) (c : LeaseCallback) (stage : CallbackStage) :
    ImportNode Block :=
  { s with callbacks := s.callbacks.set k { c with stage } }

/-- The handler calls `claim`, `commit` and `cleanup`, the parser that failed
`cleanup`, and the callbacks use the lock; everything else happens to the admission
alone. -/
def IsAdmission : AdmissionEvent → Prop
  | .request _ .claim => False
  | .request _ .commit => False
  | .request _ (.cleanup _) => False
  | .lock _ => False
  | _ => True

inductive Event (Block : Type) where
  | admission (a : AdmissionEvent)
  | put (i : Nat) (block : Block)
  | claim (i : Nat)
  | pin (i : Nat)
  | commit (i : Nat)
  | fail (i : Nat) (waits : Bool)
  /-- `_removeFile` of the storage engine. -/
  | removeFile (i : Nat) (waits : Bool)
  | call (work : LeasedWork) (holding : Option LeaseMode)
  | granted (k : Nat)
  | work (k : Nat) (step : WorkStep)
  | delete (k : Nat) (block : Block)
  | finish (k : Nat)
deriving DecidableEq, Repr

/-- A step of the request with this position, as its handler or parser takes it. -/
def HandlerStep (limits : UploadLimits) (s : ImportNode Block) (i : Nat) (event : RequestEvent)
    (node : UploadNode) : Prop :=
  UploadNode.Step limits s.node (.request i event) node

inductive Step (limits : UploadLimits) : ImportNode Block → Event Block → ImportNode Block → Prop
  | admission {s : ImportNode Block} {a : AdmissionEvent} {node : UploadNode}
      (h : IsAdmission a) (hstep : UploadNode.Step limits s.node a node) :
      Step limits s (.admission a) { s with node }
  /-- The parser writes a block through the session, or finds it present. -/
  | put {s : ImportNode Block} {i : Nat} {block : Block} {r : AdmittedRequest}
      (h : s.node.requests[i]? = some r) (hsession : r.session.isSome = true) :
      Step limits s (.put i block) (s.setImport i
        { s.imports i with touched := block :: (s.imports i).touched })
  | claimed {s : ImportNode Block} {i : Nat} {r : AdmittedRequest} {session : SessionStatus}
      {node : UploadNode} (h : s.node.requests[i]? = some r) (hsession : r.session = some session)
      (hidle : (s.imports i).handler = .idle) (hunsettled : session.settled = false)
      (hstep : HandlerStep limits s i .claim node) :
      Step limits s (.claim i)
        (ImportNode.setImport { s with node } i { s.imports i with handler := .working })
  /-- The session has settled, and the handler throws. -/
  | refused {s : ImportNode Block} {i : Nat} {r : AdmittedRequest} {session : SessionStatus}
      (h : s.node.requests[i]? = some r) (hsession : r.session = some session)
      (hidle : (s.imports i).handler = .idle) (hsettled : session.settled = true) :
      Step limits s (.claim i) (s.setImport i { s.imports i with handler := .ended })
  | pin {s : ImportNode Block} {i : Nat} (hworking : (s.imports i).handler = .working) :
      Step limits s (.pin i) (s.setImport i { s.imports i with
        deletedBeforePin := (s.imports i).deleted ++ (s.imports i).deletedBeforePin })
  | commit {s : ImportNode Block} {i : Nat} {node : UploadNode}
      (hworking : (s.imports i).handler = .working) (hstep : HandlerStep limits s i .commit node) :
      Step limits s (.commit i)
        (ImportNode.setImport { s with node } i { s.imports i with handler := .ended })
  | fail {s : ImportNode Block} {i : Nat} {waits : Bool} {node : UploadNode}
      (hworking : (s.imports i).handler = .working)
      (hstep : HandlerStep limits s i (.cleanup waits) node) :
      Step limits s (.fail i waits)
        (ImportNode.setImport { s with node } i { s.imports i with handler := .ended })
  /-- The parser failed, so that no handler has the session, which may have settled. -/
  | removeFile {s : ImportNode Block} {i : Nat} {waits : Bool} {node : UploadNode}
      (hidle : (s.imports i).handler = .idle) (hstep : HandlerStep limits s i (.cleanup waits) node) :
      Step limits s (.removeFile i waits) { s with node }
  | call {s : ImportNode Block} {work : LeasedWork} :
      Step limits s (.call work none)
        { s with
          node := s.lockCall (.acquire none work.mode)
          callbacks := s.callbacks ++ [⟨work, s.node.resources.operationLock.next, .waiting⟩] }
  /-- A callback that holds a lease is refused another one. -/
  | reentry {s : ImportNode Block} {work : LeasedWork} {held : LeaseMode} :
      Step limits s (.call work (some held)) s
  | granted {s : ImportNode Block} {k : Nat} {c : LeaseCallback} (h : s.callbacks[k]? = some c)
      (hwaiting : c.stage = .waiting)
      (hlease : (s.node.resources.operationLock.lease? c.ticket).isSome = true) :
      Step limits s (.granted k) (s.setStage k c (.running .begun))
  | work {s : ImportNode Block} {k : Nat} {c : LeaseCallback} {step : WorkStep}
      {phase next : WorkPhase} (h : s.callbacks[k]? = some c) (hstage : c.stage = .running phase)
      (hnext : c.work.next phase step = some next) :
      Step limits s (.work k step) (s.setStage k c (.running next))
  | delete {s : ImportNode Block} {k : Nat} {c : LeaseCallback} {block : Block}
      (h : s.callbacks[k]? = some c) (hcollect : c.work = .collect)
      (hrunning : c.isRunning = true) :
      Step limits s (.delete k block) { s with imports := fun i => (s.imports i).delete block }
  /-- The callback settles, either way. -/
  | finish {s : ImportNode Block} {k : Nat} {c : LeaseCallback} (h : s.callbacks[k]? = some c)
      (hrunning : c.isRunning = true) :
      Step limits s (.finish k)
        (ImportNode.setStage { s with node := s.lockCall (.release c.ticket) } k c .ended)

end ImportNode

/-! ## What a request does with the lock -/

namespace AdmittedRequest

variable {limits : UploadLimits} {n : UploadResources} {r : AdmittedRequest}

theorem asked_releaseLease (r : AdmittedRequest) (n : UploadResources) :
    (r.releaseLease n).1.operationLock.asked = n.operationLock.asked := by
  unfold releaseLease
  split
  · rfl
  · exact StorageOperationLock.asked_release _ _

theorem asked_release (r : AdmittedRequest) (n : UploadResources) :
    (r.release n).1.operationLock.asked = n.operationLock.asked := by
  have hclaim : (({ r with released := true } : AdmittedRequest).releaseClaim n).1.operationLock =
      n.operationLock := by
    unfold releaseClaim
    split <;> rfl
  unfold release
  split
  · rfl
  dsimp only
  split
  · rw [asked_releaseLease]
    exact congrArg _ hclaim
  split
  · rw [asked_releaseLease]
    exact congrArg _ hclaim
  · exact congrArg _ hclaim

theorem asked_cleanup (r : AdmittedRequest) (session : SessionStatus) (waits : Bool)
    (n : UploadResources) :
    (r.cleanup session waits n).1.operationLock.asked = n.operationLock.asked := by
  unfold cleanup
  split
  · rfl
  dsimp only
  split
  · rfl
  · exact asked_releaseLease _ _

/-- A request asks for its lease once, in the beginning. -/
theorem asked_respond {event : RequestEvent} {result : UploadResources × AdmittedRequest}
    (h : Responds limits r n event result) :
    result.1.operationLock.asked = n.operationLock.asked := by
  cases h with
  | acquired hstage hlease =>
      unfold onAcquired
      dsimp only
      split
      · exact asked_releaseLease _ _
      · rfl
  | measured hstage =>
      unfold onMeasured
      split
      · exact asked_releaseLease _ _
      dsimp only
      split
      · exact asked_release _ _
      · rfl
  | measureFails hstage => rfl
  | nextReturns hstage => rfl
  | nextThrows hstage => rfl
  | fails hstage => exact asked_release _ _
  | close =>
      unfold onClose
      dsimp only
      split
      · exact asked_release _ _
      split
      · exact asked_release _ _
      · rw [asked_cleanup]
        exact asked_release _ _
  | claim hsession => rfl
  | commit hsession =>
      unfold commit
      split
      · rfl
      · exact asked_releaseLease _ _
  | cleanup hsession => exact asked_cleanup _ _ _ _
  | cleanupEnds hsession hcleaning => exact asked_releaseLease _ _

/-! ### What the handler does with an open session -/

theorem session_claim {session : SessionStatus} (hopen : session.settled = false) :
    (r.claim session).session = some { session with claimed := true } := by
  unfold claim
  rw [if_neg (by simp [hopen])]

theorem session_commit {session : SessionStatus} (hopen : session.settled = false) :
    (r.commit session n).2.session = some ⟨true, false, false⟩ := by
  unfold commit
  rw [if_neg (by simp [hopen])]
  exact (releaseLease_same _ n).2.1

theorem session_cleanup {session : SessionStatus} {waits : Bool}
    (hopen : session.settled = false) :
    (r.cleanup session waits n).2.session = some ⟨true, false, waits⟩ := by
  unfold cleanup
  rw [if_neg (by simp [hopen])]
  cases waits with
  | false => exact (releaseLease_same _ n).2.1
  | true => rfl

theorem settled_of_cleanup {session : SessionStatus} {waits : Bool}
    (h : r.session = some session) :
    ∃ after, (r.cleanup session waits n).2.session = some after ∧ after.settled = true := by
  cases hsettled : session.settled with
  | false => exact ⟨_, session_cleanup hsettled, rfl⟩
  | true =>
      unfold cleanup
      rw [if_pos hsettled]
      exact ⟨session, h, hsettled⟩

/-- What happens to a session while its handler does nothing. -/
inductive Moves : Option SessionStatus → Option SessionStatus → Prop
  | same (session : Option SessionStatus) : Moves session session
  | opens : Moves none (some ⟨false, false, false⟩)
  | settles {session session' : SessionStatus}
      (h : session.settled = true ∨ session.claimed = false) (h' : session'.settled = true) :
      Moves (some session) (some session')

theorem moves_respond {event : RequestEvent} {result : UploadResources × AdmittedRequest}
    (hsound : r.Sound n.operationLock) (h : Responds limits r n event result)
    (hclaim : event ≠ .claim) (hcommit : event ≠ .commit)
    (hcleanup : ∀ waits, event ≠ .cleanup waits) : Moves r.session result.2.session := by
  cases h with
  | acquired hstage hlease =>
      unfold onAcquired
      dsimp only
      split
      · exact (releaseLease_same _ n).2.1 ▸ .same _
      · exact .same _
  | measured hstage =>
      unfold onMeasured
      split
      · exact (releaseLease_same _ n).2.1 ▸ .same _
      dsimp only
      split
      · exact (release_same _ n).2.1 ▸ .same _
      · rw [(hsound.measuring hstage).2]
        exact .opens
  | measureFails hstage => exact .same _
  | nextReturns hstage => exact .same _
  | nextThrows hstage => exact .same _
  | fails hstage => exact (release_same _ n).2.1 ▸ .same _
  | @close waits =>
      have hsame : (({ r with closed := true } : AdmittedRequest).release n).2.session =
          r.session := (release_same _ n).2.1
      unfold onClose
      dsimp only
      split
      · rw [hsame]
        exact .same _
      · rename_i session hsession
        split
        · rw [hsame]
          exact .same _
        · rename_i hopen
          simp only [Bool.or_eq_true, not_or] at hopen
          rw [← hsame, hsession]
          unfold AdmittedRequest.cleanup
          rw [if_neg hopen.1]
          dsimp only
          split
          · exact .settles (.inr (Bool.eq_false_iff.mpr hopen.2)) rfl
          · rw [(releaseLease_same _ _).2.1]
            exact .settles (.inr (Bool.eq_false_iff.mpr hopen.2)) rfl
  | claim hsession => exact absurd rfl hclaim
  | commit hsession => exact absurd rfl hcommit
  | cleanup hsession => exact absurd rfl (hcleanup _)
  | cleanupEnds hsession hcleaning =>
      have hsettled := hsound.settled_of_cleaning hsession hcleaning
      rw [(releaseLease_same _ n).2.1, hsession]
      exact .settles (.inl hsettled) hsettled

end AdmittedRequest

namespace ImportNode

variable {Block : Type} [DecidableEq Block]
variable {limits : UploadLimits} {s s' : ImportNode Block} {i k : Nat} {c : LeaseCallback}

/-! ## Who has which lease -/

/-- What holds of the leases between two steps. -/
structure Leased (node : UploadNode) (callbacks : List LeaseCallback) : Prop where
  balanced : node.Balanced
  apart : ∀ r ∈ node.requests, ∀ c ∈ callbacks, r.ticket ≠ some c.ticket
  known : ∀ c ∈ callbacks, (c.ticket, c.work.mode) ∈ node.resources.operationLock.asked
  distinct : ∀ (j k : Nat) (c d : LeaseCallback), callbacks[j]? = some c →
    callbacks[k]? = some d → c.ticket = d.ticket → j = k
  fresh : ∀ c ∈ callbacks, c.stage = .waiting → ∀ lease,
    node.resources.operationLock.lease? c.ticket = some lease → lease.released = false
  running : ∀ c ∈ callbacks, c.isRunning = true → ∃ lease,
    node.resources.operationLock.lease? c.ticket = some lease ∧ lease.released = false

theorem start_leased (maxConcurrent : Nat) : Leased (.start maxConcurrent) [] where
  balanced := UploadNode.start_balanced maxConcurrent
  apart := fun _ hmem => absurd hmem List.not_mem_nil
  known := fun _ hmem => absurd hmem List.not_mem_nil
  distinct := fun _ _ _ _ h => nomatch List.getElem?_nil.symm.trans h
  fresh := fun _ hmem => absurd hmem List.not_mem_nil
  running := fun _ hmem => absurd hmem List.not_mem_nil

variable {node node' : UploadNode} {callbacks : List LeaseCallback}

theorem Leased.lt_next (h : Leased node callbacks) (hmem : c ∈ callbacks) :
    c.ticket < node.resources.operationLock.next := by
  have hrange : c.ticket ∈ List.range node.resources.operationLock.next := by
    rw [← h.balanced.fair.order]
    have hasked := h.known c hmem
    unfold StorageOperationLock.asked at hasked
    rcases List.mem_append.mp hasked with hin | hin
    · obtain ⟨lease, hlease, heq⟩ := List.mem_map.mp hin
      refine List.mem_append_left _ (List.mem_map.mpr ⟨lease, hlease, congrArg Prod.fst heq⟩)
    · obtain ⟨w, hw, heq⟩ := List.mem_map.mp hin
      exact List.mem_append_right _ (List.mem_map.mpr ⟨w, hw, congrArg Prod.fst heq⟩)
  exact List.mem_range.mp hrange

/-- While a callback of the collector runs, no other lease is held. -/
theorem Leased.alone (h : Leased node callbacks) (hmem : c ∈ callbacks)
    (hcollect : c.work = .collect) (hrunning : c.isRunning = true) {id : Nat}
    {lease : StorageOperationLease} (hlease : node.resources.operationLock.lease? id = some lease)
    (hheld : lease.released = false) : id = c.ticket := by
  obtain ⟨own, hown, hownHeld⟩ := h.running c hmem hrunning
  have hmode : own.mode = .exclusive := by
    have hasked := h.known c hmem
    rw [hcollect] at hasked
    exact h.balanced.fair.mode_eq hasked hown
  have hin : own ∈ node.resources.operationLock.held :=
    StorageOperationLock.mem_held.mpr ⟨List.mem_of_find?_eq_some hown, hownHeld⟩
  have hin' : lease ∈ node.resources.operationLock.held :=
    StorageOperationLock.mem_held.mpr ⟨List.mem_of_find?_eq_some hlease, hheld⟩
  have hsame := h.balanced.fair.exclusive hin hin' hmode
  have hid : lease.id = id := by simpa using List.find?_some hlease
  have hid' : own.id = c.ticket := by simpa using List.find?_some hown
  rw [← hid, hsame, hid']

/-- The deletion runs while no session is open and no copy is being imported. -/
theorem Leased.excludes (h : Leased node callbacks) (hmem : c ∈ callbacks)
    (hcollect : c.work = .collect) (hrunning : c.isRunning = true) :
    (∀ r ∈ node.requests, ∀ session, r.session = some session → session.settled = true) ∧
      ∀ d ∈ callbacks, d.isImporting = false := by
  constructor
  · intro r hr session hsession
    by_contra hopen
    have howned := (h.balanced.sound r hr).owned
    unfold AdmittedRequest.Owned at howned
    rw [hsession] at howned
    dsimp only at howned
    rw [if_neg hopen] at howned
    obtain ⟨lease, hbind, hheld⟩ := Option.map_eq_some_iff.mp howned.1
    obtain ⟨id, hid, hlease⟩ := Option.bind_eq_some_iff.mp hbind
    have hticket := (h.balanced.sound r hr).ticket hid
    rw [h.alone hmem hcollect hrunning hlease hheld] at hticket
    exact h.apart r hr c hmem hticket
  · intro d hd
    by_contra himporting
    obtain ⟨hwork, hrunning'⟩ := LeaseCallback.isRunning_of_importing
      (Bool.not_eq_false _ |>.mp himporting)
    obtain ⟨lease, hlease, hheld⟩ := h.running d hd hrunning'
    have hticket := h.alone hmem hcollect hrunning hlease hheld
    obtain ⟨j, hj⟩ := List.getElem?_of_mem hd
    obtain ⟨k, hk⟩ := List.getElem?_of_mem hmem
    obtain rfl := h.distinct j k d c hj hk hticket
    obtain rfl := Option.some.inj (hj.symm.trans hk)
    exact hwork hcollect

/-- What a step of the admission leaves to the callbacks. -/
structure Yields (node node' : UploadNode) : Prop where
  asked : ∀ asking ∈ node.resources.operationLock.asked,
    asking ∈ node'.resources.operationLock.asked
  tickets : ∀ r' ∈ node'.requests, ∀ id, r'.ticket = some id →
    (∃ r ∈ node.requests, r.ticket = some id) ∨ id = node.resources.operationLock.next
  spares : ∀ id, (∀ r ∈ node.requests, r.ticket ≠ some id) →
    node.resources.operationLock.Spares node'.resources.operationLock id

theorem yields_step {a : AdmissionEvent} (h : node.Balanced)
    (hstep : UploadNode.Step limits node a node') (hlock : ∀ call, a ≠ .lock call) :
    Yields node node' := by
  cases hstep with
  | refused => exact ⟨fun _ h => h, fun r hr _ hid => .inl ⟨r, hr, hid⟩, fun _ _ => .refl _ _⟩
  | @admitted declaredBytes holding limiter n r hslot hcreate =>
      obtain ⟨-, -, -, -, -, ⟨call, hcall, hrelease⟩, hticket⟩ :=
        h.arrives hslot declaredBytes holding hcreate
      refine ⟨fun asking hasked => ?_, fun r' hr' id hid => ?_, fun id _ => ?_⟩
      · show asking ∈ n.operationLock.asked
        rw [hcall]
        exact StorageOperationLock.asked_call hasked call
      · rcases List.mem_append.mp hr' with hold | hnew
        · exact .inl ⟨r', hold, hid⟩
        · obtain rfl := List.mem_singleton.mp hnew
          exact .inr (hticket id hid).1
      · show StorageOperationLock.Spares _ n.operationLock id
        rw [hcall]
        exact StorageOperationLock.spares_call call (hrelease id)
  | @request i event r r' n hget hrespond =>
      have hmem := List.mem_of_getElem? hget
      have hresponds := AdmittedRequest.responds_of_respond hrespond
      have hpasses := ((h.sound r hmem).respond hresponds).passes
      refine ⟨fun asking hasked => ?_, fun q hq id hid => ?_, fun id hnone => ?_⟩
      · show asking ∈ n.operationLock.asked
        rw [AdmittedRequest.asked_respond hresponds]
        exact hasked
      · obtain ⟨j, hj⟩ := List.getElem?_of_mem hq
        rcases UploadNode.of_request_set hj with ⟨-, rfl⟩ | ⟨-, hold⟩
        · exact .inl ⟨r, hmem, hpasses.ticket ▸ hid⟩
        · exact .inl ⟨q, List.mem_of_getElem? hold, hid⟩
      · exact hpasses.spares id (hnone r hmem)
  | lock hforeign => exact absurd rfl (hlock _)
  | copyClaims hclaim =>
      exact ⟨fun _ h => h, fun r hr _ hid => .inl ⟨r, hr, hid⟩, fun _ _ => .refl _ _⟩
  | copyReleases hget =>
      exact ⟨fun _ h => h, fun r hr _ hid => .inl ⟨r, hr, hid⟩, fun _ _ => .refl _ _⟩

/-- A lease that is spared is what it was. -/
theorem Leased.spared (h : Leased node callbacks) (hmem : c ∈ callbacks)
    {l : StorageOperationLock} (hspares : node.resources.operationLock.Spares l c.ticket) :
    (c.stage = .waiting → ∀ lease, l.lease? c.ticket = some lease → lease.released = false) ∧
      (c.isRunning = true → ∃ lease, l.lease? c.ticket = some lease ∧ lease.released = false) := by
  constructor
  · intro hwaiting lease hlease
    cases hbefore : node.resources.operationLock.lease? c.ticket with
    | none => exact hspares.fresh lease hbefore hlease
    | some granted =>
        have hsame : granted = lease :=
          Option.some.inj ((hspares.kept granted hbefore).symm.trans hlease)
        exact hsame ▸ h.fresh c hmem hwaiting granted hbefore
  · intro hrunning
    obtain ⟨lease, hlease, hheld⟩ := h.running c hmem hrunning
    exact ⟨lease, hspares.kept lease hlease, hheld⟩

theorem Leased.yields (h : Leased node callbacks) (hbalanced : node'.Balanced)
    (hyields : Yields node node') : Leased node' callbacks := by
  have hspared (c : LeaseCallback) (hc : c ∈ callbacks) := h.spared hc
    (hyields.spares c.ticket fun r hr => h.apart r hr c hc)
  refine ⟨hbalanced, fun r hr c hc hticket => ?_, fun c hc => hyields.asked _ (h.known c hc),
    h.distinct, fun c hc => (hspared c hc).1, fun c hc => (hspared c hc).2⟩
  rcases hyields.tickets r hr c.ticket hticket with ⟨q, hq, hsame⟩ | hnew
  · exact h.apart q hq c hc hsame
  · have := h.lt_next hc
    omega

/-- A callback that goes on keeps its ticket. -/
theorem Leased.setStage (h : Leased node callbacks) (hget : callbacks[k]? = some c)
    {stage : CallbackStage} (hfresh : stage ≠ .waiting)
    (hrunning : (∃ phase, stage = .running phase) → ∃ lease,
      node.resources.operationLock.lease? c.ticket = some lease ∧ lease.released = false) :
    Leased node (callbacks.set k { c with stage }) := by
  have hmem := List.mem_of_getElem? hget
  have hlt := (List.getElem?_eq_some_iff.mp hget).1
  have hcases (d : LeaseCallback) (hd : d ∈ callbacks.set k { c with stage }) :
      d = { c with stage } ∨ d ∈ callbacks := (List.mem_or_eq_of_mem_set hd).symm
  refine ⟨h.balanced, fun r hr d hd => ?_, fun d hd => ?_, fun j j' d d' hd hd' hticket => ?_,
    fun d hd hwaiting => ?_, fun d hd hrun => ?_⟩
  · rcases hcases d hd with rfl | hold
    · exact h.apart r hr c hmem
    · exact h.apart r hr d hold
  · rcases hcases d hd with rfl | hold
    · exact h.known c hmem
    · exact h.known d hold
  · have hold {j : Nat} {d : LeaseCallback}
        (hd : (callbacks.set k { c with stage })[j]? = some d) :
        ∃ e, callbacks[j]? = some e ∧ e.ticket = d.ticket := by
      rw [List.getElem?_set] at hd
      split at hd
      · rename_i heq
        obtain rfl : { c with stage } = d := by simpa [heq ▸ hlt] using hd
        exact ⟨c, heq ▸ hget, rfl⟩
      · exact ⟨d, hd, rfl⟩
    obtain ⟨e, he, hsame⟩ := hold hd
    obtain ⟨e', he', hsame'⟩ := hold hd'
    exact h.distinct j j' e e' he he' (by rw [hsame, hsame', hticket])
  · rcases hcases d hd with rfl | hold
    · exact absurd hwaiting hfresh
    · exact h.fresh d hold hwaiting
  · rcases hcases d hd with rfl | hold
    · refine hrunning ?_
      unfold LeaseCallback.isRunning at hrun
      split at hrun
      · rename_i phase hphase
        exact ⟨phase, hphase⟩
      · cases hrun
    · exact h.running d hold hrun

omit [DecidableEq Block] in
theorem balanced_lockCall (h : s.node.Balanced) {call : LockCall}
    (hforeign : s.node.IsForeign call) : (s.lockCall call).Balanced :=
  have hstep : UploadNode.Step ⟨0, 0⟩ s.node (.lock call) (s.lockCall call) := .lock hforeign
  hstep.balanced h

omit [DecidableEq Block] in
theorem Leased.call (h : Leased s.node s.callbacks) (work : LeasedWork) :
    Leased (s.lockCall (.acquire none work.mode))
      (s.callbacks ++ [⟨work, s.node.resources.operationLock.next, .waiting⟩]) := by
  let lock := s.node.resources.operationLock
  have hbalanced : (s.lockCall (.acquire none work.mode)).Balanced :=
    balanced_lockCall h.balanced fun id heq => by cases heq
  have hspares (id : Nat) : lock.Spares (lock.call (.acquire none work.mode)) id :=
    StorageOperationLock.spares_call _ nofun
  have hspared (c : LeaseCallback) (hc : c ∈ s.callbacks) := h.spared hc (hspares c.ticket)
  have hcases (c : LeaseCallback)
      (hc : c ∈ s.callbacks ++ [⟨work, s.node.resources.operationLock.next, .waiting⟩]) :
      c ∈ s.callbacks ∨ c = ⟨work, s.node.resources.operationLock.next, .waiting⟩ := by
    simpa using hc
  refine ⟨hbalanced, fun r hr c hc hticket => ?_, fun c hc => ?_, fun j k c d hc hd hticket => ?_,
    fun c hc hwaiting => ?_, fun c hc hrunning => ?_⟩
  · rcases hcases c hc with hold | rfl
    · exact h.apart r hr c hold hticket
    · exact Nat.lt_irrefl _ (h.balanced.tickets r hr _ hticket)
  · rcases hcases c hc with hold | rfl
    · exact StorageOperationLock.asked_call (h.known c hold) _
    · show _ ∈ (lock.acquire none work.mode).asked
      rw [StorageOperationLock.asked_acquire]
      exact List.mem_append_right _ (List.mem_singleton.mpr rfl)
  · have hsplit {j : Nat} {c : LeaseCallback}
        (hc : (s.callbacks ++ [⟨work, s.node.resources.operationLock.next, .waiting⟩])[j]? =
          some c) : s.callbacks[j]? = some c ∨ j = s.callbacks.length ∧
            c.ticket = s.node.resources.operationLock.next := by
      rw [List.getElem?_append] at hc
      split at hc
      · exact .inl hc
      · rw [List.getElem?_singleton] at hc
        split at hc
        · obtain rfl := Option.some.inj hc
          exact .inr ⟨by omega, rfl⟩
        · cases hc
    rcases hsplit hc with hold | ⟨hj, hnew⟩ <;> rcases hsplit hd with hold' | ⟨hk, hnew'⟩
    · exact h.distinct j k c d hold hold' hticket
    · have := h.lt_next (List.mem_of_getElem? hold)
      omega
    · have := h.lt_next (List.mem_of_getElem? hold')
      omega
    · omega
  · rcases hcases c hc with hold | rfl
    · exact (hspared c hold).1 hwaiting
    · exact fun lease => (hspares _).fresh lease (StorageOperationLock.lease?_next h.balanced.fair)
  · rcases hcases c hc with hold | rfl
    · exact (hspared c hold).2 hrunning
    · cases hrunning

omit [DecidableEq Block] in
theorem Leased.finish (h : Leased s.node s.callbacks) (hget : s.callbacks[k]? = some c) :
    Leased (s.lockCall (.release c.ticket)) (s.callbacks.set k { c with stage := .ended }) := by
  have hmem := List.mem_of_getElem? hget
  have hbalanced : (s.lockCall (.release c.ticket)).Balanced := by
    refine balanced_lockCall h.balanced fun id heq r hr => ?_
    obtain rfl := LockCall.release.inj heq
    exact h.apart r hr c hmem
  -- The ended callback no longer needs its lease, and no other has it.
  have hended : Leased s.node (s.callbacks.set k { c with stage := .ended }) :=
    h.setStage hget nofun (by rintro ⟨phase, hphase⟩; cases hphase)
  have hspared (d : LeaseCallback) (hd : d ∈ s.callbacks.set k { c with stage := .ended })
      (hother : d.ticket ≠ c.ticket) := hended.spared hd
    (StorageOperationLock.spares_release (l := s.node.resources.operationLock) hother)
  have hlive (d : LeaseCallback) (hd : d ∈ s.callbacks.set k { c with stage := .ended })
      (hstage : d.stage ≠ .ended) : d.ticket ≠ c.ticket := by
    intro hticket
    obtain ⟨j, hj⟩ := List.getElem?_of_mem hd
    have hlt := (List.getElem?_eq_some_iff.mp hget).1
    obtain rfl := hended.distinct j k d { c with stage := .ended } hj
      (List.getElem?_set_self hlt) hticket
    rw [List.getElem?_set_self hlt] at hj
    obtain rfl := Option.some.inj hj
    exact hstage rfl
  refine ⟨hbalanced, hended.apart, fun d hd => ?_, hended.distinct, fun d hd hwaiting => ?_,
    fun d hd hrunning => ?_⟩
  · exact StorageOperationLock.asked_call (hended.known d hd) _
  · exact (hspared d hd (hlive d hd (by simp [hwaiting]))).1 hwaiting
  · refine (hspared d hd (hlive d hd fun hstage => ?_)).2 hrunning
    simp [LeaseCallback.isRunning, hstage] at hrunning

theorem Step.leased {a : Event Block} (hstep : Step limits s a s')
    (h : Leased s.node s.callbacks) : Leased s'.node s'.callbacks := by
  have hnode {a : AdmissionEvent} {node : UploadNode}
      (hstep : UploadNode.Step limits s.node a node) (hlock : ∀ call, a ≠ .lock call) :
      Leased node s.callbacks :=
    h.yields (hstep.balanced h.balanced) (yields_step h.balanced hstep hlock)
  cases hstep with
  | admission hadmission hstep =>
      exact hnode hstep fun call heq => by
        subst heq
        exact hadmission
  | put => exact h
  | claimed hget hsession hidle hunsettled hstep => exact hnode hstep nofun
  | refused => exact h
  | pin => exact h
  | commit hworking hstep => exact hnode hstep nofun
  | fail hworking hstep => exact hnode hstep nofun
  | removeFile hidle hstep => exact hnode hstep fun call heq => by cases heq
  | call => exact h.call _
  | reentry => exact h
  | granted hget hwaiting hlease =>
      refine h.setStage hget nofun fun _ => ?_
      obtain ⟨lease, hsome⟩ := Option.isSome_iff_exists.mp hlease
      exact ⟨lease, hsome, h.fresh _ (List.mem_of_getElem? hget) hwaiting lease hsome⟩
  | work hget hstage hnext =>
      refine h.setStage hget nofun fun _ => h.running _ (List.mem_of_getElem? hget) ?_
      simp [LeaseCallback.isRunning, hstage]
  | delete => exact h
  | finish hget hrunning => exact h.finish hget

/-! ## What is deleted -/

/-- The session of the request with this position. -/
def sessionAt (node : UploadNode) (i : Nat) : Option SessionStatus :=
  node.requests[i]? >>= (·.session)

theorem sessionAt_eq {r : AdmittedRequest} (h : node.requests[i]? = some r) :
    sessionAt node i = r.session := by
  simp [sessionAt, h]

theorem sessionAt_set {r : AdmittedRequest} {n : UploadResources} {j : Nat}
    (hlt : i < node.requests.length) :
    sessionAt { node with resources := n, requests := node.requests.set i r } j =
      if j = i then r.session else sessionAt node j := by
  simp only [sessionAt, List.getElem?_set, eq_comm (a := i), if_pos hlt]
  split <;> rfl

theorem sessionAt_step {a : AdmissionEvent} (h : node.Balanced) (hadmission : IsAdmission a)
    (hstep : UploadNode.Step limits node a node') (i : Nat) :
    AdmittedRequest.Moves (sessionAt node i) (sessionAt node' i) := by
  cases hstep with
  | refused => exact .same _
  | @admitted declaredBytes holding limiter n r hslot hcreate =>
      obtain ⟨-, -, -, hsession, -⟩ := h.arrives hslot declaredBytes holding hcreate
      have hsame : sessionAt { node with resources := n, requests := node.requests ++ [r] } i =
          sessionAt node i := by
        simp only [sessionAt, List.getElem?_append]
        split
        · rfl
        · rename_i hge
          rw [List.getElem?_eq_none (by omega : node.requests.length ≤ i), List.getElem?_singleton]
          split
          · exact hsession
          · rfl
      exact hsame ▸ .same _
  | @request j event r r' n hget hrespond =>
      have hlt := (List.getElem?_eq_some_iff.mp hget).1
      have hmoves := AdmittedRequest.moves_respond (h.sound r (List.mem_of_getElem? hget))
        (AdmittedRequest.responds_of_respond hrespond) (by rintro rfl; exact hadmission)
        (by rintro rfl; exact hadmission) (by rintro waits rfl; exact hadmission)
      rw [sessionAt_set hlt]
      split
      · rename_i heq
        rw [heq, sessionAt_eq hget]
        exact hmoves
      · exact .same _
  | lock hforeign => exact absurd hadmission id
  | copyClaims hclaim => exact .same _
  | copyReleases hget => exact .same _

/-- What a step of the handler does to the sessions. -/
theorem sessionAt_handler {event : RequestEvent}
    (hstep : UploadNode.Step limits node (.request i event) node') :
    ∃ r n r', node.requests[i]? = some r ∧ r.respond limits node.resources event = some (n, r') ∧
      ∀ j, sessionAt node' j = if j = i then r'.session else sessionAt node j := by
  cases hstep with
  | @request _ _ r r' n hget hrespond =>
      exact ⟨r, n, r', hget, hrespond, fun j =>
        sessionAt_set (List.getElem?_eq_some_iff.mp hget).1⟩

/-- What holds of the imports between two steps: blocks are touched in a session,
and nothing of an open session is deleted. -/
structure Intact (session : Nat → Option SessionStatus) (imports : Nat → UploadImport Block) :
    Prop where
  unopened : ∀ i, session i = none → (imports i).touched = [] ∧ (imports i).deleted = []
  unsettled : ∀ i σ, session i = some σ → σ.settled = false → (imports i).deleted = []
  working : ∀ i, (imports i).handler = .working →
    ∃ σ, session i = some σ ∧ σ.settled = false ∧ σ.claimed = true
  before : ∀ i, (imports i).deletedBeforePin = []

omit [DecidableEq Block] in
theorem Intact.moves {session session' : Nat → Option SessionStatus}
    {imports : Nat → UploadImport Block} (h : Intact session imports)
    (hmoves : ∀ i, AdmittedRequest.Moves (session i) (session' i)) : Intact session' imports := by
  refine ⟨fun i hnone => ?_, fun i σ hσ hopen => ?_, fun i hworking => ?_, h.before⟩
  · have hi := hmoves i
    rw [hnone] at hi
    generalize hbefore : session i = before at hi
    cases hi with
    | same => exact h.unopened i hbefore
  · have hi := hmoves i
    rw [hσ] at hi
    generalize hbefore : session i = before at hi
    cases hi with
    | same => exact h.unsettled i σ hbefore hopen
    | opens => exact (h.unopened i hbefore).2
    | settles hold hsettled =>
        rw [hopen] at hsettled
        cases hsettled
  · obtain ⟨σ, hσ, hopen, hclaimed⟩ := h.working i hworking
    have hi := hmoves i
    rw [hσ] at hi
    generalize hafter : session' i = after at hi
    cases hi with
    | same => exact ⟨σ, rfl, hopen, hclaimed⟩
    | settles hold hsettled =>
        rw [hopen, hclaimed] at hold
        simp at hold

omit [DecidableEq Block] in
/-- The handler takes a step of its own. -/
theorem Intact.handler {session session' : Nat → Option SessionStatus}
    {imports : Nat → UploadImport Block} {σ' : SessionStatus} {handler : HandlerStage}
    (h : Intact session imports)
    (hsession : ∀ j, session' j = if j = i then some σ' else session j)
    (hdeleted : σ'.settled = false → (imports i).deleted = [])
    (hworking : handler = .working → σ'.settled = false ∧ σ'.claimed = true) :
    Intact session' (Function.update imports i { imports i with handler }) := by
  refine ⟨fun j hnone => ?_, fun j σ hσ hopen => ?_, fun j hj => ?_, fun j => ?_⟩
  · rw [hsession] at hnone
    split at hnone
    · cases hnone
    · rename_i hne
      rw [Function.update_of_ne hne]
      exact h.unopened j hnone
  · rw [hsession] at hσ
    split at hσ
    · rename_i heq
      obtain rfl := Option.some.inj hσ
      rw [heq, Function.update_self]
      exact hdeleted hopen
    · rename_i hne
      rw [Function.update_of_ne hne]
      exact h.unsettled j σ hσ hopen
  · rw [hsession]
    split
    · rename_i heq
      rw [heq, Function.update_self] at hj
      exact ⟨σ', rfl, hworking hj⟩
    · rename_i hne
      rw [Function.update_of_ne hne] at hj
      exact h.working j hj
  · by_cases heq : j = i
    · rw [heq, Function.update_self]
      exact h.before i
    · rw [Function.update_of_ne heq]
      exact h.before j

omit [DecidableEq Block] in
/-- What an import notes down of itself. -/
theorem Intact.update {session : Nat → Option SessionStatus}
    {imports : Nat → UploadImport Block} {u : UploadImport Block} (h : Intact session imports)
    (hunopened : session i = none → u.touched = [] ∧ u.deleted = [])
    (hdeleted : u.deleted = (imports i).deleted)
    (hworking : u.handler = .working → (imports i).handler = .working)
    (hbefore : u.deletedBeforePin = []) : Intact session (Function.update imports i u) := by
  refine ⟨fun j hnone => ?_, fun j σ hσ hopen => ?_, fun j hj => ?_, fun j => ?_⟩ <;>
    by_cases heq : j = i
  · rw [heq, Function.update_self]
    exact hunopened (heq ▸ hnone)
  · rw [Function.update_of_ne heq]
    exact h.unopened j hnone
  · rw [heq, Function.update_self, hdeleted]
    exact h.unsettled i σ (heq ▸ hσ) hopen
  · rw [Function.update_of_ne heq]
    exact h.unsettled j σ hσ hopen
  · rw [heq, Function.update_self] at hj
    exact heq ▸ h.working i (hworking hj)
  · rw [Function.update_of_ne heq] at hj
    exact h.working j hj
  · rw [heq, Function.update_self]
    exact hbefore
  · rw [Function.update_of_ne heq]
    exact h.before j

/-- A collection deletes nothing that an open session touched, as there is none. -/
theorem Intact.delete {session : Nat → Option SessionStatus}
    {imports : Nat → UploadImport Block} (h : Intact session imports)
    (hsettled : ∀ i σ, session i = some σ → σ.settled = true) (block : Block) :
    Intact session fun i => (imports i).delete block := by
  have hkept (u : UploadImport Block) : (u.delete block).touched = u.touched ∧
      (u.delete block).handler = u.handler ∧
      (u.delete block).deletedBeforePin = u.deletedBeforePin := by
    unfold UploadImport.delete
    split <;> exact ⟨rfl, rfl, rfl⟩
  refine ⟨fun i hnone => ?_, fun i σ hσ hopen => ?_, fun i hworking => ?_, fun i => ?_⟩
  · obtain ⟨htouched, hdeleted⟩ := h.unopened i hnone
    have hsame : (imports i).delete block = imports i := by
      unfold UploadImport.delete
      rw [htouched, if_neg List.not_mem_nil]
    rw [hsame]
    exact ⟨htouched, hdeleted⟩
  · rw [hsettled i σ hσ] at hopen
    cases hopen
  · rw [(hkept _).2.1] at hworking
    exact h.working i hworking
  · rw [(hkept _).2.2]
    exact h.before i

theorem Step.intact {a : Event Block} (hstep : Step limits s a s')
    (hleased : Leased s.node s.callbacks) (h : Intact (sessionAt s.node) s.imports) :
    Intact (sessionAt s'.node) s'.imports := by
  cases hstep with
  | admission hadmission hstep =>
      exact h.moves (sessionAt_step hleased.balanced hadmission hstep)
  | @put i block r hget hsession =>
      refine h.update (fun hnone => ?_) rfl id (h.before i)
      rw [sessionAt_eq hget] at hnone
      rw [hnone] at hsession
      cases hsession
  | @claimed i r session node hget hsession hidle hunsettled hstep =>
      obtain ⟨q, n, r', hget', hrespond, hsessions⟩ := sessionAt_handler hstep
      obtain rfl := Option.some.inj (hget.symm.trans hget')
      obtain rfl : r.claim session = r' := by
        simp only [AdmittedRequest.respond, hsession, Option.map_some,
          Option.some.injEq] at hrespond
        exact congrArg Prod.snd hrespond
      rw [AdmittedRequest.session_claim hunsettled] at hsessions
      refine h.handler hsessions (fun _ => ?_) fun _ => ⟨hunsettled, rfl⟩
      exact h.unsettled i session (by rw [sessionAt_eq hget, hsession]) hunsettled
  | @refused i r session hget hsession hidle hsettled =>
      refine h.update (fun hnone => ?_) rfl (fun h => by cases h) (h.before i)
      rw [sessionAt_eq hget, hsession] at hnone
      cases hnone
  | @pin i hworking =>
      obtain ⟨σ, hσ, hopen, -⟩ := h.working i hworking
      refine h.update (fun hnone => ?_) rfl id ?_
      · rw [hσ] at hnone
        cases hnone
      · show (s.imports i).deleted ++ (s.imports i).deletedBeforePin = []
        rw [h.unsettled i σ hσ hopen, h.before i]
        rfl
  | @commit i node hworking hstep =>
      obtain ⟨r, n, r', hget, hrespond, hsessions⟩ := sessionAt_handler hstep
      obtain ⟨σ, hσ, hopen, -⟩ := h.working i hworking
      rw [sessionAt_eq hget] at hσ
      obtain rfl : (r.commit σ s.node.resources).2 = r' := by
        simp only [AdmittedRequest.respond, hσ, Option.map_some, Option.some.injEq] at hrespond
        rw [hrespond]
      rw [AdmittedRequest.session_commit hopen] at hsessions
      exact h.handler hsessions (fun h => by cases h) fun h => by cases h
  | @fail i waits node hworking hstep =>
      obtain ⟨r, n, r', hget, hrespond, hsessions⟩ := sessionAt_handler hstep
      obtain ⟨σ, hσ, hopen, -⟩ := h.working i hworking
      rw [sessionAt_eq hget] at hσ
      obtain rfl : (r.cleanup σ waits s.node.resources).2 = r' := by
        simp only [AdmittedRequest.respond, hσ, Option.map_some, Option.some.injEq] at hrespond
        rw [hrespond]
      rw [AdmittedRequest.session_cleanup hopen] at hsessions
      exact h.handler hsessions (fun h => by cases h) fun h => by cases h
  | @removeFile i waits node hidle hstep =>
      obtain ⟨r, n, r', hget, hrespond, hsessions⟩ := sessionAt_handler hstep
      cases hsession : r.session with
      | none => simp [AdmittedRequest.respond, hsession] at hrespond
      | some σ =>
          obtain rfl : (r.cleanup σ waits s.node.resources).2 = r' := by
            simp only [AdmittedRequest.respond, hsession, Option.map_some,
              Option.some.injEq] at hrespond
            rw [hrespond]
          obtain ⟨after, hafter, hsettled⟩ : ∃ after,
              (r.cleanup σ waits s.node.resources).2.session = some after ∧
                after.settled = true := AdmittedRequest.settled_of_cleanup hsession
          rw [hafter] at hsessions
          have hsame : { s.imports i with handler := .idle } = s.imports i := by rw [← hidle]
          have hupdated : Intact (sessionAt node)
              (Function.update s.imports i { s.imports i with handler := .idle }) :=
            h.handler hsessions (fun hopen => by rw [hsettled] at hopen; cases hopen)
              fun hworking => by cases hworking
          rw [hsame, Function.update_eq_self] at hupdated
          exact hupdated
  | call => exact h
  | reentry => exact h
  | granted => exact h
  | work => exact h
  | @delete k c block hget hcollect hrunning =>
      refine h.delete (fun i σ hσ => ?_) block
      obtain ⟨r, hr, hsession⟩ := Option.bind_eq_some_iff.mp hσ
      exact (hleased.excludes (List.mem_of_getElem? hget) hcollect hrunning).1 r
        (List.mem_of_getElem? hr) σ hsession
  | finish => exact h

theorem intact_of_run {maxConcurrent : Nat}
    (h : Run (Step limits) always (start maxConcurrent) s) :
    Leased s.node s.callbacks ∧ Intact (sessionAt s.node) s.imports := by
  refine h.invariant
    (I := fun s => Leased s.node s.callbacks ∧ Intact (sessionAt s.node) s.imports)
    ⟨start_leased maxConcurrent, ?_⟩
    fun _ _ _ hkept _ hstep => ⟨hstep.leased hkept.1, hstep.intact hkept.1 hkept.2⟩
  exact ⟨fun _ _ => ⟨rfl, rfl⟩, nofun, nofun, fun _ => rfl⟩

/-- While a collection deletes, no upload session is open and no copy is between
its first block and its record; so nothing that an upload wrote or found present
had been deleted when it was pinned. -/
theorem no_collection_in_window {maxConcurrent : Nat}
    (h : Run (Step limits) always (start maxConcurrent) s) :
    (∀ c ∈ s.callbacks, c.work = .collect → c.isRunning = true →
      (∀ r ∈ s.node.requests, ∀ session, r.session = some session → session.settled = true) ∧
      ∀ d ∈ s.callbacks, d.isImporting = false) ∧
    ∀ i, (s.imports i).deletedBeforePin = [] := by
  obtain ⟨hleased, hintact⟩ := intact_of_run h
  exact ⟨fun c hmem hcollect hrunning => hleased.excludes hmem hcollect hrunning, hintact.before⟩

namespace CommittedUpload

def uploadLimits : UploadLimits := ⟨50, 10⟩

def request (stage : AdmissionStage) (session : SessionStatus) (leaseReturns : Nat) :
    AdmittedRequest where
  declaredBytes := some 20
  stage := stage
  released := false
  claimed := some ⟨20, false, 0, fun _ => 0⟩
  session := some session
  operationLease := some 0
  closed := false
  slotReturns := 0
  claimReturns := 0
  leaseReturns := leaseReturns

def nodeWith (lock : StorageOperationLock) (r : AdmittedRequest) : UploadNode where
  resources := { limiter := ⟨1, 1⟩, claimed := 20, operationLock := lock }
  requests := [r]
  copies := []

/-- The upload has the lease. -/
def reading : StorageOperationLock := ⟨1, false, [], [⟨0, .shared, false⟩], 1⟩

/-- It is given back, and the collector has one. -/
def collecting : StorageOperationLock :=
  ⟨0, true, [], [⟨0, .shared, true⟩, ⟨1, .exclusive, false⟩], 2⟩

def admitted : ImportNode Nat where
  node := nodeWith reading (request .calling ⟨false, false, false⟩ 0)
  imports := fun _ => .new
  callbacks := []

theorem run_admitted : Run (Step uploadLimits) always (start 1) admitted := by
  have hstart : Run (Step uploadLimits) always (start 1 : ImportNode Nat) (start 1) := .start
  exact hstart.next (a := Event.admission (.arrive (some 20) none)) trivial
      (.admission trivial (.admitted rfl rfl))
    |>.next (a := Event.admission (.request 0 .acquired)) trivial
      (.admission trivial (.request rfl rfl))
    |>.next (a := Event.admission (.request 0 (.measured 100))) trivial
      (.admission trivial (.request rfl rfl))

/-- Block 7 is written and pinned, and the session is committed. -/
def committed : UploadImport Nat := ⟨[7], [], [], .ended⟩

theorem run_committed : ∃ s : ImportNode Nat, Run (Step uploadLimits) always (start 1) s ∧
    s.node = nodeWith collecting (request .calling ⟨true, false, false⟩ 1) ∧
    s.imports 0 = committed ∧ s.callbacks = [⟨.collect, 1, .running .begun⟩] := by
  have hrun := run_admitted.next (a := Event.put 0 7) trivial (.put rfl rfl)
    |>.next (a := Event.claim 0) trivial (.claimed rfl rfl rfl rfl (.request rfl rfl))
    |>.next (a := Event.pin 0) trivial (.pin rfl)
    |>.next (a := Event.commit 0) trivial (.commit rfl (.request rfl rfl))
    |>.next (a := Event.call .collect none) trivial .call
    |>.next (a := Event.granted 0) trivial (.granted rfl rfl rfl)
  exact ⟨_, hrun, rfl, rfl, rfl⟩

end CommittedUpload

open CommittedUpload in
/-- An upload writes block 7 and is committed; then a collection runs. -/
theorem no_collection_in_window_committed : ∃ s : ImportNode Nat,
    Run (Step uploadLimits) always (start 1) s ∧ (s.imports 0).touched = [7] ∧
      s.callbacks = [⟨.collect, 1, .running .begun⟩] ∧
      ∀ r ∈ s.node.requests, ∀ session, r.session = some session → session.settled = true := by
  obtain ⟨s, hrun, -, himport, hcallbacks⟩ := run_committed
  have hmem : ⟨.collect, 1, .running .begun⟩ ∈ s.callbacks := by simp [hcallbacks]
  exact ⟨s, hrun, by rw [himport]; rfl, hcallbacks,
    ((no_collection_in_window hrun).1 _ hmem rfl rfl).1⟩

end ImportNode

end IpfsNode
