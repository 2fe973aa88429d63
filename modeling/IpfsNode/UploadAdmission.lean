import IpfsNode.OperationLock
import IpfsNode.Reservation

/-!
# Upload admission

A request that may upload takes a slot, a shared storage lease and a claim of
free space, and gives them back on whichever path it ends. Its response may close
while it waits for the lease or for the measurement of the free space, and once
it has a session the lease belongs to the session. Here is the code of the
middleware, event by event, and the node on which any number of requests run.
-/

namespace IpfsNode

/-! ## The code -/

/-- Counts operations whose request or transfer has not finished yet. -/
structure ConcurrencyLimiter where
  inFlight : Nat
  maxConcurrent : Nat
deriving DecidableEq, Repr

namespace ConcurrencyLimiter

/-- Take a slot, unless the node is at capacity. -/
def tryAcquire (limiter : ConcurrencyLimiter) : Option ConcurrencyLimiter :=
  if limiter.maxConcurrent ≤ limiter.inFlight then none
  else some { limiter with inFlight := limiter.inFlight + 1 }

def release (limiter : ConcurrencyLimiter) : ConcurrencyLimiter :=
  if 0 < limiter.inFlight then { limiter with inFlight := limiter.inFlight - 1 } else limiter

end ConcurrencyLimiter

/-- A declared body must not exceed the aggregate limit. -/
def checkRequestSize (declaredBytes : Option Nat) (maxRequestSizeBytes : Nat) : Bool :=
  match declaredBytes with
  | none => true
  | some bytes => !decide (maxRequestSizeBytes < bytes)

structure UploadLimits where
  maxRequestSizeBytes : Nat
  diskReserveBytes : Nat
deriving DecidableEq, Repr

/-- What all requests share: the limiter, the counter of claimed space, the lock. -/
structure UploadResources where
  limiter : ConcurrencyLimiter
  claimed : Nat
  operationLock : StorageOperationLock
deriving DecidableEq, Repr

/-- Where a session stands. It is `cleaning` from the first await of its cleanup
to the last. -/
structure SessionStatus where
  settled : Bool
  claimed : Bool
  cleaning : Bool
deriving DecidableEq, Repr

/-- The session has committed, or its cleanup is through. -/
def SessionStatus.isFinished (session : SessionStatus) : Bool :=
  session.settled && !session.cleaning

/-- Where the continuation of the middleware stands. -/
inductive AdmissionStage where
  /-- It awaits the lease of the lock request with this number. -/
  | acquiring (id : Nat)
  /-- It awaits the measurement of the free space. -/
  | measuring
  /-- It called `next`. -/
  | calling
  /-- It threw, and its `catch` is to run. -/
  | failing
  | done
deriving DecidableEq, Repr

/-- The variables of one admitted request. The last three count how often each
resource really went back. -/
structure AdmittedRequest where
  declaredBytes : Option Nat
  stage : AdmissionStage
  released : Bool
  claimed : Option Claim
  session : Option SessionStatus
  operationLease : Option Nat
  closed : Bool
  slotReturns : Nat
  claimReturns : Nat
  leaseReturns : Nat

namespace AdmittedRequest

def new (declaredBytes : Option Nat) (stage : AdmissionStage) : AdmittedRequest where
  declaredBytes := declaredBytes
  stage := stage
  released := false
  claimed := none
  session := none
  operationLease := none
  closed := false
  slotReturns := 0
  claimReturns := 0
  leaseReturns := 0

/-- `operationLease?.release()`, also what a session calls when it settles. -/
def releaseLease (r : AdmittedRequest) (n : UploadResources) : UploadResources × AdmittedRequest :=
  match r.operationLease with
  | none => (n, r)
  | some id =>
      ({ n with operationLock := n.operationLock.release id },
        { r with leaseReturns := r.leaseReturns + (n.operationLock.holds id).toNat })

/-- `claimed?.release()` -/
def releaseClaim (r : AdmittedRequest) (n : UploadResources) : UploadResources × AdmittedRequest :=
  match r.claimed with
  | none => (n, r)
  | some claim =>
      ({ n with claimed := (claim.release n.claimed).1 },
        { r with
          claimed := some (claim.release n.claimed).2
          claimReturns := r.claimReturns + (!claim.released).toNat })

def releaseSlot (r : AdmittedRequest) (n : UploadResources) : UploadResources × AdmittedRequest :=
  ({ n with limiter := n.limiter.release }, { r with slotReturns := r.slotReturns + 1 })

/-- Give back what the request itself still owns. An admitted session owns the
lease until it has settled. -/
def release (r : AdmittedRequest) (n : UploadResources) : UploadResources × AdmittedRequest :=
  if r.released then (n, r)
  else
    let (n, r) := releaseClaim { r with released := true } n
    let (n, r) := r.releaseSlot n
    match r.session with
    | none => r.releaseLease n
    | some session => if session.settled then r.releaseLease n else (n, r)

/-- `session.cleanup()`; whether it comes to an await depends on its blocks. -/
def cleanup (r : AdmittedRequest) (session : SessionStatus) (waits : Bool) (n : UploadResources) :
    UploadResources × AdmittedRequest :=
  if session.settled then (n, r)
  else
    let r := { r with session := some ⟨true, false, waits⟩ }
    if waits then (n, r) else r.releaseLease n

def commit (r : AdmittedRequest) (session : SessionStatus) (n : UploadResources) :
    UploadResources × AdmittedRequest :=
  if session.settled then (n, r)
  else { r with session := some ⟨true, false, false⟩ }.releaseLease n

def claim (r : AdmittedRequest) (session : SessionStatus) : AdmittedRequest :=
  if session.settled then r else { r with session := some { session with claimed := true } }

/-- The listener of the response. -/
def onClose (r : AdmittedRequest) (waits : Bool) (n : UploadResources) :
    UploadResources × AdmittedRequest :=
  let (n, r) := release { r with closed := true } n
  match r.session with
  | none => (n, r)
  | some session =>
      if session.settled || session.claimed then (n, r) else r.cleanup session waits n

/-- The request ends without a session. -/
def finish (result : UploadResources × AdmittedRequest) : UploadResources × AdmittedRequest :=
  (result.1, { result.2 with stage := .done })

/-- The lease arrives. -/
def onAcquired (r : AdmittedRequest) (id : Nat) (n : UploadResources) :
    UploadResources × AdmittedRequest :=
  let r := { r with operationLease := some id }
  if r.released then finish (r.releaseLease n) else (n, { r with stage := .measuring })

/-- The measurement arrives. -/
def onMeasured (limits : UploadLimits) (r : AdmittedRequest) (available : Nat)
    (n : UploadResources) : UploadResources × AdmittedRequest :=
  if r.released then finish (r.releaseLease n)
  else
    let bytes := r.declaredBytes.getD limits.maxRequestSizeBytes
    match claimSpace n.claimed ⟨bytes, available, limits.diskReserveBytes⟩ with
    | none => finish (r.release n)
    | some claimed =>
        ({ n with claimed },
          { r with
            session := some ⟨false, false, false⟩
            claimed := some ⟨bytes, false, 0, fun _ => 0⟩
            stage := .calling })

end AdmittedRequest

/-- What happens to one request. -/
inductive RequestEvent where
  | acquired
  | measured (available : Nat)
  | measureFails
  | nextReturns
  | nextThrows
  /-- The `catch` of the continuation. -/
  | fails
  | close (waits : Bool)
  | claim
  | commit
  | cleanup (waits : Bool)
  | cleanupEnds
deriving DecidableEq, Repr

/-- The code that runs at an event, where the event can come. -/
def AdmittedRequest.respond (limits : UploadLimits) (r : AdmittedRequest) (n : UploadResources) :
    RequestEvent → Option (UploadResources × AdmittedRequest)
  | .acquired =>
      match r.stage with
      | .acquiring id =>
          if (n.operationLock.lease? id).isSome then some (r.onAcquired id n) else none
      | _ => none
  | .measured available =>
      if r.stage = .measuring then some (r.onMeasured limits available n) else none
  | .measureFails => if r.stage = .measuring then some (n, { r with stage := .failing }) else none
  | .nextReturns => if r.stage = .calling then some (n, { r with stage := .done }) else none
  | .nextThrows => if r.stage = .calling then some (n, { r with stage := .failing }) else none
  | .fails => if r.stage = .failing then some (finish (r.release n)) else none
  | .close waits => some (r.onClose waits n)
  | .claim => r.session.map fun session => (n, r.claim session)
  | .commit => r.session.map fun session => r.commit session n
  | .cleanup waits => r.session.map fun session => r.cleanup session waits n
  | .cleanupEnds =>
      match r.session with
      | some session =>
          if session.cleaning then
            some ({ r with session := some { session with cleaning := false } }.releaseLease n)
          else none
      | none => none

/-- The middleware up to its first await. A request whose caller holds a lease is
refused by the lock, and the continuation throws. -/
def createUploadAdmission (limits : UploadLimits) (declaredBytes : Option Nat)
    (holding : Option LeaseMode) (n : UploadResources) : UploadResources × AdmittedRequest :=
  if !checkRequestSize declaredBytes limits.maxRequestSizeBytes then
    (AdmittedRequest.new declaredBytes .done).release n
  else
    ({ n with operationLock := n.operationLock.acquire holding .shared },
      .new declaredBytes
        (if holding.isSome then .failing else .acquiring n.operationLock.next))

/-! ## Any number of requests -/

/-- The node: what its requests share, the requests, and the space that incoming
copies claimed. -/
structure UploadNode where
  resources : UploadResources
  requests : List AdmittedRequest
  copies : List Claim

inductive AdmissionEvent where
  | arrive (declaredBytes : Option Nat) (holding : Option LeaseMode)
  | request (i : Nat) (event : RequestEvent)
  /-- Anybody else takes or releases a lease. -/
  | lock (call : LockCall)
  /-- An incoming copy claims space, or gives it back. -/
  | copyClaims (bytes available : Nat)
  | copyReleases (k : Nat)
deriving DecidableEq, Repr

/-- The number under which a request asked for its lease. -/
def AdmittedRequest.ticket (r : AdmittedRequest) : Option Nat :=
  match r.stage with
  | .acquiring id => some id
  | _ => r.operationLease

namespace UploadNode

def start (maxConcurrent : Nat) : UploadNode where
  resources := { limiter := ⟨0, maxConcurrent⟩, claimed := 0, operationLock := .new }
  requests := []
  copies := []

/-- A lease is an object of its owner, so nobody else releases that of a request. -/
def IsForeign (s : UploadNode) (call : LockCall) : Prop :=
  ∀ id, call = .release id → ∀ r ∈ s.requests, r.ticket ≠ some id

inductive Step (limits : UploadLimits) : UploadNode → AdmissionEvent → UploadNode → Prop
  | refused {s : UploadNode} {declaredBytes : Option Nat} {holding : Option LeaseMode}
      (h : s.resources.limiter.tryAcquire = none) :
      Step limits s (.arrive declaredBytes holding) s
  | admitted {s : UploadNode} {declaredBytes : Option Nat} {holding : Option LeaseMode}
      {limiter : ConcurrencyLimiter} {n : UploadResources} {r : AdmittedRequest}
      (h : s.resources.limiter.tryAcquire = some limiter)
      (hcreate : createUploadAdmission limits declaredBytes holding
        { s.resources with limiter } = (n, r)) :
      Step limits s (.arrive declaredBytes holding)
        { s with resources := n, requests := s.requests ++ [r] }
  | request {s : UploadNode} {i : Nat} {event : RequestEvent} {r r' : AdmittedRequest}
      {n : UploadResources} (h : s.requests[i]? = some r)
      (hrespond : r.respond limits s.resources event = some (n, r')) :
      Step limits s (.request i event) { s with resources := n, requests := s.requests.set i r' }
  | lock {s : UploadNode} {call : LockCall} (h : s.IsForeign call) :
      Step limits s (.lock call)
        { s with
          resources :=
            { s.resources with operationLock := s.resources.operationLock.call call } }
  | copyClaims {s : UploadNode} {bytes available claimed : Nat}
      (h : claimSpace s.resources.claimed ⟨bytes, available, limits.diskReserveBytes⟩ =
        some claimed) :
      Step limits s (.copyClaims bytes available)
        { s with
          resources := { s.resources with claimed }
          copies := s.copies ++ [⟨bytes, false, 0, fun _ => 0⟩] }
  | copyReleases {s : UploadNode} {k : Nat} {claim : Claim} (h : s.copies[k]? = some claim) :
      Step limits s (.copyReleases k)
        { s with
          resources := { s.resources with claimed := (claim.release s.resources.claimed).1 }
          copies := s.copies.set k (claim.release s.resources.claimed).2 }

end UploadNode

end IpfsNode
