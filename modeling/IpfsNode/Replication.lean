import IpfsNode.Placement
import Mathlib.Data.List.Infix

/-!
# Placing copies of a file

`replicate` asks every designated holder for a copy and reports what each one
agreed to. It never fails: a holder that cannot be asked is an attempt that is
not `ok`. What the holders answer is a parameter, one answer for each of them,
because no answer depends on another peer's.
-/

namespace IpfsNode

/-! ## Refusals and transport errors -/

inductive ReplicationErrorCode where
  | notAuthorized
  | busy
  | notStaged
  | alreadyAborted
  | noRoom
  | invalid
  | failed
deriving DecidableEq, Repr

/-- How a call to a peer fails: a refusal the peer sent, or an error of the
call itself. -/
inductive CallError where
  | protocol (message : String) (code : ReplicationErrorCode)
  | other (message : String)
deriving DecidableEq, Repr

def CallError.message : CallError → String
  | .protocol message _ => message
  | .other message => message

def includes (message part : String) : Bool :=
  part.toList <:+: message.toList

def UNSTAGED_CODES : List ReplicationErrorCode :=
  [.notAuthorized, .busy, .notStaged, .alreadyAborted, .noRoom, .invalid]

def isNotAuthorizedError (err : CallError) : Bool :=
  (match err with
    | .protocol _ code => code = .notAuthorized
    | .other _ => false)
  || includes err.message "Not authorized"

/-- Whether a failed `stage` may have pinned at the peer all the same. -/
def isMaybeStagedError (err : CallError) : Bool :=
  match err with
  | .protocol _ code => code ∉ UNSTAGED_CODES
  | .other message =>
      !includes message "Not authorized" && !includes message "busy"
        && !includes message "not staged" && !includes message "already aborted"
        && !includes message "no room"

def isStalePeerSessionError (message : String) : Bool :=
  ["stream that is closed", "Replication stream ended before",
    "Replication request timed out", "Replication message timed out",
    "The connection is closed", "The stream has been reset", "stream has been reset",
    "stream reset", "connection reset", "ECONNRESET", "EPIPE"].any (includes message)

/-! ## Reports -/

structure ReplicationPeer where
  name : String
  peerId : PeerId
deriving DecidableEq, Repr

inductive PlacementOutcome where
  | stored
  | cached
deriving DecidableEq, Repr

/-- `none` as `outcome` is a placement that failed. -/
structure ReplicationStoreResult where
  outcome : Option PlacementOutcome
  staged : Option Bool
  error : Option String
deriving DecidableEq, Repr

structure ReplicationAck where
  node : String
  peerId : PeerId
  ok : Bool
  outcome : Option PlacementOutcome
  /-- Set when the copy still belongs to an upload transaction, or may. -/
  staged : Option Bool
  error : Option String
deriving DecidableEq, Repr

inductive ReplicationMode where
  | quorum
  | bestEffort
deriving DecidableEq, Repr

structure ReplicationReport where
  mode : ReplicationMode
  desiredCopies : Nat
  copies : Nat
  required : Nat
  acknowledged : Nat
  replicas : List String
  cached : List String
  satisfied : Bool
  networkTooSmall : Bool
  attempts : List ReplicationAck
deriving DecidableEq, Repr

structure ReplicationConfig where
  enabled : Bool
  placement : List PlacementTier
  ackQuorum : Nat
deriving DecidableEq, Repr

/-! ## Replicate -/

def CACHE_WIDENING : Nat := 2

def requiredAcks (config : ReplicationConfig) (placement : Placement) : Nat :=
  max 1 (min config.ackQuorum placement.copies)

/-- One entry for each remote identity, the first configured address. -/
def distinctPeers (peers : List ReplicationPeer) (selfPeerId : PeerId) :
    List ReplicationPeer :=
  peers.foldl (fun byPeerId peer =>
    if peer.peerId ≠ selfPeerId ∧ peer.peerId ∉ byPeerId.map (·.peerId) then
      byPeerId ++ [peer]
    else byPeerId) []

/-- What `replicate` records for a holder it asked. -/
def storeAttempt (peer : ReplicationPeer)
    (answer : Except CallError ReplicationStoreResult) : ReplicationAck :=
  match answer with
  | .error err =>
      { node := peer.name, peerId := peer.peerId, ok := false, outcome := none
        staged := none, error := some err.message }
  | .ok result =>
      match result.outcome with
      | none =>
          { node := peer.name, peerId := peer.peerId, ok := false, outcome := none
            staged := result.staged
            error := some (result.error.getD "Replication store failed") }
      | some outcome =>
          { node := peer.name, peerId := peer.peerId, ok := true, outcome := some outcome
            staged := result.staged, error := none }

/-- What `replicate` records for a node it offered an unpinned copy. -/
def cacheAttempt (peer : ReplicationPeer) (answer : Except CallError Unit) :
    ReplicationAck :=
  match answer with
  | .error err =>
      { node := peer.name, peerId := peer.peerId, ok := false, outcome := none
        staged := none, error := some err.message }
  | .ok () =>
      { node := peer.name, peerId := peer.peerId, ok := true, outcome := some .cached
        staged := none, error := none }

/-- The nodes that reported `outcome`. -/
def nodesWith (outcome : PlacementOutcome) (attempts : List ReplicationAck) : List String :=
  (attempts.filter (·.outcome = some outcome)).map (·.node)

section Replicate

variable {Cid : Type} (score : Score Cid) (cid : Cid) (ageMs : Nat)
variable (selfPeerId : PeerId) (peers : List ReplicationPeer) (config : ReplicationConfig)

def replicationPlacement : Placement :=
  placeFile score cid ageMs config.placement selfPeerId
    ((distinctPeers peers selfPeerId).map (·.peerId))

/-- The peers `replicate` asks to store the file. -/
def replicationTargets : List ReplicationPeer :=
  (distinctPeers peers selfPeerId).filter fun peer =>
    peer.peerId ∈ storageTargets
      (replicationPlacement score cid ageMs selfPeerId peers config) selfPeerId

/-- The nodes offered an unpinned copy when nobody pinned the file. -/
def wideningPeers : List ReplicationPeer :=
  let distinct := distinctPeers peers selfPeerId
  let tried := (replicationTargets score cid ageMs selfPeerId peers config).map (·.peerId)
  (((rankHolders score cid (distinct.map (·.peerId))).filter (· ∉ tried)).take
    CACHE_WIDENING).filterMap fun peerId => distinct.find? (·.peerId = peerId)

def replicate (store : ReplicationPeer → Except CallError ReplicationStoreResult)
    (cacheOnly : Option (ReplicationPeer → Except CallError Unit)) : ReplicationReport :=
  if !config.enabled then
    { mode := .bestEffort, desiredCopies := 1, copies := 1, required := 1
      acknowledged := 1, replicas := [], cached := [], satisfied := true
      networkTooSmall := true, attempts := [] }
  else
    let placement := replicationPlacement score cid ageMs selfPeerId peers config
    let attempts := (replicationTargets score cid ageMs selfPeerId peers config).map
      fun peer => storeAttempt peer (store peer)
    let replicas := nodesWith .stored attempts
    let cached := nodesWith .cached attempts
    let widened := match cacheOnly with
      | none => []
      | some cacheOnly =>
          if replicas.isEmpty && !cached.isEmpty then
            (wideningPeers score cid ageMs selfPeerId peers config).map
              fun peer => cacheAttempt peer (cacheOnly peer)
          else []
    let acknowledged := replicas.length + 1
    let required := requiredAcks config placement
    { mode := .quorum, desiredCopies := placement.desiredCopies
      copies := placement.copies, required, acknowledged, replicas
      cached := cached ++ nodesWith .cached widened
      satisfied := required ≤ acknowledged
      networkTooSmall := placement.networkTooSmall
      attempts := attempts ++ widened }

end Replicate

/-- A file with fewer holders than its placement asks for. -/
def isUnderReplicated (acknowledgedPeers : Nat) (placement : Placement)
    (selfPeerId : PeerId) : Bool :=
  acknowledgedPeers < (storageTargets placement selfPeerId).length

/-! ## One entry for each peer -/

section Distinct

variable {peers : List ReplicationPeer} {selfPeerId : PeerId}

/-- Invariant of the loop over the configured addresses: what is collected are
configured peers other than this node, no identity is collected twice, and
every identity passed so far is there. -/
theorem distinctPeers_loop (peers done acc : List ReplicationPeer)
    (hmem : ∀ peer ∈ acc, peer ∈ done ∧ peer.peerId ≠ selfPeerId)
    (hnodup : (acc.map (·.peerId)).Nodup)
    (hall : ∀ peer ∈ done, peer.peerId ≠ selfPeerId → peer.peerId ∈ acc.map (·.peerId)) :
    let result := peers.foldl (fun byPeerId peer =>
      if peer.peerId ≠ selfPeerId ∧ peer.peerId ∉ byPeerId.map (·.peerId) then
        byPeerId ++ [peer]
      else byPeerId) acc
    (∀ peer ∈ result, peer ∈ done ++ peers ∧ peer.peerId ≠ selfPeerId) ∧
      (result.map (·.peerId)).Nodup ∧
      ∀ peer ∈ done ++ peers, peer.peerId ≠ selfPeerId →
        peer.peerId ∈ result.map (·.peerId) := by
  induction peers generalizing done acc with
  | nil => exact ⟨by simpa using hmem, hnodup, by simpa using hall⟩
  | cons peer peers ih =>
      have happend : done ++ peer :: peers = (done ++ [peer]) ++ peers := by simp
      simp only [List.foldl_cons, happend]
      by_cases hp : peer.peerId ≠ selfPeerId ∧ peer.peerId ∉ acc.map (·.peerId)
      · rw [if_pos hp]
        refine ih _ _ ?_ ?_ ?_
        · intro q hq
          rcases List.mem_append.mp hq with hq | hq
          · exact ⟨List.mem_append_left _ (hmem q hq).1, (hmem q hq).2⟩
          · obtain rfl := List.mem_singleton.mp hq
            exact ⟨by simp, hp.1⟩
        · rw [List.map_append, List.nodup_append]
          refine ⟨hnodup, by simp, ?_⟩
          rintro a ha b hb rfl
          obtain rfl := List.mem_singleton.mp (by simpa using hb)
          exact hp.2 ha
        · intro q hq hself
          rw [List.map_append, List.mem_append]
          rcases List.mem_append.mp hq with hq | hq
          · exact Or.inl (hall q hq hself)
          · obtain rfl := List.mem_singleton.mp hq
            exact Or.inr (by simp)
      · rw [if_neg hp]
        refine ih _ _ ?_ hnodup ?_
        · exact fun q hq => ⟨List.mem_append_left _ (hmem q hq).1, (hmem q hq).2⟩
        · intro q hq hself
          rcases List.mem_append.mp hq with hq | hq
          · exact hall q hq hself
          · obtain rfl := List.mem_singleton.mp hq
            by_contra hnot
            exact hp ⟨hself, hnot⟩

theorem mem_distinctPeers {peer : ReplicationPeer}
    (h : peer ∈ distinctPeers peers selfPeerId) :
    peer ∈ peers ∧ peer.peerId ≠ selfPeerId :=
  (distinctPeers_loop peers [] [] (by simp) (by simp) (by simp)).1 peer h

theorem nodup_distinctPeers : ((distinctPeers peers selfPeerId).map (·.peerId)).Nodup :=
  (distinctPeers_loop peers [] [] (by simp) (by simp) (by simp)).2.1

/-- Every remote identity keeps an address. -/
theorem peerId_mem_distinctPeers {peer : ReplicationPeer} (h : peer ∈ peers)
    (hself : peer.peerId ≠ selfPeerId) :
    peer.peerId ∈ (distinctPeers peers selfPeerId).map (·.peerId) :=
  (distinctPeers_loop peers [] [] (by simp) (by simp) (by simp)).2.2 peer h hself

end Distinct

/-! ## The attempts of a report -/

@[simp] theorem storeAttempt_peerId (peer : ReplicationPeer)
    (answer : Except CallError ReplicationStoreResult) :
    (storeAttempt peer answer).peerId = peer.peerId := by
  unfold storeAttempt
  split
  · rfl
  · split <;> rfl

@[simp] theorem storeAttempt_node (peer : ReplicationPeer)
    (answer : Except CallError ReplicationStoreResult) :
    (storeAttempt peer answer).node = peer.name := by
  unfold storeAttempt
  split
  · rfl
  · split <;> rfl

/-- An attempt is marked as staged exactly when the holder's answer is. -/
theorem storeAttempt_staged {peer : ReplicationPeer}
    {answer : Except CallError ReplicationStoreResult} :
    (storeAttempt peer answer).staged = some true ↔
      ∃ result, answer = .ok result ∧ result.staged = some true := by
  rcases answer with err | result
  · simp [storeAttempt]
  · rcases h : result.outcome with _ | outcome <;> simp [storeAttempt, h]

@[simp] theorem cacheAttempt_peerId (peer : ReplicationPeer) (answer : Except CallError Unit) :
    (cacheAttempt peer answer).peerId = peer.peerId := by
  unfold cacheAttempt
  split <;> rfl

@[simp] theorem cacheAttempt_node (peer : ReplicationPeer) (answer : Except CallError Unit) :
    (cacheAttempt peer answer).node = peer.name := by
  unfold cacheAttempt
  split <;> rfl

theorem cacheAttempt_staged (peer : ReplicationPeer) (answer : Except CallError Unit) :
    (cacheAttempt peer answer).staged = none := by
  unfold cacheAttempt
  split <;> rfl

section Attempts

variable {Cid : Type} {score : Score Cid} {cid : Cid} {ageMs : Nat}
variable {selfPeerId : PeerId} {peers : List ReplicationPeer} {config : ReplicationConfig}
variable {store : ReplicationPeer → Except CallError ReplicationStoreResult}
variable {cacheOnly : Option (ReplicationPeer → Except CallError Unit)}

theorem mem_peers_of_mem_targets {peer : ReplicationPeer}
    (h : peer ∈ replicationTargets score cid ageMs selfPeerId peers config) : peer ∈ peers :=
  (mem_distinctPeers (List.mem_of_mem_filter h)).1

/-- The staged attempts of a report are holders whose answer said so. -/
theorem mem_attempts_staged {attempt : ReplicationAck} (hs : attempt.staged = some true) :
    attempt ∈ (replicate score cid ageMs selfPeerId peers config store cacheOnly).attempts ↔
      config.enabled = true ∧
        ∃ peer ∈ replicationTargets score cid ageMs selfPeerId peers config,
          storeAttempt peer (store peer) = attempt := by
  unfold replicate
  split
  · rename_i h
    simp_all
  · rename_i h
    simp only [Bool.not_eq_true, Bool.not_eq_false'] at h
    simp only [h, true_and, List.mem_append, List.mem_map]
    constructor
    · rintro (h | h)
      · exact h
      · exfalso
        split at h
        · simp at h
        · split at h
          · obtain ⟨peer, -, rfl⟩ := List.mem_map.mp h
            simp [cacheAttempt_staged] at hs
          · simp at h
    · exact Or.inl

end Attempts

end IpfsNode
