import IpfsNode.AdmittedRequest

/-!
# Every order of events

Any number of requests share the limiter, the space counter and the lock with
incoming copies and the collector. `admission_gives_back_once` is about all of
their runs, and says which steps let go of a lease whose session is not through.
-/

namespace IpfsNode

open TransitionSystem (Run always)

namespace UploadNode

variable {limits : UploadLimits} {s s' : UploadNode} {a : AdmissionEvent}

/-- What holds of the node between two events. -/
structure Balanced (s : UploadNode) : Prop where
  slots : s.resources.limiter.inFlight = s.requests.tally AdmittedRequest.slot
  bytes : s.resources.claimed =
    s.requests.tally AdmittedRequest.bytes + s.copies.tally Claim.outstanding
  fair : s.resources.operationLock.Fair
  sound : ∀ r ∈ s.requests, r.Sound s.resources.operationLock
  tickets : ∀ r ∈ s.requests, ∀ id, r.ticket = some id → id < s.resources.operationLock.next
  distinct : ∀ (i j : Nat) (r r' : AdmittedRequest) (id : Nat), s.requests[i]? = some r →
    s.requests[j]? = some r' → r.ticket = some id → r'.ticket = some id → i = j

theorem start_balanced (maxConcurrent : Nat) : (start maxConcurrent).Balanced where
  slots := rfl
  bytes := rfl
  fair := StorageOperationLock.fair_new
  sound := fun _ hmem => absurd hmem List.not_mem_nil
  tickets := fun _ hmem => absurd hmem List.not_mem_nil
  distinct := fun _ _ _ _ _ h => nomatch List.getElem?_nil.symm.trans h

/-- A request that is replaced, and those that are not. -/
theorem of_request_set {requests : List AdmittedRequest} {i j : Nat} {r r' : AdmittedRequest}
    (h : (requests.set i r')[j]? = some r) : j = i ∧ r = r' ∨ j ≠ i ∧ requests[j]? = some r := by
  by_cases heq : j = i
  · subst heq
    have hmem := List.mem_of_getElem? h
    obtain ⟨hlt, hget⟩ := List.getElem?_eq_some_iff.mp h
    rw [List.getElem_set_self] at hget
    exact .inl ⟨rfl, hget.symm⟩
  · rw [List.getElem?_set_ne (Ne.symm heq)] at h
    exact .inr ⟨heq, h⟩

/-- What the middleware leaves at its first await. -/
theorem Balanced.arrives (h : s.Balanced) {limiter : ConcurrencyLimiter}
    (hslot : s.resources.limiter.tryAcquire = some limiter) (declaredBytes : Option Nat)
    (holding : Option LeaseMode) {n : UploadResources} {r : AdmittedRequest}
    (hcreate : createUploadAdmission limits declaredBytes holding { s.resources with limiter } =
      (n, r)) :
    n.limiter.inFlight = s.resources.limiter.inFlight + r.slot ∧ n.claimed = s.resources.claimed ∧
      r.bytes = 0 ∧ r.session = none ∧ r.Sound n.operationLock ∧
      (∃ call, n.operationLock = s.resources.operationLock.call call ∧
        ∀ id, call ≠ .release id) ∧
      ∀ id, r.ticket = some id →
        id = s.resources.operationLock.next ∧ n.operationLock.next = id + 1 := by
  obtain ⟨-, heq⟩ := Option.ite_none_left_eq_some.mp hslot
  obtain rfl := Option.some.inj heq
  unfold createUploadAdmission at hcreate
  split at hcreate
  · cases hcreate
    refine ⟨?_, rfl, rfl, rfl, ?_, ⟨.acquire (some .shared) .shared, rfl, fun _ h => by cases h⟩,
      fun _ h => by cases h⟩
    · show ConcurrencyLimiter.inFlight (ConcurrencyLimiter.release _) = _
      simp [ConcurrencyLimiter.release, AdmittedRequest.slot]
    · exact .of_unleased rfl rfl rfl (fun h => by cases h) (fun h => by cases h) (fun _ => rfl)
        (fun _ => rfl) rfl rfl rfl fun _ h => by cases h
  · cases hcreate
    cases holding with
    | some mode =>
        refine ⟨rfl, rfl, rfl, rfl, ?_, ⟨.acquire (some mode) .shared, rfl, fun _ h => by cases h⟩,
          fun _ h => by cases h⟩
        exact .of_unleased rfl rfl rfl (fun h => by cases h) (fun h => by cases h)
          (fun h => by cases h) (fun h => by cases h) rfl rfl rfl fun _ h => by cases h
    | none =>
        have hspares : s.resources.operationLock.Spares _ s.resources.operationLock.next :=
          StorageOperationLock.spares_call (.acquire none .shared) fun h => by cases h
        refine ⟨rfl, rfl, rfl, rfl, ?_, ⟨.acquire none .shared, rfl, fun _ h => by cases h⟩, ?_⟩
        · refine .of_unleased rfl rfl rfl (fun h => by cases h) (fun h => by cases h)
            (fun h => by cases h) (fun h => by cases h) rfl rfl rfl ?_
          intro id hstage lease hlease
          obtain rfl := AdmissionStage.acquiring.inj hstage
          exact hspares.fresh lease (StorageOperationLock.lease?_next h.fair) hlease
        · intro id hid
          obtain rfl := Option.some.inj hid
          refine ⟨rfl, ?_⟩
          show StorageOperationLock.next (if _ then _ else _) = _
          split <;> rfl

/-- One step of the system keeps the books. -/
theorem Step.balanced (hstep : Step limits s a s') (h : s.Balanced) : s'.Balanced := by
  cases hstep with
  | refused => exact h
  | @admitted declaredBytes holding limiter n r hslot hcreate =>
      obtain ⟨hslots, hclaimed, hbytes, -, hsound, ⟨call, hcall, hrelease⟩, hticket⟩ :=
        h.arrives hslot declaredBytes holding hcreate
      have hnext : s.resources.operationLock.next ≤ n.operationLock.next := by
        rw [hcall]
        exact StorageOperationLock.next_le_call _ _
      refine { slots := ?_, bytes := ?_, fair := ?_, sound := ?_, tickets := ?_, distinct := ?_ }
      · rw [List.tally_append, ← h.slots]
        exact hslots
      · rw [List.tally_append, List.tally_cons, hbytes, List.tally_nil, Nat.add_zero, ← h.bytes]
        exact hclaimed
      · show n.operationLock.Fair
        rw [hcall]
        exact StorageOperationLock.fair_call h.fair call
      · intro r' hmem
        rcases List.mem_append.mp hmem with hmem | hmem
        · refine (h.sound r' hmem).spared fun id _ => ?_
          show s.resources.operationLock.Spares n.operationLock id
          rw [hcall]
          exact StorageOperationLock.spares_call call (hrelease id)
        · obtain rfl := List.mem_singleton.mp hmem
          exact hsound
      · intro r' hmem id hid
        rcases List.mem_append.mp hmem with hmem | hmem
        · exact (h.tickets r' hmem id hid).trans_le hnext
        · obtain rfl := List.mem_singleton.mp hmem
          have hlt := hticket id hid
          show id < n.operationLock.next
          omega
      · intro i j r₁ r₂ id hi hj hr₁ hr₂
        have hsplit (k : Nat) (r' : AdmittedRequest) (hk : (s.requests ++ [r])[k]? = some r') :
            s.requests[k]? = some r' ∨ k = s.requests.length ∧ r' = r := by
          rw [List.getElem?_append] at hk
          split at hk
          · exact .inl hk
          · obtain ⟨hlt, hget⟩ := List.getElem?_eq_some_iff.mp hk
            refine .inr ⟨?_, ?_⟩
            · simp only [List.length_singleton] at hlt
              omega
            · exact (List.mem_singleton.mp (List.mem_of_getElem? hk))
        rcases hsplit i r₁ hi with hold | ⟨hlast, rfl⟩ <;>
          rcases hsplit j r₂ hj with hold' | ⟨hlast', rfl⟩
        · exact h.distinct i j r₁ r₂ id hold hold' hr₁ hr₂
        · have hlt := h.tickets r₁ (List.mem_of_getElem? hold) id hr₁
          have hnew := (hticket id hr₂).1
          omega
        · have hlt := h.tickets r₂ (List.mem_of_getElem? hold') id hr₂
          have hnew := (hticket id hr₁).1
          omega
        · omega
  | @request i event r r' n hget hrespond =>
      have hmem := List.mem_of_getElem? hget
      obtain ⟨hpasses, hsound⟩ :=
        (h.sound r hmem).respond (AdmittedRequest.responds_of_respond hrespond)
      have hcases (r₁ : AdmittedRequest) (hmem' : r₁ ∈ s.requests.set i r') :
          r₁ = r' ∨ r₁ ∈ s.requests ∧ ∀ id, r₁.ticket = some id → r.ticket ≠ some id := by
        obtain ⟨j, hj⟩ := List.getElem?_of_mem hmem'
        rcases of_request_set hj with ⟨-, rfl⟩ | ⟨hne, hj⟩
        · exact .inl rfl
        · exact .inr ⟨List.mem_of_getElem? hj, fun id hid hsame =>
            hne (h.distinct j i r₁ r id hj hget hid hsame)⟩
      refine { slots := ?_, bytes := ?_, fair := hpasses.fair h.fair, sound := ?_, tickets := ?_
               distinct := ?_ }
      · have hset := List.tally_set r' AdmittedRequest.slot hget
        have hle := List.le_tally AdmittedRequest.slot hmem
        have hslots := h.slots
        have hmoved : n.limiter.inFlight + r.slot = s.resources.limiter.inFlight + r'.slot :=
          hpasses.slots (by omega)
        show n.limiter.inFlight = (s.requests.set i r').tally _
        omega
      · have hset := List.tally_set r' AdmittedRequest.bytes hget
        have hle := List.le_tally AdmittedRequest.bytes hmem
        have hbytes := h.bytes
        have hmoved : n.claimed + r.bytes = s.resources.claimed + r'.bytes :=
          hpasses.bytes (by omega)
        show n.claimed = List.tally _ (s.requests.set i r') + List.tally _ s.copies
        omega
      · intro r₁ hmem'
        rcases hcases r₁ hmem' with rfl | ⟨hold, hother⟩
        · exact hsound
        · exact (h.sound r₁ hold).spared fun id hid => hpasses.spares id (hother id hid)
      · intro r₁ hmem' id hid
        show id < n.operationLock.next
        rw [hpasses.next]
        rcases hcases r₁ hmem' with rfl | ⟨hold, -⟩
        · exact h.tickets r hmem id (hpasses.ticket.symm.trans hid)
        · exact h.tickets r₁ hold id hid
      · intro j k r₁ r₂ id hj hk hr₁ hr₂
        rcases of_request_set hj with ⟨heq, rfl⟩ | ⟨-, hold⟩ <;>
          rcases of_request_set hk with ⟨heq', rfl⟩ | ⟨-, hold'⟩
        · rw [heq, heq']
        · rw [heq]
          exact h.distinct i k r r₂ id hget hold' (hpasses.ticket.symm.trans hr₁) hr₂
        · rw [heq']
          exact h.distinct j i r₁ r id hold hget hr₁ (hpasses.ticket.symm.trans hr₂)
        · exact h.distinct j k r₁ r₂ id hold hold' hr₁ hr₂
  | @lock call hforeign =>
      refine { slots := h.slots, bytes := h.bytes, fair := ?_, sound := ?_, tickets := ?_
               distinct := h.distinct }
      · exact StorageOperationLock.fair_call h.fair call
      · exact fun r hmem => (h.sound r hmem).spared fun id hid =>
          StorageOperationLock.spares_call call fun heq => hforeign id heq r hmem hid
      · exact fun r hmem id hid =>
          (h.tickets r hmem id hid).trans_le (StorageOperationLock.next_le_call _ _)
  | copyClaims hclaim =>
      obtain ⟨rfl, -⟩ := Space.claimSpace_eq_some hclaim
      refine { slots := h.slots, bytes := ?_, fair := h.fair, sound := h.sound
               tickets := h.tickets, distinct := h.distinct }
      have hbytes := h.bytes
      rw [List.tally_append, ← Nat.add_assoc, ← hbytes]
      rfl
  | @copyReleases k claim hget =>
      refine { slots := h.slots, bytes := ?_, fair := h.fair, sound := h.sound
               tickets := h.tickets, distinct := h.distinct }
      have hset := List.tally_set (claim.release s.resources.claimed).2 Claim.outstanding hget
      have hle := List.le_tally Claim.outstanding (List.mem_of_getElem? hget)
      have hbytes := h.bytes
      show (claim.release s.resources.claimed).1 = _ + (s.copies.set k _).tally _
      cases hreleased : claim.released with
      | true =>
          simp only [Claim.release, hreleased, if_true] at hset ⊢
          omega
      | false =>
          simp only [Claim.release, hreleased, Bool.false_eq_true, if_false, Claim.outstanding,
            if_true] at hset hle ⊢
          omega

theorem run_balanced {maxConcurrent : Nat} {ok : UploadNode → AdmissionEvent → Prop}
    (hrun : Run (Step limits) ok (start maxConcurrent) s) : s.Balanced :=
  hrun.invariant (start_balanced maxConcurrent) fun _ _ _ h _ hstep => hstep.balanced h

/-- Every session that is not through has its lease. -/
def Guarded (s : UploadNode) : Prop := ∀ r ∈ s.requests, r.KeepsLease s.resources.operationLock

/-- No request gives back for the first time while its session cleans up. -/
def Orderly (s : UploadNode) : AdmissionEvent → Prop
  | .request i event => ∀ r, s.requests[i]? = some r → ¬r.Interrupts event
  | _ => True

theorem Balanced.keepsLease_spared (h : s.Balanced) (hguarded : s.Guarded) {r : AdmittedRequest}
    (hmem : r ∈ s.requests) {l : StorageOperationLock}
    (hspares : ∀ id, r.ticket = some id → s.resources.operationLock.Spares l id) :
    r.KeepsLease l := by
  intro session hsession hopen
  rw [(h.sound r hmem).leased_spared hspares]
  exact hguarded r hmem session hsession hopen

/-- A step leaves the sessions their leases exactly when it is an orderly one. -/
theorem Step.guarded_iff (hstep : Step limits s a s') (h : s.Balanced) (hguarded : s.Guarded) :
    s'.Guarded ↔ s.Orderly a := by
  cases hstep with
  | refused => exact iff_of_true hguarded trivial
  | @admitted declaredBytes holding limiter n r hslot hcreate =>
      obtain ⟨-, -, -, hsession, -, ⟨call, hcall, hrelease⟩, -⟩ :=
        h.arrives hslot declaredBytes holding hcreate
      refine iff_of_true (fun r' hmem => ?_) trivial
      rcases List.mem_append.mp hmem with hmem | hmem
      · refine h.keepsLease_spared hguarded hmem fun id _ => ?_
        show s.resources.operationLock.Spares n.operationLock id
        rw [hcall]
        exact StorageOperationLock.spares_call call (hrelease id)
      · obtain rfl := List.mem_singleton.mp hmem
        intro session hsome
        rw [hsession] at hsome
        cases hsome
  | @request i event r r' n hget hrespond =>
      have hmem := List.mem_of_getElem? hget
      have hresponds := AdmittedRequest.responds_of_respond hrespond
      have hpasses := ((h.sound r hmem).respond hresponds).passes
      have hiff := (h.sound r hmem).keepsLease_respond (hguarded r hmem) hresponds
      have horderly : s.Orderly (.request i event) ↔ ¬r.Interrupts event := by
        refine ⟨fun h => h r hget, fun h r₁ hget₁ => ?_⟩
        obtain rfl := Option.some.inj (hget.symm.trans hget₁)
        exact h
      rw [horderly, ← hiff]
      constructor
      · intro hguarded'
        obtain ⟨hlt, -⟩ := List.getElem?_eq_some_iff.mp hget
        exact hguarded' r' (List.mem_of_getElem? (List.getElem?_set_self hlt))
      · intro hkept r₁ hmem'
        obtain ⟨j, hj⟩ := List.getElem?_of_mem hmem'
        rcases of_request_set hj with ⟨-, rfl⟩ | ⟨hne, hold⟩
        · exact hkept
        · refine h.keepsLease_spared hguarded (List.mem_of_getElem? hold) fun id hid => ?_
          exact hpasses.spares id fun hsame => hne (h.distinct j i r₁ r id hold hget hid hsame)
  | @lock call hforeign =>
      exact iff_of_true (fun r hmem => h.keepsLease_spared hguarded hmem fun id hid =>
        StorageOperationLock.spares_call call fun heq => hforeign id heq r hmem hid) trivial
  | copyClaims => exact iff_of_true hguarded trivial
  | copyReleases => exact iff_of_true hguarded trivial

/-- How often a request gave back what it took. -/
theorem Balanced.returns (h : s.Balanced) {r : AdmittedRequest} (hmem : r ∈ s.requests) :
    r.slotReturns ≤ 1 ∧ r.claimReturns ≤ r.claimed.isSome.toNat ∧
      r.leaseReturns ≤ r.operationLease.isSome.toNat := by
  have hsound := h.sound r hmem
  refine ⟨?_, ?_, ?_⟩
  · rw [hsound.slotReturns]
    exact Bool.toNat_le _
  · rw [hsound.claimReturns]
    cases r.claimed.isSome <;> cases r.released <;> decide
  · rw [hsound.leaseReturns]
    unfold AdmittedRequest.leased
    cases r.operationLease with
    | none => exact Nat.le_refl 0
    | some id => exact Bool.toNat_le _

/-- A request that has ended gave everything back. -/
theorem Balanced.ended (h : s.Balanced) {r : AdmittedRequest} (hmem : r ∈ s.requests)
    (hended : r.Ended) :
    r.slotReturns = 1 ∧ r.claimReturns = r.claimed.isSome.toNat ∧
      r.leaseReturns = r.operationLease.isSome.toNat ∧ r.slot = 0 ∧ r.bytes = 0 ∧
      ∀ id, r.ticket = some id → s.resources.operationLock.holds id = false := by
  have hsound := h.sound r hmem
  have hreleased := hsound.closed hended.closed
  have hlease (id : Nat) (hid : r.operationLease = some id) :
      r.leased s.resources.operationLock = some true := by
    obtain ⟨lease, hgranted⟩ := Option.isSome_iff_exists.mp (hsound.granted id hid)
    have hleased : r.leased s.resources.operationLock = some lease.released := by
      unfold AdmittedRequest.leased
      rw [hid, Option.bind_some, hgranted]
      rfl
    have howned := hsound.owned
    unfold AdmittedRequest.Owned at howned
    split at howned
    · rw [hleased, howned lease.released hleased, hreleased]
    · rename_i session hsession
      obtain ⟨hsettled, hidle⟩ : session.settled = true ∧ session.cleaning = false := by
        simpa [SessionStatus.isFinished] using hended.session session hsession
      rw [if_pos hsettled] at howned
      exact howned hidle
  refine ⟨?_, ?_, ?_, ?_, ?_, ?_⟩
  · rw [hsound.slotReturns, hreleased]
    rfl
  · rw [hsound.claimReturns, hreleased, Bool.and_true]
  · rw [hsound.leaseReturns]
    rcases Option.eq_none_or_eq_some r.operationLease with hnone | ⟨id, hid⟩
    · unfold AdmittedRequest.leased
      rw [hnone]
      rfl
    · rw [hlease id hid, hid]
      rfl
  · unfold AdmittedRequest.slot
    rw [hreleased]
    rfl
  · unfold AdmittedRequest.bytes
    cases hclaim : r.claimed with
    | none => rfl
    | some claim =>
        have hgone : claim.released = true := (hsound.claimed claim hclaim).trans hreleased
        simp [Claim.outstanding, hgone]
  · intro id hticket
    have hid : r.operationLease = some id := by
      unfold AdmittedRequest.ticket at hticket
      rw [hended.stage] at hticket
      exact hticket
    have hleased := hlease id hid
    unfold AdmittedRequest.leased at hleased
    rw [hid, Option.bind_some] at hleased
    obtain ⟨lease, hgranted, hgone⟩ := Option.map_eq_some_iff.mp hleased
    rw [StorageOperationLock.holds, hgranted, Option.any_some, hgone]
    rfl

/-- However the events of the requests fall, the shared counters are what the
requests hold, each slot, claim and lease goes back at most once, and a request
that has ended, with its session, has given each back once and holds none. A
session has the lease until it is through in every run in which no request gives
back for the first time while its session cleans up, and such a step is the only
one to take the lease away. -/
theorem admission_gives_back_once (limits : UploadLimits) (maxConcurrent : Nat) :
    (∀ s, Run (Step limits) always (start maxConcurrent) s →
      (s.resources.limiter.inFlight = s.requests.tally AdmittedRequest.slot ∧
        s.resources.claimed =
          s.requests.tally AdmittedRequest.bytes + s.copies.tally Claim.outstanding ∧
        s.resources.operationLock.readers = s.resources.operationLock.heldIn .shared) ∧
      ∀ r ∈ s.requests,
        (r.slotReturns ≤ 1 ∧ r.claimReturns ≤ r.claimed.isSome.toNat ∧
          r.leaseReturns ≤ r.operationLease.isSome.toNat) ∧
        (r.Ended →
          r.slotReturns = 1 ∧ r.claimReturns = r.claimed.isSome.toNat ∧
          r.leaseReturns = r.operationLease.isSome.toNat ∧ r.slot = 0 ∧ r.bytes = 0 ∧
          ∀ id, r.ticket = some id → s.resources.operationLock.holds id = false)) ∧
    (∀ s, Run (Step limits) Orderly (start maxConcurrent) s → s.Guarded) ∧
    ∀ s a s', Run (Step limits) always (start maxConcurrent) s → Step limits s a s' → s.Guarded →
      (s'.Guarded ↔ s.Orderly a) := by
  refine ⟨fun s hrun => ?_, fun s hrun => ?_, fun s a s' hrun hstep hguarded =>
    hstep.guarded_iff (run_balanced hrun) hguarded⟩
  · have h := run_balanced hrun
    exact ⟨⟨h.slots, h.bytes, h.fair.readers⟩, fun r hmem =>
      ⟨h.returns hmem, fun hended => h.ended hmem hended⟩⟩
  · have hboth : s.Balanced ∧ s.Guarded := by
      refine hrun.invariant (I := fun s => s.Balanced ∧ s.Guarded)
        ⟨start_balanced maxConcurrent, ?_⟩ fun s a s' h horderly hstep => ?_
      · exact fun _ hmem => absurd hmem List.not_mem_nil
      · exact ⟨hstep.balanced h.1, (hstep.guarded_iff h.1 h.2).mpr horderly⟩
    exact hboth.2

end UploadNode

/-! ## A disconnect during a cleanup -/

namespace Disconnect

open UploadNode

def limits : UploadLimits := { maxRequestSizeBytes := 50, diskReserveBytes := 10 }

/-- The lock handed out one lease. -/
def lock (released : Bool) : StorageOperationLock where
  readers := (!released).toNat
  writer := false
  waiters := []
  leases := [⟨0, .shared, released⟩]
  next := 1

def node (lock : StorageOperationLock) (claimed slots : Nat) (r : AdmittedRequest) :
    UploadNode where
  resources := { limiter := ⟨slots, 1⟩, claimed, operationLock := lock }
  requests := [r]
  copies := []

/-- An upload of twenty bytes. -/
def upload (stage : AdmissionStage) (session : Option SessionStatus) : AdmittedRequest where
  declaredBytes := some 20
  stage := stage
  released := false
  claimed := session.map fun _ => ⟨20, false, 0, fun _ => 0⟩
  session := session
  operationLease := if stage = .acquiring 0 then none else some 0
  closed := false
  slotReturns := 0
  claimReturns := 0
  leaseReturns := 0

/-- Its response closed. -/
def closed (session : SessionStatus) (leaseReturns : Nat) : AdmittedRequest where
  declaredBytes := some 20
  stage := .done
  released := true
  claimed := some ⟨20, true, 0, fun _ => 0⟩
  session := some session
  operationLease := some 0
  closed := true
  slotReturns := 1
  claimReturns := 1
  leaseReturns := leaseReturns

theorem orderly_of_ne {s : UploadNode} {i : Nat} {event : RequestEvent} (hfails : event ≠ .fails)
    (hclose : ∀ waits, event ≠ .close waits) : s.Orderly (.request i event) :=
  fun _ _ hinterrupts => hinterrupts.1.elim hfails fun ⟨waits, heq⟩ => hclose waits heq

theorem run_admitted : Run (Step limits) Orderly (start 1)
    (node (lock false) 20 1 (upload .done (some ⟨false, false, false⟩))) := by
  have hqueued : Run (Step limits) Orderly (start 1)
      (node (lock false) 0 1 (upload (.acquiring 0) none)) :=
    .next (a := .arrive (some 20) none) .start trivial (.admitted rfl rfl)
  have hacquired : Run (Step limits) Orderly (start 1)
      (node (lock false) 0 1 (upload .measuring none)) :=
    .next (a := .request 0 .acquired) hqueued (orderly_of_ne nofun nofun) (.request rfl rfl)
  have hmeasured : Run (Step limits) Orderly (start 1)
      (node (lock false) 20 1 (upload .calling (some ⟨false, false, false⟩))) :=
    .next (a := .request 0 (.measured 100)) hacquired (orderly_of_ne nofun nofun)
      (.request rfl rfl)
  exact .next (a := .request 0 .nextReturns) hmeasured (orderly_of_ne nofun nofun)
    (.request rfl rfl)

/-- The client hangs up, and the cleanup that this starts ends. -/
theorem run_ended : Run (Step limits) Orderly (start 1)
    (node (lock true) 0 0 (closed ⟨true, false, false⟩ 1)) := by
  have hclosed : Run (Step limits) Orderly (start 1)
      (node (lock false) 0 0 (closed ⟨true, false, true⟩ 0)) := by
    refine .next (a := .request 0 (.close true)) run_admitted (fun r hget hinterrupts => ?_)
      (.request rfl rfl)
    obtain rfl := Option.some.inj hget
    obtain ⟨-, -, session, hsession, hcleaning⟩ := hinterrupts
    obtain rfl := Option.some.inj hsession
    cases hcleaning
  exact .next (a := .request 0 .cleanupEnds) hclosed (orderly_of_ne nofun nofun)
    (.request rfl rfl)

/-- The parser rejects the body, and the client hangs up while it cleans up. -/
theorem run_interrupted : Run (Step limits) always (start 1)
    (node (lock true) 0 0 (closed ⟨true, false, true⟩ 1)) := by
  have hcleaning : Run (Step limits) always (start 1)
      (node (lock false) 20 1 (upload .done (some ⟨true, false, true⟩))) :=
    .next (a := .request 0 (.cleanup true)) run_admitted.free trivial (.request rfl rfl)
  exact .next (a := .request 0 (.close true)) hcleaning trivial (.request rfl rfl)

end Disconnect

open Disconnect in
/-- The abandoned upload gave everything back. -/
theorem admission_gives_back_closed :
    (closed ⟨true, false, false⟩ 1).slotReturns = 1 ∧
      (closed ⟨true, false, false⟩ 1).claimReturns = 1 ∧
      (closed ⟨true, false, false⟩ 1).leaseReturns = 1 := by
  obtain ⟨hslot, hclaim, hlease, -⟩ :=
    (((UploadNode.admission_gives_back_once limits 1).1 _ run_ended.free).2 _
      (List.mem_singleton.mpr rfl)).2 ⟨rfl, rfl, fun _ h => by cases h; rfl⟩
  exact ⟨hslot, hclaim, hlease⟩

open Disconnect in
/-- The lease is gone and the cleanup runs on. -/
theorem lease_released_during_cleanup :
    ¬ ∀ s, Run (UploadNode.Step limits) always (UploadNode.start 1) s → s.Guarded := by
  intro h
  have hheld := h _ run_interrupted _ (List.mem_singleton.mpr rfl) _ rfl rfl
  cases hheld

end IpfsNode
