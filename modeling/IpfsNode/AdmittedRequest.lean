import IpfsNode.UploadAdmission
import IpfsNode.UploadSession
import Mathlib.Logic.Relation

/-!
# What an admitted request holds

The slot and the claim belong to the request until it gives back, the lease until
it has a session, and then to the session. Each piece of the code keeps that, and
moves the shared counters by what the request gives or takes.

Of its session a request sees a status only. In a run of the sessions, each goes
the way that the code of a request has it (`session_of_run`).
-/

namespace IpfsNode

/-! ## What a request holds -/

namespace AdmittedRequest

/-- Whether its lease is released, once it has one. -/
def leased (r : AdmittedRequest) (l : StorageOperationLock) : Option Bool :=
  (r.operationLease.bind l.lease?).map (·.released)

def slot (r : AdmittedRequest) : Nat := (!r.released).toNat

def bytes (r : AdmittedRequest) : Nat := (r.claimed.map Claim.outstanding).getD 0

/-- The lease goes with the request until there is a session, and then with the
session; during a cleanup nothing is said. -/
def Owned (r : AdmittedRequest) (leased : Option Bool) : Prop :=
  match r.session with
  | none => ∀ returned, leased = some returned → returned = r.released
  | some session =>
      if session.settled then session.cleaning = false → leased = some true
      else leased = some false ∧ session.cleaning = false

/-- How the variables of a request hang together between two events. -/
structure Shape (r : AdmittedRequest) : Prop where
  acquiring : ∀ id, r.stage = .acquiring id → r.operationLease = none ∧ r.session = none
  measuring : r.stage = .measuring → r.operationLease.isSome ∧ r.session = none
  calling : r.stage = .calling → r.session.isSome
  session : r.session.isSome → r.operationLease.isSome ∧ r.claimed.isSome
  unclaimed : r.session = none → r.claimed = none
  claimed : ∀ claim, r.claimed = some claim → claim.released = r.released
  closed : r.closed = true → r.released = true
  done : r.stage = .done → r.session = none → r.released = true
  slotReturns : r.slotReturns = r.released.toNat
  claimReturns : r.claimReturns = (r.claimed.isSome && r.released).toNat

/-- How its lease stands in the lock. -/
structure Leased (l : StorageOperationLock) (r : AdmittedRequest) : Prop where
  granted : ∀ id, r.operationLease = some id → (l.lease? id).isSome
  fresh : ∀ id, r.stage = .acquiring id → ∀ lease, l.lease? id = some lease →
    lease.released = false
  leaseReturns : r.leaseReturns = (decide (r.leased l = some true)).toNat
  owned : r.Owned (r.leased l)

/-- What holds of every request between two events. -/
structure Sound (l : StorageOperationLock) (r : AdmittedRequest) : Prop
    extends Shape r, Leased l r

variable {limits : UploadLimits} {n n' : UploadResources} {r r' : AdmittedRequest}
variable {l l' : StorageOperationLock}

theorem Shape.ticket (h : r.Shape) {id : Nat} (hlease : r.operationLease = some id) :
    r.ticket = some id := by
  unfold AdmittedRequest.ticket
  split
  · rename_i id' hstage
    rw [(h.acquiring id' hstage).1] at hlease
    cases hlease
  · exact hlease

/-- A request that has no lease yet, or never gets one. -/
theorem Sound.of_unleased (hlease : r.operationLease = none) (hsession : r.session = none)
    (hclaimed : r.claimed = none) (hmeasuring : r.stage ≠ .measuring)
    (hcalling : r.stage ≠ .calling) (hclosed : r.closed = true → r.released = true)
    (hdone : r.stage = .done → r.released = true) (hslot : r.slotReturns = r.released.toNat)
    (hclaims : r.claimReturns = 0) (hleases : r.leaseReturns = 0)
    (hfresh : ∀ id, r.stage = .acquiring id → ∀ lease, l.lease? id = some lease →
      lease.released = false) : r.Sound l := by
  have hleased : r.leased l = none := by
    unfold leased
    rw [hlease]
    rfl
  refine { acquiring := fun _ _ => ⟨hlease, hsession⟩, measuring := fun h => absurd h hmeasuring
           calling := fun h => absurd h hcalling, session := ?_, unclaimed := fun _ => hclaimed
           claimed := ?_, closed := hclosed, done := fun h _ => hdone h, slotReturns := hslot
           claimReturns := ?_, granted := ?_, fresh := hfresh, leaseReturns := ?_, owned := ?_ }
  · rw [hsession]
    exact fun h => absurd h Bool.false_ne_true
  · intro claim hclaim
    rw [hclaimed] at hclaim
    cases hclaim
  · rw [hclaims, hclaimed]
    rfl
  · intro id hid
    rw [hlease] at hid
    cases hid
  · rw [hleases, hleased]
    rfl
  · unfold Owned
    rw [hsession, hleased]
    intro returned hreturned
    cases hreturned

/-- A lease is what it was when others use the lock. -/
theorem Sound.lease_spared (h : r.Sound l) (hspares : ∀ id, r.ticket = some id → l.Spares l' id)
    {id : Nat} (hlease : r.operationLease = some id) :
    ∃ lease, l.lease? id = some lease ∧ l'.lease? id = some lease := by
  obtain ⟨lease, hsome⟩ := Option.isSome_iff_exists.mp (h.granted id hlease)
  exact ⟨lease, hsome, (hspares id (h.ticket hlease)).kept lease hsome⟩

theorem Sound.leased_spared (h : r.Sound l)
    (hspares : ∀ id, r.ticket = some id → l.Spares l' id) : r.leased l' = r.leased l := by
  unfold leased
  cases hlease : r.operationLease with
  | none => rfl
  | some id =>
      obtain ⟨lease, hbefore, hafter⟩ := h.lease_spared hspares hlease
      rw [Option.bind_some, Option.bind_some, hbefore, hafter]

/-- What others do with the lock leaves a request as it was. -/
theorem Sound.spared (h : r.Sound l) (hspares : ∀ id, r.ticket = some id → l.Spares l' id) :
    r.Sound l' := by
  have hleased := h.leased_spared hspares
  refine { h with granted := ?_, fresh := ?_, leaseReturns := ?_, owned := ?_ }
  · intro id hlease
    obtain ⟨lease, -, hafter⟩ := h.lease_spared hspares hlease
    rw [hafter]
    rfl
  · intro id hstage lease hlease
    have hspared : l.Spares l' id := hspares id (by simp [AdmittedRequest.ticket, hstage])
    cases hbefore : l.lease? id with
    | none => exact hspared.fresh lease hbefore hlease
    | some granted =>
        have hsame : granted = lease :=
          Option.some.inj ((hspared.kept granted hbefore).symm.trans hlease)
        exact hsame ▸ h.fresh id hstage granted hbefore
  · rw [hleased]
    exact h.leaseReturns
  · rw [hleased]
    exact h.owned

/-! ### What a request does with what all share -/

/-- The shared counters follow what the request holds, and the leases of the
others are left alone. -/
structure Passes (n : UploadResources) (r : AdmittedRequest) (n' : UploadResources)
    (r' : AdmittedRequest) : Prop where
  slots : r.slot ≤ n.limiter.inFlight →
    n'.limiter.inFlight + r.slot = n.limiter.inFlight + r'.slot
  bytes : r.bytes ≤ n.claimed → n'.claimed + r.bytes = n.claimed + r'.bytes
  ticket : r'.ticket = r.ticket
  fair : n.operationLock.Fair → n'.operationLock.Fair
  next : n'.operationLock.next = n.operationLock.next
  spares : ∀ id, r.ticket ≠ some id → n.operationLock.Spares n'.operationLock id

theorem Passes.refl (hslot : r'.slot = r.slot) (hbytes : r'.bytes = r.bytes)
    (hticket : r'.ticket = r.ticket) : Passes n r n r' where
  slots := fun _ => by rw [hslot]
  bytes := fun _ => by rw [hbytes]
  ticket := hticket
  fair := id
  next := rfl
  spares := fun id _ => .refl _ id

theorem Passes.trans {n'' : UploadResources} {r'' : AdmittedRequest} (h : Passes n r n' r')
    (h' : Passes n' r' n'' r'') : Passes n r n'' r'' where
  slots := fun hle => by
    have hfirst := h.slots hle
    have hsecond := h'.slots (by omega)
    omega
  bytes := fun hle => by
    have hfirst := h.bytes hle
    have hsecond := h'.bytes (by omega)
    omega
  ticket := h'.ticket.trans h.ticket
  fair := fun hfair => h'.fair (h.fair hfair)
  next := h'.next.trans h.next
  spares := fun id hne => (h.spares id hne).trans (h'.spares id (by rwa [h.ticket]))

/-- A lease that is given back is released, and counted unless it was before. -/
theorem releaseLease_spec (hshape : r.Shape)
    (hgranted : ∀ id, r.operationLease = some id → (n.operationLock.lease? id).isSome) :
    ∃ lock, r.releaseLease n = ({ n with operationLock := lock },
        { r with
          leaseReturns := r.leaseReturns +
            (decide (r.leased n.operationLock = some false)).toNat }) ∧
      Passes n r (r.releaseLease n).1 (r.releaseLease n).2 ∧
      (∀ id, r.operationLease = some id → (lock.lease? id).isSome) ∧
      (r.releaseLease n).2.leased lock = (r.leased n.operationLock).map fun _ => true := by
  rcases Option.eq_none_or_eq_some r.operationLease with hlease | ⟨id, hlease⟩
  · have hnone : r.leased n.operationLock = none := by
      unfold leased
      rw [hlease]
      rfl
    have hsame : r.releaseLease n = (n, r) := by
      unfold releaseLease
      rw [hlease]
    rw [hsame, hnone]
    exact ⟨n.operationLock, by simp, .refl rfl rfl rfl, hgranted, hnone⟩
  · obtain ⟨lease, hsome⟩ := Option.isSome_iff_exists.mp (hgranted id hlease)
    obtain ⟨lease', hsome', hreleased⟩ := StorageOperationLock.lease?_release hsome
    have hleased : r.leased n.operationLock = some lease.released := by
      unfold leased
      rw [hlease, Option.bind_some, hsome]
      rfl
    have hholds : n.operationLock.holds id =
        decide (r.leased n.operationLock = some false) := by
      rw [hleased, StorageOperationLock.holds, hsome]
      cases hheld : lease.released <;> simp [hheld]
    have heq : r.releaseLease n = ({ n with operationLock := n.operationLock.release id },
        { r with
          leaseReturns := r.leaseReturns +
            (decide (r.leased n.operationLock = some false)).toNat }) := by
      unfold releaseLease
      rw [hlease]
      dsimp only
      rw [hholds]
    rw [heq]
    refine ⟨_, rfl, ?_, ?_, ?_⟩
    · exact
        { slots := fun _ => rfl, bytes := fun _ => rfl, ticket := rfl
          fair := fun h => StorageOperationLock.fair_release h id
          next := StorageOperationLock.next_release _ _
          spares := fun id' hne => StorageOperationLock.spares_release fun heq => hne (by
            rw [hshape.ticket hlease, heq]) }
    · intro id' hlease'
      obtain rfl : id = id' := Option.some.inj (hlease.symm.trans hlease')
      rw [hsome']
      rfl
    · show ((r.operationLease.bind _).map _) = _
      rw [hleased, hlease, Option.bind_some, hsome', Option.map_some, hreleased]
      rfl

/-- The shared resources follow, and the request stays as it should be. -/
structure Serves (n : UploadResources) (r : AdmittedRequest)
    (result : UploadResources × AdmittedRequest) : Prop where
  passes : Passes n r result.1 result.2
  sound : result.2.Sound result.1.operationLock

theorem Serves.after {result : UploadResources × AdmittedRequest} (h : Serves n' r' result)
    (hpasses : Passes n r n' r') : Serves n r result :=
  ⟨hpasses.trans h.passes, h.sound⟩

/-- What becomes of a lease that is given back, in the terms of its request. -/
theorem serves_releaseLease (hshape : r.Shape)
    (hgranted : ∀ id, r.operationLease = some id → (n.operationLock.lease? id).isSome)
    (hfresh : ∀ id, r.stage = .acquiring id → ∀ lease, n.operationLock.lease? id = some lease →
      lease.released = false)
    (hcount : r.leaseReturns = (decide (r.leased n.operationLock = some true)).toNat)
    (howned : r.Owned ((r.leased n.operationLock).map fun _ => true)) :
    Serves n r (r.releaseLease n) := by
  obtain ⟨lock, heq, hpasses, hgranted', hleased⟩ := releaseLease_spec hshape hgranted
  have hfresh' (id : Nat) (hstage : r.stage = .acquiring id) (lease : StorageOperationLease)
      (hlease : (r.releaseLease n).1.operationLock.lease? id = some lease) :
      lease.released = false := by
    unfold releaseLease at hlease
    rw [(hshape.acquiring id hstage).1] at hlease
    exact hfresh id hstage lease hlease
  rw [heq] at hpasses hleased hfresh' ⊢
  refine ⟨hpasses,
    { acquiring := hshape.acquiring, measuring := hshape.measuring, calling := hshape.calling
      session := hshape.session, unclaimed := hshape.unclaimed, claimed := hshape.claimed
      closed := hshape.closed, done := hshape.done, slotReturns := hshape.slotReturns
      claimReturns := hshape.claimReturns, granted := hgranted', fresh := hfresh'
      leaseReturns := ?_, owned := ?_ }⟩
  · show r.leaseReturns + _ = _
    rw [hleased, hcount]
    cases r.leased n.operationLock with
    | none => rfl
    | some released => cases released <;> rfl
  · rw [hleased]
    exact howned

/-! ### The session's part -/

theorem Shape.setSession (h : r.Shape) (hsome : r.session.isSome) (session : SessionStatus) :
    Shape { r with session := some session } where
  acquiring := fun id hstage => by
    rw [(h.acquiring id hstage).2] at hsome
    cases hsome
  measuring := fun hstage => by
    rw [(h.measuring hstage).2] at hsome
    cases hsome
  calling := fun _ => rfl
  session := fun _ => h.session hsome
  unclaimed := nofun
  claimed := h.claimed
  closed := h.closed
  done := nofun
  slotReturns := h.slotReturns
  claimReturns := h.claimReturns

/-- A session has the lease of its request. -/
theorem Sound.leased_of_session (h : r.Sound l) (hsome : r.session.isSome) :
    ∃ released, r.leased l = some released := by
  obtain ⟨id, hlease⟩ := Option.isSome_iff_exists.mp (h.session hsome).1
  obtain ⟨lease, hgranted⟩ := Option.isSome_iff_exists.mp (h.granted id hlease)
  refine ⟨lease.released, ?_⟩
  unfold leased
  rw [hlease, Option.bind_some, hgranted]
  rfl

/-- Only a session that has settled cleans up. -/
theorem Sound.settled_of_cleaning (h : r.Sound l) {session : SessionStatus}
    (hsession : r.session = some session) (hcleaning : session.cleaning = true) :
    session.settled = true := by
  have howned := h.owned
  unfold Owned at howned
  rw [hsession] at howned
  dsimp only at howned
  split at howned
  · assumption
  · rw [howned.2] at hcleaning
    cases hcleaning

/-- A session that is through lets the lease go. -/
theorem Sound.settles (h : r.Sound n.operationLock) (hsome : r.session.isSome) {claimed : Bool} :
    Serves n r ({ r with session := some ⟨true, claimed, false⟩ }.releaseLease n) := by
  obtain ⟨released, hleased⟩ := h.leased_of_session hsome
  have hset : Passes n r n { r with session := some ⟨true, claimed, false⟩ } :=
    .refl rfl rfl rfl
  refine (serves_releaseLease (h.setSession hsome _) h.granted h.fresh h.leaseReturns ?_).after
    hset
  rw [show leased { r with session := some ⟨true, claimed, false⟩ } n.operationLock = _
    from hleased]
  exact fun _ => rfl

theorem Sound.commit (h : r.Sound n.operationLock) {session : SessionStatus}
    (hsession : r.session = some session) : Serves n r (r.commit session n) := by
  unfold AdmittedRequest.commit
  split
  · exact ⟨.refl rfl rfl rfl, h⟩
  · exact h.settles (by simp [hsession])

theorem Sound.cleanup (h : r.Sound n.operationLock) {session : SessionStatus}
    (hsession : r.session = some session) (waits : Bool) :
    Serves n r (r.cleanup session waits n) := by
  unfold AdmittedRequest.cleanup
  have hsome : r.session.isSome := by simp [hsession]
  split
  · exact ⟨.refl rfl rfl rfl, h⟩
  cases waits with
  | false => exact h.settles hsome
  | true =>
      refine ⟨.refl rfl rfl rfl, { h.setSession hsome ⟨true, false, true⟩ with
        granted := h.granted, fresh := h.fresh, leaseReturns := h.leaseReturns, owned := ?_ }⟩
      exact nofun

theorem Sound.claim (h : r.Sound n.operationLock) {session : SessionStatus}
    (hsession : r.session = some session) : Serves n r (n, r.claim session) := by
  unfold AdmittedRequest.claim
  split
  · exact ⟨.refl rfl rfl rfl, h⟩
  · rename_i hunsettled
    refine ⟨.refl rfl rfl rfl, { h.setSession (by simp [hsession]) _ with
      granted := h.granted, fresh := h.fresh, leaseReturns := h.leaseReturns, owned := ?_ }⟩
    have howned := h.owned
    unfold Owned at howned ⊢
    rw [hsession] at howned
    dsimp only at howned ⊢
    rw [if_neg hunsettled] at howned ⊢
    exact howned

/-! ### The request's part -/

/-- The slot and the claim are given back. -/
def returned (r : AdmittedRequest) : AdmittedRequest :=
  { r with
    released := true
    claimed := r.claimed.map fun claim => { claim with released := true }
    slotReturns := r.slotReturns + 1
    claimReturns := r.claimReturns + r.claimed.isSome.toNat }

def freed (r : AdmittedRequest) (n : UploadResources) : UploadResources :=
  { n with limiter := n.limiter.release, claimed := n.claimed - r.bytes }

theorem release_eq (hreleased : r.released = false)
    (hclaimed : ∀ claim, r.claimed = some claim → claim.released = false) :
    r.release n = match r.session with
      | none => r.returned.releaseLease (r.freed n)
      | some session =>
          if session.settled then r.returned.releaseLease (r.freed n)
          else (r.freed n, r.returned) := by
  have hclaim : ({ r with released := true } : AdmittedRequest).releaseClaim n =
      ({ n with claimed := n.claimed - r.bytes },
        { r with
          released := true
          claimed := r.claimed.map fun claim => { claim with released := true }
          claimReturns := r.claimReturns + r.claimed.isSome.toNat }) := by
    unfold releaseClaim AdmittedRequest.bytes
    cases hclaim : r.claimed with
    | none => simp
    | some claim => simp [Claim.release, Claim.outstanding, hclaimed claim hclaim]
  unfold release
  rw [hreleased, hclaim]
  rfl

theorem Shape.returned (h : r.Shape) (hreleased : r.released = false) (closed : Bool) :
    Shape { r with closed }.returned where
  acquiring := h.acquiring
  measuring := h.measuring
  calling := h.calling
  session := fun hsome => ⟨(h.session hsome).1, by
    simpa [AdmittedRequest.returned] using (h.session hsome).2⟩
  unclaimed := fun hnone => by simp [AdmittedRequest.returned, h.unclaimed hnone]
  claimed := fun claim hclaim => by
    obtain ⟨old, -, rfl⟩ := Option.map_eq_some_iff.mp hclaim
    rfl
  closed := fun _ => rfl
  done := fun _ _ => rfl
  slotReturns := by
    have hcount := h.slotReturns
    rw [hreleased] at hcount
    exact congrArg (· + 1) hcount
  claimReturns := by
    have hcount := h.claimReturns
    rw [hreleased, Bool.and_false] at hcount
    simp [AdmittedRequest.returned, hcount]

theorem passes_returned (hreleased : r.released = false) (closed : Bool) :
    Passes n r ({ r with closed }.freed n) { r with closed }.returned where
  slots := fun hle => by
    have hslot : r.slot = 1 := by simp [AdmittedRequest.slot, hreleased]
    have hpos : 0 < n.limiter.inFlight := by omega
    simp only [AdmittedRequest.slot, freed, returned, ConcurrencyLimiter.release, if_pos hpos,
      hreleased, Bool.not_false, Bool.not_true, Bool.toNat_true, Bool.toNat_false]
    omega
  bytes := fun hle => by
    have hnone : AdmittedRequest.bytes { r with closed }.returned = 0 := by
      unfold AdmittedRequest.bytes returned
      cases r.claimed <;> rfl
    have hsame : AdmittedRequest.bytes { r with closed } = r.bytes := rfl
    rw [hnone]
    show n.claimed - AdmittedRequest.bytes { r with closed } + r.bytes = n.claimed + 0
    omega
  ticket := rfl
  fair := fun h => h
  next := rfl
  spares := fun id _ => .refl _ id

/-- `release` gives back what is the request's, also when it runs at the close. -/
theorem Sound.release (h : r.Sound n.operationLock) (closed : Bool) :
    Serves n r ({ r with closed }.release n) := by
  rcases Bool.eq_false_or_eq_true r.released with hreleased | hreleased
  · have hsame : ({ r with closed } : AdmittedRequest).release n = (n, { r with closed }) :=
      if_pos hreleased
    rw [hsame]
    exact ⟨.refl rfl rfl rfl, { h with closed := fun _ => hreleased }⟩
  · have hclaimed : ∀ claim, ({ r with closed } : AdmittedRequest).claimed = some claim →
        claim.released = false := fun claim hclaim => (h.claimed claim hclaim).trans hreleased
    have hshape := h.toShape.returned hreleased closed
    have hpasses : Passes n r _ _ := passes_returned hreleased closed
    rw [release_eq (r := { r with closed }) hreleased hclaimed]
    split
    · rename_i hnone
      refine Serves.after ?_ hpasses
      refine serves_releaseLease hshape h.granted h.fresh h.leaseReturns ?_
      have hsession : AdmittedRequest.session { r with closed }.returned = none := hnone
      unfold Owned
      rw [hsession]
      intro released hleased
      obtain ⟨_, -, rfl⟩ := Option.map_eq_some_iff.mp hleased
      rfl
    · rename_i session hsession
      have hsession' : AdmittedRequest.session { r with closed }.returned = some session :=
        hsession
      split
      · rename_i hsettled
        refine Serves.after ?_ hpasses
        refine serves_releaseLease hshape h.granted h.fresh h.leaseReturns ?_
        have hsome : r.session.isSome := by
          rw [show r.session = some session from hsession]
          rfl
        obtain ⟨released, hleased⟩ := h.leased_of_session hsome
        unfold Owned
        rw [hsession']
        dsimp only
        rw [if_pos hsettled]
        intro _
        exact congrArg (Option.map fun _ => true) hleased
      · rename_i hunsettled
        refine ⟨hpasses, { hshape with
          granted := h.granted, fresh := h.fresh, leaseReturns := h.leaseReturns, owned := ?_ }⟩
        have howned := h.owned
        unfold Owned at howned ⊢
        rw [show r.session = some session from hsession] at howned
        rw [hsession']
        dsimp only at howned ⊢
        rw [if_neg hunsettled] at howned ⊢
        exact howned

/-! ### The events -/

theorem Shape.restage (h : r.Shape) {stage : AdmissionStage} (hnew : ∀ id, stage ≠ .acquiring id)
    (hmeasuring : stage ≠ .measuring) (hcalling : stage ≠ .calling)
    (hdone : stage = .done → r.session = none → r.released = true) :
    Shape { r with stage } where
  acquiring := fun id hstage => absurd hstage (hnew id)
  measuring := fun hstage => absurd hstage hmeasuring
  calling := fun hstage => absurd hstage hcalling
  session := h.session
  unclaimed := h.unclaimed
  claimed := h.claimed
  closed := h.closed
  done := hdone
  slotReturns := h.slotReturns
  claimReturns := h.claimReturns

/-- Where the continuation stands does not matter to what is shared. -/
theorem Sound.restage (h : r.Sound n.operationLock) {stage : AdmissionStage}
    (hold : ∀ id, r.stage ≠ .acquiring id) (hnew : ∀ id, stage ≠ .acquiring id)
    (hmeasuring : stage ≠ .measuring) (hcalling : stage ≠ .calling)
    (hdone : stage = .done → r.session = none → r.released = true) :
    Serves n r (n, { r with stage }) where
  passes := by
    refine .refl rfl rfl ?_
    show AdmittedRequest.ticket { r with stage } = r.ticket
    unfold AdmittedRequest.ticket
    cases hstage : r.stage with
    | acquiring id => exact absurd hstage (hold id)
    | _ =>
        cases hstage' : stage with
        | acquiring id => exact absurd hstage' (hnew id)
        | _ => rfl
  sound := { h.toShape.restage hnew hmeasuring hcalling hdone with
    granted := h.granted, fresh := fun id hstage => absurd hstage (hnew id)
    leaseReturns := h.leaseReturns, owned := h.owned }

theorem Serves.finish {result : UploadResources × AdmittedRequest} (h : Serves n r result)
    (hold : ∀ id, result.2.stage ≠ .acquiring id)
    (hdone : result.2.session = none → result.2.released = true) :
    Serves n r (finish result) := by
  have hfinish : Serves result.1 result.2 (result.1, { result.2 with stage := .done }) :=
    h.sound.restage hold nofun nofun nofun fun _ => hdone
  exact hfinish.after h.passes

theorem finish_releaseLease :
    finish (r.releaseLease n) = ({ r with stage := .done } : AdmittedRequest).releaseLease n := by
  obtain ⟨_, _, _, _, _, lease, _, _, _, _⟩ := r
  cases lease <;> rfl

theorem releaseLease_same (r : AdmittedRequest) (n : UploadResources) :
    (r.releaseLease n).2.stage = r.stage ∧ (r.releaseLease n).2.session = r.session ∧
      (r.releaseLease n).2.released = r.released := by
  unfold releaseLease
  split <;> exact ⟨rfl, rfl, rfl⟩

/-- A release changes neither the stage nor the session. -/
theorem release_same (r : AdmittedRequest) (n : UploadResources) :
    (r.release n).2.stage = r.stage ∧ (r.release n).2.session = r.session ∧
      (r.release n).2.released = true := by
  have hclaim (r : AdmittedRequest) (n : UploadResources) :
      (r.releaseClaim n).2.stage = r.stage ∧ (r.releaseClaim n).2.session = r.session ∧
        (r.releaseClaim n).2.released = r.released := by
    unfold releaseClaim
    split <;> exact ⟨rfl, rfl, rfl⟩
  obtain ⟨hstage, hsession, hreleased⟩ := hclaim { r with released := true } n
  unfold release
  split
  · rename_i h
    exact ⟨rfl, rfl, h⟩
  dsimp only
  generalize AdmittedRequest.releaseClaim { r with released := true } n = result at *
  split
  · obtain ⟨hs, ht, hr⟩ := releaseLease_same (result.2.releaseSlot result.1).2
        (result.2.releaseSlot result.1).1
    exact ⟨hs.trans hstage, ht.trans hsession, hr.trans hreleased⟩
  split
  · obtain ⟨hs, ht, hr⟩ := releaseLease_same (result.2.releaseSlot result.1).2
        (result.2.releaseSlot result.1).1
    exact ⟨hs.trans hstage, ht.trans hsession, hr.trans hreleased⟩
  · exact ⟨hstage, hsession, hreleased⟩

theorem Sound.onAcquired (h : r.Sound n.operationLock) {id : Nat} (hstage : r.stage = .acquiring id)
    (hlease : (n.operationLock.lease? id).isSome) : Serves n r (r.onAcquired id n) := by
  obtain ⟨hnone, hsession⟩ := h.acquiring id hstage
  obtain ⟨lease, hsome⟩ := Option.isSome_iff_exists.mp hlease
  have hheld := h.fresh id hstage lease hsome
  have hcount : r.leaseReturns = 0 := by
    have hcount := h.leaseReturns
    unfold leased at hcount
    rwa [hnone] at hcount
  have hleased (stage : AdmissionStage) :
      leased { r with operationLease := some id, stage } n.operationLock = some false := by
    show (n.operationLock.lease? id).map _ = _
    rw [hsome, Option.map_some, hheld]
  have hgranted (stage : AdmissionStage) (id' : Nat)
      (hlease' : ({ r with operationLease := some id, stage } : AdmittedRequest).operationLease =
        some id') : (n.operationLock.lease? id').isSome := by
    obtain rfl : id = id' := Option.some.inj hlease'
    exact hlease
  have hticket : r.ticket = some id := by
    unfold ticket
    rw [hstage]
  unfold AdmittedRequest.onAcquired
  dsimp only
  split
  · rename_i hreleased
    rw [finish_releaseLease]
    have hset : Passes n r n { r with operationLease := some id, stage := .done } :=
      .refl rfl rfl hticket.symm
    refine Serves.after ?_ hset
    refine serves_releaseLease ?_ (hgranted .done) nofun ?_ ?_
    · exact
        { acquiring := nofun, measuring := nofun, calling := nofun
          session := fun hsome => by rw [hsession] at hsome; cases hsome
          unclaimed := h.unclaimed, claimed := h.claimed, closed := h.closed
          done := fun _ _ => hreleased, slotReturns := h.slotReturns
          claimReturns := h.claimReturns }
    · rw [hleased]
      exact hcount
    · rw [hleased]
      unfold Owned
      rw [hsession]
      intro returned hreturned
      exact (Option.some.inj hreturned).symm.trans hreleased.symm
  · rename_i hreleased
    refine ⟨.refl rfl rfl hticket.symm,
      { acquiring := nofun, measuring := fun _ => ⟨rfl, hsession⟩, calling := nofun
        session := fun hsome => by rw [hsession] at hsome; cases hsome
        unclaimed := h.unclaimed, claimed := h.claimed, closed := h.closed, done := nofun
        slotReturns := h.slotReturns, claimReturns := h.claimReturns
        granted := hgranted .measuring, fresh := nofun, leaseReturns := ?_, owned := ?_ }⟩
    · rw [hleased]
      exact hcount
    · rw [hleased]
      unfold Owned
      rw [hsession]
      intro returned hreturned
      exact (Option.some.inj hreturned).symm.trans (Bool.eq_false_iff.mpr hreleased).symm

theorem Sound.onMeasured (h : r.Sound n.operationLock) (hstage : r.stage = .measuring)
    (available : Nat) : Serves n r (r.onMeasured limits available n) := by
  obtain ⟨hsome, hsession⟩ := h.measuring hstage
  have hticket (stage : AdmissionStage) (hnew : ∀ id, stage ≠ .acquiring id) :
      AdmittedRequest.ticket { r with stage } = r.ticket := by
    unfold AdmittedRequest.ticket
    rw [hstage]
    cases hstage' : stage with
    | acquiring id => exact absurd hstage' (hnew id)
    | _ => rfl
  have howned := h.owned
  unfold Owned at howned
  rw [hsession] at howned
  unfold AdmittedRequest.onMeasured
  split
  · rename_i hreleased
    rw [finish_releaseLease]
    have hset : Passes n r n { r with stage := .done } :=
      .refl rfl rfl (hticket .done fun _ h => by cases h)
    refine Serves.after ?_ hset
    refine serves_releaseLease (h.toShape.restage (fun _ h => by cases h)
      (fun h => by cases h) (fun h => by cases h) fun _ _ => hreleased)
      h.granted (fun _ h => by cases h) h.leaseReturns ?_
    unfold Owned
    rw [hsession]
    intro returned hreturned
    obtain ⟨_, -, rfl⟩ := Option.map_eq_some_iff.mp hreturned
    exact hreleased.symm
  · rename_i hreleased
    dsimp only
    obtain ⟨hsame, -, hset⟩ := release_same r n
    split
    · refine (h.release r.closed).finish (fun id => ?_) fun _ => hset
      show (r.release n).2.stage ≠ .acquiring id
      rw [hsame, hstage]
      exact fun h => by cases h
    · rename_i claimed hclaim
      obtain ⟨rfl, -⟩ := Space.claimSpace_eq_some hclaim
      have hnone := h.unclaimed hsession
      have hheld : r.released = false := Bool.eq_false_iff.mpr hreleased
      refine ⟨{ slots := fun _ => rfl, bytes := fun _ => ?_, ticket := ?_, fair := fun h => h
                next := rfl, spares := fun id _ => .refl _ id },
        { acquiring := fun _ h => by cases h
          measuring := fun h => by cases h
          calling := fun _ => rfl
          session := fun _ => ⟨hsome, rfl⟩
          unclaimed := fun h => by cases h
          claimed := ?_
          closed := h.closed
          done := fun h => by cases h
          slotReturns := h.slotReturns
          claimReturns := ?_
          granted := h.granted
          fresh := fun _ h => by cases h
          leaseReturns := h.leaseReturns
          owned := ?_ }⟩
      · simp [AdmittedRequest.bytes, hnone, Claim.outstanding]
      · exact hticket .calling fun _ h => by cases h
      · intro claim hclaim
        obtain rfl := Option.some.inj hclaim
        exact hheld.symm
      · have hcount := h.claimReturns
        rw [hnone] at hcount
        show r.claimReturns = (true && r.released).toNat
        rw [hheld, hcount]
        rfl
      · obtain ⟨id, hlease⟩ := Option.isSome_iff_exists.mp hsome
        obtain ⟨lease, hgranted⟩ := Option.isSome_iff_exists.mp (h.granted id hlease)
        have hleased : r.leased n.operationLock = some lease.released := by
          unfold leased
          rw [hlease, Option.bind_some, hgranted]
          rfl
        refine ⟨hleased.trans (congrArg some ?_), rfl⟩
        exact (howned lease.released hleased).trans hheld

theorem Sound.onClose (h : r.Sound n.operationLock) (waits : Bool) :
    Serves n r (r.onClose waits n) := by
  have hrelease := h.release true
  unfold AdmittedRequest.onClose
  dsimp only
  split
  · exact hrelease
  · rename_i session hsession
    split
    · exact hrelease
    · exact (hrelease.sound.cleanup hsession waits).after hrelease.passes

/-- Which code runs at an event. -/
inductive Responds (limits : UploadLimits) (r : AdmittedRequest) (n : UploadResources) :
    RequestEvent → UploadResources × AdmittedRequest → Prop
  | acquired {id : Nat} (hstage : r.stage = .acquiring id)
      (hlease : (n.operationLock.lease? id).isSome) :
      Responds limits r n .acquired (r.onAcquired id n)
  | measured {available : Nat} (hstage : r.stage = .measuring) :
      Responds limits r n (.measured available) (r.onMeasured limits available n)
  | measureFails (hstage : r.stage = .measuring) :
      Responds limits r n .measureFails (n, { r with stage := .failing })
  | nextReturns (hstage : r.stage = .calling) :
      Responds limits r n .nextReturns (n, { r with stage := .done })
  | nextThrows (hstage : r.stage = .calling) :
      Responds limits r n .nextThrows (n, { r with stage := .failing })
  | fails (hstage : r.stage = .failing) : Responds limits r n .fails (finish (r.release n))
  | close {waits : Bool} : Responds limits r n (.close waits) (r.onClose waits n)
  | claim {session : SessionStatus} (hsession : r.session = some session) :
      Responds limits r n .claim (n, r.claim session)
  | commit {session : SessionStatus} (hsession : r.session = some session) :
      Responds limits r n .commit (r.commit session n)
  | cleanup {session : SessionStatus} {waits : Bool} (hsession : r.session = some session) :
      Responds limits r n (.cleanup waits) (r.cleanup session waits n)
  | cleanupEnds {session : SessionStatus} (hsession : r.session = some session)
      (hcleaning : session.cleaning = true) :
      Responds limits r n .cleanupEnds
        ({ r with session := some { session with cleaning := false } }.releaseLease n)

theorem responds_of_respond {event : RequestEvent} {result : UploadResources × AdmittedRequest}
    (h : r.respond limits n event = some result) : Responds limits r n event result := by
  cases event with
  | acquired =>
      simp only [respond] at h
      split at h
      · rename_i id hstage
        obtain ⟨hlease, heq⟩ := Option.ite_none_right_eq_some.mp h
        exact Option.some.inj heq ▸ .acquired hstage hlease
      · cases h
  | measured available =>
      obtain ⟨hstage, heq⟩ := Option.ite_none_right_eq_some.mp h
      exact Option.some.inj heq ▸ .measured hstage
  | measureFails =>
      obtain ⟨hstage, heq⟩ := Option.ite_none_right_eq_some.mp h
      exact Option.some.inj heq ▸ .measureFails hstage
  | nextReturns =>
      obtain ⟨hstage, heq⟩ := Option.ite_none_right_eq_some.mp h
      exact Option.some.inj heq ▸ .nextReturns hstage
  | nextThrows =>
      obtain ⟨hstage, heq⟩ := Option.ite_none_right_eq_some.mp h
      exact Option.some.inj heq ▸ .nextThrows hstage
  | fails =>
      obtain ⟨hstage, heq⟩ := Option.ite_none_right_eq_some.mp h
      exact Option.some.inj heq ▸ .fails hstage
  | close waits => exact Option.some.inj h ▸ .close
  | claim =>
      obtain ⟨session, hsession, rfl⟩ := Option.map_eq_some_iff.mp h
      exact .claim hsession
  | commit =>
      obtain ⟨session, hsession, rfl⟩ := Option.map_eq_some_iff.mp h
      exact .commit hsession
  | cleanup waits =>
      obtain ⟨session, hsession, rfl⟩ := Option.map_eq_some_iff.mp h
      exact .cleanup hsession
  | cleanupEnds =>
      simp only [respond] at h
      split at h
      · rename_i session hsession
        obtain ⟨hcleaning, heq⟩ := Option.ite_none_right_eq_some.mp h
        exact Option.some.inj heq ▸ .cleanupEnds hsession hcleaning
      · cases h

/-- Whatever happens to a request, it stays sound. -/
theorem Sound.respond (h : r.Sound n.operationLock) {event : RequestEvent}
    {result : UploadResources × AdmittedRequest} (hresponds : Responds limits r n event result) :
    Serves n r result := by
  cases hresponds with
  | acquired hstage hlease => exact h.onAcquired hstage hlease
  | measured hstage => exact h.onMeasured hstage _
  | measureFails hstage =>
      exact h.restage (fun id => by rw [hstage]; nofun) nofun nofun nofun nofun
  | nextReturns hstage =>
      refine h.restage (fun id => by rw [hstage]; nofun) nofun nofun nofun fun _ hnone => ?_
      have hsome := h.calling hstage
      rw [hnone] at hsome
      cases hsome
  | nextThrows hstage =>
      exact h.restage (fun id => by rw [hstage]; nofun) nofun nofun nofun nofun
  | fails hstage =>
      obtain ⟨hsame, -, hset⟩ := release_same r n
      refine (h.release r.closed).finish (fun id => ?_) fun _ => hset
      show (r.release n).2.stage ≠ .acquiring id
      rw [hsame, hstage]
      nofun
  | close => exact h.onClose _
  | claim hsession => exact h.claim hsession
  | commit hsession => exact h.commit hsession
  | cleanup hsession => exact h.cleanup hsession _
  | @cleanupEnds session hsession hcleaning =>
      have hsettled := h.settled_of_cleaning hsession hcleaning
      obtain ⟨settled, claimed, cleaning⟩ := session
      obtain rfl : settled = true := hsettled
      exact h.settles (by simp [hsession])

/-- The response has closed, the continuation is done, and so is the session. -/
structure Ended (r : AdmittedRequest) : Prop where
  closed : r.closed = true
  stage : r.stage = .done
  session : ∀ session, r.session = some session → session.isFinished = true

/-! ### The lease of an open session -/

/-- The lease of a session that is not through is held. -/
def KeepsLease (r : AdmittedRequest) (l : StorageOperationLock) : Prop :=
  ∀ session, r.session = some session → session.isFinished = false → r.leased l = some false

/-- The request gives back, for the first time, while its session cleans up. -/
def Interrupts (r : AdmittedRequest) (event : RequestEvent) : Prop :=
  (event = .fails ∨ ∃ waits, event = .close waits) ∧ r.released = false ∧
    ∃ session, r.session = some session ∧ session.cleaning = true

theorem Sound.keepsLease (h : r.Sound l)
    (hidle : ∀ session, r.session = some session → session.cleaning = false) :
    r.KeepsLease l := by
  intro session hsession hopen
  have howned := h.owned
  unfold Owned at howned
  rw [hsession] at howned
  dsimp only at howned
  split at howned
  · rename_i hsettled
    simp [SessionStatus.isFinished, hsettled, hidle session hsession] at hopen
  · exact howned.1

theorem Sound.not_cleaning (h : r.Sound l) {session : SessionStatus}
    (hsession : r.session = some session) (hunsettled : session.settled = false) :
    session.cleaning = false := by
  cases hcleaning : session.cleaning with
  | false => rfl
  | true =>
      rw [h.settled_of_cleaning hsession hcleaning] at hunsettled
      cases hunsettled

/-- A release lets the lease of a running cleanup go. -/
theorem Sound.keepsLease_release (h : r.Sound n.operationLock)
    (hkeeps : r.KeepsLease n.operationLock) (closed : Bool) :
    ({ r with closed }.release n).2.KeepsLease ({ r with closed }.release n).1.operationLock ↔
      ¬(r.released = false ∧ ∃ session, r.session = some session ∧ session.cleaning = true) := by
  obtain ⟨-, hsame, -⟩ := release_same { r with closed } n
  rcases Bool.eq_false_or_eq_true r.released with hreleased | hreleased
  · have hrelease : ({ r with closed } : AdmittedRequest).release n = (n, { r with closed }) :=
      if_pos hreleased
    rw [hrelease]
    refine iff_of_true hkeeps fun hinterrupts => ?_
    rw [hreleased] at hinterrupts
    cases hinterrupts.1
  by_cases hcleaning : ∃ session, r.session = some session ∧ session.cleaning = true
  · obtain ⟨session, hsession, hcleaning⟩ := hcleaning
    have hsettled := h.settled_of_cleaning hsession hcleaning
    obtain ⟨released, hleased⟩ := h.leased_of_session (by simp [hsession])
    have hshape := h.toShape.returned hreleased closed
    obtain ⟨lock, heq, -, -, hafter⟩ :=
      releaseLease_spec (n := AdmittedRequest.freed { r with closed } n) hshape h.granted
    have hrelease : ({ r with closed } : AdmittedRequest).release n =
        (AdmittedRequest.returned { r with closed }).releaseLease
          (AdmittedRequest.freed { r with closed } n) := by
      rw [release_eq (r := { r with closed }) hreleased
        fun claim hclaim => (h.claimed claim hclaim).trans hreleased]
      dsimp only
      rw [hsession]
      exact if_pos hsettled
    refine iff_of_false (fun hkept => ?_) fun hnot => hnot ⟨hreleased, session, hsession, hcleaning⟩
    have hheld := hkept session (hsame.trans hsession) (by
      simp [SessionStatus.isFinished, hcleaning])
    rw [hrelease] at hheld
    have hlock : ((AdmittedRequest.returned { r with closed }).releaseLease
        (AdmittedRequest.freed { r with closed } n)).1.operationLock = lock := by rw [heq]
    rw [hlock, hafter] at hheld
    obtain ⟨_, -, hfalse⟩ := Option.map_eq_some_iff.mp hheld
    cases hfalse
  · refine iff_of_true ?_ fun hinterrupts => hcleaning hinterrupts.2
    refine (h.release closed).sound.keepsLease fun session hsession => ?_
    rw [hsame] at hsession
    exact Bool.eq_false_iff.mpr fun hclean => hcleaning ⟨session, hsession, hclean⟩

theorem Sound.keepsLease_cleanup (h : r.Sound n.operationLock)
    (hkeeps : r.KeepsLease n.operationLock) {session : SessionStatus}
    (hsession : r.session = some session) (waits : Bool) :
    (r.cleanup session waits n).2.KeepsLease (r.cleanup session waits n).1.operationLock := by
  have hserves := h.cleanup hsession waits
  unfold AdmittedRequest.cleanup at *
  split
  · exact hkeeps
  · rename_i hunsettled
    rw [if_neg hunsettled] at hserves
    cases waits with
    | false =>
        refine hserves.sound.keepsLease fun session' hsession' => ?_
        have hsame : some _ = some session' := (releaseLease_same _ n).2.1.symm.trans hsession'
        obtain rfl := Option.some.inj hsame
        rfl
    | true =>
        have hopen : session.isFinished = false := by
          simp [SessionStatus.isFinished, Bool.eq_false_iff.mpr hunsettled]
        exact fun _ _ _ => hkeeps session hsession hopen

theorem Sound.keepsLease_respond (h : r.Sound n.operationLock)
    (hkeeps : r.KeepsLease n.operationLock) {event : RequestEvent}
    {result : UploadResources × AdmittedRequest} (hresponds : Responds limits r n event result) :
    result.2.KeepsLease result.1.operationLock ↔ ¬r.Interrupts event := by
  have hsound := (h.respond hresponds).sound
  -- Only two events give back what the request holds.
  have hother (hkept : result.2.KeepsLease result.1.operationLock) (hfails : event ≠ .fails)
      (hclose : ∀ waits, event ≠ .close waits) :
      result.2.KeepsLease result.1.operationLock ↔ ¬r.Interrupts event :=
    iff_of_true hkept fun hinterrupts =>
      hinterrupts.1.elim hfails fun ⟨waits, heq⟩ => hclose waits heq
  cases hresponds with
  | @acquired id hstage hlease =>
      refine hother (hsound.keepsLease fun session hsession => ?_) nofun nofun
      have hnone : (r.onAcquired id n).2.session = r.session := by
        unfold AdmittedRequest.onAcquired
        dsimp only
        split
        · exact (releaseLease_same _ n).2.1
        · rfl
      rw [hnone, (h.acquiring id hstage).2] at hsession
      cases hsession
  | @measured available hstage =>
      refine hother (hsound.keepsLease fun session hsession => ?_) nofun nofun
      have hnone := (h.measuring hstage).2
      have hcases : (r.onMeasured limits available n).2.session = r.session ∨
          (r.onMeasured limits available n).2.session = some ⟨false, false, false⟩ := by
        unfold AdmittedRequest.onMeasured
        split
        · exact .inl (releaseLease_same _ n).2.1
        dsimp only
        split
        · exact .inl (release_same r n).2.1
        · exact .inr rfl
      rcases hcases with hsame | hnew
      · rw [hsame, hnone] at hsession
        cases hsession
      · obtain rfl := Option.some.inj (hnew.symm.trans hsession)
        rfl
  | measureFails => exact hother hkeeps nofun nofun
  | nextReturns => exact hother hkeeps nofun nofun
  | nextThrows => exact hother hkeeps nofun nofun
  | fails hstage =>
      refine (h.keepsLease_release hkeeps r.closed).trans (not_congr ?_)
      exact ⟨fun hinterrupts => ⟨.inl rfl, hinterrupts⟩, fun hinterrupts => hinterrupts.2⟩
  | @close waits =>
      have hiff := h.keepsLease_release hkeeps true
      have hrelease := h.release true
      obtain ⟨-, hsame, -⟩ := release_same { r with closed := true } n
      have hinterrupts : r.Interrupts (.close waits) ↔ r.released = false ∧
          ∃ session, r.session = some session ∧ session.cleaning = true :=
        ⟨fun h => h.2, fun h => ⟨.inr ⟨waits, rfl⟩, h⟩⟩
      rw [hinterrupts]
      unfold AdmittedRequest.onClose
      dsimp only
      split
      · exact hiff
      · rename_i session hsession
        split
        · exact hiff
        · rename_i hopen
          have hidle : session.cleaning = false := by
            refine h.not_cleaning (hsame.symm.trans hsession) ?_
            simp only [Bool.or_eq_true, not_or, Bool.not_eq_true] at hopen
            exact hopen.1
          have hnot : ¬(r.released = false ∧
              ∃ session, r.session = some session ∧ session.cleaning = true) := by
            rintro ⟨-, session', hsession', hcleaning⟩
            obtain rfl := Option.some.inj (hsession'.symm.trans (hsame.symm.trans hsession))
            rw [hidle] at hcleaning
            cases hcleaning
          exact iff_of_true
            (hrelease.sound.keepsLease_cleanup (hiff.mpr hnot) hsession waits) hnot
  | @claim session hsession =>
      refine hother ?_ nofun nofun
      unfold AdmittedRequest.claim
      split
      · exact hkeeps
      · intro session' hsession' hopen
        obtain rfl := Option.some.inj hsession'
        exact hkeeps session hsession hopen
  | @commit session hsession =>
      refine hother ?_ nofun nofun
      unfold AdmittedRequest.commit at hsound ⊢
      split
      · exact hkeeps
      · rename_i hunsettled
        rw [if_neg hunsettled] at hsound
        refine hsound.keepsLease fun session' hsession' => ?_
        have hsame : some _ = some session' := (releaseLease_same _ n).2.1.symm.trans hsession'
        obtain rfl := Option.some.inj hsame
        rfl
  | cleanup hsession => exact hother (h.keepsLease_cleanup hkeeps hsession _) nofun nofun
  | cleanupEnds hsession hcleaning =>
      refine hother (hsound.keepsLease fun session' hsession' => ?_) nofun nofun
      have hsame : some _ = some session' := (releaseLease_same _ n).2.1.symm.trans hsession'
      obtain rfl := Option.some.inj hsame
      rfl

end AdmittedRequest

/-! ## What a request sees of its session -/

section Session

variable {Cid : Type} [DecidableEq Cid]

def UploadSession.status {Cid : Type} (σ : UploadSession Cid) : SessionStatus where
  settled := σ.settled
  claimed := σ.claimed
  cleaning := σ.cleanup.any fun c => !(c.stage matches .ended)

/-- The status of a session changes as the code of its request has it. -/
def Follows (status status' : SessionStatus) : Prop :=
  status' = status ∨ ∃ event, ∀ limits n (r : AdmittedRequest), r.session = some status →
    ∃ n' r', r.respond limits n event = some (n', r') ∧ r'.session = some status'

variable {w w' : Uploads Cid} {i j : Nat} {σ σ' τ τ' : UploadSession Cid}
variable {a : Uploads.Action Cid}

omit [DecidableEq Cid] in
theorem follows_claim : Follows σ.status σ.claim.status := by
  refine .inr ⟨.claim, fun limits n r hsession => ?_⟩
  refine ⟨n, r.claim σ.status, by simp [AdmittedRequest.respond, hsession], ?_⟩
  unfold AdmittedRequest.claim UploadSession.claim UploadSession.status
  cases hsettled : σ.settled with
  | true => simpa [UploadSession.status, hsettled] using hsession
  | false => simp

omit [DecidableEq Cid] in
theorem follows_commit (hunsettled : σ.settled = false) :
    Follows σ.status (σ.settle none).status := by
  refine .inr ⟨.commit, fun limits n r hsession => ?_⟩
  refine ⟨_, (r.commit σ.status n).2, by simp only [AdmittedRequest.respond, hsession]; rfl, ?_⟩
  unfold AdmittedRequest.commit
  rw [if_neg (by simp [UploadSession.status, hunsettled])]
  exact (AdmittedRequest.releaseLease_same _ n).2.1

omit [DecidableEq Cid] in
theorem follows_cleanup (hunsettled : σ.settled = false) (releasable : List Cid) :
    Follows σ.status
      (σ.settle (some { releasable, position := 0, stage := .next })).status := by
  refine .inr ⟨.cleanup true, fun limits n r hsession => ?_⟩
  refine ⟨_, (r.cleanup σ.status true n).2, by simp only [AdmittedRequest.respond, hsession]; rfl,
    ?_⟩
  unfold AdmittedRequest.cleanup
  rw [if_neg (by simp [UploadSession.status, hunsettled])]
  rfl

omit [DecidableEq Cid] in
theorem follows_cleanupAt {c c' : Cleanup Cid} (hcleanup : σ.cleanup = some c)
    (hstage : c.stage ≠ .ended) {stage : CleanupStage Cid} :
    Follows σ.status (σ.cleanupAt c' stage).status := by
  have hcleaning : σ.status.cleaning = true := by
    unfold UploadSession.status
    simp only [hcleanup, Option.any_some]
    cases h : c.stage <;> simp_all
  cases stage with
  | ended =>
      refine .inr ⟨.cleanupEnds, fun limits n r hsession => ?_⟩
      refine ⟨_, _, by simp only [AdmittedRequest.respond, hsession, hcleaning, if_true]; rfl, ?_⟩
      exact (AdmittedRequest.releaseLease_same _ n).2.1
  | _ => exact .inl (congrArg (SessionStatus.mk _ _) hcleaning.symm)

/-- Every step of the sessions opens one, or is one of the request that owns it. -/
theorem follows_step (hstep : Uploads.Step w a w') (hσ' : w'.sessions[i]? = some σ') :
    σ' = .new ∨ ∃ σ, w.sessions[i]? = some σ ∧ Follows σ.status σ'.status := by
  have hset {v : Uploads Cid} {k : Nat} {τ τ' : UploadSession Cid} (hv : v.sessions = w.sessions)
      (hτ : w.sessions[k]? = some τ) (hσ' : (v.setSession k τ').sessions[i]? = some σ')
      (hfollows : Follows τ.status τ'.status) :
      σ' = .new ∨ ∃ σ, w.sessions[i]? = some σ ∧ Follows σ.status σ'.status := by
    rcases Uploads.of_session_set (hv ▸ hτ) hσ' with ⟨rfl, rfl⟩ | ⟨-, hsame⟩
    · exact .inr ⟨τ, hτ, hfollows⟩
    · exact .inr ⟨σ', hv ▸ hsame, .inl rfl⟩
  have hidle (h : w.sessions[i]? = some σ') :
      σ' = .new ∨ ∃ σ, w.sessions[i]? = some σ ∧ Follows σ.status σ'.status :=
    .inr ⟨σ', h, .inl rfl⟩
  cases hstep with
  | openSession =>
      rcases Uploads.session_append hσ' with hsame | hnew
      · exact hidle hsame
      · exact .inl hnew
  | put h => exact hset rfl h hσ' (.inl rfl)
  | has h => exact hset rfl h hσ' (.inl rfl)
  | touch h => exact hset rfl h hσ' (.inl rfl)
  | write h => exact hset rfl h hσ' (.inl rfl)
  | @finish _ _ σ cid existed h =>
      refine hset rfl h hσ' (.inl ?_)
      show UploadSession.status (σ.create cid existed) = σ.status
      unfold UploadSession.create
      split <;> rfl
  | failPut h => exact hset rfl h hσ' (.inl rfl)
  | claim h => exact hset rfl h hσ' follows_claim
  | commit h =>
      unfold Uploads.commit at hσ'
      split at hσ'
      · exact hidle hσ'
      · rename_i hunsettled
        exact hset rfl h hσ' (follows_commit (Bool.eq_false_iff.mpr hunsettled))
  | cleanup h =>
      unfold Uploads.cleanup at hσ'
      split at hσ'
      · exact hidle hσ'
      · rename_i hunsettled
        exact hset rfl h hσ' (follows_cleanup (Bool.eq_false_iff.mpr hunsettled) _)
  | cleanupIfUnclaimed h =>
      unfold Uploads.cleanupIfUnclaimed Uploads.cleanup at hσ'
      split at hσ'
      · exact hidle hσ'
      split at hσ'
      · exact hidle hσ'
      · rename_i hunsettled
        exact hset rfl h hσ' (follows_cleanup (Bool.eq_false_iff.mpr hunsettled) _)
  | visit h hcleanup hstage =>
      rename_i c
      have hopen : c.stage ≠ .ended := by
        rw [hstage]
        nofun
      refine hset rfl h hσ' ?_
      unfold UploadSession.visit
      split
      · exact follows_cleanupAt hcleanup hopen
      · dsimp only
        split <;> exact follows_cleanupAt hcleanup hopen
  | isPinned h hcleanup hstage =>
      exact hset rfl h hσ' (follows_cleanupAt hcleanup (by rw [hstage]; nofun))
  | checkBlock h hcleanup hstage =>
      exact hset rfl h hσ' (follows_cleanupAt hcleanup (by rw [hstage]; nofun))
  | delete h hcleanup hstage =>
      exact hset rfl h hσ' (follows_cleanupAt hcleanup (by rw [hstage]; nofun))
  | finishDelete h hcleanup hstage =>
      exact hset rfl h hσ' (follows_cleanupAt hcleanup (by rw [hstage]; nofun))
  | failCleanup h hcleanup hstage => exact hset rfl h hσ' (follows_cleanupAt hcleanup hstage)
  | pin => exact hidle hσ'

/-- A session of a run comes from a new one by what the code of a request does. -/
theorem session_of_run {present pinned : Cid → Bool}
    (hrun : TransitionSystem.Run Uploads.Step TransitionSystem.always
      (Uploads.start present pinned) w) (hσ : w.sessions[i]? = some σ) :
    Relation.ReflTransGen Follows (UploadSession.new : UploadSession Cid).status σ.status := by
  induction hrun generalizing σ with
  | start => cases hσ
  | next hrun _ hstep ih =>
      rcases follows_step hstep hσ with rfl | ⟨τ, hτ, hfollows⟩
      · exact .refl
      · exact (ih hτ).tail hfollows

end Session

end IpfsNode
