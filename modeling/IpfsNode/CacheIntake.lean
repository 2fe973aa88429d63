import IpfsNode.IntakeBudget
import IpfsNode.Meter
import IpfsNode.Reservation
import IpfsNode.UploadAdmission

/-!
# Transfers from peers

Whatever this node fetches on behalf of a peer goes through one function, which
takes a slot, claims space, and reads blocks through a meter. A copy that any
peer may ask for is also charged to that peer before a block is fetched, and
corrected when the transfer is over. Any number of transfers run at once, and
each may fail at every point.

`intake_bounded` puts the parts together: slots and claims are given back on
every way out, no transfer brings in more than it claimed, and in every window a
peer costs this node no more than its budget, but for blocks that arrive after
their transfer was settled.
-/

namespace IpfsNode

open TransitionSystem

/-! ## The code -/

inductive TransferStage where
  /-- It has a slot, and the free space is being measured. -/
  | measuring
  | pulling
  /-- Slot and claim are given back. -/
  | ended
deriving DecidableEq, Repr

/-- One call of `pullUnderIntakeLimits`. -/
structure Transfer where
  limitBytes : Nat
  /-- The reservation of a cached copy; a copy this node answers for has none. -/
  reservation : Option Nat
  stage : TransferStage
  /-- `progress`, and the reads that add to it. -/
  blocks : MeteredBlocks
  /-- What the reservation was settled for. -/
  settledFor : Option Nat
deriving DecidableEq, Repr

def Transfer.opened (limitBytes : Nat) (reservation : Option Nat) (stage : TransferStage) :
    Transfer :=
  ⟨limitBytes, reservation, stage, .start limitBytes, none⟩

/-- What the limit can be overshot by is claimed with it. -/
def Transfer.claimBytes (t : Transfer) : Nat := t.limitBytes + INTAKE_OVERSHOOT_BYTES

structure IntakeLimits where
  maxRequestSizeBytes : Nat
  diskReserveBytes : Nat
  maxConcurrentIncoming : Nat
deriving DecidableEq, Repr

structure IntakeNode (Peer : Type) where
  budget : Intake Peer
  incomingCopyLimiter : ConcurrencyLimiter
  /-- The space promised to work in progress. -/
  claimed : Nat
  /-- The part of it that was promised to uploads. -/
  uploads : Nat
  transfers : List Transfer
deriving DecidableEq, Repr

namespace IntakeNode

variable {Peer : Type} (limits : IntakeLimits)

def start : IntakeNode Peer where
  budget := .empty
  incomingCopyLimiter := ⟨0, limits.maxConcurrentIncoming⟩
  claimed := 0
  uploads := 0
  transfers := []

variable {limits}

/-- `pullUnderIntakeLimits`, until it measures the free space. -/
def pullUnderIntakeLimits (s : IntakeNode Peer) (limitBytes : Nat) (reservation : Option Nat) :
    IntakeNode Peer :=
  match s.incomingCopyLimiter.tryAcquire with
  -- 'Too many copies are already being received'
  | none => { s with transfers := s.transfers ++ [.opened limitBytes reservation .ended] }
  | some incomingCopyLimiter =>
      { s with
        incomingCopyLimiter
        transfers := s.transfers ++ [.opened limitBytes reservation .measuring] }

/-- The `finally` of `pullUnderIntakeLimits`. -/
def finish (s : IntakeNode Peer) (i : Nat) (t : Transfer) : IntakeNode Peer :=
  { s with
    claimed := if t.stage = .pulling then s.claimed - t.claimBytes else s.claimed
    incomingCopyLimiter := s.incomingCopyLimiter.release
    transfers := s.transfers.set i { t with stage := .ended } }

variable (limits) in
/-- The free space is known, or could not be read. -/
def onMeasured (s : IntakeNode Peer) (i : Nat) (t : Transfer) (available : Option Nat) :
    IntakeNode Peer :=
  match available with
  | none => s.finish i t
  | some available =>
      match claimSpace s.claimed ⟨t.claimBytes, available, limits.diskReserveBytes⟩ with
      -- 'No room for another copy'
      | none => s.finish i t
      | some claimed =>
          { s with claimed, transfers := s.transfers.set i { t with stage := .pulling } }

variable [DecidableEq Peer]

variable (limits) in
/-- Most a cached copy may bring in. -/
def allowance : Nat :=
  min limits.maxRequestSizeBytes (PER_PEER_INTAKE_BYTES - INTAKE_OVERSHOOT_BYTES)

variable (limits) in
/-- `cacheFileLocally`, until it measures the free space. -/
def cacheFileLocally (s : IntakeNode Peer) (peerId : Peer) (now : Nat) : IntakeNode Peer :=
  let budget := s.budget.reserveIntake peerId (allowance limits + INTAKE_OVERSHOOT_BYTES) now
  let index := s.budget.reservations.length
  -- 'Cache budget for this peer is spent'
  if budget.reservations.length = index then { s with budget }
  else pullUnderIntakeLimits { s with budget } (allowance limits) (some index)

/-- The `finally` of `cacheFileLocally`. -/
def settle (s : IntakeNode Peer) (i : Nat) (t : Transfer) (index : Nat) : IntakeNode Peer :=
  { s with
    budget := s.budget.settle index t.blocks.bytes
    transfers := s.transfers.set i { t with settledFor := some t.blocks.bytes } }

inductive Event (Peer : Type) where
  | cache (peerId : Peer) (now : Nat)
  /-- A copy that this node answers for. -/
  | replica
  | measured (i : Nat) (available : Option Nat)
  | read (i : Nat) (e : MeteredBlocks.Event)
  /-- The content was drained, or the read failed or was aborted. -/
  | finished (i : Nat)
  | settled (i : Nat)
  | uploadClaims (bytes : Nat)
  | uploadReleases (bytes : Nat)
deriving DecidableEq, Repr

variable (limits) in
inductive Step : IntakeNode Peer → Event Peer → IntakeNode Peer → Prop
  | cache {s : IntakeNode Peer} {peerId : Peer} {now : Nat} (hnow : s.budget.clock ≤ now) :
      Step s (.cache peerId now) (s.cacheFileLocally limits peerId now)
  | replica {s : IntakeNode Peer} :
      Step s .replica (s.pullUnderIntakeLimits limits.maxRequestSizeBytes none)
  | measured {s : IntakeNode Peer} {i : Nat} {t : Transfer} {available : Option Nat}
      (h : s.transfers[i]? = some t) (hstage : t.stage = .measuring) :
      Step s (.measured i available) (s.onMeasured limits i t available)
  | read {s : IntakeNode Peer} {i : Nat} {t : Transfer} {e : MeteredBlocks.Event}
      {blocks : MeteredBlocks} (h : s.transfers[i]? = some t)
      (hread : MeteredBlocks.Step t.blocks e blocks) :
      Step s (.read i e) { s with transfers := s.transfers.set i { t with blocks } }
  | finished {s : IntakeNode Peer} {i : Nat} {t : Transfer} (h : s.transfers[i]? = some t)
      (hstage : t.stage = .pulling) : Step s (.finished i) (s.finish i t)
  | settled {s : IntakeNode Peer} {i index : Nat} {t : Transfer} (h : s.transfers[i]? = some t)
      (hstage : t.stage = .ended) (hreserved : t.reservation = some index)
      (hsettled : t.settledFor = none) : Step s (.settled i) (s.settle i t index)
  | uploadClaims {s : IntakeNode Peer} {bytes : Nat} : Step s (.uploadClaims bytes)
      { s with claimed := s.claimed + bytes, uploads := s.uploads + bytes }
  | uploadReleases {s : IntakeNode Peer} {bytes : Nat} (h : bytes ≤ s.uploads) :
      Step s (.uploadReleases bytes)
        { s with claimed := s.claimed - bytes, uploads := s.uploads - bytes }

/-- A reader that opens blocks for a transfer that is under way, as many at a time
as it is told to, of the size a transport delivers. -/
def Orderly (s : IntakeNode Peer) : Event Peer → Prop
  | .read i e => ∀ t, s.transfers[i]? = some t →
      MeteredBlocks.Disciplined INTAKE_READ_CONCURRENCY t.blocks e ∧
        ∀ chunks, e = .get chunks → t.stage = .pulling
  | _ => True

end IntakeNode

/-! ## One transfer -/

namespace MeteredBlocks

variable {s s' : MeteredBlocks} {e : Event} {c limitBytes : Nat}

/-- What open reads have still to bring in. -/
def pending (s : MeteredBlocks) : Nat := s.gets.tally (·.rest.sum)

/-- Open reads have no more to bring in than their places allow. -/
theorem Metered.pending_le (h : s.Metered c limitBytes) : s.pending ≤ c * MAX_BLOCK_BYTES := by
  have hrest : s.pending ≤ s.gets.tally fun g => place g * MAX_BLOCK_BYTES := by
    refine List.tally_le fun g hmem => ?_
    have hcharged := (h.accounted g hmem).charged
    have hbounded := (h.accounted g hmem).bounded
    by_cases hdelivered : g.stage = .delivered
    · have hdone : g.inProgress = false := by simp [MeteredGet.inProgress, hdelivered]
      rw [(h.accounted g hmem).drained hdone]
      exact Nat.zero_le _
    · have hplace : place g = 1 := if_neg hdelivered
      rw [hplace, Nat.one_mul]
      omega
  have hscale : (s.gets.tally fun g => place g * MAX_BLOCK_BYTES) =
      s.gets.tally place * MAX_BLOCK_BYTES := by
    induction s.gets with
    | nil => rw [List.tally_nil, List.tally_nil, Nat.zero_mul]
    | cons g l ih => rw [List.tally_cons, List.tally_cons, ih, Nat.add_mul]
  exact hrest.trans (hscale.trans_le (Nat.mul_le_mul_right _ h.places))

/-- Unless a block is opened, what arrives is what was pending. -/
theorem Step.conserved (hstep : Step s e s') (hopen : ∀ chunks, e ≠ .get chunks) :
    s'.bytes + s'.pending = s.bytes + s.pending ∧ s.bytes ≤ s'.bytes := by
  cases hstep with
  | @get chunks => exact absurd rfl (hopen chunks)
  | @chunk i g byteLength rest hget _ hrest =>
      obtain ⟨g', hgets, hrest'⟩ : ∃ g', (s.chunk i g byteLength rest).gets = s.gets.set i g' ∧
          g'.rest = rest := by
        unfold MeteredBlocks.chunk
        refine ⟨_, rfl, ?_⟩
        split <;> rfl
      have hbytes : (s.chunk i g byteLength rest).bytes = s.bytes + byteLength := rfl
      have hset := List.tally_set g' (·.rest.sum) hget
      rw [hrest', hrest, List.sum_cons] at hset
      unfold pending
      rw [hgets, hbytes]
      omega
  | @exhausted i g hget _ hrest =>
      have hset := List.tally_set
        { g with stage := if g.stage = .draining then .failed else .delivered } (·.rest.sum) hget
      refine ⟨congrArg (s.bytes + ·) ?_, Nat.le_refl _⟩
      exact Nat.add_right_cancel hset

end MeteredBlocks

namespace Transfer

def slot (t : Transfer) : Nat := if t.stage = .ended then 0 else 1

def claimed (t : Transfer) : Nat := if t.stage = .pulling then t.claimBytes else 0

/-- What holds of every transfer. Blocks that arrive after the reservation was
settled were being read then. -/
structure Sound (t : Transfer) : Prop where
  metered : t.blocks.Metered INTAKE_READ_CONCURRENCY t.limitBytes
  settled : ∀ bytes ∈ t.settledFor, t.stage = .ended ∧ bytes ≤ t.blocks.bytes ∧
    t.blocks.bytes + t.blocks.pending ≤ bytes + INTAKE_OVERSHOOT_BYTES

/-- The transfer and its reservation. -/
structure Matches {Peer : Type} (t : Transfer) (r : IntakeReservation Peer) : Prop where
  maxBytes : r.maxBytes = t.claimBytes
  settled : r.settled = t.settledFor.isSome
  amount : r.amount = t.settledFor.getD t.claimBytes

variable {t : Transfer}

theorem sound_opened (limitBytes : Nat) (reservation : Option Nat) (stage : TransferStage) :
    (opened limitBytes reservation stage).Sound where
  metered := MeteredBlocks.start_metered _ _
  settled bytes hbytes := by cases hbytes

theorem Sound.ended (h : t.Sound) : { t with stage := .ended }.Sound where
  metered := h.metered
  settled bytes hbytes := ⟨rfl, (h.settled bytes hbytes).2⟩

theorem Sound.read (h : t.Sound) {e : MeteredBlocks.Event} {blocks : MeteredBlocks}
    (hread : MeteredBlocks.Step t.blocks e blocks)
    (hdisciplined : MeteredBlocks.Disciplined INTAKE_READ_CONCURRENCY t.blocks e)
    (hopen : ∀ chunks, e = .get chunks → t.stage = .pulling) : { t with blocks }.Sound where
  metered := hread.metered hdisciplined h.metered
  settled bytes hbytes := by
    obtain ⟨hended, hle, hpending⟩ := h.settled bytes hbytes
    have hnone : ∀ chunks, e ≠ .get chunks := by
      intro chunks heq
      rw [hopen chunks heq] at hended
      cases hended
    obtain ⟨hsum, hmono⟩ := hread.conserved hnone
    exact ⟨hended, hle.trans hmono, hsum.trans_le hpending⟩

theorem Sound.settle (h : t.Sound) (hstage : t.stage = .ended) :
    { t with settledFor := some t.blocks.bytes }.Sound where
  metered := h.metered
  settled bytes hbytes := by
    cases hbytes
    exact ⟨hstage, Nat.le_refl _, Nat.add_le_add_left h.metered.pending_le _⟩

theorem Sound.overshoot (h : t.Sound) : t.blocks.bytes ≤ t.claimBytes := h.metered.overshoot

end Transfer

/-! ## All of them -/

namespace IntakeNode

variable {Peer : Type} [DecidableEq Peer] {limits : IntakeLimits}

/-- What holds after every step. -/
structure Balanced (limits : IntakeLimits) (s : IntakeNode Peer) : Prop where
  slots : s.incomingCopyLimiter.inFlight = s.transfers.tally Transfer.slot
  limit : s.incomingCopyLimiter.maxConcurrent = limits.maxConcurrentIncoming
  room : s.incomingCopyLimiter.inFlight ≤ limits.maxConcurrentIncoming
  claims : s.claimed = s.uploads + s.transfers.tally Transfer.claimed
  ledgers : s.budget.Ledgers
  sound : ∀ t ∈ s.transfers, t.Sound
  /-- Each reservation belongs to one transfer. -/
  indices : s.transfers.filterMap (·.reservation) = List.range s.budget.reservations.length
  matched : ∀ (i : Nat) (t : Transfer) (index : Nat), s.transfers[i]? = some t →
    t.reservation = some index → ∃ r, s.budget.reservations[index]? = some r ∧ t.Matches r

theorem balanced_start : Balanced limits (start limits : IntakeNode Peer) where
  slots := rfl
  limit := rfl
  room := Nat.zero_le _
  claims := rfl
  ledgers := Intake.ledgers_empty
  sound t hmem := absurd hmem List.not_mem_nil
  indices := rfl
  matched i t index h := by cases h

variable {s : IntakeNode Peer}

/-- A transfer of a budget that was charged for it, or of none. -/
theorem Balanced.pull (h : s.Balanced limits) {budget : Intake Peer} (hledgers : budget.Ledgers)
    (limitBytes : Nat) {reservation : Option Nat}
    (hindices : s.transfers.filterMap (·.reservation) ++ reservation.toList =
      List.range budget.reservations.length)
    (hold : ∀ (index : Nat) r, s.budget.reservations[index]? = some r →
      budget.reservations[index]? = some r)
    (hnew : ∀ (index : Nat) (stage : TransferStage), reservation = some index →
      ∃ r, budget.reservations[index]? = some r ∧
        (Transfer.opened limitBytes reservation stage).Matches r) :
    Balanced limits (pullUnderIntakeLimits { s with budget } limitBytes reservation) := by
  have hmatched : ∀ (stage : TransferStage) (i : Nat) (t : Transfer) (index : Nat),
      (s.transfers ++ [Transfer.opened limitBytes reservation stage])[i]? = some t →
        t.reservation = some index →
          ∃ r, budget.reservations[index]? = some r ∧ t.Matches r := by
    intro stage i t index hget hreserved
    by_cases hi : i < s.transfers.length
    · rw [List.getElem?_append_left hi] at hget
      obtain ⟨r, hr, hmatches⟩ := h.matched i t index hget hreserved
      exact ⟨r, hold index r hr, hmatches⟩
    · rw [List.getElem?_append_right (Nat.not_lt.mp hi)] at hget
      have hlast := List.mem_singleton.mp (List.mem_of_getElem? hget)
      rw [hlast] at hreserved ⊢
      exact hnew index stage hreserved
  have hindices' : ∀ stage, (s.transfers ++
      [Transfer.opened limitBytes reservation stage]).filterMap (·.reservation) =
        List.range budget.reservations.length := by
    intro stage
    rw [List.filterMap_append, ← hindices]
    cases reservation <;> rfl
  have hsound : ∀ stage, ∀ t ∈ s.transfers ++ [Transfer.opened limitBytes reservation stage],
      t.Sound := by
    intro stage t hmem
    rcases List.mem_append.mp hmem with hmem | hmem
    · exact h.sound t hmem
    · rw [List.mem_singleton.mp hmem]
      exact Transfer.sound_opened ..
  unfold pullUnderIntakeLimits ConcurrencyLimiter.tryAcquire
  dsimp only
  rw [h.limit]
  by_cases hfull : limits.maxConcurrentIncoming ≤ s.incomingCopyLimiter.inFlight
  · rw [if_pos hfull]
    refine ⟨?_, h.limit, h.room, ?_, hledgers, hsound _, hindices' _, hmatched _⟩
    · exact h.slots.trans (by rw [List.tally_append]; rfl)
    · exact h.claims.trans (by rw [List.tally_append]; rfl)
  · rw [if_neg hfull]
    refine ⟨?_, rfl, Nat.not_le.mp hfull, ?_, hledgers, hsound _, hindices' _, hmatched _⟩
    · exact (congrArg (· + 1) h.slots).trans (by rw [List.tally_append]; rfl)
    · exact h.claims.trans (by rw [List.tally_append]; rfl)

omit [DecidableEq Peer] in
theorem filterMap_set {i : Nat} {t : Transfer} (hget : s.transfers[i]? = some t)
    (t' : Transfer) (hreservation : t'.reservation = t.reservation) :
    (s.transfers.set i t').filterMap (·.reservation) =
      s.transfers.filterMap (·.reservation) := by
  generalize s.transfers = l at hget ⊢
  induction l generalizing i with
  | nil => cases hget
  | cons u l ih =>
      cases i with
      | zero =>
          cases hget
          rw [List.set_cons_zero, List.filterMap_cons, List.filterMap_cons, hreservation]
      | succ i => rw [List.set_cons_succ, List.filterMap_cons, List.filterMap_cons, ih hget]

omit [DecidableEq Peer] in
/-- A transfer of the list in which one was replaced. -/
theorem getElem?_set_cases {i j : Nat} {t' u : Transfer}
    (hj : (s.transfers.set i t')[j]? = some u) :
    (j = i ∧ u = t') ∨ (j ≠ i ∧ s.transfers[j]? = some u) := by
  rw [List.getElem?_set] at hj
  by_cases heq : i = j
  · rw [if_pos heq] at hj
    split at hj
    · exact .inl ⟨heq.symm, (Option.some.inj hj).symm⟩
    · cases hj
  · rw [if_neg heq] at hj
    exact .inr ⟨Ne.symm heq, hj⟩

/-- What the transfers hold when one of them changes. -/
theorem Balanced.replace (h : s.Balanced limits) {i : Nat} {t : Transfer}
    (hget : s.transfers[i]? = some t) (t' : Transfer)
    (hreservation : t'.reservation = t.reservation) (hclaim : t'.claimBytes = t.claimBytes)
    (hsettled : t'.settledFor = t.settledFor)
    (hsound : t'.Sound) {limiter : ConcurrencyLimiter} {claimed : Nat}
    (hlimit : limiter.maxConcurrent = s.incomingCopyLimiter.maxConcurrent)
    (hroom : limiter.inFlight ≤ s.incomingCopyLimiter.inFlight)
    (hslots : limiter.inFlight + t.slot = s.incomingCopyLimiter.inFlight + t'.slot)
    (hclaims : claimed + t.claimed = s.claimed + t'.claimed) :
    Balanced limits { s with
      incomingCopyLimiter := limiter, claimed, transfers := s.transfers.set i t' } := by
  have htally := List.tally_set t' Transfer.slot hget
  have hclaimed := List.tally_set t' Transfer.claimed hget
  have hbound := h.slots
  have hheld := h.claims
  refine ⟨?_, hlimit.trans h.limit, hroom.trans h.room, ?_, h.ledgers, fun u hmem => ?_, ?_, ?_⟩
  · show limiter.inFlight = (s.transfers.set i t').tally Transfer.slot
    omega
  · show claimed = s.uploads + (s.transfers.set i t').tally Transfer.claimed
    omega
  · rcases List.mem_or_eq_of_mem_set hmem with hmem | rfl
    · exact h.sound u hmem
    · exact hsound
  · exact (filterMap_set hget t' hreservation).trans h.indices
  · intro j u index hj hreserved
    rcases getElem?_set_cases hj with ⟨rfl, rfl⟩ | ⟨-, hj⟩
    · obtain ⟨r, hr, hmatches⟩ := h.matched j t index hget (hreservation ▸ hreserved)
      exact ⟨r, hr, hclaim ▸ hmatches.maxBytes, hsettled ▸ hmatches.settled,
        by rw [hsettled, hclaim]; exact hmatches.amount⟩
    · exact h.matched j u index hj hreserved

theorem Balanced.finish (h : s.Balanced limits) {i : Nat} {t : Transfer}
    (hget : s.transfers[i]? = some t) (hstage : t.stage ≠ .ended) :
    Balanced limits (s.finish i t) := by
  have hslot : t.slot = 1 := if_neg hstage
  have hmem := List.mem_of_getElem? hget
  have hheld := List.le_tally Transfer.slot hmem
  have hclaim := List.le_tally Transfer.claimed hmem
  have hbound := h.slots
  have hclaims := h.claims
  have hrelease : s.incomingCopyLimiter.release =
      { s.incomingCopyLimiter with inFlight := s.incomingCopyLimiter.inFlight - 1 } :=
    if_pos (by omega)
  unfold IntakeNode.finish
  refine h.replace hget { t with stage := .ended } rfl rfl rfl (h.sound t hmem).ended ?_ ?_ ?_ ?_
  · rw [hrelease]
  · rw [hrelease]
    exact Nat.sub_le _ _
  · rw [hrelease, hslot]
    show s.incomingCopyLimiter.inFlight - 1 + 1 = s.incomingCopyLimiter.inFlight + 0
    omega
  · by_cases hpulling : t.stage = .pulling
    · have hclaimed : t.claimed = t.claimBytes := if_pos hpulling
      rw [if_pos hpulling, hclaimed]
      show s.claimed - t.claimBytes + t.claimBytes = s.claimed + 0
      omega
    · have hclaimed : t.claimed = 0 := if_neg hpulling
      rw [if_neg hpulling, hclaimed]
      rfl

theorem Balanced.onMeasured (h : s.Balanced limits) {i : Nat} {t : Transfer}
    (hget : s.transfers[i]? = some t) (hstage : t.stage = .measuring) (available : Option Nat) :
    Balanced limits (s.onMeasured limits i t available) := by
  have hopen : t.stage ≠ .ended := by rw [hstage]; exact fun heq => by cases heq
  cases available with
  | none => exact h.finish hget hopen
  | some available =>
      unfold IntakeNode.onMeasured
      cases hclaim : claimSpace s.claimed ⟨t.claimBytes, available, limits.diskReserveBytes⟩ with
      | none =>
          simp only [hclaim]
          exact h.finish hget hopen
      | some claimed =>
          simp only [hclaim]
          have hclaimed := (Space.claimSpace_eq_some hclaim).1
          have hmem := List.mem_of_getElem? hget
          have hbefore : t.claimed = 0 := if_neg (by rw [hstage]; exact fun heq => by cases heq)
          have hslot : t.slot = 1 := if_neg hopen
          refine h.replace hget { t with stage := .pulling } rfl rfl rfl
            ⟨(h.sound t hmem).metered, ?_⟩ rfl (Nat.le_refl _) ?_ ?_
          · intro bytes hbytes
            exact absurd ((h.sound t hmem).settled bytes hbytes).1 hopen
          · rw [hslot]
            exact Nat.add_right_cancel_iff.mpr rfl
          · rw [hbefore, hclaimed, Nat.add_zero]
            exact congrArg (s.claimed + ·) (if_pos rfl).symm

/-- No two transfers have one reservation. -/
theorem Balanced.index_ne (h : s.Balanced limits) {i j a b : Nat} {t u : Transfer}
    (hi : s.transfers[i]? = some t) (hj : s.transfers[j]? = some u) (hne : i ≠ j)
    (ha : t.reservation = some a) (hb : u.reservation = some b) : a ≠ b := by
  have hnodup : (s.transfers.filterMap (·.reservation)).Nodup := h.indices ▸ List.nodup_range
  have hpairwise := List.pairwise_filterMap.mp hnodup
  obtain ⟨hi', rfl⟩ := List.getElem?_eq_some_iff.mp hi
  obtain ⟨hj', rfl⟩ := List.getElem?_eq_some_iff.mp hj
  rcases Nat.lt_or_gt_of_ne hne with hlt | hlt
  · exact List.pairwise_iff_getElem.mp hpairwise i j hi' hj' hlt a ha b hb
  · exact (List.pairwise_iff_getElem.mp hpairwise j i hj' hi' hlt b hb a ha).symm

theorem Balanced.cache (h : s.Balanced limits) {peerId : Peer} {now : Nat}
    (hnow : s.budget.clock ≤ now) : Balanced limits (s.cacheFileLocally limits peerId now) := by
  have hreserve : Intake.Step s.budget ()
      (s.budget.reserveIntake peerId (allowance limits + INTAKE_OVERSHOOT_BYTES) now) :=
    .reserve hnow
  have hledgers := Intake.ledgers_step h.ledgers hreserve
  unfold cacheFileLocally
  cases hexceeds : Intake.exceeds ((Intake.spendOf s.budget.perPeer peerId).totals now)
      (s.budget.total.totals now) (allowance limits + INTAKE_OVERSHOOT_BYTES) with
  | true =>
      rw [Intake.reserveIntake_refused hexceeds] at hledgers ⊢
      dsimp only
      rw [if_pos rfl]
      exact { h with ledgers := hledgers }
  | false =>
      rw [Intake.reserveIntake_granted hexceeds] at hledgers ⊢
      have hlength : (s.budget.reservations ++ [(⟨peerId, allowance limits +
          INTAKE_OVERSHOOT_BYTES, false, (s.budget.chargedPeer peerId (allowance limits +
          INTAKE_OVERSHOOT_BYTES) now).2, (s.budget.chargedTotal (allowance limits +
          INTAKE_OVERSHOOT_BYTES) now).2, now, allowance limits + INTAKE_OVERSHOOT_BYTES⟩ :
          IntakeReservation Peer)]).length = s.budget.reservations.length + 1 :=
        List.length_append
      dsimp only
      rw [if_neg (by rw [hlength]; exact Nat.succ_ne_self _)]
      refine h.pull hledgers _ ?_ (fun index r hr => ?_) fun index stage hindex => ?_
      · rw [hlength, List.range_succ, h.indices]
        rfl
      · exact (List.getElem?_append_left (List.getElem?_eq_some_iff.mp hr).1).trans hr
      · cases hindex
        exact ⟨_, List.getElem?_concat_length, rfl, rfl, rfl⟩

theorem Balanced.settle (h : s.Balanced limits) {i index : Nat} {t : Transfer}
    (hget : s.transfers[i]? = some t) (hstage : t.stage = .ended)
    (hreserved : t.reservation = some index) (hsettled : t.settledFor = none) :
    Balanced limits (s.settle i t index) := by
  obtain ⟨r, hr, hmatches⟩ := h.matched i t index hget hreserved
  have hmem := List.mem_of_getElem? hget
  have hunsettled : r.settled = false := by rw [hmatches.settled, hsettled]; rfl
  have hbytes : t.blocks.bytes ≤ r.maxBytes := hmatches.maxBytes ▸ (h.sound t hmem).overshoot
  have hledgers := Intake.ledgers_settle h.ledgers hr hbytes
  have hslots := List.tally_set { t with settledFor := some t.blocks.bytes } Transfer.slot hget
  have hclaims := List.tally_set { t with settledFor := some t.blocks.bytes } Transfer.claimed hget
  unfold IntakeNode.settle
  rw [Intake.settle_unsettled hr hunsettled] at hledgers ⊢
  refine ⟨h.slots.trans ?_, h.limit, h.room, h.claims.trans ?_, hledgers, fun u hu => ?_,
    (filterMap_set hget { t with settledFor := some t.blocks.bytes } rfl).trans ?_,
    fun j u index' hj hreserved' => ?_⟩
  · exact (Nat.add_right_cancel hslots).symm
  · exact congrArg (s.uploads + ·) (Nat.add_right_cancel hclaims).symm
  · rcases List.mem_or_eq_of_mem_set hu with hu | rfl
    · exact h.sound u hu
    · exact (h.sound t hmem).settle hstage
  · exact h.indices.trans (congrArg List.range List.length_set.symm)
  · rcases getElem?_set_cases hj with ⟨rfl, rfl⟩ | ⟨hne, hj⟩
    · cases hreserved.symm.trans hreserved'
      refine ⟨{ r with settled := true, amount := t.blocks.bytes },
        List.getElem?_set_self (List.getElem?_eq_some_iff.mp hr).1, ?_⟩
      exact ⟨hmatches.maxBytes, rfl, rfl⟩
    · obtain ⟨r', hr', hmatches'⟩ := h.matched j u index' hj hreserved'
      refine ⟨r', ?_, hmatches'⟩
      exact (List.getElem?_set_ne (h.index_ne hget hj (Ne.symm hne) hreserved hreserved')).trans hr'

theorem balanced_step {a : Event Peer} {s' : IntakeNode Peer} (h : s.Balanced limits)
    (hok : s.Orderly a) (hstep : Step limits s a s') : s'.Balanced limits := by
  cases hstep with
  | cache hnow => exact h.cache hnow
  | replica =>
      refine h.pull h.ledgers _ ((List.append_nil _).trans h.indices) (fun _ _ hr => hr) ?_
      exact fun index stage hindex => by cases hindex
  | measured hget hstage => exact h.onMeasured hget hstage _
  | @read i t e blocks hget hread =>
      obtain ⟨hdisciplined, hopen⟩ := hok t hget
      exact h.replace hget { t with blocks } rfl rfl rfl
        ((h.sound t (List.mem_of_getElem? hget)).read hread hdisciplined hopen) rfl (Nat.le_refl _)
        rfl rfl
  | finished hget hstage =>
      exact h.finish hget (by rw [hstage]; exact fun heq => by cases heq)
  | settled hget hstage hreserved hsettled => exact h.settle hget hstage hreserved hsettled
  | @uploadClaims bytes =>
      refine { h with claims := ?_ }
      have hclaims := h.claims
      show s.claimed + bytes = s.uploads + bytes + s.transfers.tally Transfer.claimed
      omega
  | @uploadReleases bytes hle =>
      refine { h with claims := ?_ }
      have hclaims := h.claims
      show s.claimed - bytes = s.uploads - bytes + s.transfers.tally Transfer.claimed
      omega

theorem run_balanced (hrun : Run (Step limits) Orderly (start limits) s) : s.Balanced limits :=
  hrun.invariant balanced_start fun _ _ _ h hok hstep => balanced_step h hok hstep

/-! ## What a window costs -/

/-- What a transfer was charged as. -/
def reservationOf (s : IntakeNode Peer) (t : Transfer) : Option (IntakeReservation Peer) :=
  t.reservation.bind (s.budget.reservations[·]?)

/-- Some peers asked for it, in the window that ends at `x`. -/
def askedIn (asked : Peer → Bool) (x : Nat) (r : IntakeReservation Peer) : Bool :=
  asked r.peerId && (Intake.peerCharge r).inWindow x

/-- The copies that some peers were granted in the window that ends at `x`. -/
def copiesFor (s : IntakeNode Peer) (asked : Peer → Bool) (x : Nat) : List Transfer :=
  s.transfers.filter fun t => (s.reservationOf t).any (askedIn asked x)

/-- Blocks arrived after it was settled. -/
def ranOver (t : Transfer) : Bool := t.settledFor.any (· < t.blocks.bytes)

/-- What copies were charged, counted by copy or by reservation. -/
theorem Balanced.tally_copiesFor (h : s.Balanced limits) (asked : Peer → Bool) (x : Nat)
    (f : IntakeReservation Peer → Nat) :
    (s.copiesFor asked x).tally (fun t => ((s.reservationOf t).map f).getD 0) =
      s.budget.reservations.tally fun r => if askedIn asked x r then f r else 0 := by
  let g : IntakeReservation Peer → Nat := fun r => if askedIn asked x r then f r else 0
  calc (s.copiesFor asked x).tally (fun t => ((s.reservationOf t).map f).getD 0)
      = s.transfers.tally fun t => ((t.reservation).map fun i =>
          ((s.budget.reservations[i]?).map g).getD 0).getD 0 := by
        rw [copiesFor, List.tally_filter]
        refine List.tally_congr fun t _ => ?_
        unfold reservationOf
        cases t.reservation with
        | none => rfl
        | some i =>
            cases hr : s.budget.reservations[i]? with
            | none => simp [hr]
            | some r => simp [hr, g]
    _ = (s.transfers.filterMap (·.reservation)).tally fun i =>
          ((s.budget.reservations[i]?).map g).getD 0 := (List.tally_filterMap _ _ _).symm
    _ = s.budget.reservations.tally g := by rw [h.indices, List.tally_range]

/-- A copy costs what it is charged for, or arrives late. -/
theorem Balanced.bytes_le (h : s.Balanced limits) {t : Transfer} (hmem : t ∈ s.transfers)
    {r : IntakeReservation Peer} (hr : s.reservationOf t = some r) :
    t.blocks.bytes ≤ r.amount + INTAKE_OVERSHOOT_BYTES * (if ranOver t then 1 else 0) := by
  obtain ⟨i, hget⟩ := List.mem_iff_getElem?.mp hmem
  obtain ⟨index, hreserved, hindex⟩ := Option.bind_eq_some_iff.mp hr
  obtain ⟨r', hr', hmatches⟩ := h.matched i t index hget hreserved
  cases hr'.symm.trans hindex
  cases hsettled : t.settledFor with
  | none =>
      have hamount : r.amount = t.claimBytes := by rw [hmatches.amount, hsettled]; rfl
      rw [hamount]
      exact Nat.le_add_right_of_le (h.sound t hmem).overshoot
  | some bytes =>
      have hamount : r.amount = bytes := by rw [hmatches.amount, hsettled]; rfl
      have hpending := ((h.sound t hmem).settled bytes hsettled).2.2
      have hran : ranOver t = decide (bytes < t.blocks.bytes) := by rw [ranOver, hsettled]; rfl
      rw [hamount, hran]
      by_cases hlate : bytes < t.blocks.bytes
      · rw [if_pos (decide_eq_true hlate)]
        omega
      · exact Nat.le_add_right_of_le (Nat.not_lt.mp hlate)

/-- What copies brought in, when their reservations add up to so much. -/
theorem Balanced.copies_le (h : s.Balanced limits) (asked : Peer → Bool) (x : Nat) {limit : Nat}
    (hlimit : (s.budget.reservations.tally fun r =>
      if askedIn asked x r then r.amount else 0) ≤ limit) :
    (s.copiesFor asked x).tally (·.blocks.bytes) ≤
      limit + INTAKE_OVERSHOOT_BYTES * ((s.copiesFor asked x).filter ranOver).length := by
  rw [← List.tally_one_filter, ← List.tally_mul]
  refine le_trans ?_ (Nat.add_le_add_right ((h.tally_copiesFor asked x (·.amount)).trans_le
    hlimit) _)
  rw [← List.tally_add]
  refine List.tally_le fun t hmem => ?_
  obtain ⟨hmem, hasked⟩ := List.mem_filter.mp hmem
  obtain ⟨r, hr, -⟩ := Option.any_eq_true _ _ |>.mp hasked
  rw [hr]
  exact h.bytes_le hmem hr

/-- Every copy was charged as one request. -/
theorem Balanced.length_copiesFor (h : s.Balanced limits) (asked : Peer → Bool) (x : Nat) :
    (s.copiesFor asked x).length =
      s.budget.reservations.tally fun r => if askedIn asked x r then 1 else 0 := by
  rw [← h.tally_copiesFor asked x fun _ => 1]
  have hlength : (s.copiesFor asked x).length = (s.copiesFor asked x).tally fun _ => 1 := by
    simp [List.tally]
  refine hlength.trans (List.tally_congr fun t hmem => ?_)
  obtain ⟨r, hr, -⟩ := Option.any_eq_true _ _ |>.mp (List.mem_filter.mp hmem).2
  rw [hr]
  rfl

/-- The window of one peer's ledger, read off the reservations. -/
theorem spentBy_peerCharges (budget : Intake Peer) (p : Peer) (x : Nat) (f : Charge → Nat) :
    spentBy f (·.inWindow x) (budget.peerCharges p) = budget.reservations.tally fun r =>
      if askedIn (fun q => decide (q = p)) x r then f (Intake.peerCharge r) else 0 := by
  unfold spentBy Intake.peerCharges
  rw [List.tally_map, List.tally_filter]
  refine List.tally_congr fun r _ => ?_
  unfold askedIn
  by_cases hpeer : r.peerId = p <;> simp [hpeer]

omit [DecidableEq Peer] in
/-- The window of the ledger of all peers. -/
theorem spentBy_totalCharges (budget : Intake Peer) (x : Nat) (f : Charge → Nat)
    (hf : ∀ r : IntakeReservation Peer, f (Intake.totalCharge r) = f (Intake.peerCharge r)) :
    spentBy f (·.inWindow x) budget.totalCharges = budget.reservations.tally fun r =>
      if askedIn (fun _ => true) x r then f (Intake.peerCharge r) else 0 := by
  unfold spentBy Intake.totalCharges
  rw [List.tally_map]
  refine List.tally_congr fun r _ => ?_
  rw [hf]
  unfold askedIn
  rw [Bool.true_and]
  rfl

/-- Copies in one window, and what they may cost. -/
def WindowBound (s : IntakeNode Peer) (asked : Peer → Bool) (x bytes requests : Nat) : Prop :=
  (s.copiesFor asked x).length ≤ requests ∧
    (s.copiesFor asked x).tally (·.blocks.bytes) ≤
      bytes + INTAKE_OVERSHOOT_BYTES * ((s.copiesFor asked x).filter ranOver).length

/-- Fetching for peers is bounded at every moment and in every window, and takes
nothing for good. -/
theorem intake_bounded (hrun : Run (Step limits) Orderly (start limits) s) :
    s.incomingCopyLimiter.inFlight ≤ limits.maxConcurrentIncoming ∧
    s.incomingCopyLimiter.inFlight = s.transfers.tally Transfer.slot ∧
    s.claimed = s.uploads + s.transfers.tally Transfer.claimed ∧
    (∀ t ∈ s.transfers, t.blocks.bytes ≤ t.limitBytes + INTAKE_OVERSHOOT_BYTES) ∧
    (∀ p x, s.WindowBound (fun q => decide (q = p)) x PER_PEER_INTAKE_BYTES
      PER_PEER_INTAKE_REQUESTS) ∧
    (∀ x, s.WindowBound (fun _ => true) x TOTAL_INTAKE_BYTES TOTAL_INTAKE_REQUESTS) ∧
    ((∀ t ∈ s.transfers, t.stage = .ended) →
      s.incomingCopyLimiter.inFlight = 0 ∧ s.claimed = s.uploads) := by
  have h := run_balanced hrun
  refine ⟨h.room, h.slots, h.claims, fun t hmem => (h.sound t hmem).overshoot, fun p x => ?_,
    fun x => ?_, fun hended => ?_⟩
  · obtain ⟨hbytes, hrequests⟩ := h.ledgers.perPeer p x
    rw [spentBy_peerCharges] at hbytes hrequests
    exact ⟨(h.length_copiesFor _ x).trans_le hrequests, h.copies_le _ x hbytes⟩
  · obtain ⟨hbytes, hrequests⟩ := h.ledgers.all x
    rw [spentBy_totalCharges s.budget x _ fun _ => rfl] at hbytes hrequests
    exact ⟨(h.length_copiesFor _ x).trans_le hrequests, h.copies_le _ x hbytes⟩
  · have hslots : s.transfers.tally Transfer.slot = 0 :=
      List.tally_eq_zero fun t hmem => if_pos (hended t hmem)
    have hclaims : s.transfers.tally Transfer.claimed = 0 :=
      List.tally_eq_zero fun t hmem => if_neg (by rw [hended t hmem]; exact fun heq => by cases heq)
    exact ⟨h.slots.trans hslots, by rw [h.claims, hclaims, Nat.add_zero]⟩

/-! ## A copy that runs over -/

def smallLimits : IntakeLimits := ⟨100, 0, 2⟩

/-- The one copy of a node, at a stage, with what its block brought in. -/
def lateCopy (stage : TransferStage) (gets : List MeteredGet) (bytes : Nat)
    (settledFor : Option Nat) : Transfer :=
  ⟨100, some 0, stage, ⟨100, bytes, gets⟩, settledFor⟩

/-- The copy is granted to peer 1 and has its slot. -/
def granted : IntakeNode Nat := (start smallLimits).cacheFileLocally smallLimits 1 0

def pulling : IntakeNode Nat :=
  granted.onMeasured smallLimits 0 (lateCopy .measuring [] 0 none) (some (10 ^ 9))

def withCopy (s : IntakeNode Nat) (t : Transfer) : IntakeNode Nat :=
  { s with transfers := s.transfers.set 0 t }

/-- Half of a block has arrived. -/
def halfRead : IntakeNode Nat :=
  (pulling.withCopy (lateCopy .pulling [.opened [30, 40]] 0 none)).withCopy
    (lateCopy .pulling [⟨70, [40], 30, 30, .reading⟩] 30 none)

def settledEarly : IntakeNode Nat :=
  (halfRead.finish 0 (lateCopy .pulling [⟨70, [40], 30, 30, .reading⟩] 30 none)).settle 0
    (lateCopy .ended [⟨70, [40], 30, 30, .reading⟩] 30 none) 0

/-- The other half arrives after the copy was settled. -/
def ranLate : IntakeNode Nat :=
  settledEarly.withCopy (lateCopy .ended [⟨70, [], 70, 70, .reading⟩] 70 (some 30))

/-- Only opening a block is restricted. -/
theorem orderly_chunk (s : IntakeNode Nat) : s.Orderly (.read 0 (.chunk 0)) :=
  fun _ _ => ⟨trivial, fun _ heq => by cases heq⟩

theorem run_halfRead : Run (Step smallLimits) Orderly (start smallLimits) halfRead := by
  have hcache : Step smallLimits (start smallLimits) (.cache 1 0) granted := .cache (Nat.le_refl 0)
  have hmeasured : Step smallLimits granted (.measured 0 (some (10 ^ 9))) pulling :=
    .measured (by decide +kernel) rfl
  have hopen : Step smallLimits pulling (.read 0 (.get [30, 40]))
      (pulling.withCopy (lateCopy .pulling [.opened [30, 40]] 0 none)) :=
    .read (t := lateCopy .pulling [] 0 none) (by decide +kernel) .get
  have hhalf : Step smallLimits (pulling.withCopy (lateCopy .pulling [.opened [30, 40]] 0 none))
      (.read 0 (.chunk 0)) halfRead :=
    .read (t := lateCopy .pulling [.opened [30, 40]] 0 none) (by decide +kernel)
      (@MeteredBlocks.Step.chunk _ 0 (.opened [30, 40]) 30 [40] rfl rfl rfl)
  have horderly : pulling.Orderly (.read 0 (.get [30, 40])) := by
    intro t hget
    have hone : pulling.transfers[0]? = some (lateCopy .pulling [] 0 none) := by decide +kernel
    rw [hone] at hget
    cases hget
    exact ⟨⟨by decide, by decide, by decide⟩, fun _ _ => rfl⟩
  have hmeasuring : Run (Step smallLimits) Orderly (start smallLimits) granted :=
    .next (a := .cache 1 0) .start trivial hcache
  have hpulling : Run (Step smallLimits) Orderly (start smallLimits) pulling :=
    .next (a := .measured 0 (some (10 ^ 9))) hmeasuring trivial hmeasured
  exact (hpulling.next horderly hopen).next
    (orderly_chunk (pulling.withCopy (lateCopy .pulling [.opened [30, 40]] 0 none))) hhalf

theorem intake_bounded_late :
    (ranLate.copiesFor (fun q => decide (q = 1)) 0).tally (·.blocks.bytes) = 70 ∧
      ranLate.WindowBound (fun q => decide (q = 1)) 0 PER_PEER_INTAKE_BYTES
        PER_PEER_INTAKE_REQUESTS ∧ ranLate.incomingCopyLimiter.inFlight = 0 := by
  have hfinish : Step smallLimits halfRead (.finished 0)
      (halfRead.finish 0 (lateCopy .pulling [⟨70, [40], 30, 30, .reading⟩] 30 none)) :=
    .finished (by decide +kernel) rfl
  have hsettle : Step smallLimits
      (halfRead.finish 0 (lateCopy .pulling [⟨70, [40], 30, 30, .reading⟩] 30 none)) (.settled 0)
      settledEarly := .settled (by decide +kernel) rfl rfl rfl
  have hlate : Step smallLimits settledEarly (.read 0 (.chunk 0)) ranLate :=
    .read (t := lateCopy .ended [⟨70, [40], 30, 30, .reading⟩] 30 (some 30)) (by decide +kernel)
      (@MeteredBlocks.Step.chunk _ 0 ⟨70, [40], 30, 30, .reading⟩ 40 [] rfl rfl rfl)
  have hended : Run (Step smallLimits) Orderly (start smallLimits) (halfRead.finish 0
      (lateCopy .pulling [⟨70, [40], 30, 30, .reading⟩] 30 none)) :=
    .next (a := .finished 0) run_halfRead trivial hfinish
  have hsettled : Run (Step smallLimits) Orderly (start smallLimits) settledEarly :=
    .next (a := .settled 0) hended trivial hsettle
  have hrun := hsettled.next (orderly_chunk settledEarly) hlate
  obtain ⟨-, -, -, -, hpeer, -, hidle⟩ := intake_bounded hrun
  exact ⟨by decide +kernel, hpeer 1 0, (hidle (by decide +kernel)).1⟩

end IntakeNode

end IpfsNode
