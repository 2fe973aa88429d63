import IpfsNode.Tally
import IpfsNode.Transition
import Mathlib.Data.Int.Basic
import Mathlib.Data.List.Nodup

/-!
# The intake budget

What peers may have this node fetch for them: for each peer and for all of them
together, bytes and requests in a rolling window. A request is charged before it
is served, in the bucket its time falls in, and corrected once it has settled;
a bucket is dropped when all of it has left the window. `rolling_limit` says
that the buckets count every charge for a window at least, and for a window and
a bucket at most, and that the limits hold in every window.
-/

namespace IpfsNode

open TransitionSystem

/-! ## The code -/

def INTAKE_WINDOW_MS : Nat := 60 * 60 * 1000

def INTAKE_BUCKETS : Nat := 6

def BUCKET_MS : Nat := INTAKE_WINDOW_MS / INTAKE_BUCKETS

def PER_PEER_INTAKE_BYTES : Nat := 4 * 1024 ^ 3

def PER_PEER_INTAKE_REQUESTS : Nat := 500

def TOTAL_INTAKE_BYTES : Nat := 16 * 1024 ^ 3

def TOTAL_INTAKE_REQUESTS : Nat := 5000

/-- A bucket; reservations keep a reference to it. -/
structure Bucket where
  id : Nat
  startedAt : Nat
  bytes : Nat
  requests : Nat
deriving DecidableEq, Repr

/-- What one spender used over the buckets still inside the window. -/
structure Spend where
  buckets : List Bucket
deriving DecidableEq, Repr

structure Totals where
  bytes : Nat
  requests : Nat
deriving DecidableEq, Repr

namespace Spend

def new : Spend := ⟨[]⟩

/-- A bucket is kept until its end has left the window. -/
def live (spend : Spend) (now : Nat) : Spend :=
  let oldest : Int := now - INTAKE_WINDOW_MS
  ⟨spend.buckets.filter fun bucket => oldest < bucket.startedAt + BUCKET_MS⟩

def totals (spend : Spend) (now : Nat) : Totals where
  bytes := (spend.live now).buckets.tally (·.bytes)
  requests := (spend.live now).buckets.tally (·.requests)

/-- Charge the bucket `now` falls in; a new one gets the identity `id`. The
bucket charged is handed out, so that part of it can be given back. -/
def charge (spend : Spend) (now bytes requests id : Nat) : Spend × Nat :=
  let startedAt := now / BUCKET_MS * BUCKET_MS
  let live := (spend.live now).buckets
  match live.find? (·.startedAt = startedAt) with
  | some bucket =>
      (⟨live.map fun item =>
          if item.id = bucket.id then
            { item with bytes := item.bytes + bytes, requests := item.requests + requests }
          else item⟩,
        bucket.id)
  | none => (⟨live ++ [⟨id, startedAt, bytes, requests⟩]⟩, id)

/-- Correct a bucket; one that aged out is not there any more. -/
def correct (spend : Spend) (id : Nat) (difference : Int) : Spend :=
  ⟨spend.buckets.map fun bucket =>
    if bucket.id = id then { bucket with bytes := (max 0 (bucket.bytes + difference)).toNat }
    else bucket⟩

def spent (spend : Spend) (now : Nat) : Bool := !(spend.live now).buckets.isEmpty

end Spend

/-- A granted reservation, with the time of its grant and what it counts for: the
bytes reserved, or those settled. -/
structure IntakeReservation (Peer : Type) where
  peerId : Peer
  maxBytes : Nat
  settled : Bool
  peerBucket : Nat
  totalBucket : Nat
  grantedAt : Nat
  amount : Nat
deriving DecidableEq, Repr

/-- The ledgers, and the reservations granted so far. -/
structure Intake (Peer : Type) where
  perPeer : List (Peer × Spend)
  total : Spend
  reservations : List (IntakeReservation Peer)
  /-- The identity of the next bucket. -/
  nextBucket : Nat
  /-- The time of the last request. -/
  clock : Nat
deriving DecidableEq, Repr

namespace Intake

variable {Peer : Type}

def empty : Intake Peer where
  perPeer := []
  total := .new
  reservations := []
  nextBucket := 0
  clock := 0

variable [DecidableEq Peer]

/-- The ledger of a peer, empty where it has none. -/
def spendOf (perPeer : List (Peer × Spend)) (peerId : Peer) : Spend :=
  ((perPeer.find? (·.1 = peerId)).map (·.2)).getD .new

/-- Change the ledger of a peer that has one. -/
def modifySpend (perPeer : List (Peer × Spend)) (peerId : Peer) (f : Spend → Spend) :
    List (Peer × Spend) :=
  perPeer.map fun item => if item.1 = peerId then (item.1, f item.2) else item

/-- `Map.set`: a key that is there keeps its place. -/
def setSpend (perPeer : List (Peer × Spend)) (peerId : Peer) (spend : Spend) :
    List (Peer × Spend) :=
  if perPeer.any (·.1 = peerId) then modifySpend perPeer peerId fun _ => spend
  else perPeer ++ [(peerId, spend)]

/-- Forget the peers that spent nothing in the window. -/
def pruneSpends (perPeer : List (Peer × Spend)) (now : Nat) : List (Peer × Spend) :=
  (perPeer.filter fun item => item.2.spent now).map fun item => (item.1, item.2.live now)

def exceeds (peerTotals allTotals : Totals) (maxBytes : Nat) : Bool :=
  PER_PEER_INTAKE_BYTES < peerTotals.bytes + maxBytes ||
    PER_PEER_INTAKE_REQUESTS ≤ peerTotals.requests ||
    TOTAL_INTAKE_BYTES < allTotals.bytes + maxBytes ||
    TOTAL_INTAKE_REQUESTS ≤ allTotals.requests

/-- Reserve the most a copy could cost, or refuse it. -/
def reserveIntake (s : Intake Peer) (peerId : Peer) (maxBytes now : Nat) : Intake Peer :=
  let peer := spendOf s.perPeer peerId
  let peerTotals := peer.totals now
  let allTotals := s.total.totals now
  if exceeds peerTotals allTotals maxBytes then
    -- reading a ledger has dropped what left its window
    { s with
      perPeer := modifySpend s.perPeer peerId (·.live now), total := s.total.live now
      clock := now }
  else
    let (peer, peerBucket) := peer.charge now maxBytes 1 s.nextBucket
    let (total, totalBucket) := s.total.charge now maxBytes 1 (s.nextBucket + 1)
    let perPeer := setSpend s.perPeer peerId peer
    { perPeer :=
        if TOTAL_INTAKE_REQUESTS < perPeer.length then pruneSpends perPeer now else perPeer
      total
      reservations := s.reservations ++
        [⟨peerId, maxBytes, false, peerBucket, totalBucket, now, maxBytes⟩]
      nextBucket := s.nextBucket + 2
      clock := now }

/-- Correct a reservation to what the transfer really cost, once. -/
def settle (s : Intake Peer) (i : Nat) (bytes : Nat) : Intake Peer :=
  match s.reservations[i]? with
  | none => s
  | some reservation =>
      if reservation.settled then s
      else
        let difference : Int := bytes - reservation.maxBytes
        { s with
          perPeer := modifySpend s.perPeer reservation.peerId
            (·.correct reservation.peerBucket difference)
          total := s.total.correct reservation.totalBucket difference
          reservations := s.reservations.set i
            { reservation with settled := true, amount := bytes } }

/-- Times do not decrease, and a transfer costs no more than was reserved. -/
inductive Step : Intake Peer → Unit → Intake Peer → Prop
  | reserve {s : Intake Peer} {peerId : Peer} {maxBytes now : Nat} (hnow : s.clock ≤ now) :
      Step s () (s.reserveIntake peerId maxBytes now)
  | settle {s : Intake Peer} {i bytes : Nat} {reservation : IntakeReservation Peer}
      (h : s.reservations[i]? = some reservation) (hbytes : bytes ≤ reservation.maxBytes) :
      Step s () (s.settle i bytes)

end Intake

/-! ## What a ledger counts -/

/-- A charge of a ledger. -/
structure Charge where
  bucket : Nat
  grantedAt : Nat
  amount : Nat

/-- The start of the bucket of a time. -/
def slot (t : Nat) : Nat := t / BUCKET_MS * BUCKET_MS

theorem slot_le (t : Nat) : slot t ≤ t := Nat.div_mul_le_self t BUCKET_MS

theorem lt_slot (t : Nat) : t < slot t + BUCKET_MS := Nat.lt_div_mul_add (by decide)

/-- The charge is in a bucket that the ledger still counts. -/
def Charge.counted (now : Nat) (charge : Charge) : Bool :=
  decide (now < slot charge.grantedAt + BUCKET_MS + INTAKE_WINDOW_MS)

theorem Charge.counted_iff {now : Nat} {charge : Charge} :
    charge.counted now = true ↔ now < slot charge.grantedAt + BUCKET_MS + INTAKE_WINDOW_MS :=
  decide_eq_true_iff

/-- A charge is counted for a window. -/
theorem Charge.counted_of_window {now : Nat} {charge : Charge}
    (h : now ≤ charge.grantedAt + INTAKE_WINDOW_MS) : charge.counted now = true := by
  have hslot := lt_slot charge.grantedAt
  rw [counted_iff]
  omega

/-- It is not counted for more than a window and a bucket. -/
theorem Charge.window_of_counted {now : Nat} {charge : Charge} (h : charge.counted now = true) :
    now < charge.grantedAt + INTAKE_WINDOW_MS + BUCKET_MS := by
  have hslot := slot_le charge.grantedAt
  rw [counted_iff] at h
  omega

/-- The charge was made in the window that ends at `x`. -/
def Charge.inWindow (x : Nat) (charge : Charge) : Bool :=
  decide (charge.grantedAt ≤ x ∧ x ≤ charge.grantedAt + INTAKE_WINDOW_MS)

/-- What the charges that meet a condition add up to. -/
def spentBy (f : Charge → Nat) (p : Charge → Bool) (charges : List Charge) : Nat :=
  charges.tally fun charge => if p charge then f charge else 0

namespace Spend

theorem mem_live {spend : Spend} {now : Nat} {bucket : Bucket} :
    bucket ∈ (spend.live now).buckets ↔
      bucket ∈ spend.buckets ∧ now < bucket.startedAt + BUCKET_MS + INTAKE_WINDOW_MS := by
  simp only [live, List.mem_filter, decide_eq_true_eq, and_congr_right_iff]
  omega

/-- The buckets of a ledger are what was charged, and every charge that is not
in one has left the window. -/
structure Accounts (spend : Spend) (clock next : Nat) (charges : List Charge) : Prop where
  fresh : ∀ bucket ∈ spend.buckets, bucket.id < next
  nodup : (spend.buckets.map (·.id)).Nodup
  bytes : ∀ bucket ∈ spend.buckets,
    bucket.bytes = spentBy (·.amount) (·.bucket = bucket.id) charges
  requests : ∀ bucket ∈ spend.buckets,
    bucket.requests = spentBy (fun _ => 1) (·.bucket = bucket.id) charges
  used : ∀ bucket ∈ spend.buckets, 0 < bucket.requests
  slots : ∀ bucket ∈ spend.buckets, ∀ charge ∈ charges,
    charge.bucket = bucket.id → bucket.startedAt = slot charge.grantedAt
  kept : ∀ charge ∈ charges, charge.counted clock = true →
    ∃ bucket ∈ spend.buckets, bucket.id = charge.bucket
  issued : ∀ charge ∈ charges, charge.bucket < next
  past : ∀ charge ∈ charges, charge.grantedAt ≤ clock

variable {spend : Spend} {clock next now : Nat} {charges : List Charge}

theorem accounts_new : Accounts .new clock next [] where
  fresh := nofun
  nodup := .nil
  bytes := nofun
  requests := nofun
  used := nofun
  slots := nofun
  kept := nofun
  issued := nofun
  past := nofun

theorem counted_mono {charge : Charge} (hnow : clock ≤ now) (h : charge.counted now = true) :
    charge.counted clock = true := by
  rw [Charge.counted_iff] at h ⊢
  omega

theorem Accounts.live (h : spend.Accounts clock next charges) (hnow : clock ≤ now) :
    (spend.live now).Accounts now next charges where
  fresh bucket hmem := h.fresh bucket (mem_live.mp hmem).1
  nodup := h.nodup.sublist (List.filter_sublist.map _)
  bytes bucket hmem := h.bytes bucket (mem_live.mp hmem).1
  requests bucket hmem := h.requests bucket (mem_live.mp hmem).1
  used bucket hmem := h.used bucket (mem_live.mp hmem).1
  slots bucket hmem := h.slots bucket (mem_live.mp hmem).1
  kept := by
    intro charge hmem hcounted
    obtain ⟨bucket, hbucket, hid⟩ := h.kept charge hmem (counted_mono hnow hcounted)
    refine ⟨bucket, mem_live.mpr ⟨hbucket, ?_⟩, hid⟩
    rw [h.slots bucket hbucket charge hmem hid.symm]
    exact Charge.counted_iff.mp hcounted
  issued := h.issued
  past charge hmem := (h.past charge hmem).trans hnow

/-- A charge is counted exactly while its bucket is live. -/
theorem Accounts.counted_iff_live (h : spend.Accounts clock next charges) (hnow : clock ≤ now)
    {charge : Charge} (hmem : charge ∈ charges) : charge.counted now = true ↔
      charge.bucket ∈ (spend.live now).buckets.map (·.id) := by
  constructor
  · intro hcounted
    obtain ⟨bucket, hbucket, hid⟩ := (h.live hnow).kept charge hmem hcounted
    exact List.mem_map.mpr ⟨bucket, hbucket, hid⟩
  · intro hlive
    obtain ⟨bucket, hbucket, hid⟩ := List.mem_map.mp hlive
    rw [Charge.counted_iff, ← (h.live hnow).slots bucket hbucket charge hmem hid.symm]
    exact (mem_live.mp hbucket).2

theorem Accounts.tally_live (h : spend.Accounts clock next charges) (hnow : clock ≤ now)
    {g : Bucket → Nat} {f : Charge → Nat}
    (hg : ∀ bucket ∈ spend.buckets, g bucket = spentBy f (·.bucket = bucket.id) charges) :
    (spend.live now).buckets.tally g = spentBy f (·.counted now) charges := by
  have hlive := h.live hnow
  have hkeys := List.tally_keys f Charge.bucket _ charges hlive.nodup
  rw [List.tally_map] at hkeys
  have hbuckets : (spend.live now).buckets.tally g = (spend.live now).buckets.tally
      fun bucket => charges.tally fun charge => if charge.bucket = bucket.id then f charge else 0 := by
    refine List.tally_congr fun bucket hbucket => ?_
    rw [hg bucket (mem_live.mp hbucket).1, spentBy]
    exact List.tally_congr fun charge _ => by simp
  rw [hbuckets, hkeys]
  refine List.tally_congr fun charge hmem => ?_
  by_cases hcounted : charge.counted now = true
  · rw [if_pos ((h.counted_iff_live hnow hmem).mp hcounted), if_pos hcounted]
  · rw [if_neg fun hin => hcounted ((h.counted_iff_live hnow hmem).mpr hin), if_neg hcounted]

/-- The totals of a ledger are those of the charges it counts. -/
theorem Accounts.totals (h : spend.Accounts clock next charges) (hnow : clock ≤ now) :
    spend.totals now = ⟨spentBy (·.amount) (·.counted now) charges,
      spentBy (fun _ => 1) (·.counted now) charges⟩ :=
  Totals.mk.injEq .. ▸ ⟨h.tally_live hnow h.bytes, h.tally_live hnow h.requests⟩

/-! ### Charging -/

theorem spentBy_snoc {f : Charge → Nat} {p : Charge → Bool} {charge : Charge} :
    spentBy f p (charges ++ [charge]) = spentBy f p charges + if p charge then f charge else 0 := by
  simp [spentBy]

theorem spentBy_eq_zero {f : Charge → Nat} {p : Charge → Bool}
    (h : ∀ charge ∈ charges, p charge = false) : spentBy f p charges = 0 :=
  List.tally_eq_zero fun charge hmem => by simp [h charge hmem]

/-- One more charge of a bucket that is there. -/
theorem Accounts.add (h : spend.Accounts clock next charges) {bucket : Bucket}
    (hmem : bucket ∈ spend.buckets) (hslot : bucket.startedAt = slot clock) (bytes : Nat) :
    Accounts ⟨spend.buckets.map fun item =>
        if item.id = bucket.id then
          { item with bytes := item.bytes + bytes, requests := item.requests + 1 }
        else item⟩ clock next (charges ++ [⟨bucket.id, clock, bytes⟩]) := by
  have hids : (spend.buckets.map fun item =>
      if item.id = bucket.id then
        { item with bytes := item.bytes + bytes, requests := item.requests + 1 }
      else item).map (·.id) = spend.buckets.map (·.id) := by
    rw [List.map_map]
    refine List.map_congr_left fun item _ => ?_
    by_cases heq : item.id = bucket.id <;> simp [heq]
  refine
    { fresh := ?_, nodup := ?_, bytes := ?_, requests := ?_, used := ?_, slots := ?_, kept := ?_
      issued := ?_, past := ?_ }
  · intro item hitem
    obtain ⟨old, hold, rfl⟩ := List.mem_map.mp hitem
    have hfresh := h.fresh old hold
    split <;> exact hfresh
  · rw [hids]
    exact h.nodup
  · intro item hitem
    obtain ⟨old, hold, rfl⟩ := List.mem_map.mp hitem
    have hbytes := h.bytes old hold
    rw [spentBy_snoc]
    by_cases heq : old.id = bucket.id
    · simp [heq, hbytes]
    · simp [heq, hbytes, Ne.symm heq]
  · intro item hitem
    obtain ⟨old, hold, rfl⟩ := List.mem_map.mp hitem
    have hrequests := h.requests old hold
    rw [spentBy_snoc]
    by_cases heq : old.id = bucket.id
    · simp [heq, hrequests]
    · simp [heq, hrequests, Ne.symm heq]
  · intro item hitem
    obtain ⟨old, hold, rfl⟩ := List.mem_map.mp hitem
    have hused := h.used old hold
    split
    · exact Nat.succ_pos _
    · exact hused
  · intro item hitem charge hcharge hid
    obtain ⟨old, hold, rfl⟩ := List.mem_map.mp hitem
    have hsame : old.id = charge.bucket ∧ ∀ n, old.startedAt = n →
        (if old.id = bucket.id then
          { old with bytes := old.bytes + bytes, requests := old.requests + 1 }
        else old).startedAt = n := by
      by_cases heq : old.id = bucket.id
      · rw [if_pos heq] at hid ⊢
        exact ⟨hid.symm, fun n hn => hn⟩
      · rw [if_neg heq] at hid ⊢
        exact ⟨hid.symm, fun n hn => hn⟩
    refine hsame.2 _ ?_
    rcases List.mem_append.mp hcharge with hcharge | hcharge
    · exact h.slots old hold charge hcharge hsame.1.symm
    · obtain rfl := List.mem_singleton.mp hcharge
      have heq : old = bucket := List.inj_on_of_nodup_map h.nodup hold hmem hsame.1
      rw [heq]
      exact hslot
  · intro charge hcharge hcounted
    have hkept : ∃ old ∈ spend.buckets, old.id = charge.bucket := by
      rcases List.mem_append.mp hcharge with hcharge | hcharge
      · exact h.kept charge hcharge hcounted
      · obtain rfl := List.mem_singleton.mp hcharge
        exact ⟨bucket, hmem, rfl⟩
    obtain ⟨old, hold, hid⟩ := hkept
    refine ⟨_, List.mem_map_of_mem hold, ?_⟩
    rw [← hid]
    split <;> rfl
  · intro charge hcharge
    rcases List.mem_append.mp hcharge with hcharge | hcharge
    · exact h.issued charge hcharge
    · obtain rfl := List.mem_singleton.mp hcharge
      exact h.fresh bucket hmem
  · intro charge hcharge
    rcases List.mem_append.mp hcharge with hcharge | hcharge
    · exact h.past charge hcharge
    · obtain rfl := List.mem_singleton.mp hcharge
      exact Nat.le_refl _

/-- A charge of a new bucket. -/
theorem Accounts.open (h : spend.Accounts clock next charges) {id : Nat} (hid : next ≤ id)
    (bytes : Nat) :
    Accounts ⟨spend.buckets ++ [⟨id, slot clock, bytes, 1⟩]⟩ clock (id + 1)
      (charges ++ [⟨id, clock, bytes⟩]) := by
  have hother : ∀ charge ∈ charges, charge.bucket ≠ id := fun charge hmem heq => by
    have hissued := h.issued charge hmem
    omega
  have hold : ∀ bucket ∈ spend.buckets, id ≠ bucket.id := fun bucket hmem heq => by
    have hfresh := h.fresh bucket hmem
    omega
  have hnone : ∀ f : Charge → Nat, spentBy f (·.bucket = id) charges = 0 := fun f =>
    spentBy_eq_zero fun charge hmem => decide_eq_false (hother charge hmem)
  refine
    { fresh := ?_, nodup := ?_, bytes := ?_, requests := ?_, used := ?_, slots := ?_, kept := ?_
      issued := ?_, past := ?_ }
  · intro bucket hmem
    rcases List.mem_append.mp hmem with hmem | hmem
    · have hfresh := h.fresh bucket hmem
      omega
    · obtain rfl := List.mem_singleton.mp hmem
      exact Nat.lt_succ_self id
  · rw [List.map_append, List.nodup_append]
    refine ⟨h.nodup, List.nodup_singleton _, ?_⟩
    rintro _ hmem _ hid' rfl
    obtain ⟨bucket, hbucket, heq⟩ := List.mem_map.mp hmem
    exact hold bucket hbucket ((List.mem_singleton.mp hid').symm.trans heq.symm)
  · intro bucket hmem
    rw [spentBy_snoc]
    rcases List.mem_append.mp hmem with hmem | hmem
    · simp [h.bytes bucket hmem, hold bucket hmem]
    · obtain rfl := List.mem_singleton.mp hmem
      simp [hnone]
  · intro bucket hmem
    rw [spentBy_snoc]
    rcases List.mem_append.mp hmem with hmem | hmem
    · simp [h.requests bucket hmem, hold bucket hmem]
    · obtain rfl := List.mem_singleton.mp hmem
      simp [hnone]
  · intro bucket hmem
    rcases List.mem_append.mp hmem with hmem | hmem
    · exact h.used bucket hmem
    · obtain rfl := List.mem_singleton.mp hmem
      exact Nat.one_pos
  · intro bucket hmem charge hcharge hid'
    rcases List.mem_append.mp hmem with hmem | hmem
    · rcases List.mem_append.mp hcharge with hcharge | hcharge
      · exact h.slots bucket hmem charge hcharge hid'
      · obtain rfl := List.mem_singleton.mp hcharge
        exact absurd hid' (hold bucket hmem)
    · obtain rfl := List.mem_singleton.mp hmem
      rcases List.mem_append.mp hcharge with hcharge | hcharge
      · exact absurd hid' (hother charge hcharge)
      · obtain rfl := List.mem_singleton.mp hcharge
        rfl
  · intro charge hcharge hcounted
    rcases List.mem_append.mp hcharge with hcharge | hcharge
    · obtain ⟨bucket, hbucket, heq⟩ := h.kept charge hcharge hcounted
      exact ⟨bucket, List.mem_append_left _ hbucket, heq⟩
    · obtain rfl := List.mem_singleton.mp hcharge
      exact ⟨_, List.mem_append_right _ (List.mem_singleton.mpr rfl), rfl⟩
  · intro charge hcharge
    rcases List.mem_append.mp hcharge with hcharge | hcharge
    · have hissued := h.issued charge hcharge
      omega
    · obtain rfl := List.mem_singleton.mp hcharge
      exact Nat.lt_succ_self id
  · intro charge hcharge
    rcases List.mem_append.mp hcharge with hcharge | hcharge
    · exact h.past charge hcharge
    · obtain rfl := List.mem_singleton.mp hcharge
      exact Nat.le_refl _

theorem Accounts.mono (h : spend.Accounts clock next charges) {next' : Nat} (hnext : next ≤ next') :
    spend.Accounts clock next' charges :=
  { h with
    fresh := fun bucket hmem => (h.fresh bucket hmem).trans_le hnext
    issued := fun charge hmem => (h.issued charge hmem).trans_le hnext }

theorem Accounts.charge (h : spend.Accounts clock next charges) (hnow : clock ≤ now)
    {bytes id next' : Nat} (hid : next ≤ id) (hnext : id < next') :
    (spend.charge now bytes 1 id).1.Accounts now next'
      (charges ++ [⟨(spend.charge now bytes 1 id).2, now, bytes⟩]) := by
  have hlive := h.live hnow
  rw [Spend.charge]
  cases hfind : (spend.live now).buckets.find? (·.startedAt = now / BUCKET_MS * BUCKET_MS) with
  | some bucket =>
      have hslot : bucket.startedAt = slot now := by simpa [slot] using List.find?_some hfind
      exact (hlive.add (List.mem_of_find?_eq_some hfind) hslot bytes).mono (by omega)
  | none => exact (hlive.open hid bytes).mono hnext

/-! ### Settling -/

/-- What holds of the charges by their bucket and time holds of the corrected ones. -/
theorem forall_set {i : Nat} {charge : Charge} (hget : charges[i]? = some charge) {amount : Nat}
    {p : Nat → Nat → Prop} (h : ∀ charge ∈ charges, p charge.bucket charge.grantedAt) :
    ∀ charge' ∈ charges.set i { charge with amount }, p charge'.bucket charge'.grantedAt := by
  intro charge' hmem
  rcases List.mem_or_eq_of_mem_set hmem with hmem | rfl
  · exact h charge' hmem
  · exact h charge (List.mem_of_getElem? hget)

/-- A correction changes one charge. -/
theorem Accounts.correct (h : spend.Accounts clock next charges) {i : Nat} {charge : Charge}
    (hget : charges[i]? = some charge) {amount : Nat} :
    (spend.correct charge.bucket (amount - charge.amount)).Accounts clock next
      (charges.set i { charge with amount }) := by
  have hids : (spend.correct charge.bucket (amount - charge.amount)).buckets.map (·.id) =
      spend.buckets.map (·.id) := by
    rw [Spend.correct, List.map_map]
    refine List.map_congr_left fun bucket _ => ?_
    by_cases heq : bucket.id = charge.bucket <;> simp [heq]
  -- a corrected bucket differs in its bytes
  have hbucket : ∀ bucket ∈ (spend.correct charge.bucket (amount - charge.amount)).buckets,
      ∃ old ∈ spend.buckets, bucket.id = old.id ∧ bucket.startedAt = old.startedAt ∧
        bucket.requests = old.requests ∧ bucket.bytes =
          if old.id = charge.bucket then (max 0 ((old.bytes : Int) + (amount - charge.amount))).toNat
          else old.bytes := by
    intro bucket hmem
    obtain ⟨old, hold, rfl⟩ := List.mem_map.mp hmem
    refine ⟨old, hold, ?_⟩
    by_cases heq : old.id = charge.bucket <;> simp [heq]
  have hin := List.mem_of_getElem? hget
  refine
    { fresh := ?_, nodup := hids ▸ h.nodup, bytes := ?_, requests := ?_, used := ?_, slots := ?_
      kept := ?_, issued := forall_set (p := fun bucket _ => bucket < next) hget h.issued
      past := forall_set (p := fun _ t => t ≤ clock) hget h.past }
  · intro bucket hmem
    obtain ⟨old, hold, hid, -⟩ := hbucket bucket hmem
    rw [hid]
    exact h.fresh old hold
  · intro bucket hmem
    obtain ⟨old, hold, hid, -, -, hbytes⟩ := hbucket bucket hmem
    have hset := List.tally_set { charge with amount }
      (fun charge => if decide (charge.bucket = old.id) then charge.amount else 0) hget
    have hle := List.le_tally
      (fun charge : Charge => if decide (charge.bucket = old.id) then charge.amount else 0) hin
    have hold' := h.bytes old hold
    rw [spentBy] at hold'
    rw [hbytes, hid, spentBy]
    by_cases heq : old.id = charge.bucket
    · rw [if_pos heq]
      simp only [heq, decide_true, if_true] at hset hle hold' ⊢
      omega
    · rw [if_neg heq]
      simp only [Ne.symm heq, decide_false, Bool.false_eq_true, if_false] at hset
      omega
  · intro bucket hmem
    obtain ⟨old, hold, hid, -, hrequests, -⟩ := hbucket bucket hmem
    have hset := List.tally_set { charge with amount }
      (fun charge : Charge => if decide (charge.bucket = old.id) then 1 else 0) hget
    have hold' := h.requests old hold
    rw [spentBy] at hold'
    rw [hrequests, hid, spentBy]
    dsimp only at hset
    omega
  · intro bucket hmem
    obtain ⟨old, hold, -, -, hrequests, -⟩ := hbucket bucket hmem
    rw [hrequests]
    exact h.used old hold
  · intro bucket hmem
    obtain ⟨old, hold, hid, hslot, -⟩ := hbucket bucket hmem
    rw [hid, hslot]
    exact forall_set (p := fun bucket t => bucket = old.id → old.startedAt = slot t) hget
      (h.slots old hold)
  · intro charge' hmem hcounted
    have hkept : ∃ old ∈ spend.buckets, old.id = charge'.bucket := by
      rcases List.mem_or_eq_of_mem_set hmem with hmem | rfl
      · exact h.kept charge' hmem hcounted
      · exact h.kept charge hin hcounted
    obtain ⟨old, hold, hid⟩ := hkept
    have hmap : charge'.bucket ∈
        (spend.correct charge.bucket (amount - charge.amount)).buckets.map (·.id) := by
      rw [hids, ← hid]
      exact List.mem_map_of_mem hold
    exact List.mem_map.mp hmap

theorem Accounts.later (h : spend.Accounts clock next charges) (hnow : clock ≤ now) :
    spend.Accounts now next charges :=
  { h with
    kept := fun charge hmem hcounted => h.kept charge hmem (counted_mono hnow hcounted)
    past := fun charge hmem => (h.past charge hmem).trans hnow }

/-! ### Windows -/

/-- What fits into what is counted now fits into every window. -/
theorem window_charge {charge : Charge} (hcharge : charge.grantedAt = now) {f : Charge → Nat} {limit : Nat}
    (hroom : spentBy f (·.counted now) charges + f charge ≤ limit)
    (hwindows : ∀ x, spentBy f (·.inWindow x) charges ≤ limit) (x : Nat) :
    spentBy f (·.inWindow x) (charges ++ [charge]) ≤ limit := by
  rw [spentBy_snoc]
  by_cases hin : charge.inWindow x = true
  · rw [if_pos hin]
    refine (Nat.add_le_add_right ?_ _).trans hroom
    refine List.tally_le fun old _ => ?_
    by_cases hwindow : old.inWindow x = true
    · have hcounted : old.counted now = true := by
        refine Charge.counted_of_window ?_
        have hbefore := (of_decide_eq_true hin).1
        have hafter := (of_decide_eq_true hwindow).2
        omega
      rw [if_pos hwindow, if_pos hcounted]
    · rw [if_neg hwindow]
      exact Nat.zero_le _
  · rw [if_neg hin]
    exact hwindows x

/-- A correction downwards lets every window shrink. -/
theorem window_correct {i : Nat} {charge : Charge} (hget : charges[i]? = some charge)
    {amount : Nat} {f : Charge → Nat} (hf : f { charge with amount } ≤ f charge) (x : Nat) :
    spentBy f (·.inWindow x) (charges.set i { charge with amount }) ≤
      spentBy f (·.inWindow x) charges := by
  have hset := List.tally_set { charge with amount }
    (fun charge : Charge => if charge.inWindow x then f charge else 0) hget
  have hsame : Charge.inWindow x { charge with amount } = charge.inWindow x := rfl
  rw [spentBy, spentBy]
  simp only [hsame] at hset
  by_cases hin : charge.inWindow x = true
  · rw [if_pos hin, if_pos hin] at hset
    omega
  · rw [if_neg hin, if_neg hin] at hset
    omega

end Spend

/-! ## All ledgers -/

namespace Intake

variable {Peer : Type} [DecidableEq Peer]

theorem spendOf_cons {item : Peer × Spend} {rest : List (Peer × Spend)} {p : Peer} :
    spendOf (item :: rest) p = if item.1 = p then item.2 else spendOf rest p := by
  by_cases heq : item.1 = p <;> simp [spendOf, heq]

theorem spendOf_of_not_mem {perPeer : List (Peer × Spend)} {p : Peer}
    (h : p ∉ perPeer.map (·.1)) : spendOf perPeer p = .new := by
  induction perPeer with
  | nil => rfl
  | cons item rest ih =>
      rw [List.map_cons, List.mem_cons, not_or] at h
      rw [spendOf_cons, if_neg (Ne.symm h.1), ih h.2]

theorem keys_modifySpend (perPeer : List (Peer × Spend)) (p : Peer) (f : Spend → Spend) :
    (modifySpend perPeer p f).map (·.1) = perPeer.map (·.1) := by
  rw [modifySpend, List.map_map]
  refine List.map_congr_left fun item _ => ?_
  by_cases hitem : item.1 = p <;> simp [hitem]

theorem spendOf_modifySpend (perPeer : List (Peer × Spend)) (p q : Peer) (f : Spend → Spend) :
    spendOf (modifySpend perPeer p f) q =
      if q = p ∧ p ∈ perPeer.map (·.1) then f (spendOf perPeer q) else spendOf perPeer q := by
  induction perPeer with
  | nil => simp [modifySpend]
  | cons item rest ih =>
      rw [modifySpend] at ih ⊢
      rw [List.map_cons, spendOf_cons, spendOf_cons, ih]
      by_cases hitem : item.1 = p
      · by_cases hq : p = q
        · simp [hitem, hq]
        · simp [hitem, hq, Ne.symm hq]
      · by_cases hq : item.1 = q
        · have hne : q ≠ p := fun heq => hitem (hq.trans heq)
          simp [hq, hne]
        · have hmem : p ∈ (item :: rest).map (·.1) ↔ p ∈ rest.map (·.1) := by
            simp [Ne.symm hitem]
          simp only [hitem, hq, if_false, hmem]

/-- Where a change of an empty ledger leaves it empty. -/
theorem spendOf_modifySpend_of_new {perPeer : List (Peer × Spend)} {p q : Peer}
    {f : Spend → Spend} (hf : f .new = .new) :
    spendOf (modifySpend perPeer p f) q =
      if q = p then f (spendOf perPeer q) else spendOf perPeer q := by
  rw [spendOf_modifySpend]
  by_cases hmem : p ∈ perPeer.map (·.1)
  · simp [hmem]
  · by_cases hq : q = p
    · rw [if_neg fun h => hmem h.2, if_pos hq, hq, spendOf_of_not_mem hmem, hf]
    · rw [if_neg fun h => hq h.1, if_neg hq]

theorem any_iff_mem_keys {perPeer : List (Peer × Spend)} {p : Peer} :
    perPeer.any (·.1 = p) = true ↔ p ∈ perPeer.map (·.1) := by
  simp

theorem spendOf_setSpend (perPeer : List (Peer × Spend)) (p q : Peer) (spend : Spend) :
    spendOf (setSpend perPeer p spend) q = if q = p then spend else spendOf perPeer q := by
  rw [setSpend]
  by_cases hmem : p ∈ perPeer.map (·.1)
  · rw [if_pos (any_iff_mem_keys.mpr hmem), spendOf_modifySpend]
    simp [hmem]
  · rw [if_neg fun hany => hmem (any_iff_mem_keys.mp hany)]
    induction perPeer with
    | nil =>
        rw [List.nil_append, spendOf_cons]
        by_cases hq : q = p
        · simp [hq]
        · simp [hq, Ne.symm hq]
    | cons item rest ih =>
        rw [List.map_cons, List.mem_cons, not_or] at hmem
        rw [List.cons_append, spendOf_cons, spendOf_cons, ih hmem.2]
        by_cases hq : item.1 = q
        · have hne : q ≠ p := fun heq => hmem.1 (hq.trans heq).symm
          simp [hq, hne]
        · simp [hq]

theorem keys_setSpend {perPeer : List (Peer × Spend)} {p : Peer} {spend : Spend}
    (h : (perPeer.map (·.1)).Nodup) : ((setSpend perPeer p spend).map (·.1)).Nodup := by
  rw [setSpend]
  by_cases hmem : p ∈ perPeer.map (·.1)
  · rw [if_pos (any_iff_mem_keys.mpr hmem), keys_modifySpend]
    exact h
  · rw [if_neg fun hany => hmem (any_iff_mem_keys.mp hany), List.map_append, List.nodup_append]
    refine ⟨h, List.nodup_singleton _, ?_⟩
    rintro key hkey _ hp rfl
    rw [List.mem_singleton.mp hp] at hkey
    exact hmem hkey

theorem spent_eq_false {spend : Spend} {now : Nat} (h : spend.spent now = false) :
    spend.live now = .new := by
  have hempty : (spend.live now).buckets = [] := by simpa [Spend.spent] using h
  rw [Spend.new, ← hempty]

theorem spendOf_pruneSpends {perPeer : List (Peer × Spend)} (h : (perPeer.map (·.1)).Nodup)
    (q : Peer) (now : Nat) : spendOf (pruneSpends perPeer now) q = (spendOf perPeer q).live now := by
  induction perPeer with
  | nil => rfl
  | cons item rest ih =>
      obtain ⟨hnot, hrest⟩ := List.nodup_cons.mp h
      have ih := ih hrest
      rw [pruneSpends] at ih ⊢
      rw [spendOf_cons]
      cases hspent : item.2.spent now with
      | true =>
          rw [List.filter_cons, if_pos hspent, List.map_cons, spendOf_cons, ih]
          by_cases hq : item.1 = q <;> simp [hq]
      | false =>
          rw [List.filter_cons, if_neg (by simp [hspent]), ih]
          by_cases hq : item.1 = q
          · rw [if_pos hq, spent_eq_false hspent, spendOf_of_not_mem (hq ▸ hnot)]
            rfl
          · rw [if_neg hq]

/-! ### The invariant -/

/-- What a reservation is in the ledger of its peer. -/
def peerCharge (r : IntakeReservation Peer) : Charge := ⟨r.peerBucket, r.grantedAt, r.amount⟩

/-- What it is in the ledger of all peers. -/
def totalCharge (r : IntakeReservation Peer) : Charge := ⟨r.totalBucket, r.grantedAt, r.amount⟩

/-- The charges of a peer's ledger. -/
def peerCharges (s : Intake Peer) (p : Peer) : List Charge :=
  (s.reservations.filter (·.peerId = p)).map peerCharge

def totalCharges (s : Intake Peer) : List Charge := s.reservations.map totalCharge

/-- In every window, no more than this was charged. -/
def Within (bytes requests : Nat) (charges : List Charge) : Prop :=
  ∀ x, spentBy (·.amount) (·.inWindow x) charges ≤ bytes ∧
    spentBy (fun _ => 1) (·.inWindow x) charges ≤ requests

structure Ledgers (s : Intake Peer) : Prop where
  peers : ∀ p, (spendOf s.perPeer p).Accounts s.clock s.nextBucket (s.peerCharges p)
  total : s.total.Accounts s.clock s.nextBucket s.totalCharges
  keys : (s.perPeer.map (·.1)).Nodup
  size : s.perPeer.length ≤ TOTAL_INTAKE_REQUESTS
  unsettled : ∀ r ∈ s.reservations, r.settled = false → r.amount = r.maxBytes
  perPeer : ∀ p, Within PER_PEER_INTAKE_BYTES PER_PEER_INTAKE_REQUESTS (s.peerCharges p)
  all : Within TOTAL_INTAKE_BYTES TOTAL_INTAKE_REQUESTS s.totalCharges

omit [DecidableEq Peer] in
theorem within_nil (bytes requests : Nat) : Within bytes requests [] :=
  fun _ => ⟨Nat.zero_le _, Nat.zero_le _⟩

theorem ledgers_empty : (empty : Intake Peer).Ledgers where
  peers _ := Spend.accounts_new
  total := Spend.accounts_new
  keys := .nil
  size := Nat.zero_le _
  unsettled := nofun
  perPeer _ := within_nil _ _
  all := within_nil _ _

/-- A charge that the totals leave room for. -/
theorem within_charge {spend : Spend} {clock next now : Nat} {charges : List Charge}
    (charge : Charge) (h : spend.Accounts clock next charges) (hnow : clock ≤ now)
    (hcharge : charge.grantedAt = now) {bytes requests : Nat}
    (hbytes : (spend.totals now).bytes + charge.amount ≤ bytes)
    (hrequests : (spend.totals now).requests < requests)
    (hwithin : Within bytes requests charges) : Within bytes requests (charges ++ [charge]) := by
  rw [h.totals hnow] at hbytes hrequests
  intro x
  exact ⟨Spend.window_charge hcharge hbytes (fun x => (hwithin x).1) x,
    Spend.window_charge hcharge hrequests (fun x => (hwithin x).2) x⟩

theorem within_correct {charges : List Charge} {i : Nat} {charge : Charge}
    (hget : charges[i]? = some charge) {amount : Nat} (hle : amount ≤ charge.amount)
    {bytes requests : Nat} (hwithin : Within bytes requests charges) :
    Within bytes requests (charges.set i { charge with amount }) := fun x =>
  ⟨(Spend.window_correct (f := Charge.amount) hget hle x).trans (hwithin x).1,
    (Spend.window_correct (f := fun _ => 1) hget (Nat.le_refl _) x).trans (hwithin x).2⟩

/-! ### Requests -/

variable {s : Intake Peer} {peerId : Peer} {maxBytes now : Nat}

theorem reserveIntake_refused (h : exceeds ((spendOf s.perPeer peerId).totals now)
    (s.total.totals now) maxBytes = true) : s.reserveIntake peerId maxBytes now =
      { s with
        perPeer := modifySpend s.perPeer peerId (·.live now), total := s.total.live now
        clock := now } := by
  rw [reserveIntake]
  exact if_pos h

/-- The ledger of the peer, and of all peers, after a grant. -/
def chargedPeer (s : Intake Peer) (peerId : Peer) (maxBytes now : Nat) : Spend × Nat :=
  (spendOf s.perPeer peerId).charge now maxBytes 1 s.nextBucket

def chargedTotal (s : Intake Peer) (maxBytes now : Nat) : Spend × Nat :=
  s.total.charge now maxBytes 1 (s.nextBucket + 1)

theorem reserveIntake_granted (h : exceeds ((spendOf s.perPeer peerId).totals now)
    (s.total.totals now) maxBytes = false) : s.reserveIntake peerId maxBytes now =
      { perPeer :=
          let perPeer := setSpend s.perPeer peerId (s.chargedPeer peerId maxBytes now).1
          if TOTAL_INTAKE_REQUESTS < perPeer.length then pruneSpends perPeer now else perPeer
        total := (s.chargedTotal maxBytes now).1
        reservations := s.reservations ++ [⟨peerId, maxBytes, false,
          (s.chargedPeer peerId maxBytes now).2, (s.chargedTotal maxBytes now).2, now, maxBytes⟩]
        nextBucket := s.nextBucket + 2
        clock := now } := by
  rw [reserveIntake, if_neg (by simp [h])]
  rfl

theorem room_of_granted {peerTotals allTotals : Totals}
    (h : exceeds peerTotals allTotals maxBytes = false) :
    (peerTotals.bytes + maxBytes ≤ PER_PEER_INTAKE_BYTES ∧
      peerTotals.requests < PER_PEER_INTAKE_REQUESTS) ∧
    allTotals.bytes + maxBytes ≤ TOTAL_INTAKE_BYTES ∧
      allTotals.requests < TOTAL_INTAKE_REQUESTS := by
  simp only [exceeds, Bool.or_eq_false_iff, decide_eq_false_iff_not, Nat.not_lt, Nat.not_le] at h
  exact ⟨⟨h.1.1.1, h.1.1.2⟩, h.1.2, h.2⟩

theorem ledgers_refused (h : s.Ledgers) (hnow : s.clock ≤ now) : Ledgers
    { s with
      perPeer := modifySpend s.perPeer peerId (·.live now), total := s.total.live now
      clock := now } where
  peers := by
    intro p
    rw [spendOf_modifySpend_of_new rfl]
    split
    · exact (h.peers p).live hnow
    · exact (h.peers p).later hnow
  total := h.total.live hnow
  keys := by
    rw [keys_modifySpend]
    exact h.keys
  size := by
    rw [modifySpend, List.length_map]
    exact h.size
  unsettled := h.unsettled
  perPeer := h.perPeer
  all := h.all

theorem accounts_setSpend (h : s.Ledgers) (hnow : s.clock ≤ now) (peerId : Peer)
    (maxBytes : Nat) (p : Peer) :
    (spendOf (setSpend s.perPeer peerId (s.chargedPeer peerId maxBytes now).1) p).Accounts now
      (s.nextBucket + 2) (s.peerCharges p ++ if peerId = p then
        [⟨(s.chargedPeer peerId maxBytes now).2, now, maxBytes⟩] else []) := by
  rw [spendOf_setSpend]
  by_cases hp : p = peerId
  · rw [if_pos hp, if_pos hp.symm, hp]
    exact (h.peers peerId).charge hnow (Nat.le_refl _) (by omega)
  · rw [if_neg hp, if_neg (Ne.symm hp), List.append_nil]
    exact ((h.peers p).later hnow).mono (by omega)

theorem spendOf_of_mem {perPeer : List (Peer × Spend)} (hkeys : (perPeer.map (·.1)).Nodup)
    {item : Peer × Spend} (hmem : item ∈ perPeer) : spendOf perPeer item.1 = item.2 := by
  induction perPeer with
  | nil => cases hmem
  | cons first rest ih =>
      obtain ⟨hfirst, hrest⟩ := List.nodup_cons.mp hkeys
      rw [spendOf_cons]
      rcases List.mem_cons.mp hmem with rfl | hmem
      · rw [if_pos rfl]
      · rw [if_neg, ih hrest hmem]
        intro heq
        refine hfirst ?_
        show first.1 ∈ _
        rw [heq]
        exact List.mem_map_of_mem hmem

omit [DecidableEq Peer] in
theorem keys_pruneSpends (perPeer : List (Peer × Spend)) (now : Nat) :
    (pruneSpends perPeer now).map (·.1) =
      (perPeer.filter fun item => item.2.spent now).map (·.1) := by
  rw [pruneSpends, List.map_map]
  rfl

/-- A ledger that counts something counts a charge. -/
theorem exists_counted {spend : Spend} {clock next : Nat} {charges : List Charge}
    (h : spend.Accounts clock next charges) (hspent : spend.spent clock = true) :
    ∃ charge ∈ charges, charge.counted clock = true := by
  have hne : (spend.live clock).buckets ≠ [] := by simpa [Spend.spent] using hspent
  obtain ⟨bucket, hbucket⟩ := List.exists_mem_of_ne_nil _ hne
  obtain ⟨hmem, hlive⟩ := Spend.mem_live.mp hbucket
  have hused := h.used bucket hmem
  rw [h.requests bucket hmem] at hused
  by_contra hnone
  push Not at hnone
  refine absurd (Spend.spentBy_eq_zero fun charge hcharge => ?_) (Nat.ne_of_gt hused)
  refine decide_eq_false fun hid => hnone charge hcharge ?_
  rw [Charge.counted_iff, ← h.slots bucket hmem charge hcharge hid]
  exact hlive

/-- The peers that are kept have made a request that is counted. -/
theorem size_pruneSpends {perPeer : List (Peer × Spend)} {clock next : Nat}
    {reservations : List (IntakeReservation Peer)} (hkeys : (perPeer.map (·.1)).Nodup)
    (hpeers : ∀ p, (spendOf perPeer p).Accounts clock next
      ((reservations.filter (·.peerId = p)).map peerCharge)) :
    (pruneSpends perPeer clock).length ≤
      spentBy (fun _ => 1) (·.counted clock) (reservations.map totalCharge) := by
  have hsubset : (pruneSpends perPeer clock).map (·.1) ⊆
      (reservations.filter fun r => (totalCharge r).counted clock).map (·.peerId) := by
    intro p hp
    rw [keys_pruneSpends] at hp
    obtain ⟨item, hitem, rfl⟩ := List.mem_map.mp hp
    obtain ⟨hmem, hspent⟩ := List.mem_filter.mp hitem
    have haccounts := hpeers item.1
    rw [spendOf_of_mem hkeys hmem] at haccounts
    obtain ⟨charge, hcharge, hcounted⟩ := exists_counted haccounts hspent
    obtain ⟨r, hr, rfl⟩ := List.mem_map.mp hcharge
    obtain ⟨hr, hpeer⟩ := List.mem_filter.mp hr
    have hcounted : (totalCharge r).counted clock = true := hcounted
    refine List.mem_map.mpr ⟨r, List.mem_filter.mpr ⟨hr, hcounted⟩, ?_⟩
    exact of_decide_eq_true hpeer
  have hnodup : ((pruneSpends perPeer clock).map (·.1)).Nodup := by
    rw [keys_pruneSpends]
    exact hkeys.sublist (List.filter_sublist.map _)
  have hle := (List.subperm_of_subset hnodup hsubset).length_le
  rw [List.length_map, List.length_map] at hle
  rw [spentBy, List.tally_map, List.tally_one_filter]
  exact hle

theorem peerCharges_snoc (reservations : List (IntakeReservation Peer))
    (r : IntakeReservation Peer) (p : Peer) :
    ((reservations ++ [r]).filter (·.peerId = p)).map peerCharge =
      (reservations.filter (·.peerId = p)).map peerCharge ++
        if r.peerId = p then [peerCharge r] else [] := by
  rw [List.filter_append, List.map_append]
  by_cases hp : r.peerId = p <;> simp [hp]

theorem ledgers_granted (h : s.Ledgers) (hnow : s.clock ≤ now)
    (hgranted : exceeds ((spendOf s.perPeer peerId).totals now) (s.total.totals now) maxBytes =
      false) : (s.reserveIntake peerId maxBytes now).Ledgers := by
  obtain ⟨⟨hpeerBytes, hpeerRequests⟩, hallBytes, hallRequests⟩ := room_of_granted hgranted
  have hkeys : ((setSpend s.perPeer peerId
      (s.chargedPeer peerId maxBytes now).1).map (·.1)).Nodup := keys_setSpend h.keys
  have haccounts := accounts_setSpend h hnow peerId maxBytes
  have htotal : (s.chargedTotal maxBytes now).1.Accounts now (s.nextBucket + 2)
      (s.totalCharges ++ [⟨(s.chargedTotal maxBytes now).2, now, maxBytes⟩]) :=
    h.total.charge hnow (Nat.le_succ _) (by omega)
  rw [reserveIntake_granted hgranted]
  let r : IntakeReservation Peer := ⟨peerId, maxBytes, false,
    (s.chargedPeer peerId maxBytes now).2, (s.chargedTotal maxBytes now).2, now, maxBytes⟩
  have hpeers : ∀ p, (spendOf (setSpend s.perPeer peerId (s.chargedPeer peerId maxBytes now).1)
      p).Accounts now (s.nextBucket + 2)
      (((s.reservations ++ [r]).filter (·.peerId = p)).map peerCharge) := by
    intro p
    rw [peerCharges_snoc]
    exact haccounts p
  have hcharges : (s.reservations ++ [r]).map totalCharge = s.totalCharges ++ [totalCharge r] := by
    rw [List.map_append, totalCharges]
    rfl
  refine
    { peers := ?_, total := ?_, keys := ?_, size := ?_, unsettled := ?_, perPeer := ?_, all := ?_ }
  · intro p
    dsimp only
    split
    · rw [spendOf_pruneSpends hkeys]
      exact (hpeers p).live (Nat.le_refl _)
    · exact hpeers p
  · rw [totalCharges, hcharges]
    exact htotal
  · dsimp only
    split
    · rw [keys_pruneSpends]
      exact hkeys.sublist (List.filter_sublist.map _)
    · exact hkeys
  · dsimp only
    split
    case isTrue =>
      have hsize := size_pruneSpends hkeys hpeers
      rw [hcharges, Spend.spentBy_snoc] at hsize
      rw [h.total.totals hnow] at hallRequests
      have hone : (if (totalCharge r).counted now then 1 else 0) ≤ 1 := by
        split
        · exact Nat.le_refl 1
        · exact Nat.zero_le 1
      dsimp only at hallRequests
      omega
    case isFalse hsmall => exact Nat.not_lt.mp hsmall
  · intro r' hmem hunsettled
    rcases List.mem_append.mp hmem with hmem | hmem
    · exact h.unsettled r' hmem hunsettled
    · rw [List.mem_singleton.mp hmem]
  · intro p
    show Within _ _ (((s.reservations ++ [r]).filter (·.peerId = p)).map peerCharge)
    rw [peerCharges_snoc]
    by_cases hp : peerId = p
    · rw [if_pos hp, ← hp]
      exact within_charge (peerCharge r) (h.peers peerId) hnow rfl hpeerBytes
        hpeerRequests (h.perPeer peerId)
    · rw [if_neg hp, List.append_nil]
      exact h.perPeer p
  · rw [totalCharges, hcharges]
    exact within_charge (totalCharge r) h.total hnow rfl hallBytes hallRequests h.all

theorem ledgers_settle (h : s.Ledgers) {i bytes : Nat} {reservation : IntakeReservation Peer}
    (hget : s.reservations[i]? = some reservation) (hbytes : bytes ≤ reservation.maxBytes) :
    (s.settle i bytes).Ledgers := by
  rw [settle, hget]
  dsimp only
  split
  case isTrue => exact h
  case isFalse hsettled =>
    have hamount := h.unsettled reservation (List.mem_of_getElem? hget)
      (Bool.eq_false_iff.mpr hsettled)
    let settled : IntakeReservation Peer := { reservation with settled := true, amount := bytes }
    have htotal : (s.reservations.set i settled).map totalCharge =
        s.totalCharges.set i { totalCharge reservation with amount := bytes } := by
      rw [List.map_set, totalCharges]
      rfl
    have hgetTotal : s.totalCharges[i]? = some (totalCharge reservation) := by
      rw [totalCharges, List.getElem?_map, hget]
      rfl
    -- the ledger of another peer does not change, and in that of this peer one charge does
    have hother : ∀ p, reservation.peerId ≠ p →
        (s.reservations.set i settled).filter (·.peerId = p) =
          s.reservations.filter (·.peerId = p) := fun p hp =>
      List.filter_set_of_neg hget (decide_eq_false hp) (decide_eq_false hp)
    have hown : ∃ j, (s.peerCharges reservation.peerId)[j]? = some (peerCharge reservation) ∧
        ((s.reservations.set i settled).filter (·.peerId = reservation.peerId)).map peerCharge =
          (s.peerCharges reservation.peerId).set j { peerCharge reservation with amount := bytes } := by
      obtain ⟨j, hj, hset⟩ := List.filter_set_of_pos (p := fun r => r.peerId = reservation.peerId)
        settled hget (decide_eq_true rfl) (decide_eq_true rfl)
      refine ⟨j, ?_, ?_⟩
      · rw [peerCharges, List.getElem?_map, hj]
        rfl
      · rw [hset, List.map_set]
        rfl
    refine
      { peers := ?_, total := ?_, keys := ?_, size := ?_, unsettled := ?_, perPeer := ?_
        all := ?_ }
    · intro p
      rw [spendOf_modifySpend_of_new rfl]
      by_cases hp : p = reservation.peerId
      · rw [if_pos hp, hp]
        obtain ⟨j, hj, hset⟩ := hown
        rw [peerCharges, hset, ← hamount]
        exact (h.peers reservation.peerId).correct hj
      · rw [if_neg hp, peerCharges, hother p (Ne.symm hp)]
        exact h.peers p
    · rw [totalCharges, htotal, ← hamount]
      exact h.total.correct hgetTotal
    · rw [keys_modifySpend]
      exact h.keys
    · rw [modifySpend, List.length_map]
      exact h.size
    · intro r hmem hunsettled
      rcases List.mem_or_eq_of_mem_set hmem with hmem | rfl
      · exact h.unsettled r hmem hunsettled
      · cases hunsettled
    · intro p
      by_cases hp : reservation.peerId = p
      · obtain ⟨j, hj, hset⟩ := hown
        rw [peerCharges, ← hp, hset]
        exact within_correct hj (hbytes.trans hamount.ge) (h.perPeer _)
      · rw [peerCharges, hother p hp]
        exact h.perPeer p
    · rw [totalCharges, htotal]
      exact within_correct hgetTotal (hbytes.trans hamount.ge) h.all

theorem ledgers_step {a : Unit} {s' : Intake Peer} (h : s.Ledgers) (hstep : Step s a s') :
    s'.Ledgers := by
  cases hstep with
  | @reserve peerId maxBytes now hnow =>
      cases hexceeds : exceeds ((spendOf s.perPeer peerId).totals now) (s.total.totals now)
          maxBytes with
      | true =>
          rw [reserveIntake_refused hexceeds]
          exact ledgers_refused h hnow
      | false => exact ledgers_granted h hnow hexceeds
  | settle hget hbytes => exact ledgers_settle h hget hbytes

/-! ### Settling once -/

theorem settle_settled {i bytes : Nat} {reservation : IntakeReservation Peer}
    (hget : s.reservations[i]? = some reservation) (hsettled : reservation.settled = true) :
    s.settle i bytes = s := by
  rw [settle, hget]
  exact if_pos hsettled

theorem settle_unsettled {i bytes : Nat} {reservation : IntakeReservation Peer}
    (hget : s.reservations[i]? = some reservation) (hsettled : reservation.settled = false) :
    s.settle i bytes =
      { s with
        perPeer := modifySpend s.perPeer reservation.peerId
          (·.correct reservation.peerBucket (bytes - reservation.maxBytes))
        total := s.total.correct reservation.totalBucket (bytes - reservation.maxBytes)
        reservations := s.reservations.set i
          { reservation with settled := true, amount := bytes } } := by
  rw [settle, hget]
  exact if_neg (by simp [hsettled])

/-- A ledger before and after a correction of one of its charges by `less`. -/
structure CorrectedBy (less : Nat) (before after : Totals) : Prop where
  bytes : after.bytes + less = before.bytes
  requests : after.requests = before.requests

/-- What a ledger counts, before and after a correction. -/
theorem correctedBy {spend spend' : Spend} {clock next now : Nat} {charges : List Charge}
    (h : spend.Accounts clock next charges) {i : Nat} {charge : Charge}
    (hget : charges[i]? = some charge) (amount : Nat)
    (h' : spend'.Accounts clock next (charges.set i { charge with amount }))
    (hle : amount ≤ charge.amount) (hnow : clock ≤ now) :
    CorrectedBy (if charge.counted now then charge.amount - amount else 0) (spend.totals now)
      (spend'.totals now) := by
  have hbytes := List.tally_set { charge with amount }
    (fun charge : Charge => if charge.counted now then charge.amount else 0) hget
  have hrequests := List.tally_set { charge with amount }
    (fun charge : Charge => if charge.counted now then 1 else 0) hget
  have hsame : Charge.counted now { charge with amount } = charge.counted now := rfl
  simp only [hsame] at hbytes hrequests
  rw [h.totals hnow, h'.totals hnow]
  refine { bytes := ?_, requests := ?_ }
  · dsimp only [spentBy]
    by_cases hcounted : charge.counted now = true
    · simp only [hcounted, if_true] at hbytes ⊢
      omega
    · simp only [Bool.not_eq_true] at hcounted
      simp only [hcounted, Bool.false_eq_true, if_false] at hbytes ⊢
      omega
  · dsimp only [spentBy]
    omega

/-- What settling a reservation does: both ledgers go down by the difference to
what was reserved, as long as they count it, and nothing else changes. -/
structure SettledBy (s : Intake Peer) (i bytes : Nat) (r : IntakeReservation Peer)
    (s' : Intake Peer) : Prop where
  reservations : s'.reservations = s.reservations.set i { r with settled := true, amount := bytes }
  peer : ∀ now, s.clock ≤ now →
    CorrectedBy (if (peerCharge r).counted now then r.maxBytes - bytes else 0)
      ((spendOf s.perPeer r.peerId).totals now) ((spendOf s'.perPeer r.peerId).totals now)
  total : ∀ now, s.clock ≤ now →
    CorrectedBy (if (totalCharge r).counted now then r.maxBytes - bytes else 0)
      (s.total.totals now) (s'.total.totals now)
  others : ∀ p, p ≠ r.peerId → spendOf s'.perPeer p = spendOf s.perPeer p

theorem settledBy (h : s.Ledgers) {i bytes : Nat} {r : IntakeReservation Peer}
    (hget : s.reservations[i]? = some r) (hunsettled : r.settled = false)
    (hbytes : bytes ≤ r.maxBytes) : SettledBy s i bytes r (s.settle i bytes) := by
  have h' := ledgers_settle h hget hbytes
  have hamount := h.unsettled r (List.mem_of_getElem? hget) hunsettled
  rw [settle_unsettled hget hunsettled] at h' ⊢
  refine { reservations := rfl, peer := ?_, total := ?_, others := ?_ }
  · intro now hnow
    obtain ⟨j, hj, hset⟩ := List.filter_set_of_pos (p := fun r' => r'.peerId = r.peerId)
      { r with settled := true, amount := bytes } hget (decide_eq_true rfl)
      (decide_eq_true rfl)
    have hpeer : (s.peerCharges r.peerId)[j]? = some (peerCharge r) := by
      rw [peerCharges, List.getElem?_map, hj]
      rfl
    have haccounts := h'.peers r.peerId
    rw [peerCharges, hset, List.map_set] at haccounts
    have hcorrected := correctedBy (h.peers r.peerId) hpeer bytes haccounts
      (hbytes.trans hamount.ge) hnow
    have hless : (peerCharge r).amount = r.maxBytes := hamount
    rw [hless] at hcorrected
    exact hcorrected
  · intro now hnow
    have htotal : s.totalCharges[i]? = some (totalCharge r) := by
      rw [totalCharges, List.getElem?_map, hget]
      rfl
    have haccounts := h'.total
    rw [totalCharges, List.map_set] at haccounts
    have hcorrected := correctedBy h.total htotal bytes haccounts
      (hbytes.trans hamount.ge) hnow
    have hless : (totalCharge r).amount = r.maxBytes := hamount
    rw [hless] at hcorrected
    exact hcorrected
  · intro p hp
    rw [spendOf_modifySpend_of_new rfl, if_neg hp]

/-- Whatever peers reserve and settle: in every window, no peer and not all of
them together have more than their limits; what a ledger counts are the charges
of at least one window, and of at most one window and a bucket; a reservation is
corrected once, by the difference; and there are not more ledgers than requests
in a window. -/
theorem rolling_limit {s : Intake Peer} (hrun : Run Step always .empty s) :
    (∀ p, Within PER_PEER_INTAKE_BYTES PER_PEER_INTAKE_REQUESTS (s.peerCharges p)) ∧
    Within TOTAL_INTAKE_BYTES TOTAL_INTAKE_REQUESTS s.totalCharges ∧
    (∀ now, s.clock ≤ now →
      (∀ p, (spendOf s.perPeer p).totals now =
        ⟨spentBy (·.amount) (·.counted now) (s.peerCharges p),
          spentBy (fun _ => 1) (·.counted now) (s.peerCharges p)⟩) ∧
      s.total.totals now = ⟨spentBy (·.amount) (·.counted now) s.totalCharges,
        spentBy (fun _ => 1) (·.counted now) s.totalCharges⟩) ∧
    (∀ (charge : Charge) (now : Nat),
      (now ≤ charge.grantedAt + INTAKE_WINDOW_MS → charge.counted now = true) ∧
      (charge.counted now = true → now < charge.grantedAt + INTAKE_WINDOW_MS + BUCKET_MS)) ∧
    (∀ i r bytes, s.reservations[i]? = some r → bytes ≤ r.maxBytes →
      (r.settled = true → s.settle i bytes = s) ∧
      (r.settled = false → SettledBy s i bytes r (s.settle i bytes))) ∧
    s.perPeer.length ≤ TOTAL_INTAKE_REQUESTS := by
  have h : s.Ledgers := hrun.invariant ledgers_empty fun _ _ _ h _ hstep => ledgers_step h hstep
  refine ⟨h.perPeer, h.all, fun now hnow => ⟨fun p => (h.peers p).totals hnow,
    h.total.totals hnow⟩, fun charge now => ⟨Charge.counted_of_window,
    Charge.window_of_counted⟩, ?_, h.size⟩
  intro i r bytes hget hbytes
  exact ⟨settle_settled hget, fun hunsettled => settledBy h hget hunsettled hbytes⟩

/-! ## A peer that settles for less -/

/-- A peer reserves and settles, and another one reserves a bucket later. -/
def settledThenReserved : Intake Nat :=
  ((empty.reserveIntake 1 100 0).settle 0 40).reserveIntake 2 70 BUCKET_MS

theorem run_settledThenReserved : Run Step always empty settledThenReserved := by
  have hreserve : Step empty () (empty.reserveIntake 1 100 0) := .reserve (Nat.le_refl 0)
  have hsettle : Step (empty.reserveIntake 1 100 0) ()
      ((empty.reserveIntake 1 100 0).settle 0 40) := .settle rfl (by decide)
  exact .next (.next (.next .start trivial hreserve) trivial hsettle) trivial
    (.reserve (Nat.zero_le _))

theorem rolling_limit_settled : settledThenReserved.total.totals BUCKET_MS = ⟨110, 2⟩ ∧
    settledThenReserved.perPeer.length ≤ TOTAL_INTAKE_REQUESTS :=
  ⟨((rolling_limit run_settledThenReserved).2.2.1 BUCKET_MS (by decide)).2.trans (by decide),
    (rolling_limit run_settledThenReserved).2.2.2.2.2⟩

end Intake

end IpfsNode
