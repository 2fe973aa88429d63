import IpfsNode.Tally
import IpfsNode.Transition
import Mathlib.Data.Int.Basic
import Mathlib.Logic.Function.Basic

/-!
# Reservations of free space

Every upload and every incoming copy measures the free space and then claims the
bytes it may write, so that what runs already is counted against what was
measured. Between the two steps others write and release. A claim that is
released takes what it wrote out of the counter, but not out of a measurement
made before; `reserve_survives` says what holds in runs without that.
-/

namespace IpfsNode

open TransitionSystem

/-! ## The code -/

/-- Whether `requestedBytes` can be written without eating into the reserve. -/
def checkDiskReserve (availableBytes reserveBytes requestedBytes : Int) : Bool :=
  !decide (availableBytes - requestedBytes < reserveBytes)

structure ClaimRequest where
  bytes : Nat
  availableBytes : Nat
  reserveBytes : Nat
deriving DecidableEq, Repr

/-- The new counter, if what is promised already leaves room. -/
def claimSpace (claimed : Nat) (request : ClaimRequest) : Option Nat :=
  let remaining : Int := request.availableBytes - claimed
  if checkDiskReserve remaining request.reserveBytes request.bytes then
    some (claimed + request.bytes)
  else none

/-- Work that was promised space. `since` is what it wrote since each request
measured the free space. -/
structure Claim where
  bytes : Nat
  released : Bool
  written : Nat
  since : Nat → Nat

/-- The counter goes back once. -/
def Claim.release (claim : Claim) (claimed : Nat) : Nat × Claim :=
  if claim.released then (claimed, claim)
  else (claimed - claim.bytes, { claim with released := true })

/-! ## Any number of uploads and copies -/

/-- The volume, the counter, and the requests. -/
structure Space where
  free : Nat
  claimed : Nat
  claims : List Claim
  /-- The free space each request measured. -/
  measured : Nat → Option Nat

inductive SpaceAction where
  | measure (request : Nat)
  | claim (request bytes : Nat)
  | write (claim bytes : Nat)
  | release (claim : Nat)
deriving DecidableEq, Repr

def Claim.measuredBy (request : Nat) (claim : Claim) : Claim :=
  { claim with since := Function.update claim.since request 0 }

def Claim.write (bytes : Nat) (claim : Claim) : Claim :=
  { claim with written := claim.written + bytes, since := fun t => claim.since t + bytes }

namespace Space

/-- Work writes at most what it claimed, and nothing else writes. -/
inductive Step (reserve : Nat) : Space → SpaceAction → Space → Prop
  | measure {s : Space} {t : Nat} : Step reserve s (.measure t)
      { s with
        measured := Function.update s.measured t (some s.free)
        claims := s.claims.map (Claim.measuredBy t) }
  | granted {s : Space} {t bytes available claimed : Nat} (h : s.measured t = some available)
      (hclaim : claimSpace s.claimed ⟨bytes, available, reserve⟩ = some claimed) :
      Step reserve s (.claim t bytes)
        { s with claimed, claims := s.claims ++ [⟨bytes, false, 0, fun _ => 0⟩] }
  | refused {s : Space} {t bytes available : Nat} (h : s.measured t = some available)
      (hclaim : claimSpace s.claimed ⟨bytes, available, reserve⟩ = none) :
      Step reserve s (.claim t bytes) s
  | write {s : Space} {i bytes : Nat} {claim : Claim} (h : s.claims[i]? = some claim)
      (hclaim : claim.written + bytes ≤ claim.bytes) (hfree : bytes ≤ s.free) :
      Step reserve s (.write i bytes)
        { s with free := s.free - bytes, claims := s.claims.set i (claim.write bytes) }
  | release {s : Space} {i : Nat} {claim : Claim} (h : s.claims[i]? = some claim) :
      Step reserve s (.release i)
        { s with
          claimed := (claim.release s.claimed).1
          claims := s.claims.set i (claim.release s.claimed).2 }

/-- Nothing is running, and the reserve is free. -/
structure Starting (reserve : Nat) (s : Space) : Prop where
  free : reserve ≤ s.free
  claimed : s.claimed = 0
  claims : s.claims = []
  measured : ∀ t, s.measured t = none

end Space

/-- What a claim counts for until it is released. -/
def Claim.outstanding (claim : Claim) : Nat := if claim.released then 0 else claim.bytes

/-- What the work of a claim may still write. -/
def Claim.unwritten (claim : Claim) : Nat :=
  if claim.released then 0 else claim.bytes - claim.written

namespace Space

/-- No claim is made on a measurement that misses writes of released work, and
nothing is written for a released claim. -/
def Careful (s : Space) : SpaceAction → Prop
  | .claim t _ => ∀ claim ∈ s.claims, claim.released = true → claim.since t = 0
  | .write i _ => ∀ claim, s.claims[i]? = some claim → claim.released = false
  | _ => True

/-! ## The counter -/

theorem claimSpace_eq_some {claimed claimed' : Nat} {request : ClaimRequest}
    (h : claimSpace claimed request = some claimed') : claimed' = claimed + request.bytes ∧
      request.reserveBytes + claimed + request.bytes ≤ request.availableBytes := by
  rw [claimSpace] at h
  split at h
  case isTrue hallowed =>
    cases h
    have hroom : ¬ ((request.availableBytes : Int) - claimed - request.bytes <
        request.reserveBytes) := by simpa [checkDiskReserve] using hallowed
    omega
  case isFalse => cases h

theorem outstanding_release {claim : Claim} {claims : List Claim} {i : Nat}
    (h : claims[i]? = some claim) :
    (claim.release (claims.tally Claim.outstanding)).1 =
      (claims.set i (claim.release (claims.tally Claim.outstanding)).2).tally
        Claim.outstanding := by
  have hset := List.tally_set (claim.release (claims.tally Claim.outstanding)).2 Claim.outstanding h
  have hle := List.le_tally Claim.outstanding (List.mem_of_getElem? h)
  cases hreleased : claim.released with
  | true =>
      simp only [Claim.release, hreleased, if_true] at hset ⊢
      omega
  | false =>
      simp only [Claim.release, hreleased, Bool.false_eq_true, if_false, Claim.outstanding,
        if_true] at hset hle ⊢
      omega

/-- The counter is what is promised and not given back. -/
theorem counter_step {reserve : Nat} {s s' : Space} {a : SpaceAction}
    (h : s.claimed = s.claims.tally Claim.outstanding) (hstep : Step reserve s a s') :
    s'.claimed = s'.claims.tally Claim.outstanding := by
  cases hstep with
  | measure =>
      rw [List.tally_map]
      exact h
  | granted _ hclaim =>
      obtain ⟨rfl, -⟩ := claimSpace_eq_some hclaim
      rw [List.tally_append, ← h]
      rfl
  | refused => exact h
  | @write _ bytes claim hget =>
      have hset := List.tally_set (claim.write bytes) Claim.outstanding hget
      have hsame : (claim.write bytes).outstanding = claim.outstanding := rfl
      show s.claimed = (s.claims.set _ _).tally Claim.outstanding
      omega
  | release hget =>
      have hrelease := outstanding_release hget
      rw [← h] at hrelease
      exact hrelease

/-! ## The reserve -/

/-- What holds in runs whose steps are careful. -/
structure Reserved (reserve : Nat) (s : Space) : Prop where
  counter : s.claimed = s.claims.tally Claim.outstanding
  room : reserve + s.claims.tally Claim.unwritten ≤ s.free
  written : ∀ claim ∈ s.claims, claim.written ≤ claim.bytes
  since : ∀ claim ∈ s.claims, ∀ t, claim.since t ≤ claim.written
  /-- What was measured is free still, but for what was written since. -/
  measured : ∀ t available, s.measured t = some available →
    available = s.free + s.claims.tally (fun claim => claim.since t)

/-- A claim on a measurement that misses no write leaves the reserve alone. -/
theorem Reserved.room_of_claim {reserve : Nat} {s : Space} (h : s.Reserved reserve)
    {t bytes available : Nat} (hmeasured : s.measured t = some available)
    (hroom : reserve + s.claimed + bytes ≤ available)
    (hfresh : ∀ claim ∈ s.claims, claim.released = true → claim.since t = 0) :
    reserve + s.claims.tally Claim.unwritten + bytes ≤ s.free := by
  have havailable := h.measured t available hmeasured
  have hsplit : s.claims.tally (fun claim => claim.unwritten + claim.since t) ≤
      s.claims.tally Claim.outstanding := by
    refine List.tally_le fun claim hmem => ?_
    have hwritten := h.written claim hmem
    have hsince := h.since claim hmem t
    cases hreleased : claim.released with
    | true => simp [Claim.unwritten, Claim.outstanding, hreleased, hfresh claim hmem hreleased]
    | false =>
        simp only [Claim.unwritten, Claim.outstanding, hreleased, Bool.false_eq_true, if_false]
        omega
  have hsum : s.claims.tally (fun claim => claim.unwritten + claim.since t) =
      s.claims.tally Claim.unwritten + s.claims.tally (fun claim => claim.since t) :=
    List.sum_map_add
  have hcounter := h.counter
  omega

theorem reserved_step {reserve : Nat} {s s' : Space} {a : SpaceAction} (h : s.Reserved reserve)
    (hcareful : s.Careful a) (hstep : Step reserve s a s') : s'.Reserved reserve := by
  have hcounter := counter_step h.counter hstep
  cases hstep with
  | @measure t =>
      refine { counter := hcounter, room := ?_, written := ?_, since := ?_, measured := ?_ }
      · rw [List.tally_map]
        exact h.room
      · intro claim hmem
        obtain ⟨old, hold, rfl⟩ := List.mem_map.mp hmem
        exact h.written old hold
      · intro claim hmem t'
        obtain ⟨old, hold, rfl⟩ := List.mem_map.mp hmem
        have hold' := h.since old hold t'
        by_cases heq : t' = t
        · simp [Claim.measuredBy, heq]
        · simpa [Claim.measuredBy, Function.update_of_ne heq] using hold'
      · intro t' available hmeasured
        have hmeasured : Function.update s.measured t (some s.free) t' = some available :=
          hmeasured
        rw [List.tally_map]
        by_cases heq : t' = t
        · subst heq
          rw [Function.update_self] at hmeasured
          cases hmeasured
          simp [Claim.measuredBy, List.tally_eq_zero]
        · rw [Function.update_of_ne heq] at hmeasured
          simpa [Claim.measuredBy, Function.update_of_ne heq] using h.measured t' _ hmeasured
  | granted hmeasured hclaim =>
      obtain ⟨-, hroom⟩ := claimSpace_eq_some hclaim
      have hfree := h.room_of_claim hmeasured hroom hcareful
      refine { counter := hcounter, room := ?_, written := ?_, since := ?_, measured := ?_ }
      · rw [List.tally_append, ← Nat.add_assoc]
        exact hfree
      · intro claim hmem
        rcases List.mem_append.mp hmem with hmem | hmem
        · exact h.written claim hmem
        · obtain rfl := List.mem_singleton.mp hmem
          exact Nat.zero_le _
      · intro claim hmem t'
        rcases List.mem_append.mp hmem with hmem | hmem
        · exact h.since claim hmem t'
        · obtain rfl := List.mem_singleton.mp hmem
          exact Nat.le_refl _
      · intro t' available' hmeasured'
        rw [List.tally_append]
        exact h.measured t' available' hmeasured'
  | refused => exact h
  | @write i bytes claim hget hclaim hfree =>
      have hheld : claim.released = false := hcareful claim hget
      refine { counter := hcounter, room := ?_, written := ?_, since := ?_, measured := ?_ }
      · have hset := List.tally_set (claim.write bytes) Claim.unwritten hget
        have hless : (claim.write bytes).unwritten + bytes = claim.unwritten := by
          simp only [Claim.unwritten, Claim.write, hheld, Bool.false_eq_true, if_false]
          omega
        have hroom := h.room
        show reserve + (s.claims.set i (claim.write bytes)).tally Claim.unwritten ≤
          s.free - bytes
        omega
      · intro other hmem
        rcases List.mem_or_eq_of_mem_set hmem with hmem | rfl
        · exact h.written other hmem
        · exact hclaim
      · intro other hmem t
        rcases List.mem_or_eq_of_mem_set hmem with hmem | rfl
        · exact h.since other hmem t
        · exact Nat.add_le_add_right (h.since claim (List.mem_of_getElem? hget) t) bytes
      · intro t available hmeasured
        have hset := List.tally_set (claim.write bytes) (fun claim => claim.since t) hget
        have hold := h.measured t available hmeasured
        simp only [Claim.write] at hset ⊢
        omega
  | @release i claim hget =>
      have hkept : (claim.release s.claimed).2.bytes = claim.bytes ∧
          (claim.release s.claimed).2.written = claim.written ∧
          (claim.release s.claimed).2.since = claim.since ∧
          (claim.release s.claimed).2.unwritten ≤ claim.unwritten := by
        cases hreleased : claim.released with
        | true => simp [Claim.release, hreleased]
        | false => simp [Claim.release, hreleased, Claim.unwritten]
      obtain ⟨hbytes, hwritten, hsince, hunwritten⟩ := hkept
      have hmem := List.mem_of_getElem? hget
      refine { counter := hcounter, room := ?_, written := ?_, since := ?_, measured := ?_ }
      · have hset := List.tally_set (claim.release s.claimed).2 Claim.unwritten hget
        have hroom := h.room
        show reserve + (s.claims.set i _).tally Claim.unwritten ≤ s.free
        omega
      · intro other hother
        rcases List.mem_or_eq_of_mem_set hother with hother | rfl
        · exact h.written other hother
        · rw [hbytes, hwritten]
          exact h.written claim hmem
      · intro other hother t
        rcases List.mem_or_eq_of_mem_set hother with hother | rfl
        · exact h.since other hother t
        · rw [hwritten, hsince]
          exact h.since claim hmem t
      · intro t available hmeasured
        have hset := List.tally_set (claim.release s.claimed).2 (fun claim => claim.since t) hget
        have hold := h.measured t available hmeasured
        rw [hsince] at hset
        show available = s.free + (s.claims.set i _).tally _
        omega

theorem Starting.reserved {reserve : Nat} {s : Space} (h : s.Starting reserve) :
    s.Reserved reserve where
  counter := by
    rw [h.claimed, h.claims]
    rfl
  room := by
    rw [h.claims]
    exact h.free
  written := by
    rw [h.claims]
    nofun
  since := by
    rw [h.claims]
    nofun
  measured := by
    intro t available hmeasured
    rw [h.measured] at hmeasured
    cases hmeasured

/-- However uploads and copies interleave, the counter is what is promised and
not given back. Where no claim is made on a measurement that misses writes of
released work, and no released work writes, all that is promised fits above the
reserve, and free space never falls into it. -/
theorem reserve_survives {reserve : Nat} {s₀ : Space} (h₀ : s₀.Starting reserve) :
    (∀ s, Run (Step reserve) always s₀ s → s.claimed = s.claims.tally Claim.outstanding) ∧
    ∀ s, Run (Step reserve) Careful s₀ s →
      reserve + s.claims.tally Claim.unwritten ≤ s.free ∧ reserve ≤ s.free := by
  constructor
  · intro s hrun
    exact hrun.invariant h₀.reserved.counter fun _ _ _ hcounter _ hstep =>
      counter_step hcounter hstep
  · intro s hrun
    have hreserved : s.Reserved reserve :=
      hrun.invariant h₀.reserved fun _ _ _ h hcareful hstep => reserved_step h hcareful hstep
    have hroom := hreserved.room
    exact ⟨hroom, by omega⟩

end Space

/-! ## A measurement that misses a release -/

namespace StaleMeasurement

def start : Space := { free := 100, claimed := 0, claims := [], measured := fun _ => none }

/-- A request claims forty bytes. -/
def claimed : Space :=
  { free := 100, claimed := 40, claims := [⟨40, false, 0, fun _ => 0⟩]
    measured := Function.update (fun _ => none) 0 (some 100) }

theorem starting : start.Starting 10 := ⟨by decide, rfl, rfl, fun _ => rfl⟩

theorem run_claimed : Run (Space.Step 10) Space.Careful start claimed := by
  have hmeasured : Run (Space.Step 10) Space.Careful start
      { start with measured := Function.update (fun _ => none) 0 (some 100) } :=
    .next (a := .measure 0) .start trivial .measure
  have hmeasure : { start with measured := Function.update (fun _ => none) 0 (some 100) }.measured 0
      = some 100 := rfl
  exact .next (a := .claim 0 40) hmeasured nofun (.granted hmeasure rfl)

/-- Another request measures, and only then the first one writes and ends. -/
theorem run_released : ∃ s, Run (Space.Step 10) always start s ∧ s.free = 60 ∧ s.claimed = 0 ∧
    s.claims.length = 1 ∧ s.claims.tally Claim.unwritten = 0 ∧ s.measured 1 = some 100 := by
  refine ⟨_, .next (a := .release 0) (.next (a := .write 0 40) (.next (a := .measure 1)
    run_claimed.free trivial .measure) trivial (.write rfl ?_ ?_)) trivial (.release rfl),
    rfl, rfl, rfl, rfl, rfl⟩ <;> decide

end StaleMeasurement

open StaleMeasurement in
theorem reserve_survives_oneClaim :
    10 + claimed.claims.tally Claim.unwritten ≤ claimed.free ∧ 10 ≤ claimed.free :=
  (Space.reserve_survives starting).2 claimed run_claimed

open StaleMeasurement in
/-- A claim on the older measurement is granted, and the reserve is written into. -/
theorem staleMeasurement_breaks_reserve : ∃ s granted full,
    Run (Space.Step 10) always start s ∧ Space.Step 10 s (.claim 1 90) granted ∧
    granted.free < 10 + granted.claims.tally Claim.unwritten ∧
    Run (Space.Step 10) always start full ∧ full.free < 10 := by
  obtain ⟨s, hrun, hfree, hclaimed, hlength, hunwritten, hmeasured⟩ := run_released
  have hclaim : claimSpace s.claimed ⟨90, 100, 10⟩ = some 90 := by
    rw [hclaimed]
    rfl
  have hgranted := Space.Step.granted hmeasured hclaim
  refine ⟨s, _, _, hrun, hgranted, ?_, .next (a := .write 1 60) (.next hrun trivial hgranted)
    trivial (@Space.Step.write 10 _ 1 60 ⟨90, false, 0, fun _ => 0⟩ ?_ ?_ ?_), ?_⟩
  · rw [List.tally_append, hunwritten, hfree]
    decide
  · rw [List.getElem?_append_right (Nat.le_of_eq hlength), hlength]
    rfl
  · decide
  · exact Nat.le_of_eq hfree.symm
  · show s.free - 60 < 10
    rw [hfree]
    decide

end IpfsNode
