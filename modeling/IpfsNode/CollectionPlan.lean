import IpfsNode.DryRun
import Mathlib.Algebra.Order.Floor.Ring
import Mathlib.Data.Rat.Floor
import Mathlib.Tactic.Linarith

/-!
# What a collection plan takes

A plan splits the records in three: those whose time is over, those evicted for
space and those that stay. Eviction walks the files that may go from the oldest
on and stops at the first point where the space suffices, so what it takes is
the shortest such beginning of the list. The space suffices when the estimate is
down to the low watermark, if the high one is passed, and when what comes back
restores the reserve with a margin, if free space is below it.
-/

namespace IpfsNode

/-! ## When the space suffices -/

section Space

variable {Cid : Type} {measures : GcMeasures} {estimate : Int}

/-- What has to be true of the estimate for eviction to stop. -/
structure GcMeasures.Suffices (measures : GcMeasures) (estimate : Int) : Prop where
  watermark : measures.overWatermark = true → estimate ≤ measures.watermarks.lowWatermarkBytes
  reserve : ∀ available ∈ measures.availableBytes, ∀ reserve ∈ measures.reserveBytes,
    available < reserve →
      ⌈(1.25 : ℚ) * reserve⌉ - (available : Int) ≤ measures.blockstoreBytes - estimate

theorem ceil_reserve (reserve : Nat) :
    ⌈(1.25 : ℚ) * reserve⌉ = ((5 * reserve + 3) / 4 : Nat) := by
  have hlow : 4 * ((5 * reserve + 3) / 4) < 5 * reserve + 4 := by omega
  have hhigh : 5 * reserve ≤ 4 * ((5 * reserve + 3) / 4) := by omega
  generalize (5 * reserve + 3) / 4 = target at hlow hhigh
  have hlow : (4 * target : ℚ) < 5 * reserve + 4 := by exact_mod_cast hlow
  have hhigh : (5 * reserve : ℚ) ≤ 4 * target := by exact_mod_cast hhigh
  rw [Int.ceil_eq_iff, Int.cast_natCast]
  constructor <;> linarith

/-- Eviction stops exactly there. -/
theorem suffices_iff (h : estimate ≤ measures.blockstoreBytes) :
    measures.Suffices estimate ↔ measures.stillShort estimate = false := by
  have hreserve : measures.reserveTarget ≤ measures.blockstoreBytes - estimate ↔
      ∀ available ∈ measures.availableBytes, ∀ reserve ∈ measures.reserveBytes,
        available < reserve →
          ⌈(1.25 : ℚ) * reserve⌉ - (available : Int) ≤ measures.blockstoreBytes - estimate := by
    unfold GcMeasures.reserveTarget
    cases measures.availableBytes with
    | none => simpa using h
    | some available =>
        cases measures.reserveBytes with
        | none => simpa using h
        | some reserve =>
            simp only [Option.mem_def, Option.some.injEq, forall_eq', ceil_reserve]
            split
            · rename_i hbelow
              exact ⟨fun hle _ => hle, fun hle => hle hbelow⟩
            · rename_i hbelow
              exact ⟨fun _ hlt => absurd hlt hbelow, fun _ => by omega⟩
  unfold GcMeasures.stillShort
  rw [Bool.or_eq_false_iff, Bool.and_eq_false_iff, decide_eq_false_iff_not,
    decide_eq_false_iff_not, not_lt, not_lt, hreserve]
  constructor
  · intro h
    refine ⟨?_, h.reserve⟩
    cases hover : measures.overWatermark with
    | false => exact .inl rfl
    | true => exact .inr (h.watermark hover)
  · rintro ⟨hwatermark, hreserve⟩
    refine ⟨fun hover => hwatermark.resolve_left ?_, hreserve⟩
    rw [hover]
    exact Bool.noConfusion

end Space

/-! ## Oldest first -/

section Eviction

variable {Cid : Type} {measures : GcMeasures} {proc : Process Cid}
variable {records : List (FileRecord Cid)} {now : Nat} {record : FileRecord Cid}

/-- The same files by age, those of one moment in their old order. -/
structure OldestFirst (files sorted : List (FileRecord Cid)) : Prop where
  perm : sorted.Perm files
  ordered : sorted.Pairwise fun older newer => older.createdAt ≤ newer.createdAt
  stable : ∀ createdAt, sorted.filter (·.createdAt = createdAt) =
    files.filter (·.createdAt = createdAt)

theorem oldestFirst_insertionSort (files : List (FileRecord Cid)) :
    OldestFirst files (files.insertionSort fun a b => a.createdAt ≤ b.createdAt) := by
  have : IsTrans (FileRecord Cid) fun a b => a.createdAt ≤ b.createdAt := ⟨fun _ _ _ => le_trans⟩
  have : Std.Total fun a b : FileRecord Cid => a.createdAt ≤ b.createdAt :=
    ⟨fun a b => le_total a.createdAt b.createdAt⟩
  refine ⟨List.perm_insertionSort _ _, List.pairwise_insertionSort _ _, fun createdAt => ?_⟩
  rw [List.filter_insertionSort]
  refine List.Pairwise.insertionSort_eq (List.pairwise_filter.mpr ?_)
  refine List.pairwise_of_forall fun older newer holder hnewer => ?_
  rw [decide_eq_true_eq] at holder hnewer
  omega

/-- Bytes that the pins of these files protect. -/
def protectedBytesOf (files : List (FileRecord Cid)) : Nat :=
  (files.map protectedStorageBytes).sum

theorem estimateWithout_eq (estimate : Int) (files : List (FileRecord Cid)) :
    estimateWithout estimate files = estimate - protectedBytesOf (files.filter (·.pinned)) := by
  induction files generalizing estimate with
  | nil => simp [estimateWithout, protectedBytesOf]
  | cons record rest ih =>
      have hstep : estimateWithout estimate (record :: rest) = estimateWithout
          (if record.pinned then estimate - protectedStorageBytes record else estimate) rest := rfl
      rw [hstep, ih, List.filter_cons]
      split
      · simp only [protectedBytesOf, List.map_cons, List.sum_cons]
        omega
      · rfl

/-- Eviction takes the files before the first point where space is not short. -/
theorem exists_take_evictWhileShort (measures : GcMeasures) (records : List (FileRecord Cid))
    (estimate : Int) :
    ∃ count ≤ records.length,
      (evictWhileShort measures records estimate).1 = records.take count ∧
      (count = records.length ∨
        measures.stillShort (estimate - protectedBytesOf (records.take count)) = false) ∧
      ∀ fewer < count,
        measures.stillShort (estimate - protectedBytesOf (records.take fewer)) = true := by
  induction records generalizing estimate with
  | nil => exact ⟨0, le_rfl, rfl, .inl rfl, fun _ h => absurd h (Nat.not_lt_zero _)⟩
  | cons record rest ih =>
      unfold evictWhileShort
      by_cases hshort : measures.stillShort estimate = true
      · rw [if_pos hshort]
        obtain ⟨count, hle, htake, hstop, hfewer⟩ := ih (estimate - protectedStorageBytes record)
        have hsum (n : Nat) : estimate - protectedStorageBytes record -
            (protectedBytesOf (rest.take n) : Int) =
              estimate - protectedBytesOf ((record :: rest).take (n + 1)) := by
          simp only [protectedBytesOf, List.take_succ_cons, List.map_cons, List.sum_cons]
          omega
        refine ⟨count + 1, Nat.succ_le_succ hle, ?_, ?_, ?_⟩
        · rw [List.take_succ_cons, ← htake]
        · rw [← hsum]
          exact hstop.imp_left fun heq => by rw [heq, List.length_cons]
        · intro fewer hlt
          cases fewer with
          | zero => simpa [protectedBytesOf] using hshort
          | succ fewer =>
              rw [← hsum]
              exact hfewer fewer (by omega)
      · rw [if_neg hshort]
        refine ⟨0, Nat.zero_le _, rfl, .inr ?_, fun _ h => absurd h (Nat.not_lt_zero _)⟩
        simpa [protectedBytesOf] using hshort

theorem mem_planExpired : record ∈ planExpired proc records now ↔
    record ∈ records ∧ record.state ≠ .confirmed ∧ isAdmissionInFlight proc record = false ∧
      isExpired record now = true := by
  unfold planExpired
  rw [List.mem_filter, Bool.and_eq_true, Bool.and_eq_true, decide_eq_true_eq, Bool.not_eq_true']
  tauto

/-- Files that eviction may take: unconfirmed and before their time, with no
stage and no upload that owns them. -/
def mayEvict (proc : Process Cid) (now : Nat) (record : FileRecord Cid) : Bool :=
  record.state ≠ .confirmed && record.replicaStage.isNone && !isExpired record now
    && !isAdmissionInFlight proc record

theorem mayEvict_iff : mayEvict proc now record = true ↔
    record.state ≠ .confirmed ∧ record.replicaStage = none ∧ isExpired record now = false ∧
      isAdmissionInFlight proc record = false := by
  unfold mayEvict
  simp only [Bool.and_eq_true, decide_eq_true_eq, Option.isNone_iff_eq_none, Bool.not_eq_true']
  tauto

theorem withoutExpired_eq (expired : List (FileRecord Cid)) :
    measures.withoutExpired expired = measures.blockstoreBytes
      - min measures.blockstoreBytes (measures.reclaimableBytes.getD 0)
      - protectedBytesOf (expired.filter (·.pinned)) := by
  unfold GcMeasures.withoutExpired
  rw [estimateWithout_eq]

end Eviction

/-! ## The plan -/

section Plan

variable {Cid : Type} [DecidableEq Cid] {measures : GcMeasures} {proc : Process Cid}
variable {records : List (FileRecord Cid)} {now : Nat} {record : FileRecord Cid}

/-- Every record is released or retained, none is both. -/
theorem released_append_retained_perm (h : (records.map (·.cid)).Nodup) :
    ((planGarbageCollection measures proc records now).released ++
      (planGarbageCollection measures proc records now).retained).Perm records := by
  have hdistinct : ((planGarbageCollection measures proc records now).released.map
      (·.cid)).Nodup := nodup_released h
  set plan := planGarbageCollection measures proc records now with hplan
  have hretained : plan.retained =
      records.filter fun record => !decide (record.cid ∈ plan.released.map (·.cid)) :=
    List.filter_congr fun record _ => decide_not
  have hreleased : plan.released.Perm
      (records.filter fun record => decide (record.cid ∈ plan.released.map (·.cid))) := by
    refine (List.perm_ext_iff_of_nodup hdistinct.of_map (h.of_map.filter _)).mpr
      fun record => ?_
    rw [List.mem_filter, decide_eq_true_eq]
    constructor
    · exact fun hmem => ⟨(mem_released hmem).1, List.mem_map_of_mem hmem⟩
    · rintro ⟨hmem, hcid⟩
      obtain ⟨other, hother, hsame⟩ := List.mem_map.mp hcid
      obtain rfl := List.inj_on_of_nodup_map h (mem_released hother).1 hmem hsame
      exact hother
  rw [hretained]
  exact (hreleased.append_right _).trans (List.filter_append_perm _ _)

/-- Without a trigger there is nothing to make room for. -/
theorem planned_evicted_of_quiet (h : measures.overWatermark = false)
    (h' : measures.underReserve = false) :
    (planGarbageCollection measures proc records now).evicted = [] := by
  simp [planGarbageCollection, h, h']

/-- What a plan evicts when it was triggered. -/
theorem planned_evicted (h : (measures.overWatermark || measures.underReserve) = true) :
    (planGarbageCollection measures proc records now).evicted =
      (evictWhileShort measures (planAlive proc records now)
        (measures.withoutExpired (planExpired proc records now))).1 := by
  simp only [planGarbageCollection, h, if_true]
  rfl

/-- A plan splits the records by CID into those released for their age, those
evicted for space and those that stay. It releases no durable file and none an
upload owns, and evicts no stage. Eviction takes the shortest beginning of the
files that may go, oldest first, after which the space suffices, or all of them;
without a trigger, or when the space suffices already, it takes none. -/
theorem collection_plan_correct (hdistinct : (records.map (·.cid)).Nodup)
    (reclaimable : Option Int) :
    let measures := { measures with reclaimableBytes := reclaimable.map Int.toNat }
    let plan := planGarbageCollection measures proc records now
    let estimate := fun evicted : List (FileRecord Cid) =>
      (measures.blockstoreBytes : Int)
        - min (measures.blockstoreBytes : Int) (max 0 (reclaimable.getD 0))
        - protectedBytesOf (plan.expired.filter (·.pinned)) - protectedBytesOf evicted
    ((plan.expired ++ plan.evicted ++ plan.retained).Perm records ∧
      ((plan.expired ++ plan.evicted ++ plan.retained).map (·.cid)).Nodup) ∧
    (∀ record ∈ plan.expired ++ plan.evicted,
      record.state ≠ .confirmed ∧ isAdmissionInFlight proc record = false) ∧
    (∀ record ∈ plan.evicted, isExpired record now = false ∧ record.replicaStage = none) ∧
    (∀ record, record ∈ plan.expired ↔ record ∈ records ∧ record.state ≠ .confirmed ∧
      isAdmissionInFlight proc record = false ∧ isExpired record now = true) ∧
    ∃ alive, OldestFirst (records.filter (mayEvict proc now)) alive ∧
      (measures.overWatermark = false → measures.underReserve = false → plan.evicted = []) ∧
      (measures.overWatermark = true ∨ measures.underReserve = true →
        ∃ count ≤ alive.length, plan.evicted = alive.take count ∧
          (count = alive.length ∨ measures.Suffices (estimate (alive.take count))) ∧
          ∀ fewer < count, ¬measures.Suffices (estimate (alive.take fewer))) ∧
      (measures.Suffices (estimate []) → plan.evicted = []) := by
  intro measures plan estimate
  have hperm : (plan.expired ++ plan.evicted ++ plan.retained).Perm records :=
    released_append_retained_perm hdistinct
  have hreleased (record : FileRecord Cid) (hmem : record ∈ plan.expired ++ plan.evicted) :
      record.state ≠ .confirmed ∧ isAdmissionInFlight proc record = false :=
    (show _ ∧ _ from mem_released hmem).2
  have hestimate (evicted : List (FileRecord Cid)) : estimate evicted =
      measures.withoutExpired (planExpired proc records now) - protectedBytesOf evicted := by
    rw [withoutExpired_eq]
    have hreclaimable : (((reclaimable.map Int.toNat).getD 0 : Nat) : Int) =
        max 0 (reclaimable.getD 0) := by
      cases reclaimable with
      | none => rfl
      | some value =>
          simp only [Option.map_some, Option.getD_some]
          omega
    simp only [estimate, measures, plan, planGarbageCollection, ← hreclaimable, Nat.cast_min]
  have hsuffices (evicted : List (FileRecord Cid)) : measures.Suffices (estimate evicted) ↔
      measures.stillShort (measures.withoutExpired (planExpired proc records now)
        - protectedBytesOf evicted) = false := by
    rw [hestimate]
    refine suffices_iff ?_
    rw [withoutExpired_eq]
    omega
  have hsorted : OldestFirst (records.filter (mayEvict proc now)) (planAlive proc records now) :=
    oldestFirst_insertionSort _
  have hevicted (htrigger : measures.overWatermark = true ∨ measures.underReserve = true) :
      ∃ count ≤ (planAlive proc records now).length,
        plan.evicted = (planAlive proc records now).take count ∧
        (count = (planAlive proc records now).length ∨
          measures.Suffices (estimate ((planAlive proc records now).take count))) ∧
        ∀ fewer < count,
          ¬measures.Suffices (estimate ((planAlive proc records now).take fewer)) := by
    obtain ⟨count, hle, htake, hstop, hfewer⟩ := exists_take_evictWhileShort measures
      (planAlive proc records now) (measures.withoutExpired (planExpired proc records now))
    refine ⟨count, hle, ?_, ?_, fun fewer hlt hsuff => ?_⟩
    · rw [← htake]
      exact planned_evicted (by simpa using htrigger)
    · exact hstop.imp_right (hsuffices _).mpr
    · exact Bool.noConfusion ((hfewer fewer hlt).symm.trans ((hsuffices _).mp hsuff))
  have hmem (record : FileRecord Cid) (h : record ∈ plan.evicted) :
      isExpired record now = false ∧ record.replicaStage = none := by
    by_cases htrigger : measures.overWatermark = true ∨ measures.underReserve = true
    · obtain ⟨count, -, htake, -⟩ := hevicted htrigger
      rw [htake] at h
      have h := (List.mem_filter.mp (hsorted.perm.mem_iff.mp (List.mem_of_mem_take h))).2
      obtain ⟨-, hstage, hexpired, -⟩ := mayEvict_iff.mp h
      exact ⟨hexpired, hstage⟩
    · simp only [not_or, Bool.not_eq_true] at htrigger
      rw [planned_evicted_of_quiet htrigger.1 htrigger.2] at h
      cases h
  refine ⟨⟨hperm, (hperm.map _).nodup_iff.mpr hdistinct⟩, hreleased, hmem,
    fun record => mem_planExpired, planAlive proc records now, hsorted,
    planned_evicted_of_quiet, hevicted, fun hsuff => ?_⟩
  by_cases htrigger : measures.overWatermark = true ∨ measures.underReserve = true
  · obtain ⟨count, -, htake, -, hfewer⟩ := hevicted htrigger
    rw [htake]
    cases count with
    | zero => rfl
    | succ count => exact absurd hsuff (hfewer 0 (Nat.succ_pos _))
  · simp only [not_or, Bool.not_eq_true] at htrigger
    exact planned_evicted_of_quiet htrigger.1 htrigger.2

end Plan

namespace Pressure

/-- An upload of 30 bytes that nobody confirmed yet. -/
def upload (cid createdAt : Nat) : FileRecord Nat :=
  { cid, name := "upload", state := .temporary, createdAt, expiresAt := some 100
    confirmedAt := none, fileSize := 30, storedBytes := 30, protectedBytes := none
    pinned := true, heldLocally := true, replicas := [], admissionId := none
    admissionSettledAt := none, replicaStage := none, revision := some 0 }

def measures : GcMeasures :=
  { blockstoreBytes := 100, reclaimableBytes := none, watermarks := ⟨80, 75⟩
    availableBytes := some 1000, reserveBytes := some 10 }

def idle : Process Nat := ⟨∅, ∅, []⟩

end Pressure

open Pressure in
/-- One of the two has to go, and the plan accounts for both. -/
theorem collection_plan_of_two :
    let plan := planGarbageCollection { measures with reclaimableBytes := some 0 } idle
      [upload 1 9, upload 2 5] 10
    (plan.expired ++ plan.evicted ++ plan.retained).Perm [upload 1 9, upload 2 5] :=
  (@collection_plan_correct Nat _ measures idle [upload 1 9, upload 2 5] 10 (by decide)
    (some 0)).1.1

end IpfsNode
