import IpfsNode.CollectionRun

/-!
# Dry runs

A dry run of a collection pass plans for the node as it is. A real run plans for
the node after it cleared the tokens of interrupted uploads and dropped the
copies it hands over, so the two can plan differently. `dryRun_previews_iff`
says exactly when they do not: a leftover token must not be what keeps an
expired file, must not bring a file into the next batch of the handover or push
one out of it, and the bytes that eviction has to free must reach up to the same
temporary file.
-/

namespace IpfsNode

/-! ## What eviction takes -/

section Eviction

variable {Cid : Type} [DecidableEq Cid] {measures : GcMeasures} {proc : Process Cid}
variable {records : List (FileRecord Cid)} {now : Nat} {record : FileRecord Cid}

/-- Bytes of the files of a list before this one. -/
def olderBytes (files : List (FileRecord Cid)) (record : FileRecord Cid) : Nat :=
  ((files.takeWhile (·.cid ≠ record.cid)).map protectedStorageBytes).sum

/-- What is left on the disk without reclaimable bytes and expired files. -/
def GcMeasures.withoutExpired (measures : GcMeasures) (expired : List (FileRecord Cid)) : Int :=
  let reclaimable := min measures.blockstoreBytes (measures.reclaimableBytes.getD 0)
  estimateWithout (measures.blockstoreBytes - reclaimable : Int) expired

/-- Bytes that eviction has to free: down to the low watermark once the high
one is passed, and as many as the reserve is short of. -/
def GcMeasures.shortage (measures : GcMeasures) (expired : List (FileRecord Cid)) : Int :=
  let estimate := measures.withoutExpired expired
  max (if measures.overWatermark then estimate - measures.watermarks.lowWatermarkBytes else 0)
    (measures.reserveTarget - (measures.blockstoreBytes - estimate))

omit [DecidableEq Cid] in
theorem stillShort_iff {expired : List (FileRecord Cid)} {freed : Nat} :
    measures.stillShort (measures.withoutExpired expired - freed) = true ↔
      (freed : Int) < measures.shortage expired := by
  unfold GcMeasures.stillShort GcMeasures.shortage
  simp only [Bool.or_eq_true, Bool.and_eq_true, decide_eq_true_eq, lt_max_iff]
  cases measures.overWatermark <;> simp <;> omega

theorem stillShort_of_less {estimate : Int} {freed : Nat}
    (h : measures.stillShort (estimate - freed) = true) : measures.stillShort estimate = true := by
  unfold GcMeasures.stillShort at *
  simp only [Bool.or_eq_true, Bool.and_eq_true, decide_eq_true_eq] at *
  rcases h with ⟨hover, h⟩ | h
  · exact .inl ⟨hover, by omega⟩
  · exact .inr (by omega)

/-- Eviction takes the oldest files, as long as space is short without them. -/
theorem evictWhileShort_eq_filter (hnodup : (records.map (·.cid)).Nodup) (estimate : Int) :
    (evictWhileShort measures records estimate).1 = records.filter fun record =>
      measures.stillShort (estimate - olderBytes records record) := by
  induction records generalizing estimate with
  | nil => rfl
  | cons first rest ih =>
      rw [List.map_cons, List.nodup_cons] at hnodup
      have hfirst : olderBytes (first :: rest) first = 0 := by
        simp [olderBytes]
      have hrest : ∀ record ∈ rest, olderBytes (first :: rest) record =
          protectedStorageBytes first + olderBytes rest record := by
        intro record hmem
        have hne : first.cid ≠ record.cid := fun heq =>
          hnodup.1 (heq ▸ List.mem_map_of_mem hmem)
        simp [olderBytes, hne]
      unfold evictWhileShort
      split
      · rename_i hshort
        rw [List.filter_cons_of_pos (by simpa [hfirst] using hshort)]
        refine congrArg (first :: ·) ((ih hnodup.2 _).trans ?_)
        refine List.filter_congr fun record hmem => ?_
        rw [hrest record hmem]
        congr 1
        omega
      · rename_i henough
        refine (List.filter_eq_nil_iff.mpr fun record hmem hshort => henough ?_).symm
        exact stillShort_of_less hshort

omit [DecidableEq Cid] in
theorem estimateWithout_le (records : List (FileRecord Cid)) (estimate : Int) :
    estimateWithout estimate records ≤ estimate := by
  induction records generalizing estimate with
  | nil => exact le_refl _
  | cons record records ih =>
      refine (ih _).trans ?_
      show (if record.pinned then estimate - protectedStorageBytes record else estimate) ≤ estimate
      split
      · omega
      · exact le_refl _

omit [DecidableEq Cid] in
theorem shortage_le_zero (expired : List (FileRecord Cid))
    (hover : measures.overWatermark = false) (hunder : measures.underReserve = false) :
    measures.shortage expired ≤ 0 := by
  have hle := estimateWithout_le expired (measures.blockstoreBytes -
    min measures.blockstoreBytes (measures.reclaimableBytes.getD 0) : Int)
  have htarget : measures.reserveTarget = 0 := by
    unfold GcMeasures.underReserve at hunder
    unfold GcMeasures.reserveTarget
    split
    · rename_i available reserve havailable hreserve
      rw [havailable, hreserve] at hunder
      exact if_neg (of_decide_eq_false hunder)
    · rfl
  unfold GcMeasures.shortage GcMeasures.withoutExpired
  rw [hover, htarget]
  simp only [Bool.false_eq_true, if_false]
  omega

/-- The files a plan evicts: the oldest ones, up to the shortage. -/
theorem evicted_eq_filter (hnodup : (records.map (·.cid)).Nodup) :
    (planGarbageCollection measures proc records now).evicted =
      (planAlive proc records now).filter fun record =>
        (olderBytes (planAlive proc records now) record : Int)
          < measures.shortage (planExpired proc records now) := by
  have halive : ((planAlive proc records now).map (·.cid)).Nodup := nodup_planAlive hnodup
  unfold planGarbageCollection
  dsimp only
  split
  · refine (evictWhileShort_eq_filter halive _).trans (List.filter_congr fun record _ => ?_)
    exact Bool.eq_iff_iff.mpr (stillShort_iff.trans decide_eq_true_iff.symm)
  · rename_i hquiet
    rw [Bool.not_eq_true, Bool.or_eq_false_iff] at hquiet
    refine (List.filter_eq_nil_iff.mpr fun record _ hless => ?_).symm
    have := shortage_le_zero (planExpired proc records now) hquiet.1 hquiet.2
    have := of_decide_eq_true hless
    omega

end Eviction

/-! ## The files of the two plans -/

section Files

variable {Cid : Type} {config : PassConfig Cid} {env : Surroundings Cid}
variable {proc : Process Cid} {record after : FileRecord Cid}

/-- An upload owns a file as long as it runs, or for its leftover token. -/
theorem isAdmissionInFlight_eq : isAdmissionInFlight proc record =
    (isInterrupted proc record || proc.isActiveAdmission record.admissionId) := by
  unfold isAdmissionInFlight isInterrupted isAdmissionSettled
  cases record.admissionId with
  | none => rfl
  | some admissionId =>
      cases proc.isActiveAdmission (some admissionId) <;> simp

theorem not_active_of_interrupted (h : isInterrupted proc record = true) :
    proc.isActiveAdmission record.admissionId = false := by
  unfold isInterrupted at h
  simp only [Bool.and_eq_true, Bool.not_eq_true'] at h
  exact h.2

/-- The record once the token of an interrupted upload is gone. -/
def afterRecovery (proc : Process Cid) (record : FileRecord Cid) : FileRecord Cid :=
  if isInterrupted proc record then record.withoutAdmission else record

theorem Recovers.eq_stamped (h : Recovers proc record after) :
    after = record ∧ afterRecovery proc record = record ∨
      ∃ n, after = (afterRecovery proc record).stamped n := by
  unfold afterRecovery
  cases hinterrupted : isInterrupted proc record with
  | true => exact .inr (h.cleared hinterrupted)
  | false => exact .inl ⟨h.same hinterrupted, rfl⟩

theorem cid_afterRecovery : (afterRecovery proc record).cid = record.cid := by
  unfold afterRecovery
  split <;> rfl

theorem Recovers.cid_eq (h : Recovers proc record after) : after.cid = record.cid := by
  rcases h.eq_stamped with ⟨rfl, -⟩ | ⟨n, rfl⟩
  · rfl
  · exact cid_afterRecovery

theorem Recovers.isHandedOver_eq (h : Recovers proc record after) :
    isHandedOver config env after = isHandedOver config env record := by
  cases hinterrupted : isInterrupted proc record with
  | true =>
      obtain ⟨n, rfl⟩ := h.cleared hinterrupted
      rfl
  | false => rw [h.same hinterrupted]

/-- What planning reads of a file, after recovery and handover. -/
structure PlannedAs (proc : Process Cid) (record after : FileRecord Cid) : Prop where
  cid : after.cid = record.cid
  state : after.state = record.state
  createdAt : after.createdAt = record.createdAt
  expired : ∀ now, isExpired after now = isExpired record now
  bytes : protectedStorageBytes after = protectedStorageBytes record
  pinned : record.state ≠ .confirmed → after.pinned = record.pinned
  stage : record.state ≠ .confirmed → after.replicaStage = record.replicaStage
  flight : record.state ≠ .confirmed →
    isAdmissionInFlight proc after = proc.isActiveAdmission record.admissionId

theorem Recovers.plannedAs (h : Recovers proc record after) : PlannedAs proc record after := by
  cases hinterrupted : isInterrupted proc record with
  | true =>
      obtain ⟨n, rfl⟩ := h.cleared hinterrupted
      refine ⟨rfl, rfl, rfl, fun _ => rfl, rfl, fun _ => rfl, fun _ => rfl, fun _ => ?_⟩
      rw [not_active_of_interrupted hinterrupted]
      rfl
  | false =>
      obtain rfl := h.same hinterrupted
      refine ⟨rfl, rfl, rfl, fun _ => rfl, rfl, fun _ => rfl, fun _ => rfl, fun _ => ?_⟩
      rw [isAdmissionInFlight_eq, hinterrupted, Bool.false_or]

/-- Dropping the copy of a confirmed file changes nothing planning reads. -/
theorem PlannedAs.released {n : Nat} (h : PlannedAs proc record after)
    (hstate : after.state = .confirmed) :
    PlannedAs proc record ((after.released after.state).stamped n) where
  cid := h.cid
  state := h.state
  createdAt := h.createdAt
  expired := h.expired
  bytes := h.bytes
  pinned := fun hnot => absurd (h.state.symm.trans hstate) hnot
  stage := fun hnot => absurd (h.state.symm.trans hstate) hnot
  flight := fun hnot => absurd (h.state.symm.trans hstate) hnot

/-! ## Two plans of the same files -/

/-- A temporary file that may be evicted once leftover tokens are gone. -/
def isEvictable (proc : Process Cid) (now : Nat) (record : FileRecord Cid) : Bool :=
  record.state ≠ .confirmed && record.replicaStage.isNone && !isExpired record now
    && !proc.isActiveAdmission record.admissionId

/-- These files, oldest first. -/
def evictable (proc : Process Cid) (records : List (FileRecord Cid)) (now : Nat) :
    List (FileRecord Cid) :=
  (records.filter (isEvictable proc now)).insertionSort fun a b => a.createdAt ≤ b.createdAt

variable {records : List (FileRecord Cid)} {now : Nat} {f : FileRecord Cid → FileRecord Cid}

theorem mem_evictable : record ∈ evictable proc records now ↔
    record ∈ records ∧ isEvictable proc now record = true :=
  (List.mem_insertionSort _).trans List.mem_filter

/-- A leftover token keeps its file from being evicted. -/
theorem planAlive_eq_filter : planAlive proc records now =
    (evictable proc records now).filter fun record => !isInterrupted proc record := by
  have : IsTrans (FileRecord Cid) fun a b => a.createdAt ≤ b.createdAt := ⟨fun _ _ _ => le_trans⟩
  have : Std.Total fun a b : FileRecord Cid => a.createdAt ≤ b.createdAt :=
    ⟨fun a b => le_total a.createdAt b.createdAt⟩
  unfold evictable
  rw [List.filter_insertionSort, List.filter_filter]
  unfold planAlive
  refine congrArg _ (List.filter_congr fun record _ => ?_)
  unfold isEvictable
  rw [isAdmissionInFlight_eq, Bool.not_or]
  cases isInterrupted proc record <;> simp

/-- The files past their time that no running upload owns. -/
def expiredAfter (proc : Process Cid) (records : List (FileRecord Cid)) (now : Nat) :
    List (FileRecord Cid) :=
  records.filter fun record => isReclaimable record now
    && !proc.isActiveAdmission record.admissionId

theorem planExpired_map (h : ∀ record ∈ records, PlannedAs proc record (f record)) :
    planExpired proc (records.map f) now = (expiredAfter proc records now).map f := by
  unfold planExpired expiredAfter isReclaimable
  rw [List.filter_map]
  refine congrArg _ (List.filter_congr fun record hmem => ?_)
  have hplanned := h record hmem
  simp only [Function.comp_apply, hplanned.state, hplanned.expired]
  by_cases hstate : record.state = .confirmed
  · simp [hstate]
  · rw [hplanned.flight hstate]

theorem planAlive_map (h : ∀ record ∈ records, PlannedAs proc record (f record)) :
    planAlive proc (records.map f) now = (evictable proc records now).map f := by
  unfold planAlive evictable
  rw [List.filter_map,
    List.map_insertionSort _ fun a b : FileRecord Cid => a.createdAt ≤ b.createdAt]
  · refine congrArg _ (congrArg _ (List.filter_congr fun record hmem => ?_))
    have hplanned := h record hmem
    unfold isEvictable
    simp only [Function.comp_apply, hplanned.state, hplanned.expired]
    by_cases hstate : record.state = .confirmed
    · simp [hstate]
    · rw [hplanned.flight hstate, hplanned.stage hstate]
  · intro a ha b hb
    rw [(h a (List.mem_of_mem_filter ha)).createdAt, (h b (List.mem_of_mem_filter hb)).createdAt]

theorem shortage_map {measures : GcMeasures} (h : ∀ record ∈ records,
    record.state ≠ .confirmed ∧ PlannedAs proc record (f record)) :
    measures.shortage (records.map f) = measures.shortage records := by
  have hestimate : ∀ estimate : Int,
      estimateWithout estimate (records.map f) = estimateWithout estimate records := by
    induction records with
    | nil => exact fun _ => rfl
    | cons record records ih =>
        intro estimate
        obtain ⟨hstate, hplanned⟩ := h record List.mem_cons_self
        have htail := ih fun record hmem => h record (List.mem_cons_of_mem _ hmem)
        have hhead : (if (f record).pinned then estimate - protectedStorageBytes (f record)
            else estimate) =
            if record.pinned then estimate - protectedStorageBytes record else estimate := by
          rw [hplanned.pinned hstate, hplanned.bytes]
        exact (htail _).trans (congrArg (estimateWithout · records) hhead)
  unfold GcMeasures.shortage GcMeasures.withoutExpired
  rw [hestimate]

theorem olderBytes_map [DecidableEq Cid] (h : ∀ record ∈ records, PlannedAs proc record (f record))
    (hrecord : PlannedAs proc record (f record)) :
    olderBytes (records.map f) (f record) = olderBytes records record := by
  unfold olderBytes
  induction records with
  | nil => rfl
  | cons first records ih =>
      have hfirst := h first List.mem_cons_self
      have htail := ih fun record hmem => h record (List.mem_cons_of_mem _ hmem)
      rw [List.map_cons, List.takeWhile_cons, List.takeWhile_cons, hfirst.cid, hrecord.cid]
      split
      · rw [List.map_cons, List.map_cons, List.sum_cons, List.sum_cons, hfirst.bytes]
        rw [hrecord.cid] at htail
        rw [htail]
      · rfl

end Files

section Plans

variable {Cid : Type} [DecidableEq Cid] {proc : Process Cid} {measures measures' : GcMeasures}
variable {records : List (FileRecord Cid)} {now : Nat} {f : FileRecord Cid → FileRecord Cid}
variable {record : FileRecord Cid}

/-- The files a plan releases. -/
theorem mem_released_iff (hnodup : (records.map (·.cid)).Nodup) (hmem : record ∈ records) :
    record.cid ∈ (planGarbageCollection measures proc records now).released.map (·.cid) ↔
      record ∈ planExpired proc records now ∨ record ∈ planAlive proc records now ∧
        (olderBytes (planAlive proc records now) record : Int)
          < measures.shortage (planExpired proc records now) := by
  have hevicted : (planGarbageCollection measures proc records now).evicted = _ :=
    evicted_eq_filter hnodup
  have hreleased : (planGarbageCollection measures proc records now).released =
      planExpired proc records now ++ (planGarbageCollection measures proc records now).evicted :=
    rfl
  have hsub : ∀ other ∈ (planGarbageCollection measures proc records now).released,
      other ∈ records := fun other hother => (mem_released hother).1
  have hcid : record.cid ∈ (planGarbageCollection measures proc records now).released.map (·.cid) ↔
      record ∈ (planGarbageCollection measures proc records now).released := by
    refine ⟨fun hin => ?_, fun hin => List.mem_map_of_mem hin⟩
    obtain ⟨other, hother, hsame⟩ := List.mem_map.mp hin
    exact List.inj_on_of_nodup_map hnodup (hsub other hother) hmem hsame ▸ hother
  rw [hcid, hreleased, List.mem_append, hevicted, List.mem_filter, decide_eq_true_iff]

/-- A plan for the node as it is. -/
theorem mem_released_before (measures : GcMeasures) (now : Nat)
    (hnodup : (records.map (·.cid)).Nodup) (hmem : record ∈ records) :
    record.cid ∈ (planGarbageCollection measures proc records now).released.map (·.cid) ↔
      (isReclaimable record now = true ∧ isAdmissionInFlight proc record = false) ∨
      (isEvictable proc now record = true ∧ isInterrupted proc record = false ∧
        (olderBytes (planAlive proc records now) record : Int)
          < measures.shortage (planExpired proc records now)) := by
  rw [mem_released_iff hnodup hmem]
  refine or_congr ?_ ?_
  · unfold planExpired isReclaimable
    simp [List.mem_filter, hmem]
  · rw [planAlive_eq_filter, List.mem_filter, mem_evictable]
    simp [hmem, and_assoc]

/-- A plan for the node after recovery and handover. -/
theorem mem_released_after (measures' : GcMeasures) (now : Nat)
    (h : ∀ record ∈ records, PlannedAs proc record (f record))
    (hnodup : (records.map (·.cid)).Nodup) (hmem : record ∈ records) :
    record.cid ∈
        (planGarbageCollection measures' proc (records.map f) now).released.map (·.cid) ↔
      (isReclaimable record now = true ∧ proc.isActiveAdmission record.admissionId = false) ∨
      (isEvictable proc now record = true ∧ (olderBytes (evictable proc records now) record : Int)
        < measures'.shortage (expiredAfter proc records now)) := by
  have hplanned := h record hmem
  have hcids : (records.map f).map (·.cid) = records.map (·.cid) := by
    rw [List.map_map]
    exact List.map_congr_left fun record hmem => (h record hmem).cid
  have hsub : ∀ other ∈ expiredAfter proc records now,
      other.state ≠ .confirmed ∧ PlannedAs proc other (f other) := by
    intro other hother
    obtain ⟨hin, hexpired⟩ := List.mem_filter.mp hother
    unfold isReclaimable at hexpired
    simp only [Bool.and_eq_true, decide_eq_true_eq] at hexpired
    exact ⟨hexpired.1.1, h other hin⟩
  have holder : olderBytes ((evictable proc records now).map f) (f record) =
      olderBytes (evictable proc records now) record :=
    olderBytes_map (fun other hother => h other (mem_evictable.mp hother).1) hplanned
  have hin : f record ∈ records.map f := List.mem_map_of_mem hmem
  have hexpired : f record ∈ planExpired proc (records.map f) now ↔
      isReclaimable record now = true ∧ proc.isActiveAdmission record.admissionId = false := by
    unfold planExpired isReclaimable
    simp only [List.mem_filter, hin, true_and, hplanned.state, hplanned.expired]
    by_cases hstate : record.state = .confirmed
    · simp [hstate]
    · simp [hstate, hplanned.flight hstate]
  have halive : f record ∈ planAlive proc (records.map f) now ↔
      isEvictable proc now record = true := by
    unfold planAlive isEvictable
    simp only [List.mem_insertionSort, List.mem_filter, hin, true_and, hplanned.state,
      hplanned.expired]
    by_cases hstate : record.state = .confirmed
    · simp [hstate]
    · rw [hplanned.flight hstate, hplanned.stage hstate]
  rw [← hplanned.cid, mem_released_iff (hcids ▸ hnodup) hin, hexpired, halive, planAlive_map h,
    planExpired_map h, holder, shortage_map hsub]

/-- No expired file has a leftover token. -/
def NoExpiredLeftover (proc : Process Cid) (records : List (FileRecord Cid)) (now : Nat) : Prop :=
  ∀ record ∈ records, isInterrupted proc record = true → isReclaimable record now = false

omit [DecidableEq Cid] in
theorem NoExpiredLeftover.expiredAfter_eq (h : NoExpiredLeftover proc records now) :
    expiredAfter proc records now = planExpired proc records now := by
  unfold expiredAfter planExpired
  refine List.filter_congr fun record hmem => ?_
  cases hinterrupted : isInterrupted proc record with
  | true =>
      have hnot := h record hmem hinterrupted
      unfold isReclaimable at hnot
      rw [isReclaimable, hnot]
      rfl
  | false =>
      rw [isAdmissionInFlight_eq, hinterrupted, Bool.false_or]
      rfl

/-- The bytes to be freed reach up to the same temporary file, and no file with
a leftover token is among those before it. -/
def SameShortage (proc : Process Cid) (records : List (FileRecord Cid)) (now : Nat)
    (measures measures' : GcMeasures) : Prop :=
  ∀ record ∈ records, isEvictable proc now record = true →
    (isInterrupted proc record = false ∧ (olderBytes (planAlive proc records now) record : Int)
        < measures.shortage (planExpired proc records now) ↔
      (olderBytes (evictable proc records now) record : Int)
        < measures'.shortage (planExpired proc records now))

omit [DecidableEq Cid] in
/-- An evictable file is not past its time. -/
theorem not_reclaimable_of_evictable (h : isEvictable proc now record = true) :
    isReclaimable record now = false := by
  unfold isEvictable at h
  simp only [Bool.and_eq_true, Bool.not_eq_true'] at h
  unfold isReclaimable
  rw [h.1.2, Bool.and_false]

/-- The two plans release the same files exactly under these conditions. -/
theorem released_eq_iff (h : ∀ record ∈ records, PlannedAs proc record (f record))
    (hnodup : (records.map (·.cid)).Nodup) :
    (planGarbageCollection measures proc records now).released.map (·.cid) =
        (planGarbageCollection measures' proc (records.map f) now).released.map (·.cid) ↔
      NoExpiredLeftover proc records now ∧ SameShortage proc records now measures measures' := by
  constructor
  · intro heq
    have hleft : NoExpiredLeftover proc records now := by
      intro record hmem hinterrupted
      by_contra hreclaimable
      rw [Bool.not_eq_false] at hreclaimable
      have hafter := (mem_released_after measures' now h hnodup hmem).mpr
        (.inl ⟨hreclaimable, not_active_of_interrupted hinterrupted⟩)
      rw [← heq, mem_released_before measures now hnodup hmem] at hafter
      rcases hafter with ⟨-, hidle⟩ | ⟨-, hnot, -⟩
      · rw [isAdmissionInFlight_eq, hinterrupted] at hidle
        cases hidle
      · exact Bool.noConfusion (hinterrupted.symm.trans hnot)
    refine ⟨hleft, fun record hmem hevictable => ?_⟩
    have hnot := not_reclaimable_of_evictable hevictable
    have hboth := (mem_released_before measures now hnodup hmem).symm.trans
      (heq ▸ mem_released_after measures' now h hnodup hmem)
    rw [hleft.expiredAfter_eq] at hboth
    simpa [hnot, hevictable] using hboth
  · rintro ⟨hleft, hshortage⟩
    have hcid : ∀ list : List (FileRecord Cid), (∀ record ∈ list, record ∈ records) →
        (list.map f).map (·.cid) = list.map (·.cid) := by
      intro list hsub
      rw [List.map_map]
      exact List.map_congr_left fun record hmem => (h record (hsub record hmem)).cid
    have hcids := hcid records fun _ hmem => hmem
    have hbefore : (planGarbageCollection measures proc records now).released =
        planExpired proc records now ++ _ := congrArg (_ ++ ·) (evicted_eq_filter hnodup)
    have hafter : (planGarbageCollection measures' proc (records.map f) now).released =
        planExpired proc (records.map f) now ++ _ :=
      congrArg (_ ++ ·) (evicted_eq_filter (hcids ▸ hnodup))
    have hevicted : (planAlive proc records now).filter (fun record =>
          (olderBytes (planAlive proc records now) record : Int)
            < measures.shortage (planExpired proc records now)) =
        (evictable proc records now).filter fun record =>
          (olderBytes (evictable proc records now) record : Int)
            < measures'.shortage (planExpired proc records now) := by
      refine (congrArg (List.filter _) planAlive_eq_filter).trans ?_
      rw [List.filter_filter]
      refine List.filter_congr fun record hmem => ?_
      obtain ⟨hin, hevictable⟩ := mem_evictable.mp hmem
      refine Bool.eq_iff_iff.mpr ?_
      rw [Bool.and_eq_true, decide_eq_true_iff, decide_eq_true_iff, Bool.not_eq_true', and_comm]
      exact hshortage record hin hevictable
    have hpast : ∀ record ∈ planExpired proc records now, record ∈ records := fun record hmem =>
      List.mem_of_mem_filter hmem
    rw [hbefore, hafter, planExpired_map h, planAlive_map h, hleft.expiredAfter_eq,
      List.map_append, List.map_append, hcid _ hpast, hevicted, List.filter_map]
    refine congrArg (_ ++ ·) ?_
    have hsub : ∀ record ∈ (evictable proc records now), record ∈ records := fun record hmem =>
      (mem_evictable.mp hmem).1
    rw [hcid _ fun record hmem => hsub record (List.mem_of_mem_filter hmem)]
    refine congrArg (List.map _) (List.filter_congr fun record hmem => ?_)
    have holder : olderBytes ((evictable proc records now).map f) (f record) =
        olderBytes (evictable proc records now) record :=
      olderBytes_map (fun other hother => h other (hsub other hother)) (h record (hsub record hmem))
    have hexpired : ∀ other ∈ planExpired proc records now,
        other.state ≠ .confirmed ∧ PlannedAs proc other (f other) := by
      intro other hother
      obtain ⟨hin, hplanned⟩ := List.mem_filter.mp hother
      simp only [Bool.and_eq_true, decide_eq_true_eq] at hplanned
      exact ⟨hplanned.1.1, h other hin⟩
    simp only [Function.comp_apply, holder, shortage_map hexpired]

end Plans

section Compare

variable {Cid : Type} [LinearOrder Cid] {config : PassConfig Cid} {env : Surroundings Cid}
variable {s : Collector Cid} {proc : Process Cid} {record after : FileRecord Cid}

theorem Recovers.isSettledHeldFile_eq (h : Recovers proc record after) :
    isSettledHeldFile proc after = isSettledHeldFile proc (afterRecovery proc record) := by
  rcases h.eq_stamped with ⟨rfl, heq⟩ | ⟨n, rfl⟩
  · rw [heq]
  · rfl

theorem get_measuredWorld (config : PassConfig Cid) (env : Surroundings Cid)
    (hget : s.world.files.get record.cid = some record) :
    ∃ after, (measuredWorld config env s).files.get record.cid = some after ∧
      PlannedAs s.world.proc record after := by
  obtain ⟨recovered, hrecovered, hrecovers⟩ := get_recovered env hget
  unfold measuredWorld
  by_cases hmem : recovered ∈ handedOver config env (s.recovered env)
  · have hsettled := (mem_handedOver hmem).2
    unfold isSettledHeldFile at hsettled
    simp only [Bool.and_eq_true, decide_eq_true_eq] at hsettled
    obtain ⟨n, hafter⟩ := get_dropCopies_of_mem (w := env.recovered s.world)
      (nodup_of_sorted sorted_handedOver) hmem
    rw [hrecovers.cid_eq] at hafter
    exact ⟨_, hafter, hrecovers.plannedAs.released hsettled.1.1.1.1⟩
  · refine ⟨recovered, (get_dropCopies_of_notMem fun hin => hmem ?_).trans hrecovered,
      hrecovers.plannedAs⟩
    obtain ⟨dropped, hdropped, hcid⟩ := List.mem_map.mp hin
    have hcurrent := (mem_handedOver hdropped).1
    have hcurrent : (env.recovered s.world).files.get dropped.cid = some dropped := hcurrent
    rw [hcid, hrecovered] at hcurrent
    cases hcurrent
    exact hdropped

theorem proc_measuredWorld : (measuredWorld config env s).proc = s.world.proc :=
  proc_dropCopies.trans proc_recovered

theorem isSome_recovered (env : Surroundings Cid) (cid : Cid) :
    ((env.recovered s.world).files.get cid).isSome = (s.world.files.get cid).isSome := by
  cases hget : s.world.files.get cid with
  | none => rw [get_recovered_none env hget]
  | some record =>
      obtain ⟨after, hafter, -⟩ := get_recovered env hget
      rw [hafter]
      rfl

theorem isSome_measuredWorld (cid : Cid) :
    ((measuredWorld config env s).files.get cid).isSome = (s.world.files.get cid).isSome := by
  cases hget : s.world.files.get cid with
  | some record =>
      obtain rfl := Registry.cid_of_get hget
      obtain ⟨after, hafter, -⟩ := get_measuredWorld config env hget
      rw [hafter]
      rfl
  | none =>
      have hnone := get_recovered_none env hget
      unfold measuredWorld
      rw [get_dropCopies_of_notMem, hnone]
      intro hin
      obtain ⟨dropped, hdropped, rfl⟩ := List.mem_map.mp hin
      have hcurrent : (env.recovered s.world).files.get dropped.cid = some dropped :=
        (mem_handedOver hdropped).1
      rw [hnone] at hcurrent
      cases hcurrent

/-- A file as a real pass plans for it. -/
def measuredRecord (config : PassConfig Cid) (env : Surroundings Cid) (s : Collector Cid)
    (record : FileRecord Cid) : FileRecord Cid :=
  ((measuredWorld config env s).files.get record.cid).getD record

theorem records_measuredWorld : env.listing.records (measuredWorld config env s).files =
    (env.listing.records s.world.files).map (measuredRecord config env s) :=
  Listing.records_eq_map isSome_measuredWorld

theorem plannedAs_measuredRecord (hmem : record ∈ env.listing.records s.world.files) :
    PlannedAs s.world.proc record (measuredRecord config env s record) := by
  obtain ⟨after, hafter, hplanned⟩ := get_measuredWorld config env
    (Listing.mem_records.mp hmem)
  unfold measuredRecord
  rw [hafter]
  exact hplanned

/-! ## The handover -/

/-- The files a handover may take up, by their CIDs. -/
def settledCids (proc : Process Cid) (records : List (FileRecord Cid)) : List Cid :=
  (records.filter (isSettledHeldFile proc)).map (·.cid)

theorem settledCids_map {records : List (FileRecord Cid)} {f g : FileRecord Cid → FileRecord Cid}
    (h : ∀ record ∈ records, isSettledHeldFile proc (f record) = isSettledHeldFile proc (g record) ∧
      (f record).cid = (g record).cid) :
    settledCids proc (records.map f) = settledCids proc (records.map g) := by
  have hfilter : records.filter (isSettledHeldFile proc ∘ f) =
      records.filter (isSettledHeldFile proc ∘ g) :=
    List.filter_congr fun record hmem => (h record hmem).1
  unfold settledCids
  rw [List.filter_map, List.filter_map, List.map_map, List.map_map, hfilter]
  exact List.map_congr_left fun record hmem => (h record (List.mem_of_mem_filter hmem)).2

theorem mem_map_handedOver (config : PassConfig Cid) (env : Surroundings Cid)
    (hget : s.world.files.get record.cid = some record) :
    record.cid ∈ (handedOver config env s).map (·.cid) ↔
      isHandedOver config env record = true ∧ isSettledHeldFile s.world.proc record = true ∧
        isNext .demote (settledCids s.world.proc (env.listing.records s.world.files)) s.position
          record.cid = true := by
  have hcid : record.cid ∈ (handedOver config env s).map (·.cid) ↔
      record ∈ handedOver config env s := by
    refine ⟨fun hin => ?_, fun hin => List.mem_map_of_mem hin⟩
    obtain ⟨other, hother, hsame⟩ := List.mem_map.mp hin
    have hother' := (mem_handedOver hother).1
    rw [hsame, hget] at hother'
    cases hother'
    exact hother
  rw [hcid, handedOver, records_batch, List.mem_filter, List.mem_filter, List.mem_insertionSort,
    List.mem_filter, Listing.mem_records]
  simp only [hget, true_and]
  exact and_comm

/-- With leftover tokens gone, the next batch has the same files the holders confirm. -/
def SameHandover (config : PassConfig Cid) (env : Surroundings Cid) (s : Collector Cid) : Prop :=
  let records := env.listing.records s.world.files
  let proc := s.world.proc
  ∀ record ∈ records, isHandedOver config env record = true →
    (isSettledHeldFile proc record = true ∧
        isNext .demote (settledCids proc records) s.position record.cid = true ↔
      isSettledHeldFile proc (afterRecovery proc record) = true ∧
        isNext .demote (settledCids proc (records.map (afterRecovery proc))) s.position
          record.cid = true)

/-- The candidates of a handover after recovery. -/
theorem settledCids_recovered :
    settledCids (s.recovered env).world.proc (env.listing.records (s.recovered env).world.files) =
      settledCids s.world.proc
        ((env.listing.records s.world.files).map (afterRecovery s.world.proc)) := by
  have hproc : (s.recovered env).world.proc = s.world.proc := proc_recovered
  have hrecords : env.listing.records (s.recovered env).world.files =
      (env.listing.records s.world.files).map fun record =>
        ((env.recovered s.world).files.get record.cid).getD record :=
    Listing.records_eq_map (isSome_recovered env)
  rw [hproc, hrecords]
  refine settledCids_map fun record hmem => ?_
  obtain ⟨after, hafter, hrecovers⟩ := get_recovered env (Listing.mem_records.mp hmem)
  rw [hafter]
  exact ⟨hrecovers.isSettledHeldFile_eq, hrecovers.cid_eq.trans cid_afterRecovery.symm⟩

theorem demoted_eq_iff : (handedOver config env s).map (·.cid) =
    (handedOver config env (s.recovered env)).map (·.cid) ↔ SameHandover config env s := by
  have hafter : ∀ record ∈ env.listing.records s.world.files,
      (record.cid ∈ (handedOver config env (s.recovered env)).map (·.cid) ↔
        isHandedOver config env record = true ∧
          isSettledHeldFile s.world.proc (afterRecovery s.world.proc record) = true ∧
          isNext .demote (settledCids s.world.proc
            ((env.listing.records s.world.files).map (afterRecovery s.world.proc))) s.position
            record.cid = true) := by
    intro record hmem
    obtain ⟨after, hget, hrecovers⟩ := get_recovered env (Listing.mem_records.mp hmem)
    rw [← hrecovers.cid_eq] at hget ⊢
    rw [mem_map_handedOver config env (s := s.recovered env) hget, settledCids_recovered,
      hrecovers.isHandedOver_eq, ← hrecovers.isSettledHeldFile_eq]
    have hproc : (s.recovered env).world.proc = s.world.proc := proc_recovered
    rw [hproc]
    rfl
  constructor
  · intro heq record hmem hover
    have hbefore := mem_map_handedOver config env (Listing.mem_records.mp hmem)
    have hboth := hbefore.symm.trans (heq ▸ hafter record hmem)
    simpa [hover] using hboth
  · intro hsame
    have hsorted : ∀ s : Collector Cid,
        ((handedOver config env s).map (·.cid)).Pairwise (· < ·) := fun s =>
      List.pairwise_map.mpr sorted_handedOver
    refine (hsorted _).eq_of_mem_iff (hsorted _) fun {cid} => ?_
    by_cases hknown : ∃ record ∈ env.listing.records s.world.files, record.cid = cid
    · obtain ⟨record, hmem, rfl⟩ := hknown
      rw [mem_map_handedOver config env (Listing.mem_records.mp hmem), hafter record hmem]
      exact and_congr_right fun hover => hsame record hmem hover
    · refine iff_of_false (fun hin => hknown ?_) fun hin => hknown ?_
      · obtain ⟨record, hrecord, hcid⟩ := List.mem_map.mp hin
        exact ⟨record, Listing.mem_records.mpr (mem_handedOver hrecord).1, hcid⟩
      · obtain ⟨after, hrecord, rfl⟩ := List.mem_map.mp hin
        have hsome : (s.world.files.get after.cid).isSome = true := by
          have hcurrent : (env.recovered s.world).files.get after.cid = some after :=
            (mem_handedOver hrecord).1
          rw [← isSome_recovered env, hcurrent]
          rfl
        obtain ⟨record, hget⟩ := Option.isSome_iff_exists.mp hsome
        have hcid := Registry.cid_of_get hget
        exact ⟨record, Listing.mem_records.mpr (hcid ▸ hget), hcid⟩

/-! ## Preview and run -/

theorem retained_eq_of_released
    (h : (planFor config env s.world).released.map (·.cid) =
      (planFor config env (measuredWorld config env s)).released.map (·.cid)) :
    (planFor config env s.world).retained.map (·.cid) =
      (planFor config env (measuredWorld config env s)).retained.map (·.cid) := by
  have hretained : ∀ w : World Cid, (planFor config env w).retained.map (·.cid) =
      ((env.listing.records w.files).map (·.cid)).filter
        (· ∉ (planFor config env w).released.map (·.cid)) := by
    intro w
    rw [List.filter_map]
    rfl
  have hcids : (env.listing.records (measuredWorld config env s).files).map (·.cid) =
      (env.listing.records s.world.files).map (·.cid) := by
    rw [records_measuredWorld, List.map_map]
    exact List.map_congr_left fun record hmem => (plannedAs_measuredRecord hmem).cid
  rw [hretained, hretained, hcids, h]

/-- When a dry run foresees the real run from the same state. -/
structure Foreseen (config : PassConfig Cid) (env : Surroundings Cid) (s : Collector Cid) :
    Prop where
  handover : SameHandover config env s
  expired : NoExpiredLeftover s.world.proc (env.listing.records s.world.files) env.now
  evicted : SameShortage s.world.proc (env.listing.records s.world.files) env.now
    (measuresFor config env s.world) (measuresFor config env (measuredWorld config env s))

/-- A dry run changes nothing, and it reports what the real run does exactly
when leftover tokens and handed over copies make no difference to the plan. -/
theorem dryRun_previews_iff (config : PassConfig Cid) (env : Surroundings Cid) (force : Bool)
    (s : Collector Cid) :
    (runPass config env ⟨true, force⟩ s).2 = s ∧
    ((∃ preview report, (runPass config env ⟨true, force⟩ s).1 = .ok preview ∧
        (runPass config env ⟨false, force⟩ s).1 = .ok report ∧
        preview.releasedCids = report.releasedCids ∧
        preview.retainedCids = report.retainedCids ∧ preview.demoted = report.demoted) ↔
      Foreseen config env s) := by
  obtain ⟨preview, hdry, hpreview⟩ := runPass_dry config env force s
  obtain ⟨report, s', hreal, hreport⟩ := runPass_real config env force s
  have hplans : (planFor config env s.world).released.map (·.cid) =
      (planFor config env (measuredWorld config env s)).released.map (·.cid) ↔
      NoExpiredLeftover s.world.proc (env.listing.records s.world.files) env.now ∧
      SameShortage s.world.proc (env.listing.records s.world.files) env.now
        (measuresFor config env s.world) (measuresFor config env (measuredWorld config env s)) := by
    unfold planFor
    rw [records_measuredWorld, proc_measuredWorld]
    exact released_eq_iff (fun record hmem => plannedAs_measuredRecord hmem) Listing.nodup_records
  rw [hdry, hreal]
  refine ⟨rfl, ?_, ?_⟩
  · rintro ⟨_, _, ⟨rfl⟩, ⟨rfl⟩, hreleased, -, hdemoted⟩
    rw [hpreview.released, hreport.released] at hreleased
    rw [hpreview.demoted, hreport.demoted] at hdemoted
    obtain ⟨hexpired, hevicted⟩ := hplans.mp hreleased
    exact ⟨demoted_eq_iff.mp hdemoted, hexpired, hevicted⟩
  · intro hforeseen
    have hreleased := hplans.mpr ⟨hforeseen.expired, hforeseen.evicted⟩
    refine ⟨preview, report, rfl, rfl, ?_, ?_, ?_⟩
    · rw [hpreview.released, hreport.released, hreleased]
    · rw [hpreview.retained, hreport.retained, retained_eq_of_released hreleased]
    · rw [hpreview.demoted, hreport.demoted, demoted_eq_iff.mpr hforeseen.handover]

end Compare

/-! ## A leftover token -/

namespace Leftover

/-- An upload that died before it settled, and whose time is over. -/
def file : FileRecord Nat :=
  { cid := 7, name := "file", state := .temporary, createdAt := 0, expiresAt := some 5
    confirmedAt := none, fileSize := 1, storedBytes := 1, protectedBytes := none
    pinned := true, heldLocally := true, replicas := [], admissionId := some "upload"
    admissionSettledAt := none, replicaStage := none, revision := some 0 }

def collector : Collector Nat :=
  { world := { World.empty with
      files := { entries := [file], keyed := by decide, valid := by decide }
      pins := {7}
      blocks := {7}
      nextRevision := 1
      issued := {"upload"} }
    position := none }

def env : Surroundings Nat :=
  { content := Content.flat
    listing :=
      { order := List.insertionSort (· ≤ ·)
        perm := List.perm_insertionSort _
        canonical := fun cids cids' h => by
          refine List.Perm.eq_of_pairwise' (List.pairwise_insertionSort _ _)
            (List.pairwise_insertionSort _ _) ?_
          exact (List.perm_insertionSort _ _).trans (h.trans (List.perm_insertionSort _ _).symm) }
    answers := fun _ _ => .ok false
    disk := fun _ => { blockstoreBytes := 1, datastoreBytes := 1, availableBytes := 100 }
    now := 10 }

def config : PassConfig Nat :=
  { site :=
      { score := fun _ _ => 0
        config := { enabled := false, placement := [], ackQuorum := 1 }
        nodes := []
        selfPeerId := "a"
        collects := fun _ _ => True }
    watermarks := { highWatermarkBytes := 50, lowWatermarkBytes := 40 }
    diskReserveBytes := 10 }

end Leftover

open Leftover in
/-- The dry run reports that the file is kept, and the real run releases it. -/
theorem dryRun_keeps_leftover :
    ¬ ∃ preview report, (runPass config env ⟨true, false⟩ collector).1 = .ok preview ∧
      (runPass config env ⟨false, false⟩ collector).1 = .ok report ∧
      preview.releasedCids = report.releasedCids ∧
      preview.retainedCids = report.retainedCids ∧ preview.demoted = report.demoted := by
  rintro ⟨preview, report, hdry, hreal, hreleased, -⟩
  have hkept : (runPass config env ⟨true, false⟩ collector).1.map (·.releasedCids) = .ok [] := rfl
  have hgone : (runPass config env ⟨false, false⟩ collector).1.map (·.releasedCids) = .ok [7] :=
    rfl
  rw [hdry] at hkept
  rw [hreal] at hgone
  have hkept : preview.releasedCids = [] := Except.ok.inj hkept
  have hgone : report.releasedCids = [7] := Except.ok.inj hgone
  rw [hkept, hgone] at hreleased
  cases hreleased

end IpfsNode
