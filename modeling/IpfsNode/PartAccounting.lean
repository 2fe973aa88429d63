import IpfsNode.Tally
import IpfsNode.Transition
import Mathlib.Data.List.Dedup
import Mathlib.Data.List.Induction

/-!
# What the parts of an upload store

The parts of a request share one session, and each takes what it stored from
the counter of the session: the difference between when its import began and
when it is read. That is what the part stored as long as no other part creates
a block in between; `part_accounting` says that it is so only then, and that
the other figures are right however the imports interleave.
-/

namespace IpfsNode

open TransitionSystem

/-! ## The code -/

/-- Where the `put` of a part's facade stands. -/
inductive PartPutStage where
  /-- The blockstore is asked whether it has the block. -/
  | asking
  | answered (existed : Bool)
  /-- The block is in the blockstore. -/
  | written (existed : Bool)
  /-- The `put` of the session is through. -/
  | recorded
  /-- And the one of the facade. -/
  | counted
deriving DecidableEq, Repr

structure PartPut (Cid : Type) where
  part : Nat
  cid : Cid
  stage : PartPutStage
deriving DecidableEq, Repr

/-- What is read of a part when its import is done. -/
structure PartInfo where
  storedBytes : Nat
  protectedBytes : Nat
deriving DecidableEq, Repr

/-- `beginFile` for one part, until it is read. How many blocks the session had
created when it began and when it was read is history. -/
structure UploadPart (Cid : Type) where
  before : Nat
  referenced : List Cid
  protectedBytes : Nat
  info : Option PartInfo
  begunAt : Nat
  readAt : Nat
deriving DecidableEq, Repr

/-- A session over its blockstore; `created` tells for each block whose `put` it was. -/
structure PartedUpload (Cid : Type) where
  present : Cid → Bool
  bytesWritten : Nat
  created : List (Cid × Nat)
  puts : List (PartPut Cid)
  parts : List (UploadPart Cid)

namespace PartedUpload

section Code

variable {Cid : Type} [DecidableEq Cid]

def start (present : Cid → Bool) : PartedUpload Cid where
  present := present
  bytesWritten := 0
  created := []
  puts := []
  parts := []

def beginFile (s : PartedUpload Cid) : PartedUpload Cid :=
  { s with
    parts := s.parts ++
      [{ before := s.bytesWritten, referenced := [], protectedBytes := 0, info := none
         begunAt := s.created.length, readAt := 0 }] }

def setPut (s : PartedUpload Cid) (j : Nat) (p : PartPut Cid) (stage : PartPutStage) :
    PartedUpload Cid :=
  { s with puts := s.puts.set j { p with stage } }

/-- The session's `put` goes on when the block is in the blockstore. -/
def record (byteLength : Cid → Nat) (s : PartedUpload Cid) (p : PartPut Cid) (existed : Bool) :
    PartedUpload Cid :=
  if existed = false ∧ p.cid ∉ s.created.map (·.1) then
    { s with
      created := s.created ++ [(p.cid, p.part)]
      bytesWritten := s.bytesWritten + byteLength p.cid }
  else s

/-- The facade's `put` goes on when the session's is through. -/
def count (byteLength : Cid → Nat) (part : UploadPart Cid) (cid : Cid) : UploadPart Cid :=
  if cid ∈ part.referenced then part
  else
    { part with
      referenced := part.referenced ++ [cid]
      protectedBytes := part.protectedBytes + byteLength cid }

def read (s : PartedUpload Cid) (part : UploadPart Cid) : UploadPart Cid :=
  { part with
    info := some
      { storedBytes := s.bytesWritten - part.before, protectedBytes := part.protectedBytes }
    readAt := s.created.length }

inductive Event (Cid : Type) where
  | beginFile
  | put (part : Nat) (cid : Cid)
  | answer (put : Nat)
  | write (put : Nat)
  | record (put : Nat)
  | count (put : Nat)
  | read (part : Nat)
deriving DecidableEq, Repr

inductive Step (byteLength : Cid → Nat) :
    PartedUpload Cid → Event Cid → PartedUpload Cid → Prop
  | beginFile {s : PartedUpload Cid} : Step byteLength s .beginFile s.beginFile
  | put {s : PartedUpload Cid} {i : Nat} {part : UploadPart Cid} {cid : Cid}
      (hpart : s.parts[i]? = some part) (hopen : part.info = none) :
      Step byteLength s (.put i cid) { s with puts := s.puts ++ [⟨i, cid, .asking⟩] }
  | answer {s : PartedUpload Cid} {j : Nat} {p : PartPut Cid} (hput : s.puts[j]? = some p)
      (hstage : p.stage = .asking) :
      Step byteLength s (.answer j) (s.setPut j p (.answered (s.present p.cid)))
  | write {s : PartedUpload Cid} {j : Nat} {p : PartPut Cid} {existed : Bool}
      (hput : s.puts[j]? = some p) (hstage : p.stage = .answered existed) :
      Step byteLength s (.write j)
        { s.setPut j p (.written existed) with present := Function.update s.present p.cid true }
  | record {s : PartedUpload Cid} {j : Nat} {p : PartPut Cid} {existed : Bool}
      (hput : s.puts[j]? = some p) (hstage : p.stage = .written existed) :
      Step byteLength s (.record j) ((s.record byteLength p existed).setPut j p .recorded)
  | count {s : PartedUpload Cid} {j : Nat} {p : PartPut Cid} {part : UploadPart Cid}
      (hput : s.puts[j]? = some p) (hstage : p.stage = .recorded)
      (hpart : s.parts[p.part]? = some part) :
      Step byteLength s (.count j)
        { s.setPut j p .counted with
          parts := s.parts.set p.part (count byteLength part p.cid) }
  | read {s : PartedUpload Cid} {i : Nat} {part : UploadPart Cid}
      (hpart : s.parts[i]? = some part) (hopen : part.info = none)
      (hdone : ∀ p ∈ s.puts, p.part = i → p.stage = .counted) :
      Step byteLength s (.read i) { s with parts := s.parts.set i (s.read part) }

/-- The blocks that were created between when the part began and when it was read. -/
def meanwhile (created : List (Cid × Nat)) (part : UploadPart Cid) : List (Cid × Nat) :=
  (created.take part.readAt).drop part.begunAt

/-- What the `put`s of a part were the first to create. -/
def ownBytes (byteLength : Cid → Nat) (created : List (Cid × Nat)) (i : Nat) : Nat :=
  created.tally fun e => if e.2 = i then byteLength e.1 else 0

/-- No part creates a block while another one is not read yet. -/
def Apart (byteLength : Cid → Nat) (s : PartedUpload Cid) : Event Cid → Prop
  | .record j => ∀ p, s.puts[j]? = some p → p.stage = .written false →
      p.cid ∉ s.created.map (·.1) → 0 < byteLength p.cid →
      ∀ i part, s.parts[i]? = some part → part.info = none → i = p.part
  | _ => True

end Code

/-! ## The figures of one part -/

section Part

variable {Cid : Type} {byteLength : Cid → Nat} {created : List (Cid × Nat)}
  {puts : List (PartPut Cid)}
  {i j : Nat} {part : UploadPart Cid} {p p' : PartPut Cid}

/-- A part that was read. -/
structure Closed (byteLength : Cid → Nat) (created : List (Cid × Nat))
    (puts : List (PartPut Cid)) (i : Nat) (part : UploadPart Cid) (info : PartInfo) : Prop where
  readAt_le : part.readAt ≤ created.length
  storedBytes : info.storedBytes = (meanwhile created part).tally fun e => byteLength e.1
  protectedBytes : info.protectedBytes = part.protectedBytes
  before : ∀ e ∈ created.drop part.readAt, e.2 ≠ i
  counted : ∀ p ∈ puts, p.part = i → p.stage = .counted

structure PartAccounts (byteLength : Cid → Nat) (created : List (Cid × Nat))
    (puts : List (PartPut Cid)) (i : Nat) (part : UploadPart Cid) : Prop where
  begunAt_le : part.begunAt ≤ created.length
  before : part.before = (created.take part.begunAt).tally fun e => byteLength e.1
  after : ∀ e ∈ created.take part.begunAt, e.2 ≠ i
  referenced : part.referenced.Nodup
  mem_referenced : ∀ cid, cid ∈ part.referenced ↔
    ∃ p ∈ puts, p.part = i ∧ p.cid = cid ∧ p.stage = .counted
  protectedBytes : part.protectedBytes = part.referenced.tally byteLength
  closed : ∀ info, part.info = some info → Closed byteLength created puts i part info

/-- A block that an open part creates leaves the other parts as they are. -/
theorem PartAccounts.append (h : PartAccounts byteLength created puts i part) (e : Cid × Nat)
    (he : part.info = none ∨ e.2 ≠ i) :
    PartAccounts byteLength (created ++ [e]) puts i part := by
  have htake : (created ++ [e]).take part.begunAt = created.take part.begunAt :=
    List.take_append_of_le_length h.begunAt_le
  refine { h with begunAt_le := ?_, before := ?_, after := ?_, closed := fun info hinfo => ?_ }
  · have hle := h.begunAt_le
    rw [List.length_append]
    omega
  · rw [htake]
    exact h.before
  · rw [htake]
    exact h.after
  · have hclosed := h.closed info hinfo
    have hne : e.2 ≠ i := by
      rcases he with hopen | hne
      · rw [hopen] at hinfo
        cases hinfo
      · exact hne
    have hread : (created ++ [e]).take part.readAt = created.take part.readAt :=
      List.take_append_of_le_length hclosed.readAt_le
    refine { hclosed with readAt_le := ?_, storedBytes := ?_, before := ?_ }
    · have hle := hclosed.readAt_le
      rw [List.length_append]
      omega
    · rw [meanwhile, hread]
      exact hclosed.storedBytes
    · intro e' he'
      rw [List.drop_append_of_le_length hclosed.readAt_le] at he'
      rcases List.mem_append.mp he' with he' | he'
      · exact hclosed.before e' he'
      · rw [List.mem_singleton.mp he']
        exact hne

/-- A `put` that another part makes, or that an open part begins. -/
theorem PartAccounts.addPut (h : PartAccounts byteLength created puts i part)
    (hasking : p.stage = .asking) (hp : part.info = none ∨ p.part ≠ i) :
    PartAccounts byteLength created (puts ++ [p]) i part := by
  refine { h with mem_referenced := fun cid => ?_, closed := fun info hinfo => ?_ }
  · simp [h.mem_referenced, List.mem_append, or_and_right, exists_or, hasking]
  · have hclosed := h.closed info hinfo
    refine { hclosed with counted := fun q hq hpart => ?_ }
    rcases List.mem_append.mp hq with hq | hq
    · exact hclosed.counted q hq hpart
    · obtain rfl := List.mem_singleton.mp hq
      rcases hp with hopen | hne
      · rw [hopen] at hinfo
        cases hinfo
      · exact absurd hpart hne

/-- A `put` that goes on is found again, with what it was found for. -/
theorem exists_put_set (hput : puts[j]? = some p) {P : PartPut Cid → Prop}
    (h : P p → P p') : (∃ q ∈ puts, P q) → ∃ q ∈ puts.set j p', P q := by
  rintro ⟨q, hq, hfound⟩
  obtain ⟨k, hk⟩ := List.getElem?_of_mem hq
  by_cases hjk : j = k
  · subst hjk
    obtain rfl := Option.some.inj (hput.symm.trans hk)
    have hlt := (List.getElem?_eq_some_iff.mp hput).1
    exact ⟨p', List.mem_of_getElem? (List.getElem?_set_self hlt), h hfound⟩
  · exact ⟨q, List.mem_of_getElem? ((List.getElem?_set_ne hjk).trans hk), hfound⟩

theorem PartAccounts.setPut (h : PartAccounts byteLength created puts i part)
    (hput : puts[j]? = some p) (hstage : p.stage ≠ .counted) (hpart : p'.part = p.part)
    (hstage' : p'.stage ≠ .counted) :
    PartAccounts byteLength created (puts.set j p') i part := by
  refine { h with mem_referenced := fun cid => ?_, closed := fun info hinfo => ?_ }
  · rw [h.mem_referenced]
    constructor
    · exact exists_put_set hput fun hp => absurd hp.2.2 hstage
    · rintro ⟨q, hq, hfound⟩
      rcases List.mem_or_eq_of_mem_set hq with hq | rfl
      · exact ⟨q, hq, hfound⟩
      · exact absurd hfound.2.2 hstage'
  · have hclosed := h.closed info hinfo
    refine { hclosed with counted := fun q hq hqpart => ?_ }
    rcases List.mem_or_eq_of_mem_set hq with hq | rfl
    · exact hclosed.counted q hq hqpart
    · exact absurd (hclosed.counted p (List.mem_of_getElem? hput) (hpart ▸ hqpart)) hstage

/-- A `put` of another part is counted. -/
theorem PartAccounts.count_other (h : PartAccounts byteLength created puts i part)
    (hput : puts[j]? = some p) (hstage : p.stage ≠ .counted) (hpart : p.part ≠ i)
    (hpart' : p'.part = p.part) :
    PartAccounts byteLength created (puts.set j p') i part := by
  refine { h with mem_referenced := fun cid => ?_, closed := fun info hinfo => ?_ }
  · rw [h.mem_referenced]
    constructor
    · exact exists_put_set hput fun hp => absurd hp.2.2 hstage
    · rintro ⟨q, hq, hfound⟩
      rcases List.mem_or_eq_of_mem_set hq with hq | rfl
      · exact ⟨q, hq, hfound⟩
      · exact absurd (hpart' ▸ hfound.1) hpart
  · have hclosed := h.closed info hinfo
    refine { hclosed with counted := fun q hq hqpart => ?_ }
    rcases List.mem_or_eq_of_mem_set hq with hq | rfl
    · exact hclosed.counted q hq hqpart
    · exact absurd (hpart' ▸ hqpart) hpart

/-- A `put` of the part itself is. -/
theorem PartAccounts.count_own [DecidableEq Cid]
    (h : PartAccounts byteLength created puts i part) (hput : puts[j]? = some p)
    (hstage : p.stage ≠ .counted) (hpart : p.part = i) :
    PartAccounts byteLength created (puts.set j { p with stage := .counted }) i
      (count byteLength part p.cid) := by
  have hopen : part.info = none := by
    cases hinfo : part.info with
    | none => rfl
    | some info =>
      exact absurd ((h.closed info hinfo).counted p (List.mem_of_getElem? hput) hpart) hstage
  have hmem (cid : Cid) :
      (∃ q ∈ puts.set j { p with stage := .counted },
        q.part = i ∧ q.cid = cid ∧ q.stage = .counted) ↔ cid ∈ part.referenced ∨ cid = p.cid := by
    rw [h.mem_referenced]
    constructor
    · rintro ⟨q, hq, hfound⟩
      rcases List.mem_or_eq_of_mem_set hq with hq | rfl
      · exact .inl ⟨q, hq, hfound⟩
      · exact .inr hfound.2.1.symm
    · rintro (hfound | rfl)
      · exact exists_put_set hput (fun hp => absurd hp.2.2 hstage) hfound
      · have hlt := (List.getElem?_eq_some_iff.mp hput).1
        exact ⟨_, List.mem_of_getElem? (List.getElem?_set_self hlt), hpart, rfl, rfl⟩
  unfold count
  by_cases hin : p.cid ∈ part.referenced
  · rw [if_pos hin]
    refine { h with mem_referenced := fun cid => ?_, closed := fun info hinfo => ?_ }
    · rw [hmem, or_iff_left_of_imp]
      rintro rfl
      exact hin
    · rw [hopen] at hinfo
      cases hinfo
  · rw [if_neg hin]
    refine { h with referenced := ?_, mem_referenced := fun cid => ?_, protectedBytes := ?_
                    closed := fun info hinfo => ?_ }
    · exact List.nodup_append.mpr ⟨h.referenced, List.nodup_singleton _, by
        rintro a ha b hb rfl
        exact hin (List.mem_singleton.mp hb ▸ ha)⟩
    · rw [hmem, List.mem_append, List.mem_singleton]
    · rw [h.protectedBytes]
      simp
    · rw [hopen] at hinfo
      cases hinfo

/-- Reading the part takes the difference of the counter. -/
theorem PartAccounts.read (h : PartAccounts byteLength created puts i part)
    {bytesWritten : Nat} (hbytes : bytesWritten = created.tally fun e => byteLength e.1)
    (hdone : ∀ p ∈ puts, p.part = i → p.stage = .counted) :
    PartAccounts byteLength created puts i
      { part with
        info := some
          { storedBytes := bytesWritten - part.before, protectedBytes := part.protectedBytes }
        readAt := created.length } := by
  refine { h with closed := ?_ }
  rintro info ⟨⟩
  refine ⟨le_rfl, ?_, rfl, ?_, hdone⟩
  · have hsplit := congrArg (List.tally fun e => byteLength e.1)
      (List.take_append_drop part.begunAt created)
    rw [List.tally_append] at hsplit
    have hbefore := h.before
    show bytesWritten - part.before =
      List.tally (fun e => byteLength e.1) ((created.take created.length).drop part.begunAt)
    rw [List.take_length]
    omega
  · show ∀ e ∈ created.drop created.length, e.2 ≠ i
    rw [List.drop_length]
    nofun

/-- A part that begins. -/
theorem partAccounts_new {bytesWritten : Nat}
    (hbytes : bytesWritten = created.tally fun e => byteLength e.1)
    (hcreated : ∀ e ∈ created, e.2 ≠ i) (hputs : ∀ p ∈ puts, p.part ≠ i) :
    PartAccounts byteLength created puts i
      { before := bytesWritten, referenced := [], protectedBytes := 0, info := none
        begunAt := created.length, readAt := 0 } where
  begunAt_le := le_rfl
  before := by rw [List.take_length, hbytes]
  after := by rwa [List.take_length]
  referenced := List.nodup_nil
  mem_referenced cid := by
    simp only [List.not_mem_nil, false_iff]
    rintro ⟨p, hp, hpart, -⟩
    exact hputs p hp hpart
  protectedBytes := rfl
  closed := nofun

end Part

/-! ## The figures of the session -/

variable {Cid : Type} [DecidableEq Cid] {byteLength : Cid → Nat} {present : Cid → Bool}
  {s s' : PartedUpload Cid} {a : Event Cid} {j : Nat} {p : PartPut Cid}

structure Accounts (byteLength : Cid → Nat) (s : PartedUpload Cid) : Prop where
  bytesWritten : s.bytesWritten = s.created.tally fun e => byteLength e.1
  distinct : (s.created.map (·.1)).Nodup
  creators : ∀ e ∈ s.created, ∃ p ∈ s.puts, p.part = e.2 ∧ p.cid = e.1
  owners : ∀ p ∈ s.puts, p.part < s.parts.length
  parts : ∀ i part, s.parts[i]? = some part →
    PartAccounts byteLength s.created s.puts i part

omit [DecidableEq Cid] in
/-- A `put` that goes on stays with its part and its block. -/
theorem Accounts.owners_set (h : Accounts byteLength s) (hput : s.puts[j]? = some p)
    {stage : PartPutStage} :
    ∀ q ∈ s.puts.set j { p with stage }, q.part < s.parts.length := by
  intro q hq
  rcases List.mem_or_eq_of_mem_set hq with hq | rfl
  · exact h.owners q hq
  · exact h.owners p (List.mem_of_getElem? hput)

omit [DecidableEq Cid] in
theorem Accounts.creators_set (h : Accounts byteLength s) (hput : s.puts[j]? = some p)
    {stage : PartPutStage} :
    ∀ e ∈ s.created, ∃ q ∈ s.puts.set j { p with stage }, q.part = e.2 ∧ q.cid = e.1 :=
  fun e he => exists_put_set hput (fun hp => hp) (h.creators e he)

omit [DecidableEq Cid] in
/-- A `put` that goes on without being counted. -/
theorem Accounts.setPut (h : Accounts byteLength s) (hput : s.puts[j]? = some p)
    (hstage : p.stage ≠ .counted) {stage : PartPutStage} (hstage' : stage ≠ .counted) :
    Accounts byteLength (s.setPut j p stage) where
  bytesWritten := h.bytesWritten
  distinct := h.distinct
  creators := h.creators_set hput
  owners := h.owners_set hput
  parts := fun i part hpart => (h.parts i part hpart).setPut hput hstage rfl hstage'

theorem record_puts {existed : Bool} : (s.record byteLength p existed).puts = s.puts := by
  unfold PartedUpload.record
  split <;> rfl

theorem Accounts.record (h : Accounts byteLength s) (hput : s.puts[j]? = some p)
    (hstage : p.stage ≠ .counted) (existed : Bool) :
    Accounts byteLength (s.record byteLength p existed) := by
  unfold PartedUpload.record
  split
  · rename_i hnew
    have hmem := List.mem_of_getElem? hput
    refine ⟨?_, ?_, fun e he => ?_, h.owners, fun i part hpart => ?_⟩
    · have hbytes := h.bytesWritten
      simp only [List.tally_append, List.tally_cons, List.tally_nil]
      omega
    · rw [List.map_append]
      refine List.nodup_append.mpr ⟨h.distinct, List.nodup_singleton _, ?_⟩
      rintro cid hcid other hother rfl
      obtain rfl : cid = p.cid := List.mem_singleton.mp hother
      exact hnew.2 hcid
    · rcases List.mem_append.mp he with he | he
      · exact h.creators e he
      · rw [List.mem_singleton.mp he]
        exact ⟨p, hmem, rfl, rfl⟩
    · refine (h.parts i part hpart).append _ ?_
      by_cases hown : p.part = i
      · cases hinfo : part.info with
        | none => exact .inl rfl
        | some info =>
          exact absurd (((h.parts i part hpart).closed info hinfo).counted p hmem hown) hstage
      · exact .inr hown
  · exact h

omit [DecidableEq Cid] in
/-- A part is the one that began last, or was there before. -/
theorem part_beginFile {i : Nat} {part last : UploadPart Cid} {parts : List (UploadPart Cid)}
    (h : (parts ++ [last])[i]? = some part) :
    parts[i]? = some part ∨ i = parts.length ∧ part = last := by
  by_cases hlt : i < parts.length
  · exact .inl ((List.getElem?_append_left hlt).symm.trans h)
  · rw [List.getElem?_append_right (by omega), List.getElem?_singleton] at h
    split at h
    · exact .inr ⟨by omega, (Option.some.inj h).symm⟩
    · cases h

omit [DecidableEq Cid] in
theorem part_set {i k : Nat} {part part' : UploadPart Cid} {parts : List (UploadPart Cid)}
    (h : (parts.set k part')[i]? = some part) :
    k = i ∧ part = part' ∨ k ≠ i ∧ parts[i]? = some part := by
  by_cases hki : k = i
  · subst hki
    have hlt := (List.getElem?_eq_some_iff.mp h).1
    rw [List.length_set] at hlt
    rw [List.getElem?_set_self hlt] at h
    exact .inl ⟨rfl, (Option.some.inj h).symm⟩
  · exact .inr ⟨hki, (List.getElem?_set_ne hki).symm.trans h⟩

theorem Step.accounts (hstep : Step byteLength s a s') (h : Accounts byteLength s) :
    Accounts byteLength s' := by
  cases hstep with
  | beginFile =>
    refine ⟨h.bytesWritten, h.distinct, h.creators, fun p hp => ?_, fun i part hpart => ?_⟩
    · have hlt := h.owners p hp
      show p.part < (s.parts ++ _).length
      rw [List.length_append]
      omega
    · rcases part_beginFile hpart with hold | ⟨rfl, rfl⟩
      · exact h.parts i part hold
      · refine partAccounts_new h.bytesWritten (fun e he heq => ?_) fun p hp heq => ?_
        · obtain ⟨p, hp, hpart, -⟩ := h.creators e he
          have hlt := h.owners p hp
          omega
        · have hlt := h.owners p hp
          omega
  | @put i part cid hpart hopen =>
    refine ⟨h.bytesWritten, h.distinct, fun e he => ?_, fun p hp => ?_, fun k other hother => ?_⟩
    · obtain ⟨p, hp, hfound⟩ := h.creators e he
      exact ⟨p, List.mem_append_left _ hp, hfound⟩
    · rcases List.mem_append.mp hp with hp | hp
      · exact h.owners p hp
      · rw [List.mem_singleton.mp hp]
        exact (List.getElem?_eq_some_iff.mp hpart).1
    · refine (h.parts k other hother).addPut rfl ?_
      by_cases hik : i = k
      · subst hik
        obtain rfl := Option.some.inj (hpart.symm.trans hother)
        exact .inl hopen
      · exact .inr hik
  | answer hput hstage => exact h.setPut hput (by simp [hstage]) nofun
  | @write j p existed hput hstage =>
    have hset : Accounts byteLength (s.setPut j p (.written existed)) :=
      h.setPut hput (by simp [hstage]) nofun
    exact ⟨hset.bytesWritten, hset.distinct, hset.creators, hset.owners, hset.parts⟩
  | @record j p existed hput hstage =>
    have hnot : p.stage ≠ .counted := by simp [hstage]
    have hput' : (s.record byteLength p existed).puts[j]? = some p := by
      rw [record_puts]
      exact hput
    exact (h.record hput hnot existed).setPut hput' hnot nofun
  | @count j p part hput hstage hpart =>
    have hnot : p.stage ≠ .counted := by simp [hstage]
    refine ⟨h.bytesWritten, h.distinct, h.creators_set hput, fun q hq => ?_,
      fun i other hother => ?_⟩
    · rw [List.length_set]
      exact h.owners_set hput q hq
    · rcases part_set hother with ⟨rfl, rfl⟩ | ⟨hne, hother⟩
      · exact (h.parts _ _ hpart).count_own hput hnot rfl
      · exact (h.parts i other hother).count_other hput hnot hne rfl
  | @read i part hpart hopen hdone =>
    refine ⟨h.bytesWritten, h.distinct, h.creators, fun p hp => ?_, fun k other hother => ?_⟩
    · rw [List.length_set]
      exact h.owners p hp
    · rcases part_set hother with ⟨rfl, rfl⟩ | ⟨-, hother⟩
      · exact (h.parts _ _ hpart).read h.bytesWritten hdone
      · exact h.parts k other hother

/-! ## Which blocks the session created -/

/-- How the blockstore got from what was `present` to what it has. -/
structure Presence (present : Cid → Bool) (s : PartedUpload Cid) : Prop where
  kept : ∀ cid, present cid = true → s.present cid = true
  absent : ∀ p ∈ s.puts, p.stage = .answered false ∨ p.stage = .written false →
    present p.cid = false
  landed : ∀ p ∈ s.puts, p.stage ≠ .asking → p.stage ≠ .answered false →
    s.present p.cid = true
  created : ∀ cid ∈ s.created.map (·.1), present cid = false
  brought : ∀ cid, s.present cid = true → present cid = true ∨ cid ∈ s.created.map (·.1) ∨
    ∃ p ∈ s.puts, p.cid = cid ∧ p.stage = .written false

/-- A `put` that goes on where nothing depends on its having found the block
absent, or once the block is recorded. -/
theorem Presence.setPut (h : Presence present s) (hput : s.puts[j]? = some p)
    {stage : PartPutStage}
    (habsent : stage = .answered false ∨ stage = .written false → present p.cid = false)
    (hlanded : stage ≠ .asking → stage ≠ .answered false → s.present p.cid = true)
    (hcreated : p.stage = .written false → p.cid ∈ s.created.map (·.1)) :
    Presence present (s.setPut j p stage) := by
  refine ⟨h.kept, fun q hq hstage => ?_, fun q hq hasking hanswered => ?_, h.created,
    fun cid hcid => ?_⟩
  · rcases List.mem_or_eq_of_mem_set hq with hq | rfl
    · exact h.absent q hq hstage
    · exact habsent hstage
  · rcases List.mem_or_eq_of_mem_set hq with hq | rfl
    · exact h.landed q hq hasking hanswered
    · exact hlanded hasking hanswered
  · rcases h.brought cid hcid with hkept | hcreated' | hwritten
    · exact .inl hkept
    · exact .inr (.inl hcreated')
    · by_cases hin : cid ∈ s.created.map (·.1)
      · exact .inr (.inl hin)
      · refine .inr (.inr (exists_put_set hput (fun hp => ?_) hwritten))
        exact absurd (hp.1 ▸ hcreated hp.2) hin

theorem mem_created_record :
    p.cid ∈ (s.record byteLength p false).created.map (·.1) := by
  unfold PartedUpload.record
  split
  · simp
  · rename_i hold
    simpa using hold

theorem Presence.record (h : Presence present s) {existed : Bool}
    (habsent : existed = false → present p.cid = false) :
    Presence present (s.record byteLength p existed) := by
  unfold PartedUpload.record
  split
  · rename_i hnew
    refine ⟨h.kept, h.absent, h.landed, fun cid hcid => ?_, fun cid hcid => ?_⟩
    · simp only [List.map_append, List.mem_append, List.map_cons, List.map_nil,
        List.mem_singleton] at hcid
      rcases hcid with hcid | rfl
      · exact h.created cid hcid
      · exact habsent hnew.1
    · refine (h.brought cid hcid).imp id (Or.imp (fun hcid => ?_) id)
      rw [List.map_append]
      exact List.mem_append_left _ hcid
  · exact h

theorem Step.presence (hstep : Step byteLength s a s') (h : Presence present s) :
    Presence present s' := by
  cases hstep with
  | beginFile => exact ⟨h.kept, h.absent, h.landed, h.created, h.brought⟩
  | put hpart hopen =>
    refine ⟨h.kept, fun q hq hstage => ?_, fun q hq hasking hanswered => ?_, h.created,
      fun cid hcid => ?_⟩
    · rcases List.mem_append.mp hq with hq | hq
      · exact h.absent q hq hstage
      · rw [List.mem_singleton.mp hq] at hstage
        simp at hstage
    · rcases List.mem_append.mp hq with hq | hq
      · exact h.landed q hq hasking hanswered
      · rw [List.mem_singleton.mp hq] at hasking
        exact absurd rfl hasking
    · refine (h.brought cid hcid).imp id (Or.imp id ?_)
      rintro ⟨q, hq, hfound⟩
      exact ⟨q, List.mem_append_left _ hq, hfound⟩
  | @answer j p hput hstage =>
    refine h.setPut hput (fun hanswer => ?_) (fun _ hanswer => ?_) (by simp [hstage])
    · have hfound : s.present p.cid = false := by simpa using hanswer
      refine Bool.eq_false_iff.mpr fun hpresent => ?_
      rw [h.kept p.cid hpresent] at hfound
      cases hfound
    · cases hfound : s.present p.cid with
      | true => rfl
      | false => exact absurd (congrArg PartPutStage.answered hfound) hanswer
  | @write j p existed hput hstage =>
    have hmem := List.mem_of_getElem? hput
    have hbefore (cid : Cid) (hcid : s.present cid = true) : present cid = true ∨
        cid ∈ s.created.map (·.1) ∨
          ∃ q ∈ s.puts.set j { p with stage := .written existed },
            q.cid = cid ∧ q.stage = .written false :=
      (h.brought cid hcid).imp id (Or.imp id (exists_put_set hput (by simp [hstage])))
    have hupdate (cid : Cid) (hcid : s.present cid = true) :
        Function.update s.present p.cid true cid = true := by
      rw [Function.update_apply, hcid, ite_self]
    refine ⟨fun cid hcid => hupdate cid (h.kept cid hcid), fun q hq hwritten => ?_,
      fun q hq hasking hanswered => ?_, h.created, fun cid hcid => ?_⟩
    · rcases List.mem_or_eq_of_mem_set hq with hq | rfl
      · exact h.absent q hq hwritten
      · obtain rfl : existed = false := by simpa using hwritten
        exact h.absent p hmem (.inl hstage)
    · rcases List.mem_or_eq_of_mem_set hq with hq | rfl
      · exact hupdate q.cid (h.landed q hq hasking hanswered)
      · exact Function.update_self _ _ _
    · by_cases hsame : cid = p.cid
      · subst hsame
        cases existed with
        | true => exact hbefore p.cid (h.landed p hmem (by simp [hstage]) (by simp [hstage]))
        | false =>
          have hlt := (List.getElem?_eq_some_iff.mp hput).1
          exact .inr (.inr ⟨_, List.mem_of_getElem? (List.getElem?_set_self hlt), rfl, rfl⟩)
      · exact hbefore cid ((Function.update_of_ne hsame _ _).symm.trans hcid)
  | @record j p existed hput hstage =>
    have hmem := List.mem_of_getElem? hput
    have hlanded := h.landed p hmem (by simp [hstage]) (by simp [hstage])
    have hput' : (s.record byteLength p existed).puts[j]? = some p := by
      rw [record_puts]
      exact hput
    refine (h.record fun hexisted => h.absent p hmem ?_).setPut hput' (by simp) (fun _ _ => ?_) ?_
    · exact .inr (hexisted ▸ hstage)
    · unfold PartedUpload.record
      split <;> exact hlanded
    · intro hwritten
      obtain rfl : existed = false := by simpa using hstage.symm.trans hwritten
      exact mem_created_record
  | @count j p part hput hstage hpart =>
    have hlanded := h.landed p (List.mem_of_getElem? hput) (by simp [hstage]) (by simp [hstage])
    have hset : Presence present (s.setPut j p .counted) :=
      h.setPut hput (by simp) (fun _ _ => hlanded) (by simp [hstage])
    exact ⟨hset.kept, hset.absent, hset.landed, hset.created, hset.brought⟩
  | read hpart hopen hdone => exact ⟨h.kept, h.absent, h.landed, h.created, h.brought⟩

omit [DecidableEq Cid] in
theorem start_accounts : Accounts byteLength (start present) where
  bytesWritten := rfl
  distinct := List.nodup_nil
  creators := nofun
  owners := nofun
  parts := nofun

omit [DecidableEq Cid] in
theorem start_presence : Presence present (start present) where
  kept := fun _ h => h
  absent := nofun
  landed := nofun
  created := nofun
  brought := fun _ h => .inl h

omit [DecidableEq Cid] in
/-- Once no `put` is under way, the session created what it put and was not there. -/
theorem Presence.mem_created (h : Presence present s) (haccounts : Accounts byteLength s)
    (hdone : ∀ p ∈ s.puts, p.stage = .counted) (cid : Cid) :
    cid ∈ s.created.map (·.1) ↔ present cid = false ∧ ∃ p ∈ s.puts, p.cid = cid := by
  constructor
  · intro hcid
    obtain ⟨e, he, rfl⟩ := List.mem_map.mp hcid
    obtain ⟨p, hp, -, hpcid⟩ := haccounts.creators e he
    exact ⟨h.created e.1 hcid, p, hp, hpcid⟩
  · rintro ⟨habsent, p, hp, rfl⟩
    have hcounted := hdone p hp
    have hlanded := h.landed p hp (by simp [hcounted]) (by simp [hcounted])
    rcases h.brought p.cid hlanded with hkept | hcreated | ⟨q, hq, -, hwritten⟩
    · rw [hkept] at habsent
      cases habsent
    · exact hcreated
    · rw [hdone q hq] at hwritten
      cases hwritten

/-! ## What is read of a part -/

section Read

variable {i : Nat} {part : UploadPart Cid} {info : PartInfo} {created : List (Cid × Nat)}
  {puts : List (PartPut Cid)}

omit [DecidableEq Cid] in
theorem ownBytes_append (l l' : List (Cid × Nat)) :
    ownBytes byteLength (l ++ l') i = ownBytes byteLength l i + ownBytes byteLength l' i :=
  List.tally_append _ _ _

omit [DecidableEq Cid] in
theorem ownBytes_eq_zero {l : List (Cid × Nat)} (h : ∀ e ∈ l, e.2 ≠ i) :
    ownBytes byteLength l i = 0 :=
  List.tally_eq_zero fun e he => if_neg (h e he)

omit [DecidableEq Cid] in
/-- Counting one part's blocks gives all exactly if the others are empty. -/
theorem ownBytes_eq_iff (l : List (Cid × Nat)) :
    (l.tally fun e => byteLength e.1) = ownBytes byteLength l i ↔
      ∀ e ∈ l, e.2 ≠ i → byteLength e.1 = 0 := by
  induction l with
  | nil => simp [ownBytes]
  | cons e l ih =>
    have hle : ownBytes byteLength l i ≤ l.tally fun e => byteLength e.1 :=
      List.tally_le fun e _ => by split <;> omega
    have hcons : ownBytes byteLength (e :: l) i =
        (if e.2 = i then byteLength e.1 else 0) + ownBytes byteLength l i :=
      List.tally_cons _ _ _
    rw [List.tally_cons, List.forall_mem_cons, ← ih, hcons]
    split <;> omega

omit [DecidableEq Cid] in
/-- What a part created, it created before it was read. -/
theorem PartAccounts.ownBytes (h : PartAccounts byteLength created puts i part)
    (hinfo : part.info = some info) :
    ownBytes byteLength created i = ownBytes byteLength (meanwhile created part) i := by
  have hclosed := h.closed info hinfo
  have hbefore : ∀ e ∈ (created.take part.readAt).take part.begunAt, e.2 ≠ i := fun e he => by
    rw [List.take_take] at he
    exact h.after e (List.take_subset_take_left _ (Nat.min_le_left _ _) he)
  have hall : PartedUpload.ownBytes byteLength (created.take part.readAt) i +
      PartedUpload.ownBytes byteLength (created.drop part.readAt) i =
        PartedUpload.ownBytes byteLength created i := by
    rw [← ownBytes_append, List.take_append_drop]
  have hread : PartedUpload.ownBytes byteLength ((created.take part.readAt).take part.begunAt) i +
      PartedUpload.ownBytes byteLength (meanwhile created part) i =
        PartedUpload.ownBytes byteLength (created.take part.readAt) i := by
    rw [← ownBytes_append, meanwhile, List.take_append_drop]
  rw [ownBytes_eq_zero hclosed.before] at hall
  rw [ownBytes_eq_zero hbefore] at hread
  omega

theorem PartAccounts.protectedBytes_read (h : PartAccounts byteLength created puts i part)
    (hinfo : part.info = some info) :
    info.protectedBytes =
      (((puts.filter (·.part = i)).map (·.cid)).dedup).tally byteLength := by
  have hclosed := h.closed info hinfo
  rw [hclosed.protectedBytes, h.protectedBytes]
  refine (List.Perm.map byteLength ?_).sum_eq
  refine (List.perm_ext_iff_of_nodup h.referenced (List.nodup_dedup _)).mpr fun cid => ?_
  rw [h.mem_referenced, List.mem_dedup, List.mem_map]
  constructor
  · rintro ⟨p, hp, hpart, hcid, -⟩
    exact ⟨p, List.mem_filter.mpr ⟨hp, decide_eq_true hpart⟩, hcid⟩
  · rintro ⟨p, hp, hcid⟩
    obtain ⟨hp, hpart⟩ := List.mem_filter.mp hp
    have hpart := of_decide_eq_true hpart
    exact ⟨p, hp, hpart, hcid, hclosed.counted p hp hpart⟩

omit [DecidableEq Cid] in
theorem Accounts.storedBytes_iff (h : Accounts byteLength s) (hpart : s.parts[i]? = some part)
    (hinfo : part.info = some info) :
    info.storedBytes = ownBytes byteLength s.created i ↔
      ∀ e ∈ meanwhile s.created part, e.2 ≠ i → byteLength e.1 = 0 := by
  have haccounts := h.parts i part hpart
  rw [(haccounts.closed info hinfo).storedBytes, haccounts.ownBytes hinfo, ownBytes_eq_iff]

end Read

/-! ## Parts that are imported apart -/

/-- Since the part began, and while it was not read, only it created blocks. -/
def Alone (byteLength : Cid → Nat) (created : List (Cid × Nat)) (i : Nat)
    (part : UploadPart Cid) : Prop :=
  ∀ e ∈ (if part.info = none then created else created.take part.readAt).drop part.begunAt,
    e.2 ≠ i → byteLength e.1 = 0

def AllAlone (byteLength : Cid → Nat) (s : PartedUpload Cid) : Prop :=
  ∀ i part, s.parts[i]? = some part → Alone byteLength s.created i part

theorem record_alone {existed : Bool} (h : Accounts byteLength s)
    (halone : AllAlone byteLength s)
    (hapart : existed = false ∧ p.cid ∉ s.created.map (·.1) → 0 < byteLength p.cid →
      ∀ i part, s.parts[i]? = some part → part.info = none → i = p.part) :
    AllAlone byteLength (s.record byteLength p existed) := by
  unfold PartedUpload.record
  split
  · rename_i hnew
    intro i part hpart e he hne
    have haccounts := h.parts i part hpart
    have hbefore := halone i part hpart
    by_cases hopen : part.info = none
    · rw [Alone, if_pos hopen] at hbefore
      rw [if_pos hopen, List.drop_append_of_le_length haccounts.begunAt_le] at he
      rcases List.mem_append.mp he with he | he
      · exact hbefore e he hne
      · obtain rfl := List.mem_singleton.mp he
        by_contra hsize
        exact hne (hapart hnew (Nat.pos_of_ne_zero hsize) i part hpart hopen).symm
    · obtain ⟨info, hinfo⟩ := Option.ne_none_iff_exists'.mp hopen
      rw [Alone, if_neg hopen] at hbefore
      rw [if_neg hopen,
        List.take_append_of_le_length (haccounts.closed info hinfo).readAt_le] at he
      exact hbefore e he hne
  · exact halone

theorem Step.alone (hstep : Step byteLength s a s') (hok : Apart byteLength s a)
    (h : Accounts byteLength s) (halone : AllAlone byteLength s) : AllAlone byteLength s' := by
  cases hstep with
  | beginFile =>
    intro i part hpart
    rcases part_beginFile hpart with hold | ⟨rfl, rfl⟩
    · exact halone i part hold
    · show ∀ e ∈ s.created.drop s.created.length, _
      rw [List.drop_length]
      nofun
  | put | answer | write => exact halone
  | @record j p existed hput hstage =>
    refine record_alone h halone fun hnew hsize i part hpart hopen => ?_
    exact hok p hput (hnew.1 ▸ hstage) hnew.2 hsize i part hpart hopen
  | @count j p part hput hstage hpart =>
    intro i other hother
    rcases part_set hother with ⟨rfl, rfl⟩ | ⟨-, hother⟩
    · have hbefore := halone p.part part hpart
      unfold PartedUpload.count
      split <;> exact hbefore
    · exact halone i other hother
  | @read i part hpart hopen hdone =>
    intro k other hother
    rcases part_set hother with ⟨rfl, rfl⟩ | ⟨-, hother⟩
    · have hbefore := halone i part hpart
      rw [Alone, if_pos hopen] at hbefore
      show ∀ e ∈ (s.created.take s.created.length).drop part.begunAt, _
      rwa [List.take_length]
    · exact halone k other hother

/-! ## The accounts -/

/-- What an open part or a part that was read reports as stored. -/
def storedBytes (part : UploadPart Cid) : Nat := part.info.elim 0 (·.storedBytes)

omit [DecidableEq Cid] in
theorem tally_parts_le {parts : List (UploadPart Cid)} {f : UploadPart Cid → Nat} {g : Nat → Nat}
    (h : ∀ i part, parts[i]? = some part → f part ≤ g i) :
    parts.tally f ≤ (List.range parts.length).tally g := by
  induction parts using List.reverseRecOn with
  | nil => exact Nat.zero_le _
  | append_singleton parts part ih =>
    have hrest := ih fun i other hother =>
      h i other ((List.getElem?_append_left (List.getElem?_eq_some_iff.mp hother).1).trans hother)
    have hlast := h parts.length part (by simp)
    rw [List.length_append, List.length_singleton, List.range_succ, List.tally_append,
      List.tally_append, List.tally_cons, List.tally_cons, List.tally_nil, List.tally_nil]
    omega

omit [DecidableEq Cid] in
/-- Parts that report what they created report no more than there is. -/
theorem Accounts.sum_le (h : Accounts byteLength s)
    (hown : ∀ i part info, s.parts[i]? = some part → part.info = some info →
      info.storedBytes = ownBytes byteLength s.created i) :
    s.parts.tally storedBytes ≤ s.bytesWritten := by
  have hparts : s.parts.tally storedBytes ≤
      (List.range s.parts.length).tally (ownBytes byteLength s.created) := by
    refine tally_parts_le fun i part hpart => ?_
    cases hinfo : part.info with
    | none => simp [storedBytes, hinfo]
    | some info => simp [storedBytes, hinfo, hown i part info hpart hinfo]
  have hkeys := List.tally_keys (fun e : Cid × Nat => byteLength e.1) (·.2)
    (List.range s.parts.length) s.created List.nodup_range
  have hall : s.created.tally (fun e =>
      if e.2 ∈ List.range s.parts.length then byteLength e.1 else 0) ≤
        s.created.tally fun e => byteLength e.1 :=
    List.tally_le fun e _ => by split <;> omega
  rw [h.bytesWritten]
  exact hparts.trans (hkeys.le.trans hall)

/-- However the imports of the parts interleave, the counter of the session is
the size of the blocks it created, and a part's `protectedBytes` that of the
blocks it put. Its `storedBytes` is the size of the blocks that its own `put`s
created exactly if no other part created any between when it began and when it
was read; where this holds of all parts, they add up to no more than the counter. -/
theorem part_accounting (byteLength : Cid → Nat) (present : Cid → Bool) :
    (∀ s, Run (Step byteLength) always (start present) s →
      s.bytesWritten = (s.created.map (·.1)).tally byteLength ∧
      (s.created.map (·.1)).Nodup ∧
      ((∀ p ∈ s.puts, p.stage = .counted) → ∀ cid,
        cid ∈ s.created.map (·.1) ↔ present cid = false ∧ ∃ p ∈ s.puts, p.cid = cid) ∧
      ∀ i part info, s.parts[i]? = some part → part.info = some info →
        info.protectedBytes =
          (((s.puts.filter (·.part = i)).map (·.cid)).dedup).tally byteLength ∧
        (info.storedBytes = ownBytes byteLength s.created i ↔
          ∀ e ∈ meanwhile s.created part, e.2 ≠ i → byteLength e.1 = 0)) ∧
    ∀ s, Run (Step byteLength) (Apart byteLength) (start present) s →
      (∀ i part info, s.parts[i]? = some part → part.info = some info →
        info.storedBytes = ownBytes byteLength s.created i) ∧
      s.parts.tally storedBytes ≤ s.bytesWritten := by
  refine ⟨fun s hrun => ?_, fun s hrun => ?_⟩
  · have haccounts : Accounts byteLength s :=
      hrun.invariant start_accounts fun _ _ _ h _ hstep => hstep.accounts h
    have hpresence : Presence present s :=
      hrun.invariant start_presence fun _ _ _ h _ hstep => hstep.presence h
    refine ⟨?_, haccounts.distinct, hpresence.mem_created haccounts,
      fun i part info hpart hinfo => ⟨?_, haccounts.storedBytes_iff hpart hinfo⟩⟩
    · rw [List.tally_map]
      exact haccounts.bytesWritten
    · exact (haccounts.parts i part hpart).protectedBytes_read hinfo
  · obtain ⟨haccounts, halone⟩ := hrun.invariant
      (I := fun s => Accounts byteLength s ∧ AllAlone byteLength s) ⟨start_accounts, nofun⟩
      fun _ _ _ h hok hstep => ⟨hstep.accounts h.1, hstep.alone hok h.1 h.2⟩
    have hown : ∀ i part info, s.parts[i]? = some part → part.info = some info →
        info.storedBytes = ownBytes byteLength s.created i := by
      intro i part info hpart hinfo
      refine (haccounts.storedBytes_iff hpart hinfo).mpr ?_
      have hpartAlone := halone i part hpart
      rwa [Alone, if_neg (by simp [hinfo])] at hpartAlone
    exact ⟨hown, haccounts.sum_le hown⟩

/-! ## Two parts -/

section Overlap

/-- Blocks of ten bytes. -/
def tenBytes (_ : Nat) : Nat := 10

/-- The second part begins after the first was read. -/
theorem part_accounting_apart : ∃ s : PartedUpload Nat,
    s.parts.map storedBytes = [10, 10] ∧ s.parts.tally storedBytes ≤ s.bytesWritten ∧
      s.bytesWritten = (s.created.map (·.1)).tally tenBytes := by
  have hstart : Run (Step tenBytes) (Apart tenBytes) (start fun _ => false)
      (start fun _ => false) := .start
  have hput := hstart.next (a := Event.beginFile) trivial .beginFile
    |>.next (a := Event.put 0 7) trivial (@Step.put _ _ _ _ 0 _ 7 rfl rfl)
  have hwritten := hput.next (a := Event.answer 0) trivial (@Step.answer _ _ _ _ 0 _ rfl rfl)
    |>.next (a := Event.write 0) trivial (@Step.write _ _ _ _ 0 _ _ rfl rfl)
  have hrecorded := hwritten.next (a := Event.record 0) (by
    rintro p ⟨⟩ - - - i part hpart -
    cases i with
    | zero => rfl
    | succ i => cases hpart) (@Step.record _ _ _ _ 0 _ _ rfl rfl)
  have hread := hrecorded.next (a := Event.count 0) trivial (@Step.count _ _ _ _ 0 _ _ rfl rfl rfl)
    |>.next (a := Event.read 0) trivial (@Step.read _ _ _ _ 0 _ rfl rfl (by decide))
  have hput' := hread.next (a := Event.beginFile) trivial .beginFile
    |>.next (a := Event.put 1 8) trivial (@Step.put _ _ _ _ 1 _ 8 rfl rfl)
  have hwritten' := hput'.next (a := Event.answer 1) trivial (@Step.answer _ _ _ _ 1 _ rfl rfl)
    |>.next (a := Event.write 1) trivial (@Step.write _ _ _ _ 1 _ _ rfl rfl)
  have hrecorded' := hwritten'.next (a := Event.record 1) (by
    rintro p ⟨⟩ - - - i part hpart hopen
    match i with
    | 0 =>
      cases hpart
      cases hopen
    | 1 => rfl
    | i + 2 => cases hpart) (@Step.record _ _ _ _ 1 _ _ rfl rfl)
  have hend := hrecorded'.next (a := Event.count 1) trivial (@Step.count _ _ _ _ 1 _ _ rfl rfl rfl)
    |>.next (a := Event.read 1) trivial (@Step.read _ _ _ _ 1 _ rfl rfl (by decide))
  have h := part_accounting tenBytes fun _ => false
  exact ⟨_, by decide, (h.2 _ hend).2, (h.1 _ hend.free).1⟩

/-- The first part begins, the second begins, both put a block, and then both are read. -/
theorem overlapping_parts_counted_twice :
    ¬ ∀ (byteLength : Nat → Nat) (present : Nat → Bool) (s : PartedUpload Nat),
      Run (Step byteLength) always (start present) s →
        (∀ i part info, s.parts[i]? = some part → part.info = some info →
          info.storedBytes = ownBytes byteLength s.created i) ∧
        s.parts.tally storedBytes ≤ s.bytesWritten := by
  intro hclaim
  have hstart : Run (Step tenBytes) always (start fun _ => false) (start fun _ => false) := .start
  have hbegun := hstart.next trivial .beginFile |>.next trivial .beginFile
  have hput := hbegun.next trivial (@Step.put _ _ _ _ 0 _ 7 rfl rfl)
    |>.next trivial (@Step.put _ _ _ _ 1 _ 8 rfl rfl)
  have hanswered := hput.next trivial (@Step.answer _ _ _ _ 0 _ rfl rfl)
    |>.next trivial (@Step.answer _ _ _ _ 1 _ rfl rfl)
  have hwritten := hanswered.next trivial (@Step.write _ _ _ _ 0 _ _ rfl rfl)
    |>.next trivial (@Step.write _ _ _ _ 1 _ _ rfl rfl)
  have hrecorded := hwritten.next trivial (@Step.record _ _ _ _ 0 _ _ rfl rfl)
    |>.next trivial (@Step.record _ _ _ _ 1 _ _ rfl rfl)
  have hcounted := hrecorded.next trivial (@Step.count _ _ _ _ 0 _ _ rfl rfl rfl)
    |>.next trivial (@Step.count _ _ _ _ 1 _ _ rfl rfl rfl)
  have hread := hcounted.next trivial (@Step.read _ _ _ _ 0 _ rfl rfl (by decide))
    |>.next trivial (@Step.read _ _ _ _ 1 _ rfl rfl (by decide))
  -- Both parts report the twenty bytes that they stored together.
  exact absurd (hclaim _ _ _ hread).2 (by decide)

end Overlap

end PartedUpload

end IpfsNode
