import IpfsNode.Tally
import IpfsNode.Transition

/-!
# Metered block reads

A transfer reads its blocks through a view that charges every chunk to one
counter and refuses to go on beyond a limit. The limit is noticed late: what is
in progress when it is crossed is still charged in full. `metered_transfer`
bounds how far the counter gets beyond the limit by the reads in progress.
-/

namespace IpfsNode

open TransitionSystem (Run)

/-! ## The code -/

/-- Largest block the transport can bring in at once. -/
def MAX_BLOCK_BYTES : Nat := 4 * 1024 ^ 2

/-- Blocks an intake reads at a time. -/
def INTAKE_READ_CONCURRENCY : Nat := 4

/-- Most a transfer can exceed its limit by. -/
def INTAKE_OVERSHOOT_BYTES : Nat := INTAKE_READ_CONCURRENCY * MAX_BLOCK_BYTES

inductive GetStage where
  | reading
  /-- The limit is passed; the rest of the block is accounted for. -/
  | draining
  | delivered
  /-- It threw 'Copy is larger than this node accepts'. -/
  | failed
deriving DecidableEq, Repr

/-- One `get` of the view. `rest` are the lengths of the chunks its source has
still to deliver. -/
structure MeteredGet where
  byteLength : Nat
  rest : List Nat
  charged : Nat
  yielded : Nat
  stage : GetStage
deriving DecidableEq, Repr

namespace MeteredGet

def opened (chunks : List Nat) : MeteredGet where
  byteLength := chunks.sum
  rest := chunks
  charged := 0
  yielded := 0
  stage := .reading

def inProgress (g : MeteredGet) : Bool := g.stage = .reading || g.stage = .draining

/-- It noticed that the limit is passed. -/
def refused (g : MeteredGet) : Bool := g.stage = .draining || g.stage = .failed

end MeteredGet

/-- One transfer: its counter, and the blocks read so far. -/
structure MeteredBlocks where
  limitBytes : Nat
  bytes : Nat
  gets : List MeteredGet
deriving DecidableEq, Repr

namespace MeteredBlocks

def start (limitBytes : Nat) : MeteredBlocks where
  limitBytes := limitBytes
  bytes := 0
  gets := []

/-- The source delivers a chunk to one `get`. -/
def chunk (s : MeteredBlocks) (i : Nat) (g : MeteredGet) (byteLength : Nat) (rest : List Nat) :
    MeteredBlocks :=
  let bytes := s.bytes + byteLength
  let g := { g with rest, charged := g.charged + byteLength }
  let g :=
    if g.stage = .draining || s.limitBytes < bytes then { g with stage := .draining }
    else { g with yielded := g.yielded + byteLength }
  { s with bytes, gets := s.gets.set i g }

/-- The source of a `get` is through. -/
def exhausted (s : MeteredBlocks) (i : Nat) (g : MeteredGet) : MeteredBlocks :=
  let g := { g with stage := if g.stage = .draining then .failed else .delivered }
  { s with gets := s.gets.set i g }

inductive Event where
  /-- The reader opens a block, which arrives in these chunks. -/
  | get (chunks : List Nat)
  | chunk (i : Nat)
  | exhausted (i : Nat)
deriving DecidableEq, Repr

inductive Step : MeteredBlocks → Event → MeteredBlocks → Prop
  | get {s : MeteredBlocks} {chunks : List Nat} :
      Step s (.get chunks) { s with gets := s.gets ++ [.opened chunks] }
  | chunk {s : MeteredBlocks} {i : Nat} {g : MeteredGet} {byteLength : Nat} {rest : List Nat}
      (h : s.gets[i]? = some g) (hopen : g.inProgress = true)
      (hrest : g.rest = byteLength :: rest) :
      Step s (.chunk i) (s.chunk i g byteLength rest)
  | exhausted {s : MeteredBlocks} {i : Nat} {g : MeteredGet} (h : s.gets[i]? = some g)
      (hopen : g.inProgress = true) (hrest : g.rest = []) :
      Step s (.exhausted i) (s.exhausted i g)

/-- A reader that opens a block only while fewer than `c` are in progress and
none has failed, and blocks of the size a transport delivers. -/
def Disciplined (c : Nat) (s : MeteredBlocks) : Event → Prop
  | .get chunks => chunks.sum ≤ MAX_BLOCK_BYTES ∧
      (s.gets.filter MeteredGet.inProgress).length < c ∧ ∀ g ∈ s.gets, g.stage ≠ .failed
  | _ => True

/-! ## The counter -/

variable {s s' : MeteredBlocks} {a : Event} {c limitBytes : Nat}

/-- What a `get` that noticed the limit was charged. -/
def excess (g : MeteredGet) : Nat := if g.refused then g.charged else 0

/-- A `get` takes a place until it has delivered its block. -/
def place (g : MeteredGet) : Nat := if g.stage = .delivered then 0 else 1

/-- What holds of every `get`. -/
structure Accounted (g : MeteredGet) : Prop where
  charged : g.charged + g.rest.sum = g.byteLength
  bounded : g.byteLength ≤ MAX_BLOCK_BYTES
  drained : g.inProgress = false → g.rest = []
  yielded : g.refused = false → g.yielded = g.charged

/-- What holds between two deliveries. -/
structure Metered (c limitBytes : Nat) (s : MeteredBlocks) : Prop where
  limit : s.limitBytes = limitBytes
  accounted : ∀ g ∈ s.gets, Accounted g
  bytes : s.bytes = s.gets.tally (·.charged)
  excess : s.bytes ≤ limitBytes + s.gets.tally excess
  places : s.gets.tally place ≤ c
  noticed : limitBytes < s.bytes ↔ ∃ g ∈ s.gets, g.refused = true

theorem start_metered (c limitBytes : Nat) : (start limitBytes).Metered c limitBytes where
  limit := rfl
  accounted := by simp [start]
  bytes := rfl
  excess := Nat.zero_le _
  places := Nat.zero_le _
  noticed := by simp [start]

/-- Opening a block charges nothing, and takes a place that is free. -/
theorem Metered.get (h : s.Metered c limitBytes) {chunks : List Nat}
    (hok : Disciplined c s (.get chunks)) :
    Metered c limitBytes { s with gets := s.gets ++ [.opened chunks] } := by
  obtain ⟨hsize, hroom, hnone⟩ := hok
  refine { limit := h.limit, accounted := ?_, bytes := ?_, excess := ?_, places := ?_
           noticed := ?_ }
  · intro g hmem
    rcases List.mem_append.mp hmem with hmem | hmem
    · exact h.accounted g hmem
    · obtain rfl := List.mem_singleton.mp hmem
      exact ⟨by simp [MeteredGet.opened], hsize, nofun, fun _ => rfl⟩
  · simpa [MeteredGet.opened] using h.bytes
  · simpa [MeteredGet.opened, MeteredBlocks.excess] using h.excess
  · -- while no read has failed, the places are those of the reads in progress
    have hplaces : s.gets.tally place = (s.gets.filter MeteredGet.inProgress).length := by
      rw [← List.tally_one_filter]
      refine List.tally_congr fun g hmem => ?_
      have hlives := hnone g hmem
      cases hstage : g.stage <;> simp_all [place, MeteredGet.inProgress]
    have hnew : place (.opened chunks) = 1 := rfl
    rw [List.tally_append, List.tally_cons, List.tally_nil, hplaces, hnew]
    omega
  · show limitBytes < s.bytes ↔ _
    rw [h.noticed]
    simp [MeteredGet.opened, MeteredGet.refused]

/-- A chunk is charged to the counter and to its `get`. -/
theorem Metered.chunk (h : s.Metered c limitBytes) {i : Nat} {g : MeteredGet} {byteLength : Nat}
    {rest : List Nat} (hget : s.gets[i]? = some g) (hopen : g.inProgress = true)
    (hrest : g.rest = byteLength :: rest) :
    (s.chunk i g byteLength rest).Metered c limitBytes := by
  have hmem := List.mem_of_getElem? hget
  have hg := h.accounted g hmem
  have hlt : i < s.gets.length := (List.getElem?_eq_some_iff.mp hget).1
  obtain ⟨g', hg', hcharged, hlength, hrest', hyielded, hplace, hrefused⟩ : ∃ g',
      s.chunk i g byteLength rest =
        { s with bytes := s.bytes + byteLength, gets := s.gets.set i g' } ∧
        g'.charged = g.charged + byteLength ∧ g'.byteLength = g.byteLength ∧ g'.rest = rest ∧
        (g'.refused = false → g'.yielded = g'.charged) ∧
        (g'.inProgress = true ∧ place g' = place g) ∧
        (g'.refused = true ↔ g.refused = true ∨ limitBytes < s.bytes + byteLength) := by
    have hstage : g.stage = .reading ∨ g.stage = .draining := by
      simpa [MeteredGet.inProgress] using hopen
    have hyields : g.stage = .reading → g.yielded = g.charged := fun hreading =>
      hg.yielded (by simp [MeteredGet.refused, hreading])
    refine ⟨_, rfl, ?_⟩
    rw [← h.limit]
    rcases hstage with hstage | hstage
    · by_cases hover : s.limitBytes < s.bytes + byteLength <;>
        simp [hstage, hover, place, MeteredGet.inProgress, MeteredGet.refused, hyields]
    · simp [hstage, place, MeteredGet.inProgress, MeteredGet.refused]
  rw [hg']
  refine { limit := h.limit, accounted := ?_, bytes := ?_, excess := ?_, places := ?_
           noticed := ?_ }
  · intro e he
    rcases List.mem_or_eq_of_mem_set he with he | rfl
    · exact h.accounted e he
    · refine ⟨?_, hlength ▸ hg.bounded, fun hdone => ?_, hyielded⟩
      · have hsum := hg.charged
        rw [hrest, List.sum_cons] at hsum
        rw [hcharged, hlength, hrest']
        omega
      · rw [hplace.1] at hdone
        cases hdone
  · have hset := List.tally_set g' (·.charged) hget
    have hbytes := h.bytes
    show s.bytes + byteLength = (s.gets.set i g').tally _
    omega
  · have hset := List.tally_set g' MeteredBlocks.excess hget
    have hbytes := h.excess
    show s.bytes + byteLength ≤ limitBytes + (s.gets.set i g').tally _
    by_cases hafter : g'.refused = true
    · have hnow : MeteredBlocks.excess g' = g.charged + byteLength := by
        simp [MeteredBlocks.excess, hafter, hcharged]
      have hbefore : MeteredBlocks.excess g ≤ g.charged := by
        unfold MeteredBlocks.excess
        split <;> omega
      omega
    · have hnot : ¬ limitBytes < s.bytes + byteLength := fun hover =>
        hafter (hrefused.mpr (.inr hover))
      omega
  · have hset := List.tally_set g' place hget
    have hplaces := h.places
    show (s.gets.set i g').tally place ≤ c
    omega
  · show limitBytes < s.bytes + byteLength ↔ ∃ e ∈ s.gets.set i g', e.refused = true
    constructor
    · intro hover
      exact ⟨g', List.mem_of_getElem? (List.getElem?_set_self hlt), hrefused.mpr (.inr hover)⟩
    · rintro ⟨e, he, hnoticed⟩
      have hearlier : (∃ e ∈ s.gets, e.refused = true) → limitBytes < s.bytes + byteLength :=
        fun hold => (h.noticed.mpr hold).trans_le (Nat.le_add_right _ _)
      rcases List.mem_or_eq_of_mem_set he with he | rfl
      · exact hearlier ⟨e, he, hnoticed⟩
      · rcases hrefused.mp hnoticed with hold | hover
        · exact hearlier ⟨g, hmem, hold⟩
        · exact hover

/-- A block that is through was delivered, or is refused now. -/
theorem Metered.exhausted (h : s.Metered c limitBytes) {i : Nat} {g : MeteredGet}
    (hget : s.gets[i]? = some g) (hopen : g.inProgress = true) (hrest : g.rest = []) :
    (s.exhausted i g).Metered c limitBytes := by
  have hmem := List.mem_of_getElem? hget
  have hg := h.accounted g hmem
  have hlt : i < s.gets.length := (List.getElem?_eq_some_iff.mp hget).1
  obtain ⟨g', hg', hcharged, hlength, hrest', hyielded, hplace, hrefused⟩ : ∃ g',
      s.exhausted i g = { s with gets := s.gets.set i g' } ∧ g'.charged = g.charged ∧
        g'.byteLength = g.byteLength ∧ g'.rest = [] ∧ g'.yielded = g.yielded ∧
        place g' ≤ place g ∧ g'.refused = g.refused := by
    have hstage : g.stage = .reading ∨ g.stage = .draining := by
      simpa [MeteredGet.inProgress] using hopen
    refine ⟨_, rfl, rfl, rfl, hrest, rfl, ?_⟩
    rcases hstage with hstage | hstage <;> simp [hstage, place, MeteredGet.refused]
  rw [hg']
  refine { limit := h.limit, accounted := ?_, bytes := ?_, excess := ?_, places := ?_
           noticed := ?_ }
  · intro e he
    rcases List.mem_or_eq_of_mem_set he with he | rfl
    · exact h.accounted e he
    · refine ⟨?_, hlength ▸ hg.bounded, fun _ => hrest', fun hnot => ?_⟩
      · rw [hcharged, hlength, hrest', ← hrest]
        exact hg.charged
      · rw [hyielded, hcharged]
        exact hg.yielded (hrefused.symm.trans hnot)
  · have hset := List.tally_set g' (·.charged) hget
    have hbytes := h.bytes
    show s.bytes = (s.gets.set i g').tally _
    omega
  · have hset := List.tally_set g' MeteredBlocks.excess hget
    have hsame : MeteredBlocks.excess g' = MeteredBlocks.excess g := by
      rw [MeteredBlocks.excess, MeteredBlocks.excess, hrefused, hcharged]
    have hbytes := h.excess
    show s.bytes ≤ limitBytes + (s.gets.set i g').tally _
    omega
  · have hset := List.tally_set g' place hget
    have hplaces := h.places
    show (s.gets.set i g').tally place ≤ c
    omega
  · show limitBytes < s.bytes ↔ ∃ e ∈ s.gets.set i g', e.refused = true
    rw [h.noticed]
    constructor
    · rintro ⟨e, he, hnoticed⟩
      obtain ⟨j, hj⟩ := List.getElem?_of_mem he
      by_cases hsame : j = i
      · subst hsame
        obtain rfl := Option.some.inj (hget.symm.trans hj)
        exact ⟨g', List.mem_of_getElem? (List.getElem?_set_self hlt), hrefused.trans hnoticed⟩
      · exact ⟨e, List.mem_of_getElem? ((List.getElem?_set_ne (Ne.symm hsame)).trans hj), hnoticed⟩
    · rintro ⟨e, he, hnoticed⟩
      rcases List.mem_or_eq_of_mem_set he with he | rfl
      · exact ⟨e, he, hnoticed⟩
      · exact ⟨g, hmem, hrefused.symm.trans hnoticed⟩

theorem Step.metered (hstep : Step s a s') (hok : Disciplined c s a) (h : s.Metered c limitBytes) :
    s'.Metered c limitBytes := by
  cases hstep with
  | get => exact h.get hok
  | chunk hget hopen hrest => exact h.chunk hget hopen hrest
  | exhausted hget hopen hrest => exact h.exhausted hget hopen hrest

theorem run_metered (hrun : Run Step (Disciplined c) (start limitBytes) s) :
    s.Metered c limitBytes :=
  hrun.invariant (start_metered c limitBytes) fun _ _ _ h hok hstep => hstep.metered hok h

/-- What is charged beyond the limit belongs to blocks that still have a place. -/
theorem Metered.overshoot (h : s.Metered c limitBytes) :
    s.bytes ≤ limitBytes + c * MAX_BLOCK_BYTES := by
  have hexcess : s.gets.tally MeteredBlocks.excess ≤
      s.gets.tally fun g => place g * MAX_BLOCK_BYTES := by
    refine List.tally_le fun g hmem => ?_
    have hcharged := (h.accounted g hmem).charged
    have hbounded := (h.accounted g hmem).bounded
    unfold MeteredBlocks.excess
    split
    · rename_i hrefused
      have hplace : place g = 1 := by
        cases hstage : g.stage <;> simp_all [place, MeteredGet.refused]
      rw [hplace, Nat.one_mul]
      omega
    · exact Nat.zero_le _
  have hscale (l : List MeteredGet) :
      (l.tally fun g => place g * MAX_BLOCK_BYTES) = l.tally place * MAX_BLOCK_BYTES := by
    induction l with
    | nil => rw [List.tally_nil, List.tally_nil, Nat.zero_mul]
    | cons g l ih => rw [List.tally_cons, List.tally_cons, ih, Nat.add_mul]
  have hplaces := Nat.mul_le_mul_right MAX_BLOCK_BYTES h.places
  have hbytes := h.excess
  rw [hscale] at hexcess
  omega

/-- Whatever reads are open and however their chunks come in, the counter stays
within the limit and the blocks in progress, a block that was refused is charged
in full, one that was delivered is charged its size, and some block is refused
exactly when more was charged than the limit, once every block is through. -/
theorem metered_transfer (c limitBytes : Nat) (s : MeteredBlocks)
    (hrun : Run Step (Disciplined c) (start limitBytes) s) :
    s.bytes = s.gets.tally (·.charged) ∧ s.bytes ≤ limitBytes + c * MAX_BLOCK_BYTES ∧
      (∀ g ∈ s.gets, g.stage = .failed → g.charged = g.byteLength) ∧
      (∀ g ∈ s.gets, g.stage = .delivered →
        g.charged = g.byteLength ∧ g.yielded = g.byteLength) ∧
      ((∃ g ∈ s.gets, g.stage = .failed) → limitBytes < s.bytes) ∧
      ((∀ g ∈ s.gets, g.inProgress = false) →
        ((∃ g ∈ s.gets, g.stage = .failed) ↔ limitBytes < s.bytes)) := by
  have h := run_metered hrun
  have hwhole (g : MeteredGet) (hmem : g ∈ s.gets) (hover : g.inProgress = false) :
      g.charged = g.byteLength := by
    have hcharged := (h.accounted g hmem).charged
    rw [(h.accounted g hmem).drained hover] at hcharged
    simpa using hcharged
  have hfailed : (∃ g ∈ s.gets, g.stage = .failed) → limitBytes < s.bytes := by
    rintro ⟨g, hmem, hstage⟩
    exact h.noticed.mpr ⟨g, hmem, by simp [MeteredGet.refused, hstage]⟩
  refine ⟨h.bytes, h.overshoot, fun g hmem hstage => ?_, fun g hmem hstage => ?_, hfailed,
    fun hover => ⟨hfailed, fun hbytes => ?_⟩⟩
  · exact hwhole g hmem (by simp [MeteredGet.inProgress, hstage])
  · have hcharged := hwhole g hmem (by simp [MeteredGet.inProgress, hstage])
    have hyielded := (h.accounted g hmem).yielded (by simp [MeteredGet.refused, hstage])
    exact ⟨hcharged, hyielded.trans hcharged⟩
  · obtain ⟨g, hmem, hrefused⟩ := h.noticed.mp hbytes
    have hidle := hover g hmem
    refine ⟨g, hmem, ?_⟩
    cases hstage : g.stage <;> simp_all [MeteredGet.inProgress, MeteredGet.refused]

/-- Two blocks are in progress when the first one passes the limit of three bytes. -/
theorem metered_transfer_twoReads :
    ∃ s : MeteredBlocks, s.bytes = 9 ∧ s.bytes ≤ 3 + 2 * MAX_BLOCK_BYTES ∧
      (∃ g ∈ s.gets, g.stage = .failed) := by
  have hfirst : Run Step (Disciplined 2) (start 3) ⟨3, 0, [.opened [2, 3]]⟩ :=
    .next (a := .get [2, 3]) .start ⟨by decide, by decide, by decide⟩ .get
  have hsecond : Run Step (Disciplined 2) (start 3) ⟨3, 0, [.opened [2, 3], .opened [4]]⟩ :=
    .next (a := .get [4]) hfirst ⟨by decide, by decide, by decide⟩ .get
  have hcrossed : Run Step (Disciplined 2) (start 3)
      ⟨3, 4, [.opened [2, 3], ⟨4, [], 4, 0, .draining⟩]⟩ :=
    .next (a := .chunk 1) hsecond trivial (@Step.chunk _ 1 (.opened [4]) 4 [] rfl rfl rfl)
  have hother : Run Step (Disciplined 2) (start 3)
      ⟨3, 6, [⟨5, [3], 2, 0, .draining⟩, ⟨4, [], 4, 0, .draining⟩]⟩ :=
    .next (a := .chunk 0) hcrossed trivial (@Step.chunk _ 0 (.opened [2, 3]) 2 [3] rfl rfl rfl)
  have hdrained : Run Step (Disciplined 2) (start 3)
      ⟨3, 9, [⟨5, [], 5, 0, .draining⟩, ⟨4, [], 4, 0, .draining⟩]⟩ :=
    .next (a := .chunk 0) hother trivial
      (@Step.chunk _ 0 ⟨5, [3], 2, 0, .draining⟩ 3 [] rfl rfl rfl)
  have hthrown : Run Step (Disciplined 2) (start 3)
      ⟨3, 9, [⟨5, [], 5, 0, .failed⟩, ⟨4, [], 4, 0, .draining⟩]⟩ :=
    .next (a := .exhausted 0) hdrained trivial
      (@Step.exhausted _ 0 ⟨5, [], 5, 0, .draining⟩ rfl rfl rfl)
  have hend : Run Step (Disciplined 2) (start 3)
      ⟨3, 9, [⟨5, [], 5, 0, .failed⟩, ⟨4, [], 4, 0, .failed⟩]⟩ :=
    .next (a := .exhausted 1) hthrown trivial
      (@Step.exhausted _ 1 ⟨4, [], 4, 0, .draining⟩ rfl rfl rfl)
  have h := metered_transfer 2 3 _ hend
  exact ⟨_, rfl, h.2.1, (h.2.2.2.2.2 (by decide)).mpr (by decide)⟩

end MeteredBlocks

end IpfsNode
