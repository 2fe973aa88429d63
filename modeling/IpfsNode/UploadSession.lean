import IpfsNode.Tally
import IpfsNode.Transition
import Mathlib.Data.List.Basic
import Mathlib.Data.List.Nodup
import Mathlib.Logic.Function.Basic

/-!
# Upload sessions

Every upload writes through a session of its own, which remembers the blocks it
wrote and those it was the first to write. A block that a session has in use is
counted, for all sessions together; a session that ends gives its references
back, and one that failed removes the blocks it created that nobody else refers
to and that are not pinned. Between any two awaits of a session, the others run.
-/

namespace IpfsNode

/-! ## The code -/

/-- Where the `put` of a block stands. -/
inductive PutStage where
  /-- The blockstore is asked whether it has the block. -/
  | asking
  | answered (existed : Bool)
  /-- The block is on its way into the blockstore. -/
  | writing (existed : Bool)
  | written (existed : Bool)
  | done
deriving DecidableEq, Repr

structure BlockPut (Cid : Type) where
  cid : Cid
  stage : PutStage
deriving DecidableEq, Repr

inductive CleanupStage (Cid : Type) where
  /-- The next block that the session created comes up. -/
  | next
  | asking (cid : Cid)
  | answered (cid : Cid) (pinned : Bool)
  /-- The block is on its way out of the blockstore. -/
  | deleting (cid : Cid)
  | deleted (cid : Cid)
  | ended
deriving DecidableEq, Repr

structure Cleanup (Cid : Type) where
  /-- The blocks that nobody referred to when the references were given back. -/
  releasable : List Cid
  /-- How many of the blocks that the session created have come up. -/
  position : Nat
  stage : CleanupStage Cid
deriving DecidableEq, Repr

structure UploadSession (Cid : Type) where
  settled : Bool
  claimed : Bool
  touched : List Cid
  created : List Cid
  puts : List (BlockPut Cid)
  cleanup : Option (Cleanup Cid)
  /-- What the session ever touched, what of it was there before, and what the
  session has put. -/
  everTouched : List Cid
  found : List Cid
  wrote : List Cid
deriving DecidableEq, Repr

def UploadSession.new {Cid : Type} : UploadSession Cid where
  settled := false
  claimed := false
  touched := []
  created := []
  puts := []
  cleanup := none
  everTouched := []
  found := []
  wrote := []

/-- The sessions over one blockstore. -/
structure Uploads (Cid : Type) where
  present : Cid → Bool
  pinned : Cid → Bool
  /-- Blocks that in-flight uploads are writing; zero is no entry. -/
  inFlightBlocks : Cid → Nat
  sessions : List (UploadSession Cid)

section Code

variable {Cid : Type} [DecidableEq Cid]

def retainBlock (inFlight : Cid → Nat) (cid : Cid) : Cid → Nat :=
  Function.update inFlight cid (inFlight cid + 1)

/-- The counts, and the number that is left. -/
def releaseBlock (inFlight : Cid → Nat) (cid : Cid) : (Cid → Nat) × Nat :=
  (Function.update inFlight cid (inFlight cid - 1), inFlight cid - 1)

/-- Drop the references taken by `put`; the blocks that nobody refers to now. -/
def releaseAll (inFlight : Cid → Nat) : List Cid → (Cid → Nat) × List Cid
  | [] => (inFlight, [])
  | cid :: touched =>
      let (released, left) := releaseBlock inFlight cid
      let (rest, zeroed) := releaseAll released touched
      (rest, if left = 0 then cid :: zeroed else zeroed)

namespace UploadSession

def setPut (σ : UploadSession Cid) (p : Nat) (put : BlockPut Cid) : UploadSession Cid :=
  { σ with puts := σ.puts.set p put }

/-- The session touches the block, if it has not. -/
def touch (σ : UploadSession Cid) (cid : Cid) (present : Bool) : UploadSession Cid :=
  { σ with
    touched := if cid ∈ σ.touched then σ.touched else σ.touched ++ [cid]
    everTouched := if cid ∈ σ.everTouched then σ.everTouched else σ.everTouched ++ [cid]
    found := if cid ∉ σ.everTouched ∧ present then σ.found ++ [cid] else σ.found }

/-- The block is recorded when the session wrote it for the first time. -/
def create (σ : UploadSession Cid) (cid : Cid) (existed : Bool) : UploadSession Cid :=
  if existed = false ∧ cid ∉ σ.created then { σ with created := σ.created ++ [cid] } else σ

def claim (σ : UploadSession Cid) : UploadSession Cid :=
  if σ.settled then σ else { σ with claimed := true }

def settle (σ : UploadSession Cid) (cleanup : Option (Cleanup Cid)) : UploadSession Cid :=
  { σ with settled := true, claimed := false, touched := [], cleanup }

/-- Go on with the cleanup. -/
def cleanupAt (σ : UploadSession Cid) (cleanup : Cleanup Cid) (stage : CleanupStage Cid) :
    UploadSession Cid :=
  { σ with cleanup := some { cleanup with stage } }

/-- The next block comes up: it is skipped unless it is releasable. -/
def visit (σ : UploadSession Cid) (cleanup : Cleanup Cid) : UploadSession Cid :=
  match σ.created[cleanup.position]? with
  | none => σ.cleanupAt cleanup .ended
  | some cid =>
      let cleanup := { cleanup with position := cleanup.position + 1 }
      if cid ∈ cleanup.releasable then σ.cleanupAt cleanup (.asking cid)
      else σ.cleanupAt cleanup .next

end UploadSession

namespace Uploads

def setSession (w : Uploads Cid) (i : Nat) (σ : UploadSession Cid) : Uploads Cid :=
  { w with sessions := w.sessions.set i σ }

/-- Everything the session wrote is kept. -/
def commit (w : Uploads Cid) (i : Nat) (σ : UploadSession Cid) : Uploads Cid :=
  if σ.settled then w
  else
    { w with inFlightBlocks := (releaseAll w.inFlightBlocks σ.touched).1 }.setSession i
      (σ.settle none)

/-- The blocks that the session created are removed. -/
def cleanup (w : Uploads Cid) (i : Nat) (σ : UploadSession Cid) : Uploads Cid :=
  if σ.settled then w
  else
    let (inFlightBlocks, releasable) := releaseAll w.inFlightBlocks σ.touched
    { w with inFlightBlocks }.setSession i
      (σ.settle (some { releasable, position := 0, stage := .next }))

/-- The cleanup of a client that disconnects. -/
def cleanupIfUnclaimed (w : Uploads Cid) (i : Nat) (σ : UploadSession Cid) : Uploads Cid :=
  if σ.settled || σ.claimed then w else w.cleanup i σ

def isBlockInFlight (w : Uploads Cid) (cid : Cid) : Bool := w.inFlightBlocks cid ≠ 0

/-! ## The steps -/

inductive Action (Cid : Type) where
  | openSession
  | put (i : Nat) (cid : Cid)
  | has (i p : Nat)
  | touch (i p : Nat)
  | write (i p : Nat)
  | finish (i p : Nat)
  | failPut (i p : Nat)
  | claim (i : Nat)
  | commit (i : Nat)
  | cleanup (i : Nat)
  | cleanupIfUnclaimed (i : Nat)
  | visit (i : Nat)
  | isPinned (i : Nat)
  | checkBlock (i : Nat)
  | delete (i : Nat)
  | finishDelete (i : Nat)
  | failCleanup (i : Nat)
  /-- The handler of an upload, or somebody else, pins. -/
  | pin (cid : Cid)
deriving DecidableEq, Repr

/-- The step of one session: what it leaves of the world, and of itself. -/
inductive Step : Uploads Cid → Action Cid → Uploads Cid → Prop
  | openSession {w : Uploads Cid} : Step w .openSession
      { w with sessions := w.sessions ++ [.new] }
  | put {w : Uploads Cid} {i : Nat} {σ : UploadSession Cid} {cid : Cid}
      (h : w.sessions[i]? = some σ) :
      Step w (.put i cid) (w.setSession i { σ with puts := σ.puts ++ [⟨cid, .asking⟩] })
  | has {w : Uploads Cid} {i p : Nat} {σ : UploadSession Cid} {cid : Cid}
      (h : w.sessions[i]? = some σ) (hput : σ.puts[p]? = some ⟨cid, .asking⟩) :
      Step w (.has i p) (w.setSession i (σ.setPut p ⟨cid, .answered (w.present cid)⟩))
  | touch {w : Uploads Cid} {i p : Nat} {σ : UploadSession Cid} {cid : Cid} {existed : Bool}
      (h : w.sessions[i]? = some σ) (hput : σ.puts[p]? = some ⟨cid, .answered existed⟩) :
      Step w (.touch i p)
        ({ w with
            inFlightBlocks :=
              if cid ∈ σ.touched then w.inFlightBlocks
              else retainBlock w.inFlightBlocks cid }.setSession i
          ((σ.touch cid (w.present cid)).setPut p ⟨cid, .writing existed⟩))
  | write {w : Uploads Cid} {i p : Nat} {σ : UploadSession Cid} {cid : Cid} {existed : Bool}
      (h : w.sessions[i]? = some σ) (hput : σ.puts[p]? = some ⟨cid, .writing existed⟩) :
      Step w (.write i p)
        ({ w with present := Function.update w.present cid true }.setSession i
          ({ σ with wrote := σ.wrote ++ [cid] }.setPut p ⟨cid, .written existed⟩))
  | finish {w : Uploads Cid} {i p : Nat} {σ : UploadSession Cid} {cid : Cid} {existed : Bool}
      (h : w.sessions[i]? = some σ) (hput : σ.puts[p]? = some ⟨cid, .written existed⟩) :
      Step w (.finish i p) (w.setSession i ((σ.create cid existed).setPut p ⟨cid, .done⟩))
  | failPut {w : Uploads Cid} {i p : Nat} {σ : UploadSession Cid} {put : BlockPut Cid}
      (h : w.sessions[i]? = some σ) (hput : σ.puts[p]? = some put) :
      Step w (.failPut i p) (w.setSession i (σ.setPut p { put with stage := .done }))
  | claim {w : Uploads Cid} {i : Nat} {σ : UploadSession Cid} (h : w.sessions[i]? = some σ) :
      Step w (.claim i) (w.setSession i σ.claim)
  | commit {w : Uploads Cid} {i : Nat} {σ : UploadSession Cid} (h : w.sessions[i]? = some σ) :
      Step w (.commit i) (w.commit i σ)
  | cleanup {w : Uploads Cid} {i : Nat} {σ : UploadSession Cid} (h : w.sessions[i]? = some σ) :
      Step w (.cleanup i) (w.cleanup i σ)
  | cleanupIfUnclaimed {w : Uploads Cid} {i : Nat} {σ : UploadSession Cid}
      (h : w.sessions[i]? = some σ) :
      Step w (.cleanupIfUnclaimed i) (w.cleanupIfUnclaimed i σ)
  | visit {w : Uploads Cid} {i : Nat} {σ : UploadSession Cid} {c : Cleanup Cid}
      (h : w.sessions[i]? = some σ) (hcleanup : σ.cleanup = some c) (hstage : c.stage = .next) :
      Step w (.visit i) (w.setSession i (σ.visit c))
  | isPinned {w : Uploads Cid} {i : Nat} {σ : UploadSession Cid} {c : Cleanup Cid} {cid : Cid}
      (h : w.sessions[i]? = some σ) (hcleanup : σ.cleanup = some c)
      (hstage : c.stage = .asking cid) :
      Step w (.isPinned i) (w.setSession i (σ.cleanupAt c (.answered cid (w.pinned cid))))
  | checkBlock {w : Uploads Cid} {i : Nat} {σ : UploadSession Cid} {c : Cleanup Cid} {cid : Cid}
      {pinned : Bool} (h : w.sessions[i]? = some σ) (hcleanup : σ.cleanup = some c)
      (hstage : c.stage = .answered cid pinned) :
      Step w (.checkBlock i)
        (w.setSession i (σ.cleanupAt c
          (if pinned || w.isBlockInFlight cid then .next else .deleting cid)))
  | delete {w : Uploads Cid} {i : Nat} {σ : UploadSession Cid} {c : Cleanup Cid} {cid : Cid}
      (h : w.sessions[i]? = some σ) (hcleanup : σ.cleanup = some c)
      (hstage : c.stage = .deleting cid) :
      Step w (.delete i)
        ({ w with present := Function.update w.present cid false }.setSession i
          (σ.cleanupAt c (.deleted cid)))
  | finishDelete {w : Uploads Cid} {i : Nat} {σ : UploadSession Cid} {c : Cleanup Cid} {cid : Cid}
      (h : w.sessions[i]? = some σ) (hcleanup : σ.cleanup = some c)
      (hstage : c.stage = .deleted cid) :
      Step w (.finishDelete i) (w.setSession i (σ.cleanupAt c .next))
  | failCleanup {w : Uploads Cid} {i : Nat} {σ : UploadSession Cid} {c : Cleanup Cid}
      (h : w.sessions[i]? = some σ) (hcleanup : σ.cleanup = some c) (hstage : c.stage ≠ .ended) :
      Step w (.failCleanup i) (w.setSession i (σ.cleanupAt c .next))
  | pin {w : Uploads Cid} {cid : Cid} : Step w (.pin cid)
      { w with pinned := Function.update w.pinned cid true }

/-- Nothing is in use before the first upload. -/
def start (present pinned : Cid → Bool) : Uploads Cid where
  present := present
  pinned := pinned
  inFlightBlocks := fun _ => 0
  sessions := []

/-! ## The references -/

/-- Each session counts once for a block that it has touched. -/
def holds (cid : Cid) (σ : UploadSession Cid) : Nat := if cid ∈ σ.touched then 1 else 0

structure Counted (w : Uploads Cid) : Prop where
  count : ∀ cid, w.inFlightBlocks cid = w.sessions.tally (holds cid)
  nodup : ∀ σ ∈ w.sessions, σ.touched.Nodup

section References

variable {w w' : Uploads Cid} {i j : Nat} {σ σ' τ : UploadSession Cid} {cid : Cid} {a : Action Cid}

omit [DecidableEq Cid] in
/-- A session is opened behind those there are. -/
theorem session_append (hτ : (w.sessions ++ [.new])[j]? = some τ) :
    w.sessions[j]? = some τ ∨ τ = .new := by
  by_cases hj : j < w.sessions.length
  · rw [List.getElem?_append_left hj] at hτ
    exact .inl hτ
  · rw [List.getElem?_append_right (Nat.not_lt.1 hj)] at hτ
    exact .inr (List.mem_singleton.1 (List.mem_of_getElem? hτ))

omit [DecidableEq Cid] in
theorem session_set (hσ : w.sessions[i]? = some σ) :
    (w.setSession i σ').sessions[i]? = some σ' := by
  obtain ⟨hlt, -⟩ := List.getElem?_eq_some_iff.1 hσ
  exact List.getElem?_set_self hlt

omit [DecidableEq Cid] in
theorem session_set_of_ne (hne : j ≠ i) :
    (w.setSession i σ').sessions[j]? = w.sessions[j]? :=
  List.getElem?_set_ne (Ne.symm hne)

omit [DecidableEq Cid] in
theorem of_session_set (hσ : w.sessions[i]? = some σ)
    (hτ : (w.setSession i σ').sessions[j]? = some τ) :
    j = i ∧ τ = σ' ∨ j ≠ i ∧ w.sessions[j]? = some τ := by
  by_cases hj : j = i
  · subst hj
    rw [session_set hσ] at hτ
    exact .inl ⟨rfl, (Option.some.inj hτ).symm⟩
  · rw [session_set_of_ne hj] at hτ
    exact .inr ⟨hj, hτ⟩

theorem mem_touched (σ : UploadSession Cid) (present : Bool) :
    cid ∈ (σ.touch cid present).touched := by
  show cid ∈ if cid ∈ σ.touched then σ.touched else σ.touched ++ [cid]
  split
  · assumption
  · simp

theorem mem_everTouched (σ : UploadSession Cid) (present : Bool) :
    cid ∈ (σ.touch cid present).everTouched := by
  show cid ∈ if cid ∈ σ.everTouched then σ.everTouched else σ.everTouched ++ [cid]
  split
  · assumption
  · simp

theorem touched_touch {present : Bool} {c : Cid} (hc : c ∈ σ.touched) :
    c ∈ (σ.touch cid present).touched := by
  show c ∈ if cid ∈ σ.touched then σ.touched else σ.touched ++ [cid]
  split
  · exact hc
  · exact List.mem_append_left _ hc

theorem everTouched_touch {present : Bool} {c : Cid} (hc : c ∈ σ.everTouched) :
    c ∈ (σ.touch cid present).everTouched := by
  show c ∈ if cid ∈ σ.everTouched then σ.everTouched else σ.everTouched ++ [cid]
  split
  · exact hc
  · exact List.mem_append_left _ hc

theorem releaseAll_count {touched : List Cid} (hnodup : touched.Nodup) (inFlight : Cid → Nat) :
    (releaseAll inFlight touched).1 cid = inFlight cid - if cid ∈ touched then 1 else 0 := by
  induction touched generalizing inFlight with
  | nil => rfl
  | cons c touched ih =>
    obtain ⟨hnew, hrest⟩ := List.nodup_cons.1 hnodup
    show (releaseAll (releaseBlock inFlight c).1 touched).1 cid = _
    rw [ih hrest]
    show (Function.update inFlight c (inFlight c - 1) cid - if cid ∈ touched then 1 else 0) = _
    by_cases hc : cid = c
    · subst hc
      simp [hnew]
    · rw [Function.update_of_ne hc]
      simp [hc]

theorem mem_releaseAll {touched : List Cid} (hnodup : touched.Nodup) (inFlight : Cid → Nat) :
    cid ∈ (releaseAll inFlight touched).2 ↔ cid ∈ touched ∧ inFlight cid ≤ 1 := by
  induction touched generalizing inFlight with
  | nil => simp [releaseAll]
  | cons c touched ih =>
    obtain ⟨hnew, hrest⟩ := List.nodup_cons.1 hnodup
    have hzeroed : (releaseAll inFlight (c :: touched)).2 =
        if inFlight c - 1 = 0 then c :: (releaseAll (releaseBlock inFlight c).1 touched).2
        else (releaseAll (releaseBlock inFlight c).1 touched).2 := rfl
    have htail : cid ∈ (releaseAll (releaseBlock inFlight c).1 touched).2 ↔
        cid ∈ touched ∧ inFlight cid ≤ 1 := by
      rw [ih hrest]
      refine and_congr_right fun hmem => ?_
      have hne : cid ≠ c := fun heq => hnew (heq ▸ hmem)
      show Function.update inFlight c (inFlight c - 1) cid ≤ 1 ↔ inFlight cid ≤ 1
      rw [Function.update_of_ne hne]
    rw [hzeroed]
    by_cases hc : cid = c
    · subst hc
      split
      · next hlast => simp only [List.mem_cons_self, true_and, true_iff]; omega
      · next hlast =>
        rw [htail]
        simp only [List.mem_cons_self, true_and, hnew, false_and, false_iff]
        omega
    · split
      · simp [hc, htail]
      · simp [hc, htail]

theorem Counted.set (h : Counted w) (hσ : w.sessions[i]? = some σ)
    (htouched : σ'.touched = σ.touched) : Counted (w.setSession i σ') := by
  refine ⟨fun cid => ?_, fun τ hτ => ?_⟩
  · have htally := List.tally_set σ' (holds cid) hσ
    have hsame : holds cid σ' = holds cid σ := by rw [holds, htouched, holds]
    have hcount := h.count cid
    show w.inFlightBlocks cid = (w.sessions.set i σ').tally (holds cid)
    omega
  · rcases List.mem_or_eq_of_mem_set hτ with hτ | rfl
    · exact h.nodup τ hτ
    · rw [htouched]
      exact h.nodup σ (List.mem_of_getElem? hσ)

theorem Counted.touch {present : Bool} {p : Nat} {put : BlockPut Cid} (h : Counted w)
    (hσ : w.sessions[i]? = some σ) :
    Counted ({ w with
      inFlightBlocks :=
        if cid ∈ σ.touched then w.inFlightBlocks else retainBlock w.inFlightBlocks cid }.setSession
      i ((σ.touch cid present).setPut p put)) := by
  by_cases hmem : cid ∈ σ.touched
  · rw [if_pos hmem]
    exact h.set hσ (if_pos hmem)
  · rw [if_neg hmem]
    have htouched : ((σ.touch cid present).setPut p put).touched = σ.touched ++ [cid] :=
      if_neg hmem
    refine ⟨fun c => ?_, fun τ hτ => ?_⟩
    · have htally := List.tally_set ((σ.touch cid present).setPut p put) (holds c) hσ
      have hcount := h.count c
      show retainBlock w.inFlightBlocks cid c = (w.sessions.set i _).tally (holds c)
      have hholds : holds c ((σ.touch cid present).setPut p put) =
          holds c σ + if c = cid then 1 else 0 := by
        rw [holds, htouched, holds]
        by_cases hc : c = cid
        · subst hc
          simp [hmem]
        · simp [hc]
      rw [retainBlock]
      by_cases hc : c = cid
      · subst hc
        rw [Function.update_self]
        rw [if_pos rfl] at hholds
        omega
      · rw [Function.update_of_ne hc]
        rw [if_neg hc] at hholds
        omega
    · rcases List.mem_or_eq_of_mem_set hτ with hτ | rfl
      · exact h.nodup τ hτ
      · rw [htouched, List.nodup_append]
        refine ⟨h.nodup σ (List.mem_of_getElem? hσ), List.nodup_singleton _, ?_⟩
        rintro c hc _ hd rfl
        exact hmem (List.mem_singleton.1 hd ▸ hc)

theorem Counted.settle {cleanup : Option (Cleanup Cid)} (h : Counted w)
    (hσ : w.sessions[i]? = some σ) :
    Counted ({ w with
      inFlightBlocks := (releaseAll w.inFlightBlocks σ.touched).1 }.setSession i
        (σ.settle cleanup)) := by
  refine ⟨fun c => ?_, fun τ hτ => ?_⟩
  · have htally := List.tally_set (σ.settle cleanup) (holds c) hσ
    have hcount := h.count c
    have hnone : holds c (σ.settle cleanup) = 0 := rfl
    have hown : holds c σ = if c ∈ σ.touched then 1 else 0 := rfl
    show (releaseAll w.inFlightBlocks σ.touched).1 c = (w.sessions.set i _).tally (holds c)
    rw [releaseAll_count (h.nodup σ (List.mem_of_getElem? hσ)), ← hown]
    omega
  · rcases List.mem_or_eq_of_mem_set hτ with hτ | rfl
    · exact h.nodup τ hτ
    · exact List.nodup_nil

theorem touched_visit {c : Cleanup Cid} : (σ.visit c).touched = σ.touched := by
  unfold UploadSession.visit
  split
  · rfl
  · dsimp only
    split <;> rfl

theorem Counted.commit (h : Counted w) (hσ : w.sessions[i]? = some σ) : Counted (w.commit i σ) := by
  unfold Uploads.commit
  split
  · exact h
  · exact h.settle hσ

theorem Counted.cleanup (h : Counted w) (hσ : w.sessions[i]? = some σ) :
    Counted (w.cleanup i σ) := by
  unfold Uploads.cleanup
  split
  · exact h
  · exact h.settle hσ

/-- The number kept for a block is that of the sessions that hold it. -/
theorem Step.counted (hstep : Step w a w') (h : Counted w) : Counted w' := by
  cases hstep with
  | openSession =>
    refine ⟨fun cid => ?_, fun τ hτ => ?_⟩
    · rw [List.tally_append, ← h.count]
      rfl
    · rcases List.mem_append.1 hτ with hτ | hτ
      · exact h.nodup τ hτ
      · rw [List.mem_singleton.1 hτ]
        exact List.nodup_nil
  | put hσ | has hσ | failPut hσ | isPinned hσ | checkBlock hσ | finishDelete hσ
  | failCleanup hσ => exact h.set hσ rfl
  | write hσ | delete hσ =>
    have hpresent : ∀ present, Counted { w with present } := fun _ => ⟨h.count, h.nodup⟩
    exact (hpresent _).set hσ rfl
  | touch hσ => exact h.touch hσ
  | finish hσ =>
    refine h.set hσ ?_
    unfold UploadSession.create
    split <;> rfl
  | claim hσ =>
    refine h.set hσ ?_
    unfold UploadSession.claim
    split <;> rfl
  | commit hσ => exact h.commit hσ
  | cleanup hσ => exact h.cleanup hσ
  | cleanupIfUnclaimed hσ =>
    unfold Uploads.cleanupIfUnclaimed
    split
    · exact h
    · exact h.cleanup hσ
  | visit hσ => exact h.set hσ touched_visit
  | pin => exact ⟨h.count, h.nodup⟩

theorem start_counted (present pinned : Cid → Bool) : Counted (start present pinned) :=
  ⟨fun _ => rfl, fun _ hσ => absurd hσ List.not_mem_nil⟩

theorem Counted.not_touched (h : Counted w) (hzero : w.isBlockInFlight cid = false)
    (hσ : w.sessions[i]? = some σ) : cid ∉ σ.touched := by
  intro hmem
  have hle := List.le_tally (holds cid) (List.mem_of_getElem? hσ)
  have hone : holds cid σ = 1 := if_pos hmem
  have hcount := h.count cid
  have hzero' : w.inFlightBlocks cid = 0 := by simpa [isBlockInFlight] using hzero
  omega

end References

end Uploads

end Code

end IpfsNode
