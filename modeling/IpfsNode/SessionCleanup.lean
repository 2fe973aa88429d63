import IpfsNode.UploadSession

/-!
# What the cleanup of a session deletes

A cleanup asks whether a block is pinned, then whether an upload refers to it,
and deletes it last; a session asks whether a block exists, and refers to it
only then. While no block appears, and none is put or pinned, between such a
question and what rests on it, the cleanup deletes what its session created and
nobody else uses (`cleanup_deletes_own`). Otherwise it can delete a block that
another upload has just put.
-/

namespace IpfsNode

open TransitionSystem

/-- The block that a cleanup is at. -/
def CleanupStage.cid {Cid : Type} : CleanupStage Cid → Option Cid
  | .asking cid | .answered cid _ | .deleting cid | .deleted cid => some cid
  | .next | .ended => none

namespace Uploads

variable {Cid : Type} [DecidableEq Cid]

/-- Nothing comes between a question and what rests on its answer: a block that
a put was told is absent is so when its session touches it first; no other
session that goes on puts a block that a cleanup is about to delete, and nobody
pins it; and what a cleanup was told is not pinned is so when it decides. -/
def Careful (w : Uploads Cid) : Action Cid → Prop
  | .touch i p => ∀ σ cid, w.sessions[i]? = some σ → σ.puts[p]? = some ⟨cid, .answered false⟩ →
      cid ∉ σ.found ∧ (cid ∉ σ.everTouched → w.present cid = false)
  | .write i p => ∀ σ cid existed, w.sessions[i]? = some σ → σ.settled = false →
      σ.puts[p]? = some ⟨cid, .writing existed⟩ →
      ∀ (j : Nat) τ c, j ≠ i → w.sessions[j]? = some τ → τ.cleanup = some c →
        c.stage ≠ .deleting cid
  | .checkBlock i => ∀ σ c cid, w.sessions[i]? = some σ → σ.cleanup = some c →
      c.stage = .answered cid false → w.isBlockInFlight cid = false → w.pinned cid = false
  | .pin cid => ∀ (j : Nat) τ c, w.sessions[j]? = some τ → τ.cleanup = some c →
      c.stage ≠ .deleting cid
  | _ => True

/-- What a session knows of the blocks it uses. -/
structure Tracked (σ : UploadSession Cid) : Prop where
  touched : ∀ cid ∈ σ.touched, cid ∈ σ.everTouched
  wrote : σ.settled = false → ∀ cid ∈ σ.wrote, cid ∈ σ.touched
  putting : ∀ put ∈ σ.puts, ∀ existed,
    put.stage = .writing existed ∨ put.stage = .written existed →
    (σ.settled = false → put.cid ∈ σ.touched) ∧ put.cid ∈ σ.everTouched ∧
      (existed = false → put.cid ∉ σ.found)
  created : ∀ cid ∈ σ.created, cid ∈ σ.everTouched ∧ cid ∉ σ.found
  cleanup : ∀ c, σ.cleanup = some c → ∀ cid, c.stage.cid = some cid → cid ∈ σ.created

/-- What a cleanup is about to delete, nobody needs. -/
structure Unharmed (w : Uploads Cid) (i : Nat) (c : Cleanup Cid) : Prop where
  pinned : ∀ cid, c.stage = .deleting cid → w.pinned cid = false
  others : ∀ cid, c.stage = .deleting cid →
    ∀ (j : Nat) τ, j ≠ i → w.sessions[j]? = some τ → τ.settled = false → cid ∉ τ.wrote

structure Guarded (w : Uploads Cid) : Prop where
  tracked : ∀ (i : Nat) σ, w.sessions[i]? = some σ → Tracked σ
  unharmed : ∀ (i : Nat) σ c, w.sessions[i]? = some σ → σ.cleanup = some c → Unharmed w i c

structure Safe (w : Uploads Cid) : Prop extends Guarded w where
  counted : Counted w

section Invariant

variable {w w' : Uploads Cid} {i j p : Nat} {σ σ' τ : UploadSession Cid} {cid : Cid}
  {a : Action Cid} {c : Cleanup Cid}

omit [DecidableEq Cid] in
theorem unharmed_of_stage (hstage : ∀ cid, c.stage ≠ .deleting cid) : Unharmed w i c :=
  ⟨fun cid hcid => absurd hcid (hstage cid), fun cid hcid => absurd hcid (hstage cid)⟩

omit [DecidableEq Cid] in
/-- One session has moved: the cleanups of the others find what they found, when
it has not put what they are about to delete. -/
theorem unharmed_set (h : Guarded w) (hσ : w.sessions[i]? = some σ)
    (hquiet : σ'.settled = false → σ.settled = false ∧ ∀ cid ∈ σ'.wrote, cid ∈ σ.wrote ∨
      ∀ (j : Nat) τ c, j ≠ i → w.sessions[j]? = some τ → τ.cleanup = some c →
        c.stage ≠ .deleting cid)
    (hown : ∀ c, σ'.cleanup = some c → Unharmed w i c) :
    ∀ (j : Nat) τ c, (w.setSession i σ').sessions[j]? = some τ → τ.cleanup = some c →
      Unharmed (w.setSession i σ') j c := by
  intro j τ c hτ hc
  rcases of_session_set hσ hτ with ⟨rfl, rfl⟩ | ⟨hj, hτ'⟩
  · refine ⟨(hown c hc).pinned, fun cid hstage j' τ' hj' hτ' => ?_⟩
    rw [session_set_of_ne hj'] at hτ'
    exact (hown c hc).others cid hstage j' τ' hj' hτ'
  · have hunharmed := h.unharmed j τ c hτ' hc
    refine ⟨hunharmed.pinned, fun cid hstage j' τ' hj' hτ'' hunsettled hwrote => ?_⟩
    have hothers := hunharmed.others cid hstage
    rcases of_session_set hσ hτ'' with ⟨rfl, rfl⟩ | ⟨hne, hτ''⟩
    · obtain ⟨hbefore, hputs⟩ := hquiet hunsettled
      rcases hputs cid hwrote with hput | hput
      · exact hothers j' σ hj' hσ hbefore hput
      · exact hput j τ c hj hτ' hc hstage
    · exact hothers j' τ' hj' hτ'' hunsettled hwrote

omit [DecidableEq Cid] in
theorem tracked_set (h : Guarded w) (hσ : w.sessions[i]? = some σ) (htracked : Tracked σ') :
    ∀ (j : Nat) τ, (w.setSession i σ').sessions[j]? = some τ → Tracked τ := by
  intro j τ hτ
  rcases of_session_set hσ hτ with ⟨rfl, rfl⟩ | ⟨-, hτ'⟩
  · exact htracked
  · exact h.tracked j τ hτ'

omit [DecidableEq Cid] in
/-- A put moves on without a new block in use. -/
theorem Tracked.setPut {put : BlockPut Cid} (h : Tracked σ)
    (hput : ∀ existed, put.stage = .writing existed ∨ put.stage = .written existed →
      (σ.settled = false → put.cid ∈ σ.touched) ∧ put.cid ∈ σ.everTouched ∧
        (existed = false → put.cid ∉ σ.found)) : Tracked (σ.setPut p put) := by
  refine ⟨h.touched, h.wrote, fun q hq => ?_, h.created, h.cleanup⟩
  rcases List.mem_or_eq_of_mem_set hq with hq | rfl
  · exact h.putting q hq
  · exact hput

/-- What the session has touched before is not found now. -/
theorem found_touch {present : Bool} {c : Cid} (hc : c ∈ σ.everTouched) (hfound : c ∉ σ.found) :
    c ∉ (σ.touch cid present).found := by
  show c ∉ if cid ∉ σ.everTouched ∧ present then σ.found ++ [cid] else σ.found
  split
  · next hnew =>
    rw [List.mem_append, not_or]
    refine ⟨hfound, fun hmem => ?_⟩
    rw [List.mem_singleton.1 hmem] at hc
    exact hnew.1 hc
  · exact hfound

theorem Tracked.touch {existed : Bool} (h : Tracked σ)
    (hcareful : existed = false →
      cid ∉ σ.found ∧ (cid ∉ σ.everTouched → w.present cid = false)) :
    Tracked ((σ.touch cid (w.present cid)).setPut p ⟨cid, .writing existed⟩) := by
  have htouch : Tracked (σ.touch cid (w.present cid)) := by
    refine ⟨fun k hk => ?_, fun hunsettled k hk => ?_, fun put hput e hstage => ?_,
      fun k hk => ?_, h.cleanup⟩
    · have hk' : k ∈ σ.touched ∨ k = cid := by
        have hmem : k ∈ if cid ∈ σ.touched then σ.touched else σ.touched ++ [cid] := hk
        split at hmem
        · exact .inl hmem
        · simpa using hmem
      rcases hk' with hk' | rfl
      · exact everTouched_touch (h.touched k hk')
      · exact mem_everTouched σ _
    · exact touched_touch (h.wrote hunsettled k hk)
    · obtain ⟨hused, hever, hfound⟩ := h.putting put hput e hstage
      exact ⟨fun hunsettled => touched_touch (hused hunsettled), everTouched_touch hever,
        fun hexisted => found_touch hever (hfound hexisted)⟩
    · obtain ⟨hever, hfound⟩ := h.created k hk
      exact ⟨everTouched_touch hever, found_touch hever hfound⟩
  refine htouch.setPut fun e hstage => ⟨fun _ => mem_touched σ _, mem_everTouched σ _, ?_⟩
  rintro rfl
  have hexisted : existed = false := by
    rcases hstage with hstage | hstage <;> cases hstage
    rfl
  obtain ⟨hfound, hnew⟩ := hcareful hexisted
  have hsame : ¬(cid ∉ σ.everTouched ∧ w.present cid = true) := by
    rintro ⟨hfirst, hpresent⟩
    rw [hnew hfirst] at hpresent
    cases hpresent
  show cid ∉ if cid ∉ σ.everTouched ∧ w.present cid then σ.found ++ [cid] else σ.found
  rw [if_neg hsame]
  exact hfound

theorem Tracked.create {existed : Bool} (h : Tracked σ) (hever : cid ∈ σ.everTouched)
    (hfound : existed = false → cid ∉ σ.found) : Tracked (σ.create cid existed) := by
  unfold UploadSession.create
  split
  · next hnew =>
    refine ⟨h.touched, h.wrote, h.putting, fun k hk => ?_, fun c hc k hk => ?_⟩
    · rcases List.mem_append.1 hk with hk | hk
      · exact h.created k hk
      · rw [List.mem_singleton.1 hk]
        exact ⟨hever, hfound hnew.1⟩
    · exact List.mem_append_left _ (h.cleanup c hc k hk)
  · exact h

omit [DecidableEq Cid] in
theorem Tracked.settle {cleanup : Option (Cleanup Cid)} (h : Tracked σ)
    (hcleanup : ∀ c, cleanup = some c → c.stage.cid = none) : Tracked (σ.settle cleanup) := by
  refine ⟨nofun, nofun, fun put hput existed hstage => ?_, h.created, fun c hc k hk => ?_⟩
  · obtain ⟨-, hever, hfound⟩ := h.putting put hput existed hstage
    exact ⟨nofun, hever, hfound⟩
  · rw [hcleanup c hc] at hk
    cases hk

omit [DecidableEq Cid] in
theorem Tracked.cleanupAt {stage : CleanupStage Cid} (h : Tracked σ)
    (hstage : ∀ k, stage.cid = some k → k ∈ σ.created) : Tracked (σ.cleanupAt c stage) := by
  refine ⟨h.touched, h.wrote, h.putting, h.created, ?_⟩
  rintro _ ⟨⟩
  exact hstage

/-- A step of one session that leaves the counts as they should be. -/
theorem Safe.set (h : Safe w) (hσ : w.sessions[i]? = some σ)
    (hcounted : Counted (w.setSession i σ')) (htracked : Tracked σ')
    (hquiet : σ'.settled = false → σ.settled = false ∧ ∀ cid ∈ σ'.wrote, cid ∈ σ.wrote ∨
      ∀ (j : Nat) τ c, j ≠ i → w.sessions[j]? = some τ → τ.cleanup = some c →
        c.stage ≠ .deleting cid)
    (hown : ∀ c, σ'.cleanup = some c → Unharmed w i c) : Safe (w.setSession i σ') :=
  ⟨⟨tracked_set h.toGuarded hσ htracked, unharmed_set h.toGuarded hσ hquiet hown⟩, hcounted⟩

/-- A session that has only moved its puts. -/
theorem Safe.setPuts (h : Safe w) (hσ : w.sessions[i]? = some σ) (htracked : Tracked σ')
    (htouched : σ'.touched = σ.touched) (hsettled : σ'.settled = σ.settled)
    (hwrote : σ'.wrote = σ.wrote) (hcleanup : σ'.cleanup = σ.cleanup) :
    Safe (w.setSession i σ') := by
  refine h.set hσ (h.counted.set hσ htouched) htracked (fun hunsettled => ?_) fun c hc => ?_
  · rw [hwrote]
    exact ⟨hsettled ▸ hunsettled, fun cid hcid => .inl hcid⟩
  · exact h.unharmed i σ c hσ (hcleanup ▸ hc)

/-- A cleanup goes on. -/
theorem Safe.cleanupAt {stage : CleanupStage Cid} (h : Safe w) (hσ : w.sessions[i]? = some σ)
    (hstage : ∀ cid, stage.cid = some cid → cid ∈ σ.created)
    (hunharmed : Unharmed w i { c with stage }) :
    Safe (w.setSession i (σ.cleanupAt c stage)) := by
  refine h.set hσ (h.counted.set hσ rfl) ((h.tracked i σ hσ).cleanupAt hstage)
    (fun hunsettled => ⟨hunsettled, fun cid hcid => .inl hcid⟩) ?_
  rintro _ ⟨⟩
  exact hunharmed

omit [DecidableEq Cid] in
/-- Neither the blocks nor the counts change an answer that a cleanup rests on. -/
theorem Guarded.counts {present : Cid → Bool} {inFlightBlocks : Cid → Nat} (h : Guarded w) :
    Guarded { w with present, inFlightBlocks } :=
  ⟨h.tracked, fun i σ c hσ hc =>
    ⟨(h.unharmed i σ c hσ hc).pinned, (h.unharmed i σ c hσ hc).others⟩⟩

theorem Safe.present {present : Cid → Bool} (h : Safe w) : Safe { w with present } :=
  ⟨h.toGuarded.counts, h.counted.count, h.counted.nodup⟩

theorem Safe.settle {cleanup : Option (Cleanup Cid)} (h : Safe w) (hσ : w.sessions[i]? = some σ)
    (hcleanup : ∀ c, cleanup = some c → c.stage = .next) :
    Safe ({ w with inFlightBlocks := (releaseAll w.inFlightBlocks σ.touched).1 }.setSession i
      (σ.settle cleanup)) := by
  have hguarded : Guarded { w with
      inFlightBlocks := (releaseAll w.inFlightBlocks σ.touched).1 } := h.toGuarded.counts
  refine ⟨⟨tracked_set hguarded hσ ?_, unharmed_set hguarded hσ nofun ?_⟩, h.counted.settle hσ⟩
  · exact (h.tracked i σ hσ).settle fun c hc => by rw [hcleanup c hc]; rfl
  · intro c hc
    have hstage := hcleanup c hc
    have hidle : ∀ cid, c.stage ≠ .deleting cid := by
      rw [hstage]
      exact fun cid => nofun
    exact unharmed_of_stage hidle

theorem Safe.commit (h : Safe w) (hσ : w.sessions[i]? = some σ) : Safe (w.commit i σ) := by
  unfold Uploads.commit
  split
  · exact h
  · exact h.settle hσ nofun

theorem Safe.startCleanup (h : Safe w) (hσ : w.sessions[i]? = some σ) :
    Safe (w.cleanup i σ) := by
  unfold Uploads.cleanup
  split
  · exact h
  · refine h.settle hσ ?_
    rintro _ ⟨⟩
    rfl

theorem Safe.visit (h : Safe w) (hσ : w.sessions[i]? = some σ) :
    Safe (w.setSession i (σ.visit c)) := by
  unfold UploadSession.visit
  split
  · exact h.cleanupAt hσ nofun (unharmed_of_stage nofun)
  · next cid hcid =>
    dsimp only
    split
    · refine h.cleanupAt hσ ?_ (unharmed_of_stage nofun)
      rintro _ ⟨⟩
      exact List.mem_of_getElem? hcid
    · exact h.cleanupAt hσ nofun (unharmed_of_stage nofun)

/-- The block is deleted only if no upload refers to it: so none has put it. -/
theorem Safe.checkBlock {pinned : Bool} (h : Safe w) (hσ : w.sessions[i]? = some σ)
    (hc : σ.cleanup = some c) (hstage : c.stage = .answered cid pinned)
    (hcareful : pinned = false → w.isBlockInFlight cid = false → w.pinned cid = false) :
    Safe (w.setSession i (σ.cleanupAt c
      (if pinned || w.isBlockInFlight cid then .next else .deleting cid))) := by
  split
  · exact h.cleanupAt hσ nofun (unharmed_of_stage nofun)
  · next hfree =>
    simp only [Bool.or_eq_true, not_or, Bool.not_eq_true] at hfree
    obtain ⟨rfl, hzero⟩ := hfree
    refine h.cleanupAt hσ ?_ ⟨?_, ?_⟩
    · rintro _ ⟨⟩
      exact (h.tracked i σ hσ).cleanup c hc cid (by rw [hstage]; rfl)
    · rintro _ ⟨⟩
      exact hcareful rfl hzero
    · rintro _ ⟨⟩ j τ _ hτ hunsettled hwrote
      exact h.counted.not_touched hzero hτ ((h.tracked j τ hτ).wrote hunsettled cid hwrote)

theorem Step.safe (hstep : Step w a w') (h : Safe w) (hcareful : Careful w a) : Safe w' := by
  cases hstep with
  | openSession =>
    refine ⟨⟨fun j τ hτ => ?_, fun j τ c hτ hc => ?_⟩, Step.openSession.counted h.counted⟩
    · rcases session_append hτ with hτ | rfl
      · exact h.tracked j τ hτ
      · exact ⟨nofun, nofun, nofun, nofun, nofun⟩
    · rcases session_append hτ with hτ | rfl
      · have hunharmed := h.unharmed j τ c hτ hc
        refine ⟨hunharmed.pinned, fun cid hstage j' τ' hj' hτ' hunsettled => ?_⟩
        rcases session_append hτ' with hτ' | rfl
        · exact hunharmed.others cid hstage j' τ' hj' hτ' hunsettled
        · exact List.not_mem_nil
      · cases hc
  | @put i σ cid hσ =>
    have htracked := h.tracked i σ hσ
    refine h.setPuts hσ ⟨htracked.touched, htracked.wrote, fun put hput existed hstage => ?_,
      htracked.created, htracked.cleanup⟩ rfl rfl rfl rfl
    rcases List.mem_append.1 hput with hput | hput
    · exact htracked.putting put hput existed hstage
    · rw [List.mem_singleton.1 hput] at hstage
      rcases hstage with hstage | hstage <;> cases hstage
  | has hσ =>
    refine h.setPuts hσ ((h.tracked _ _ hσ).setPut ?_) rfl rfl rfl rfl
    rintro existed (hstage | hstage) <;> cases hstage
  | @touch i p σ cid existed hσ hput =>
    have hguarded : Guarded { w with
        inFlightBlocks :=
          if cid ∈ σ.touched then w.inFlightBlocks else retainBlock w.inFlightBlocks cid } :=
      h.toGuarded.counts
    have htracked : Tracked ((σ.touch cid (w.present cid)).setPut p ⟨cid, .writing existed⟩) := by
      refine (h.tracked i σ hσ).touch ?_
      rintro rfl
      exact hcareful σ cid hσ hput
    refine ⟨⟨tracked_set hguarded hσ htracked, unharmed_set hguarded hσ ?_ ?_⟩,
      h.counted.touch hσ⟩
    · exact fun hunsettled => ⟨hunsettled, fun cid hcid => .inl hcid⟩
    · exact fun c hc => hguarded.unharmed i σ c hσ hc
  | @write i p σ cid existed hσ hput =>
    have htracked := h.tracked i σ hσ
    have hputting := htracked.putting _ (List.mem_of_getElem? hput) existed (.inl rfl)
    have hsafe : Safe { w with present := Function.update w.present cid true } := h.present
    have hwrote : Tracked { σ with wrote := σ.wrote ++ [cid] } := by
      refine ⟨htracked.touched, fun hunsettled k hk => ?_, htracked.putting, htracked.created,
        htracked.cleanup⟩
      rcases List.mem_append.1 hk with hk | hk
      · exact htracked.wrote hunsettled k hk
      · rw [List.mem_singleton.1 hk]
        exact hputting.1 hunsettled
    refine hsafe.set hσ (hsafe.counted.set hσ rfl) (hwrote.setPut ?_)
      (fun hunsettled => ⟨hunsettled, fun k hk => ?_⟩) fun c hc => hsafe.unharmed i σ c hσ hc
    · rintro e (hstage | hstage) <;> cases hstage
      exact hputting
    · rcases List.mem_append.1 hk with hk | hk
      · exact .inl hk
      · rw [List.mem_singleton.1 hk]
        exact .inr (hcareful σ cid existed hσ hunsettled hput)
  | @finish i p σ cid existed hσ hput =>
    have htracked := h.tracked i σ hσ
    obtain ⟨-, hever, hfound⟩ :=
      htracked.putting _ (List.mem_of_getElem? hput) existed (.inr rfl)
    have hcreate := htracked.create hever hfound
    refine h.setPuts hσ (hcreate.setPut ?_) ?_ ?_ ?_ ?_
    · rintro e (hstage | hstage) <;> cases hstage
    all_goals
      unfold UploadSession.create
      split <;> rfl
  | failPut hσ =>
    refine h.setPuts hσ ((h.tracked _ _ hσ).setPut ?_) rfl rfl rfl rfl
    rintro existed (hstage | hstage) <;> cases hstage
  | @claim i σ hσ =>
    have htracked : Tracked σ.claim := by
      have htracked := h.tracked i σ hσ
      unfold UploadSession.claim
      split
      · exact htracked
      · exact ⟨htracked.touched, htracked.wrote, htracked.putting, htracked.created,
          htracked.cleanup⟩
    refine h.setPuts hσ htracked ?_ ?_ ?_ ?_
    all_goals
      unfold UploadSession.claim
      split <;> rfl
  | commit hσ => exact h.commit hσ
  | cleanup hσ => exact h.startCleanup hσ
  | cleanupIfUnclaimed hσ =>
    unfold Uploads.cleanupIfUnclaimed
    split
    · exact h
    · exact h.startCleanup hσ
  | visit hσ => exact h.visit hσ
  | @isPinned i σ c cid hσ hc hstage =>
    refine h.cleanupAt hσ ?_ (unharmed_of_stage nofun)
    rintro _ ⟨⟩
    exact (h.tracked i σ hσ).cleanup c hc cid (by rw [hstage]; rfl)
  | @checkBlock i σ c cid pinned hσ hc hstage =>
    refine h.checkBlock hσ hc hstage ?_
    rintro rfl
    exact hcareful σ c cid hσ hc hstage
  | @delete i σ c cid hσ hc hstage =>
    have hsafe : Safe { w with present := Function.update w.present cid false } := h.present
    refine hsafe.cleanupAt hσ ?_ (unharmed_of_stage nofun)
    rintro _ ⟨⟩
    exact (h.tracked i σ hσ).cleanup c hc cid (by rw [hstage]; rfl)
  | finishDelete hσ | failCleanup hσ =>
    exact h.cleanupAt hσ nofun (unharmed_of_stage nofun)
  | @pin cid =>
    refine ⟨⟨h.tracked, fun j τ c hτ hc => ?_⟩, h.counted.count, h.counted.nodup⟩
    have hunharmed := h.unharmed j τ c hτ hc
    refine ⟨fun k hk => ?_, hunharmed.others⟩
    have hne : k ≠ cid := fun heq => hcareful j τ c hτ hc (heq ▸ hk)
    show Function.update w.pinned cid true k = false
    rw [Function.update_of_ne hne]
    exact hunharmed.pinned k hk

theorem start_safe (present pinned : Cid → Bool) : Safe (start present pinned) :=
  ⟨⟨nofun, nofun⟩, start_counted present pinned⟩

theorem run_safe {present pinned : Cid → Bool}
    (hrun : Run Step Careful (start present pinned) w) : Safe w :=
  hrun.invariant (start_safe present pinned) fun _ _ _ h hcareful hstep => hstep.safe h hcareful

/-- A block goes only with the deletion of a cleanup. -/
theorem Step.deletes (hstep : Step w a w') (hbefore : w.present cid = true)
    (hafter : w'.present cid = false) :
    ∃ i σ c, a = .delete i ∧ w.sessions[i]? = some σ ∧ σ.cleanup = some c ∧
      c.stage = .deleting cid := by
  have hsame : w'.present ≠ w.present := by
    intro heq
    rw [heq, hbefore] at hafter
    cases hafter
  cases hstep with
  | openSession | put | has | touch | finish | failPut | claim | visit | isPinned | checkBlock
  | finishDelete | failCleanup | pin => exact absurd rfl hsame
  | commit | cleanup =>
    refine absurd ?_ hsame
    first | unfold Uploads.commit | unfold Uploads.cleanup
    split <;> rfl
  | cleanupIfUnclaimed =>
    refine absurd ?_ hsame
    unfold Uploads.cleanupIfUnclaimed Uploads.cleanup
    split
    · rfl
    · split <;> rfl
  | @write i p σ c existed hσ hput =>
    have hafter' : Function.update w.present c true cid = false := hafter
    by_cases hc : cid = c
    · rw [hc, Function.update_self] at hafter'
      cases hafter'
    · rw [Function.update_of_ne hc, hbefore] at hafter'
      cases hafter'
  | @delete i σ c k hσ hcleanup hstage =>
    have hafter' : Function.update w.present k false cid = false := hafter
    by_cases hk : cid = k
    · exact ⟨i, σ, c, rfl, hσ, hcleanup, hk ▸ hstage⟩
    · rw [Function.update_of_ne hk, hbefore] at hafter'
      cases hafter'

end Invariant

/-- A block that goes was created by the session whose cleanup deletes it: it was
not there before, no other session that goes on has put it, and it is not pinned. -/
theorem cleanup_deletes_own {present pinned : Cid → Bool} {w w' : Uploads Cid} {a : Action Cid}
    {cid : Cid} (hrun : Run Step Careful (start present pinned) w) (hstep : Step w a w')
    (hbefore : w.present cid = true) (hafter : w'.present cid = false) :
    ∃ i σ, a = .delete i ∧ w.sessions[i]? = some σ ∧ cid ∈ σ.created ∧ cid ∉ σ.found ∧
      w.pinned cid = false ∧
      ∀ (j : Nat) τ, j ≠ i → w.sessions[j]? = some τ → τ.settled = false → cid ∉ τ.wrote := by
  have h := run_safe hrun
  obtain ⟨i, σ, c, ha, hσ, hc, hstage⟩ := hstep.deletes hbefore hafter
  have hcreated := (h.tracked i σ hσ).cleanup c hc cid (by rw [hstage]; rfl)
  have hunharmed := h.unharmed i σ c hσ hc
  exact ⟨i, σ, ha, hσ, hcreated, ((h.tracked i σ hσ).created cid hcreated).2,
    hunharmed.pinned cid hstage, hunharmed.others cid hstage⟩

/-! ## Two uploads of one block -/

section TwoUploads

/-- No block, no pin, no upload. -/
def nothing : Uploads Nat := start (fun _ => false) (fun _ => false)

/-- A session has put its block. -/
def createdUploads : Uploads Nat where
  present := Function.update (fun _ => false) 7 true
  pinned := fun _ => false
  inFlightBlocks := Function.update (fun _ => 0) 7 1
  sessions :=
    [{ UploadSession.new with
        touched := [7], created := [7], puts := [⟨7, .done⟩], everTouched := [7], wrote := [7] }]

theorem run_created : Run Step Careful nothing createdUploads := by
  have hasked : Run Step Careful nothing _ :=
    .next (a := .has 0 0) (.next (a := .put 0 7) (.next (a := .openSession) .start trivial
      .openSession) trivial (.put rfl)) trivial (.has rfl rfl)
  have htouched : Run Step Careful nothing _ :=
    .next (a := .touch 0 0) hasked
      (by rintro _ _ ⟨⟩ ⟨⟩; exact ⟨List.not_mem_nil, fun _ => rfl⟩) (.touch rfl rfl)
  have hwritten : Run Step Careful nothing _ :=
    .next (a := .write 0 0) htouched
      (by
        intro _ _ _ _ _ _ j τ _ hj hτ
        cases j with
        | zero => exact absurd rfl hj
        | succ j => cases hτ)
      (.write rfl rfl)
  have hfinished : Run Step Careful nothing _ :=
    .next (a := .finish 0 0) hwritten trivial (.finish rfl rfl)
  exact hfinished

/-- It fails, and its cleanup is about to delete the block. -/
def deletingUploads : Uploads Nat where
  present := Function.update (fun _ => false) 7 true
  pinned := fun _ => false
  inFlightBlocks := Function.update (Function.update (fun _ => 0) 7 1) 7 0
  sessions :=
    [{ UploadSession.new with
        settled := true, created := [7], puts := [⟨7, .done⟩], everTouched := [7], wrote := [7]
        cleanup := some { releasable := [7], position := 1, stage := .deleting 7 } }]

theorem run_deleting : Run Step Careful nothing deletingUploads := by
  have hvisited : Run Step Careful nothing _ :=
    .next (a := .visit 0) (.next (a := .cleanup 0) run_created trivial (.cleanup rfl)) trivial
      (.visit rfl rfl rfl)
  have hchecked : Run Step Careful nothing _ :=
    .next (a := .checkBlock 0) (.next (a := .isPinned 0) hvisited trivial (.isPinned rfl rfl rfl))
      (by rintro _ _ _ ⟨⟩ ⟨⟩ ⟨⟩ _; rfl) (.checkBlock rfl rfl rfl)
  exact hchecked

theorem cleanup_deletes_own_created :
    ∃ i σ, (Action.delete 0 : Action Nat) = .delete i ∧ deletingUploads.sessions[i]? = some σ ∧
      7 ∈ σ.created ∧ 7 ∉ σ.found ∧ deletingUploads.pinned 7 = false ∧
      ∀ (j : Nat) τ, j ≠ i → deletingUploads.sessions[j]? = some τ → τ.settled = false →
        7 ∉ τ.wrote := by
  have hdelete : Step deletingUploads (.delete 0) _ := .delete rfl rfl rfl
  exact cleanup_deletes_own run_deleting hdelete rfl rfl

/-- Another upload has put the block in the meantime. -/
def sharedUploads : Uploads Nat where
  present := Function.update (Function.update (fun _ => false) 7 true) 7 true
  pinned := fun _ => false
  inFlightBlocks :=
    Function.update (Function.update (Function.update (fun _ => 0) 7 1) 7 0) 7 1
  sessions :=
    [{ UploadSession.new with
        settled := true, created := [7], puts := [⟨7, .done⟩], everTouched := [7], wrote := [7]
        cleanup := some { releasable := [7], position := 1, stage := .deleting 7 } },
      { UploadSession.new with
        touched := [7], puts := [⟨7, .done⟩], everTouched := [7], found := [7], wrote := [7] }]

theorem run_shared : Run Step always nothing sharedUploads := by
  have hasked : Run Step always nothing _ :=
    .next (a := .has 1 0) (.next (a := .put 1 7) (.next (a := .openSession) run_deleting.free
      trivial .openSession) trivial (.put rfl)) trivial (.has rfl rfl)
  have hfinished : Run Step always nothing _ :=
    .next (a := .finish 1 0) (.next (a := .write 1 0) (.next (a := .touch 1 0) hasked trivial
      (.touch rfl rfl)) trivial (.write rfl rfl)) trivial (.finish rfl rfl)
  exact hfinished

/-- The cleanup removes what the other upload, which goes on, has put. -/
theorem cleanup_deletes_shared : ∃ w w', Run Step always nothing w ∧ Step w (.delete 0) w' ∧
    w.present 7 = true ∧ w'.present 7 = false ∧
    ∃ τ, w.sessions[1]? = some τ ∧ τ.settled = false ∧ 7 ∈ τ.wrote := by
  have hdelete : Step sharedUploads (.delete 0) _ := .delete rfl rfl rfl
  exact ⟨sharedUploads, _, run_shared, hdelete, rfl, rfl, _, rfl, rfl, List.mem_singleton_self 7⟩

end TwoUploads

end Uploads

end IpfsNode
