import IpfsNode.Node

/-!
# Policies

A policy says, CID by CID, which record may be stored, which pins and blocks
have to stay, and what process memory may hold. `Safe content P p`: whatever
fails, the code `p` keeps the policy `P`. The rules reduce this for each
transition to the records it may store and the pins it may remove; putting back
what was read is always allowed.
-/

namespace IpfsNode

section Policies

variable {Cid α β : Type} [DecidableEq Cid]

structure Policy (Cid : Type) where
  record : Cid → Option (FileRecord Cid) → Prop
  pin : Cid → Prop
  process : Process Cid → Prop
  block : Cid → Prop := fun _ => False
  /-- Revisions do not matter. -/
  stamped : ∀ {cid r} n, record cid (some r) → record cid (some (r.stamped n))

structure Policy.Holds (P : Policy Cid) (w : World Cid) : Prop where
  record : ∀ cid, P.record cid (w.files.get cid)
  pin : ∀ cid, P.pin cid → cid ∈ w.pins
  process : P.process w.proc
  block : ∀ b, P.block b → b ∈ w.blocks

/-- What code may find under a CID. -/
def Policy.Reads (P : Policy Cid) (cid : Cid) (record : Option (FileRecord Cid)) : Prop :=
  P.record cid record ∧ ∀ r, record = some r → r.cid = cid

/-- What code may store. -/
def Policy.Allows (P : Policy Cid) (record : FileRecord Cid) : Prop :=
  P.record record.cid (some record)

omit [DecidableEq Cid] in
theorem Policy.Allows.stamped {P : Policy Cid} {record : FileRecord Cid}
    (h : P.Allows record) (n : Nat) : P.Allows (record.stamped n) :=
  P.stamped n h

omit [DecidableEq Cid] in
theorem Policy.Reads.allows {P : Policy Cid} {cid : Cid} {record : FileRecord Cid}
    (h : P.Reads cid (some record)) : P.Allows record := by
  have hcid := h.2 record rfl
  unfold Policy.Allows
  rw [hcid]
  exact h.1

theorem Policy.Holds.reads {P : Policy Cid} {w : World Cid} (h : P.Holds w) (cid : Cid) :
    P.Reads cid (w.files.get cid) :=
  ⟨h.record cid, fun _ hr => Registry.cid_of_get hr⟩

/-- Whatever fails, `p` keeps the policy at every step, and its result
satisfies `φ`. -/
def Keeps (content : Content Cid) (P : Policy Cid) (p : Store Cid α)
    (φ : Except (LifecycleError Cid) α → Prop) : Prop :=
  Prog.Keeps (Prog.visiting (storeSem content anyFault)) (Prog.Throughout P.Holds) p φ

def Safe (content : Content Cid) (P : Policy Cid) (p : Store Cid α) : Prop :=
  Keeps content P p fun _ => True

variable {content : Content Cid} {P : Policy Cid}
variable {φ ψ : Except (LifecycleError Cid) α → Prop}

theorem runs_visiting_anyFault {faults : Faults Cid} {p : Store Cid α}
    {s s' : World Cid × List (World Cid)} {r : Except (LifecycleError Cid) α}
    (h : Prog.Runs (Prog.visiting (storeSem content faults)) p s r s') :
    Prog.Runs (Prog.visiting (storeSem content anyFault)) p s r s' :=
  h.mono fun _ _ _ _ hstep => ⟨hstep.1.mono fun _ _ => trivial, hstep.2⟩

/-- The policy holds in every state a run passes through. -/
theorem Keeps.visited {faults : Faults Cid} {p : Store Cid α} (h : Keeps content P p φ)
    {s s' : World Cid × List (World Cid)} {r : Except (LifecycleError Cid) α}
    (hs : Prog.Throughout P.Holds s)
    (hruns : Prog.Runs (Prog.visiting (storeSem content faults)) p s r s') :
    Prog.Throughout P.Holds s' ∧ φ r :=
  Prog.wp_iff_runs.mp (h s hs) r s' (runs_visiting_anyFault hruns)

theorem Keeps.wp {faults : Faults Cid} {p : Store Cid α} (h : Keeps content P p φ)
    {w : World Cid} (hw : P.Holds w) :
    Prog.wp (storeSem content faults) p (fun r w' => P.Holds w' ∧ φ r) w := by
  refine Prog.wp_iff_runs.mpr fun r w' hruns => ?_
  obtain ⟨after, hvisited⟩ := hruns.visiting []
  have hs : Prog.Throughout P.Holds (w, []) := ⟨hw, by simp⟩
  obtain ⟨hheld, hφ⟩ := h.visited hs hvisited
  exact ⟨hheld.1, hφ⟩

theorem Safe.holds {faults : Faults Cid} {p : Store Cid α} (h : Safe content P p)
    {w w' : World Cid} {r : Except (LifecycleError Cid) α} (hw : P.Holds w)
    (hruns : Prog.Runs (storeSem content faults) p w r w') : P.Holds w' :=
  (Prog.wp_iff_runs.mp (Keeps.wp h hw) r w' hruns).1

theorem keeps_request {o : StoreOp Cid} {φ : Except (LifecycleError Cid) o.Ret → Prop}
    (h : ∀ w, P.Holds w → P.Holds (o.effect content w).2 ∧ φ (o.effect content w).1)
    (hio : o.fallible = true → φ (.error .io)) : Keeps content P (request o) φ := by
  refine Prog.Keeps.perform ?_
  rintro ⟨w, before⟩ hs r ⟨w', visited⟩ ⟨hstep, hvisited⟩
  suffices H : P.Holds w' ∧ φ r from ⟨hs.step H.1 hvisited, H.2⟩
  have hw : P.Holds w := hs.1
  cases hstep with
  | served => exact h w hw
  | failed _ hf => exact ⟨hw, hio hf⟩
  | landed _ hl =>
      refine ⟨(h w hw).1, hio ?_⟩
      cases o <;> first | rfl | cases hl

theorem safe_request {o : StoreOp Cid}
    (h : ∀ w, P.Holds w → P.Holds (o.effect content w).2) : Safe content P (request o) :=
  keeps_request (fun w hw => ⟨h w hw, trivial⟩) fun _ => trivial

theorem safe_pure (a : α) : Safe content P (pure a : Store Cid α) :=
  Prog.Keeps.pure trivial

theorem safe_throw (err : LifecycleError Cid) : Safe content P (throw err : Store Cid α) :=
  Prog.Keeps.throw trivial

theorem Keeps.safe {p : Store Cid α} (h : Keeps content P p φ) : Safe content P p :=
  Prog.Keeps.mono h fun _ _ => trivial

theorem safe_bind {p : Store Cid α} {f : α → Store Cid β} (hp : Safe content P p)
    (hf : ∀ a, Safe content P (f a)) : Safe content P (p >>= f) :=
  Prog.Keeps.bind hp (fun a _ => hf a) fun _ _ => trivial

/-- The continuation may use what the first part is known to return. -/
theorem Keeps.safe_bind {p : Store Cid α} {f : α → Store Cid β} (hp : Keeps content P p φ)
    (hf : ∀ a, φ (.ok a) → Safe content P (f a)) : Safe content P (p >>= f) :=
  Prog.Keeps.bind hp hf fun _ _ => trivial

theorem safe_tryCatch {p : Store Cid α} {h : LifecycleError Cid → Store Cid α}
    (hp : Safe content P p) (hh : ∀ err, Safe content P (h err)) :
    Safe content P (tryCatch p h) :=
  Prog.Keeps.tryCatch hp (fun err _ => hh err) fun _ _ => trivial

theorem safe_attempt {p : Store Cid α} (hp : Safe content P p) :
    Safe content P p.attempt :=
  (Prog.Keeps.attempt hp).mono fun _ _ => trivial

/-- Compensation passes through the states it would pass through as ordinary
code. -/
theorem runs_visiting_compensating {p : Store Cid α} {s s' : World Cid × List (World Cid)}
    {r : Except (LifecycleError Cid) α}
    (h : Prog.Runs (Prog.visiting (storeSem content anyFault)) (compensating p) s r s') :
    Prog.Runs (Prog.visiting (storeSem content anyFault)) p s r s' := by
  induction p generalizing s with
  | ret a => cases h; exact .ret
  | fail err => cases h; exact .fail
  | act q k ih =>
      cases h with
      | act hstep hk => exact .act ⟨hstep.1.of_compensating, hstep.2⟩ (ih _ hk)

theorem Keeps.compensating {p : Store Cid α} (hp : Keeps content P p φ) :
    Keeps content P (compensating p) φ := fun w hw =>
  Prog.wp_iff_runs.mpr fun r w' hr =>
    Prog.wp_iff_runs.mp (hp w hw) r w' (runs_visiting_compensating hr)

theorem safe_compensating {p : Store Cid α} (hp : Safe content P p) :
    Safe content P (compensating p) :=
  Keeps.compensating hp

/-! ### Requests -/

theorem keeps_get (cid : Cid) :
    Keeps content P (Locked.get cid) fun r =>
      ∀ record, r = .ok record → P.Reads cid record :=
  keeps_request (fun _ hw => ⟨hw, fun _ h => Except.ok.inj h ▸ hw.reads cid⟩)
    fun _ _ => nofun

theorem keeps_process :
    Keeps content P process fun r => ∀ proc, r = .ok proc → P.process proc :=
  keeps_request (fun _ hw => ⟨hw, fun _ h => Except.ok.inj h ▸ hw.process⟩)
    fun _ _ => nofun

theorem safe_get_bind {cid : Cid} {f : Option (FileRecord Cid) → Store Cid β}
    (h : ∀ record, P.Reads cid record → Safe content P (f record)) :
    Safe content P (Locked.get cid >>= f) :=
  (keeps_get cid).safe_bind fun record hr => h record (hr record rfl)

theorem safe_process_bind {f : Process Cid → Store Cid β}
    (h : ∀ proc, P.process proc → Safe content P (f proc)) :
    Safe content P (process >>= f) :=
  keeps_process.safe_bind fun proc hr => h proc (hr proc rfl)

/-- A record that was stored is the given one under a revision of its own. -/
theorem keeps_save {record : FileRecord Cid} (h : P.Allows record) :
    Keeps content P (Locked.save record) fun r =>
      ∀ stored, r = .ok stored → ∃ n, stored = record.stamped n := by
  by_cases hvalid : isFileRecord record = true
  · rw [Locked.save_valid hvalid]
    refine keeps_request (fun w hw => ⟨⟨fun cid => ?_, hw.pin, hw.process, hw.block⟩, ?_⟩) fun _ _ h => by cases h
    · simp only [StoreOp.effect, Registry.get_put]
      split
      · rename_i hcid
        rw [hcid]
        exact P.stamped _ h
      · exact hw.record cid
    · exact fun stored hr => ⟨w.nextRevision, (Except.ok.inj hr).symm⟩
  · rw [Locked.save_invalid (by simpa using hvalid)]
    exact Prog.Keeps.throw fun _ h => by cases h

theorem safe_save {record : FileRecord Cid} (h : P.Allows record) :
    Safe content P (Locked.save record) :=
  (keeps_save h).safe

theorem safe_remove {cid : Cid} (h : P.record cid none) :
    Safe content P (Locked.remove cid) := by
  refine safe_request fun w hw => ⟨fun cid' => ?_, hw.pin, hw.process, hw.block⟩
  simp only [StoreOp.effect, Registry.get_delete]
  split
  · rename_i hcid
    rw [hcid]
    exact h
  · exact hw.record cid'

theorem safe_markPinIntent (cid : Cid) : Safe content P (Locked.markPinIntent cid) :=
  safe_request fun _ hw => ⟨hw.record, hw.pin, hw.process, hw.block⟩

theorem safe_clearPinIntent (cid : Cid) : Safe content P (Locked.clearPinIntent cid) :=
  safe_request fun _ hw => ⟨hw.record, hw.pin, hw.process, hw.block⟩

/-- A pin that was created was missing before, so the policy does not need it. -/
theorem keeps_pinFile (cid : Cid) :
    Keeps content P (pinFile cid) fun r => r = .ok true → ¬ P.pin cid := by
  have hadd : Keeps content P (request (.pinsAdd cid)) fun r =>
      r = .ok () → ¬ P.pin cid := by
    refine keeps_request (fun w hw => ?_) fun _ h => by cases h
    simp only [StoreOp.effect]
    split
    · exact ⟨hw, fun h => by cases h⟩
    · rename_i hnot
      refine ⟨⟨hw.record, fun cid' hpin => ?_, hw.process, fun b hb => ?_⟩,
        fun _ hpin => hnot (hw.pin _ hpin)⟩
      · exact Finset.mem_insert_of_mem (hw.pin cid' hpin)
      · exact Finset.mem_union_left _ (hw.block b hb)
  have hbody : Keeps content P (do request (.pinsAdd cid); pure true) fun r =>
      r = .ok true → ¬ P.pin cid :=
    Prog.Keeps.bind hadd (fun _ hr => Prog.Keeps.pure fun _ => hr rfl)
      fun _ _ h => by cases h
  refine Prog.Keeps.tryCatch hbody (fun err _ => ?_) fun _ hr => hr
  cases err <;> first
    | exact Prog.Keeps.pure (fun h => by cases h)
    | exact Prog.Keeps.throw (fun h => by cases h)

theorem safe_pinFile (cid : Cid) : Safe content P (pinFile cid) :=
  (keeps_pinFile cid).safe

theorem safe_unpinFile {cid : Cid} (h : ¬ P.pin cid) : Safe content P (unpinFile cid) := by
  refine safe_tryCatch (safe_bind (safe_request fun w hw => ?_) fun _ => safe_pure _) ?_
  · show P.Holds (StoreOp.effect content (.pinsRm cid) w).2
    simp only [StoreOp.effect]
    split
    · refine ⟨hw.record, fun cid' hpin => ?_, hw.process, hw.block⟩
      exact Finset.mem_erase.mpr ⟨fun heq => h (heq ▸ hpin), hw.pin cid' hpin⟩
    · exact hw
  · intro err
    cases err <;> first | exact safe_pure _ | exact safe_throw _

theorem keeps_isDirectlyPinned (cid : Cid) :
    Keeps content P (isDirectlyPinned cid) fun r => r = .ok false → ¬ P.pin cid := by
  have hget : Keeps content P (request (.pinsGet cid)) fun r =>
      r = .error .pinNotFound → ¬ P.pin cid := by
    refine keeps_request (fun w hw => ?_) fun _ h => by cases h
    simp only [StoreOp.effect]
    split
    · exact ⟨hw, fun h => by cases h⟩
    · rename_i hnot
      exact ⟨hw, fun _ hpin => hnot (hw.pin cid hpin)⟩
  have hbody : Keeps content P (do request (.pinsGet cid); pure true) fun r =>
      (r = .error .pinNotFound → ¬ P.pin cid) ∧ r ≠ .ok false := by
    refine Prog.Keeps.bind hget (fun _ _ => Prog.Keeps.pure ?_) fun err herr => ?_
    · exact ⟨(fun h => by cases h), fun h => by cases h⟩
    · exact ⟨fun hr => herr (by cases hr; rfl), fun h => by cases h⟩
  refine Prog.Keeps.tryCatch hbody (fun err herr => ?_) fun _ hr h => absurd h hr.2
  cases err <;> first
    | exact Prog.Keeps.pure fun _ => herr.1 rfl
    | exact Prog.Keeps.throw (fun h => by cases h)

theorem safe_isDirectlyPinned (cid : Cid) : Safe content P (isDirectlyPinned cid) :=
  (keeps_isDirectlyPinned cid).safe

theorem safe_isProtected (cid : Cid) : Safe content P (isProtected cid) :=
  safe_request fun _ hw => hw

theorem safe_statDag (cid : Cid) : Safe content P (statDag cid) := by
  refine safe_request fun w hw => ?_
  simp only [StoreOp.effect]
  split <;> exact hw

theorem safe_hasLocalDag (cid : Cid) : Safe content P (hasLocalDag cid) :=
  safe_tryCatch (safe_bind (safe_statDag cid) fun _ => safe_pure _) fun _ => safe_pure _

/-! ### Permanent copies -/

/-- A permanent copy of `cid` stays one. -/
def durablePolicy (cid : Cid) : Policy Cid where
  record cid' record := cid' = cid → ∃ stored, record = some stored ∧ stored.isDurable = true
  pin cid' := cid' = cid
  process _ := True
  stamped := by
    intro cid' record n h heq
    obtain ⟨stored, hstored, hdurable⟩ := h heq
    cases hstored
    exact ⟨_, rfl, hdurable⟩

theorem holds_durablePolicy {w : World Cid} {cid : Cid} :
    (durablePolicy cid).Holds w ↔ w.holdsDurably cid = true := by
  unfold World.holdsDurably
  rw [Bool.and_eq_true, decide_eq_true_eq, Option.any_eq_true]
  constructor
  · intro h
    obtain ⟨stored, hstored, hdurable⟩ := h.record cid rfl
    exact ⟨h.pin cid rfl, stored, hstored, hdurable⟩
  · rintro ⟨hpin, stored, hstored, hdurable⟩
    refine ⟨fun cid' heq => ?_, fun cid' heq => ?_, trivial, fun _ => False.elim⟩
    · exact ⟨stored, heq ▸ hstored, hdurable⟩
    · exact heq ▸ hpin

end Policies

end IpfsNode
