import IpfsNode.TaskSafety

/-!
# One owner at a time

A file that an upload in flight or a repair pass owns is changed by its owner
only. Everybody else may touch the replica list, the sizes and the revision of
its record, and restore its pin; recovery alone may take away a token whose
upload has ended.
-/

namespace IpfsNode

section Ownership

variable {Cid : Type} [DecidableEq Cid] {content : Content Cid} {faults : Faults Cid}
variable {site : Site Cid} {t : LifeTask} {past : LifePast Cid} {o : LifeOp Cid}
variable {w' : World Cid} {cid : Cid} {current : FileRecord Cid}

theorem World.Keeps.of_same {w : World Cid} (hfiles : w'.files = w.files)
    (hpins : w'.pins = w.pins) : w.Keeps w' cid :=
  ⟨by rw [hfiles], fun hpin => hpins ▸ hpin⟩

/-- Beginning and ending a request or a claim changes process memory only. -/
theorem keeps_of_owners {op : LocalOp Cid} (howners : op.leavesOwners = false)
    {r : Except (LifecycleError Cid) op.Ret} {w : World Cid}
    (hrun : Prog.Runs (storeSem content anyFault) op.body w r w') : w.Keeps w' cid := by
  cases op with
  | beginAdmission id =>
      have hafter := (runs_request rfl rfl hrun).2
      simp only [StoreOp.effect] at hafter
      split at hafter
      · exact .of_same (by rw [hafter]) (by rw [hafter])
      · exact .of_same (by rw [hafter]) (by rw [hafter])
  | endAdmission id =>
      have hafter := (runs_request rfl rfl hrun).2
      exact .of_same (by rw [hafter]; rfl) (by rw [hafter]; rfl)
  | claimRepairRecord selected =>
      rcases Prog.wp_iff_runs.mp wp_claimRepairRecord _ _ hrun with ⟨-, hsame⟩ | ⟨-, -, -, hafter⟩
      · exact .of_same (by rw [hsame]) (by rw [hsame])
      · exact .of_same (by rw [hafter]) (by rw [hafter])
  | releaseRepairRecord file =>
      have hafter := (runs_request rfl rfl hrun).2
      exact .of_same (by rw [hafter]; rfl) (by rw [hafter]; rfl)
  | _ => cases howners

/-- A step of the node that is a stranger to an owned file leaves it alone. -/
theorem keeps_of_step (hinv : LifeInvariant past) (hpre : o.Allowed site t past)
    (hget : past.1.files.get cid = some current) (howned : past.1.Owned current)
    (hstranger : ∀ op, o.local = some op → op.Stranger past.1 current)
    {r : Except (LifecycleError Cid) o.Ret} (hstep : lifeSem content faults o past.1 r w') :
    past.1.Keeps w' cid := by
  rcases lifeSem_cases hstep with ⟨op, r', hop, hrun⟩ | ⟨-, rfl⟩
  · cases howners : op.leavesOwners with
    | true =>
        exact keeps_of_allowed hinv (hpre op hop) howners hget howned (hstranger op hop) hrun
    | false => exact keeps_of_owners howners hrun
  · exact ⟨rfl, id⟩

/-! ## Recovery -/

/-- The token of the file may go; its record and its pin stay. -/
def forgettingPolicy (w : World Cid) (current : FileRecord Cid) : Policy Cid where
  record cid record := cid = current.cid → ∃ stored, record = some stored ∧
    (stored.core = current.core ∨ stored.core = current.withoutAdmission.core)
  pin cid := cid = current.cid ∧ cid ∈ w.pins
  process _ := True
  stamped := by
    intro cid record n h hcid
    obtain ⟨_, ⟨⟩, hcore⟩ := h hcid
    exact ⟨_, rfl, hcore⟩

omit [DecidableEq Cid] in
theorem core_withoutAdmission {record : FileRecord Cid}
    (h : record.core = current.core ∨ record.core = current.withoutAdmission.core) :
    record.withoutAdmission.core = current.withoutAdmission.core := by
  rw [core_eq_iff]
  rcases h with h | h
  · obtain ⟨hcid, hname, hstate, hcreated, hexpires, hsince, hpinned, hheld, -, -, hstage⟩ :=
      core_eq_iff.mp h
    exact ⟨hcid, hname, hstate, hcreated, hexpires, hsince, hpinned, hheld, rfl, rfl, hstage⟩
  · obtain ⟨hcid, hname, hstate, hcreated, hexpires, hsince, hpinned, hheld, -, -, hstage⟩ :=
      core_eq_iff.mp h
    exact ⟨hcid, hname, hstate, hcreated, hexpires, hsince, hpinned, hheld, rfl, rfl, hstage⟩

theorem permits_forgettingPolicy {w : World Cid} {file : Cid} :
    (forgettingPolicy w current).Permits (.recoverInterruptedAdmission file) where
  aborted _ _ _ := trivial
  block _ := id
  removes _ _ _ := nofun
  unpins _ _ _ _ _ := nofun
  stores := by
    intro proc existing record _ hread _ hstores hcid
    cases hstores
    obtain ⟨_, ⟨⟩, hcore⟩ := hread.1 hcid
    exact ⟨_, rfl, .inr (core_withoutAdmission hcore)⟩

/-- Recovery takes at most the token. -/
theorem keeps_or_forgets {w : World Cid} (hget : w.files.get cid = some current)
    {r : Except (LifecycleError Cid) Bool} (hrun : Prog.Runs (storeSem content anyFault)
      (recoverInterruptedAdmission cid) w r w') :
    w.Keeps w' cid ∨
      ((w'.files.get cid).map FileRecord.core = some current.withoutAdmission.core ∧
        (cid ∈ w.pins → cid ∈ w'.pins)) := by
  have hcid := Registry.cid_of_get hget
  have hsafe : Safe content (forgettingPolicy w current)
      (LocalOp.recoverInterruptedAdmission cid).body :=
    permits_forgettingPolicy.safe rfl (by simp [LocalOp.baselines])
  have hholds : (forgettingPolicy w current).Holds w :=
    ⟨fun cid' heq => ⟨current, by rw [heq, hcid, hget], .inl rfl⟩, fun _ hpin => hpin.2, trivial,
      fun _ => False.elim⟩
  have hholds' := hsafe.holds hholds hrun
  have hpin : cid ∈ w.pins → cid ∈ w'.pins :=
    fun hpin => hholds'.pin cid ⟨hcid.symm, hpin⟩
  obtain ⟨stored, hstored, hcore | hcore⟩ := hholds'.record cid hcid.symm
  · exact .inl ⟨by rw [hstored, hget, Option.map_some, Option.map_some, hcore], hpin⟩
  · exact .inr ⟨by rw [hstored, Option.map_some, hcore], hpin⟩

/-! ## The claim of every run -/

/-- Whatever runs on a node: while the upload whose token a file carries is
running, or while a repair pass has claimed the file, only this upload or this
pass changes the file; and a token its upload never settled is only ever
removed, by recovery. -/
theorem exclusive_ownership {w₀ : World Cid} (h₀ : w₀.Starting)
    {c : Prog.Pool.Config LifeTask (LifeOp Cid) LifeOp.Ret (LifecycleError Cid) (LifePast Cid)}
    (hrun : LifeRun content faults site w₀ c) {past rest : List (LifeEvent Cid)}
    {before after : World Cid} {r : Except (LifecycleError Cid) o.Ret}
    (hevent : c.1.2 = past ++ .request t o before r after :: rest)
    (hget : before.files.get cid = some current) :
    (∀ id, current.admissionId = some id → id ∈ before.proc.activeAdmissions →
      t ≠ .upload id → before.Keeps after cid) ∧
    (cid ∈ before.proc.activeRepairs → ∃ holder, claimant past cid = some holder ∧
      (t ≠ holder → before.Keeps after cid)) ∧
    (isAdmissionSettled current = false →
      before.proc.isActiveAdmission current.admissionId = false →
      before.Keeps after cid ∨
        (o = .node (.run (.recoverInterruptedAdmission cid)) ∧
          (after.files.get cid).map FileRecord.core = some current.withoutAdmission.core ∧
          (cid ∈ before.pins → cid ∈ after.pins))) := by
  obtain ⟨hinv, hpre, hstep⟩ := (coexistence h₀ hrun).2 _ _ _ _ _ _ _ hevent
  have hcid := Registry.cid_of_get hget
  refine ⟨fun id htoken hactive hother => ?_, fun hclaimed => ?_, fun hunsettled hended => ?_⟩
  · have howned : before.Owned current := .inl (by
      rw [isAdmissionInFlight, htoken, isActiveAdmission_some.mpr hactive, Bool.or_true])
    exact keeps_of_step hinv hpre hget howned
      (fun op hop => stranger_of_running htoken hactive (hpre op hop) hother) hstep
  · obtain ⟨holder, hholder⟩ := Option.isSome_iff_exists.mp ((hinv.claims cid).mp hclaimed)
    refine ⟨holder, hholder, fun hother => ?_⟩
    have howned : before.Owned current := .inr (hcid ▸ hclaimed)
    obtain ⟨record, hrecord, -, -, hidle⟩ := hinv.sound.claimed cid hclaimed
    rw [hget] at hrecord
    cases hrecord
    refine keeps_of_step hinv hpre hget howned (fun op hop => ?_) hstep
    refine stranger_of_claimed hidle (hpre op hop) ?_
    rw [hcid, hholder]
    exact fun heq => hother (Option.some.inj heq).symm
  · by_cases hrecover : o.local = some (.recoverInterruptedAdmission cid)
    · rcases o with (op | op) | op
      · cases hrecover
        have hsem : Prog.Runs (storeSem content anyFault) (recoverInterruptedAdmission cid)
            before r after := runs_anyFault hstep
        rcases keeps_or_forgets hget hsem with hkeeps | hforgets
        · exact .inl hkeeps
        · exact .inr ⟨rfl, hforgets⟩
      · cases hrecover
      · cases op <;> cases hrecover
    · have howned : before.Owned current := .inl (by
        rw [isAdmissionInFlight, hunsettled, Bool.not_false, Bool.true_or])
      refine .inl (keeps_of_step hinv hpre hget howned (fun op hop => ?_) hstep)
      refine stranger_of_unsettled hunsettled hended (hpre op hop) fun heq => hrecover ?_
      rw [hop, heq, hcid]

end Ownership

/-! ## An upload among other requests -/

namespace OwnedUpload

def request : UploadRequest Nat :=
  { admissionId := "upload", claimed := true, confirmationRequired := true, temporaryTtlMs := 5
    files := [⟨7, "file", 1, 1, none⟩]
    requireQuorumOnUpload := false, now := 0, settledAt := 1 }

def site : Site Nat where
  score := fun _ _ => 0
  config := { enabled := false, placement := [], ackQuorum := 1 }
  nodes := []
  selfPeerId := "self"
  collects := fun _ _ => True

def answers (o : NetworkOp Nat) : Except (LifecycleError Nat) o.Ret := .error .io

/-- The upload has admitted its file, and a request to release it has arrived. -/
def moves : List (Prog.Pool.Move LifeTask (LifeOp Nat) LifeOp.Ret (LifecycleError Nat)) :=
  [.spawn (.upload "upload") (Job.life (uploadHandler request >>= fun _ => pure ())),
    .act (.upload "upload"), .act (.upload "upload"),
    .spawn (.other 0) (Job.life (LocalOp.releaseStoredFile 7).job)]

def admitted : LifePast Nat := (playLife Content.flat answers World.empty moves).1

def refused : LifePast Nat :=
  (playLife Content.flat answers World.empty (moves ++ [.act (.other 0)])).1

theorem lifeRun_refused : LifeRun Content.flat noFault site World.empty
    (playLife Content.flat answers World.empty (moves ++ [.act (.other 0)])) := by
  refine lifeRun_playLife fun t p hmem => ?_
  simp only [moves, List.cons_append, List.nil_append, List.mem_cons, reduceCtorEq, false_or,
    List.not_mem_nil, or_false, Prog.Pool.Move.spawn.injEq] at hmem
  rcases hmem with ⟨rfl, rfl⟩ | ⟨rfl, rfl⟩
  · exact .upload request
  · exact .request 0 (.releaseStoredFile 7) rfl

end OwnedUpload

open OwnedUpload in
/-- The file of a running upload is not released. -/
theorem exclusive_ownership_released :
    (admitted.1.files.get 7).any (·.admissionId = some "upload") = true ∧
      admitted.1.Keeps refused.1 7 := by
  have hstart : (World.empty : World Nat).Starting := ⟨rfl, rfl⟩
  have hevent : refused.2 = admitted.2 ++ .request (.other 0)
      (.node (.run (.releaseStoredFile 7))) admitted.1 (.error (.busy 7)) refused.1 :: [] := rfl
  have hrecord : ∃ current, admitted.1.files.get 7 = some current ∧
      current.admissionId = some "upload" := ⟨_, rfl, rfl⟩
  obtain ⟨current, hget, htoken⟩ := hrecord
  have hactive : "upload" ∈ admitted.1.proc.activeAdmissions := by decide
  exact ⟨by rw [hget]; simp [htoken],
    (exclusive_ownership hstart lifeRun_refused hevent hget).1 _ htoken hactive nofun⟩

end IpfsNode
