import IpfsNode.Integrity

/-!
# Tasks among each other

What the tasks of a node may ask for, and what each of them can rely on while
others run between its operations. An upload relies on the records that carry
its token, a repair pass on its claim, and both on revisions that only grow.
`coexistence` puts this together: whatever runs, the records of the node stay
sound, and every request of the history was one its task may make.
-/

namespace IpfsNode

section Requests

variable {Cid : Type} [DecidableEq Cid]

/-! ## What a task may ask for -/

/-- The record was stored by the run that removes it now, or is gone. -/
structure IsOwnRelease (record : FileRecord Cid) (w : World Cid) : Prop where
  expired : record.state = .expired
  same : ∃ n, record.revision = some n ∧ n < w.nextRevision ∧
    ∀ current, w.files.get record.cid = some current → current.revision = some n →
      current = record

/-- The upload admitted its files. -/
def LifeEvent.IsAdmission (id : AdmissionId) : LifeEvent Cid → Prop
  | .request t (.node (.run (.admitUpload options _))) _ (.ok _) _ =>
      t = .upload id ∧ options.admissionId = id
  | _ => False

/-- The record carries on the file it replaced. -/
def Derives (previous : Option (FileRecord Cid)) (record : FileRecord Cid) : Prop :=
  ∀ old, previous = some old → record.createdAt = old.createdAt ∧
    (old.state = .confirmed → record.state = .confirmed ∧ record.confirmedAt = old.confirmedAt)

/-- The baseline is what the upload found when it admitted the file, and can
still be put back. -/
structure Restorable (id : AdmissionId) (past : LifePast Cid) (baseline : UploadBaseline Cid) :
    Prop where
  admitted : ∃ e ∈ past.2, LifeEvent.IsAdmission id e ∧
    baseline.previous = e.before.files.get baseline.cid
  valid : baseline.Valid
  sound : ∀ previous, baseline.previous = some previous →
    SoundRecord past.1.proc past.1.issued previous ∧
      isAdmissionInFlight past.1.proc previous = false
  derives : ∀ record, past.1.files.get baseline.cid = some record →
    record.admissionId = some id → Derives baseline.previous record

/-- The task began a handover pass. -/
def LifeEvent.BeginsPass (t : LifeTask) : LifeEvent Cid → Prop
  | .request t' (.sweep .nextSweepBatch) _ _ _ => t' = t
  | _ => False

/-- The task read the time. -/
def LifeEvent.Tells (t : LifeTask) (now : Nat) : LifeEvent Cid → Prop
  | .request t' (.sweep .now) _ answer _ => t' = t ∧ answer = .ok now
  | _ => False

/-- The peer told the task that it has the file. -/
def LifeEvent.Confirms (t : LifeTask) (peerId : PeerId) (cid : Cid) : LifeEvent Cid → Prop
  | .request t' (.sweep (.probeHave peer cid')) _ answer _ =>
      t' = t ∧ peer.peerId = peerId ∧ cid' = cid ∧ answer = .ok true
  | _ => False

variable (site : Site Cid)

/-- The holders of the file at a time, as this node computes them. -/
def Site.placement (record : FileRecord Cid) (now : Nat) : Placement :=
  placementFor site.score site.config.placement
    (getReplicationPeers site.nodes site.selfPeerId) site.selfPeerId record now

/-- In its present pass the task found that other nodes are to hold the file,
and every one of them told it that it has the file. -/
def HandedOver (t : LifeTask) (h : List (LifeEvent Cid)) (record : FileRecord Cid) : Prop :=
  ∃ early late now, h = early ++ late ∧ (∀ e ∈ late, ¬ LifeEvent.BeginsPass t e) ∧
    (∃ e ∈ late, LifeEvent.Tells t now e) ∧
    site.selfPeerId ∉ (site.placement record now).holders ∧
    ∀ peerId ∈ (site.placement record now).holders,
      ∃ e ∈ late, LifeEvent.Confirms t peerId record.cid e

/-- What a task may ask of its node. -/
def LocalOp.Allowed (t : LifeTask) (past : LifePast Cid) : LocalOp Cid → Prop
  | .beginAdmission id | .endAdmission id => t = .upload id
  | .admitUpload options _ => t = .upload options.admissionId ∧
      options.admissionId ∈ past.1.proc.activeAdmissions ∧
      ∀ cid, past.1.token cid ≠ some options.admissionId
  | .rollbackAdmitted baselines id | .finalizeAdmitted _ baselines _ id _ => t = .upload id ∧
      id ∈ past.1.proc.activeAdmissions ∧ ∀ baseline ∈ baselines, Restorable id past baseline
  | .clearSettledAdmissions _ id _ => t = .upload id ∧ id ∈ past.1.proc.activeAdmissions
  | .cleanupReleased record => IsOwnRelease record past.1
  | .clearSettledAdmission record => claimant past.2 record.cid = some t
  | .releaseRepairRecord cid => claimant past.2 cid = some t
  | .createIfAbsent record => ∃ options cid name stats interrupted,
      record = backfilledRecord options cid name stats interrupted
  | .demoteCopy record => HandedOver site t past.2 record
  | _ => True

def LifeOp.Allowed (t : LifeTask) (o : LifeOp Cid) (past : LifePast Cid) : Prop :=
  ∀ op, o.local = some op → op.Allowed site t past

/-- A sound node, where the history knows every claim. -/
structure LifeInvariant (past : LifePast Cid) : Prop where
  sound : past.1.Sound
  claims : ∀ cid, cid ∈ past.1.proc.activeRepairs ↔ (claimant past.2 cid).isSome = true

/-! ## What a task relies on -/

/-- The record of the file, apart from what everybody may write, while it
carries the token. -/
def World.ownedBy (w : World Cid) (id : AdmissionId) (cid : Cid) : Option (FileRecord Cid) :=
  ((w.files.get cid).filter (·.admissionId = some id)).map FileRecord.core

theorem World.ownedBy_some {w : World Cid} {id : AdmissionId} {cid : Cid}
    {record : FileRecord Cid} (hget : w.files.get cid = some record)
    (htoken : record.admissionId = some id) : w.ownedBy id cid = some record.core := by
  unfold World.ownedBy
  rw [hget, Option.filter_some, if_pos (decide_eq_true htoken), Option.map_some]

theorem World.ownedBy_none {w : World Cid} {id : AdmissionId} {cid : Cid}
    (h : w.token cid ≠ some id) : w.ownedBy id cid = none := by
  unfold World.ownedBy
  unfold World.token at h
  cases hget : w.files.get cid with
  | none => rfl
  | some record =>
      rw [hget] at h
      rw [Option.filter_some, if_neg (by simpa using h), Option.map_none]

structure Rely (t : LifeTask) (past past' : LifePast Cid) : Prop where
  history : ∃ events, past'.2 = past.2 ++ events ∧ ∀ e ∈ events, ¬ LifeEvent.By t e
  evolves : past.1.Evolves past'.1
  claims : ∀ cid, claimant past.2 cid = some t → claimant past'.2 cid = some t
  running : ∀ id, t = .upload id → id ∈ past.1.proc.activeAdmissions →
    id ∈ past'.1.proc.activeAdmissions ∧ ∀ cid, past'.1.ownedBy id cid = past.1.ownedBy id cid

theorem Rely.refl (t : LifeTask) (past : LifePast Cid) : Rely t past past :=
  ⟨⟨[], by simp, by simp⟩, .refl _, fun _ h => h, fun _ _ h => ⟨h, fun _ => rfl⟩⟩

theorem Rely.trans {t : LifeTask} {past past₁ past₂ : LifePast Cid} (h : Rely t past past₁)
    (h' : Rely t past₁ past₂) : Rely t past past₂ where
  history := by
    obtain ⟨events, heq, hall⟩ := h.history
    obtain ⟨events', heq', hall'⟩ := h'.history
    refine ⟨events ++ events', by rw [heq', heq, List.append_assoc], fun e hmem => ?_⟩
    exact (List.mem_append.mp hmem).elim (hall e) (hall' e)
  evolves := h.evolves.trans h'.evolves
  claims cid hclaim := h'.claims cid (h.claims cid hclaim)
  running := by
    intro id ht hid
    obtain ⟨hid₁, howned⟩ := h.running id ht hid
    obtain ⟨hid₂, howned'⟩ := h'.running id ht hid₁
    exact ⟨hid₂, fun cid => (howned' cid).trans (howned cid)⟩

end Requests

/-! ## One operation -/

section Step

variable {Cid : Type} [DecidableEq Cid] {content : Content Cid} {site : Site Cid}
variable {t : LifeTask} {past : LifePast Cid} {op : LocalOp Cid} {w w' : World Cid}

theorem IsOwnRelease.evolves {record : FileRecord Cid} (h : IsOwnRelease record w)
    (hevolves : w.Evolves w') : IsOwnRelease record w' := by
  obtain ⟨hexpired, n, hn, hlt, hsame⟩ := h
  refine ⟨hexpired, n, hn, hlt.trans_le hevolves.revision, fun current hget hrevision => ?_⟩
  rcases hevolves.record _ current hget with hold | ⟨m, hm, hle⟩
  · exact hsame current hold hrevision
  · rw [hrevision] at hm
    cases hm
    omega

/-- The upload an operation acts for is the running one that asks for it. -/
theorem own_of_allowed (hpre : op.Allowed site t past) {id : AdmissionId}
    (hown : op.own = some id) : t = .upload id ∧ id ∈ past.1.proc.activeAdmissions := by
  cases op with
  | admitUpload | rollbackAdmitted | finalizeAdmitted =>
      cases hown
      exact ⟨hpre.1, hpre.2.1⟩
  | clearSettledAdmissions =>
      cases hown
      exact hpre
  | _ => cases hown

omit [DecidableEq Cid] in
/-- A record in no flight carries no token of a running upload. -/
theorem token_ne_of_idle {proc : Process Cid} {record : FileRecord Cid}
    (hidle : isAdmissionInFlight proc record = false) {id : AdmissionId}
    (hid : id ∈ proc.activeAdmissions) : record.admissionId ≠ some id := by
  intro htoken
  rw [isAdmissionInFlight, htoken, isActiveAdmission_some.mpr hid, Bool.or_true] at hidle
  cases hidle

theorem soundArgs_of_allowed (hinv : LifeInvariant past) (hpre : op.Allowed site t past) :
    op.SoundArgs past.1 where
  own id hown := hinv.sound.active (own_of_allowed hpre hown).2
  baselines := by
    have hall : ∀ {id : AdmissionId} {baselines : List (UploadBaseline Cid)},
        (∀ baseline ∈ baselines, Restorable id past baseline) → ∀ baseline ∈ baselines,
        baseline.Valid ∧ ∀ previous, baseline.previous = some previous →
          SoundRecord past.1.proc past.1.issued previous ∧
            ∀ id ∈ past.1.proc.activeAdmissions, previous.admissionId ≠ some id := by
      intro id baselines hrestorable baseline hmem
      refine ⟨(hrestorable baseline hmem).valid, fun previous hprevious => ?_⟩
      obtain ⟨hsound, hidle⟩ := (hrestorable baseline hmem).sound previous hprevious
      exact ⟨hsound, fun id hid => token_ne_of_idle hidle hid⟩
    cases op with
    | rollbackAdmitted => exact hall hpre.2.2
    | finalizeAdmitted => exact hall hpre.2.2
    | _ => exact fun _ => nofun
  created := by
    rintro record rfl
    exact hpre

/-- A record that is owned is no release of a collection. -/
theorem revision_ne_of_owned {cid : Cid} {current record : FileRecord Cid}
    (hget : w.files.get cid = some current) (hlive : current.state ≠ .expired)
    (hrelease : IsOwnRelease record w) (hcid : record.cid = cid) :
    current.revision ≠ record.revision := by
  intro hrevision
  obtain ⟨hexpired, n, hn, -, hsame⟩ := hrelease
  have heq := hsame current (by rw [hcid, hget]) (hrevision.trans hn)
  rw [heq] at hlive
  exact hlive hexpired

/-- Whoever is not the owner of a file leaves it alone. -/
theorem keeps_of_allowed (hinv : LifeInvariant past) (hpre : op.Allowed site t past)
    (howners : op.leavesOwners = true) {cid : Cid} {current : FileRecord Cid}
    (hget : past.1.files.get cid = some current) (howned : past.1.Owned current)
    (hstranger : op.Stranger past.1 current) {r : Except (LifecycleError Cid) op.Ret}
    (hrun : Prog.Runs (storeSem content anyFault) op.body past.1 r w') :
    past.1.Keeps w' cid := by
  have hrecord := hinv.sound.ownedRecord hget howned
  have hargs := soundArgs_of_allowed hinv hpre
  refine keeps_of_stranger hget hrecord howners (fun b hb => (hargs.baselines b hb).1) hstranger
    ?_ hrun
  rintro record rfl hcid
  exact revision_ne_of_owned hget hrecord.live hpre hcid

/-- An operation for another upload is a stranger to a file whose upload runs. -/
theorem stranger_of_running {current : FileRecord Cid} {id : AdmissionId}
    (htoken : current.admissionId = some id) (hid : id ∈ past.1.proc.activeAdmissions)
    (hpre : op.Allowed site t past) (ht : t ≠ .upload id) : op.Stranger past.1 current where
  own id' hown hsame := by
    rw [htoken] at hsame
    cases hsame
    exact ht (own_of_allowed hpre hown).1
  recover _ _ _ := .inr (by rw [htoken]; exact isActiveAdmission_some.mpr hid)
  forget _ _ := .inl (by
    rw [isAdmissionInFlight, htoken, isActiveAdmission_some.mpr hid, Bool.or_true])

/-- ... and an operation of another pass to a file that a repair pass claimed. -/
theorem stranger_of_claimed {current : FileRecord Cid}
    (hidle : isAdmissionInFlight past.1.proc current = false) (hpre : op.Allowed site t past)
    (ht : claimant past.2 current.cid ≠ some t) : op.Stranger past.1 current where
  own id hown := token_ne_of_idle hidle (own_of_allowed hpre hown).2
  recover _ _ _ := .inl (by
    rw [isAdmissionInFlight, Bool.or_eq_false_iff, Bool.not_eq_false'] at hidle
    exact hidle.1)
  forget record := by
    rintro rfl
    refine .inr fun hcid => ht ?_
    rw [← hcid]
    exact hpre

/-- ... and every operation but recovery to a file with an unsettled token. -/
theorem stranger_of_unsettled {current : FileRecord Cid}
    (hunsettled : isAdmissionSettled current = false)
    (hended : past.1.proc.isActiveAdmission current.admissionId = false)
    (hpre : op.Allowed site t past)
    (hrecover : op ≠ .recoverInterruptedAdmission current.cid) :
    op.Stranger past.1 current where
  own id hown hsame := by
    rw [hsame, Bool.eq_false_iff] at hended
    exact hended (isActiveAdmission_some.mpr (own_of_allowed hpre hown).2)
  recover cid heq hcid := absurd (hcid ▸ heq) hrecover
  forget _ _ := .inl (by rw [isAdmissionInFlight, hunsettled, Bool.not_false, Bool.true_or])

/-! ### Sound nodes stay sound -/

/-- Clearing a settled token leaves a claimed file as it has to be. -/
def claimedPolicy (proc : Process Cid) (cid : Cid) : Policy Cid where
  record cid' record := cid' = cid → ∃ stored, record = some stored ∧
    stored.state = .confirmed ∧ stored.heldLocally = true ∧
    isAdmissionInFlight proc stored = false
  pin _ := False
  process _ := True
  stamped := by
    intro cid' record n h hcid
    obtain ⟨_, ⟨⟩, hclaimed⟩ := h hcid
    exact ⟨_, rfl, hclaimed⟩

theorem permits_claimedPolicy {proc : Process Cid} {cid : Cid} {record : FileRecord Cid} :
    (claimedPolicy proc cid).Permits (.clearSettledAdmission record) where
  aborted _ _ _ := trivial
  block _ := id
  stores := by
    intro _ existing stored _ hread _ hstores hcid
    cases hstores
    obtain ⟨_, ⟨⟩, hstate, hheld, -⟩ := hread.1 hcid
    exact ⟨_, rfl, hstate, hheld, not_inFlight_of_none rfl⟩
  removes _ _ _ := nofun
  unpins _ _ _ _ := nofun

/-- What is claimed is there, and no upload is in flight on it. -/
theorem claimed_of_run (hinv : LifeInvariant past) (hpre : op.Allowed site t past)
    (howners : op.leavesOwners = true) {r : Except (LifecycleError Cid) op.Ret}
    (hrun : Prog.Runs (storeSem content anyFault) op.body past.1 r w') {cid : Cid}
    (hcid : cid ∈ past.1.proc.activeRepairs) : ∃ record, w'.files.get cid = some record ∧
      record.state = .confirmed ∧ record.heldLocally = true ∧
      isAdmissionInFlight past.1.proc record = false := by
  obtain ⟨current, hget, hstate, hheld, hidle⟩ := hinv.sound.claimed cid hcid
  have hsame := Registry.cid_of_get hget
  by_cases hother : ∀ record, op = .clearSettledAdmission record → record.cid ≠ cid
  · have hstranger : op.Stranger past.1 current :=
      { own := fun id hown => token_ne_of_idle hidle (own_of_allowed hpre hown).2
        recover := fun _ _ _ => .inl (by
          rw [isAdmissionInFlight, Bool.or_eq_false_iff, Bool.not_eq_false'] at hidle
          exact hidle.1)
        forget := fun record heq => .inr (hsame ▸ hother record heq) }
    have howned : past.1.Owned current := .inr (hsame ▸ hcid)
    have hkeeps := (keeps_of_allowed hinv hpre howners hget howned hstranger hrun).record
    rw [hget] at hkeeps
    obtain ⟨record, hrecord, hcore⟩ := Option.map_eq_some_iff.mp hkeeps
    obtain ⟨-, -, hstate', -, -, -, -, hheld', htoken, hsettled, -⟩ := core_eq_iff.mp hcore
    refine ⟨record, hrecord, hstate'.trans hstate, hheld'.trans hheld, ?_⟩
    rw [inFlight_congr htoken hsettled]
    exact hidle
  · push Not at hother
    obtain ⟨record, rfl, -⟩ := hother
    have hholds : (claimedPolicy past.1.proc cid).Holds past.1 :=
      ⟨fun _ heq => ⟨current, by rw [heq, hget], hstate, hheld, hidle⟩, fun _ => False.elim,
        trivial, fun _ => False.elim⟩
    have hsafe : Safe content (claimedPolicy past.1.proc cid)
        (LocalOp.clearSettledAdmission record).body :=
      permits_claimedPolicy.safe rfl (by simp [LocalOp.baselines])
    have hholds' := hsafe.holds hholds hrun
    exact hholds'.record cid rfl

/-- What an operation that leaves the owners alone makes of a sound node. -/
structure Undisturbed (own : Option AdmissionId) (w w' : World Cid) : Prop where
  sound : w'.Sound
  owners : w.proc.SameOwners w'.proc
  token : ∀ cid, ∀ id ∈ w.proc.activeAdmissions, w'.token cid = some id →
    own = some id ∨ w.token cid = some id

theorem undisturbed_of_run (hinv : LifeInvariant past) (hpre : op.Allowed site t past)
    (howners : op.leavesOwners = true) {r : Except (LifecycleError Cid) op.Ret}
    (hrun : Prog.Runs (storeSem content anyFault) op.body past.1 r w') :
    Undisturbed op.own past.1 w' := by
  have hargs := soundArgs_of_allowed hinv hpre
  have hsafe : Safe content (soundPolicy past.1 op.own) op.body :=
    (permits_soundPolicy hargs).safe howners fun b hb => (hargs.baselines b hb).1
  have hholds := hsafe.holds (hinv.sound.holds op.own) hrun
  have hevolves := runs_evolves hrun
  have hproc : past.1.proc.SameOwners w'.proc := hholds.process
  refine ⟨⟨fun cid record hget => ?_, ?_, fun cid hcid => ?_, runs_stamped hrun hinv.sound.stamped⟩,
    hproc, fun cid id hid htoken => ?_⟩
  · refine (hholds.record cid record hget).1.of_owners hevolves.issued fun hflight => ?_
    rwa [isAdmissionInFlight_congr hproc.admissions] at hflight
  · rw [hproc.admissions]
    exact hinv.sound.active.trans hevolves.issued
  · rw [hproc.repairs] at hcid
    obtain ⟨record, hget, hstate, hheld, hidle⟩ := claimed_of_run hinv hpre howners hrun hcid
    refine ⟨record, hget, hstate, hheld, ?_⟩
    rwa [isAdmissionInFlight_congr hproc.admissions]
  · obtain ⟨record, hget, hrecord⟩ := Option.bind_eq_some_iff.mp htoken
    exact (hholds.record cid record hget).2 id hid hrecord

/-! ### Owners come and go -/

/-- Records that stay are sound with the new owners, when no upload in flight is
added to them. -/
theorem World.Sound.of_files (h : w.Sound) (hfiles : w'.files = w.files)
    (hevolves : w.Evolves w') (hstamped : w'.Stamped)
    (hactive : w'.proc.activeAdmissions ⊆ w'.issued)
    (hflight : ∀ cid record, w.files.get cid = some record →
      isAdmissionInFlight w'.proc record = true → isAdmissionInFlight w.proc record = true)
    (hclaimed : ∀ cid ∈ w'.proc.activeRepairs, cid ∈ w.proc.activeRepairs ∨
      ∃ record, w.files.get cid = some record ∧ isSettledHeldFile w.proc record = true) :
    w'.Sound where
  record cid record hget := by
    rw [hfiles] at hget
    exact (h.record cid record hget).of_owners hevolves.issued (hflight cid record hget)
  active := hactive
  claimed cid hcid := by
    rw [hfiles]
    have hidle : ∀ {record : FileRecord Cid}, w.files.get cid = some record →
        isAdmissionInFlight w.proc record = false →
        isAdmissionInFlight w'.proc record = false := by
      intro record hget hidle
      rw [Bool.eq_false_iff] at hidle ⊢
      exact fun hnew => hidle (hflight cid record hget hnew)
    rcases hclaimed cid hcid with hold | ⟨record, hget, hsettled⟩
    · obtain ⟨record, hget, hstate, hheld, hold⟩ := h.claimed cid hold
      exact ⟨record, hget, hstate, hheld, hidle hget hold⟩
    · simp only [isSettledHeldFile, Bool.and_eq_true, decide_eq_true_eq,
        Bool.not_eq_true'] at hsettled
      obtain ⟨⟨⟨⟨hstate, hheld⟩, hset⟩, hended⟩, -⟩ := hsettled
      refine ⟨record, hget, hstate, hheld, hidle hget ?_⟩
      rw [isAdmissionInFlight, hset, hended]
      rfl
  stamped := hstamped

/-- A request to process memory is served. -/
theorem runs_request {o : StoreOp Cid} (hfallible : o.fallible = false) (hland : o.mayLand = false)
    {r : Except (LifecycleError Cid) o.Ret}
    (hrun : Prog.Runs (storeSem content anyFault) (request o) w r w') :
    r = (o.effect content w).1 ∧ w' = (o.effect content w).2 := by
  have hserved : Prog.wp (storeSem content anyFault) (request o) (fun r w' =>
      r = (o.effect content w).1 ∧ w' = (o.effect content w).2) w := by
    refine wp_request ⟨rfl, rfl⟩ (fun hf => ?_) fun hl => ?_
    · rw [hfallible] at hf
      cases hf
    · rw [hland] at hl
      cases hl
  exact Prog.wp_iff_runs.mp hserved r w' hrun

/-- A claim takes a settled, held file that nobody has claimed. -/
theorem wp_claimRepairRecord {selected : FileRecord Cid} :
    Prog.wp (storeSem content anyFault) (claimRepairRecord selected) (fun r w' =>
      (r ≠ .ok true ∧ w' = w) ∨ (r = .ok true ∧ selected.cid ∉ w.proc.activeRepairs ∧
        (∃ record, w.files.get selected.cid = some record ∧
          isSettledHeldFile w.proc record = true) ∧
        w' = { w with proc := { w.proc with
          activeRepairs := insert selected.cid w.proc.activeRepairs } })) w := by
  refine Prog.wp_bind.mpr (wp_get ?_ (.inl ⟨(fun h => by cases h), rfl⟩))
  show Prog.wp _ _ _ w
  cases hget : w.files.get selected.cid with
  | none => exact .inl ⟨(fun h => by cases h), rfl⟩
  | some current =>
      refine Prog.wp_bind.mpr (wp_process ?_)
      show Prog.wp _ (ite _ _ _) _ w
      split
      · exact .inl ⟨(fun h => by cases h), rfl⟩
      · rename_i hsettled
        simp only [Bool.or_eq_true, not_or, Bool.not_eq_true', Bool.not_eq_false] at hsettled
        refine wp_request ?_ (fun h => by cases h) (fun h => by cases h)
        simp only [StoreOp.effect]
        split
        · exact .inl ⟨(fun h => by cases h), rfl⟩
        · rename_i hnew
          exact .inr ⟨rfl, hnew, ⟨current, rfl, hsettled.2⟩, rfl⟩

theorem claimant_of_leavesOwners {o : LifeOp Cid}
    (h : ∀ op, o.local = some op → op.leavesOwners = true) {cid : Cid} {before after : World Cid}
    {holder : Option LifeTask} {r : Except (LifecycleError Cid) o.Ret} :
    LifeEvent.claimant cid holder (.request t o before r after) = holder := by
  unfold LifeEvent.claimant
  split
  · rename_i heq
    cases heq
    cases h _ rfl
  · rename_i heq
    cases heq
    cases h _ rfl
  · rfl
  · rename_i heq
    cases heq

/-- What an operation leaves to the other tasks. -/
structure StepKept (t : LifeTask) (past past' : LifePast Cid) : Prop where
  invariant : LifeInvariant past'
  rely : ∀ t', t' ≠ t → Rely t' past past'

theorem stepKept_of_files {past' : LifePast Cid} {e : LifeEvent Cid}
    (hpast : past'.2 = past.2 ++ [e]) (hby : ∀ t', t' ≠ t → ¬ LifeEvent.By t' e)
    (hevolves : past.1.Evolves past'.1) (hsound : past'.1.Sound)
    (howned : ∀ t' id, t' ≠ t → t' = .upload id → id ∈ past.1.proc.activeAdmissions →
      id ∈ past'.1.proc.activeAdmissions ∧ ∀ cid, past'.1.ownedBy id cid = past.1.ownedBy id cid)
    (hclaims : ∀ cid, cid ∈ past'.1.proc.activeRepairs ↔
      (LifeEvent.claimant cid (claimant past.2 cid) e).isSome = true)
    (hkept : ∀ t' cid, t' ≠ t → claimant past.2 cid = some t' →
      LifeEvent.claimant cid (claimant past.2 cid) e = some t') :
    StepKept t past past' where
  invariant := ⟨hsound, fun cid => by rw [hpast, claimant_snoc]; exact hclaims cid⟩
  rely t' ht := by
    refine ⟨⟨[e], hpast, ?_⟩, hevolves, fun cid hclaim => ?_, fun id hid => howned t' id ht hid⟩
    · rintro e' hmem
      obtain rfl := List.mem_singleton.mp hmem
      exact hby t' ht
    · rw [hpast, claimant_snoc]
      exact hkept t' cid ht hclaim

/-- An operation that leaves the owners alone leaves the files of the others. -/
theorem stepKept_of_run (hinv : LifeInvariant past) (hpre : op.Allowed site t past)
    (howners : op.leavesOwners = true) {past' : LifePast Cid} {e : LifeEvent Cid}
    (hpast : past'.2 = past.2 ++ [e]) (hby : ∀ t', t' ≠ t → ¬ LifeEvent.By t' e)
    (hclaimant : ∀ cid holder, LifeEvent.claimant cid holder e = holder)
    {r : Except (LifecycleError Cid) op.Ret}
    (hrun : Prog.Runs (storeSem content anyFault) op.body past.1 r past'.1) :
    StepKept t past past' := by
  have hstep := undisturbed_of_run hinv hpre howners hrun
  refine stepKept_of_files hpast hby (runs_evolves hrun) hstep.sound ?_ ?_ ?_
  · rintro t' id ht rfl hid
    refine ⟨by rw [hstep.owners.admissions]; exact hid, fun cid => ?_⟩
    have hne : t ≠ .upload id := fun heq => ht heq.symm
    by_cases htoken : past.1.token cid = some id
    · obtain ⟨current, hget, hcurrent⟩ := Option.bind_eq_some_iff.mp htoken
      have howned : past.1.Owned current := .inl (by
        rw [isAdmissionInFlight, hcurrent, isActiveAdmission_some.mpr hid, Bool.or_true])
      have hstranger := stranger_of_running hcurrent hid hpre hne
      have hkeeps := (keeps_of_allowed hinv hpre howners hget howned hstranger hrun).record
      rw [hget] at hkeeps
      obtain ⟨record, hrecord, hcore⟩ := Option.map_eq_some_iff.mp hkeeps
      have hsame : record.admissionId = some id := by
        rw [(core_eq_iff.mp hcore).2.2.2.2.2.2.2.2.1, hcurrent]
      rw [World.ownedBy_some hrecord hsame, World.ownedBy_some hget hcurrent, hcore]
    · have hafter : past'.1.token cid ≠ some id := by
        intro hnew
        rcases hstep.token cid id hid hnew with hown | hold
        · exact hne (own_of_allowed hpre hown).1
        · exact htoken hold
      rw [World.ownedBy_none hafter, World.ownedBy_none htoken]
  · intro cid
    rw [hclaimant, hstep.owners.repairs]
    exact hinv.claims cid
  · intro t' cid _ hclaim
    rw [hclaimant, hclaim]

theorem stepKept_of_same (hinv : LifeInvariant past) {past' : LifePast Cid} {e : LifeEvent Cid}
    (hpast : past'.2 = past.2 ++ [e]) (hby : ∀ t', t' ≠ t → ¬ LifeEvent.By t' e)
    (hclaimant : ∀ cid holder, LifeEvent.claimant cid holder e = holder)
    (hsame : past'.1 = past.1) : StepKept t past past' := by
  refine stepKept_of_files hpast hby (hsame ▸ .refl _) (hsame ▸ hinv.sound)
    (fun _ _ _ _ hid => ⟨hsame ▸ hid, fun _ => by rw [hsame]⟩) (fun cid => ?_)
    fun _ cid _ hclaim => ?_
  · rw [hclaimant, hsame]
    exact hinv.claims cid
  · rw [hclaimant, hclaim]

theorem stepKept_begin (hinv : LifeInvariant past) {past' : LifePast Cid} {e : LifeEvent Cid}
    (hpast : past'.2 = past.2 ++ [e]) (hby : ∀ t', t' ≠ t → ¬ LifeEvent.By t' e)
    (hclaimant : ∀ cid holder, LifeEvent.claimant cid holder e = holder) {id : AdmissionId}
    (heffect : past'.1 = (StoreOp.effect content (.beginAdmission id) past.1).2) :
    StepKept t past past' := by
  have hevolves : past.1.Evolves past'.1 := heffect ▸ StoreOp.evolves_effect content _ _
  have hstamped : past'.1.Stamped := heffect ▸ StoreOp.stamped_effect content _ hinv.sound.stamped
  simp only [StoreOp.effect] at heffect
  split at heffect
  · exact stepKept_of_same hinv hpast hby hclaimant heffect
  rename_i hnew
  rw [not_or] at hnew
  have hfiles : past'.1.files = past.1.files := by rw [heffect]
  refine stepKept_of_files hpast hby hevolves
    (hinv.sound.of_files hfiles hevolves hstamped ?_ (fun cid record hget hflight => ?_) ?_)
    (fun t' id' _ _ hid => ⟨?_, fun cid => ?_⟩) (fun cid => ?_) fun _ cid _ hclaim => ?_
  · rw [heffect]
    exact Finset.insert_subset_insert _ hinv.sound.active
  · obtain ⟨tok, htok⟩ := exists_token_of_inFlight hflight
    have hissued := (hinv.sound.record cid record hget).token tok htok
    have hne : tok ≠ id := fun heq => hnew.2 (heq ▸ hissued)
    rw [heffect] at hflight
    simpa [isAdmissionInFlight, Process.isActiveAdmission, htok, hne] using hflight
  · intro cid hcid
    rw [heffect] at hcid
    exact .inl hcid
  · rw [heffect]
    exact Finset.mem_insert_of_mem hid
  · unfold World.ownedBy
    rw [hfiles]
  · rw [hclaimant, heffect]
    exact hinv.claims cid
  · rw [hclaimant, hclaim]

theorem stepKept_end (hinv : LifeInvariant past) {past' : LifePast Cid} {e : LifeEvent Cid}
    (hpast : past'.2 = past.2 ++ [e]) (hby : ∀ t', t' ≠ t → ¬ LifeEvent.By t' e)
    (hclaimant : ∀ cid holder, LifeEvent.claimant cid holder e = holder) {id : AdmissionId}
    (ht : t = .upload id)
    (heffect : past'.1 = (StoreOp.effect content (.endAdmission id) past.1).2) :
    StepKept t past past' := by
  have hevolves : past.1.Evolves past'.1 := heffect ▸ StoreOp.evolves_effect content _ _
  have hstamped : past'.1.Stamped := heffect ▸ StoreOp.stamped_effect content _ hinv.sound.stamped
  simp only [StoreOp.effect] at heffect
  have hfiles : past'.1.files = past.1.files := by rw [heffect]
  refine stepKept_of_files hpast hby hevolves
    (hinv.sound.of_files hfiles hevolves hstamped ?_ (fun cid record hget hflight => ?_) ?_)
    (fun t' id' hne ht' hid => ⟨?_, fun cid => ?_⟩) (fun cid => ?_) fun _ cid _ hclaim => ?_
  · rw [heffect]
    exact (Finset.erase_subset _ _).trans hinv.sound.active
  · obtain ⟨tok, htok⟩ := exists_token_of_inFlight hflight
    rw [heffect] at hflight
    simp only [isAdmissionInFlight, Process.isActiveAdmission, htok, Finset.mem_erase,
      Bool.or_eq_true, decide_eq_true_eq] at hflight ⊢
    exact hflight.imp (fun hunsettled => hunsettled) And.right
  · intro cid hcid
    rw [heffect] at hcid
    exact .inl hcid
  · rw [heffect]
    refine Finset.mem_erase.mpr ⟨?_, hid⟩
    rintro rfl
    exact hne (ht'.trans ht.symm)
  · unfold World.ownedBy
    rw [hfiles]
  · rw [hclaimant, heffect]
    exact hinv.claims cid
  · rw [hclaimant, hclaim]

theorem stepKept_claim (hinv : LifeInvariant past) {past' : LifePast Cid} {e : LifeEvent Cid}
    (hpast : past'.2 = past.2 ++ [e]) (hby : ∀ t', t' ≠ t → ¬ LifeEvent.By t' e)
    {selected : FileRecord Cid}
    (hclaimant : ∀ cid holder, LifeEvent.claimant cid holder e =
      if selected.cid = cid then some t else holder)
    (hnew : selected.cid ∉ past.1.proc.activeRepairs)
    (hsettled : ∃ record, past.1.files.get selected.cid = some record ∧
      isSettledHeldFile past.1.proc record = true)
    (hafter : past'.1 = { past.1 with proc := { past.1.proc with
      activeRepairs := insert selected.cid past.1.proc.activeRepairs } }) :
    StepKept t past past' := by
  have hfiles : past'.1.files = past.1.files := by rw [hafter]
  have hevolves : past.1.Evolves past'.1 := by
    rw [hafter]
    exact .of_same rfl rfl (fun _ h => h) fun _ _ h => h
  refine stepKept_of_files hpast hby hevolves
    (hinv.sound.of_files hfiles hevolves (hafter ▸ hinv.sound.stamped) ?_
      (fun cid record hget hflight => ?_) fun cid hcid => ?_)
    (fun t' id' _ _ hid => ⟨?_, fun cid => ?_⟩) (fun cid => ?_) fun t' cid _ hclaim => ?_
  · rw [hafter]
    exact hinv.sound.active
  · rw [hafter] at hflight
    exact hflight
  · rw [hafter] at hcid
    rcases Finset.mem_insert.mp hcid with rfl | hcid
    · exact .inr hsettled
    · exact .inl hcid
  · rw [hafter]
    exact hid
  · unfold World.ownedBy
    rw [hfiles]
  · rw [hclaimant, hafter, Finset.mem_insert]
    split
    · rename_i heq
      simp [heq]
    · rename_i hne
      rw [or_iff_right (Ne.symm hne)]
      exact hinv.claims cid
  · rw [hclaimant, if_neg, hclaim]
    rintro rfl
    exact hnew ((hinv.claims _).mpr (by rw [hclaim]; rfl))

theorem stepKept_unclaim (hinv : LifeInvariant past) {past' : LifePast Cid} {e : LifeEvent Cid}
    (hpast : past'.2 = past.2 ++ [e]) (hby : ∀ t', t' ≠ t → ¬ LifeEvent.By t' e) {file : Cid}
    (hclaimant : ∀ cid holder, LifeEvent.claimant cid holder e =
      if file = cid then none else holder)
    (hown : claimant past.2 file = some t)
    (hafter : past'.1 = { past.1 with proc := { past.1.proc with
      activeRepairs := past.1.proc.activeRepairs.erase file } }) :
    StepKept t past past' := by
  have hfiles : past'.1.files = past.1.files := by rw [hafter]
  have hevolves : past.1.Evolves past'.1 := by
    rw [hafter]
    exact .of_same rfl rfl (fun _ h => h) fun _ _ h => h
  refine stepKept_of_files hpast hby hevolves
    (hinv.sound.of_files hfiles hevolves (hafter ▸ hinv.sound.stamped) ?_
      (fun cid record hget hflight => ?_) fun cid hcid => ?_)
    (fun t' id' _ _ hid => ⟨?_, fun cid => ?_⟩) (fun cid => ?_) fun t' cid ht hclaim => ?_
  · rw [hafter]
    exact hinv.sound.active
  · rw [hafter] at hflight
    exact hflight
  · rw [hafter] at hcid
    exact .inl (Finset.mem_of_mem_erase hcid)
  · rw [hafter]
    exact hid
  · unfold World.ownedBy
    rw [hfiles]
  · rw [hclaimant, hafter, Finset.mem_erase]
    split
    · rename_i heq
      simp [heq]
    · rename_i hne
      rw [and_iff_right (Ne.symm hne)]
      exact hinv.claims cid
  · rw [hclaimant, if_neg, hclaim]
    rintro rfl
    rw [hown] at hclaim
    cases hclaim
    exact ht rfl

variable {faults : Faults Cid}

/-- Whatever a task may ask for keeps the node sound, and what the others rely
on. -/
theorem LifeInvariant.step (hinv : LifeInvariant past) {o : LifeOp Cid}
    (hpre : o.Allowed site t past) {r : Except (LifecycleError Cid) o.Ret}
    {past' : LifePast Cid}
    (hstep : Prog.Pool.traced (lifeSem content faults) t o past r past') :
    StepKept t past past' := by
  obtain ⟨hsem, hpast⟩ := hstep
  have hby : ∀ t', t' ≠ t → ¬ LifeEvent.By t' (.request t o past.1 r past'.1) :=
    fun t' hne heq => hne heq.symm
  by_cases howners : ∀ op, o.local = some op → op.leavesOwners = true
  · have hclaimant : ∀ cid holder,
        LifeEvent.claimant cid holder (.request t o past.1 r past'.1) = holder :=
      fun _ _ => claimant_of_leavesOwners howners
    rcases lifeSem_cases hsem with ⟨op, r', hop, hrun⟩ | ⟨-, hsame⟩
    · exact stepKept_of_run hinv (hpre op hop) (howners op hop) hpast hby hclaimant hrun
    · exact stepKept_of_same hinv hpast hby hclaimant hsame
  · push Not at howners
    obtain ⟨op, hop, howners⟩ := howners
    have hallowed := hpre op hop
    rcases o with o | o
    · rcases o with o | o
      · cases hop
        have hrun : Prog.Runs (storeSem content anyFault) op.body past.1 r past'.1 :=
          runs_anyFault hsem
        cases op with
        | beginAdmission id =>
            exact stepKept_begin hinv hpast hby (fun _ _ => rfl) (runs_request rfl rfl hrun).2
        | endAdmission id =>
            exact stepKept_end hinv hpast hby (fun _ _ => rfl) hallowed
              (runs_request rfl rfl hrun).2
        | claimRepairRecord selected =>
            rcases Prog.wp_iff_runs.mp wp_claimRepairRecord _ _ hrun with
              ⟨hnot, hsame⟩ | ⟨rfl, hnew, hsettled, hafter⟩
            · refine stepKept_of_same hinv hpast hby (fun cid holder => ?_) hsame
              rcases r with err | claimed
              · rfl
              · cases claimed with
                | true => exact absurd rfl hnot
                | false => rfl
            · exact stepKept_claim hinv hpast hby (fun _ _ => rfl) hnew hsettled hafter
        | releaseRepairRecord cid =>
            exact stepKept_unclaim hinv hpast hby (fun _ _ => rfl) hallowed
              (runs_request rfl rfl hrun).2
        | _ => exact absurd rfl howners
      · cases hop
    · cases o with
      | demoteCopy record =>
          cases hop
          exact absurd rfl howners
      | _ => cases hop

theorem LifeInvariant.restart (hinv : LifeInvariant past) {past' : LifePast Cid}
    (hreset : Prog.Pool.tracedReset restarts past past') : LifeInvariant past' := by
  obtain ⟨hafter, hpast⟩ := hreset
  have hafter : past'.1 = { past.1 with proc := Process.fresh } := hafter
  refine ⟨hinv.sound.of_files (by rw [hafter]) ?_ (hafter ▸ hinv.sound.stamped) ?_
    (fun cid record _ hflight => ?_) fun cid hcid => ?_, fun cid => ?_⟩
  · rw [hafter]
    exact .of_same rfl rfl (by simp [Process.fresh]) fun _ _ h => h
  · rw [hafter]
    exact Finset.empty_subset _
  · rw [hafter] at hflight
    obtain ⟨id, hid⟩ := exists_token_of_inFlight hflight
    simp only [isAdmissionInFlight, Process.isActiveAdmission, Process.fresh, hid,
      Finset.notMem_empty, decide_false, Bool.or_false] at hflight
    rw [isAdmissionInFlight, hflight, Bool.true_or]
  · rw [hafter] at hcid
    cases hcid
  · rw [hpast, claimant_snoc, hafter]
    simp [LifeEvent.claimant, Process.fresh]

end Step

end IpfsNode
