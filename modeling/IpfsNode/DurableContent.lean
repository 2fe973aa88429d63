import IpfsNode.Ownership

/-!
# Confirmed content

A confirmed copy this node holds is lost on purpose only: by a release, by a
handover all designated holders agreed to, or by the undo of the upload that
made it. And whatever rewrites a record keeps its age, on which its placement
depends on every node.

`Lasting` is what an operation that is none of these leaves of a record;
`Fading` is what a release and a handover leave; `Undone` is what an upload that
takes back a file leaves of it.
-/

namespace IpfsNode

section Lasting

variable {Cid : Type}

/-- A confirmed copy that this node holds. -/
def FileRecord.isHeld (record : FileRecord Cid) : Bool :=
  record.state = .confirmed && record.heldLocally

theorem FileRecord.isHeld_iff {record : FileRecord Cid} :
    record.isHeld = true ↔ record.state = .confirmed ∧ record.heldLocally = true := by
  simp [FileRecord.isHeld]

/-- A rewritten record that is as durable as the one it replaced. -/
structure Lasting (current stored : FileRecord Cid) : Prop where
  created : stored.createdAt = current.createdAt
  confirmed : current.state = .confirmed → stored.state = .confirmed ∧
    stored.confirmedAt = current.confirmedAt ∧ stored.replicaStage = none ∧
    (current.heldLocally = true → stored.heldLocally = true)

/-- What is known of a confirmed record. -/
structure Settled (current : FileRecord Cid) : Prop where
  since : current.state = .confirmed → current.confirmedAt.isSome = true
  unstaged : current.state = .confirmed → current.replicaStage = none

variable {current existing stored : FileRecord Cid}

theorem Lasting.refl (h : Settled current) : Lasting current current :=
  ⟨rfl, fun hstate => ⟨hstate, rfl, h.unstaged hstate, fun hheld => hheld⟩⟩

/-- A record that is not confirmed replaced one that was not either. -/
theorem Lasting.not_confirmed (h : Lasting current existing) (hstate : existing.state ≠ .confirmed) :
    current.state ≠ .confirmed :=
  fun hconfirmed => hstate (h.confirmed hconfirmed).1

theorem Lasting.not_confirmed_of_staged (h : Lasting current existing) {stage : ReplicaStage}
    (hstage : existing.replicaStage = some stage) : current.state ≠ .confirmed := by
  intro hconfirmed
  rw [(h.confirmed hconfirmed).2.2.1] at hstage
  cases hstage

/-- What replaces an unconfirmed record need only keep its age. -/
theorem Lasting.of_not_confirmed (h : Lasting current existing)
    (hstate : current.state ≠ .confirmed) (hcreated : stored.createdAt = existing.createdAt) :
    Lasting current stored :=
  ⟨hcreated.trans h.created, fun hconfirmed => absurd hconfirmed hstate⟩

/-- What copies the fields keeps them. -/
theorem Lasting.of_same (h : Lasting current existing)
    (hcreated : stored.createdAt = existing.createdAt) (hstate : stored.state = existing.state)
    (hsince : stored.confirmedAt = existing.confirmedAt)
    (hstage : existing.replicaStage = none → stored.replicaStage = none)
    (hheld : existing.heldLocally = true → stored.heldLocally = true) :
    Lasting current stored := by
  refine ⟨hcreated.trans h.created, fun hconfirmed => ?_⟩
  obtain ⟨hstate', hsince', hstage', hheld'⟩ := h.confirmed hconfirmed
  exact ⟨hstate.trans hstate', hsince.trans hsince', hstage hstage', fun hc => hheld (hheld' hc)⟩

theorem Lasting.registration (h : Lasting current existing) (file : NewFileRecord Cid)
    (options : RegisterFileOptions) :
    Lasting current (registrationOf (some existing) file options) := by
  unfold registrationOf
  dsimp only
  split
  · exact h.of_same rfl rfl rfl (fun _ => rfl) fun _ => rfl
  · rename_i hstate
    exact h.of_not_confirmed (h.not_confirmed hstate) rfl

theorem Lasting.since (h : Lasting current existing) (hsettled : Settled current)
    (hstate : current.state = .confirmed) (now : Nat) :
    some (existing.confirmedAt.getD now) = current.confirmedAt := by
  obtain ⟨since, hsince⟩ := Option.isSome_iff_exists.mp (hsettled.since hstate)
  rw [(h.confirmed hstate).2.1, hsince]
  rfl

theorem Lasting.confirm (h : Lasting current existing) (hsettled : Settled current) (now : Nat) :
    Lasting current (confirmedRecord existing now) :=
  ⟨h.created, fun hstate => ⟨rfl, h.since hsettled hstate now, rfl, fun _ => rfl⟩⟩

theorem Lasting.stable (h : Lasting current existing) (hsettled : Settled current)
    (options : ReplicaStageTarget Cid) (name : String) (stats : DagStats) :
    Lasting current (stableReplicaRecord options (some existing) name stats) :=
  ⟨h.created, fun hstate => ⟨rfl, h.since hsettled hstate options.now, rfl, fun _ => rfl⟩⟩

end Lasting

/-! ## Operations that keep what is durable -/

section Policies

variable {Cid : Type} [DecidableEq Cid] {content : Content Cid}
variable {w : World Cid} {cid : Cid} {current : FileRecord Cid} {o : LocalOp Cid}

/-- The file stays as durable as it was; only an aborted stage may take away a
record that was not confirmed. -/
def lastingPolicy (w : World Cid) (cid : Cid) (current : FileRecord Cid) (o : LocalOp Cid) :
    Policy Cid where
  record cid' record := cid' = cid →
    (∃ stored, record = some stored ∧ Lasting current stored) ∨
      (record = none ∧ current.state ≠ .confirmed ∧ ∃ options, o = .abortReplica options)
  pin cid' := cid' = cid ∧ cid ∈ w.pins ∧ current.isHeld = true
  process _ := True
  stamped := by
    intro cid' record n h hcid
    rcases h hcid with ⟨_, ⟨⟩, hlasting⟩ | ⟨hnone, -⟩
    · exact .inl ⟨_, rfl, hlasting.created, hlasting.confirmed⟩
    · cases hnone

/-- The operation loses or takes back nothing on purpose at the file. -/
structure LocalOp.Preserving (o : LocalOp Cid) (cid : Cid) : Prop where
  release : o ≠ .releaseStoredFile cid
  demote : ∀ record, o = .demoteCopy record → record.cid ≠ cid
  cleanup : ∀ record, o = .cleanupReleased record → record.cid ≠ cid
  undo : ∀ baselines id, o ≠ .rollbackAdmitted baselines id
  undoFinal : ∀ cids baselines reports id settledAt,
    o ≠ .finalizeAdmitted cids baselines reports id settledAt

/-- Operations that never mean to lose a copy. -/
def LocalOp.isSparing : LocalOp Cid → Bool
  | .releaseStoredFile _ | .demoteCopy _ | .cleanupReleased _ | .rollbackAdmitted ..
  | .finalizeAdmitted .. => false
  | _ => true

omit [DecidableEq Cid] in
theorem LocalOp.preserving_of_isSparing (h : o.isSparing = true) : o.Preserving cid where
  release := by
    rintro rfl
    cases h
  demote := by
    rintro _ rfl
    cases h
  cleanup := by
    rintro _ rfl
    cases h
  undo := by
    rintro _ _ rfl
    cases h
  undoFinal := by
    rintro _ _ _ _ _ rfl
    cases h

omit [DecidableEq Cid] in
theorem LocalOp.preserving_release {file : Cid} (h : file ≠ cid) :
    (LocalOp.releaseStoredFile file).Preserving cid where
  release heq := h (LocalOp.releaseStoredFile.inj heq)
  demote _ := nofun
  cleanup _ := nofun
  undo _ _ := nofun
  undoFinal _ _ _ _ _ := nofun

omit [DecidableEq Cid] in
theorem LocalOp.preserving_demote {record : FileRecord Cid} (h : record.cid ≠ cid) :
    (LocalOp.demoteCopy record).Preserving cid where
  release := nofun
  demote _ heq := LocalOp.demoteCopy.inj heq ▸ h
  cleanup _ := nofun
  undo _ _ := nofun
  undoFinal _ _ _ _ _ := nofun

omit [DecidableEq Cid] in
theorem LocalOp.preserving_cleanup {record : FileRecord Cid} (h : record.cid ≠ cid) :
    (LocalOp.cleanupReleased record).Preserving cid where
  release := nofun
  demote _ := nofun
  cleanup _ heq := LocalOp.cleanupReleased.inj heq ▸ h
  undo _ _ := nofun
  undoFinal _ _ _ _ _ := nofun

theorem lasting_of_stores (hsettled : Settled current) (ho : o.Preserving cid) {proc : Process Cid}
    {existing record : FileRecord Cid} (hlasting : Lasting current existing)
    (htouches : o.Touches cid) (hstores : o.Stores proc (some existing) record) :
    Lasting current record := by
  cases hstores with
  | register => exact hlasting.registration ..
  | adopt => exact hlasting.registration ..
  | confirm => exact hlasting.confirm hsettled _
  | release => exact absurd (congrArg LocalOp.releaseStoredFile htouches) ho.release
  | join hstage =>
      exact hlasting.of_not_confirmed (hlasting.not_confirmed_of_staged hstage) rfl
  | stable => exact hlasting.stable hsettled ..
  | stage _ hexpired =>
      refine hlasting.of_not_confirmed (hlasting.not_confirmed ?_) rfl
      rw [hexpired existing rfl]
      nofun
  | commit hstage =>
      have hstage := (FileRecord.stageOf_eq_some.mp hstage).1
      exact hlasting.of_not_confirmed (hlasting.not_confirmed_of_staged hstage) rfl
  | unclaim hstage =>
      have hstage := (FileRecord.stageOf_eq_some.mp hstage).1
      exact hlasting.of_not_confirmed (hlasting.not_confirmed_of_staged hstage) rfl
  | unstage hstage =>
      have hstage := (FileRecord.stageOf_eq_some.mp hstage).1
      exact hlasting.of_not_confirmed (hlasting.not_confirmed_of_staged hstage) rfl
  | admission => exact hlasting.registration ..
  | undo => exact absurd rfl (ho.undo _ _)
  | undoFinal => exact absurd rfl (ho.undoFinal _ _ _ _ _)
  | report => exact absurd rfl (ho.undoFinal _ _ _ _ _)
  | settle => exact absurd rfl (ho.undoFinal _ _ _ _ _)
  | clear => exact hlasting.of_same rfl rfl rfl id id
  | recover => exact hlasting.of_same rfl rfl rfl id id
  | forget => exact hlasting.of_same rfl rfl rfl id id
  | replicas => exact hlasting.of_same rfl rfl rfl id id
  | rescue => exact hlasting.of_same rfl rfl rfl (fun _ => rfl) fun _ => rfl
  | demote => exact absurd htouches (ho.demote _ rfl)
  | repin => exact hlasting.of_same rfl rfl rfl id id
  | expire hstate => exact hlasting.of_not_confirmed (hlasting.not_confirmed hstate) rfl
  | expireStage hstate => exact hlasting.of_not_confirmed (hlasting.not_confirmed hstate) rfl

theorem permits_lastingPolicy (hsettled : Settled current) (ho : o.Preserving cid) :
    (lastingPolicy w cid current o).Permits o where
  aborted _ _ _ := trivial
  block _ := id
  stores := by
    intro proc existing record _ hread htouches hstores hsame
    rw [hsame] at htouches
    rcases hread.1 hsame with ⟨existing, rfl, hlasting⟩ | ⟨rfl, -, options, rfl⟩
    · exact .inl ⟨record, rfl, lasting_of_stores hsettled ho hlasting htouches hstores⟩
    · cases hstores
  removes := by
    intro existing hallows htouches hremoves hsame
    rw [hsame] at htouches
    rcases hallows hsame with ⟨_, ⟨⟩, hlasting⟩ | ⟨hnone, -⟩
    · cases hremoves with
      | abort hstage =>
          have hstage := (FileRecord.stageOf_eq_some.mp hstage).1
          exact .inr ⟨rfl, hlasting.not_confirmed_of_staged hstage, _, rfl⟩
      | cleanup => exact absurd htouches (ho.cleanup _ rfl)
      | undo => exact absurd rfl (ho.undo _ _)
      | undoFinal => exact absurd rfl (ho.undoFinal _ _ _ _ _)
    · cases hnone
  unpins := by
    rintro proc existing _ hallows htouches hunpins ⟨hsame, -, hheld⟩
    rw [hsame] at htouches
    have hconfirmed := (FileRecord.isHeld_iff.mp hheld).1
    rcases hallows hsame with ⟨_, ⟨⟩, hlasting⟩ | ⟨hnone, -⟩
    · cases hunpins with
      | release => exact absurd (congrArg LocalOp.releaseStoredFile htouches) ho.release
      | abort hstage =>
          have hstage := (FileRecord.stageOf_eq_some.mp hstage).1
          exact hlasting.not_confirmed_of_staged hstage hconfirmed
      | demote => exact ho.demote _ rfl htouches
      | expire hstate => exact hlasting.not_confirmed hstate hconfirmed
      | undo => exact ho.undo _ _ rfl
      | undoFinal => exact ho.undoFinal _ _ _ _ _ rfl
    · cases hnone

/-! ## Releases and handovers -/

/-- The file keeps its age, and a record that stays confirmed says since when. -/
def fadingPolicy (cid : Cid) (current : FileRecord Cid) : Policy Cid where
  record cid' record := cid' = cid → ∃ stored, record = some stored ∧
    stored.createdAt = current.createdAt ∧
    (stored.state = .confirmed → stored.confirmedAt = current.confirmedAt)
  pin _ := False
  process _ := True
  stamped := by
    intro cid' record n h hcid
    obtain ⟨_, ⟨⟩, hfading⟩ := h hcid
    exact ⟨_, rfl, hfading⟩

theorem permits_fadingPolicy_release : (fadingPolicy cid current).Permits
    (.releaseStoredFile cid) where
  aborted _ _ _ := trivial
  block _ := id
  removes _ _ _ := nofun
  unpins _ _ _ _ _ _ := id
  stores := by
    intro proc existing record _ hread _ hstores hsame
    cases hstores
    obtain ⟨_, ⟨⟩, hcreated, -⟩ := hread.1 hsame
    exact ⟨_, rfl, hcreated, nofun⟩

theorem permits_fadingPolicy_demote {record : FileRecord Cid} :
    (fadingPolicy cid current).Permits (.demoteCopy record) where
  aborted _ _ _ := trivial
  block _ := id
  removes _ _ _ := nofun
  unpins _ _ _ _ _ _ := id
  stores := by
    intro proc existing record _ hread _ hstores hsame
    cases hstores
    obtain ⟨_, ⟨⟩, hfading⟩ := hread.1 hsame
    exact ⟨_, rfl, hfading⟩

/-! ## Uploads that take back -/

/-- The upload admitted a file this node did not hold permanently. -/
def LifeEvent.Made (id : AdmissionId) (cid : Cid) (e : LifeEvent Cid) : Prop :=
  LifeEvent.IsAdmission id e ∧ ∀ previous, e.before.files.get cid = some previous →
    previous.isHeld = false

/-- The upload put back what it found, and that was no permanent copy. -/
def PutBack (id : AdmissionId) (h : List (LifeEvent Cid)) (cid : Cid)
    (record : Option (FileRecord Cid)) : Prop :=
  ∃ e ∈ h, LifeEvent.Made id cid e ∧
    record.map FileRecord.unstamped = (e.before.files.get cid).map FileRecord.unstamped

/-- An upload leaves a file it took as durable as it was, or puts back what it
found. -/
def restoringPolicy (past : LifePast Cid) (id : AdmissionId) (cid : Cid)
    (current : FileRecord Cid) : Policy Cid where
  record cid' record := cid' = cid →
    (∃ stored, record = some stored ∧ Lasting current stored) ∨
    (PutBack id past.2 cid record ∧ ∀ stored, record = some stored →
      stored.admissionId ≠ some id ∧ stored.createdAt = current.createdAt ∧
      (stored.state = .confirmed → stored.confirmedAt = current.confirmedAt))
  pin cid' := cid' = cid ∧ cid ∈ past.1.pins ∧ ∀ e ∈ past.2, ¬ LifeEvent.Made id cid e
  process _ := True
  stamped := by
    intro cid' record n h hcid
    rcases h hcid with ⟨_, ⟨⟩, hlasting⟩ | ⟨⟨e, hmem, hmade, hsame⟩, hrest⟩
    · exact .inl ⟨_, rfl, hlasting.created, hlasting.confirmed⟩
    · refine .inr ⟨⟨e, hmem, hmade, hsame⟩, ?_⟩
      rintro _ ⟨⟩
      exact hrest record rfl

variable {past : LifePast Cid} {id : AdmissionId} {baselines : List (UploadBaseline Cid)}

/-- What the upload puts back may stand there. -/
theorem allows_previous (htoken : current.admissionId = some id)
    (hget : past.1.files.get cid = some current) (hrunning : id ∈ past.1.proc.activeAdmissions)
    {baseline : UploadBaseline Cid} (hrestorable : Restorable id past baseline)
    (hcid : baseline.cid = cid) :
    (restoringPolicy past id cid current).record cid baseline.previous := by
  intro _
  obtain ⟨e, hmem, hadmission, hbefore⟩ := hrestorable.admitted
  rw [hcid] at hbefore
  have hderives := hrestorable.derives current (by rw [hcid, hget]) htoken
  by_cases hheld : ∃ previous, baseline.previous = some previous ∧ previous.isHeld = true
  · obtain ⟨previous, hprevious, hheld⟩ := hheld
    obtain ⟨hstate, hheld⟩ := FileRecord.isHeld_iff.mp hheld
    obtain ⟨hcreated, hconfirmed⟩ := hderives previous hprevious
    have hvalid : isFileRecord previous = true :=
      Registry.valid_of_get (hbefore.symm.trans hprevious)
    refine .inl ⟨previous, hprevious, hcreated.symm, fun _ => ?_⟩
    exact ⟨hstate, ((hconfirmed hstate).2).symm, unstaged_of_confirmed hvalid hstate, fun _ => hheld⟩
  · push Not at hheld
    refine .inr ⟨⟨e, hmem, ⟨hadmission, fun previous hprevious => ?_⟩, by rw [hbefore]⟩, ?_⟩
    · exact Bool.eq_false_iff.mpr (hheld previous (hbefore.trans hprevious))
    · intro previous hprevious
      obtain ⟨hcreated, hconfirmed⟩ := hderives previous hprevious
      refine ⟨token_ne_of_idle (hrestorable.sound previous hprevious).2 hrunning, hcreated.symm,
        fun hstate => ((hconfirmed hstate).2).symm⟩

/-- The upload removes no pin of a copy it did not make. -/
theorem made_of_unpins {baseline : UploadBaseline Cid} (hrestorable : Restorable id past baseline)
    (hcid : baseline.cid = cid) (hunpinned : (baseline.previous.map (·.pinned)).getD false = false) :
    ∃ e ∈ past.2, LifeEvent.Made id cid e := by
  obtain ⟨e, hmem, hadmission, hbefore⟩ := hrestorable.admitted
  rw [hcid] at hbefore
  refine ⟨e, hmem, hadmission, fun previous hprevious => ?_⟩
  have hsame : baseline.previous = some previous := hbefore.trans hprevious
  have hsound := (hrestorable.sound previous hsame).1
  rw [hsame] at hunpinned
  have hpinned : previous.pinned = false := hunpinned
  rw [FileRecord.isHeld, ← hsound.held, hpinned, Bool.and_false]

/-- Undoing an upload that took the file. -/
theorem permits_restoringPolicy_rollback (hrunning : id ∈ past.1.proc.activeAdmissions)
    (htoken : current.admissionId = some id) (hget : past.1.files.get cid = some current)
    (hrestorable : ∀ baseline ∈ baselines, Restorable id past baseline) :
    (restoringPolicy past id cid current).Permits (.rollbackAdmitted baselines id) where
  aborted _ _ _ := trivial
  block _ := fun h => h
  stores := by
    intro proc existing record _ hread _ hstores hsame
    cases hstores with
    | @undo _ _ baseline _ _ hmem _ hprevious hcid =>
        have hbaseline : baseline.cid = cid := by
          rw [← ((hrestorable baseline hmem).valid record hprevious).1, hsame]
        have := allows_previous htoken hget hrunning (hrestorable baseline hmem) hbaseline rfl
        rwa [hprevious] at this
  removes := by
    intro existing _ _ hremoves hsame
    cases hremoves with
    | @undo _ _ baseline _ hmem _ hprevious hcid =>
        have := allows_previous htoken hget hrunning (hrestorable baseline hmem)
          (hcid.symm.trans hsame) rfl
        rwa [hprevious] at this
  unpins := by
    rintro proc existing _ _ _ hunpins ⟨hsame, -, hnot⟩
    cases hunpins with
    | @undo _ _ baseline _ hmem _ _ hunpinned hcid =>
        obtain ⟨e, hevent, hmade⟩ :=
          made_of_unpins (hrestorable baseline hmem) (hcid.symm.trans hsame) hunpinned
        exact hnot e hevent hmade

theorem permits_restoringPolicy_finalize (hrunning : id ∈ past.1.proc.activeAdmissions)
    (htoken : current.admissionId = some id) (hget : past.1.files.get cid = some current)
    (hrestorable : ∀ baseline ∈ baselines, Restorable id past baseline) {cids : List Cid}
    {reports : Reports Cid} {settledAt : Nat} : (restoringPolicy past id cid current).Permits
      (.finalizeAdmitted cids baselines reports id settledAt) where
  aborted _ _ _ := trivial
  block _ := fun h => h
  stores := by
    intro proc existing record _ hread _ hstores hsame
    cases hstores with
    | @undoFinal _ _ _ _ _ baseline _ _ hmem _ hprevious hcid =>
        have hbaseline : baseline.cid = cid := by
          rw [← ((hrestorable baseline hmem).valid record hprevious).1, hsame]
        have := allows_previous htoken hget hrunning (hrestorable baseline hmem) hbaseline rfl
        rwa [hprevious] at this
    | report htoken' =>
        rcases hread.1 hsame with ⟨_, ⟨⟩, hlasting⟩ | ⟨-, hrest⟩
        · exact .inl ⟨_, rfl, hlasting.of_same rfl rfl rfl (fun h => h) fun h => h⟩
        · exact absurd htoken' (hrest _ rfl).1
    | settle htoken' =>
        rcases hread.1 hsame with ⟨_, ⟨⟩, hlasting⟩ | ⟨-, hrest⟩
        · exact .inl ⟨_, rfl, hlasting.of_same rfl rfl rfl (fun h => h) fun h => h⟩
        · exact absurd htoken' (hrest _ rfl).1
  removes := by
    intro existing _ _ hremoves hsame
    cases hremoves with
    | @undoFinal _ _ _ _ _ baseline _ hmem _ hprevious hcid =>
        have := allows_previous htoken hget hrunning (hrestorable baseline hmem)
          (hcid.symm.trans hsame) rfl
        rwa [hprevious] at this
  unpins := by
    rintro proc existing _ _ _ hunpins ⟨hsame, -, hnot⟩
    cases hunpins with
    | @undoFinal _ _ _ _ _ baseline _ hmem _ _ hunpinned hcid =>
        obtain ⟨e, hevent, hmade⟩ :=
          made_of_unpins (hrestorable baseline hmem) (hcid.symm.trans hsame) hunpinned
        exact hnot e hevent hmade

/-- The operation changes files that carry the token only. -/
structure LocalOp.ActsFor (o : LocalOp Cid) (id : AdmissionId) : Prop where
  stores : ∀ proc existing record, o.Stores proc existing record →
    ∃ old, existing = some old ∧ old.admissionId = some id
  removes : ∀ old, o.Removes old → old.admissionId = some id
  unpins : ∀ proc old, o.Unpins proc old → old.admissionId = some id

theorem actsFor_rollbackAdmitted : (LocalOp.rollbackAdmitted baselines id).ActsFor id where
  stores := by
    intro proc existing record hstores
    cases hstores with
    | undo _ htoken => exact ⟨_, rfl, htoken⟩
  removes := by
    intro old hremoves
    cases hremoves with
    | undo _ htoken => exact htoken
  unpins := by
    intro proc old hunpins
    cases hunpins with
    | undo _ htoken => exact htoken

theorem actsFor_finalizeAdmitted {cids : List Cid} {reports : Reports Cid} {settledAt : Nat} :
    (LocalOp.finalizeAdmitted cids baselines reports id settledAt).ActsFor id where
  stores := by
    intro proc existing record hstores
    cases hstores with
    | undoFinal _ htoken => exact ⟨_, rfl, htoken⟩
    | report htoken => exact ⟨_, rfl, htoken⟩
    | settle htoken => exact ⟨_, rfl, htoken⟩
  removes := by
    intro old hremoves
    cases hremoves with
    | undoFinal _ htoken => exact htoken
  unpins := by
    intro proc old hunpins
    cases hunpins with
    | undoFinal _ htoken => exact htoken

/-- A file that carries another token is left alone. -/
theorem permits_frozenPolicy_of_actsFor (ho : o.ActsFor id)
    (htoken : current.admissionId ≠ some id) : (frozenPolicy w current).Permits o where
  aborted _ _ hproc := ⟨hproc.admissions, hproc.repairs⟩
  block _ := fun h => h
  stores := by
    intro proc existing record _ hread _ hstores hsame
    obtain ⟨stored, rfl, hcore⟩ := hread.1 hsame
    obtain ⟨_, ⟨⟩, htoken'⟩ := ho.stores proc _ record hstores
    exact absurd ((core_eq_iff.mp hcore).2.2.2.2.2.2.2.2.1.symm.trans htoken') htoken
  removes := by
    intro existing hallows _ hremoves hsame
    obtain ⟨_, ⟨⟩, hcore⟩ := hallows hsame
    have htoken' := ho.removes existing hremoves
    exact absurd ((core_eq_iff.mp hcore).2.2.2.2.2.2.2.2.1.symm.trans htoken') htoken
  unpins := by
    rintro proc existing _ hallows _ hunpins ⟨hsame, -⟩
    obtain ⟨_, ⟨⟩, hcore⟩ := hallows hsame
    have htoken' := ho.unpins proc existing hunpins
    exact htoken ((core_eq_iff.mp hcore).2.2.2.2.2.2.2.2.1.symm.trans htoken')

/-- A decision that stands keeps what its reports and its settlement keep. -/
theorem wp_finalized {P : Policy Cid} {cids : List Cid} {reports : Reports Cid} {settledAt : Nat}
    (hreport : ∀ record, P.Owns id record → P.Allows (reportedRecord reports record))
    (hsettle : ∀ record, P.Owns id record → P.Allows (record.settled settledAt))
    (hw : P.Holds w) : Prog.wp (storeSem content anyFault)
      (finalizeAdmitted cids baselines reports id settledAt)
      (fun r w' => ∀ finalized, r = .ok finalized → P.Holds w') w := by
  refine Prog.wp_bind.mpr (Prog.wp_mono ?_ (Keeps.wp keeps_readAdmitted hw))
  rintro (err | records) w₁ ⟨hw₁, howns⟩
  · exact fun _ => nofun
  refine Prog.wp_bind.mpr (Prog.wp_attempt.mpr (Prog.wp_mono ?_
    (Keeps.wp (keeps_saveReports hreport (howns records rfl)) hw₁)))
  rintro (err | saved) w₂ ⟨hw₂, howns₂⟩
  · refine Prog.wp_bind.mpr (Prog.wp_iff_runs.mpr fun r w₃ _ => ?_)
    cases r with
    | error err => exact fun _ => nofun
    | ok failures => exact fun _ => nofun
  · refine Prog.wp_mono ?_ (Keeps.wp (safe_settleEach hsettle (howns₂ saved rfl)) hw₂)
    exact fun r w₃ hkept _ _ => hkept.1

end Policies

/-! ## The claim of every run -/

section Runs

variable {Cid : Type} [DecidableEq Cid] {content : Content Cid} {faults : Faults Cid}
variable {site : Site Cid} {t : LifeTask} {past : LifePast Cid} {o : LifeOp Cid}
variable {op : LocalOp Cid} {w' : World Cid} {cid : Cid} {current : FileRecord Cid}

/-- The upload took back what it had admitted. -/
def LifeEvent.Undoes (id : AdmissionId) : LifeEvent Cid → Prop
  | .request t (.node (.run (.rollbackAdmitted _ id'))) _ _ _ => t = .upload id ∧ id' = id
  | .request t (.node (.run (.finalizeAdmitted _ _ _ id' _))) _ (.error _) _ =>
      t = .upload id ∧ id' = id
  | _ => False

/-- The file is as durable afterwards as it was. -/
structure Preserved (w w' : World Cid) (cid : Cid) (current : FileRecord Cid) : Prop where
  record : (∃ stored, w'.files.get cid = some stored ∧ Lasting current stored) ∨
    (w'.files.get cid = none ∧ current.state ≠ .confirmed)
  pin : current.isHeld = true → cid ∈ w.pins → cid ∈ w'.pins

theorem settled_of_sound (hinv : LifeInvariant past) (hget : past.1.files.get cid = some current) :
    Settled current where
  since hstate := ((hinv.sound.record cid current hget).confirmed hstate).2
  unstaged hstate := unstaged_of_confirmed (Registry.valid_of_get hget) hstate

theorem preserved_of_keeps {w : World Cid} (hsettled : Settled current)
    (hget : w.files.get cid = some current) (h : w.Keeps w' cid) :
    Preserved w w' cid current := by
  have hrecord := h.record
  rw [hget] at hrecord
  obtain ⟨stored, hstored, hcore⟩ := Option.map_eq_some_iff.mp hrecord
  obtain ⟨-, -, hstate, hcreated, -, hsince, -, hheld, -, -, hstage⟩ := core_eq_iff.mp hcore
  refine ⟨.inl ⟨stored, hstored, (Lasting.refl hsettled).of_same hcreated hstate hsince ?_ ?_⟩,
    fun _ => h.pin⟩
  · rw [hstage]
    exact id
  · rw [hheld]
    exact id

/-- Nothing durable is lost by an operation that does not mean to. -/
theorem preserved_of_preserving (hsettled : Settled current) (howners : op.leavesOwners = true)
    {w : World Cid} (hvalid : ∀ b ∈ op.baselines, b.Valid) (hget : w.files.get cid = some current)
    (ho : op.Preserving cid) {r : Except (LifecycleError Cid) op.Ret}
    (hrun : Prog.Runs (storeSem content anyFault) op.body w r w') :
    Preserved w w' cid current := by
  have hsafe : Safe content (lastingPolicy w cid current op) op.body :=
    (permits_lastingPolicy hsettled ho).safe howners hvalid
  have hholds : (lastingPolicy w cid current op).Holds w := by
    refine ⟨fun cid' heq => .inl ⟨current, by rw [heq, hget], .refl hsettled⟩, ?_, trivial,
      fun _ => False.elim⟩
    rintro cid' ⟨rfl, hpin, -⟩
    exact hpin
  have hholds' := hsafe.holds hholds hrun
  refine ⟨?_, fun hheld hpin => hholds'.pin cid ⟨rfl, hpin, hheld⟩⟩
  rcases hholds'.record cid rfl with hlasting | ⟨hnone, hstate, -⟩
  · exact .inl hlasting
  · exact .inr ⟨hnone, hstate⟩

/-- A cleanup removes an expired record at most. -/
theorem preserved_of_cleanup (hsettled : Settled current) {record : FileRecord Cid}
    {w : World Cid} (hrelease : IsOwnRelease record w) (hget : w.files.get cid = some current)
    (hcid : record.cid = cid) {r : Except (LifecycleError Cid) Unit}
    (hrun : Prog.Runs (storeSem content anyFault) (cleanupReleased record) w r w') :
    Preserved w w' cid current := by
  rcases Prog.wp_iff_runs.mp wp_cleanupReleased _ _ hrun with rfl | ⟨found, hfound, hrev, hafter⟩
  · exact preserved_of_keeps hsettled hget ⟨rfl, id⟩
  · rw [hcid, hget] at hfound
    cases hfound
    obtain ⟨hexpired, n, hn, -, hsame⟩ := hrelease
    have heq := hsame current (by rw [hcid, hget]) (hrev.trans hn)
    have hstate : current.state ≠ .confirmed := by
      rw [heq, hexpired]
      nofun
    refine ⟨.inr ⟨?_, hstate⟩, fun hheld => absurd (FileRecord.isHeld_iff.mp hheld).1 hstate⟩
    rw [hafter, hcid]
    simp

/-- The record keeps its age, and when it stays confirmed, since when it is. -/
def Fades (w' : World Cid) (cid : Cid) (current : FileRecord Cid) : Prop :=
  ∀ stored, w'.files.get cid = some stored → stored.createdAt = current.createdAt ∧
    (current.state = .confirmed → stored.state = .confirmed →
      stored.confirmedAt = current.confirmedAt)

theorem Preserved.fades {w : World Cid} (h : Preserved w w' cid current) :
    Fades w' cid current := by
  intro stored hget
  rcases h.record with ⟨_, hstored, hlasting⟩ | ⟨hnone, -⟩
  · rw [hget] at hstored
    cases hstored
    exact ⟨hlasting.created, fun hstate _ => (hlasting.confirmed hstate).2.1⟩
  · rw [hget] at hnone
    cases hnone

/-- A permanent copy on a sound node is as it was. -/
theorem Preserved.held {w : World Cid} (h : Preserved w w' cid current) (hsound : w'.Sound)
    (hheld : current.isHeld = true) : ∃ stored, w'.files.get cid = some stored ∧
      stored.state = .confirmed ∧ stored.heldLocally = true ∧ stored.pinned = true ∧
      (cid ∈ w.pins → cid ∈ w'.pins) := by
  obtain ⟨hstate, hlocal⟩ := FileRecord.isHeld_iff.mp hheld
  rcases h.record with ⟨stored, hstored, hlasting⟩ | ⟨-, hnot⟩
  · obtain ⟨hstate', -, -, hheld'⟩ := hlasting.confirmed hstate
    refine ⟨stored, hstored, hstate', hheld' hlocal, ?_, h.pin hheld⟩
    rw [(hsound.record cid stored hstored).held, hheld' hlocal]
  · exact absurd hstate hnot

/-- The file was released, or handed over. -/
theorem fades_of_fadingPolicy (hget : past.1.files.get cid = some current)
    (howners : op.leavesOwners = true) (hvalid : ∀ b ∈ op.baselines, b.Valid)
    (hpermits : (fadingPolicy cid current).Permits op)
    {r : Except (LifecycleError Cid) op.Ret}
    (hrun : Prog.Runs (storeSem content anyFault) op.body past.1 r w') :
    Fades w' cid current := by
  have hsafe : Safe content (fadingPolicy cid current) op.body := hpermits.safe howners hvalid
  have hholds : (fadingPolicy cid current).Holds past.1 :=
    ⟨fun cid' heq => ⟨current, by rw [heq, hget], rfl, fun _ => rfl⟩, fun _ => False.elim,
      trivial, fun _ => False.elim⟩
  intro stored hstored
  obtain ⟨_, hfound, hcreated, hsince⟩ := (hsafe.holds hholds hrun).record cid rfl
  rw [hstored] at hfound
  cases hfound
  exact ⟨hcreated, fun _ => hsince⟩

/-- What an upload that takes back its files leaves of one of them. -/
structure TakenBack (id : AdmissionId) (past : LifePast Cid) (w' : World Cid) (cid : Cid)
    (current : FileRecord Cid) : Prop where
  made : ∃ e ∈ past.2, LifeEvent.Made id cid e
  record : (∃ stored, w'.files.get cid = some stored ∧ Lasting current stored) ∨
    PutBack id past.2 cid (w'.files.get cid)
  fades : Fades w' cid current

theorem preserved_or_takenBack {id : AdmissionId} (hsettled : Settled current)
    (hget : past.1.files.get cid = some current) (howners : op.leavesOwners = true)
    (hvalid : ∀ b ∈ op.baselines, b.Valid)
    (hpermits : (restoringPolicy past id cid current).Permits op)
    {r : Except (LifecycleError Cid) op.Ret}
    (hrun : Prog.Runs (storeSem content anyFault) op.body past.1 r w') :
    Preserved past.1 w' cid current ∨ TakenBack id past w' cid current := by
  have hsafe : Safe content (restoringPolicy past id cid current) op.body :=
    hpermits.safe howners hvalid
  have hholds : (restoringPolicy past id cid current).Holds past.1 := by
    refine ⟨fun cid' heq => .inl ⟨current, by rw [heq, hget], .refl hsettled⟩, ?_, trivial,
      fun _ => False.elim⟩
    rintro cid' ⟨rfl, hpin, -⟩
    exact hpin
  have hholds' := hsafe.holds hholds hrun
  by_cases hmade : ∃ e ∈ past.2, LifeEvent.Made id cid e
  · rcases hholds'.record cid rfl with ⟨stored, hstored, hlasting⟩ | ⟨hback, hrest⟩
    · refine .inr ⟨hmade, .inl ⟨stored, hstored, hlasting⟩, fun found hfound => ?_⟩
      rw [hstored] at hfound
      cases hfound
      exact ⟨hlasting.created, fun hstate _ => (hlasting.confirmed hstate).2.1⟩
    · exact .inr ⟨hmade, .inr hback, fun stored hstored =>
        ⟨(hrest stored hstored).2.1, fun _ => (hrest stored hstored).2.2⟩⟩
  · push Not at hmade
    refine .inl ⟨?_, fun _ hpin => hholds'.pin cid ⟨rfl, hpin, hmade⟩⟩
    rcases hholds'.record cid rfl with hlasting | ⟨⟨e, hmem, he, -⟩, -⟩
    · exact .inl hlasting
    · exact absurd he (hmade e hmem)

theorem preserved_of_actsFor {id : AdmissionId} (hsettled : Settled current)
    (hget : past.1.files.get cid = some current) (howners : op.leavesOwners = true)
    (hvalid : ∀ b ∈ op.baselines, b.Valid) (ho : op.ActsFor id)
    (htoken : current.admissionId ≠ some id) {r : Except (LifecycleError Cid) op.Ret}
    (hrun : Prog.Runs (storeSem content anyFault) op.body past.1 r w') :
    Preserved past.1 w' cid current := by
  have hcid := Registry.cid_of_get hget
  have hsafe : Safe content (frozenPolicy past.1 current) op.body :=
    (permits_frozenPolicy_of_actsFor ho htoken).safe howners hvalid
  have hholds : (frozenPolicy past.1 current).Holds past.1 :=
    ⟨fun cid' heq => ⟨current, by rw [heq, hcid, hget], rfl⟩, fun cid' hpin => hpin.2,
      ⟨rfl, rfl⟩, fun _ => False.elim⟩
  have hholds' := hsafe.holds hholds hrun
  obtain ⟨stored, hstored, hcore⟩ := hholds'.record cid hcid.symm
  refine preserved_of_keeps hsettled hget
    ⟨by rw [hstored, hget, Option.map_some, Option.map_some, hcore], fun hpin => ?_⟩
  exact hholds'.pin cid ⟨hcid.symm, hpin⟩

/-- A decision that stands preserves the files of its upload. -/
theorem preserved_of_finalized {id : AdmissionId} (hsettled : Settled current)
    (hget : past.1.files.get cid = some current) {cids : List Cid}
    {baselines : List (UploadBaseline Cid)} {reports : Reports Cid} {settledAt : Nat}
    {finalized : List (FileRecord Cid)}
    (hrun : Prog.Runs (storeSem content anyFault)
      (finalizeAdmitted cids baselines reports id settledAt) past.1 (.ok finalized) w') :
    Preserved past.1 w' cid current := by
  let P := lastingPolicy past.1 cid current (.finalizeAdmitted cids baselines reports id settledAt)
  have hkept : ∀ {record stored : FileRecord Cid}, P.Allows record → stored.cid = record.cid →
      (∀ current, Lasting current record → Lasting current stored) → P.Allows stored := by
    intro record stored hallows hcid hlasting hsame
    rcases hallows (hcid.symm.trans hsame) with ⟨_, ⟨⟩, hrecord⟩ | ⟨hnone, -⟩
    · exact .inl ⟨stored, rfl, hlasting current hrecord⟩
    · cases hnone
  have hholds : P.Holds past.1 := by
    refine ⟨fun cid' heq => .inl ⟨current, by rw [heq, hget], .refl hsettled⟩, ?_, trivial,
      fun _ => False.elim⟩
    rintro cid' ⟨rfl, hpin, -⟩
    exact hpin
  have hreport : ∀ record, P.Owns id record → P.Allows (reportedRecord reports record) :=
    fun record howns => hkept howns.1 rfl fun _ h => h.of_same rfl rfl rfl (fun h => h) fun h => h
  have hsettle : ∀ record, P.Owns id record → P.Allows (record.settled settledAt) :=
    fun record howns => hkept howns.1 rfl fun _ h => h.of_same rfl rfl rfl (fun h => h) fun h => h
  have hholds' := Prog.wp_iff_runs.mp (wp_finalized hreport hsettle hholds) _ _ hrun finalized rfl
  refine ⟨?_, fun hheld hpin => hholds'.pin cid ⟨rfl, hpin, hheld⟩⟩
  rcases hholds'.record cid rfl with hlasting | ⟨hnone, hstate, -⟩
  · exact .inl hlasting
  · exact .inr ⟨hnone, hstate⟩

/-- What an operation on this node leaves of a file: all of it, what a release
or a handover leaves, or what its upload leaves that takes it back. -/
theorem outcome_of_run (hinv : LifeInvariant past) (hpre : op.Allowed site t past)
    (hget : past.1.files.get cid = some current) {r : Except (LifecycleError Cid) op.Ret}
    (hrun : Prog.Runs (storeSem content anyFault) op.body past.1 r w') :
    Preserved past.1 w' cid current ∨
    ((op = .releaseStoredFile cid ∨ ∃ record, op = .demoteCopy record ∧ record.cid = cid ∧
      HandedOver site t past.2 record) ∧ Fades w' cid current) ∨
    ∃ id, current.admissionId = some id ∧
      LifeEvent.Undoes id (.request t (.node (.run op)) past.1 r w') ∧
      TakenBack id past w' cid current := by
  have hsettled := settled_of_sound hinv hget
  have hvalid : ∀ b ∈ op.baselines, b.Valid :=
    fun b hb => ((soundArgs_of_allowed hinv hpre).baselines b hb).1
  cases howners : op.leavesOwners with
  | false => exact .inl (preserved_of_keeps hsettled hget (keeps_of_owners howners hrun))
  | true =>
    have hpreserving : op.Preserving cid → Preserved past.1 w' cid current :=
      fun ho => preserved_of_preserving hsettled howners hvalid hget ho hrun
    cases op with
    | releaseStoredFile file =>
        by_cases hfile : file = cid
        · subst hfile
          exact .inr (.inl ⟨.inl rfl,
            fades_of_fadingPolicy hget howners hvalid permits_fadingPolicy_release hrun⟩)
        · exact .inl (hpreserving (LocalOp.preserving_release hfile))
    | demoteCopy record =>
        by_cases hfile : record.cid = cid
        · exact .inr (.inl ⟨.inr ⟨record, rfl, hfile, hpre⟩,
            fades_of_fadingPolicy hget howners hvalid permits_fadingPolicy_demote hrun⟩)
        · exact .inl (hpreserving (LocalOp.preserving_demote hfile))
    | cleanupReleased record =>
        by_cases hfile : record.cid = cid
        · exact .inl (preserved_of_cleanup hsettled hpre hget hfile hrun)
        · exact .inl (hpreserving (LocalOp.preserving_cleanup hfile))
    | rollbackAdmitted baselines id =>
        by_cases htoken : current.admissionId = some id
        · rcases preserved_or_takenBack hsettled hget howners hvalid
            (permits_restoringPolicy_rollback hpre.2.1 htoken hget hpre.2.2) hrun with hkept | hback
          · exact .inl hkept
          · exact .inr (.inr ⟨id, htoken, ⟨hpre.1, rfl⟩, hback⟩)
        · exact .inl (preserved_of_actsFor hsettled hget howners hvalid actsFor_rollbackAdmitted
            htoken hrun)
    | finalizeAdmitted cids baselines reports id settledAt =>
        by_cases htoken : current.admissionId = some id
        · rcases r with err | finalized
          · rcases preserved_or_takenBack hsettled hget howners hvalid
              (permits_restoringPolicy_finalize hpre.2.1 htoken hget hpre.2.2) hrun with
              hkept | hback
            · exact .inl hkept
            · exact .inr (.inr ⟨id, htoken, ⟨hpre.1, rfl⟩, hback⟩)
          · exact .inl (preserved_of_finalized hsettled hget hrun)
        · exact .inl (preserved_of_actsFor hsettled hget howners hvalid actsFor_finalizeAdmitted
            htoken hrun)
    | _ => exact .inl (hpreserving (LocalOp.preserving_of_isSparing rfl))

/-- The permanent copy is one, record and pin. -/
def World.Holds (w : World Cid) (cid : Cid) : Prop :=
  ∃ stored, w.files.get cid = some stored ∧ stored.state = .confirmed ∧
    stored.heldLocally = true ∧ stored.pinned = true

/-- A permanent copy is given up on purpose: it is released, it is handed over
to holders that all have the file, or the upload that made it is undone. -/
inductive GivenUp (site : Site Cid) (past : List (LifeEvent Cid)) (cid : Cid)
    (current : FileRecord Cid) : LifeEvent Cid → Prop
  | released {t : LifeTask} {o : LifeOp Cid} {before r after}
      (ho : o.local = some (.releaseStoredFile cid)) :
      GivenUp site past cid current (.request t o before r after)
  | handedOver {t : LifeTask} {o : LifeOp Cid} {record before r after}
      (ho : o.local = some (.demoteCopy record)) (hcid : record.cid = cid)
      (hover : HandedOver site t past record) :
      GivenUp site past cid current (.request t o before r after)
  | undone {id : AdmissionId} {e : LifeEvent Cid} (htoken : current.admissionId = some id)
      (hundo : LifeEvent.Undoes id e) (hmade : ∃ e ∈ past, LifeEvent.Made id cid e)
      (hback : e.after.Holds cid ∨ PutBack id past cid (e.after.files.get cid)) :
      GivenUp site past cid current e

/-- Whatever runs on a node: a confirmed file this node holds stays so, record
and pin, unless it is given up on purpose. Every record keeps its age, and one
that stays confirmed keeps the time since when it is. -/
theorem durable_content {w₀ : World Cid} (h₀ : w₀.Starting)
    {c : Prog.Pool.Config LifeTask (LifeOp Cid) LifeOp.Ret (LifecycleError Cid) (LifePast Cid)}
    (hrun : LifeRun content faults site w₀ c) {past rest : List (LifeEvent Cid)}
    {before after : World Cid} {r : Except (LifecycleError Cid) o.Ret}
    (hevent : c.1.2 = past ++ .request t o before r after :: rest)
    (hget : before.files.get cid = some current) :
    (current.state = .confirmed → current.heldLocally = true →
      (after.Holds cid ∧ (cid ∈ before.pins → cid ∈ after.pins)) ∨
        GivenUp site past cid current (.request t o before r after)) ∧
    ∀ stored, after.files.get cid = some stored → stored.createdAt = current.createdAt ∧
      (current.state = .confirmed → stored.state = .confirmed →
        stored.confirmedAt = current.confirmedAt) := by
  obtain ⟨hinv, hpre, hstep⟩ := (coexistence h₀ hrun).2 _ _ _ _ _ _ _ hevent
  have hsettled := settled_of_sound hinv hget
  have hinv' : LifeInvariant (after, past ++ [.request t o before r after]) :=
    (hinv.step hpre ⟨hstep, rfl⟩).invariant
  -- what is preserved is held, and fades at most
  have hholds : Preserved before after cid current → current.state = .confirmed →
      current.heldLocally = true → after.Holds cid ∧ (cid ∈ before.pins → cid ∈ after.pins) := by
    intro hkept hstate hheld
    obtain ⟨stored, hstored, hstate', hheld', hpinned, hpin⟩ :=
      hkept.held hinv'.sound (FileRecord.isHeld_iff.mpr ⟨hstate, hheld⟩)
    exact ⟨⟨stored, hstored, hstate', hheld', hpinned⟩, hpin⟩
  have hback : ∀ {id : AdmissionId}, TakenBack id (before, past) after cid current →
      current.state = .confirmed → current.heldLocally = true →
      after.Holds cid ∨ PutBack id past cid (after.files.get cid) := by
    intro id htaken hstate hheld
    refine htaken.record.imp ?_ fun hback => hback
    rintro ⟨stored, hstored, hlasting⟩
    obtain ⟨hstate', -, -, hheld'⟩ := hlasting.confirmed hstate
    refine ⟨stored, hstored, hstate', hheld' hheld, ?_⟩
    rw [(hinv'.sound.record cid stored hstored).held, hheld' hheld]
  rcases o with (op | question) | op
  · have hrun : Prog.Runs (storeSem content anyFault) op.body before r after := runs_anyFault hstep
    rcases outcome_of_run hinv (hpre op rfl) hget hrun with
      hkept | ⟨hgiven, hfades⟩ | ⟨id, htoken, hundo, htaken⟩
    · exact ⟨fun hstate hheld => .inl (hholds hkept hstate hheld), hkept.fades⟩
    · refine ⟨fun _ _ => .inr ?_, hfades⟩
      rcases hgiven with rfl | ⟨record, rfl, hcid, hover⟩
      · exact .released rfl
      · exact .handedOver rfl hcid hover
    · exact ⟨fun hstate hheld =>
        .inr (.undone htoken hundo htaken.made (hback htaken hstate hheld)), htaken.fades⟩
  · have hsame : after = before := hstep
    have hkept : Preserved before after cid current :=
      preserved_of_keeps hsettled hget (.of_same (by rw [hsame]) (by rw [hsame]))
    exact ⟨fun hstate hheld => .inl (hholds hkept hstate hheld), hkept.fades⟩
  · rcases lifeSem_cases hstep with ⟨op', r', hop, hrun⟩ | ⟨-, hsame⟩
    · cases op with
      | demoteCopy record =>
          cases hop
          rcases outcome_of_run hinv (hpre _ rfl) hget hrun with
            hkept | ⟨hgiven | ⟨_, ⟨⟩, hcid, hover⟩, hfades⟩ | ⟨id, -, hundo, -⟩
          · exact ⟨fun hstate hheld => .inl (hholds hkept hstate hheld), hkept.fades⟩
          · cases hgiven
          · exact ⟨fun _ _ => .inr (.handedOver rfl hcid hover), hfades⟩
          · exact hundo.elim
      | _ => cases hop
    · have hkept : Preserved before after cid current :=
        preserved_of_keeps hsettled hget (.of_same (by rw [hsame]) (by rw [hsame]))
      exact ⟨fun hstate hheld => .inl (hholds hkept hstate hheld), hkept.fades⟩

end Runs

/-! ## A stage of a permanent file -/

namespace StagedAgain

open OwnedUpload (site answers)

def target : ReplicaStageTarget Nat := ⟨7, "upload", 5, 9, some "peer"⟩

/-- The file was stored, and another node asks to stage it. -/
def moves : List (Prog.Pool.Move LifeTask (LifeOp Nat) LifeOp.Ret (LifecycleError Nat)) :=
  [.spawn (.other 0) (Job.life (LocalOp.registerPinnedFile ⟨7, "file", 5, 0⟩).job),
    .act (.other 0),
    .spawn (.other 1) (Job.life (LocalOp.stageReplica target "7").job)]

def registered : LifePast Nat := (playLife Content.flat answers World.empty moves).1

def staged : LifePast Nat :=
  (playLife Content.flat answers World.empty (moves ++ [.act (.other 1)])).1

theorem lifeRun_staged : LifeRun Content.flat noFault site World.empty
    (playLife Content.flat answers World.empty (moves ++ [.act (.other 1)])) := by
  refine lifeRun_playLife fun t p hmem => ?_
  simp only [moves, List.cons_append, List.nil_append, List.mem_cons, reduceCtorEq, false_or,
    List.not_mem_nil, or_false, Prog.Pool.Move.spawn.injEq] at hmem
  rcases hmem with ⟨rfl, rfl⟩ | ⟨rfl, rfl⟩
  · exact .request 0 (.registerPinnedFile _) rfl
  · exact .request 1 (.stageReplica _ _) rfl

end StagedAgain

open StagedAgain in
/-- The stage of another upload leaves the permanent copy one. -/
theorem durable_content_staged :
    staged.1.Holds 7 ∧ (7 ∈ registered.1.pins → 7 ∈ staged.1.pins) := by
  have hstart : (World.empty : World Nat).Starting := ⟨rfl, rfl⟩
  have hrecord : ∃ current, registered.1.files.get 7 = some current ∧
      current.state = .confirmed ∧ current.heldLocally = true := ⟨_, rfl, rfl, rfl⟩
  obtain ⟨current, hget, hstate, hheld⟩ := hrecord
  have hanswer : ∃ answer, staged.2 = registered.2 ++ .request (.other 1)
      (.node (.run (.stageReplica target "7"))) registered.1 (.ok answer) staged.1 :: [] :=
    ⟨_, rfl⟩
  obtain ⟨answer, hevent⟩ := hanswer
  rcases (durable_content hstart lifeRun_staged hevent hget).1 hstate hheld with hkept | hgiven
  · exact hkept
  · cases hgiven with
    | released ho => cases ho
    | handedOver ho => cases ho
    | undone _ hundo => cases hundo

end IpfsNode
