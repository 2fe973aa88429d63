import IpfsNode.DurableContent

/-!
# Uploads that wait for their confirmation

Where uploads have to be confirmed, an upload is stored as a temporary file with
an expiry. A confirmation makes it permanent; a stage of another node is refused,
because it must not. A store is not: it registers the file as a confirmed one as
soon as the upload has settled. `pending_until_confirmed` says that in runs
without such a store nothing but a confirmation does so.
-/

namespace IpfsNode

section Records

variable {Cid : Type}

/-- An upload that was not confirmed yet. -/
def FileRecord.isPending (record : FileRecord Cid) : Bool :=
  record.state = .temporary && record.replicaStage.isNone

theorem FileRecord.isPending_iff {record : FileRecord Cid} :
    record.isPending = true ↔ record.state = .temporary ∧ record.replicaStage = none := by
  simp [FileRecord.isPending]

/-- Collection may take the file, sooner or later. -/
structure Expiring (record : FileRecord Cid) : Prop where
  unconfirmed : record.state ≠ .confirmed
  expires : record.state = .expired ∨ record.expiresAt.isSome = true

theorem SoundRecord.expiring {proc : Process Cid} {issued : Finset AdmissionId}
    {record : FileRecord Cid} (h : SoundRecord proc issued record)
    (hstate : record.state ≠ .confirmed) : Expiring record := by
  refine ⟨hstate, ?_⟩
  cases heq : record.state with
  | temporary => exact .inr (h.temporary heq)
  | confirmed => exact absurd heq hstate
  | expired => exact .inl rfl

/-- A record that waits, with an expiry. -/
structure Waiting (record : FileRecord Cid) : Prop where
  temporary : record.state = .temporary
  unstaged : record.replicaStage = none
  expires : record.expiresAt.isSome = true

theorem Waiting.expiring {record : FileRecord Cid} (h : Waiting record) : Expiring record :=
  ⟨by rw [h.temporary]; nofun, .inr h.expires⟩

end Records

/-! ## Events -/

section Events

variable {Cid : Type} [DecidableEq Cid]

/-- The upload, if the event is one, has to be confirmed. -/
def LifeEvent.requiresConfirmation : LifeEvent Cid → Bool
  | .request _ (.node (.run (.admitUpload options _))) _ _ _ => options.confirmationRequired
  | _ => true

/-- A permanent copy is stored of a file that waits for its confirmation, after
its upload has ended. -/
def LifeEvent.storesPending : LifeEvent Cid → Bool
  | .request _ (.node (.run (.registerPinnedFile options))) before _ _ =>
      (before.files.get options.cid).any fun record =>
        record.isPending && !isAdmissionInFlight before.proc record
  | _ => false

end Events

/-! ## What operations leave of a waiting upload -/

section Policies

variable {Cid : Type} [DecidableEq Cid] {content : Content Cid} {site : Site Cid}
variable {t : LifeTask} {past : LifePast Cid} {op : LocalOp Cid} {w' : World Cid}
variable {cid : Cid} {current : FileRecord Cid}

/-- The file waits. -/
def waitingPolicy (cid : Cid) : Policy Cid where
  record cid' record := cid' = cid → ∃ stored, record = some stored ∧ Waiting stored
  pin _ := False
  process _ := True
  stamped := by
    intro cid' record n h hcid
    obtain ⟨_, ⟨⟩, hwaiting⟩ := h hcid
    exact ⟨_, rfl, hwaiting.temporary, hwaiting.unstaged, hwaiting.expires⟩

/-- The file can expire, and its upload takes back what it took only. -/
def lapsingPolicy (cid : Cid) (own : Option AdmissionId) (current : FileRecord Cid) :
    Policy Cid where
  record cid' record := cid' = cid → ∀ stored, record = some stored → Expiring stored ∧
    ∀ id, own = some id → stored.admissionId = some id → current.admissionId = some id
  pin _ := False
  process _ := True
  stamped := by
    rintro cid' record n h hcid _ ⟨⟩
    obtain ⟨hexpiring, htoken⟩ := h hcid record rfl
    exact ⟨⟨hexpiring.unconfirmed, hexpiring.expires⟩, htoken⟩

/-- Operations that leave a waiting upload waiting. -/
def LocalOp.leavesWaiting (cid : Cid) : LocalOp Cid → Bool
  | .registerPinnedFile options | .confirmStoredFile options _ => options.cid ≠ cid
  | .admitUpload options _ => options.confirmationRequired
  | .releaseStoredFile _ | .releasePlanned _ | .cleanupReleased _ | .rollbackAdmitted ..
  | .finalizeAdmitted .. => false
  | _ => true

omit [DecidableEq Cid] in
theorem Waiting.registration {existing : FileRecord Cid} (h : Waiting existing)
    (file : NewFileRecord Cid) {options : RegisterFileOptions}
    (hrequired : options.confirmationRequired = true) :
    Waiting (registrationOf (some existing) file options) := by
  have hstate : existing.state ≠ .confirmed := by
    rw [h.temporary]
    nofun
  have hregistered : registrationOf (some existing) file options =
      registeredRecord (some existing) file options := if_neg hstate
  rw [hregistered]
  unfold registeredRecord
  exact ⟨by simp [hrequired], rfl, by simp [hrequired]⟩

theorem waiting_of_stores (hop : op.leavesWaiting cid = true) {proc : Process Cid}
    {existing record : FileRecord Cid} (h : Waiting existing) (htouches : op.Touches cid)
    (hstores : op.Stores proc (some existing) record) : Waiting record := by
  have hnot : existing.state ≠ .confirmed := h.expiring.unconfirmed
  have hstaged : ∀ {transactionId : TransactionId} {stage : ReplicaStage},
      existing.stageOf transactionId ≠ some stage := by
    intro transactionId stage hstage
    rw [FileRecord.stageOf_eq_some, h.unstaged] at hstage
    cases hstage.1
  cases hstores with
  | register =>
      have hother : _ ≠ cid := of_decide_eq_true hop
      exact absurd htouches hother
  | adopt =>
      have hother : _ ≠ cid := of_decide_eq_true hop
      exact absurd htouches hother
  | confirm =>
      have hother : _ ≠ cid := of_decide_eq_true hop
      exact absurd htouches hother
  | join hstage =>
      rw [h.unstaged] at hstage
      cases hstage
  | stable hbegin => exact absurd h.temporary (hbegin existing rfl).2.1
  | stage hbegin => exact absurd h.temporary (hbegin existing rfl).2.1
  | commit hstage => exact absurd hstage hstaged
  | unclaim hstage => exact absurd hstage hstaged
  | unstage hstage => exact absurd hstage hstaged
  | admission => exact h.registration _ hop
  | clear => exact ⟨h.temporary, h.unstaged, h.expires⟩
  | recover => exact ⟨h.temporary, h.unstaged, h.expires⟩
  | forget => exact ⟨h.temporary, h.unstaged, h.expires⟩
  | replicas => exact ⟨h.temporary, h.unstaged, h.expires⟩
  | rescue hstate => exact absurd hstate hnot
  | demote hstate => exact absurd hstate hnot
  | repin hstate => exact absurd hstate hnot
  | release | undo | undoFinal | report | settle | expire | expireStage => cases hop

theorem permits_waitingPolicy (hop : op.leavesWaiting cid = true) :
    (waitingPolicy cid).Permits op where
  aborted _ _ _ := trivial
  block _ := id
  unpins _ _ _ _ _ _ := id
  stores := by
    intro proc existing record _ hread htouches hstores hsame
    rw [hsame] at htouches
    obtain ⟨stored, rfl, hwaiting⟩ := hread.1 hsame
    exact ⟨record, rfl, waiting_of_stores hop hwaiting htouches hstores⟩
  removes := by
    intro existing hallows _ hremoves hsame
    obtain ⟨_, ⟨⟩, hwaiting⟩ := hallows hsame
    cases hremoves with
    | abort hstage =>
        rw [FileRecord.stageOf_eq_some, hwaiting.unstaged] at hstage
        cases hstage.1
    | cleanup | undo | undoFinal => cases hop

/-- What an upload puts back in place of a waiting file can expire. -/
theorem expiring_previous {id : AdmissionId} (hget : past.1.files.get cid = some current)
    (hstate : current.state ≠ .confirmed) (htoken : current.admissionId = some id)
    {baseline : UploadBaseline Cid} (hrestorable : Restorable id past baseline)
    (hcid : baseline.cid = cid) {previous : FileRecord Cid}
    (hprevious : baseline.previous = some previous) : Expiring previous := by
  obtain ⟨hsound, -⟩ := hrestorable.sound previous hprevious
  refine hsound.expiring fun hconfirmed => hstate ?_
  obtain ⟨-, hderives⟩ := hrestorable.derives current (by rw [hcid, hget]) htoken previous hprevious
  exact (hderives hconfirmed).1

/-- The operations that let a file go. -/
def LocalOp.letsGo : LocalOp Cid → Bool
  | .releaseStoredFile _ | .releasePlanned _ | .cleanupReleased _ | .rollbackAdmitted ..
  | .finalizeAdmitted .. => true
  | _ => false

theorem permits_lapsingPolicy (hget : past.1.files.get cid = some current)
    (hstate : current.state ≠ .confirmed) (hpre : op.Allowed site t past)
    (hop : op.letsGo = true) : (lapsingPolicy cid op.own current).Permits op where
  aborted _ _ _ := trivial
  block _ := id
  unpins _ _ _ _ _ _ := id
  removes _ _ _ _ _ _ := nofun
  stores := by
    have hundo : ∀ {id : AdmissionId} {baseline : UploadBaseline Cid} {existing record},
        op.own = some id → Restorable id past baseline →
        (lapsingPolicy cid op.own current).Reads record.cid (some existing) →
        id ∈ past.1.proc.activeAdmissions → existing.admissionId = some id →
        baseline.previous = some record →
        (lapsingPolicy cid op.own current).Allows record := by
      rintro id baseline existing record hown hrestorable hread hactive htoken hprevious hsame
      have hbaseline : baseline.cid = cid := by
        rw [← (hrestorable.valid record hprevious).1, hsame]
      have hcurrent := (hread.1 hsame existing rfl).2 id hown htoken
      rintro _ ⟨⟩
      refine ⟨expiring_previous hget hstate hcurrent hrestorable hbaseline hprevious, ?_⟩
      rintro id' hown' htoken'
      rw [hown] at hown'
      cases hown'
      exact absurd htoken' (token_ne_of_idle (hrestorable.sound record hprevious).2 hactive)
    intro proc existing record _ hread _ hstores
    have hkept : ∀ {old : FileRecord Cid}, existing = some old → record.state = old.state →
        record.expiresAt = old.expiresAt → record.admissionId = old.admissionId →
        (lapsingPolicy cid op.own current).Allows record := by
      rintro old rfl hrecord hexpires htoken hsame _ ⟨⟩
      obtain ⟨hexpiring, hown⟩ := hread.1 hsame old rfl
      refine ⟨⟨by rw [hrecord]; exact hexpiring.unconfirmed, ?_⟩, fun id => ?_⟩
      · rw [hrecord, hexpires]
        exact hexpiring.expires
      · rw [htoken]
        exact hown id
    cases hstores with
    | release => exact fun _ _ heq => Option.some.inj heq ▸ ⟨⟨nofun, .inl rfl⟩, fun _ _ => nofun⟩
    | expire => exact fun _ _ heq => Option.some.inj heq ▸ ⟨⟨nofun, .inl rfl⟩, fun _ _ => nofun⟩
    | expireStage => exact fun _ _ heq => Option.some.inj heq ▸ ⟨⟨nofun, .inl rfl⟩, fun _ => nofun⟩
    | undo hmem htoken hprevious =>
        exact hundo rfl (hpre.2.2 _ hmem) hread hpre.2.1 htoken hprevious
    | undoFinal hmem htoken hprevious =>
        exact hundo rfl (hpre.2.2 _ hmem) hread hpre.2.1 htoken hprevious
    | report => exact hkept rfl rfl rfl rfl
    | settle => exact hkept rfl rfl rfl rfl
    | _ => cases hop

/-- Nothing but a confirmation or a store makes a waiting upload permanent. -/
theorem expiring_of_run (hinv : LifeInvariant past) (hpre : op.Allowed site t past)
    (hget : past.1.files.get cid = some current) (hpending : current.isPending = true)
    (hrequired : ∀ options files, op = .admitUpload options files →
      options.confirmationRequired = true)
    (hstore : ∀ options, op = .registerPinnedFile options → options.cid = cid →
      isAdmissionInFlight past.1.proc current = true)
    (hconfirm : ∀ options registerUnknown, op = .confirmStoredFile options registerUnknown →
      options.cid ≠ cid) {r : Except (LifecycleError Cid) op.Ret}
    (hrun : Prog.Runs (storeSem content anyFault) op.body past.1 r w') :
    ∀ stored, w'.files.get cid = some stored → Expiring stored := by
  obtain ⟨htemporary, hunstaged⟩ := FileRecord.isPending_iff.mp hpending
  have hsound := hinv.sound.record cid current hget
  have hwaiting : Waiting current := ⟨htemporary, hunstaged, hsound.temporary htemporary⟩
  have hvalid : ∀ b ∈ op.baselines, b.Valid :=
    fun b hb => ((soundArgs_of_allowed hinv hpre).baselines b hb).1
  have hkeeps : past.1.Keeps w' cid → ∀ stored, w'.files.get cid = some stored →
      Expiring stored := by
    intro hkeeps stored hstored
    have hrecord := hkeeps.record
    rw [hget, hstored] at hrecord
    obtain ⟨-, -, hstate, -, hexpires, -⟩ := core_eq_iff.mp (Option.some.inj hrecord)
    refine ⟨by rw [hstate]; exact hwaiting.expiring.unconfirmed, .inr ?_⟩
    rw [hexpires]
    exact hwaiting.expires
  cases howners : op.leavesOwners with
  | false => exact hkeeps (keeps_of_owners howners hrun)
  | true =>
    by_cases hgo : op.letsGo = true
    · have hsafe : Safe content (lapsingPolicy cid op.own current) op.body :=
        (permits_lapsingPolicy hget hwaiting.expiring.unconfirmed hpre hgo).safe howners hvalid
      have hholds : (lapsingPolicy cid op.own current).Holds past.1 := by
        refine ⟨fun cid' heq stored hstored => ?_, fun _ => False.elim, trivial,
          fun _ => False.elim⟩
        rw [heq, hget] at hstored
        cases hstored
        exact ⟨hwaiting.expiring, fun _ _ htoken => htoken⟩
      exact fun stored hstored => ((hsafe.holds hholds hrun).record cid rfl stored hstored).1
    · by_cases hleaves : op.leavesWaiting cid = true
      · have hsafe : Safe content (waitingPolicy cid) op.body :=
          (permits_waitingPolicy hleaves).safe howners hvalid
        have hholds : (waitingPolicy cid).Holds past.1 :=
          ⟨fun cid' heq => ⟨current, by rw [heq, hget], hwaiting⟩, fun _ => False.elim, trivial,
            fun _ => False.elim⟩
        obtain ⟨found, hfound, hwaiting'⟩ := (hsafe.holds hholds hrun).record cid rfl
        intro stored hstored
        rw [hfound] at hstored
        cases hstored
        exact hwaiting'.expiring
      · cases op with
        | registerPinnedFile options =>
            have hcid : options.cid = cid := by simpa [LocalOp.leavesWaiting] using hleaves
            have howned : past.1.Owned current := .inl (hstore options rfl hcid)
            have hstranger : (LocalOp.registerPinnedFile options).Stranger past.1 current :=
              ⟨fun _ => nofun, fun _ => nofun, fun _ => nofun⟩
            exact hkeeps (keeps_of_allowed hinv hpre howners hget howned hstranger hrun)
        | confirmStoredFile options registerUnknown =>
            have hcid : options.cid = cid := by simpa [LocalOp.leavesWaiting] using hleaves
            exact absurd hcid (hconfirm options registerUnknown rfl)
        | admitUpload options files => exact absurd (hrequired options files rfl) hleaves
        | releaseStoredFile | releasePlanned | cleanupReleased | rollbackAdmitted
        | finalizeAdmitted => exact absurd rfl hgo
        | _ => exact absurd rfl hleaves

end Policies

/-! ## The claim of every run -/

section Runs

variable {Cid : Type} [DecidableEq Cid] {content : Content Cid} {faults : Faults Cid}
variable {site : Site Cid} {t : LifeTask} {o : LifeOp Cid}
variable {cid : Cid} {current : FileRecord Cid}

/-- In runs whose uploads all have to be confirmed, and that store no permanent
copy of a waiting upload, only a confirmation makes one permanent or takes away
its expiry. -/
theorem pending_until_confirmed {w₀ : World Cid} (h₀ : w₀.Starting)
    {c : Prog.Pool.Config LifeTask (LifeOp Cid) LifeOp.Ret (LifecycleError Cid) (LifePast Cid)}
    (hrun : LifeRun content faults site w₀ c)
    (hrequired : ∀ e ∈ c.1.2, LifeEvent.requiresConfirmation e = true)
    (hstores : ∀ e ∈ c.1.2, LifeEvent.storesPending e = false) {past rest : List (LifeEvent Cid)}
    {before after : World Cid} {r : Except (LifecycleError Cid) o.Ret}
    (hevent : c.1.2 = past ++ .request t o before r after :: rest)
    (hget : before.files.get cid = some current) (hpending : current.isPending = true) :
    (∃ options registerUnknown, o = .node (.run (.confirmStoredFile options registerUnknown)) ∧
      options.cid = cid) ∨
    ∀ stored, after.files.get cid = some stored → stored.state ≠ .confirmed ∧
      (stored.state = .expired ∨ stored.expiresAt.isSome = true) := by
  obtain ⟨hinv, hpre, hstep⟩ := (coexistence h₀ hrun).2 _ _ _ _ _ _ _ hevent
  have hmem : Prog.Pool.Event.request t o before r after ∈ c.1.2 := by
    rw [hevent]
    simp
  have hrequired := hrequired _ hmem
  have hstores := hstores _ hmem
  have hlocal : ∀ (op : LocalOp Cid) (r' : Except (LifecycleError Cid) op.Ret),
      o.local = some op → (∀ options files, op = .admitUpload options files →
        o = .node (.run op)) → (∀ options, op = .registerPinnedFile options →
        o = .node (.run op)) → (∀ options registerUnknown,
        op = .confirmStoredFile options registerUnknown → options.cid ≠ cid) →
      Prog.Runs (storeSem content anyFault) op.body before r' after →
      ∀ stored, after.files.get cid = some stored → Expiring stored := by
    intro op r' hop hadmit hregister hconfirm hrun
    refine expiring_of_run hinv (hpre op hop) hget hpending ?_ ?_ hconfirm hrun
    · rintro options files rfl
      obtain rfl := hadmit options files rfl
      exact hrequired
    · rintro options rfl hcid
      obtain rfl := hregister options rfl
      have hstored : (before.files.get options.cid).any (fun record =>
          record.isPending && !isAdmissionInFlight before.proc record) = false := hstores
      rw [hcid, hget] at hstored
      simpa [hpending] using hstored
  have hdone : (∀ stored, after.files.get cid = some stored → Expiring stored) →
      ∀ stored, after.files.get cid = some stored → stored.state ≠ .confirmed ∧
        (stored.state = .expired ∨ stored.expiresAt.isSome = true) :=
    fun h stored hstored => ⟨(h stored hstored).unconfirmed, (h stored hstored).expires⟩
  rcases o with (op | question) | op
  · by_cases hconfirm : ∃ options registerUnknown,
        op = .confirmStoredFile options registerUnknown ∧ options.cid = cid
    · obtain ⟨options, registerUnknown, rfl, hcid⟩ := hconfirm
      exact .inl ⟨options, registerUnknown, rfl, hcid⟩
    · refine .inr (hdone (hlocal op r rfl (fun _ _ _ => rfl) (fun _ _ => rfl) ?_
        (runs_anyFault hstep)))
      exact fun options registerUnknown heq hcid =>
        hconfirm ⟨options, registerUnknown, heq, hcid⟩
  · have hsame : after = before := hstep
    refine .inr fun stored hstored => ?_
    rw [hsame, hget] at hstored
    cases hstored
    have hstate := (FileRecord.isPending_iff.mp hpending).1
    have hsound := hinv.sound.record cid current hget
    exact ⟨by rw [hstate]; nofun, .inr (hsound.temporary hstate)⟩
  · rcases lifeSem_cases hstep with ⟨op', r', hop, hrun⟩ | ⟨-, hsame⟩
    · cases op with
      | demoteCopy record =>
          cases hop
          exact .inr (hdone (hlocal _ r' rfl (fun _ _ => nofun) (fun _ => nofun)
            (fun _ _ => nofun) hrun))
      | _ => cases hop
    · refine .inr fun stored hstored => ?_
      rw [hsame, hget] at hstored
      cases hstored
      have hstate := (FileRecord.isPending_iff.mp hpending).1
      have hsound := hinv.sound.record cid current hget
      exact ⟨by rw [hstate]; nofun, .inr (hsound.temporary hstate)⟩

end Runs

/-! ## A store after the upload -/

namespace PendingStore

open OwnedUpload (site)

def report : ReplicationReport where
  mode := .bestEffort
  desiredCopies := 1
  copies := 1
  required := 1
  acknowledged := 1
  replicas := []
  cached := []
  satisfied := true
  networkTooSmall := true
  attempts := []

/-- Other nodes answer the upload and take no copy of it. -/
def answers : (o : NetworkOp Nat) → Except (LifecycleError Nat) o.Ret
  | .replicate .. => .ok fun _ => report
  | _ => .error .io

def target : ReplicaStageTarget Nat := ⟨7, "strict", 5, 9, some "peer"⟩

/-- The upload runs to its end, and then two other nodes send the same file. -/
def moves : List (Prog.Pool.Move LifeTask (LifeOp Nat) LifeOp.Ret (LifecycleError Nat)) :=
  [.spawn (.upload "upload") (Job.life (uploadHandler OwnedUpload.request >>= fun _ => pure ())),
    .act (.upload "upload"), .act (.upload "upload"), .act (.upload "upload"),
    .act (.upload "upload"), .act (.upload "upload"), .act (.upload "upload"),
    .spawn (.other 0) (Job.life (acceptReplica ⟨7, "file", 5, 9⟩ ∅ >>= fun _ => pure ())),
    .spawn (.other 1) (Job.life (LocalOp.stageReplica target "7").job)]

/-- The node after these tasks took a step each. -/
def after (ts : List LifeTask) : LifePast Nat :=
  (playLife Content.flat answers World.empty (moves ++ ts.map .act)).1

theorem entries {t : LifeTask} {p : Life Nat Unit} (hmem : .spawn t p ∈ moves) :
    LifeEntry site t p := by
  simp only [moves, List.mem_cons, reduceCtorEq, false_or, List.not_mem_nil, or_false,
    Prog.Pool.Move.spawn.injEq] at hmem
  rcases hmem with ⟨rfl, rfl⟩ | ⟨rfl, rfl⟩ | ⟨rfl, rfl⟩
  · exact .upload OwnedUpload.request
  · exact .accept 0 _ _
  · exact .request 1 (.stageReplica _ _) rfl

theorem lifeRun_acts (ts : List LifeTask) : LifeRun Content.flat noFault site World.empty
    (playLife Content.flat answers World.empty (moves ++ ts.map .act)) := by
  refine lifeRun_playLife fun t p hmem => entries ?_
  rcases List.mem_append.mp hmem with hmem | hmem
  · exact hmem
  · obtain ⟨_, -, heq⟩ := List.mem_map.mp hmem
    cases heq

end PendingStore

open PendingStore in
/-- An upload that nobody confirmed becomes permanent when another node stores a
copy of it here. -/
theorem stored_pending_confirmed :
    LifeRun Content.flat noFault OwnedUpload.site World.empty
      (playLife Content.flat answers World.empty
        (moves ++ List.map .act [.other 0, .other 0, .other 0])) ∧
    (after [.other 0, .other 0, .other 0]).2.all LifeEvent.requiresConfirmation = true ∧
    ∃ r, (after [.other 0, .other 0, .other 0]).2 = (after [.other 0, .other 0]).2 ++
        .request (.other 0) (.node (.run (.registerPinnedFile ⟨7, "file", 5, 9⟩)))
          (after [.other 0, .other 0]).1 r (after [.other 0, .other 0, .other 0]).1 :: [] ∧
      ((after [.other 0, .other 0]).1.files.get 7).any (·.isPending) = true ∧
      ((after [.other 0, .other 0, .other 0]).1.files.get 7).any
        (fun stored => stored.state = .confirmed && stored.expiresAt.isNone) = true :=
  ⟨lifeRun_acts _, by decide, _, rfl, by decide, by decide⟩

open PendingStore in
/-- A stage of another upload does not. -/
theorem pending_until_confirmed_staged :
    ((after []).1.files.get 7).any (·.isPending) = true ∧
    ∀ stored, (after [.other 1]).1.files.get 7 = some stored → stored.state ≠ .confirmed ∧
      (stored.state = .expired ∨ stored.expiresAt.isSome = true) := by
  have hstart : (World.empty : World Nat).Starting := ⟨rfl, rfl⟩
  have hrequired : (after [.other 1]).2.all LifeEvent.requiresConfirmation = true := by decide
  have hstores : (after [.other 1]).2.all (fun e => !LifeEvent.storesPending e) = true := by decide
  have hrecord : ∃ current, (after []).1.files.get 7 = some current ∧
      current.isPending = true := ⟨_, rfl, rfl⟩
  obtain ⟨current, hget, hpending⟩ := hrecord
  have hanswer : ∃ r, (after [.other 1]).2 = (after []).2 ++ .request (.other 1)
      (.node (.run (.stageReplica target "7"))) (after []).1 r (after [.other 1]).1 :: [] :=
    ⟨_, rfl⟩
  obtain ⟨r, hevent⟩ := hanswer
  refine ⟨by rw [hget]; exact hpending, ?_⟩
  rcases pending_until_confirmed hstart (lifeRun_acts [.other 1])
      (fun e hmem => List.all_eq_true.mp hrequired e hmem)
      (fun e hmem => by simpa using List.all_eq_true.mp hstores e hmem) hevent hget hpending with
    ⟨_, _, ⟨⟩, _⟩ | hexpiring
  exact hexpiring

end IpfsNode
