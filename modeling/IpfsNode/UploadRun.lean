import IpfsNode.UploadRoute

/-!
# An upload among other tasks

The handler of an upload asks for its operations in a fixed order: it begins,
admits, asks other nodes, decides and ends. `UploadsWith` names what has to hold
for each of them to be asked for while other tasks run in between, and
`wpi_uploadHandler` walks through the handler once for all invariants.
-/

namespace IpfsNode

section Uploads

variable {Cid α S : Type} [DecidableEq Cid]

/-- What an upload needs to run under a precondition: `begun` holds from the time
it began, and `up baselines` from the time it admitted its files. -/
structure UploadsWith (sem : Prog.Sem (NodeOp Cid) NodeOp.Ret (LifecycleError Cid) S)
    (le : S → S → Prop) (inv : S → Prop) (pre : NodeOp Cid → S → Prop) (id : AdmissionId)
    (begun : S → Prop) (up : List (UploadBaseline Cid) → S → Prop) : Prop where
  begin : ∀ s, inv s → pre (.run (.beginAdmission id)) s
  begins : ∀ s s', inv s → sem (.run (.beginAdmission id)) s (.ok ()) s' → begun s'
  begun_le : ∀ s s', le s s' → begun s → begun s'
  admission : ∀ options files s, options.admissionId = id → inv s → begun s →
    pre (.run (.admitUpload options files)) s
  admits : ∀ options files s admitted s', options.admissionId = id → inv s → begun s →
    sem (.run (.admitUpload options files)) s (.ok admitted) s' → up admitted.baselines s'
  up_le : ∀ baselines s s', le s s' → up baselines s → up baselines s'
  ask : ∀ o s, inv s → pre (.ask o) s
  asks : ∀ baselines o s r s', sem (.ask o) s r s' → up baselines s → up baselines s'
  rollback : ∀ baselines s, inv s → up baselines s → pre (.run (.rollbackAdmitted baselines id)) s
  finalize : ∀ cids baselines reports settledAt s, inv s → up baselines s →
    pre (.run (.finalizeAdmitted cids baselines reports id settledAt)) s
  finalizes : ∀ cids baselines reports settledAt s r s', inv s → up baselines s →
    sem (.run (.finalizeAdmitted cids baselines reports id settledAt)) s r s' → up baselines s'
  clear : ∀ reports cids baselines s, inv s → up baselines s →
    pre (.run (.clearSettledAdmissions reports id cids)) s
  finish : ∀ s, inv s → pre (.run (.endAdmission id)) s

/-- The job only asks other nodes. -/
def NodeOp.IsAsk : NodeOp Cid → Prop
  | .run _ => False
  | .ask _ => True

omit [DecidableEq Cid] in
theorem requests_abortEach (admissionId : AdmissionId) (replication : Replication Cid) :
    Prog.Requests NodeOp.IsAsk (abortEach admissionId replication) := by
  induction replication with
  | nil => trivial
  | cons placed rest ih =>
      have hask : NodeOp.IsAsk (.ask (.abortReplicas placed.1 admissionId placed.2)) := trivial
      exact (Prog.Requests.perform hask).attempt.bind fun _ => ih.bind fun _ => trivial

omit [DecidableEq Cid] in
theorem requests_commitEach (admissionId : AdmissionId) (replication : Replication Cid) :
    Prog.Requests NodeOp.IsAsk (commitEach admissionId replication) := by
  induction replication with
  | nil => trivial
  | cons placed rest ih =>
      have hask : NodeOp.IsAsk (.ask (.commitReplicas placed.1 admissionId placed.2)) := trivial
      exact (Prog.Requests.perform hask).attempt.bind fun _ => ih.bind fun _ => trivial

variable {sem : Prog.Sem (NodeOp Cid) NodeOp.Ret (LifecycleError Cid) S}
variable {le : S → S → Prop} {inv : S → Prop} {pre : NodeOp Cid → S → Prop}
variable {id : AdmissionId} {begun : S → Prop} {up : List (UploadBaseline Cid) → S → Prop}
variable {request : UploadRequest Cid} {admitted : Admitted Cid} {s : S}

omit [DecidableEq Cid] in
/-- While it asks other nodes, an upload keeps what it knows. -/
theorem wpi_asks (h : UploadsWith sem le inv pre id begun up)
    {baselines : List (UploadBaseline Cid)} {job : Job Cid α}
    (hjob : Prog.Requests NodeOp.IsAsk job) (hup : up baselines s) :
    Prog.wpi sem le inv pre job (fun _ => up baselines) s := by
  refine Prog.wpi_of_requests_frame ?_ (fun s s' hle hup => h.up_le baselines s s' hle hup) ?_
    hjob hup
  · intro o s hinv _ ho
    cases o with
    | run op => exact ho.elim
    | ask o => exact h.ask o s hinv
  · intro o s r s' ho hstep hup
    cases o with
    | run op => exact ho.elim
    | ask o => exact h.asks baselines o s r s' hstep hup

omit [DecidableEq Cid] in
theorem wpi_rollback (h : UploadsWith sem le inv pre id begun up)
    {baselines : List (UploadBaseline Cid)} (hup : up baselines s) :
    Prog.wpi sem le inv pre (locked (.rollbackAdmitted baselines id)) (fun _ _ => True) s :=
  Prog.wpi_perform.mpr fun s₁ hle hinv =>
    ⟨h.rollback baselines s₁ hinv (h.up_le baselines s s₁ hle hup), fun _ _ _ => trivial⟩

omit [DecidableEq Cid] in
theorem wpi_clear (h : UploadsWith sem le inv pre id begun up)
    {baselines : List (UploadBaseline Cid)} (hup : up baselines s) (reports : Reports Cid)
    (cids : List Cid) :
    Prog.wpi sem le inv pre (locked (.clearSettledAdmissions reports id cids))
      (fun _ _ => True) s :=
  Prog.wpi_perform.mpr fun s₁ hle hinv =>
    ⟨h.clear reports cids baselines s₁ hinv (h.up_le baselines s s₁ hle hup),
      fun _ _ _ => trivial⟩

variable (h : UploadsWith sem le inv pre request.admissionId begun up)
include h

omit [DecidableEq Cid] in
theorem wpi_abandonUpload (hup : up admitted.baselines s) (replication : Replication Cid) :
    Prog.wpi sem le inv pre (abandonUpload request admitted replication) (fun _ _ => True) s := by
  refine Prog.wpi_bind.mpr (Prog.wpi_mono ?_ (wpi_asks h (requests_abortEach ..) hup))
  rintro (err | failures) s₁ hup₁
  · trivial
  refine Prog.wpi_bind.mpr (Prog.wpi_attempt.mpr (Prog.wpi_mono ?_ (wpi_rollback h hup₁)))
  exact fun _ _ _ => trivial

theorem wpi_settleUpload (hup : up admitted.baselines s) (replication : Replication Cid)
    (finalized : List (FileRecord Cid)) :
    Prog.wpi sem le inv pre (settleUpload request admitted replication finalized)
      (fun _ _ => True) s := by
  unfold settleUpload
  cases request.requireQuorumOnUpload with
  | true =>
      refine Prog.wpi_bind.mpr (Prog.wpi_mono ?_ (wpi_asks h (requests_commitEach ..) hup))
      rintro (err | commits) s₁ hup₁
      · trivial
      refine Prog.wpi_bind.mpr (Prog.wpi_mono ?_ (wpi_clear h hup₁ _ _))
      rintro (err | cleared) s₂ -
      · trivial
      dsimp only [Prog.thenPost]
      split
      · trivial
      · trivial
  | false =>
      refine Prog.wpi_bind.mpr (Prog.wpi_mono ?_ (wpi_clear h hup _ _))
      rintro (err | cleared) s₁ -
      · trivial
      · trivial

theorem wpi_decideUpload (hup : up admitted.baselines s) (replication : Replication Cid) :
    Prog.wpi sem le inv pre (decideUpload request admitted replication) (fun _ _ => True) s := by
  unfold decideUpload
  cases request.requireQuorumOnUpload && !replication.all (·.2.satisfied) with
  | true =>
      refine Prog.wpi_bind.mpr (Prog.wpi_mono ?_ (wpi_abandonUpload h hup replication))
      rintro (err | failures) s₁ -
      · trivial
      dsimp only [Prog.thenPost]
      cases failures.isEmpty with
      | true => trivial
      | false => trivial
  | false =>
      refine Prog.wpi_bind.mpr (Prog.wpi_attempt.mpr (Prog.wpi_perform.mpr fun s₁ hle hinv => ?_))
      have hup₁ := h.up_le admitted.baselines s s₁ hle hup
      refine ⟨h.finalize _ admitted.baselines _ _ s₁ hinv hup₁, fun r s₂ hstep => ?_⟩
      have hup₂ := h.finalizes _ _ _ _ s₁ r s₂ hinv hup₁ hstep
      rcases r with err | finalized
      · refine Prog.wpi_bind.mpr (Prog.wpi_mono ?_ (wpi_abandonUpload h hup₂ replication))
        rintro (err | failures) s₃ -
        · trivial
        · trivial
      · exact wpi_settleUpload h hup₂ replication finalized

theorem wpi_placeUpload (hup : up admitted.baselines s) :
    Prog.wpi sem le inv pre (placeUpload request admitted) (fun _ _ => True) s := by
  have hask : Prog.Requests NodeOp.IsAsk
      (ask (.replicate (durableCids admitted.records) request.transactionId)) :=
    Prog.Requests.perform trivial
  refine Prog.wpi_bind.mpr (Prog.wpi_attempt.mpr (Prog.wpi_mono ?_ (wpi_asks h hask hup)))
  rintro (err | reports) s₁ hup₁
  · refine Prog.wpi_bind.mpr (Prog.wpi_attempt.mpr (Prog.wpi_mono ?_ (wpi_rollback h hup₁)))
    rintro (rollbackError | done) s₂ -
    · trivial
    · trivial
  · exact wpi_decideUpload h hup₁ _

theorem wpi_handleUpload (hbegun : begun s) :
    Prog.wpi sem le inv pre (handleUpload request) (fun _ _ => True) s := by
  unfold handleUpload
  split
  · trivial
  split
  · trivial
  refine Prog.wpi_bind.mpr (Prog.wpi_perform.mpr fun s₁ hle hinv => ?_)
  have hbegun₁ := h.begun_le s s₁ hle hbegun
  refine ⟨h.admission request.admission request.files s₁ rfl hinv hbegun₁, fun r s₂ hstep => ?_⟩
  rcases r with err | admitted
  · trivial
  · exact wpi_placeUpload h (h.admits _ _ s₁ admitted s₂ rfl hinv hbegun₁ hstep)

/-- Every operation of an upload is asked for under its precondition. -/
theorem wpi_uploadHandler (s : S) :
    Prog.wpi sem le inv pre (uploadHandler request) (fun _ _ => True) s := by
  refine Prog.wpi_bind.mpr (Prog.wpi_perform.mpr fun s₁ _ hinv =>
    ⟨h.begin s₁ hinv, fun r s₂ hstep => ?_⟩)
  rcases r with err | ⟨⟩
  · trivial
  refine Prog.wpi_bind.mpr (Prog.wpi_attempt.mpr
    (Prog.wpi_mono ?_ (wpi_handleUpload h (h.begins s₁ s₂ hinv hstep))))
  intro result s₃ _
  refine Prog.wpi_bind.mpr (Prog.wpi_perform.mpr fun s₄ _ hinv₄ =>
    ⟨h.finish s₄ hinv₄, fun r s₅ _ => ?_⟩)
  rcases r with err | done
  · trivial
  · exact Prog.wpi_ofExcept.mpr trivial

end Uploads

end IpfsNode
