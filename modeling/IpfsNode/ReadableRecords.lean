import IpfsNode.AcceptedWrites

/-!
# What is stored can be read

In every run of a node, whatever fails, no operation ends in a refusal of the
registry, and every record it stores can be read back and is listed once.
Settlement and the cleanup of tokens swallow the errors of their writes; where
the registry does not fail, they write every record they are about. The records
of a run are at any time those of a datastore that only the registry has written
(`registry_of_run`).
-/

namespace IpfsNode

/-! ## Writes whose errors are swallowed -/

section Served

variable {Cid : Type}

/-- The request reads or writes a record. -/
def StoreOp.accessesRegistry : StoreOp Cid → Bool
  | .getRecord _ | .putRecord .. => true
  | _ => false

/-- The registry answers, and what it holds is valid. -/
def Served : Prog.Sem (Request Cid) Request.Ret (LifecycleError Cid) Unit := fun q _ r _ =>
  Outcome q.op.Answers r ∧ (q.op.accessesRegistry = true → ∃ answer, r = .ok answer)

variable {α β : Type} {φ : α → Prop} {ψ : β → Prop} {χ : Except (LifecycleError Cid) β → Prop}
variable {p : Store Cid α} {f : α → Store Cid β}

/-- When the registry answers, a result of `p` has `φ`. -/
def Yields (p : Store Cid α) (φ : α → Prop) : Prop :=
  Prog.Keeps Served (fun _ => True) p fun r => ∀ a, r = .ok a → φ a

/-- ... and `p` comes to a result. -/
def Serves (p : Store Cid α) (φ : α → Prop) : Prop :=
  Prog.Keeps Served (fun _ => True) p fun r => ∃ a, r = .ok a ∧ φ a

theorem Serves.yields (h : Serves p φ) : Yields p φ := by
  refine Prog.Keeps.mono h ?_
  rintro _ ⟨a, rfl, ha⟩ _ ⟨⟩
  exact ha

theorem yields_pure {a : α} (h : φ a) : Yields (pure a : Store Cid α) φ :=
  Prog.Keeps.pure fun _ heq => by
    cases heq
    exact h

theorem yields_throw {err : LifecycleError Cid} : Yields (throw err : Store Cid α) φ :=
  Prog.Keeps.throw fun _ heq => by cases heq

theorem serves_pure {a : α} (h : φ a) : Serves (pure a : Store Cid α) φ :=
  Prog.Keeps.pure ⟨_, rfl, h⟩

theorem Yields.bind (hp : Yields p φ) (hf : ∀ a, φ a → Yields (f a) ψ) : Yields (p >>= f) ψ :=
  Prog.Keeps.bind hp (fun a ha => hf a (ha a rfl)) fun _ _ _ heq => by cases heq

theorem Serves.bind (hp : Serves p φ) (hf : ∀ a, φ a → Serves (f a) ψ) : Serves (p >>= f) ψ := by
  refine Prog.Keeps.bind hp ?_ fun e ⟨a, heq, _⟩ => by cases heq
  rintro a ⟨_, ⟨⟩, ha⟩
  exact hf a ha

/-- The error that a caller would swallow does not come up. -/
theorem Serves.attempt_bind {g : Except (LifecycleError Cid) α → Store Cid β}
    (hp : Serves p φ) (hg : ∀ a, φ a → Prog.Keeps Served (fun _ => True) (g (.ok a)) χ) :
    Prog.Keeps Served (fun _ => True) (p.attempt >>= g) χ := by
  refine Prog.Keeps.attempt_bind hp ?_
  rintro _ ⟨a, rfl, ha⟩
  exact hg a ha

variable {cid : Cid} {record : FileRecord Cid} {records : List (FileRecord Cid)}
variable {admissionId : AdmissionId} {reports : Reports Cid} {settledAt : Nat} {cids : List Cid}

theorem serves_get : Serves (Locked.get cid) fun current => ∀ record, current = some record →
    isFileRecord record = true ∧ record.cid = cid := by
  refine Prog.Keeps.perform fun _ _ r _ ⟨hanswers, hok⟩ => ⟨trivial, ?_⟩
  obtain ⟨current, rfl⟩ := hok rfl
  exact ⟨current, rfl, hanswers⟩

theorem serves_save (h : isFileRecord record = true) :
    Serves (Locked.save record) fun stored => ∃ n, stored = record.stamped n := by
  rw [Locked.save_valid h]
  refine Prog.Keeps.perform fun _ _ r _ ⟨hanswers, hok⟩ => ⟨trivial, ?_⟩
  obtain ⟨stored, rfl⟩ := hok rfl
  exact ⟨stored, rfl, hanswers⟩

/-- Valid records under the token, one for each CID. -/
structure Admits (admissionId : AdmissionId) (cids : List Cid)
    (records : List (FileRecord Cid)) : Prop where
  cids : records.map (·.cid) = cids
  valid : ∀ record ∈ records, isFileRecord record = true
  token : ∀ record ∈ records, record.admissionId = some admissionId

theorem yields_readAdmitted : Yields (readAdmitted admissionId cids) (Admits admissionId cids) := by
  induction cids with
  | nil => exact yields_pure ⟨rfl, by simp, by simp⟩
  | cons cid rest ih =>
      refine serves_get.yields.bind fun current hread => ?_
      cases current with
      | none => exact yields_throw
      | some current =>
          dsimp only
          split
          · exact yields_throw
          · rename_i htoken
            refine ih.bind fun others hothers => yields_pure ?_
            obtain ⟨hvalid, hcid⟩ := hread current rfl
            refine ⟨by rw [List.map_cons, hcid, hothers.cids], ?_, ?_⟩
            · exact List.forall_mem_cons.mpr ⟨hvalid, hothers.valid⟩
            · exact List.forall_mem_cons.mpr ⟨not_not.mp htoken, hothers.token⟩

theorem serves_saveReports (h : Admits admissionId cids records) :
    Serves (saveReports reports records) (Admits admissionId cids) := by
  induction records generalizing cids with
  | nil => exact serves_pure h
  | cons current rest ih =>
      obtain ⟨rfl, hvalid, htoken⟩ := h
      rw [List.forall_mem_cons] at hvalid htoken
      have hreported : isFileRecord (reportedRecord reports current) = true :=
        isFileRecord_withReplicas hvalid.1 _
      refine (serves_save hreported).bind fun stored hstored => ?_
      obtain ⟨n, rfl⟩ := hstored
      refine (ih ⟨rfl, hvalid.2, htoken.2⟩).bind fun others hothers => serves_pure ?_
      refine ⟨?_, ?_, ?_⟩
      · rw [List.map_cons, List.map_cons, hothers.cids]
        rfl
      · exact List.forall_mem_cons.mpr ⟨(isFileRecord_stamped _ n).trans hreported, hothers.valid⟩
      · exact List.forall_mem_cons.mpr ⟨htoken.1, hothers.token⟩

theorem serves_settleEach (h : Admits admissionId cids records) :
    Serves (settleEach settledAt records) fun stored => stored.map (·.cid) = cids ∧
      ∀ record ∈ stored, record.admissionSettledAt = some settledAt := by
  induction records generalizing cids with
  | nil => exact serves_pure ⟨h.cids, by simp⟩
  | cons current rest ih =>
      obtain ⟨rfl, hvalid, htoken⟩ := h
      rw [List.forall_mem_cons] at hvalid htoken
      have hsettled : isFileRecord (current.settled settledAt) = true :=
        isFileRecord_settled hvalid.1 (Option.isSome_iff_exists.mpr ⟨_, htoken.1⟩) settledAt
      refine (serves_save hsettled).attempt_bind fun stored hstored => ?_
      obtain ⟨n, rfl⟩ := hstored
      refine (ih ⟨rfl, hvalid.2, htoken.2⟩).bind fun others hothers => serves_pure ⟨?_, ?_⟩
      · rw [List.map_cons, List.map_cons, hothers.1]
        rfl
      · exact List.forall_mem_cons.mpr ⟨rfl, hothers.2⟩

/-- Settlement settles every record of the request. -/
theorem yields_finalizeAdmitted {baselines : List (UploadBaseline Cid)} :
    Yields (finalizeAdmitted cids baselines reports admissionId settledAt) fun stored =>
      stored.map (·.cid) = cids ∧
        ∀ record ∈ stored, record.admissionSettledAt = some settledAt := by
  refine yields_readAdmitted.bind fun current hcurrent => ?_
  exact (serves_saveReports hcurrent).attempt_bind fun finalized hfinalized =>
    (serves_settleEach hfinalized).yields

/-- The cleanup clears the token of every record it is given. -/
theorem yields_clearSettledAdmissions :
    Yields (clearSettledAdmissions reports admissionId cids) fun stored =>
      stored.map (·.cid) = cids ∧ ∀ record ∈ stored, record.admissionId = none := by
  induction cids with
  | nil => exact yields_pure ⟨rfl, by simp⟩
  | cons cid rest ih =>
      refine serves_get.attempt_bind fun current hread => ?_
      cases current with
      | none => exact yields_throw
      | some current =>
          dsimp only
          split
          · exact yields_throw
          · obtain ⟨hvalid, hcid⟩ := hread current rfl
            have hcleared :
                isFileRecord (reportedRecord reports current).withoutAdmission = true :=
              isFileRecord_withoutAdmission (isFileRecord_withReplicas hvalid _)
            refine (serves_save hcleared).attempt_bind fun stored hstored => ?_
            obtain ⟨n, rfl⟩ := hstored
            refine ih.bind fun others hothers => yields_pure ⟨?_, ?_⟩
            · rw [List.map_cons, hothers.1]
              exact congrArg (· :: rest) hcid
            · exact List.forall_mem_cons.mpr ⟨rfl, hothers.2⟩

end Served

/-! ## Runs -/

section Runs

variable {Cid : Type} [DecidableEq Cid] {content : Content Cid} {faults : Faults Cid}
variable {site : Site Cid}

/-- A node whose registry does not fail answers so. -/
theorem Yields.of_runs {α : Type} {p : Store Cid α} {φ : α → Prop} (h : Yields p φ)
    (hregistry : ∀ q : Request Cid, q.op.accessesRegistry = true → ¬ faults q) {w w' : World Cid}
    {a : α} (hrun : Prog.Runs (storeSem content faults) p w (.ok a) w') : φ a := by
  have hserved : Prog.Runs Served p () (.ok a) () := by
    refine hrun.map (fun _ => ()) fun q w r w' hstep => ?_
    cases hstep with
    | served =>
        refine ⟨answers_effect q.op w, fun haccess => ?_⟩
        obtain ⟨op, compensating⟩ := q
        cases op with
        | getRecord | putRecord => exact ⟨_, rfl⟩
        | _ => cases haccess
    | failed hfault => exact ⟨nofun, fun haccess => absurd hfault (hregistry q haccess)⟩
    | landed hfault => exact ⟨nofun, fun haccess => absurd hfault (hregistry q haccess)⟩
  exact (Prog.wp_iff_runs.mp (h () trivial) _ _ hserved).2 a rfl

/-- An admission that runs is named. -/
theorem unnamed_effect (o : StoreOp Cid) {w : World Cid} (h : "" ∉ w.proc.activeAdmissions) :
    "" ∉ (o.effect content w).2.proc.activeAdmissions := by
  cases o with
  | beginAdmission id =>
      simp only [StoreOp.effect]
      split
      · exact h
      · rename_i hnew
        rw [not_or] at hnew
        rw [Finset.mem_insert, not_or]
        exact ⟨fun heq => hnew.1 heq.symm, h⟩
  | endAdmission id => exact fun hmem => h (Finset.mem_of_mem_erase hmem)
  | pinsAdd | pinsRm | pinsGet | statDag | beginRepair =>
      simp only [StoreOp.effect]
      split <;> exact h
  | _ => exact h

theorem unnamed_runs {α : Type} {p : Store Cid α} {w w' : World Cid}
    {r : Except (LifecycleError Cid) α} (hrun : Prog.Runs (storeSem content faults) p w r w')
    (h : "" ∉ w.proc.activeAdmissions) : "" ∉ w'.proc.activeAdmissions := by
  induction hrun with
  | ret | fail => exact h
  | act hstep _ ih =>
      refine ih ?_
      cases hstep with
      | served | landed => exact unnamed_effect _ h
      | failed => exact h

/-- An operation that its task may ask for is given valid arguments. -/
theorem validArgs_of_allowed {t : LifeTask} {past : LifePast Cid} {op : LocalOp Cid}
    (hinv : LifeInvariant past) (hpre : op.Allowed site t past)
    (hnamed : "" ∉ past.1.proc.activeAdmissions)
    (hstaged : ∀ options name, op = .stageReplica options name → options.Named) :
    op.ValidArgs where
  own := fun hown => hnamed (own_of_allowed hpre hown).2
  baselines := fun baseline hmem => ((soundArgs_of_allowed hinv hpre).baselines baseline hmem).1
  staged := hstaged
  created := by
    intro record hop
    obtain ⟨options, cid, name, stats, interrupted, rfl⟩ :=
      (soundArgs_of_allowed hinv hpre).created record hop
    exact isFileRecord_backfilledRecord

/-- What an operation of a run was given, and what it did. -/
theorem event_of_run {w₀ : World Cid} (h₀ : w₀.Starting)
    {c : Prog.Pool.Config LifeTask (LifeOp Cid) LifeOp.Ret (LifecycleError Cid) (LifePast Cid)}
    (hrun : LifeRun content faults site w₀ c) {past rest : List (LifeEvent Cid)} {t : LifeTask}
    {o : LifeOp Cid} {before after : World Cid} {r : Except (LifecycleError Cid) o.Ret}
    (hevent : c.1.2 = past ++ .request t o before r after :: rest) {op : LocalOp Cid}
    (hop : o.local = some op)
    (hstaged : ∀ options name, op = .stageReplica options name → options.Named) :
    op.ValidArgs ∧ lifeSem content faults o before r after := by
  have hleads := Prog.Pool.leads_of_reach hrun
  rw [hevent] at hleads
  obtain ⟨hbefore, -⟩ := hleads.split
  obtain ⟨hinv, hpre, hstep⟩ := (coexistence h₀ hrun).2 _ _ _ _ _ _ _ hevent
  refine ⟨validArgs_of_allowed hinv (hpre op hop) ?_ hstaged, hstep⟩
  refine hbefore.invariant (fun w => "" ∉ w.proc.activeAdmissions) ?_ fun e _ he hnamed => ?_
  · rw [h₀.proc]
    exact Finset.notMem_empty _
  · cases e with
    | request t o before r after =>
        rcases lifeSem_cases he with ⟨op, r', -, hop⟩ | ⟨-, hsame⟩
        · exact unnamed_runs hop hnamed
        · exact hsame ▸ hnamed
    | reset before after =>
        rw [show after = _ from he]
        exact Finset.notMem_empty _

/-- An operation of a run does not end in a refusal. -/
theorem not_refuses_of_run {o : LifeOp Cid} {before after : World Cid}
    {r : Except (LifecycleError Cid) o.Ret} (hstep : lifeSem content faults o before r after)
    {op : LocalOp Cid} (hop : o.local = some op) (hargs : op.ValidArgs)
    {err : LifecycleError Cid} (herr : r = .error err) : ¬ err.Refuses := by
  subst herr
  cases o with
  | node o =>
      cases o with
      | run op' =>
          obtain rfl : op' = op := Option.some.inj hop
          exact hargs.accepts.not_refuses hstep
      | ask o => cases hop
  | sweep o =>
      cases o with
      | demoteCopy record =>
          obtain rfl : LocalOp.demoteCopy record = op := Option.some.inj hop
          exact hargs.accepts.not_refuses hstep
      | _ => cases hop

end Runs

/-! ## Every stored record is readable -/

section Readable

open FileRegistry (save list isAbout key Represents)

variable {uuid : Nat → String} {d : Datastore} {record : FileRecord CidText}

/-- `get` returns the record, and `list` yields it once. -/
def Readable (uuid : Nat → String) (d : Datastore) (record : FileRecord CidText) : Prop :=
  FileRegistry.get d record.cid = .ok (some (record.toJson uuid)) ∧
    (list d).filter (isAbout record.cid) = [record.toJson uuid]

theorem readable_of_represents {files : Registry CidText} (h : Represents uuid d files)
    (hmem : record ∈ files.entries) : Readable uuid d record := by
  have hget := Registry.get_of_mem hmem
  have hdecoded := h record.cid
  rw [hget] at hdecoded
  obtain ⟨value, hvalue, hrecord⟩ := Option.bind_eq_some_iff.mp hdecoded
  obtain ⟨rfl, hvalid, hcid⟩ := FileRegistry.decodeRecord_eq_some.mp hrecord
  exact ⟨h.get record.cid hget, FileRegistry.filter_list hvalue hvalid hcid⟩

variable {content : Content CidText} {faults : Faults CidText} {site : Site CidText}

/-- The records of a run are those of a datastore to which only the registry's own
writes have led, and which `list` yields. -/
theorem registry_of_run {w₀ : World CidText} (h₀ : w₀.Starting)
    {c : Prog.Pool.Config LifeTask (LifeOp CidText) LifeOp.Ret (LifecycleError CidText)
      (LifePast CidText)}
    (hrun : LifeRun content faults site w₀ c) (huuid : ∀ n, uuid n ≠ "") :
    ∃ d, Relation.ReflTransGen (FileRegistry.Writes uuid) Datastore.empty d ∧
      Represents uuid d c.1.1.files ∧
      ∀ value, value ∈ list d ↔ ∃ record ∈ c.1.1.files.entries, value = record.toJson uuid := by
  suffices hreached : ∃ d, Relation.ReflTransGen (FileRegistry.Writes uuid) Datastore.empty d ∧
      Represents uuid d c.1.1.files by
    obtain ⟨d, hwrites, hd⟩ := hreached
    exact ⟨d, hwrites, hd, fun value => hd.mem_list⟩
  refine (Prog.Pool.leads_of_reach hrun).invariant (fun w => ∃ d,
    Relation.ReflTransGen (FileRegistry.Writes uuid) Datastore.empty d ∧
      Represents uuid d w.files) ⟨_, .refl, ?_⟩ ?_
  · rw [h₀.files]
    exact FileRegistry.represents_empty
  · rintro e - he ⟨d, hwrites, hd⟩
    cases e with
    | request t o before r after =>
        rcases lifeSem_cases he with ⟨op, r', -, hop⟩ | ⟨-, hsame⟩
        · obtain ⟨d', hrest, hd'⟩ := hd.runs hop huuid
          exact ⟨d', hwrites.trans hrest, hd'⟩
        · exact ⟨d, hwrites, hsame ▸ hd⟩
    | reset before after =>
        refine ⟨d, hwrites, ?_⟩
        rw [show after = _ from he]
        exact hd

/-- In every run, whatever fails: what an operation stores is accepted and can be
read, no operation ends in a refusal, settlement and cleanup leave nothing out
but what the registry fails, and `list` yields no entry that is not valid and
under its own key. -/
theorem stored_records_are_readable {w₀ : World CidText} (h₀ : w₀.Starting)
    {c : Prog.Pool.Config LifeTask (LifeOp CidText) LifeOp.Ret (LifecycleError CidText)
      (LifePast CidText)}
    (hrun : LifeRun content faults site w₀ c) {past rest : List (LifeEvent CidText)}
    {t : LifeTask} {o : LifeOp CidText} {before after : World CidText}
    {r : Except (LifecycleError CidText) o.Ret}
    (hevent : c.1.2 = past ++ .request t o before r after :: rest) {op : LocalOp CidText}
    (hop : o.local = some op)
    (hstaged : ∀ options name, op = .stageReplica options name → options.Named)
    (huuid : ∀ n, uuid n ≠ "") :
    (∀ err, r = .error err → ¬ err.Refuses) ∧
    (∀ proc existing record, (∀ current, existing = some current → isFileRecord current = true) →
      op.Stores proc existing record → ∀ d n, ∃ d',
        save uuid d record n = .ok ((record.stamped n).toJson uuid, d') ∧
          Readable uuid d' (record.stamped n)) ∧
    (∀ d, Represents uuid d after.files → ∀ record ∈ after.files.entries,
      Readable uuid d record) ∧
    ((∀ q : Request CidText, q.op.accessesRegistry = true → ¬ faults q) →
      (∀ cids baselines reports admissionId settledAt stored w',
        Prog.Runs (storeSem content faults)
          (finalizeAdmitted cids baselines reports admissionId settledAt) before (.ok stored) w' →
        stored.map (·.cid) = cids ∧
          ∀ record ∈ stored, record.admissionSettledAt = some settledAt) ∧
      ∀ cids reports admissionId stored w',
        Prog.Runs (storeSem content faults)
          (clearSettledAdmissions reports admissionId cids) before (.ok stored) w' →
        stored.map (·.cid) = cids ∧ ∀ record ∈ stored, record.admissionId = none) ∧
    ∀ (d : Datastore) (value : Json), value ∈ list d → ∃ cid,
      d.get (key cid) = some (some value) ∧ FileRegistry.isFileRecord value = true ∧
        isAbout cid value = true := by
  obtain ⟨hargs, hstep⟩ := event_of_run h₀ hrun hevent hop hstaged
  refine ⟨fun err => not_refuses_of_run hstep hop hargs, ?_, ?_, fun hregistry => ⟨?_, ?_⟩, ?_⟩
  · intro proc existing record hexisting hstores d n
    obtain ⟨d', hsave, hget, hlist⟩ :=
      FileRegistry.readable_of_save (d := d) (n := n) huuid (hstores.valid hargs hexisting)
    exact ⟨d', hsave, hget, hlist⟩
  · exact fun d hd record hmem => readable_of_represents hd hmem
  · exact fun cids baselines reports admissionId settledAt stored w' hruns =>
      yields_finalizeAdmitted.of_runs hregistry hruns
  · exact fun cids reports admissionId stored w' hruns =>
      yields_clearSettledAdmissions.of_runs hregistry hruns
  · exact fun d value hmem => FileRegistry.mem_list.mp hmem

end Readable

/-! ## A stage on a node without files -/

namespace StagedText

def target : ReplicaStageTarget CidText := ⟨⟨"file", by decide⟩, "upload", 5, 9, some "peer"⟩

def site : Site CidText where
  score := fun _ _ => 0
  config := { enabled := false, placement := [], ackQuorum := 1 }
  nodes := []
  selfPeerId := "self"
  collects := fun _ _ => True

def answers (o : NetworkOp CidText) : Except (LifecycleError CidText) o.Ret := .error .io

def moves : List (Prog.Pool.Move LifeTask (LifeOp CidText) LifeOp.Ret (LifecycleError CidText)) :=
  [.spawn (.other 0) (Job.life (LocalOp.stageReplica target "upload").job), .act (.other 0)]

theorem lifeRun_moves : LifeRun Content.flat noFault site World.empty
    (playLife Content.flat answers World.empty moves) := by
  refine lifeRun_playLife fun t p hmem => ?_
  simp only [moves, List.mem_cons, reduceCtorEq, List.not_mem_nil, or_false,
    Prog.Pool.Move.spawn.injEq] at hmem
  obtain ⟨rfl, rfl⟩ := hmem
  exact .request 0 (.stageReplica _ _) rfl

end StagedText

open StagedText in
/-- What the stage stores lies in the datastore afterwards. -/
theorem stored_records_are_readable_staged : ∃ d',
    FileRegistry.save (fun n => "revision" ++ toString n) Datastore.empty
        (stagedRecord target none "upload" ⟨4, 4⟩) 0 =
      .ok (((stagedRecord target none "upload" ⟨4, 4⟩).stamped 0).toJson
        fun n => "revision" ++ toString n, d') ∧
      Readable (fun n => "revision" ++ toString n) d'
        ((stagedRecord target none "upload" ⟨4, 4⟩).stamped 0) := by
  have hstart : (World.empty : World CidText).Starting := ⟨rfl, rfl⟩
  have hevent : ∃ r after, (playLife Content.flat answers World.empty moves).1.2 =
      [] ++ .request (.other 0) (.node (.run (.stageReplica target "upload"))) World.empty r after
        :: [] := ⟨_, _, rfl⟩
  obtain ⟨r, after, hevent⟩ := hevent
  have hnamed : target.Named := ⟨by decide, by decide⟩
  have huuid : ∀ n : Nat, "revision" ++ toString n ≠ "" := fun n h => by
    simp [String.append_eq_empty_iff] at h
  have hsaved := (stored_records_are_readable hstart lifeRun_moves hevent rfl
    (by rintro _ _ ⟨⟩; exact hnamed) huuid).2.1
  have hnone : ∀ {φ : FileRecord CidText → Prop} record, none = some record → φ record :=
    fun _ h => by cases h
  exact hsaved Process.fresh none _ hnone (.stage hnone hnone) Datastore.empty 0

end IpfsNode
