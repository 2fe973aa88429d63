import IpfsNode.CallTrace
import IpfsNode.Demotion
import IpfsNode.Execution
import IpfsNode.RepairCycle
import IpfsNode.WorkerPool

/-!
# What a repair pass does with its batch

A pass first takes the files of its batch that the node holds, one after the
other: it claims the record, asks the designated holders who has the file, and
when too few say so places copies and asks again. Then a pool of workers takes
the files the node released, and keeps the local copy of one that nobody was
found holding.

A file is counted as healthy or repaired only on the word of enough designated
holders, the last time they were asked; what is done to a record is done under a
claim that is given back; and the report of the workers is that of a pass over
the released files in turn, whoever of them is done first.
`repair_pass_honest` says this of a whole pass.
-/

namespace IpfsNode

/-! ## The pass -/

/-- What a pass asks of its node and of the network. -/
inductive RepairOp (Cid : Type) where
  | now
  | process
  | claimRepairRecord (record : FileRecord Cid)
  | releaseRepairRecord (cid : Cid)
  | probeHave (peer : ReplicationPeer) (cid : Cid)
  | setReplicas (cid : Cid) (replicas : List String)
  | clearSettledAdmission (record : FileRecord Cid)
  | replicateFile (cid : Cid)
  | parseCid (cid : Cid)
  /-- Whether the root block is here. -/
  | hasRoot (cid : Cid)
  | statDag (cid : Cid)
  | rescueOrphanedFile (record : FileRecord Cid)

def RepairOp.Ret {Cid : Type} : RepairOp Cid → Type
  | now => Nat
  | process => Process Cid
  | claimRepairRecord _ | probeHave .. | hasRoot _ => Bool
  | setReplicas .. | rescueOrphanedFile _ => Option (FileRecord Cid)
  | releaseRepairRecord _ | clearSettledAdmission _ | replicateFile _ | parseCid _
  | statDag _ => Unit

abbrev Repair (Cid α : Type) := Prog (RepairOp Cid) RepairOp.Ret (LifecycleError Cid) α

abbrev RepairCall (Cid : Type) := Prog.Call (RepairOp Cid) RepairOp.Ret (LifecycleError Cid)

/-- What a pass lists, before the cursor of its cycle is added. -/
structure RepairLists (Cid : Type) where
  examined : Nat
  checked : Nat
  /-- Released records checked for a remaining durable holder. -/
  releasedChecked : Nat
  underReplicated : Nat
  repaired : List Cid
  stillMissing : List Cid
  /-- Files nobody was found holding, whose local blocks were pinned again. -/
  rescued : List Cid
  /-- Files no designated peer holds and whose root is not here. -/
  unrecoverable : List Cid
deriving DecidableEq, Repr

def RepairLists.start {Cid : Type} (examined : Nat) : RepairLists Cid :=
  ⟨examined, 0, 0, 0, [], [], [], []⟩

/-- The counters that the evidence of a cycle sums up. -/
def RepairLists.counts {Cid : Type} (report : RepairLists Cid) : RepairCounts where
  examined := report.examined
  checked := report.checked
  underReplicated := report.underReplicated
  repaired := report.repaired.length
  stillMissing := report.stillMissing.length
  unrecoverable := report.unrecoverable.length

section Pass

variable {Cid : Type}

/-- Each holder with its answer, a failed call as `false`. They are asked at the
same time, and the answers are kept in the order of the holders. -/
def askHolders (cid : Cid) : List ReplicationPeer → Repair Cid (List (ReplicationPeer × Bool))
  | [] => pure []
  | peer :: peers => do
      let answer ← Prog.attempt (Prog.perform (RepairOp.probeHave peer cid))
      let answers ← askHolders cid peers
      pure ((peer, match answer with | .ok has => has | .error _ => false) :: answers)

def liveHolderNames (holders : List ReplicationPeer) (cid : Cid) : Repair Cid (List String) := do
  let answers ← askHolders cid holders
  pure ((answers.filter (·.2)).map (·.1.name))

variable (score : Score Cid) (tiers : List PlacementTier) (peers : List ReplicationPeer)
variable (selfPeerId : PeerId)

/-- A record that was claimed. -/
def repairUnderClaim (report : RepairLists Cid) (record : FileRecord Cid) :
    Repair Cid (RepairLists Cid) := do
  let now : Nat ← Prog.perform RepairOp.now
  let placement := placementFor score tiers peers selfPeerId record now
  let holders := knownHolders peers selfPeerId placement
  let live ← liveHolderNames holders record.cid
  let _ ← Prog.perform (RepairOp.setReplicas record.cid live)
  if !isUnderReplicated live.length placement selfPeerId then do
    let _ ← Prog.perform (RepairOp.clearSettledAdmission record)
    pure report
  else do
    let _ ← Prog.perform (RepairOp.replicateFile record.cid)
    let verified ← liveHolderNames holders record.cid
    let _ ← Prog.perform (RepairOp.setReplicas record.cid verified)
    let report := { report with underReplicated := report.underReplicated + 1 }
    if isUnderReplicated verified.length placement selfPeerId then
      pure { report with stillMissing := report.stillMissing ++ [record.cid] }
    else do
      let _ ← Prog.perform (RepairOp.clearSettledAdmission record)
      pure { report with repaired := report.repaired ++ [record.cid] }

variable [DecidableEq Cid]

/-- One candidate of a pass. -/
def repairCandidate (report : RepairLists Cid) (record : FileRecord Cid) :
    Repair Cid (RepairLists Cid) := do
  let proc : Process Cid ← Prog.perform RepairOp.process
  if !isSettledHeldFile proc record then pure report
  else do
    let claimed : Bool ← Prog.perform (RepairOp.claimRepairRecord record)
    let checked := { report with checked := report.checked + 1 }
    if !claimed then pure report
    else
      Prog.finally_ (repairUnderClaim score tiers peers selfPeerId checked record)
        (RepairOp.releaseRepairRecord record.cid)

def repairEach (report : RepairLists Cid) : List (FileRecord Cid) → Repair Cid (RepairLists Cid)
  | [] => pure report
  | record :: records => do
      let report ← repairCandidate score tiers peers selfPeerId report record
      repairEach report records

/-! ### Released files -/

/-- What becomes of a released file. -/
inductive RescueVerdict where
  /-- A designated holder has it. -/
  | held
  | unrecoverable
  | rescued
  /-- The record changed, or its blocks are only partly here. -/
  | left
deriving DecidableEq, Repr

omit [DecidableEq Cid] in
/-- A released file that no holder was found to have. -/
def rescueAlone (record : FileRecord Cid) : Repair Cid (Cid × RescueVerdict) := do
  let root : Bool ← Prog.perform (RepairOp.hasRoot record.cid)
  if !root then pure (record.cid, .unrecoverable)
  else
    try
      let _ ← Prog.perform (RepairOp.statDag record.cid)
      let kept : Option (FileRecord Cid) ← Prog.perform (RepairOp.rescueOrphanedFile record)
      pure (record.cid, if kept.isSome then .rescued else .left)
    catch _ => pure (record.cid, .left)

omit [DecidableEq Cid] in
/-- One turn of `processNext`. -/
def rescueCandidate (record : FileRecord Cid) : Repair Cid (Cid × RescueVerdict) := do
  let _ ← Prog.perform (RepairOp.parseCid record.cid)
  let now : Nat ← Prog.perform RepairOp.now
  let placement := placementFor score tiers peers selfPeerId record now
  let answers ← askHolders record.cid (knownHolders peers selfPeerId placement)
  if answers.any (·.2) then pure (record.cid, .held)
  else rescueAlone record

def isReleased (record : FileRecord Cid) : Bool :=
  record.state = .confirmed && !record.heldLocally

structure RescueReport (Cid : Type) where
  checked : Nat
  rescued : List Cid
  unrecoverable : List Cid
deriving DecidableEq, Repr

end Pass

section Report

variable {Cid : Type} [LinearOrder Cid]

/-- The files with a verdict, sorted. -/
def listed (verdict : RescueVerdict) (results : List (Cid × RescueVerdict)) : List Cid :=
  ((results.filter (·.2 = verdict)).map Prod.fst).insertionSort (· ≤ ·)

/-- What the workers report, in whatever order the results came. -/
def rescueReport (s : WorkerPool.State (Cid × RescueVerdict)) : RescueReport Cid where
  checked := s.next
  rescued := listed .rescued (s.finished.map Prod.snd)
  unrecoverable := listed .unrecoverable (s.finished.map Prod.snd)

def RepairLists.withRescue (report : RepairLists Cid) (rescue : RescueReport Cid) :
    RepairLists Cid :=
  { report with
    releasedChecked := rescue.checked
    rescued := rescue.rescued
    unrecoverable := rescue.unrecoverable }

end Report

/-! ## What the calls are answered -/

section Answers

variable {Cid : Type} [DecidableEq Cid]

/-- The registry is asked in whatever state it is then, with whatever faults; the
node and the network answer anything. -/
def RepairOp.Answers (content : Content Cid) :
    (o : RepairOp Cid) → Except (LifecycleError Cid) o.Ret → Prop
  | now, r => ∃ a, r = .ok a
  | process, r => ∃ a, r = .ok a
  | releaseRepairRecord _, r => ∃ a, r = .ok a
  | claimRepairRecord record, r =>
      ∃ w w', Prog.Runs (storeSem content anyFault) (IpfsNode.claimRepairRecord record) w r w'
  | setReplicas cid replicas, r =>
      ∃ w w', Prog.Runs (storeSem content anyFault) (IpfsNode.setReplicas cid replicas) w r w'
  | clearSettledAdmission record, r =>
      ∃ w w', Prog.Runs (storeSem content anyFault) (IpfsNode.clearSettledAdmission record) w r w'
  | rescueOrphanedFile record, r =>
      ∃ w w', Prog.Runs (storeSem content anyFault) (IpfsNode.rescueOrphanedFile record) w r w'
  | probeHave .., _ | replicateFile _, _ | parseCid _, _ | hasRoot _, _ | statDag _, _ => True

/-- What a pass may do while it holds a claim, or holds none. -/
def RepairOp.Permitted (claim : Option Cid) : RepairOp Cid → Prop
  | setReplicas cid _ | replicateFile cid | releaseRepairRecord cid => claim = some cid
  | clearSettledAdmission record => claim = some record.cid
  | claimRepairRecord _ => claim = none
  | now | process | probeHave .. | parseCid _ | hasRoot _ | statDag _ | rescueOrphanedFile _ => True

/-- The claim after a call. -/
def RepairCall.claim (claim : Option Cid) : RepairCall Cid → Option Cid
  | ⟨.claimRepairRecord record, .ok true⟩ => some record.cid
  | ⟨.releaseRepairRecord _, _⟩ => none
  | _ => claim

/-- Calls that find one claim held and leave another, each permitted when it is made. -/
inductive Claims : Option Cid → List (RepairCall Cid) → Option Cid → Prop
  | nil {claim} : Claims claim [] claim
  | cons {claim call calls after} (h : call.1.Permitted claim)
      (hrest : Claims (RepairCall.claim claim call) calls after) :
      Claims claim (call :: calls) after

def RepairCall.granted : RepairCall Cid → Bool
  | ⟨.claimRepairRecord _, .ok true⟩ => true
  | _ => false

end Answers

/-! ## Surveys -/

section Survey

variable {Cid : Type} (score : Score Cid) (tiers : List PlacementTier)
variable (peers : List ReplicationPeer) (selfPeerId : PeerId)

def said : Except (LifecycleError Cid) Bool → Bool
  | .ok has => has
  | .error _ => false

/-- The designated holders of one moment, each with what it answered. -/
structure Survey (record : FileRecord Cid) where
  now : Nat
  asked : List (ReplicationPeer × Except (LifecycleError Cid) Bool)
  holders : asked.map Prod.fst =
    knownHolders peers selfPeerId (placementFor score tiers peers selfPeerId record now)

variable {score tiers peers selfPeerId} {record : FileRecord Cid}

namespace Survey

/-- The reading of the clock that the placement is judged at. -/
def clock (survey : Survey score tiers peers selfPeerId record) : RepairCall Cid :=
  ⟨.now, .ok survey.now⟩

def calls (survey : Survey score tiers peers selfPeerId record) : List (RepairCall Cid) :=
  survey.asked.map fun answer => ⟨.probeHave answer.1 record.cid, answer.2⟩

/-- The answers, a failed call as `false`. -/
def answers (survey : Survey score tiers peers selfPeerId record) : List (ReplicationPeer × Bool) :=
  survey.asked.map fun answer => (answer.1, said answer.2)

/-- The holders that say they have the file. -/
def live (survey : Survey score tiers peers selfPeerId record) : List ReplicationPeer :=
  (survey.asked.filter (said ·.2)).map Prod.fst

/-- Too few holders have the file. -/
def short (survey : Survey score tiers peers selfPeerId record) : Bool :=
  isUnderReplicated survey.live.length
    (placementFor score tiers peers selfPeerId record survey.now) selfPeerId

end Survey

variable {answers : (o : RepairOp Cid) → Except (LifecycleError Cid) o.Ret → Prop}
variable {calls : List (RepairCall Cid)} {holders : List ReplicationPeer} {cid : Cid}

theorem trace_askHolders {result : Except (LifecycleError Cid) (List (ReplicationPeer × Bool))}
    (h : Prog.Trace answers (askHolders cid holders) calls result) :
    ∃ asked : List (ReplicationPeer × Except (LifecycleError Cid) Bool),
      asked.map Prod.fst = holders ∧
      calls = asked.map (fun answer => ⟨.probeHave answer.1 cid, answer.2⟩) ∧
      result = .ok (asked.map fun answer => (answer.1, said answer.2)) := by
  induction holders generalizing calls result with
  | nil =>
      obtain ⟨rfl, rfl⟩ := Prog.trace_pure.mp h
      exact ⟨[], rfl, rfl, rfl⟩
  | cons peer holders ih =>
      obtain ⟨first, rest, r, rfl, hattempt, hrest⟩ := Prog.trace_bind.mp h
      obtain ⟨answer, rfl, hprobe⟩ := Prog.trace_attempt.mp hattempt
      obtain ⟨-, rfl⟩ := Prog.trace_perform.mp hprobe
      obtain ⟨others, last, r, rfl, hothers, hlast⟩ := Prog.trace_bind.mp hrest
      obtain ⟨asked, rfl, rfl, rfl⟩ := ih hothers
      obtain ⟨rfl, rfl⟩ := Prog.trace_pure.mp hlast
      refine ⟨(peer, answer) :: asked, rfl, ?_, ?_⟩
      · rw [List.append_nil]
        rfl
      · cases answer <;> rfl

/-- Asking the designated holders is a survey. -/
theorem trace_survey {record : FileRecord Cid} {now : Nat}
    {result : Except (LifecycleError Cid) (List (ReplicationPeer × Bool))}
    (h : Prog.Trace answers (askHolders record.cid (knownHolders peers selfPeerId
      (placementFor score tiers peers selfPeerId record now))) calls result) :
    ∃ survey : Survey score tiers peers selfPeerId record, survey.now = now ∧
      calls = survey.calls ∧ result = .ok survey.answers := by
  obtain ⟨asked, hholders, rfl, rfl⟩ := trace_askHolders h
  exact ⟨⟨now, asked, hholders⟩, rfl, rfl, rfl⟩

theorem trace_liveHolderNames {record : FileRecord Cid} {now : Nat}
    {result : Except (LifecycleError Cid) (List String)}
    (h : Prog.Trace answers (liveHolderNames (knownHolders peers selfPeerId
      (placementFor score tiers peers selfPeerId record now)) record.cid) calls result) :
    ∃ survey : Survey score tiers peers selfPeerId record, survey.now = now ∧
      calls = survey.calls ∧ result = .ok (survey.live.map (·.name)) := by
  obtain ⟨first, rest, r, rfl, hasked, hrest⟩ := Prog.trace_bind.mp h
  obtain ⟨survey, hnow, rfl, rfl⟩ := trace_survey hasked
  obtain ⟨rfl, rfl⟩ := Prog.trace_pure.mp hrest
  refine ⟨survey, hnow, List.append_nil _, ?_⟩
  unfold Survey.live Survey.answers
  rw [List.filter_map, List.map_map, List.map_map]
  rfl

/-- Some holder says it has the file when one is found that does. -/
theorem Survey.any_answers (survey : Survey score tiers peers selfPeerId record) :
    survey.answers.any (·.2) = !survey.live.isEmpty := by
  unfold Survey.live Survey.answers
  rw [List.isEmpty_map, List.any_map]
  induction survey.asked with
  | nil => rfl
  | cons answer asked ih =>
      rw [List.any_cons, List.filter_cons]
      cases hsaid : said answer.2 with
      | true => simp [hsaid]
      | false => simpa [hsaid] using ih

end Survey

/-! ## One record -/

/-- What becomes of a record of the batch. -/
inductive RepairVerdict where
  /-- It is not for this pass: it was released, or something else is at work on it. -/
  | passedOver
  | healthy
  | repaired
  | stillMissing
deriving DecidableEq, Repr

/-- A verdict in the report. -/
def RepairLists.add {Cid : Type} (report : RepairLists Cid) (cid : Cid) :
    RepairVerdict → RepairLists Cid
  | .passedOver => report
  | .healthy => { report with checked := report.checked + 1 }
  | .repaired =>
      { report with
        checked := report.checked + 1
        underReplicated := report.underReplicated + 1
        repaired := report.repaired ++ [cid] }
  | .stillMissing =>
      { report with
        checked := report.checked + 1
        underReplicated := report.underReplicated + 1
        stillMissing := report.stillMissing ++ [cid] }

section Record

variable {Cid : Type} [DecidableEq Cid] (score : Score Cid) (tiers : List PlacementTier)
variable (peers : List ReplicationPeer) (selfPeerId : PeerId)

variable {score tiers peers selfPeerId} in
/-- Too few holders had the file, copies were placed, and the survey was made after that. -/
inductive Resurveyed (record : FileRecord Cid) (calls : List (RepairCall Cid))
    (survey : Survey score tiers peers selfPeerId record) : Prop
  | intro (before after : List (RepairCall Cid))
      (first : Survey score tiers peers selfPeerId record)
      (hplaced : calls = before ++ ⟨.replicateFile record.cid, .ok ()⟩ :: after)
      (hclock : survey.clock ∈ before) (hnow : first.now = survey.now)
      (hfirst : first.calls ⊆ before) (hshort : first.short = true)
      (hcalls : survey.calls ⊆ after)

/-- What the calls made for a record have to say for a verdict. After copies were
placed, it is the survey made since then that counts. -/
inductive Judged (record : FileRecord Cid) (calls : List (RepairCall Cid)) : RepairVerdict → Prop
  | notDue {proc} (hmem : ⟨.process, .ok proc⟩ ∈ calls)
      (h : isSettledHeldFile proc record = false) : Judged record calls .passedOver
  | notClaimed (hmem : ⟨.claimRepairRecord record, .ok false⟩ ∈ calls) :
      Judged record calls .passedOver
  | healthy (survey : Survey score tiers peers selfPeerId record) (hclock : survey.clock ∈ calls)
      (hcalls : survey.calls ⊆ calls) (h : survey.short = false) : Judged record calls .healthy
  | repaired (survey : Survey score tiers peers selfPeerId record)
      (hplaced : Resurveyed record calls survey) (h : survey.short = false) :
      Judged record calls .repaired
  | stillMissing (survey : Survey score tiers peers selfPeerId record)
      (hplaced : Resurveyed record calls survey) (h : survey.short = true) :
      Judged record calls .stillMissing

variable {score tiers peers selfPeerId}
variable {answers : (o : RepairOp Cid) → Except (LifecycleError Cid) o.Ret → Prop}
variable {record : FileRecord Cid} {report report' : RepairLists Cid}
variable {calls : List (RepairCall Cid)}

omit [DecidableEq Cid] in
theorem Survey.short_eq (survey : Survey score tiers peers selfPeerId record) :
    isUnderReplicated (survey.live.map (·.name)).length
      (placementFor score tiers peers selfPeerId record survey.now) selfPeerId = survey.short := by
  rw [List.length_map]
  rfl

omit [DecidableEq Cid] in
theorem Resurveyed.around {survey : Survey score tiers peers selfPeerId record}
    (h : Resurveyed record calls survey) (front rest : List (RepairCall Cid)) :
    Resurveyed record (front ++ calls ++ rest) survey := by
  obtain ⟨before, after, first, hplaced, hclock, hnow, hfirst, hshort, hcalls⟩ := h
  refine .intro (front ++ before) (after ++ rest) first ?_ (List.mem_append_right _ hclock) hnow
    (List.Subset.trans hfirst (List.subset_append_right ..)) hshort
    (List.Subset.trans hcalls (List.subset_append_left ..))
  rw [hplaced]
  simp

/-- A verdict stands when more calls are made around those it rests on. -/
theorem Judged.around {verdict : RepairVerdict}
    (h : Judged score tiers peers selfPeerId record calls verdict)
    (front rest : List (RepairCall Cid)) :
    Judged score tiers peers selfPeerId record (front ++ calls ++ rest) verdict := by
  have hsub : calls ⊆ front ++ calls ++ rest := fun _ hmem =>
    List.mem_append_left _ (List.mem_append_right _ hmem)
  cases h with
  | notDue hmem h => exact .notDue (hsub hmem) h
  | notClaimed hmem => exact .notClaimed (hsub hmem)
  | healthy survey hclock hcalls h =>
      exact .healthy survey (hsub hclock) (List.Subset.trans hcalls hsub) h
  | repaired survey hplaced h => exact .repaired survey (hplaced.around front rest) h
  | stillMissing survey hplaced h => exact .stillMissing survey (hplaced.around front rest) h

theorem trace_repairUnderClaim
    (h : Prog.Trace answers (repairUnderClaim score tiers peers selfPeerId
      { report with checked := report.checked + 1 } record) calls (.ok report')) :
    ∃ verdict, verdict ≠ .passedOver ∧ Judged score tiers peers selfPeerId record calls verdict ∧
      report' = report.add record.cid verdict := by
  obtain ⟨now, rest, rfl, -, h⟩ := Prog.trace_perform_bind_ok h
  obtain ⟨first, rest, names, rfl, hlive, h⟩ := Prog.trace_bind_ok h
  obtain ⟨survey, rfl, rfl, hnames⟩ := trace_liveHolderNames hlive
  cases hnames
  obtain ⟨_, rest, rfl, -, h⟩ := Prog.trace_perform_bind_ok h
  rw [survey.short_eq] at h
  cases hshort : survey.short with
  | false =>
      rw [hshort] at h
      obtain ⟨_, rest, rfl, -, h⟩ := Prog.trace_perform_bind_ok h
      obtain ⟨rfl, hreport⟩ := Prog.trace_pure.mp h
      cases hreport
      refine ⟨.healthy, (fun h => by cases h), .healthy survey (.head _) ?_ hshort, rfl⟩
      exact fun call hmem => .tail _ (List.mem_append_left _ hmem)
  | true =>
      rw [hshort] at h
      obtain ⟨_, rest, rfl, -, h⟩ := Prog.trace_perform_bind_ok h
      obtain ⟨first, rest, names, rfl, hverified, h⟩ := Prog.trace_bind_ok h
      obtain ⟨verified, hnow, rfl, hnames⟩ := trace_liveHolderNames hverified
      cases hnames
      obtain ⟨_, rest, rfl, -, h⟩ := Prog.trace_perform_bind_ok h
      rw [← hnow, verified.short_eq] at h
      have hfront : ∀ (first last : List (RepairCall Cid)) (a b c : RepairCall Cid),
          a :: (first ++ b :: c :: last) = (a :: (first ++ [b])) ++ c :: last := by
        intro first last a b c
        simp
      have hplaced : ∀ (set : RepairCall Cid) (rest : List (RepairCall Cid)),
          Resurveyed record (survey.clock :: (survey.calls ++ set ::
            ⟨.replicateFile record.cid, .ok ()⟩ :: (verified.calls ++ rest))) verified := by
        intro set rest
        refine .intro _ _ survey (hfront ..) ?_ hnow.symm (fun call hmem => ?_) hshort
          (List.subset_append_left ..)
        · have hclock : verified.clock = survey.clock := by rw [Survey.clock, hnow, Survey.clock]
          rw [hclock]
          exact .head _
        · exact .tail _ (List.mem_append_left _ hmem)
      cases hstill : verified.short with
      | true =>
          rw [hstill] at h
          obtain ⟨rfl, hreport⟩ := Prog.trace_pure.mp h
          cases hreport
          exact ⟨.stillMissing, (fun h => by cases h), .stillMissing verified (hplaced ..) hstill,
            rfl⟩
      | false =>
          rw [hstill] at h
          obtain ⟨_, rest, rfl, -, h⟩ := Prog.trace_perform_bind_ok h
          obtain ⟨rfl, hreport⟩ := Prog.trace_pure.mp h
          cases hreport
          exact ⟨.repaired, (fun h => by cases h), .repaired verified (hplaced ..) hstill, rfl⟩

/-- What a claimed record is asked for. -/
def RepairOp.Under (cid : Cid) : RepairOp Cid → Prop
  | now | probeHave .. => True
  | setReplicas cid' _ | replicateFile cid' => cid' = cid
  | clearSettledAdmission record => record.cid = cid
  | _ => False

omit [DecidableEq Cid] in
theorem requests_askHolders (cid : Cid) (holders : List ReplicationPeer) :
    Prog.Requests (RepairOp.Under cid) (askHolders cid holders) := by
  induction holders with
  | nil => trivial
  | cons peer holders ih =>
      have hprobe : RepairOp.Under cid (.probeHave peer cid) := trivial
      exact (Prog.Requests.perform hprobe).attempt.bind fun _ => ih.bind fun _ => trivial

omit [DecidableEq Cid] in
theorem requests_liveHolderNames (cid : Cid) (holders : List ReplicationPeer) :
    Prog.Requests (RepairOp.Under cid) (liveHolderNames holders cid) :=
  (requests_askHolders cid holders).bind fun _ => trivial

omit [DecidableEq Cid] in
theorem requests_repairUnderClaim (report : RepairLists Cid) :
    Prog.Requests (RepairOp.Under record.cid)
      (repairUnderClaim score tiers peers selfPeerId report record) := by
  unfold repairUnderClaim
  have hset : ∀ names, RepairOp.Under record.cid (.setReplicas record.cid names) := fun _ => rfl
  have hclear : RepairOp.Under record.cid (.clearSettledAdmission record) := rfl
  have hplace : RepairOp.Under record.cid (.replicateFile record.cid) := rfl
  have hnow : RepairOp.Under record.cid .now := trivial
  refine (Prog.Requests.perform hnow).bind fun now => ?_
  refine (requests_liveHolderNames ..).bind fun live => ?_
  refine (Prog.Requests.perform (hset _)).bind fun _ => ?_
  split
  · exact (Prog.Requests.perform hclear).bind fun _ => trivial
  refine (Prog.Requests.perform hplace).bind fun _ => ?_
  refine (requests_liveHolderNames ..).bind fun verified => ?_
  refine (Prog.Requests.perform (hset _)).bind fun _ => ?_
  dsimp only
  split
  · trivial
  · exact (Prog.Requests.perform hclear).bind fun _ => trivial

omit [DecidableEq Cid] in
theorem Claims.append {claim mid after : Option Cid} {rest : List (RepairCall Cid)}
    (h : Claims claim calls mid) (hrest : Claims mid rest after) :
    Claims claim (calls ++ rest) after := by
  induction h with
  | nil => exact hrest
  | cons hcall _ ih => exact .cons hcall (ih hrest)

omit [DecidableEq Cid] in
/-- What is asked under a claim keeps it. -/
theorem claims_under {cid : Cid} (h : ∀ call ∈ calls, RepairOp.Under cid call.1) :
    Claims (some cid) calls (some cid) := by
  induction calls with
  | nil => exact .nil
  | cons call calls ih =>
      have hcall := h call (.head _)
      have hrest := ih fun call hmem => h call (.tail _ hmem)
      obtain ⟨o, r⟩ := call
      cases o with
      | now | probeHave peer cid' => exact .cons trivial hrest
      | setReplicas cid' names | replicateFile cid' => exact .cons (congrArg some hcall.symm) hrest
      | clearSettledAdmission record => exact .cons (congrArg some hcall.symm) hrest
      | _ => exact hcall.elim

omit [DecidableEq Cid] in
theorem not_granted_of_under {cid : Cid} {call : RepairCall Cid}
    (h : RepairOp.Under cid call.1) : call.granted = false := by
  obtain ⟨o, r⟩ := call
  cases o with
  | claimRepairRecord record => exact h.elim
  | _ => rfl

/-- The claims that were granted. -/
def grants {Cid : Type} (calls : List (RepairCall Cid)) : Nat :=
  (calls.filter RepairCall.granted).length

omit [DecidableEq Cid] in
@[simp] theorem grants_append (calls rest : List (RepairCall Cid)) :
    grants (calls ++ rest) = grants calls + grants rest := by
  unfold grants
  rw [List.filter_append, List.length_append]

omit [DecidableEq Cid] in
theorem grants_under {cid : Cid} (h : ∀ call ∈ calls, RepairOp.Under cid call.1) :
    grants calls = 0 := by
  unfold grants
  rw [List.filter_eq_nil_iff.mpr, List.length_nil]
  intro call hmem
  rw [not_granted_of_under (h call hmem)]
  exact Bool.false_ne_true

/-- A verdict on a record, with the calls it rests on. -/
structure Examination (score : Score Cid) (tiers : List PlacementTier)
    (peers : List ReplicationPeer) (selfPeerId : PeerId) where
  record : FileRecord Cid
  calls : List (RepairCall Cid)
  verdict : RepairVerdict
  judged : Judged score tiers peers selfPeerId record calls verdict
  granted : grants calls = if verdict = .passedOver then 0 else 1

variable {content : Content Cid}

/-- One record: its claim is given back whatever happens, and what the report says
of it is so. -/
theorem trace_repairCandidate {result : Except (LifecycleError Cid) (RepairLists Cid)}
    (h : Prog.Trace (RepairOp.Answers content)
      (repairCandidate score tiers peers selfPeerId report record) calls result) :
    Claims none calls none ∧ ∀ report', result = .ok report' →
      ∃ e : Examination score tiers peers selfPeerId, e.record = record ∧ e.calls = calls ∧
        report' = report.add record.cid e.verdict := by
  obtain ⟨first, rest, r, rfl, hprocess, hdue⟩ := Prog.trace_bind.mp h
  obtain ⟨⟨proc, rfl⟩, rfl⟩ := Prog.trace_perform.mp hprocess
  replace hdue := Prog.continues_ok.mp hdue
  cases hheld : isSettledHeldFile proc record with
  | false =>
      simp only [hheld] at hdue
      obtain ⟨rfl, rfl⟩ := Prog.trace_pure.mp hdue
      refine ⟨.cons trivial .nil, fun report' hreport => ?_⟩
      cases hreport
      exact ⟨⟨record, _, .passedOver, .notDue (.head _) hheld, rfl⟩, rfl, rfl, rfl⟩
  | true =>
      simp only [hheld] at hdue
      obtain ⟨first, rest, r, rfl, hclaim, hrest⟩ := Prog.trace_bind.mp hdue
      obtain ⟨-, rfl⟩ := Prog.trace_perform.mp hclaim
      cases r with
      | error err =>
          obtain ⟨rfl, rfl⟩ := hrest
          exact ⟨.cons trivial (.cons rfl .nil), fun report' hreport => by cases hreport⟩
      | ok claimed =>
          cases claimed with
          | false =>
              obtain ⟨rfl, rfl⟩ := Prog.trace_pure.mp hrest
              refine ⟨.cons trivial (.cons rfl .nil), fun report' hreport => ?_⟩
              cases hreport
              exact ⟨⟨record, _, .passedOver, .notClaimed (.tail _ (.head _)), rfl⟩, rfl, rfl, rfl⟩
          | true =>
              obtain ⟨mid, a, rfl, hmid⟩ := Prog.trace_finally (fun _ hr => hr) hrest
              have hunder := hmid.requests (requests_repairUnderClaim _)
              refine ⟨?_, fun report' hreport => ?_⟩
              · refine .cons trivial (.cons rfl ((claims_under hunder).append ?_))
                exact .cons rfl .nil
              · subst hreport
                obtain ⟨verdict, hverdict, hjudged, hadd⟩ := trace_repairUnderClaim hmid
                refine ⟨⟨record, _, verdict, hjudged.around [_, _] [_], ?_⟩, rfl, rfl, hadd⟩
                rw [grants_append, grants_append, grants_under hunder, if_neg hverdict]
                rfl

/-! ## The batch -/

/-- The records with a verdict. -/
def Examination.withVerdict (verdict : RepairVerdict)
    (walk : List (Examination score tiers peers selfPeerId)) : List Cid :=
  (walk.filter (·.verdict = verdict)).map (·.record.cid)

/-- A walk over the batch, record by record. -/
theorem trace_repairEach {records : List (FileRecord Cid)}
    {result : Except (LifecycleError Cid) (RepairLists Cid)}
    (h : Prog.Trace (RepairOp.Answers content)
      (repairEach score tiers peers selfPeerId report records) calls result) :
    Claims none calls none ∧ ∀ report', result = .ok report' →
      ∃ walk : List (Examination score tiers peers selfPeerId),
        walk.map (·.record) = records ∧ calls = walk.flatMap (·.calls) ∧
        report' = walk.foldl (fun report e => report.add e.record.cid e.verdict) report := by
  induction records generalizing report calls with
  | nil =>
      obtain ⟨rfl, rfl⟩ := Prog.trace_pure.mp h
      exact ⟨.nil, fun report' hreport => ⟨[], rfl, rfl, by cases hreport; rfl⟩⟩
  | cons record records ih =>
      obtain ⟨first, rest, r, rfl, hfirst, hrest⟩ := Prog.trace_bind.mp h
      obtain ⟨hclaims, hverdict⟩ := trace_repairCandidate hfirst
      cases r with
      | error err =>
          obtain ⟨rfl, rfl⟩ := hrest
          exact ⟨hclaims.append .nil, fun report' hreport => by cases hreport⟩
      | ok mid =>
          obtain ⟨hclaims', hwalk⟩ := ih (Prog.continues_ok.mp hrest)
          refine ⟨hclaims.append hclaims', fun report' hreport => ?_⟩
          obtain ⟨e, rfl, rfl, rfl⟩ := hverdict mid rfl
          obtain ⟨walk, rfl, rfl, rfl⟩ := hwalk report' hreport
          exact ⟨e :: walk, rfl, rfl, rfl⟩

theorem withVerdict_cons (verdict : RepairVerdict)
    (e : Examination score tiers peers selfPeerId)
    (walk : List (Examination score tiers peers selfPeerId)) :
    Examination.withVerdict verdict (e :: walk) =
      (if e.verdict = verdict then [e.record.cid] else []) ++
        Examination.withVerdict verdict walk := by
  unfold Examination.withVerdict
  rw [List.filter_cons]
  by_cases h : e.verdict = verdict
  · simp [h]
  · simp [h]

/-- What a report lists, against what it listed before. -/
structure RepairLists.Grows (report report' : RepairLists Cid) (granted : Nat)
    (repaired stillMissing : List Cid) : Prop where
  examined : report'.examined = report.examined
  checked : report'.checked = report.checked + granted
  underReplicated : report'.underReplicated =
    report.underReplicated + (repaired.length + stillMissing.length)
  repaired : report'.repaired = report.repaired ++ repaired
  stillMissing : report'.stillMissing = report.stillMissing ++ stillMissing

omit [DecidableEq Cid] in
theorem RepairLists.Grows.trans {report₁ report₂ report₃ : RepairLists Cid} {n m : Nat}
    {repaired repaired' missing missing' : List Cid}
    (h : Grows report₁ report₂ n repaired missing)
    (h' : Grows report₂ report₃ m repaired' missing') :
    Grows report₁ report₃ (n + m) (repaired ++ repaired') (missing ++ missing') where
  examined := h'.examined.trans h.examined
  checked := by rw [h'.checked, h.checked, Nat.add_assoc]
  underReplicated := by
    rw [h'.underReplicated, h.underReplicated, List.length_append, List.length_append]
    omega
  repaired := by rw [h'.repaired, h.repaired, List.append_assoc]
  stillMissing := by rw [h'.stillMissing, h.stillMissing, List.append_assoc]

omit [DecidableEq Cid] in
theorem RepairLists.grows_add (report : RepairLists Cid) (cid : Cid) (verdict : RepairVerdict) :
    report.Grows (report.add cid verdict) (if verdict = .passedOver then 0 else 1)
      (if verdict = .repaired then [cid] else [])
      (if verdict = .stillMissing then [cid] else []) := by
  cases verdict with
  | passedOver | healthy | repaired | stillMissing => constructor <;> simp [RepairLists.add]

/-- What a walk adds to the report. -/
theorem grows_foldl (walk : List (Examination score tiers peers selfPeerId))
    (report : RepairLists Cid) :
    report.Grows (walk.foldl (fun report e => report.add e.record.cid e.verdict) report)
      (grants (walk.flatMap (·.calls))) (Examination.withVerdict .repaired walk)
      (Examination.withVerdict .stillMissing walk) := by
  induction walk generalizing report with
  | nil => constructor <;> simp [Examination.withVerdict, grants]
  | cons e walk ih =>
      rw [List.foldl_cons, List.flatMap_cons, grants_append, e.granted, withVerdict_cons,
        withVerdict_cons]
      exact (report.grows_add e.record.cid e.verdict).trans (ih _)

end Record

/-! ## Released files -/

section Rescues

variable {Cid : Type} [DecidableEq Cid]

/-- The local copy of the file was still wanted when it was kept, and is. -/
structure Kept (record : FileRecord Cid) (w : World Cid) (stored : FileRecord Cid)
    (w' : World Cid) : Prop where
  found : ∃ current revision, w.files.get record.cid = some current ∧
    current.revision = record.revision ∧ current.state = .confirmed ∧
    current.heldLocally = false ∧ stored = (rescuedRecord current).stamped revision
  recorded : w'.files.get record.cid = some stored
  pin : record.cid ∈ w'.pins

theorem wp_rescueOrphanedFile {content : Content Cid} {w : World Cid} (record : FileRecord Cid) :
    Prog.wp (storeSem content anyFault) (rescueOrphanedFile record)
      (fun r w' => ∀ stored, r = .ok (some stored) → Kept record w stored w') w := by
  refine Prog.wp_bind.mpr (wp_get ?_ fun stored h => by cases h)
  cases hget : w.files.get record.cid with
  | none => exact fun stored h => by cases h
  | some current =>
      have hcid : current.cid = record.cid := Registry.cid_of_get hget
      dsimp only [Prog.thenPost]
      split
      · exact fun stored h => by cases h
      rename_i hsame
      simp only [Bool.or_eq_true, decide_eq_true_eq, not_or, ne_eq, not_not,
        Bool.not_eq_true] at hsame
      refine Prog.wp_bind.mpr (wp_pinFile ?_ fun stored h => by cases h)
      -- The pin is taken back, or the node is told that it could not be.
      have hfails : ∀ err w₁, Prog.wp (storeSem content anyFault)
          (if decide (record.cid ∉ w.pins) && current.pinned = false then
            compensating (unpinFile record.cid) >>= fun _ => throw err else throw err)
          (fun r w' => ∀ stored, r = .ok (some stored) → Kept record w stored w') w₁ := by
        intro err w₁
        split
        · refine Prog.wp_bind.mpr (Prog.wp_iff_runs.mpr fun r w' _ => ?_)
          cases r <;> exact fun stored h => by cases h
        · exact fun stored h => by cases h
      refine Prog.wp_tryCatch.mpr (Prog.wp_bind.mpr (wp_save ?_ ?_ ?_))
      · rintro hvalid stored ⟨⟩
        refine ⟨⟨current, _, hget, hsame.1.1, hsame.1.2, hsame.2, rfl⟩, ?_, ?_⟩
        · exact World.get_put.trans (if_pos hcid.symm)
        · rw [World.pins_put, World.pins_pin]
          exact Finset.mem_insert_self ..
      · exact fun _ => hfails .io _
      · exact fun err => hfails err _

end Rescues

section Pool

variable {Cid : Type} [DecidableEq Cid] (score : Score Cid) (tiers : List PlacementTier)
variable (peers : List ReplicationPeer) (selfPeerId : PeerId) (content : Content Cid)

/-- What the calls made for a released file have to say for a verdict. -/
inductive Found (record : FileRecord Cid) (calls : List (RepairCall Cid)) : RescueVerdict → Prop
  | held (survey : Survey score tiers peers selfPeerId record) (hclock : survey.clock ∈ calls)
      (hcalls : survey.calls ⊆ calls) (hlive : survey.live ≠ []) : Found record calls .held
  | unrecoverable (survey : Survey score tiers peers selfPeerId record)
      (hclock : survey.clock ∈ calls) (hcalls : survey.calls ⊆ calls) (hlive : survey.live = [])
      (hroot : ⟨.hasRoot record.cid, .ok false⟩ ∈ calls) : Found record calls .unrecoverable
  | rescued (survey : Survey score tiers peers selfPeerId record)
      (hclock : survey.clock ∈ calls) (hcalls : survey.calls ⊆ calls) (hlive : survey.live = [])
      (hroot : ⟨.hasRoot record.cid, .ok true⟩ ∈ calls)
      (hstat : ⟨.statDag record.cid, .ok ()⟩ ∈ calls)
      (w w' : World Cid) (stored : FileRecord Cid)
      (hruns : Prog.Runs (storeSem content anyFault) (rescueOrphanedFile record) w
        (.ok (some stored)) w')
      (hkept : Kept record w stored w') : Found record calls .rescued
  | left (survey : Survey score tiers peers selfPeerId record) (hclock : survey.clock ∈ calls)
      (hcalls : survey.calls ⊆ calls) (hlive : survey.live = [])
      (hroot : ⟨.hasRoot record.cid, .ok true⟩ ∈ calls) : Found record calls .left

/-- A verdict on a released file, with the calls it rests on. -/
structure Rescue where
  record : FileRecord Cid
  calls : List (RepairCall Cid)
  verdict : RescueVerdict
  found : Found score tiers peers selfPeerId content record calls verdict

/-- What the turn of a worker may come to. -/
def rescues (record : FileRecord Cid) :
    Except (LifecycleError Cid) (Cid × RescueVerdict) → Prop := fun r =>
  ∃ calls, Prog.Trace (RepairOp.Answers content)
    (rescueCandidate score tiers peers selfPeerId record) calls r

variable {score tiers peers selfPeerId content}

/-- Nobody has the file: the calls that follow the survey. -/
theorem found_of_alone {record : FileRecord Cid} {calls : List (RepairCall Cid)}
    (survey : Survey score tiers peers selfPeerId record) (hlive : survey.live = [])
    {result : Cid × RescueVerdict}
    (h : Prog.Trace (RepairOp.Answers content) (rescueAlone record) calls (.ok result)) :
    ∃ verdict, result = (record.cid, verdict) ∧ ∀ before,
      survey.clock ∈ before → survey.calls ⊆ before →
        Found score tiers peers selfPeerId content record (before ++ calls) verdict := by
  obtain ⟨root, rest, rfl, -, h⟩ := Prog.trace_perform_bind_ok h
  have hcalls : ∀ before rest : List (RepairCall Cid), survey.calls ⊆ before →
      survey.calls ⊆ before ++ rest := fun before rest hsub =>
    List.Subset.trans hsub (List.subset_append_left ..)
  have hclock : ∀ before rest : List (RepairCall Cid), survey.clock ∈ before →
      survey.clock ∈ before ++ rest := fun before rest hmem => List.mem_append_left _ hmem
  cases root with
  | false =>
      obtain ⟨rfl, hresult⟩ := Prog.trace_pure.mp h
      cases hresult
      refine ⟨.unrecoverable, rfl, fun before hmem hsub => ?_⟩
      exact .unrecoverable survey (hclock _ _ hmem) (hcalls _ _ hsub) hlive
        (List.mem_append_right _ (.head _))
  | true =>
      have hleft : ∀ before rest : List (RepairCall Cid), survey.clock ∈ before →
          survey.calls ⊆ before → Found score tiers peers selfPeerId content record
            (before ++ ⟨.hasRoot record.cid, .ok true⟩ :: rest) .left :=
        fun before rest hmem hsub => .left survey (hclock _ _ hmem) (hcalls _ _ hsub) hlive
          (List.mem_append_right _ (.head _))
      obtain ⟨first, last, r, rfl, hkeep, hlast⟩ := Prog.trace_tryCatch.mp h
      cases r with
      | error err =>
          obtain ⟨rfl, hresult⟩ := Prog.trace_pure.mp hlast
          cases hresult
          exact ⟨.left, rfl, fun before hmem hsub => hleft _ _ hmem hsub⟩
      | ok kept =>
          obtain ⟨rfl, hresult⟩ := hlast
          cases hresult
          obtain ⟨_, rest, rfl, -, hkeep⟩ := Prog.trace_perform_bind_ok hkeep
          obtain ⟨kept, rest, rfl, ⟨w, w', hruns⟩, hkeep⟩ := Prog.trace_perform_bind_ok hkeep
          obtain ⟨rfl, hresult⟩ := Prog.trace_pure.mp hkeep
          cases hresult
          cases kept with
          | none => exact ⟨.left, rfl, fun before hmem hsub => hleft _ _ hmem hsub⟩
          | some stored =>
              have hkept := Prog.wp_iff_runs.mp (wp_rescueOrphanedFile record) _ _ hruns stored rfl
              refine ⟨.rescued, rfl, fun before hmem hsub => ?_⟩
              exact .rescued survey (hclock _ _ hmem) (hcalls _ _ hsub) hlive
                (List.mem_append_right _ (.head _)) (List.mem_append_right _ (.tail _ (.head _)))
                w w' stored hruns hkept

/-- One turn of a worker: what it says of the file is so. -/
theorem found_of_rescues {record : FileRecord Cid} {cid : Cid} {verdict : RescueVerdict}
    (h : rescues score tiers peers selfPeerId content record (.ok (cid, verdict))) :
    ∃ rescue : Rescue score tiers peers selfPeerId content, rescue.record = record ∧
      cid = record.cid ∧ rescue.verdict = verdict := by
  obtain ⟨calls, h⟩ := h
  suffices hfound : cid = record.cid ∧
      Found score tiers peers selfPeerId content record calls verdict from
    ⟨⟨record, calls, verdict, hfound.2⟩, rfl, hfound.1, rfl⟩
  obtain ⟨parsed, rest, rfl, -, h⟩ := Prog.trace_perform_bind_ok h
  obtain ⟨now, rest, rfl, -, h⟩ := Prog.trace_perform_bind_ok h
  obtain ⟨first, rest, answers, rfl, hasked, h⟩ := Prog.trace_bind_ok h
  obtain ⟨survey, rfl, rfl, hanswers⟩ := trace_survey hasked
  cases hanswers
  rw [survey.any_answers] at h
  have hcalls : ∀ a rest : List (RepairCall Cid), survey.calls ⊆ a ++ (survey.calls ++ rest) :=
    fun a rest call hmem => List.mem_append_right _ (List.mem_append_left _ hmem)
  cases hlive : survey.live with
  | cons peer live =>
      rw [hlive] at h
      obtain ⟨rfl, hresult⟩ := Prog.trace_pure.mp h
      cases hresult
      refine ⟨rfl, .held survey (.tail _ (.head _)) (hcalls [_, _] []) ?_⟩
      rw [hlive]
      exact List.cons_ne_nil _ _
  | nil =>
      rw [hlive] at h
      obtain ⟨verdict, hresult, hfound⟩ := found_of_alone survey hlive h
      cases hresult
      exact ⟨rfl, hfound (⟨.parseCid record.cid, .ok parsed⟩ :: survey.clock :: survey.calls)
        (.tail _ (.head _)) fun call hmem => .tail _ (.tail _ hmem)⟩

end Pool

/-! ## The pass as a whole -/

section Pass

variable {Cid : Type} [LinearOrder Cid] (score : Score Cid) (tiers : List PlacementTier)
variable (peers : List ReplicationPeer) (selfPeerId : PeerId) (content : Content Cid)

/-- The states of the workers that take the released files of the batch. -/
abbrev RescueReach (repairProbeConcurrency : Nat) (records : List (FileRecord Cid)) :
    WorkerPool.State (Cid × RescueVerdict) → Prop :=
  WorkerPool.Reach (records.filter isReleased) (rescues score tiers peers selfPeerId content)
    (min repairProbeConcurrency (records.filter isReleased).length)

/-- How a pass over a batch ends, with the calls of its walk. -/
inductive RepairPassEnds (repairProbeConcurrency : Nat) (records : List (FileRecord Cid)) :
    List (RepairCall Cid) → Except (LifecycleError Cid) (RepairLists Cid) → Prop
  | walkFailed {calls err}
      (h : Prog.Trace (RepairOp.Answers content)
        (repairEach score tiers peers selfPeerId (.start records.length) records) calls
        (.error err)) :
      RepairPassEnds repairProbeConcurrency records calls (.error err)
  | rescueFailed {calls report s index record err}
      (h : Prog.Trace (RepairOp.Answers content)
        (repairEach score tiers peers selfPeerId (.start records.length) records) calls
        (.ok report))
      (hreach : RescueReach score tiers peers selfPeerId content repairProbeConcurrency records s)
      (hfailed : .failed index ∈ s.workers)
      (hrecord : (records.filter isReleased)[index]? = some record)
      (herr : rescues score tiers peers selfPeerId content record (.error err)) :
      RepairPassEnds repairProbeConcurrency records calls (.error err)
  | returned {calls report s}
      (h : Prog.Trace (RepairOp.Answers content)
        (repairEach score tiers peers selfPeerId (.start records.length) records) calls
        (.ok report))
      (hreach : RescueReach score tiers peers selfPeerId content repairProbeConcurrency records s)
      (hsettled : ∀ worker ∈ s.workers, worker.Settled)
      (hok : ∀ index, .failed index ∉ s.workers) :
      RepairPassEnds repairProbeConcurrency records calls (.ok (report.withRescue (rescueReport s)))

/-- The released files with a verdict, sorted. -/
def Rescue.withVerdict (verdict : RescueVerdict)
    (found : List (Rescue score tiers peers selfPeerId content)) : List Cid :=
  ((found.filter (·.verdict = verdict)).map (·.record.cid)).insertionSort (· ≤ ·)

/-- Everything a report says is so. -/
structure RepairLists.Honest (report : RepairLists Cid) (records : List (FileRecord Cid))
    (calls : List (RepairCall Cid)) : Prop where
  examined : report.examined = records.length
  /-- One claim for every file that was checked. -/
  checked : report.checked = grants calls
  underReplicated : report.underReplicated = report.repaired.length + report.stillMissing.length
  /-- Each file of the batch has one verdict, and the report lists the verdicts. -/
  walked : ∃ walk : List (Examination score tiers peers selfPeerId),
    walk.map (·.record) = records ∧ calls = walk.flatMap (·.calls) ∧
      report.repaired = Examination.withVerdict .repaired walk ∧
      report.stillMissing = Examination.withVerdict .stillMissing walk
  releasedChecked : report.releasedChecked = (records.filter isReleased).length
  /-- So has each released file, in whatever order the workers took them. -/
  rescued : ∃ found : List (Rescue score tiers peers selfPeerId content),
    found.map (·.record) = records.filter isReleased ∧
      report.rescued = Rescue.withVerdict score tiers peers selfPeerId content .rescued found ∧
      report.unrecoverable =
        Rescue.withVerdict score tiers peers selfPeerId content .unrecoverable found

variable {score tiers peers selfPeerId content}
variable {records : List (FileRecord Cid)} {calls : List (RepairCall Cid)}

/-- Verdicts on files taken in turn are found. -/
theorem exists_found {results : List (Cid × RescueVerdict)}
    (h : List.Forall₂ (fun record result =>
      rescues score tiers peers selfPeerId content record (.ok result)) records results) :
    ∃ found : List (Rescue score tiers peers selfPeerId content),
      found.map (·.record) = records ∧
        found.map (fun rescue => (rescue.record.cid, rescue.verdict)) = results := by
  induction h with
  | nil => exact ⟨[], rfl, rfl⟩
  | @cons record result records results hrecord _ ih =>
      obtain ⟨found, rfl, rfl⟩ := ih
      obtain ⟨cid, verdict⟩ := result
      obtain ⟨rescue, rfl, rfl, rfl⟩ := found_of_rescues hrecord
      exact ⟨rescue :: found, rfl, rfl⟩

/-- The report does not depend on which of the workers is done first. -/
theorem listed_perm {verdict : RescueVerdict} {results results' : List (Cid × RescueVerdict)}
    (h : results.Perm results') : listed verdict results = listed verdict results' := by
  refine List.Perm.eq_of_pairwise' (List.pairwise_insertionSort _ _)
    (List.pairwise_insertionSort _ _) ?_
  exact (List.perm_insertionSort _ _).trans
    (((h.filter _).map _).trans (List.perm_insertionSort _ _).symm)

theorem listed_found (verdict : RescueVerdict)
    (found : List (Rescue score tiers peers selfPeerId content)) :
    listed verdict (found.map fun rescue => (rescue.record.cid, rescue.verdict)) =
      Rescue.withVerdict score tiers peers selfPeerId content verdict found := by
  unfold listed Rescue.withVerdict
  rw [List.filter_map, List.map_map]
  rfl

/-- What the workers report when all of them are done. -/
theorem rescueReport_settled {repairProbeConcurrency : Nat}
    (hconcurrency : 0 < repairProbeConcurrency)
    {s : WorkerPool.State (Cid × RescueVerdict)}
    (hreach : RescueReach score tiers peers selfPeerId content repairProbeConcurrency records s)
    (hsettled : ∀ worker ∈ s.workers, worker.Settled)
    (hok : ∀ index, .failed index ∉ s.workers) :
    (rescueReport s).checked = (records.filter isReleased).length ∧
      ∃ found : List (Rescue score tiers peers selfPeerId content),
        found.map (·.record) = records.filter isReleased ∧ ∀ verdict,
          listed verdict (s.finished.map Prod.snd) =
            Rescue.withVerdict score tiers peers selfPeerId content verdict found := by
  have hwidth : records.filter isReleased ≠ [] →
      0 < min repairProbeConcurrency (records.filter isReleased).length := fun hne =>
    lt_min hconcurrency (List.length_pos_iff.mpr hne)
  obtain ⟨hall, results, hresults, hperm⟩ :=
    (WorkerPool.accounted hreach).sequential hsettled hok hwidth
  obtain ⟨found, hfound, rfl⟩ := exists_found hresults
  refine ⟨hall, found, hfound, fun verdict => ?_⟩
  rw [listed_perm hperm, listed_found]

/-- A pass over a batch: what it does to a record is done under a claim, which is
given back also when the pass fails, and everything its report says is so. -/
theorem repair_pass_honest {repairProbeConcurrency : Nat}
    (hconcurrency : 0 < repairProbeConcurrency)
    {result : Except (LifecycleError Cid) (RepairLists Cid)}
    (h : RepairPassEnds score tiers peers selfPeerId content repairProbeConcurrency records calls
      result) :
    Claims none calls none ∧ ∀ report, result = .ok report →
      report.Honest score tiers peers selfPeerId content records calls := by
  cases h with
  | walkFailed h => exact ⟨(trace_repairEach h).1, fun report hreport => by cases hreport⟩
  | rescueFailed h => exact ⟨(trace_repairEach h).1, fun report hreport => by cases hreport⟩
  | returned h hreach hsettled hok =>
      obtain ⟨hclaims, hwalk⟩ := trace_repairEach h
      refine ⟨hclaims, fun report hreport => ?_⟩
      cases hreport
      obtain ⟨walk, hrecords, hcalls, rfl⟩ := hwalk _ rfl
      obtain ⟨hchecked, found, hfound, hlisted⟩ :=
        rescueReport_settled hconcurrency hreach hsettled hok
      have hgrows := grows_foldl walk (.start records.length)
      have hrepaired := hgrows.repaired
      have hmissing := hgrows.stillMissing
      refine
        { examined := hgrows.examined
          checked := ?_
          underReplicated := ?_
          walked := ⟨walk, hrecords, hcalls, hrepaired, hmissing⟩
          releasedChecked := hchecked
          rescued := ⟨found, hfound, hlisted _, hlisted _⟩ }
      · exact hgrows.checked.trans ((Nat.zero_add _).trans (hcalls ▸ rfl))
      · refine hgrows.underReplicated.trans ((Nat.zero_add _).trans ?_)
        exact congrArg₂ (· + ·) (congrArg List.length hrepaired).symm
          (congrArg List.length hmissing).symm

end Pass

namespace LostFile

/-- A file the node released, and no peer has. -/
def file : FileRecord Nat :=
  { cid := 7, name := "file", state := .confirmed, createdAt := 0, expiresAt := none
    confirmedAt := some 0, fileSize := 1, storedBytes := 1, protectedBytes := none
    pinned := false, heldLocally := false, replicas := ["second"], admissionId := none
    admissionSettledAt := none, replicaStage := none, revision := some 0 }

def peers : List ReplicationPeer := [⟨"second", "b"⟩]

def tiers : List PlacementTier := [⟨0, 2⟩]

/-- A peer that cannot be reached, and no block. -/
def answer : (o : RepairOp Nat) → Except (LifecycleError Nat) o.Ret
  | .now => .ok (5 : Nat)
  | .process => .ok (World.empty : World Nat).proc
  | .parseCid _ | .releaseRepairRecord _ => .ok ()
  | .hasRoot _ => .ok false
  | _ => .error .io

def walk : List (RepairCall Nat) × Except (LifecycleError Nat) (RepairLists Nat) :=
  Prog.answering answer (repairEach (fun _ _ => 0) tiers peers "a" (.start 1) [file])

def turn : List (RepairCall Nat) × Except (LifecycleError Nat) (Nat × RescueVerdict) :=
  Prog.answering answer (rescueCandidate (fun _ _ => 0) tiers peers "a" file)

/-- The worker when it is done. -/
def settled : WorkerPool.State (Nat × RescueVerdict) := ⟨1, [.done], [(0, (7, .unrecoverable))]⟩

/-- The registry is not asked. -/
def Unasked : RepairOp Nat → Prop
  | .claimRepairRecord _ | .setReplicas .. | .clearSettledAdmission _ => False
  | .rescueOrphanedFile _ => False
  | _ => True

theorem answers_answer {o : RepairOp Nat} (h : Unasked o) :
    RepairOp.Answers Content.flat o (answer o) := by
  cases o with
  | now | process | releaseRepairRecord cid => exact ⟨_, rfl⟩
  | probeHave peer cid | replicateFile cid | parseCid cid | hasRoot cid | statDag cid => trivial
  | claimRepairRecord record | setReplicas cid names | clearSettledAdmission record
  | rescueOrphanedFile record => exact h.elim

theorem unasked_walk : ∀ call ∈ walk.1, Unasked call.1 := by
  have hwalk : walk.1 = [⟨.process, answer .process⟩] := rfl
  rw [hwalk]
  intro call hmem
  rw [List.mem_singleton.mp hmem]
  trivial

theorem unasked_turn : ∀ call ∈ turn.1, Unasked call.1 := by
  have hturn : turn.1 = [⟨.parseCid 7, answer (.parseCid 7)⟩, ⟨.now, answer .now⟩,
      ⟨.probeHave ⟨"second", "b"⟩ 7, answer (.probeHave ⟨"second", "b"⟩ 7)⟩,
      ⟨.hasRoot 7, answer (.hasRoot 7)⟩] := rfl
  rw [hturn]
  intro call hmem
  simp only [List.mem_cons, List.not_mem_nil, or_false] at hmem
  rcases hmem with rfl | rfl | rfl | rfl <;> trivial

theorem reach_settled :
    RescueReach (fun _ _ => 0) tiers peers "a" Content.flat 4 [file] settled := by
  have hturn : rescues (fun _ _ => 0) tiers peers "a" Content.flat file
      (.ok (7, .unrecoverable)) :=
    ⟨turn.1, Prog.trace_answering fun call hmem => answers_answer (unasked_turn call hmem)⟩
  have htake : WorkerPool.Step ([file].filter isReleased)
      (rescues (fun _ _ => 0) tiers peers "a" Content.flat) ⟨0, [] ++ .ready :: [], []⟩
      ⟨1, [] ++ .busy 0 :: [], []⟩ := .take (by decide)
  have hfinish : WorkerPool.Step ([file].filter isReleased)
      (rescues (fun _ _ => 0) tiers peers "a" Content.flat) ⟨1, [] ++ .busy 0 :: [], []⟩
      ⟨1, [] ++ .ready :: [], [(0, (7, .unrecoverable))]⟩ := .finish rfl hturn
  have hstop : WorkerPool.Step ([file].filter isReleased)
      (rescues (fun _ _ => 0) tiers peers "a" Content.flat)
      ⟨1, [] ++ .ready :: [], [(0, (7, .unrecoverable))]⟩ settled := .stop (by decide)
  exact .tail (.tail (.tail .refl htake) hfinish) hstop

theorem pass_ends : RepairPassEnds (fun _ _ => 0) tiers peers "a" Content.flat 4 [file] walk.1
    (.ok ((RepairLists.start 1).withRescue (rescueReport settled))) := by
  have hwalk := Prog.trace_answering (p := repairEach (fun _ _ => 0) tiers peers "a" (.start 1)
    [file]) fun call hmem => answers_answer (unasked_walk call hmem)
  refine .returned hwalk reach_settled (fun worker hmem => ?_) fun index hmem => ?_
  · rw [List.mem_singleton.mp hmem]
    trivial
  · cases List.mem_singleton.mp hmem

end LostFile

open LostFile in
/-- A lost file is counted and listed. -/
theorem repair_pass_honest_lost :
    ((RepairLists.start 1).withRescue (rescueReport settled)).unrecoverable = [7] ∧
      ((RepairLists.start 1).withRescue (rescueReport settled)).Honest (fun _ _ => 0) tiers peers
        "a" Content.flat [file] walk.1 :=
  ⟨by decide, (repair_pass_honest (by decide) pass_ends).2 _ rfl⟩

end IpfsNode
