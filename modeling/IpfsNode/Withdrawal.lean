import IpfsNode.PlaceCopy
import IpfsNode.RemoteCommit
import IpfsNode.UploadRoute

/-!
# Withdrawing the copies of a rejected upload

A strict upload that ends before its local decision asks the peers to abort
what they prepared for it. Which peers are asked is read from the reports of
the placements, so two things escape it. A placement that rejects leaves the
request without any report, and the copies of the other files stay where they
are; and an attempt that is not marked although the peer kept a copy (`Forgets`)
is no reason to ask that peer.

`withdrawal_iff` says that there is no third way: over every run of the handler
that ends undecided, every peer with a copy of the transaction is sent an abort
exactly when no placement rejected and no such copy was forgotten. The
operations of the node itself are a parameter, so that whatever else the node
does between them, and whichever of them fail, is covered.
-/

namespace IpfsNode

/-! ## The network of one request -/

/-- Everything other nodes answer while one upload places its copies. -/
structure UploadNetwork (Cid : Type) where
  score : Score Cid
  selfPeerId : PeerId
  /-- The configured peers, one entry for each identity. -/
  peers : List ReplicationPeer
  config : ReplicationConfig
  /-- The clock when the copies of a file are placed. -/
  now : Cid → Nat
  /-- The read of the record with which a placement begins. -/
  createdAt : Cid → Except (LifecycleError Cid) (Option Nat)
  calls : Cid → PeerId → PlaceCalls
  cacheCalls : Cid → PeerId → CacheCalls
  /-- The copy a `stage` request left is there, and still the transaction's,
  when the request ends: a call that is in flight by then has left none yet,
  and a copy that was made durable meanwhile has another owner. -/
  kept : Cid → PeerId → Bool
  abort : Cid → ReplicationPeer → Except CallError Unit

namespace UploadNetwork

variable {Cid : Type} (net : UploadNetwork Cid)

def ageMs (cid : Cid) (createdAt : Option Nat) : Nat :=
  net.now cid - createdAt.getD (net.now cid)

/-- Place copies for an upload; only the read of the record can reject. -/
def replicateUploadedFile (cid : Cid) (transactionId : Option TransactionId) :
    Except (LifecycleError Cid) ReplicationReport := do
  let createdAt ← net.createdAt cid
  return placeUploaded net.score cid (net.ageMs cid createdAt) net.selfPeerId net.peers
    net.config transactionId (net.calls cid) (net.cacheCalls cid)

/-- The peers an abort is sent to. -/
def abortRequests (report : ReplicationReport) : List ReplicationPeer :=
  stagedPeers net.peers report true

/-- Withdraw every prepared copy; the peers that could not be reached. -/
def abortUploadedReplicas (cid : Cid) (report : ReplicationReport) :
    Except (List (String × CallError)) Unit :=
  match (net.abortRequests report).filterMap fun peer =>
      match net.abort cid peer with
      | .ok () => none
      | .error err => some (peer.name, err) with
  | [] => .ok ()
  | failures => .error failures

/-- What the handler gets from its placements and aborts. All placements run at
once, and the first one that rejects rejects all. -/
def Answers : (o : NetworkOp Cid) → Except (LifecycleError Cid) o.Ret → Prop
  | .replicate cids transactionId, .ok reports =>
      ∀ cid ∈ cids, net.replicateUploadedFile cid transactionId = .ok (reports cid)
  | .replicate cids transactionId, .error err =>
      ∃ cid ∈ cids, net.replicateUploadedFile cid transactionId = .error err
  | .abortReplicas cid _ report, .ok () => net.abortUploadedReplicas cid report = .ok ()
  | .abortReplicas cid _ report, .error _ => net.abortUploadedReplicas cid report ≠ .ok ()
  | _, _ => True

/-- The operations of the node as they are, among these peers. -/
def restrict {S : Type} (sem : Prog.Sem (NodeOp Cid) NodeOp.Ret (LifecycleError Cid) S) :
    Prog.Sem (NodeOp Cid) NodeOp.Ret (LifecycleError Cid) S
  | .run o, s, r, s' => sem (.run o) s r s'
  | .ask o, s, r, s' => sem (.ask o) s r s' ∧ net.Answers o r

end UploadNetwork

/-! ## What a request asked -/

section Log

variable {Cid S : Type}

/-- What happened in one request. -/
abbrev UploadLog (Cid S : Type) :=
  List (Prog.Pool.Event Unit (NodeOp Cid) NodeOp.Ret (LifecycleError Cid) S)

/-- The placement an event is, with its answer. -/
def placementOf :
    Prog.Pool.Event Unit (NodeOp Cid) NodeOp.Ret (LifecycleError Cid) S →
      Option (List Cid × Except (LifecycleError Cid) (Cid → ReplicationReport))
  | .request _ (.ask (.replicate cids _)) _ answer _ => some (cids, answer)
  | _ => none

/-- The abort an event is. -/
def abortOf :
    Prog.Pool.Event Unit (NodeOp Cid) NodeOp.Ret (LifecycleError Cid) S →
      Option (Cid × TransactionId × ReplicationReport)
  | .request _ (.ask (.abortReplicas cid transactionId report)) _ _ _ =>
      some (cid, transactionId, report)
  | _ => none

/-- The event records the local decision. -/
def decides :
    Prog.Pool.Event Unit (NodeOp Cid) NodeOp.Ret (LifecycleError Cid) S → Bool
  | .request _ (.run (.finalizeAdmitted ..)) _ (.ok _) _ => true
  | _ => false

/-- The local decision was recorded. -/
def LocallyDecided (log : UploadLog Cid S) : Prop := ∃ e ∈ log, decides e = true

/-- Copies of the file were asked for. -/
def Placed (log : UploadLog Cid S) (cid : Cid) : Prop :=
  ∃ placement ∈ log.filterMap placementOf, cid ∈ placement.1

namespace UploadNetwork

variable (net : UploadNetwork Cid)

/-- The placement of the file asks the peer for a copy. -/
def Asks (cid : Cid) (peerId : PeerId) : Prop :=
  net.config.enabled = true ∧ ∃ createdAt, net.createdAt cid = .ok createdAt ∧
    peerId ∈ (replicationTargets net.score cid (net.ageMs cid createdAt) net.selfPeerId
      net.peers net.config).map (·.peerId)

/-- When the request ends the peer has a copy of the file that a `stage`
request of it left, and that the transaction owns. -/
def LeftCopy (log : UploadLog Cid S) (cid : Cid) (peerId : PeerId) : Prop :=
  Placed log cid ∧ net.Asks cid peerId ∧ (net.calls cid peerId).leftCopy ∧
    net.kept cid peerId = true

/-- An abort for the file and the transaction was sent to the peer. -/
def AbortSent (transactionId : TransactionId) (log : UploadLog Cid S) (cid : Cid)
    (peerId : PeerId) : Prop :=
  ∃ report, (cid, transactionId, report) ∈ log.filterMap abortOf ∧
    peerId ∈ (net.abortRequests report).map (·.peerId)

/-- The placement of some file of the request rejects. -/
def Rejects (log : UploadLog Cid S) : Prop :=
  ∃ cid, Placed log cid ∧ ∃ err, net.createdAt cid = .error err

end UploadNetwork

end Log

/-! ## The peers an abort reaches -/

section Reach

variable {Cid : Type} {net : UploadNetwork Cid} {cid : Cid} {peerId : PeerId}
variable {transactionId : TransactionId} {report : ReplicationReport}

/-- Every marked attempt of a report is followed up. -/
theorem mem_abortRequests (hreport : ReportOver net.peers report) :
    peerId ∈ (net.abortRequests report).map (·.peerId) ↔
      ∃ attempt ∈ report.attempts, attempt.peerId = peerId ∧ attempt.staged = some true := by
  unfold UploadNetwork.abortRequests stagedPeers
  constructor
  · intro hmem
    obtain ⟨peer, hpeer, rfl⟩ := List.mem_map.mp hmem
    obtain ⟨attempt, hattempt, hfind⟩ := List.mem_filterMap.mp hpeer
    obtain ⟨hattempt, hstaged⟩ := List.mem_filter.mp hattempt
    have hid : peer.peerId = attempt.peerId := by simpa using List.find?_some hfind
    exact ⟨attempt, hattempt, hid.symm, by simpa using hstaged⟩
  · rintro ⟨attempt, hattempt, rfl, hstaged⟩
    obtain ⟨known, hknown, hid, -⟩ := hreport.peer attempt hattempt
    have hsome : (net.peers.find? (·.peerId = attempt.peerId)).isSome = true :=
      List.find?_isSome.mpr ⟨known, hknown, by simpa using hid⟩
    obtain ⟨peer, hfind⟩ := Option.isSome_iff_exists.mp hsome
    have hpid : peer.peerId = attempt.peerId := by simpa using List.find?_some hfind
    rw [← hpid]
    refine List.mem_map_of_mem (List.mem_filterMap.mpr ⟨attempt, ?_, hfind⟩)
    exact List.mem_filter.mpr ⟨hattempt, by simp [hstaged]⟩

/-- The report of a placement that resolved reaches a peer with a copy exactly
when the copy was not forgotten. -/
theorem reached_iff (hreport : net.replicateUploadedFile cid (some transactionId) = .ok report)
    (hasks : net.Asks cid peerId) (hleft : (net.calls cid peerId).leftCopy) :
    peerId ∈ (net.abortRequests report).map (·.peerId) ↔ ¬ Forgets (net.calls cid peerId) := by
  obtain ⟨henabled, createdAt, hread, htarget⟩ := hasks
  have hplaced : report = placeUploaded net.score cid (net.ageMs cid createdAt) net.selfPeerId
      net.peers net.config (some transactionId) (net.calls cid) (net.cacheCalls cid) := by
    unfold UploadNetwork.replicateUploadedFile at hreport
    rw [hread] at hreport
    exact (Except.ok.inj hreport).symm
  have hover : ReportOver net.peers report := by
    rw [hplaced]
    exact reportOver_replicate ..
  rw [mem_abortRequests hover, hplaced, exists_staged_attempt_iff, isMarked_placeCopy,
    ← marks_iff_not_forgets]
  exact ⟨fun h _ => h.2.2, fun h => ⟨henabled, htarget, h hleft⟩⟩

end Reach

/-! ## How a request ends -/

section Endings

variable {Cid S : Type} [DecidableEq Cid] {net : UploadNetwork Cid}
variable {sem : Prog.Sem (NodeOp Cid) NodeOp.Ret (LifecycleError Cid) S}
variable {request : UploadRequest Cid} {log : UploadLog Cid S}

/-- What a request asked other nodes so far. -/
structure Asked (log : UploadLog Cid S)
    (placements : List (List Cid × Except (LifecycleError Cid) (Cid → ReplicationReport)))
    (aborts : List (Cid × TransactionId × ReplicationReport)) : Prop where
  placements : log.filterMap placementOf = placements
  aborts : log.filterMap abortOf = aborts

/-- The ways a strict upload ends. -/
inductive Ending (net : UploadNetwork Cid) (request : UploadRequest Cid)
    (log : UploadLog Cid S) : Prop
  | decided (h : LocallyDecided log)
  /-- Refused before a copy was asked for. -/
  | unplaced (h : Asked log [] [])
  /-- A placement rejected, and nobody is asked to abort. -/
  | rejected {cids err} (h : Asked log [(cids, .error err)] [])
      (hanswer : net.Answers (.replicate cids request.transactionId) (.error err))
  /-- The quorum was missed or the decision failed. -/
  | withdrawn {cids reports}
      (h : Asked log [(cids, .ok reports)]
        (cids.map fun cid => (cid, request.admissionId, reports cid)))
      (hanswer : net.Answers (.replicate cids request.transactionId) (.ok reports))

omit [DecidableEq Cid] in
theorem Asked.local {placements aborts} (h : Asked log placements aborts) {o : LocalOp Cid}
    {s s' : S} {r : Except (LifecycleError Cid) o.Ret} :
    Asked (log ++ [.request () (.run o) s r s']) placements aborts := by
  refine ⟨?_, ?_⟩
  · rw [List.filterMap_append, h.placements]
    exact List.append_nil _
  · rw [List.filterMap_append, h.aborts]
    exact List.append_nil _

omit [DecidableEq Cid] in
theorem LocallyDecided.append (h : LocallyDecided log) (events : UploadLog Cid S) :
    LocallyDecided (log ++ events) := by
  obtain ⟨e, hmem, he⟩ := h
  exact ⟨e, List.mem_append_left _ hmem, he⟩

omit [DecidableEq Cid] in
/-- Operations of the node do not change how a request ended. -/
theorem Ending.local (h : Ending net request log) {o : LocalOp Cid} {s s' : S}
    {r : Except (LifecycleError Cid) o.Ret} :
    Ending net request (log ++ [.request () (.run o) s r s']) := by
  cases h with
  | decided h => exact .decided (h.append _)
  | unplaced h => exact .unplaced h.local
  | rejected h hanswer => exact .rejected h.local hanswer
  | withdrawn h hanswer => exact .withdrawn h.local hanswer

/-! ### The steps of a request -/

variable {s : S}

/-- The semantics of one request, with its log. -/
abbrev uploadSem (net : UploadNetwork Cid)
    (sem : Prog.Sem (NodeOp Cid) NodeOp.Ret (LifecycleError Cid) S) :=
  Prog.Pool.traced (net.restrict sem) ()

omit [DecidableEq Cid] in
theorem wp_local {o : LocalOp Cid} {Q : Except (LifecycleError Cid) o.Ret →
    S × UploadLog Cid S → Prop}
    (h : ∀ r s', Q r (s', log ++ [.request () (.run o) s r s'])) :
    Prog.wp (uploadSem net sem) (locked o) Q (s, log) := by
  refine Prog.wp_perform.mpr ?_
  rintro r ⟨s', log'⟩ ⟨-, hlog⟩
  obtain rfl : log' = log ++ [.request () (.run o) s r s'] := hlog
  exact h r s'

omit [DecidableEq Cid] in
theorem wp_question {o : NetworkOp Cid} {Q : Except (LifecycleError Cid) o.Ret →
    S × UploadLog Cid S → Prop}
    (h : ∀ r s', net.Answers o r → Q r (s', log ++ [.request () (.ask o) s r s'])) :
    Prog.wp (uploadSem net sem) (ask o) Q (s, log) := by
  refine Prog.wp_perform.mpr ?_
  rintro r ⟨s', log'⟩ ⟨⟨-, hanswer⟩, hlog⟩
  obtain rfl : log' = log ++ [.request () (.ask o) s r s'] := hlog
  exact h r s' hanswer

omit [DecidableEq Cid] in
/-- A recorded decision stays recorded. -/
theorem wp_decided {α : Type} (p : Job Cid α) (h : LocallyDecided log) :
    Prog.wp (uploadSem net sem) p (fun _ s' => LocallyDecided s'.2) (s, log) := by
  refine Prog.wp_iff_runs.mpr fun r s' hruns => ?_
  obtain ⟨events, hevents, -⟩ := Prog.Pool.exists_events_of_traced hruns
  rw [hevents]
  exact h.append events

omit [DecidableEq Cid] in
/-- Aborting every file leaves one request for each of them in the log. -/
theorem wp_abortEach_asked {placements aborts} {admissionId : AdmissionId}
    (h : Asked log placements aborts) (replication : Replication Cid) :
    Prog.wp (uploadSem net sem) (abortEach admissionId replication)
      (fun r s' => (∃ failures, r = .ok failures) ∧ Asked s'.2 placements
        (aborts ++ replication.map fun item => (item.1, admissionId, item.2))) (s, log) := by
  induction replication generalizing s log aborts with
  | nil => exact ⟨⟨[], rfl⟩, by simpa using h⟩
  | cons item rest ih =>
      refine Prog.wp_bind.mpr (Prog.wp_attempt.mpr (wp_question fun aborted s₁ _ => ?_))
      have hnext : Asked (log ++ [.request () (.ask (.abortReplicas item.1 admissionId item.2))
          s aborted s₁]) placements (aborts ++ [(item.1, admissionId, item.2)]) := by
        refine ⟨?_, ?_⟩
        · rw [List.filterMap_append, h.placements]
          exact List.append_nil _
        · rw [List.filterMap_append, h.aborts]
          rfl
      refine Prog.wp_bind.mpr (Prog.wp_mono ?_ (ih hnext))
      rintro _ s' ⟨⟨failures, rfl⟩, hasked⟩
      refine ⟨⟨_, rfl⟩, ?_⟩
      rw [List.append_assoc] at hasked
      exact hasked

omit [DecidableEq Cid] in
theorem wp_abandonUpload_asked {placements} (h : Asked log placements [])
    (admitted : Admitted Cid) (replication : Replication Cid) :
    Prog.wp (uploadSem net sem) (abandonUpload request admitted replication)
      (fun r s' => (∃ failures, r = .ok failures) ∧ Asked s'.2 placements
        (replication.map fun item => (item.1, request.admissionId, item.2))) (s, log) := by
  refine Prog.wp_bind.mpr (Prog.wp_mono ?_ (wp_abortEach_asked h replication))
  rintro _ ⟨s₁, log₁⟩ ⟨⟨failures, rfl⟩, hasked⟩
  refine Prog.wp_bind.mpr (Prog.wp_attempt.mpr (wp_local fun undone s₂ => ?_))
  exact ⟨⟨_, rfl⟩, hasked.local⟩

/-- Once every placement has resolved, the request decides or withdraws. -/
theorem wp_decideUpload {cids : List Cid} {reports : Cid → ReplicationReport}
    (h : Asked log [(cids, .ok reports)] [])
    (hanswer : net.Answers (.replicate cids request.transactionId) (.ok reports))
    (admitted : Admitted Cid) :
    Prog.wp (uploadSem net sem)
      (decideUpload request admitted (cids.map fun cid => (cid, reports cid)))
      (fun _ s' => Ending net request s'.2) (s, log) := by
  have hwithdrawn : ∀ log' : UploadLog Cid S, Asked log' [(cids, .ok reports)]
      ((cids.map fun cid => (cid, reports cid)).map fun item =>
        (item.1, request.admissionId, item.2)) → Ending net request log' := by
    intro log' hasked
    rw [List.map_map] at hasked
    exact .withdrawn hasked hanswer
  unfold decideUpload
  split
  · refine Prog.wp_bind.mpr (Prog.wp_mono ?_ (wp_abandonUpload_asked h admitted _))
    rintro _ s' ⟨⟨failures, rfl⟩, hasked⟩
    show Prog.wp _ (if _ then _ else _) _ s'
    split <;> exact hwithdrawn _ hasked
  · refine Prog.wp_bind.mpr (Prog.wp_attempt.mpr (wp_local fun decided s₁ => ?_))
    cases decided with
    | ok finalized =>
        have hdecided : LocallyDecided (log ++ [.request () (.run (.finalizeAdmitted
            (admitted.records.map (·.cid)).eraseDups admitted.baselines
            (Replication.reports (cids.map fun cid => (cid, reports cid)))
            request.admissionId request.settledAt)) s (.ok finalized) s₁]) :=
          ⟨_, List.mem_append_right _ (List.mem_singleton.mpr rfl), rfl⟩
        refine Prog.wp_mono ?_ (wp_decided _ hdecided)
        exact fun _ _ => .decided
    | error err =>
        refine Prog.wp_bind.mpr (Prog.wp_mono ?_ (wp_abandonUpload_asked h.local admitted _))
        rintro _ s' ⟨⟨failures, rfl⟩, hasked⟩
        exact hwithdrawn _ hasked

theorem wp_placeUpload_ending (h : Asked log [] []) (admitted : Admitted Cid) :
    Prog.wp (uploadSem net sem) (placeUpload request admitted)
      (fun _ s' => Ending net request s'.2) (s, log) := by
  refine Prog.wp_bind.mpr (Prog.wp_attempt.mpr (wp_question fun placed s₁ hanswer => ?_))
  have hasked : Asked (log ++ [.request () (.ask (.replicate (durableCids admitted.records)
      request.transactionId)) s placed s₁]) [(durableCids admitted.records, placed)] [] := by
    refine ⟨?_, ?_⟩
    · rw [List.filterMap_append, h.placements]
      rfl
    · rw [List.filterMap_append, h.aborts]
      rfl
  cases placed with
  | ok reports => exact wp_decideUpload hasked hanswer admitted
  | error err =>
      -- the placements that resolved are lost with the one that rejected
      refine Prog.wp_bind.mpr (Prog.wp_attempt.mpr (wp_local fun undone s₂ => ?_))
      cases undone <;> exact .rejected hasked.local hanswer

theorem wp_handleUpload_ending (h : Asked log [] []) :
    Prog.wp (uploadSem net sem) (handleUpload request)
      (fun _ s' => Ending net request s'.2) (s, log) := by
  unfold handleUpload
  split
  · exact .unplaced h
  · split
    · exact .unplaced h
    · refine Prog.wp_bind.mpr (wp_local fun admitted s₁ => ?_)
      cases admitted with
      | error err => exact .unplaced h.local
      | ok admitted => exact wp_placeUpload_ending h.local admitted

theorem wp_uploadHandler_ending :
    Prog.wp (uploadSem net sem) (uploadHandler request)
      (fun _ s' => Ending net request s'.2) (s, []) := by
  have hstart : Asked ([] : UploadLog Cid S) [] [] := ⟨rfl, rfl⟩
  refine Prog.wp_bind.mpr (wp_local fun begun s₁ => ?_)
  cases begun with
  | error err => exact .unplaced hstart.local
  | ok _ =>
      refine Prog.wp_bind.mpr (Prog.wp_attempt.mpr (Prog.wp_mono ?_
        (wp_handleUpload_ending hstart.local)))
      rintro result ⟨s₂, log₂⟩ hending
      refine Prog.wp_bind.mpr (wp_local fun ended s₃ => ?_)
      cases ended with
      | error err => exact hending.local
      | ok _ => exact Prog.wp_ofExcept.mpr hending.local

/-- A strict upload that ends before its local decision has sent an abort to
every peer that holds a copy of its transaction, if and only if it left no such
copy behind a placement that rejected or an attempt that forgot it. -/
theorem withdrawal_iff (net : UploadNetwork Cid)
    (sem : Prog.Sem (NodeOp Cid) NodeOp.Ret (LifecycleError Cid) S)
    (request : UploadRequest Cid) (hstrict : request.requireQuorumOnUpload = true)
    {s s' : S} {log : UploadLog Cid S}
    {r : Except (LifecycleError Cid) (UploadResponse Cid)}
    (hruns : Prog.Runs (uploadSem net sem) (uploadHandler request) (s, []) r (s', log))
    (hundecided : ¬ LocallyDecided log) :
    (∀ cid peerId, net.LeftCopy log cid peerId →
        net.AbortSent request.admissionId log cid peerId) ↔
      ∀ cid peerId, net.LeftCopy log cid peerId →
        ¬ net.Rejects log ∧ ¬ Forgets (net.calls cid peerId) := by
  have htransaction : request.transactionId = some request.admissionId := if_pos hstrict
  have hending : Ending net request log :=
    Prog.wp_iff_runs.mp wp_uploadHandler_ending r (s', log) hruns
  refine forall_congr' fun cid => forall_congr' fun peerId => forall_congr' fun hleft => ?_
  obtain ⟨placement, hplacement, hcid⟩ := hleft.1
  cases hending with
  | decided h => exact absurd h hundecided
  | unplaced h =>
      rw [h.placements] at hplacement
      cases hplacement
  | @rejected cids err h hanswer =>
      have hrejects : net.Rejects log := by
        obtain ⟨cid', hmem, herr⟩ := hanswer
        refine ⟨cid', ⟨_, by rw [h.placements]; exact List.mem_singleton.mpr rfl, hmem⟩, err, ?_⟩
        cases hread : net.createdAt cid' with
        | error e =>
            rw [UploadNetwork.replicateUploadedFile, hread] at herr
            cases herr
            rfl
        | ok createdAt =>
            rw [UploadNetwork.replicateUploadedFile, hread] at herr
            cases herr
      refine iff_of_false ?_ fun hnot => hnot.1 hrejects
      rintro ⟨report, hmem, -⟩
      rw [h.aborts] at hmem
      cases hmem
  | @withdrawn cids reports h hanswer =>
      rw [h.placements, List.mem_singleton] at hplacement
      subst hplacement
      have hcid : cid ∈ cids := hcid
      have hresolves : ¬ net.Rejects log := by
        rintro ⟨cid', ⟨placement, hmem, hcid'⟩, err, hread⟩
        rw [h.placements, List.mem_singleton] at hmem
        subst hmem
        have hok := hanswer cid' hcid'
        rw [UploadNetwork.replicateUploadedFile, hread] at hok
        cases hok
      have hreport := hanswer cid hcid
      rw [htransaction] at hreport
      have hsent : net.AbortSent request.admissionId log cid peerId ↔
          peerId ∈ (net.abortRequests (reports cid)).map (·.peerId) := by
        unfold UploadNetwork.AbortSent
        rw [h.aborts]
        constructor
        · rintro ⟨report, hmem, hpeer⟩
          obtain ⟨cid', -, heq⟩ := List.mem_map.mp hmem
          cases heq
          exact hpeer
        · exact fun hpeer => ⟨_, List.mem_map.mpr ⟨cid, hcid, rfl⟩, hpeer⟩
      rw [hsent, reached_iff hreport hleft.2.1 hleft.2.2.1]
      exact ⟨fun hkeeps => ⟨hresolves, hkeeps⟩, fun hboth => hboth.2⟩

end Endings

/-! ## Executed requests -/

namespace UploadNetwork

section Execution

variable {Cid : Type} [DecidableEq Cid] (net : UploadNetwork Cid)

/-- Why the placement of a file rejects. -/
def rejection (cid : Cid) : Option (LifecycleError Cid) :=
  match net.createdAt cid with
  | .ok _ => none
  | .error err => some err

/-- The answer of the network; of several rejections, that of the first file. -/
def answer : (o : NetworkOp Cid) → Except (LifecycleError Cid) o.Ret
  | .replicate cids transactionId =>
      match cids.findSome? net.rejection with
      | some err => .error err
      | none => .ok fun cid =>
          placeUploaded net.score cid (net.ageMs cid (net.createdAt cid).toOption.join)
            net.selfPeerId net.peers net.config transactionId (net.calls cid)
            (net.cacheCalls cid)
  | .abortReplicas cid _ report =>
      match net.abortUploadedReplicas cid report with
      | .ok () => .ok ()
      | .error _ => .error .io
  | _ => .error .io

/-- The node on which nothing fails, among these peers. -/
def exec (content : Content Cid) :
    (o : NodeOp Cid) → World Cid → Except (LifecycleError Cid) o.Ret × World Cid
  | .run o, w => Prog.run (serve content) o.body w
  | .ask o, w => (net.answer o, w)

omit [DecidableEq Cid] in
theorem answers_answer (o : NetworkOp Cid) : net.Answers o (net.answer o) := by
  cases o with
  | replicate cids transactionId =>
      show net.Answers _ (match cids.findSome? net.rejection with | some err => _ | none => _)
      cases hfind : cids.findSome? net.rejection with
      | some err =>
          obtain ⟨cid, hmem, hrejects⟩ := List.exists_of_findSome?_eq_some hfind
          refine ⟨cid, hmem, ?_⟩
          unfold rejection at hrejects
          cases hread : net.createdAt cid with
          | ok createdAt => simp [hread] at hrejects
          | error e =>
              rw [hread] at hrejects
              cases hrejects
              rw [replicateUploadedFile, hread]
              rfl
      | none =>
          intro cid hmem
          have hresolves := List.findSome?_eq_none_iff.mp hfind cid hmem
          unfold rejection at hresolves
          cases hread : net.createdAt cid with
          | error e => simp [hread] at hresolves
          | ok createdAt =>
              rw [replicateUploadedFile, hread]
              show _ = Except.ok (placeUploaded net.score cid
                (net.ageMs cid (net.createdAt cid).toOption.join) _ _ _ _ _ _)
              rw [hread]
              rfl
  | abortReplicas cid transactionId report =>
      show net.Answers _ (match net.abortUploadedReplicas cid report with
        | .ok () => _ | .error _ => _)
      rcases h : net.abortUploadedReplicas cid report with failures | ⟨⟩
      · show net.abortUploadedReplicas cid report ≠ .ok ()
        rw [h]
        nofun
      · exact h
  | _ => trivial

/-- A request executed on a node that stores nothing. -/
def executed (content : Content Cid) (request : UploadRequest Cid) :
    Except (LifecycleError Cid) (UploadResponse Cid) × World Cid × UploadLog Cid (World Cid) :=
  Prog.run (Prog.Pool.tracing (net.exec content) ()) (uploadHandler request) (World.empty, [])

theorem runs_executed (content : Content Cid) (request : UploadRequest Cid) :
    Prog.Runs (uploadSem net (nodeSem content noFault)) (uploadHandler request)
      (World.empty, []) (net.executed content request).1 (net.executed content request).2 := by
  refine Prog.runs_run (fun o s => Prog.Pool.traced_tracing (fun o w => ?_) () o s) _ _
  cases o with
  | run o => exact Prog.runs_run (fun _ _ => .served) o.body w
  | ask o => exact ⟨rfl, net.answers_answer o⟩

end Execution

end UploadNetwork

namespace StrictUpload

/-- Two files, and a quorum of two copies of each. -/
def twoFiles : UploadRequest Nat where
  admissionId := "upload"
  files := [⟨1, "a.txt", 1, 1, none⟩, ⟨2, "b.txt", 1, 1, none⟩]
  claimed := true
  confirmationRequired := false
  temporaryTtlMs := 10
  requireQuorumOnUpload := true
  now := 5
  settledAt := 6

/-- One peer that stages whatever it is asked for. -/
def staging : PlaceCalls where
  first :=
    { probeHave := .ok false, probeAccept := .ok true, stage := .answered true, store := .ok () }
  recovered := false
  second :=
    { probeHave := .ok false, probeAccept := .ok true, stage := .answered true, store := .ok () }
  cache := .ok ()

/-- The read of the second record fails, and the first copy is staged. -/
def halfPlaced : UploadNetwork Nat where
  score := fun _ _ => 0
  selfPeerId := "self"
  peers := [⟨"peer", "peer"⟩]
  config := twoNodes
  now := fun _ => 5
  createdAt := fun cid => if cid = 2 then .error .io else .ok (some 5)
  calls := fun _ _ => staging
  cacheCalls := fun _ _ => ⟨.ok (), false, .ok ()⟩
  kept := fun cid _ => cid = 1
  abort := fun _ _ => .ok ()

/-- Both records are read; the first copy is staged and acknowledged, and the
answer to the second `stage` request is lost. -/
def missedQuorum : UploadNetwork Nat :=
  { halfPlaced with
    createdAt := fun _ => .ok (some 5)
    calls := fun cid _ => if cid = 2 then resetOnly else staging
    kept := fun _ _ => true }

end StrictUpload

/-- An execution that records no decision. -/
theorem not_locallyDecided {log : UploadLog Nat (World Nat)}
    (h : log.all (!decides ·) = true) : ¬ LocallyDecided log := by
  rintro ⟨e, hmem, he⟩
  simpa [he] using List.all_eq_true.mp h e hmem

open StrictUpload in
/-- The quorum is missed, and the peer is asked to give up both copies. -/
theorem withdrawal_iff_missedQuorum :
    ∃ r w' log, Prog.Runs (uploadSem missedQuorum (nodeSem Content.flat noFault))
        (uploadHandler twoFiles) (World.empty, []) r (w', log) ∧
      missedQuorum.LeftCopy log 2 "peer" ∧
      ((∀ cid peerId, missedQuorum.LeftCopy log cid peerId →
          missedQuorum.AbortSent twoFiles.admissionId log cid peerId) ↔
        ∀ cid peerId, missedQuorum.LeftCopy log cid peerId →
          ¬ missedQuorum.Rejects log ∧ ¬ Forgets (missedQuorum.calls cid peerId)) := by
  refine ⟨_, _, _, missedQuorum.runs_executed Content.flat twoFiles, ⟨?_, ?_, ?_, rfl⟩, ?_⟩
  · exact ⟨([1, 2], _), List.mem_singleton.mpr rfl, by simp⟩
  · exact ⟨rfl, some 5, rfl, by decide⟩
  · decide
  · exact withdrawal_iff missedQuorum (nodeSem Content.flat noFault) twoFiles rfl
      (missedQuorum.runs_executed Content.flat twoFiles) (not_locallyDecided (by decide))

open StrictUpload in
/-- A placement that rejects takes the report of the other file with it, and
nobody asks the peer to give up its copy. -/
theorem rejected_placement_keeps_copy :
    ∃ r w' log, Prog.Runs (uploadSem halfPlaced (nodeSem Content.flat noFault))
        (uploadHandler twoFiles) (World.empty, []) r (w', log) ∧
      ¬ LocallyDecided log ∧ halfPlaced.LeftCopy log 1 "peer" ∧
      ¬ halfPlaced.AbortSent twoFiles.admissionId log 1 "peer" := by
  refine ⟨_, _, _, halfPlaced.runs_executed Content.flat twoFiles, ?_, ⟨?_, ?_, ?_, rfl⟩, ?_⟩
  · exact @not_locallyDecided (halfPlaced.executed Content.flat twoFiles).2.2 (by decide)
  · exact ⟨([1, 2], .error .io), List.mem_singleton.mpr rfl, by simp⟩
  · exact ⟨rfl, some 5, rfl, by decide⟩
  · decide
  · rintro ⟨report, hmem, -⟩
    cases hmem

end IpfsNode
