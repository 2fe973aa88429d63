import IpfsNode.Replication
import Mathlib.Data.Finset.Card

/-!
# Committing prepared copies

After a strict upload was committed locally, every peer that prepared a copy is
asked to make it permanent. A peer whose acknowledgement is lost is asked
whether it holds the file. The upload is acknowledged when enough machines hold
a permanent copy.

The machines are counted by their display names, which a configuration may use
twice: `commit_counts_peers_iff` says that the count is the number of durable
peers exactly while their names differ, or while there are too few of them
anyway.
-/

namespace IpfsNode

/-- How the commit of one copy fails. -/
inductive CommitError where
  | refused (err : CallError)
  | unverified (node : String) (commitError probeError : CallError)
deriving DecidableEq, Repr

def CommitError.message : CommitError → String
  | .refused err => err.message
  | .unverified node _ _ => "Replica commit and verification failed on " ++ node

/-- A commit that reached too few machines. -/
structure CommitQuorumError where
  failures : List (String × CommitError)
  acknowledged : Nat
  required : Nat
deriving DecidableEq, Repr

def CommitQuorumError.message (err : CommitQuorumError) (cid : String) : String :=
  "Committed replica quorum not reached for " ++ cid ++ ": " ++ toString err.acknowledged
    ++ "/" ++ toString err.required

/-- What each peer answers to `commit`, and to `have` after a failed commit. -/
structure CommitAnswers where
  commit : ReplicationPeer → Except CallError Unit
  probeHave : ReplicationPeer → Except CallError Bool

/-! ## The service -/

/-- Peers whose copies still belong to the transaction. -/
def stagedPeers (peers : List ReplicationPeer) (report : ReplicationReport)
    (includeFailed : Bool) : List ReplicationPeer :=
  (report.attempts.filter fun attempt => attempt.staged = some true
      && (includeFailed || (attempt.ok && attempt.outcome = some .stored))).filterMap
    fun attempt => peers.find? (·.peerId = attempt.peerId)

/-- Commit one copy; the name of the peer when it is permanent. -/
def commitPeer (answers : CommitAnswers) (peer : ReplicationPeer) :
    Except CommitError String :=
  match answers.commit peer with
  | .ok () => .ok peer.name
  | .error commitError =>
      match answers.probeHave peer with
      | .ok true => .ok peer.name
      | .ok false => .error (.refused commitError)
      | .error probeError => .error (.unverified peer.name commitError probeError)

/-- The nodes that hold a permanent copy without a commit. -/
def stableNodes (report : ReplicationReport) : List String :=
  (report.attempts.filter fun attempt => attempt.ok && attempt.outcome = some .stored
    && attempt.staged ≠ some true).map (·.node)

def committedNodes (answers : CommitAnswers) (peers : List ReplicationPeer) : List String :=
  peers.filterMap fun peer => (commitPeer answers peer).toOption

def verifiedReport (report : ReplicationReport) (committed : List String) :
    ReplicationReport :=
  let replicas := (stableNodes report ++ committed).eraseDups
  { report with
    replicas
    acknowledged := replicas.length + 1
    satisfied := report.required ≤ replicas.length + 1 }

/-- Make enough prepared copies permanent to preserve the quorum of the upload. -/
def commitUploadedReplicas (peers : List ReplicationPeer) (answers : CommitAnswers)
    (report : ReplicationReport) : Except CommitQuorumError ReplicationReport :=
  let staged := stagedPeers peers report false
  let verified := verifiedReport report (committedNodes answers staged)
  if verified.satisfied then .ok verified
  else .error
    { failures := staged.filterMap fun peer =>
        match commitPeer answers peer with
        | .ok _ => none
        | .error err => some (peer.name, err)
      acknowledged := verified.acknowledged
      required := verified.required }

/-! ## Reports over peers -/

/-- A placement report over configured peers: one attempt for each of them. -/
structure ReportOver (peers : List ReplicationPeer) (report : ReplicationReport) : Prop where
  distinct : (report.attempts.map (·.peerId)).Nodup
  peer : ∀ attempt ∈ report.attempts, ∃ peer ∈ peers,
    peer.peerId = attempt.peerId ∧ peer.name = attempt.node

/-- The peer of the attempt was proved durable: its copy was unstaged, or it
acknowledged the commit, or it holds the file after a failed one. -/
def ProvedDurable (peers : List ReplicationPeer) (answers : CommitAnswers)
    (attempt : ReplicationAck) : Prop :=
  attempt.ok = true ∧ attempt.outcome = some .stored ∧
    (attempt.staged ≠ some true ∨ ∃ peer ∈ peers, peer.peerId = attempt.peerId ∧
      (answers.commit peer = .ok () ∨ answers.probeHave peer = .ok true))

instance (peers : List ReplicationPeer) (answers : CommitAnswers) (attempt : ReplicationAck) :
    Decidable (ProvedDurable peers answers attempt) :=
  inferInstanceAs (Decidable (_ ∧ _))

def durableAttempts (peers : List ReplicationPeer) (answers : CommitAnswers)
    (report : ReplicationReport) : List ReplicationAck :=
  report.attempts.filter (ProvedDurable peers answers)

/-- The machines proved durable. -/
def durablePeers (peers : List ReplicationPeer) (answers : CommitAnswers)
    (report : ReplicationReport) : Finset PeerId :=
  ((durableAttempts peers answers report).map (·.peerId)).toFinset

/-- The ids of what is found under a list of ids are some of these. -/
theorem map_filterMap_find_sublist (peers : List ReplicationPeer) (ids : List PeerId) :
    ((ids.filterMap fun peerId => peers.find? (·.peerId = peerId)).map (·.peerId)).Sublist
      ids := by
  induction ids with
  | nil => exact List.Sublist.refl _
  | cons peerId ids ih =>
      cases hfind : peers.find? (·.peerId = peerId) with
      | none =>
          rw [List.filterMap_cons, hfind]
          exact ih.cons _
      | some peer =>
          have hid : peer.peerId = peerId := by simpa using List.find?_some hfind
          rw [List.filterMap_cons, hfind]
          exact hid ▸ ih.cons_cons _

/-- What `replicate` reports is a report over the configured peers. -/
theorem reportOver_replicate {Cid : Type} (score : Score Cid) (cid : Cid) (ageMs : Nat)
    (selfPeerId : PeerId) (peers : List ReplicationPeer) (config : ReplicationConfig)
    (store : ReplicationPeer → Except CallError ReplicationStoreResult)
    (cacheOnly : Option (ReplicationPeer → Except CallError Unit)) :
    ReportOver peers (replicate score cid ageMs selfPeerId peers config store cacheOnly) := by
  set targets := replicationTargets score cid ageMs selfPeerId peers config with htargets
  set widening := wideningPeers score cid ageMs selfPeerId peers config with hwidening
  have hstored : (targets.map (·.peerId)).Nodup :=
    (List.filter_sublist.map _).nodup nodup_distinctPeers
  have hranked : (((rankHolders score cid ((distinctPeers peers selfPeerId).map
      (·.peerId))).filter (· ∉ targets.map (·.peerId))).take CACHE_WIDENING).Sublist
      (rankHolders score cid ((distinctPeers peers selfPeerId).map (·.peerId))) :=
    (List.take_sublist _ _).trans List.filter_sublist
  have hsub := map_filterMap_find_sublist (distinctPeers peers selfPeerId)
    (((rankHolders score cid ((distinctPeers peers selfPeerId).map
      (·.peerId))).filter (· ∉ targets.map (·.peerId))).take CACHE_WIDENING)
  have hwidened : (widening.map (·.peerId)).Nodup :=
    (hsub.trans hranked).nodup
      ((List.perm_insertionSort _ _).nodup_iff.mpr nodup_distinctPeers)
  have huntried : ∀ peerId ∈ widening.map (·.peerId), peerId ∉ targets.map (·.peerId) := by
    intro peerId hmem
    have := List.mem_of_mem_take (hsub.subset hmem)
    simpa using (List.mem_filter.mp this).2
  have hknown : ∀ peer ∈ widening, peer ∈ peers := by
    intro peer hmem
    obtain ⟨peerId, -, hfind⟩ := List.mem_filterMap.mp hmem
    exact (mem_distinctPeers (List.mem_of_find?_eq_some hfind)).1
  have hids : ((targets.map fun peer => storeAttempt peer (store peer)).map (·.peerId))
      = targets.map (·.peerId) := by
    rw [List.map_map]
    exact List.map_congr_left fun peer _ => storeAttempt_peerId ..
  have hover : ∀ (report : ReplicationReport) (answers : List ReplicationAck),
      report.attempts = (targets.map fun peer => storeAttempt peer (store peer)) ++ answers →
      (answers.map (·.peerId)).Sublist (widening.map (·.peerId)) →
      (∀ attempt ∈ answers, ∃ peer ∈ widening,
        peer.peerId = attempt.peerId ∧ peer.name = attempt.node) →
      ReportOver peers report := by
    intro report answers hattempts hsublist hnamed
    constructor
    · rw [hattempts, List.map_append, hids, List.nodup_append]
      refine ⟨hstored, hsublist.nodup hwidened, ?_⟩
      rintro peerId htarget other hwide rfl
      exact huntried _ (hsublist.subset hwide) htarget
    · intro attempt hmem
      rw [hattempts] at hmem
      rcases List.mem_append.mp hmem with hmem | hmem
      · obtain ⟨peer, hpeer, rfl⟩ := List.mem_map.mp hmem
        exact ⟨peer, mem_peers_of_mem_targets hpeer, (storeAttempt_peerId ..).symm,
          (storeAttempt_node ..).symm⟩
      · obtain ⟨peer, hpeer, hid, hname⟩ := hnamed attempt hmem
        exact ⟨peer, hknown peer hpeer, hid, hname⟩
  have hnobody : ∀ report : ReplicationReport,
      report.attempts = (targets.map fun peer => storeAttempt peer (store peer)) ++ [] →
      ReportOver peers report := fun report hattempts =>
    hover report [] hattempts (List.nil_sublist _) fun attempt hmem => by cases hmem
  unfold replicate
  by_cases hdisabled : (!config.enabled) = true
  · rw [if_pos hdisabled]
    exact ⟨List.nodup_nil, fun attempt hmem => by cases hmem⟩
  rw [if_neg hdisabled]
  cases cacheOnly with
  | none => exact hnobody _ rfl
  | some cacheOnly =>
      dsimp only
      split
      · refine hover _ (widening.map fun peer => cacheAttempt peer (cacheOnly peer)) rfl ?_ ?_
        · rw [List.map_map]
          have : ((·.peerId) ∘ fun peer => cacheAttempt peer (cacheOnly peer))
              = ReplicationPeer.peerId := funext fun peer => cacheAttempt_peerId ..
          rw [this]
        · intro attempt hmem
          obtain ⟨peer, hpeer, rfl⟩ := List.mem_map.mp hmem
          exact ⟨peer, hpeer, (cacheAttempt_peerId ..).symm, (cacheAttempt_node ..).symm⟩
      · exact hnobody _ rfl

section Counting

variable {α : Type} [DecidableEq α]

theorem length_eraseDups (l : List α) : l.eraseDups.length = l.toFinset.card := by
  rw [← List.toFinset_card_of_nodup (nodup_eraseDups l)]
  congr 1
  ext a
  simp

/-- As many values as entries means that no value comes twice. -/
theorem card_toFinset_eq_length_iff (l : List α) : l.toFinset.card = l.length ↔ l.Nodup :=
  Multiset.toFinset_card_eq_card_iff_nodup

end Counting

section Commit

variable {peers : List ReplicationPeer} {answers : CommitAnswers} {report : ReplicationReport}

theorem commitPeer_ok_iff {peer : ReplicationPeer} {node : String} :
    commitPeer answers peer = .ok node ↔ node = peer.name ∧
      (answers.commit peer = .ok () ∨ answers.probeHave peer = .ok true) := by
  unfold commitPeer
  rcases hcommit : answers.commit peer with err | ⟨⟩
  · rcases hhave : answers.probeHave peer with err | _ | _ <;> simp [eq_comm]
  · simp [eq_comm]

/-- A configured peer is found under its identity. -/
theorem find_peer (hpeers : (peers.map (·.peerId)).Nodup) {peer : ReplicationPeer}
    (hmem : peer ∈ peers) : peers.find? (·.peerId = peer.peerId) = some peer := by
  induction peers with
  | nil => cases hmem
  | cons first rest ih =>
      rw [List.map_cons, List.nodup_cons] at hpeers
      rcases List.mem_cons.mp hmem with rfl | hmem
      · simp
      · have hne : first.peerId ≠ peer.peerId := fun heq =>
          hpeers.1 (heq ▸ List.mem_map_of_mem hmem)
        rw [List.find?_cons_of_neg (by simpa using hne)]
        exact ih hpeers.2 hmem

/-- The names the code counts are those of the machines proved durable. -/
theorem mem_replicas_iff (hpeers : (peers.map (·.peerId)).Nodup)
    (hreport : ReportOver peers report) {node : String} :
    node ∈ stableNodes report ++ committedNodes answers (stagedPeers peers report false) ↔
      node ∈ (durableAttempts peers answers report).map (·.node) := by
  have hfind : ∀ attempt ∈ report.attempts, ∃ peer ∈ peers, peer.name = attempt.node ∧
      peer.peerId = attempt.peerId ∧ peers.find? (·.peerId = attempt.peerId) = some peer := by
    intro attempt hmem
    obtain ⟨peer, hpeer, hid, hname⟩ := hreport.peer attempt hmem
    exact ⟨peer, hpeer, hname, hid, hid ▸ find_peer hpeers hpeer⟩
  have hunique : ∀ peer ∈ peers, ∀ other ∈ peers, peer.peerId = other.peerId →
      peer = other := by
    intro peer hpeer other hother hid
    have h := find_peer hpeers hpeer
    rw [hid, find_peer hpeers hother] at h
    exact (Option.some.inj h).symm
  rw [List.mem_append]
  constructor
  · rintro (hstable | hcommitted)
    · obtain ⟨attempt, hattempt, rfl⟩ := List.mem_map.mp hstable
      obtain ⟨hmem, hcond⟩ := List.mem_filter.mp hattempt
      simp only [Bool.and_eq_true, decide_eq_true_eq] at hcond
      refine List.mem_map_of_mem (List.mem_filter.mpr ⟨hmem, ?_⟩)
      exact decide_eq_true ⟨hcond.1.1, hcond.1.2, .inl hcond.2⟩
    · obtain ⟨peer, hstaged, hok⟩ := List.mem_filterMap.mp hcommitted
      obtain ⟨attempt, hattempt, hpeer⟩ := List.mem_filterMap.mp hstaged
      obtain ⟨hmem, hcond⟩ := List.mem_filter.mp hattempt
      simp only [Bool.and_eq_true, Bool.false_or, decide_eq_true_eq] at hcond
      obtain ⟨peer', hpeer', hname, hid, hfound⟩ := hfind attempt hmem
      rw [hfound] at hpeer
      obtain rfl := Option.some.inj hpeer
      cases hresult : commitPeer answers peer' with
      | error err =>
          rw [hresult] at hok
          cases hok
      | ok name =>
          rw [hresult] at hok
          cases hok
          obtain ⟨rfl, hproof⟩ := commitPeer_ok_iff.mp hresult
          rw [hname]
          refine List.mem_map_of_mem (List.mem_filter.mpr ⟨hmem, ?_⟩)
          exact decide_eq_true ⟨hcond.2.1, hcond.2.2, .inr ⟨peer', hpeer', hid, hproof⟩⟩
  · intro hnode
    obtain ⟨attempt, hattempt, rfl⟩ := List.mem_map.mp hnode
    obtain ⟨hmem, hproved⟩ := List.mem_filter.mp hattempt
    obtain ⟨hok, hstored, hproof⟩ := of_decide_eq_true hproved
    by_cases hstaged : attempt.staged = some true
    · right
      obtain ⟨other, hother, hid, hproof⟩ := hproof.resolve_left fun h => h hstaged
      obtain ⟨peer, hpeer, hname, hpid, hfound⟩ := hfind attempt hmem
      obtain rfl := hunique peer hpeer other hother (hpid.trans hid.symm)
      refine List.mem_filterMap.mpr ⟨peer, List.mem_filterMap.mpr ⟨attempt, ?_, hfound⟩, ?_⟩
      · exact List.mem_filter.mpr ⟨hmem, by simp [hstaged, hok, hstored]⟩
      · rw [commitPeer_ok_iff.mpr ⟨rfl, hproof⟩, hname]
        rfl
    · left
      exact List.mem_map_of_mem (List.mem_filter.mpr ⟨hmem, by simp [hstaged, hok, hstored]⟩)

theorem card_durablePeers (hreport : ReportOver peers report) :
    (durablePeers peers answers report).card = (durableAttempts peers answers report).length := by
  have hsub : (durableAttempts peers answers report).Sublist report.attempts :=
    List.filter_sublist
  unfold durablePeers
  rw [List.toFinset_card_of_nodup ((hsub.map _).nodup hreport.distinct), List.length_map]

/-- The upload counts one machine for each name among the durable ones. -/
theorem acknowledged_verifiedReport (hpeers : (peers.map (·.peerId)).Nodup)
    (hreport : ReportOver peers report) :
    (verifiedReport report (committedNodes answers (stagedPeers peers report false))).acknowledged
      = 1 + ((durableAttempts peers answers report).map (·.node)).toFinset.card := by
  have hsame : (stableNodes report ++
      committedNodes answers (stagedPeers peers report false)).toFinset =
      ((durableAttempts peers answers report).map (·.node)).toFinset := by
    ext node
    rw [List.mem_toFinset, List.mem_toFinset]
    exact mem_replicas_iff hpeers hreport
  rw [← hsame, ← length_eraseDups, Nat.add_comm]
  rfl

/-- The commit of a strict upload counts the machines proved durable exactly
when their names differ, or when there are too few of them anyway. -/
theorem commit_counts_peers_iff (hpeers : (peers.map (·.peerId)).Nodup)
    (hreport : ReportOver peers report) (answers : CommitAnswers) :
    (((∃ verified, commitUploadedReplicas peers answers report = .ok verified) ↔
        report.required ≤ 1 + (durablePeers peers answers report).card) ∧
      ∀ verified, commitUploadedReplicas peers answers report = .ok verified →
        verified.acknowledged = 1 + (durablePeers peers answers report).card) ↔
      1 + (durablePeers peers answers report).card < report.required ∨
        ((durableAttempts peers answers report).map (·.node)).Nodup := by
  set names := (durableAttempts peers answers report).map (·.node) with hnames
  have hlength : (durablePeers peers answers report).card = names.length := by
    rw [card_durablePeers hreport, hnames, List.length_map]
  have hle : names.toFinset.card ≤ names.length := List.toFinset_card_le names
  have hack : (verifiedReport report (committedNodes answers
      (stagedPeers peers report false))).acknowledged = 1 + names.toFinset.card :=
    acknowledged_verifiedReport hpeers hreport
  have hcommit : ∀ verified, commitUploadedReplicas peers answers report = .ok verified ↔
      report.required ≤ 1 + names.toFinset.card ∧ verified =
        verifiedReport report (committedNodes answers (stagedPeers peers report false)) := by
    intro verified
    have hsatisfied : (verifiedReport report (committedNodes answers
        (stagedPeers peers report false))).satisfied = true ↔
        report.required ≤ 1 + names.toFinset.card := by
      rw [← hack]
      exact decide_eq_true_iff
    unfold commitUploadedReplicas
    by_cases h : report.required ≤ 1 + names.toFinset.card
    · rw [if_pos (hsatisfied.mpr h)]
      simp [h, eq_comm]
    · rw [if_neg fun hs => h (hsatisfied.mp hs)]
      simp [h]
  rw [hlength]
  constructor
  · rintro ⟨hresolves, hcount⟩
    by_cases hfew : 1 + names.length < report.required
    · exact .inl hfew
    · right
      obtain ⟨verified, hverified⟩ := hresolves.mpr (Nat.le_of_not_lt hfew)
      have hcount := hcount verified hverified
      rw [((hcommit verified).mp hverified).2, hack] at hcount
      exact (card_toFinset_eq_length_iff names).mp (Nat.add_left_cancel hcount)
  · rintro (hfew | hnodup)
    · have hnone : ∀ verified, commitUploadedReplicas peers answers report ≠ .ok verified := by
        intro verified hverified
        have := ((hcommit verified).mp hverified).1
        omega
      refine ⟨⟨?_, fun h => absurd h (Nat.not_le_of_lt hfew)⟩, fun verified h => ?_⟩
      · rintro ⟨verified, h⟩
        exact absurd h (hnone verified)
      · exact absurd h (hnone verified)
    · have hall := (card_toFinset_eq_length_iff names).mpr hnodup
      rw [hall] at hcommit
      refine ⟨⟨?_, fun h => ⟨_, (hcommit _).mpr ⟨h, rfl⟩⟩⟩, fun verified h => ?_⟩
      · rintro ⟨verified, h⟩
        exact ((hcommit verified).mp h).1
      · rw [((hcommit verified).mp h).2, hack, hall]

end Commit

/-- With two names both machines count, and a peer that lost the answer to its
commit is verified. -/
theorem commit_counts_peers_iff_twoNames :
    let peers : List ReplicationPeer := [⟨"left", "p1"⟩, ⟨"right", "p2"⟩]
    let answers : CommitAnswers :=
      { commit := fun peer => if peer.peerId = "p1" then .ok () else .error (.other "ECONNRESET")
        probeHave := fun _ => .ok true }
    let report := replicate (fun _ _ => 0) "cid" 0 "self" peers
      { enabled := true, placement := [⟨0, 3⟩], ackQuorum := 3 }
      (fun _ => .ok { outcome := some .stored, staged := some true, error := none }) none
    ((∃ verified, commitUploadedReplicas peers answers report = .ok verified) ↔
        report.required ≤ 1 + (durablePeers peers answers report).card) ∧
      ∀ verified, commitUploadedReplicas peers answers report = .ok verified →
        verified.acknowledged = 1 + (durablePeers peers answers report).card := by
  intro peers answers report
  have hpeers : (peers.map (·.peerId)).Nodup := by decide
  have hreport : ReportOver peers report := reportOver_replicate ..
  exact (commit_counts_peers_iff hpeers hreport answers).mpr (.inr (by decide))

/-- Two machines under one display name count once: both copies are permanent,
and the upload that needs three machines is refused with two. -/
theorem sharedName_uncounted :
    let peers : List ReplicationPeer := [⟨"node", "p1"⟩, ⟨"node", "p2"⟩]
    let answers : CommitAnswers :=
      { commit := fun _ => .ok (), probeHave := fun _ => .ok true }
    let report := replicate (fun _ _ => 0) "cid" 0 "self" peers
      { enabled := true, placement := [⟨0, 3⟩], ackQuorum := 3 }
      (fun _ => .ok { outcome := some .stored, staged := some true, error := none }) none
    (peers.map (·.peerId)).Nodup ∧ report.required = 3 ∧
      (durablePeers peers answers report).card = 2 ∧
      commitUploadedReplicas peers answers report
        = .error { failures := [], acknowledged := 2, required := 3 } := by
  decide

end IpfsNode
