import IpfsNode.Transition
import Mathlib.Data.List.AList

/-!
# Recovery of peer sessions

A recovery resets the connection to a peer and redials it. The promise of a
recovery is kept while it runs, so that other calls for the peer can wait for
it. The recovery removes the entry itself when it ends, and the call that
started it puts the entry there after the recovery has run up to its first
wait. A `reset` that throws at once ends the recovery before that, and the entry
stays. `peer_recovery` is about the runs where no `reset` does.
-/

namespace IpfsNode

open TransitionSystem (Run always)

/-! ## The code -/

/-- Do not reset the same peer more than once in this window. -/
def RECOVERY_COOLDOWN_MS : Int := 30000

/-- What calling an action does at once. -/
inductive ActionStart where
  | promise
  | throws
deriving DecidableEq, Repr

structure PeerSessionRecoveryActions (Peer : Type) where
  isConfiguredPeer : Peer → Bool
  reset : Peer → ActionStart
  redial : Peer → ActionStart

inductive RecoveryStage where
  | resetting
  | redialling
  | done (recovered : Bool)
deriving DecidableEq, Repr

/-- The `reset` that a recovery begins with. -/
structure PeerReset (Peer : Type) where
  peerId : Peer
  actions : PeerSessionRecoveryActions Peer
  startedAt : Int

/-- `reset` threw instead of giving a promise. -/
def PeerReset.threw {Peer : Type} (r : PeerReset Peer) : Prop := r.actions.reset r.peerId = .throws

structure PeerRecovery (Peer : Type) extends PeerReset Peer where
  stage : RecoveryStage

/-- What the promise of the recovery resolved with. -/
def PeerRecovery.result {Peer : Type} (r : PeerRecovery Peer) : Option Bool :=
  match r.stage with
  | .resetting => none
  | .redialling => none
  | .done recovered => some recovered

def PeerRecovery.finished {Peer : Type} (r : PeerRecovery Peer) : Bool := r.result.isSome

/-- A recovery as it stands when the call that started it returns. -/
def PeerRecovery.begun {Peer : Type} (peerId : Peer)
    (actions : PeerSessionRecoveryActions Peer) (now : Int) : PeerRecovery Peer where
  peerId := peerId
  actions := actions
  startedAt := now
  stage :=
    match actions.reset peerId with
    | .promise => .resetting
    | .throws => .done false

/-- What a call returns: a value, or the promise of a recovery. -/
inductive RecoveryAnswer where
  | value (recovered : Bool)
  | promise (i : Nat)
deriving DecidableEq, Repr

/-- The recoveries stand in the order in which they began; their promises are
their positions. -/
structure PeerSessions (Peer : Type) where
  now : Int
  lastRecoveryAt : AList fun _ : Peer => Int
  inFlightRecoveries : AList fun _ : Peer => Nat
  recoveries : List (PeerRecovery Peer)

namespace PeerSessions

variable {Peer : Type} [DecidableEq Peer]

omit [DecidableEq Peer] in
def start : PeerSessions Peer where
  now := 0
  lastRecoveryAt := ∅
  inFlightRecoveries := ∅
  recoveries := []

omit [DecidableEq Peer] in
def setStage (s : PeerSessions Peer) (i : Nat) (r : PeerRecovery Peer) (stage : RecoveryStage) :
    PeerSessions Peer :=
  { s with recoveries := s.recoveries.set i { r with stage } }

/-- The end of a recovery, whichever way it comes. -/
def finish (s : PeerSessions Peer) (i : Nat) (r : PeerRecovery Peer) (recovered : Bool) :
    PeerSessions Peer :=
  { s.setStage i r (.done recovered) with
    inFlightRecoveries := s.inFlightRecoveries.erase r.peerId }

/-- A recovery up to its first wait. -/
def startRecovery (s : PeerSessions Peer) (peerId : Peer)
    (actions : PeerSessionRecoveryActions Peer) : PeerSessions Peer :=
  let r : PeerRecovery Peer := ⟨⟨peerId, actions, s.now⟩, .resetting⟩
  let s' := { s with recoveries := s.recoveries ++ [r] }
  match actions.reset peerId with
  | .promise => s'
  | .throws => s'.finish s.recoveries.length r false

def recoverPeerSession (s : PeerSessions Peer) (peerId : Peer)
    (actions : PeerSessionRecoveryActions Peer) : RecoveryAnswer × PeerSessions Peer :=
  if actions.isConfiguredPeer peerId = false then (.value false, s)
  else
    match s.inFlightRecoveries.lookup peerId with
    | some inFlight => (.promise inFlight, s)
    | none =>
        if (s.lastRecoveryAt.lookup peerId).any (s.now - · < RECOVERY_COOLDOWN_MS) then
          (.value false, s)
        else
          let s₁ := { s with lastRecoveryAt := s.lastRecoveryAt.insert peerId s.now }
          let s₂ := s₁.startRecovery peerId actions
          (.promise s.recoveries.length, { s₂ with
            inFlightRecoveries := s₂.inFlightRecoveries.insert peerId s.recoveries.length })

omit [DecidableEq Peer] in
/-- What a call resolved with, once it has. -/
def result (s : PeerSessions Peer) : RecoveryAnswer → Option Bool
  | .value recovered => some recovered
  | .promise i => s.recoveries[i]? >>= PeerRecovery.result

/-- What a recovery does when its `reset` resolves. -/
def redial (s : PeerSessions Peer) (i : Nat) (r : PeerRecovery Peer) : PeerSessions Peer :=
  match r.actions.redial r.peerId with
  | .promise => s.setStage i r .redialling
  | .throws => s.finish i r false

inductive Event (Peer : Type) where
  | call (peerId : Peer) (actions : PeerSessionRecoveryActions Peer)
  | resetResolves (i : Nat)
  | resetRejects (i : Nat)
  | redialResolves (i : Nat)
  | redialRejects (i : Nat)
  | tick (now : Int)

inductive Step : PeerSessions Peer → Event Peer → PeerSessions Peer → Prop
  | call {s : PeerSessions Peer} {peerId : Peer} {actions : PeerSessionRecoveryActions Peer} :
      Step s (.call peerId actions) (s.recoverPeerSession peerId actions).2
  | resetResolves {s : PeerSessions Peer} {i : Nat} {r : PeerRecovery Peer}
      (h : s.recoveries[i]? = some r) (hstage : r.stage = .resetting) :
      Step s (.resetResolves i) (s.redial i r)
  | resetRejects {s : PeerSessions Peer} {i : Nat} {r : PeerRecovery Peer}
      (h : s.recoveries[i]? = some r) (hstage : r.stage = .resetting) :
      Step s (.resetRejects i) (s.finish i r false)
  | redialResolves {s : PeerSessions Peer} {i : Nat} {r : PeerRecovery Peer}
      (h : s.recoveries[i]? = some r) (hstage : r.stage = .redialling) :
      Step s (.redialResolves i) (s.finish i r true)
  | redialRejects {s : PeerSessions Peer} {i : Nat} {r : PeerRecovery Peer}
      (h : s.recoveries[i]? = some r) (hstage : r.stage = .redialling) :
      Step s (.redialRejects i) (s.finish i r false)
  | tick {s : PeerSessions Peer} {now : Int} (h : s.now ≤ now) :
      Step s (.tick now) { s with now }

/-! ## Starting a recovery -/

variable {s s' : PeerSessions Peer} {peerId : Peer} {actions : PeerSessionRecoveryActions Peer}
variable {i : Nat} {r : PeerRecovery Peer}

/-- The call starts a recovery. -/
structure Starts (s : PeerSessions Peer) (peerId : Peer)
    (actions : PeerSessionRecoveryActions Peer) : Prop where
  configured : actions.isConfiguredPeer peerId = true
  free : s.inFlightRecoveries.lookup peerId = none
  cooled : ∀ last, s.lastRecoveryAt.lookup peerId = some last →
    last + RECOVERY_COOLDOWN_MS ≤ s.now

/-- What starting a recovery leaves behind. -/
structure Started (s : PeerSessions Peer) (peerId : Peer)
    (actions : PeerSessionRecoveryActions Peer) (s' : PeerSessions Peer) : Prop where
  now : s'.now = s.now
  recoveries : s'.recoveries = s.recoveries ++ [.begun peerId actions s.now]
  last : ∀ other, s'.lastRecoveryAt.lookup other =
    if other = peerId then some s.now else s.lastRecoveryAt.lookup other
  entries : ∀ other, s'.inFlightRecoveries.lookup other =
    if other = peerId then some s.recoveries.length else s.inFlightRecoveries.lookup other

theorem startRecovery_eq : s.startRecovery peerId actions = { s with
    recoveries := s.recoveries ++ [.begun peerId actions s.now]
    inFlightRecoveries :=
      match actions.reset peerId with
      | .promise => s.inFlightRecoveries
      | .throws => s.inFlightRecoveries.erase peerId } := by
  unfold startRecovery PeerRecovery.begun
  cases actions.reset peerId with
  | promise => rfl
  | throws => simp [finish, setStage]

/-- The entry is inserted whatever `reset` did. -/
theorem recoverPeerSession_of_starts (h : s.Starts peerId actions) :
    (s.recoverPeerSession peerId actions).1 = .promise s.recoveries.length ∧
      s.Started peerId actions (s.recoverPeerSession peerId actions).2 := by
  have hcooled : ¬ (s.lastRecoveryAt.lookup peerId).any
      (s.now - · < RECOVERY_COOLDOWN_MS) = true := by
    cases hlast : s.lastRecoveryAt.lookup peerId with
    | none => simp
    | some last =>
        have := h.cooled last hlast
        simp only [Option.any_some, decide_eq_true_eq]
        omega
  unfold recoverPeerSession
  rw [if_neg (by simp [h.configured]), h.free]
  dsimp only
  rw [if_neg hcooled, startRecovery_eq]
  refine ⟨rfl, ⟨rfl, rfl, fun other => ?_, fun other => ?_⟩⟩
  · by_cases hother : other = peerId
    · subst hother
      simp
    · simp [hother]
  · by_cases hother : other = peerId
    · subst hother
      simp
    · cases hreset : actions.reset peerId <;> simp [hother]

theorem recoverPeerSession_of_not_starts (h : ¬ s.Starts peerId actions) :
    (s.recoverPeerSession peerId actions).2 = s := by
  unfold recoverPeerSession
  by_cases hconfigured : actions.isConfiguredPeer peerId = false
  · rw [if_pos hconfigured]
  rw [if_neg hconfigured]
  cases hfree : s.inFlightRecoveries.lookup peerId with
  | some inFlight => rfl
  | none =>
      dsimp only
      rw [if_pos]
      cases hlast : s.lastRecoveryAt.lookup peerId with
      | none =>
          have hcooled : ∀ last, s.lastRecoveryAt.lookup peerId = some last →
              last + RECOVERY_COOLDOWN_MS ≤ s.now := by
            simp [hlast]
          exact absurd ⟨by simpa using hconfigured, hfree, hcooled⟩ h
      | some last =>
          by_contra hcooled
          simp only [Option.any_some, decide_eq_true_eq] at hcooled
          refine h ⟨by simpa using hconfigured, hfree, fun t ht => ?_⟩
          have : last = t := by simpa [hlast] using ht
          omega

/-! ## What a step changes -/

/-- What one step can do: nothing to the recoveries, begin one, let one wait for
its redial, or end one. -/
inductive Changes (s : PeerSessions Peer) (a : Event Peer) : PeerSessions Peer → Prop
  | none (now : Int) (h : s.now ≤ now) : Changes s a { s with now }
  | begins {s' : PeerSessions Peer} (peerId : Peer) (actions : PeerSessionRecoveryActions Peer)
      (h : a = .call peerId actions) (hstarts : s.Starts peerId actions)
      (hstarted : s.Started peerId actions s') : Changes s a s'
  | redials (i : Nat) (r : PeerRecovery Peer) (h : s.recoveries[i]? = some r)
      (hopen : r.finished = false) : Changes s a (s.setStage i r .redialling)
  | finishes (i : Nat) (r : PeerRecovery Peer) (recovered : Bool)
      (h : s.recoveries[i]? = some r) (hopen : r.finished = false) :
      Changes s a (s.finish i r recovered)

theorem Step.changes {a : Event Peer} (h : Step s a s') : s.Changes a s' := by
  cases h with
  | @call peerId actions =>
      by_cases hstarts : s.Starts peerId actions
      · exact .begins peerId actions rfl hstarts (recoverPeerSession_of_starts hstarts).2
      · rw [recoverPeerSession_of_not_starts hstarts]
        exact .none s.now (Int.le_refl _)
  | @resetResolves i r h hstage =>
      have hopen : r.finished = false := by
        simp [PeerRecovery.finished, PeerRecovery.result, hstage]
      unfold redial
      cases r.actions.redial r.peerId with
      | promise => exact .redials i r h hopen
      | throws => exact .finishes i r false h hopen
  | @resetRejects i r h hstage =>
      exact .finishes i r false h (by simp [PeerRecovery.finished, PeerRecovery.result, hstage])
  | @redialResolves i r h hstage =>
      exact .finishes i r true h (by simp [PeerRecovery.finished, PeerRecovery.result, hstage])
  | @redialRejects i r h hstage =>
      exact .finishes i r false h (by simp [PeerRecovery.finished, PeerRecovery.result, hstage])
  | tick h => exact .none _ h

/-! ## The history of resets -/

omit [DecidableEq Peer] in
def resets (s : PeerSessions Peer) : List (PeerReset Peer) := s.recoveries.map (·.toPeerReset)

/-- What the resets so far have in common, and what the map says of them. -/
structure History (s : PeerSessions Peer) : Prop where
  spaced : s.resets.Pairwise fun a b =>
    a.peerId = b.peerId → a.startedAt + RECOVERY_COOLDOWN_MS ≤ b.startedAt
  configured : ∀ r ∈ s.resets, r.actions.isConfiguredPeer r.peerId = true
  recorded : ∀ r ∈ s.resets, ∃ last, s.lastRecoveryAt.lookup r.peerId = some last ∧
    r.startedAt ≤ last
  last : ∀ peerId last, s.lastRecoveryAt.lookup peerId = some last →
    ∃ r ∈ s.resets, r.peerId = peerId ∧ r.startedAt = last

theorem start_history : (start : PeerSessions Peer).History where
  spaced := .nil
  configured := nofun
  recorded := nofun
  last := nofun

omit [DecidableEq Peer] in
theorem resets_setStage {stage : RecoveryStage} (h : s.recoveries[i]? = some r) :
    (s.setStage i r stage).resets = s.resets := by
  obtain ⟨hi, hr⟩ := List.getElem?_eq_some_iff.mp h
  have hi' : i < s.resets.length := by simpa [resets] using hi
  have hsame : s.resets[i] = r.toPeerReset := by simp [resets, hr]
  calc (s.setStage i r stage).resets = s.resets.set i r.toPeerReset := by
        simp [resets, setStage, List.map_set]
    _ = s.resets := by rw [← hsame, List.set_getElem_self]

/-- The history is one of the resets and the recorded times. -/
theorem History.congr (h : s.History) (hresets : s'.resets = s.resets)
    (hlast : s'.lastRecoveryAt = s.lastRecoveryAt) : s'.History where
  spaced := hresets ▸ h.spaced
  configured := hresets ▸ h.configured
  recorded := by
    rw [hresets, hlast]
    exact h.recorded
  last := by
    rw [hresets, hlast]
    exact h.last

theorem Started.resets (h : s.Started peerId actions s') :
    s'.resets = s.resets ++ [⟨peerId, actions, s.now⟩] := by
  simp [PeerSessions.resets, h.recoveries, PeerRecovery.begun]

theorem History.begins (h : s.History) (hstarts : s.Starts peerId actions)
    (hstarted : s.Started peerId actions s') : s'.History := by
  have hresets := hstarted.resets
  have hearlier (r : PeerReset Peer) (hr : r ∈ s.resets) (hsame : r.peerId = peerId) :
      r.startedAt + RECOVERY_COOLDOWN_MS ≤ s.now := by
    obtain ⟨last, hlast, hle⟩ := h.recorded r hr
    have := hstarts.cooled last (hsame ▸ hlast)
    omega
  constructor
  · rw [hresets, List.pairwise_append]
    refine ⟨h.spaced, List.pairwise_singleton _ _, fun a ha b hb => ?_⟩
    rw [List.mem_singleton.mp hb]
    exact hearlier a ha
  · rw [hresets]
    intro r hr
    rcases List.mem_append.mp hr with hr | hr
    · exact h.configured r hr
    · rw [List.mem_singleton.mp hr]
      exact hstarts.configured
  · rw [hresets]
    intro r hr
    rw [hstarted.last]
    rcases List.mem_append.mp hr with hr | hr
    · by_cases hsame : r.peerId = peerId
      · have := hearlier r hr hsame
        rw [if_pos hsame]
        exact ⟨s.now, rfl, by unfold RECOVERY_COOLDOWN_MS at this; omega⟩
      · rw [if_neg hsame]
        exact h.recorded r hr
    · rw [List.mem_singleton.mp hr, if_pos rfl]
      exact ⟨s.now, rfl, Int.le_refl _⟩
  · rw [hresets]
    intro other last hlast
    rw [hstarted.last] at hlast
    by_cases hsame : other = peerId
    · rw [if_pos hsame] at hlast
      exact ⟨⟨peerId, actions, s.now⟩, by simp, hsame.symm, by simpa using hlast⟩
    · rw [if_neg hsame] at hlast
      obtain ⟨r, hr, hrest⟩ := h.last other last hlast
      exact ⟨r, List.mem_append_left _ hr, hrest⟩

theorem History.step {a : Event Peer} (h : s.History) (hchanges : s.Changes a s') : s'.History := by
  cases hchanges with
  | none now hle => exact h.congr rfl rfl
  | begins peerId actions hcall hstarts hstarted => exact h.begins hstarts hstarted
  | redials i r hr hopen => exact h.congr (resets_setStage hr) rfl
  | finishes i r recovered hr hopen => exact h.congr (resets_setStage hr) rfl

/-! ## The entries -/

/-- A recovery in progress has the entry of its peer. Besides those, the recoveries
whose `reset` threw have it, and they have it for good. -/
structure Entries (s : PeerSessions Peer) : Prop where
  running : ∀ i r, s.recoveries[i]? = some r → r.finished = false →
    s.inFlightRecoveries.lookup r.peerId = some i
  threw : ∀ i r, s.recoveries[i]? = some r → r.threw →
    s.inFlightRecoveries.lookup r.peerId = some i ∧ r.finished = true
  entry : ∀ peerId i, s.inFlightRecoveries.lookup peerId = some i →
    ∃ r, s.recoveries[i]? = some r ∧ r.peerId = peerId ∧ (r.finished = false ∨ r.threw)

theorem start_entries : (start : PeerSessions Peer).Entries where
  running := by simp [start]
  threw := by simp [start]
  entry := by simp [start]

omit [DecidableEq Peer] in
theorem recoveries_setStage {stage : RecoveryStage} (h : s.recoveries[i]? = some r) (j : Nat) :
    (s.setStage i r stage).recoveries[j]? =
      if j = i then some { r with stage } else s.recoveries[j]? := by
  obtain ⟨hi, -⟩ := List.getElem?_eq_some_iff.mp h
  simp only [setStage, List.getElem?_set, eq_comm (a := i), if_pos hi]

theorem Started.recovery_iff (h : s.Started peerId actions s') (j : Nat) (q : PeerRecovery Peer) :
    s'.recoveries[j]? = some q ↔ s.recoveries[j]? = some q ∨
      j = s.recoveries.length ∧ q = .begun peerId actions s.now := by
  rw [h.recoveries, List.getElem?_append]
  split
  · rename_i hj
    exact ⟨.inl, fun hor => hor.elim id fun hnew => by omega⟩
  · rename_i hj
    have hnone : s.recoveries[j]? = none := List.getElem?_eq_none (by omega)
    rw [hnone, List.getElem?_singleton]
    constructor
    · intro hnew
      split at hnew
      · exact .inr ⟨by omega, by simpa [eq_comm] using hnew⟩
      · simp at hnew
    · rintro (hold | ⟨hlast, rfl⟩)
      · simp at hold
      · simp [hlast]

omit [DecidableEq Peer] in
theorem begun_cases (now : Int) :
    ((PeerRecovery.begun peerId actions now).finished = false ∧
        ¬ (PeerRecovery.begun peerId actions now).threw) ∨
      ((PeerRecovery.begun peerId actions now).finished = true ∧
        (PeerRecovery.begun peerId actions now).threw) := by
  cases hreset : actions.reset peerId <;>
    simp [PeerRecovery.begun, PeerRecovery.finished, PeerRecovery.result, PeerReset.threw, hreset]

theorem Entries.begins (h : s.Entries) (hstarts : s.Starts peerId actions)
    (hstarted : s.Started peerId actions s') : s'.Entries := by
  have hother {j : Nat} {q : PeerRecovery Peer}
      (hentry : s.inFlightRecoveries.lookup q.peerId = some j) :
      s'.inFlightRecoveries.lookup q.peerId = some j := by
    rw [hstarted.entries, if_neg]
    · exact hentry
    · intro hsame
      rw [hsame, hstarts.free] at hentry
      cases hentry
  have hnew : s'.inFlightRecoveries.lookup peerId = some s.recoveries.length := by
    rw [hstarted.entries, if_pos rfl]
  constructor
  · intro j q hq hopen
    rcases (hstarted.recovery_iff j q).mp hq with hq | ⟨rfl, rfl⟩
    · exact hother (h.running j q hq hopen)
    · exact hnew
  · intro j q hq hthrew
    rcases (hstarted.recovery_iff j q).mp hq with hq | ⟨rfl, rfl⟩
    · exact ⟨hother (h.threw j q hq hthrew).1, (h.threw j q hq hthrew).2⟩
    · refine ⟨hnew, ?_⟩
      rcases begun_cases s.now with hopen | hended
      · exact absurd hthrew hopen.2
      · exact hended.1
  · intro other j hentry
    rw [hstarted.entries] at hentry
    by_cases hsame : other = peerId
    · rw [if_pos hsame] at hentry
      refine ⟨.begun peerId actions s.now, (hstarted.recovery_iff _ _).mpr (.inr ⟨?_, rfl⟩),
        hsame.symm, ?_⟩
      · simpa [eq_comm] using hentry
      · exact (begun_cases s.now).imp And.left And.right
    · rw [if_neg hsame] at hentry
      obtain ⟨q, hq, hrest⟩ := h.entry other j hentry
      exact ⟨q, (hstarted.recovery_iff j q).mpr (.inl hq), hrest⟩

theorem Entries.redials (h : s.Entries) (hr : s.recoveries[i]? = some r)
    (hopen : r.finished = false) : (s.setStage i r .redialling).Entries := by
  constructor
  · intro j q hq hrunning
    rw [recoveries_setStage hr] at hq
    split at hq
    · rename_i hji
      obtain rfl : { r with stage := .redialling } = q := by simpa using hq
      exact hji ▸ h.running i r hr hopen
    · exact h.running j q hq hrunning
  · intro j q hq hthrew
    rw [recoveries_setStage hr] at hq
    split at hq
    · obtain rfl : { r with stage := .redialling } = q := by simpa using hq
      have := (h.threw i r hr hthrew).2
      simp [this] at hopen
    · exact h.threw j q hq hthrew
  · intro other j hentry
    obtain ⟨q, hq, hpeer, hrest⟩ := h.entry other j hentry
    by_cases hji : j = i
    · obtain rfl : r = q := by simpa [hji, hr] using hq
      exact ⟨{ r with stage := .redialling }, by rw [recoveries_setStage hr, if_pos hji], hpeer,
        .inl rfl⟩
    · exact ⟨q, by rw [recoveries_setStage hr, if_neg hji, hq], hpeer, hrest⟩

theorem Entries.finishes {recovered : Bool} (h : s.Entries) (hr : s.recoveries[i]? = some r)
    (hopen : r.finished = false) : (s.finish i r recovered).Entries := by
  have hown := h.running i r hr hopen
  have hkept {j : Nat} {q : PeerRecovery Peer} (hji : j ≠ i)
      (hentry : s.inFlightRecoveries.lookup q.peerId = some j) :
      (s.finish i r recovered).inFlightRecoveries.lookup q.peerId = some j := by
    have hne : q.peerId ≠ r.peerId := by
      intro hsame
      rw [hsame, hown] at hentry
      exact hji (by simpa [eq_comm] using hentry)
    simp [finish, setStage, hne, hentry]
  constructor
  · intro j q hq hrunning
    have hq : (s.setStage i r (.done recovered)).recoveries[j]? = some q := hq
    rw [recoveries_setStage hr] at hq
    split at hq
    · obtain rfl : { r with stage := .done recovered } = q := by simpa using hq
      cases hrunning
    · rename_i hji
      exact hkept hji (h.running j q hq hrunning)
  · intro j q hq hthrew
    have hq : (s.setStage i r (.done recovered)).recoveries[j]? = some q := hq
    rw [recoveries_setStage hr] at hq
    split at hq
    · obtain rfl : { r with stage := .done recovered } = q := by simpa using hq
      have := (h.threw i r hr hthrew).2
      simp [this] at hopen
    · rename_i hji
      exact ⟨hkept hji (h.threw j q hq hthrew).1, (h.threw j q hq hthrew).2⟩
  · intro other j hentry
    have hne : other ≠ r.peerId := by
      rintro rfl
      simp [finish, setStage] at hentry
    have hentry : s.inFlightRecoveries.lookup other = some j := by
      simpa [finish, setStage, hne] using hentry
    obtain ⟨q, hq, hpeer, hrest⟩ := h.entry other j hentry
    have hji : j ≠ i := by
      rintro rfl
      obtain rfl : r = q := by simpa [hr] using hq
      exact hne hpeer.symm
    refine ⟨q, ?_, hpeer, hrest⟩
    exact (recoveries_setStage hr j).trans (by rw [if_neg hji, hq])

theorem Entries.step {a : Event Peer} (h : s.Entries) (hchanges : s.Changes a s') : s'.Entries := by
  cases hchanges with
  | none now hle => exact ⟨h.running, h.threw, h.entry⟩
  | begins peerId actions hcall hstarts hstarted => exact h.begins hstarts hstarted
  | redials i r hr hopen => exact h.redials hr hopen
  | finishes i r recovered hr hopen => exact h.finishes hr hopen

/-! ## All runs -/

theorem history_of_run (h : Run Step always start s) : s.History ∧ s.Entries :=
  h.invariant (I := fun s => s.History ∧ s.Entries) ⟨start_history, start_entries⟩
    fun _ _ _ hkept _ hstep => ⟨hkept.1.step hstep.changes, hkept.2.step hstep.changes⟩

/-- A recovery keeps its place. -/
theorem recovery_of_run (h : Run Step always s s') (hr : s.recoveries[i]? = some r) :
    ∃ r', s'.recoveries[i]? = some r' ∧ r'.toPeerReset = r.toPeerReset := by
  refine h.invariant
    (I := fun s' => ∃ r', s'.recoveries[i]? = some r' ∧ r'.toPeerReset = r.toPeerReset)
    ⟨r, hr, rfl⟩ fun s₁ a s₂ hkept _ hstep => ?_
  obtain ⟨r', hr', hsame⟩ := hkept
  have hmoved {j : Nat} {q : PeerRecovery Peer} (hq : s₁.recoveries[j]? = some q)
      (stage : RecoveryStage) : ∃ r'', (s₁.setStage j q stage).recoveries[i]? = some r'' ∧
        r''.toPeerReset = r.toPeerReset := by
    rw [recoveries_setStage hq]
    by_cases hij : i = j
    · obtain rfl : q = r' := by simpa [← hij, hr'] using hq.symm
      exact ⟨{ q with stage }, by rw [if_pos hij], hsame⟩
    · exact ⟨r', by rw [if_neg hij, hr'], hsame⟩
  cases hstep.changes with
  | none now hle => exact ⟨r', hr', hsame⟩
  | begins peerId actions hcall hstarts hstarted =>
      exact ⟨r', (hstarted.recovery_iff i r').mpr (.inl hr'), hsame⟩
  | redials j q hq hopen => exact hmoved hq .redialling
  | finishes j q recovered hq hopen => exact hmoved hq (.done recovered)

/-- The recoveries of the peer have finished, and the cooldown is over. -/
def Idle (s : PeerSessions Peer) (peerId : Peer) : Prop :=
  ∀ r ∈ s.recoveries, r.peerId = peerId →
    r.finished = true ∧ r.startedAt + RECOVERY_COOLDOWN_MS ≤ s.now

/-- A peer is given up for good once a `reset` of it threw, and only then. -/
theorem starts_iff (h : Run Step always start s) (hidle : s.Idle peerId)
    (hconfigured : actions.isConfiguredPeer peerId = true) :
    s.Starts peerId actions ↔ ∀ r ∈ s.resets, r.peerId = peerId → ¬ r.threw := by
  obtain ⟨hhistory, hentries⟩ := history_of_run h
  constructor
  · intro hstarts r hr hpeer hthrew
    obtain ⟨q, hq, rfl⟩ := List.mem_map.mp hr
    obtain ⟨i, hi⟩ := List.getElem?_of_mem hq
    have hentry := (hentries.threw i q hi hthrew).1
    rw [hpeer, hstarts.free] at hentry
    cases hentry
  · intro hnone
    refine ⟨hconfigured, ?_, fun last hlast => ?_⟩
    · cases hentry : s.inFlightRecoveries.lookup peerId with
      | none => rfl
      | some i =>
          obtain ⟨r, hi, hpeer, hopen | hthrew⟩ := hentries.entry peerId i hentry
          · have := (hidle r (List.mem_of_getElem? hi) hpeer).1
            simp [this] at hopen
          · have hr := List.mem_map_of_mem (f := (·.toPeerReset)) (List.mem_of_getElem? hi)
            exact absurd hthrew (hnone _ hr hpeer)
    · obtain ⟨r, hr, hpeer, rfl⟩ := hhistory.last peerId last hlast
      obtain ⟨q, hq, rfl⟩ := List.mem_map.mp hr
      exact (hidle q hq hpeer).2

/-! ## Runs where `reset` gives a promise -/

/-- What recovering sessions promises of a state: it does not storm and does not
wedge. -/
structure Steady (s : PeerSessions Peer) : Prop where
  single : ∀ (i j : Nat) (a b : PeerRecovery Peer), s.recoveries[i]? = some a →
    s.recoveries[j]? = some b → a.finished = false → b.finished = false →
    a.peerId = b.peerId → i = j
  spaced : s.resets.Pairwise fun a b =>
    a.peerId = b.peerId → a.startedAt + RECOVERY_COOLDOWN_MS ≤ b.startedAt
  shared : ∀ i r, s.recoveries[i]? = some r → r.finished = false →
    ∀ actions, actions.isConfiguredPeer r.peerId = true →
      s.recoverPeerSession r.peerId actions = (.promise i, s) ∧
        ∀ later, Run Step always s later → ∃ r', later.recoveries[i]? = some r' ∧
          r'.toPeerReset = r.toPeerReset ∧ later.result (.promise i) = r'.result
  configured : ∀ r ∈ s.resets, r.actions.isConfiguredPeer r.peerId = true
  unconfigured : ∀ peerId actions, actions.isConfiguredPeer peerId = false →
    s.recoverPeerSession peerId actions = (.value false, s)
  restarts : ∀ peerId actions, actions.isConfiguredPeer peerId = true → s.Idle peerId →
    (s.recoverPeerSession peerId actions).1 = .promise s.recoveries.length ∧
      (s.recoverPeerSession peerId actions).2.resets =
        s.resets ++ [⟨peerId, actions, s.now⟩]

/-- The `reset` of a recovery that the call starts gives a promise. -/
def ResetReturns (s : PeerSessions Peer) : Event Peer → Prop
  | .call peerId actions => s.Starts peerId actions → actions.reset peerId = .promise
  | _ => True

theorem not_threw_of_run (h : Run Step ResetReturns start s) : ∀ r ∈ s.resets, ¬ r.threw := by
  refine h.invariant (I := fun s => ∀ r ∈ s.resets, ¬ r.threw) nofun
    fun s a s' hkept hok hstep => ?_
  cases hstep.changes with
  | none now hle => exact hkept
  | begins peerId actions hcall hstarts hstarted =>
      subst hcall
      rw [hstarted.resets]
      intro r hr
      rcases List.mem_append.mp hr with hr | hr
      · exact hkept r hr
      · rw [List.mem_singleton.mp hr]
        intro hthrew
        have hpromise : actions.reset peerId = .promise := hok hstarts
        have hthrew : actions.reset peerId = .throws := hthrew
        simp [hpromise] at hthrew
  | redials i r hr hopen => exact (resets_setStage hr).symm ▸ hkept
  | finishes i r recovered hr hopen => exact (resets_setStage hr).symm ▸ hkept

theorem peer_recovery (h : Run Step ResetReturns start s) : s.Steady := by
  obtain ⟨hhistory, hentries⟩ := history_of_run h.free
  constructor
  · intro i j a b ha hb hopen hopen' hpeer
    have hi := hentries.running i a ha hopen
    have hj := hentries.running j b hb hopen'
    rw [hpeer, hj] at hi
    simpa [eq_comm] using hi
  · exact hhistory.spaced
  · intro i r hr hopen actions hconfigured
    constructor
    · unfold recoverPeerSession
      rw [if_neg (by simp [hconfigured]), hentries.running i r hr hopen]
    · intro later hlater
      obtain ⟨r', hr', hsame⟩ := recovery_of_run hlater hr
      exact ⟨r', hr', hsame, by simp [result, hr']⟩
  · exact hhistory.configured
  · intro peerId actions hconfigured
    unfold recoverPeerSession
    rw [if_pos hconfigured]
  · intro peerId actions hconfigured hidle
    have hstarts : s.Starts peerId actions := by
      rw [starts_iff h.free hidle hconfigured]
      exact fun r hr _ => not_threw_of_run h r hr
    obtain ⟨hanswer, hstarted⟩ := recoverPeerSession_of_starts hstarts
    exact ⟨hanswer, hstarted.resets⟩

namespace ResetThatThrows

def hooks (reset : ActionStart) : PeerSessionRecoveryActions Nat where
  isConfiguredPeer := fun _ => true
  reset := fun _ => reset
  redial := fun _ => .promise

/-- The only call so far found a `reset` that throws, and the cooldown is over. -/
def wedged : PeerSessions Nat :=
  { ((start : PeerSessions Nat).recoverPeerSession 7 (hooks .throws)).2 with now := 30000 }

theorem wedged_run : Run Step always start wedged :=
  Run.start.next (a := Event.call 7 (hooks .throws)) trivial Step.call |>.next
    (a := Event.tick 30000) trivial (Step.tick (by decide : (0 : Int) ≤ 30000))

theorem not_steady_of_reset_throws :
    ¬ ∀ s : PeerSessions Nat, Run Step always start s → s.Steady := by
  intro h
  have hidle : wedged.Idle 7 := by
    intro r hr _
    obtain rfl : r = .begun 7 (hooks .throws) 0 := by
      simpa [wedged, recoverPeerSession, startRecovery_eq, start, hooks] using hr
    decide
  have hanswer := ((h wedged wedged_run).restarts 7 (hooks .promise) rfl hidle).1
  have hwaits : (wedged.recoverPeerSession 7 (hooks .promise)).1 = .promise 0 := by decide
  rw [hwaits] at hanswer
  exact absurd hanswer (by decide)

/-- The recovery of peer 7 at time 0 has finished, and the cooldown is over. -/
def recovered : PeerSessions Nat where
  now := 30000
  lastRecoveryAt := AList.insert 7 0 ∅
  inFlightRecoveries := (AList.insert 7 0 ∅).erase 7
  recoveries := [⟨⟨7, hooks .promise, 0⟩, .done true⟩]

theorem recovered_run : Run Step ResetReturns start recovered :=
  Run.start.next (a := Event.call 7 (hooks .promise)) (fun _ => rfl) Step.call
    |>.next (a := Event.resetResolves 0) trivial (Step.resetResolves rfl rfl)
    |>.next (a := Event.redialResolves 0) trivial (Step.redialResolves rfl rfl)
    |>.next (a := Event.tick 30000) trivial (Step.tick (by decide : (0 : Int) ≤ 30000))

theorem peer_recovery_recovered :
    (recovered.recoverPeerSession 7 (hooks .promise)).1 = .promise 1 := by
  have hidle : recovered.Idle 7 := by
    intro r hr _
    obtain rfl := List.mem_singleton.mp hr
    decide
  exact ((peer_recovery recovered_run).restarts 7 (hooks .promise) rfl hidle).1

end ResetThatThrows

end PeerSessions

end IpfsNode
