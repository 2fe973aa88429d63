import IpfsNode.RegistryLock
import IpfsNode.Transition

/-!
# Locks inside locks

The work of a registry call may call the registry again. Such a call must not
ask for a lock that its own chain of calls holds: it would queue behind itself.
The registry looks up what the chain holds in a store that belongs to the
asynchronous context of the work, and throws. Only `withExclusiveCids` fills
that store; the work of a `transition` runs in the context of its caller. So an
inner request is refused exactly when some `withExclusiveCids` of its chain lists
the CID, and one for a CID that only a `transition` locked waits for itself.
-/

namespace IpfsNode

open TransitionSystem (Run always)

/-! ## Calls within calls -/

section Calls

/-- The calls that take locks, with the CIDs they name. -/
inductive Mutator (Cid : Type) where
  | withExclusiveCids (cids : List Cid)
  | transition (cid : Cid)
  | createIfAbsent (cid : Cid)
  | setReplicas (cid : Cid)
  | remove (cid : Cid)
deriving DecidableEq, Repr

/-- Whether the call runs a callback under its locks. -/
def Mutator.runsWork {Cid : Type} : Mutator Cid → Bool
  | withExclusiveCids _ | transition _ => true
  | _ => false

/-- The callback runs with these CIDs added to its store. -/
def Mutator.Tracks {Cid : Type} (mutator : Mutator Cid) (cid : Cid) : Prop :=
  ∃ cids, mutator = .withExclusiveCids cids ∧ cid ∈ cids

variable {Cid : Type} [LinearOrder Cid]

/-- The locks of a call in the order in which it takes them. -/
def Mutator.locks : Mutator Cid → List Cid
  | withExclusiveCids cids => orderedCids cids
  | transition cid | createIfAbsent cid | setReplicas cid | remove cid => [cid]

/-- The store of the context in which the callback runs: a copy with the locked
CIDs for `withExclusiveCids`, that of the caller for `transition`. -/
def Mutator.workStore (held : Option (Finset Cid)) : Mutator Cid → Option (Finset Cid)
  | withExclusiveCids cids => some (held.getD ∅ ∪ cids.toFinset)
  | _ => held

theorem Mutator.nodup_locks (mutator : Mutator Cid) : mutator.locks.Nodup := by
  cases mutator with
  | withExclusiveCids cids => exact (pairwise_orderedCids cids).imp fun h => h.ne
  | _ => exact List.nodup_singleton _

theorem Mutator.mem_workStore {held : Option (Finset Cid)} {mutator : Mutator Cid} {cid : Cid} :
    cid ∈ (mutator.workStore held).getD ∅ ↔ cid ∈ held.getD ∅ ∨ mutator.Tracks cid := by
  cases mutator with
  | withExclusiveCids cids => simp [workStore, Tracks]
  | _ => simp [workStore, Tracks]

end Calls

/-- A call and the calls whose work made it, innermost first. -/
structure NestedCall (Cid : Type) where
  mutator : Mutator Cid
  chain : List Nat
  /-- The store of the context that made the call. -/
  held : Option (Finset Cid)

/-- Where a call stands; the number counts the locks it has. -/
inductive CallPhase where
  | acquiring (count : Nat)
  | waiting (count : Nat)
  | working
  | releasing (count : Nat)
  /-- It threw the deadlock error. -/
  | throwing (count : Nat)
deriving DecidableEq, Repr

namespace CallPhase

/-- The callback was entered. -/
def Begun : CallPhase → Prop
  | working | releasing _ => True
  | _ => False

def locked {Cid : Type} (locks : List Cid) : CallPhase → List Cid
  | acquiring count | waiting count | releasing count | throwing count => locks.take count
  | working => locks

end CallPhase

structure LockState (Cid : Type) where
  calls : List (NestedCall Cid)
  phase : Nat → CallPhase
  /-- Who asked for a lock; the first has it. -/
  queue : Cid → List Nat

namespace LockState

variable {Cid : Type} [LinearOrder Cid]

def init : LockState Cid where
  calls := []
  phase := fun _ => .acquiring 0
  queue := fun _ => []

def add (s : LockState Cid) (call : NestedCall Cid) : LockState Cid :=
  { s with calls := s.calls ++ [call] }

def goto (s : LockState Cid) (c : Nat) (phase : CallPhase) : LockState Cid :=
  { s with phase := Function.update s.phase c phase }

def enqueue (s : LockState Cid) (cid : Cid) (c : Nat) : LockState Cid :=
  { s with queue := Function.update s.queue cid (s.queue cid ++ [c]) }

def dequeue (s : LockState Cid) (cid : Cid) : LockState Cid :=
  { s with queue := Function.update s.queue cid (s.queue cid).tail }

/-- The chain and the store of a call that the work of another makes, or of one
that nobody's work makes. -/
inductive Context (s : LockState Cid) : Option Nat → List Nat → Option (Finset Cid) → Prop
  | outside : Context s none [] none
  | work {p : Nat} {call : NestedCall Cid} (hcall : s.calls[p]? = some call)
      (hwork : call.mutator.runsWork = true) (hbegun : (s.phase p).Begun) :
      Context s (some p) (p :: call.chain) (call.mutator.workStore call.held)

inductive Label (Cid : Type) where
  | call (parent : Option Nat) (mutator : Mutator Cid)
  | request (c : Nat)
  | grant (c : Nat)
  | enter (c : Nat)
  | finish (c : Nat)
  | release (c : Nat)

/-- One step of one call. -/
inductive Step (s : LockState Cid) : Label Cid → LockState Cid → Prop
  | call {parent : Option Nat} {chain : List Nat} {held : Option (Finset Cid)}
      (mutator : Mutator Cid) (hcontext : s.Context parent chain held) :
      Step s (.call parent mutator)
        ((s.add ⟨mutator, chain, held⟩).goto s.calls.length (.acquiring 0))
  -- the store of the caller has the CID
  | refuse {c count : Nat} {call : NestedCall Cid} {cid : Cid}
      (hcall : s.calls[c]? = some call) (hphase : s.phase c = .acquiring count)
      (hcid : call.mutator.locks[count]? = some cid) (hheld : cid ∈ call.held.getD ∅) :
      Step s (.request c) (s.goto c (.throwing count))
  | enqueue {c count : Nat} {call : NestedCall Cid} {cid : Cid}
      (hcall : s.calls[c]? = some call) (hphase : s.phase c = .acquiring count)
      (hcid : call.mutator.locks[count]? = some cid) (hheld : cid ∉ call.held.getD ∅) :
      Step s (.request c) ((s.enqueue cid c).goto c (.waiting count))
  | grant {c count : Nat} {call : NestedCall Cid} {cid : Cid}
      (hcall : s.calls[c]? = some call) (hphase : s.phase c = .waiting count)
      (hcid : call.mutator.locks[count]? = some cid) (hhead : (s.queue cid).head? = some c) :
      Step s (.grant c) (s.goto c (.acquiring (count + 1)))
  | enter {c count : Nat} {call : NestedCall Cid} (hcall : s.calls[c]? = some call)
      (hphase : s.phase c = .acquiring count) (hall : call.mutator.locks.length ≤ count) :
      Step s (.enter c) (s.goto c .working)
  | finish {c : Nat} {call : NestedCall Cid} (hcall : s.calls[c]? = some call)
      (hphase : s.phase c = .working) :
      Step s (.finish c) (s.goto c (.releasing call.mutator.locks.length))
  | release {c count : Nat} {call : NestedCall Cid} {cid : Cid}
      (hcall : s.calls[c]? = some call) (hphase : s.phase c = .releasing (count + 1))
      (hcid : call.mutator.locks[count]? = some cid) :
      Step s (.release c) ((s.dequeue cid).goto c (.releasing count))
  | unwind {c count : Nat} {call : NestedCall Cid} {cid : Cid}
      (hcall : s.calls[c]? = some call) (hphase : s.phase c = .throwing (count + 1))
      (hcid : call.mutator.locks[count]? = some cid) :
      Step s (.release c) ((s.dequeue cid).goto c (.throwing count))

/-- The call has the lock. -/
def Holds (s : LockState Cid) (c : Nat) (cid : Cid) : Prop :=
  ∃ call, s.calls[c]? = some call ∧ cid ∈ (s.phase c).locked call.mutator.locks

/-- The call is about to ask for the lock. -/
def AsksFor (s : LockState Cid) (c : Nat) (call : NestedCall Cid) (cid : Cid) : Prop :=
  s.calls[c]? = some call ∧
    ∃ count, s.phase c = .acquiring count ∧ call.mutator.locks[count]? = some cid

/-- The call queues for the lock. -/
def WaitsFor (s : LockState Cid) (c : Nat) (call : NestedCall Cid) (cid : Cid) : Prop :=
  s.calls[c]? = some call ∧
    ∃ count, s.phase c = .waiting count ∧ call.mutator.locks[count]? = some cid

/-- A call of the chain has the lock. -/
def ChainHolds (s : LockState Cid) (call : NestedCall Cid) (cid : Cid) : Prop :=
  ∃ a ∈ call.chain, s.Holds a cid

/-- A `withExclusiveCids` of the chain lists the CID. -/
def ChainTracks (s : LockState Cid) (call : NestedCall Cid) (cid : Cid) : Prop :=
  ∃ a ∈ call.chain, ∃ outer, s.calls[a]? = some outer ∧ outer.mutator.Tracks cid

def WaitsForItself (s : LockState Cid) (c : Nat) : Prop :=
  ∃ call cid, s.WaitsFor c call cid ∧ s.ChainHolds call cid

/-- A request for a lock of its own chain is one for a tracked CID. -/
def AsksTracked (s : LockState Cid) : Label Cid → Prop
  | .request c => ∀ call cid, s.AsksFor c call cid → s.ChainHolds call cid → s.ChainTracks call cid
  | _ => True

/-! ## One step -/

variable {s s' : LockState Cid} {l : Label Cid} {c a : Nat} {call : NestedCall Cid} {cid : Cid}

omit [LinearOrder Cid] in
@[simp] theorem phase_goto {phase : CallPhase} : (s.goto c phase).phase c = phase :=
  Function.update_self ..

omit [LinearOrder Cid] in
theorem phase_goto_of_ne {phase : CallPhase} (h : a ≠ c) : (s.goto c phase).phase a = s.phase a :=
  Function.update_of_ne h ..

/-- What every call of a state satisfies: those of its chain are older and run
their work, and the store has what they track. A lock belongs to the first of
its queue. -/
structure Inv (s : LockState Cid) : Prop where
  chain : ∀ (c : Nat) (call : NestedCall Cid), s.calls[c]? = some call →
    ∀ a ∈ call.chain, a < c ∧ (s.phase a).Begun
  store : ∀ (c : Nat) (call : NestedCall Cid), s.calls[c]? = some call →
    ∀ cid, cid ∈ call.held.getD ∅ ↔ s.ChainTracks call cid
  head : ∀ c cid, s.Holds c cid → (s.queue cid).head? = some c

theorem inv_init : Inv (init : LockState Cid) where
  chain := fun c call h => by simp [init] at h
  store := fun c call h => by simp [init] at h
  head := by
    rintro c cid ⟨call, h, -⟩
    simp [init] at h

/-- A step that is not a call moves one call to a next phase. -/
theorem Step.moves (h : Step s l s') : (∃ parent mutator, l = .call parent mutator) ∨
    s'.calls = s.calls ∧ ∃ c phase, s'.phase = Function.update s.phase c phase ∧
      ((s.phase c).Begun → phase.Begun ∧
        ∀ locks : List Cid, ∀ cid ∈ phase.locked locks, cid ∈ (s.phase c).locked locks) := by
  cases h with
  | call mutator hcontext => exact .inl ⟨_, _, rfl⟩
  | refuse _ hphase => exact .inr ⟨rfl, _, _, rfl, fun hb => by rw [hphase] at hb; exact hb.elim⟩
  | enqueue _ hphase => exact .inr ⟨rfl, _, _, rfl, fun hb => by rw [hphase] at hb; exact hb.elim⟩
  | grant _ hphase => exact .inr ⟨rfl, _, _, rfl, fun hb => by rw [hphase] at hb; exact hb.elim⟩
  | enter _ hphase => exact .inr ⟨rfl, _, _, rfl, fun hb => by rw [hphase] at hb; exact hb.elim⟩
  | unwind _ hphase => exact .inr ⟨rfl, _, _, rfl, fun hb => by rw [hphase] at hb; exact hb.elim⟩
  | finish _ hphase =>
      refine .inr ⟨rfl, _, _, rfl, fun _ => ⟨trivial, fun locks cid hmem => ?_⟩⟩
      rw [hphase]
      exact List.mem_of_mem_take hmem
  | release _ hphase =>
      refine .inr ⟨rfl, _, _, rfl, fun _ => ⟨trivial, fun locks cid hmem => ?_⟩⟩
      rw [hphase]
      exact (List.take_subset_take_left _ (Nat.le_succ _)) hmem

/-- Calls that were made stay what they are. -/
theorem Step.call_kept (h : Step s l s') (hcall : s.calls[c]? = some call) :
    s'.calls[c]? = some call := by
  cases h with
  | call mutator hcontext =>
      show (s.calls ++ _)[c]? = some call
      rw [List.getElem?_append_left (List.getElem?_eq_some_iff.mp hcall).1, hcall]
  | _ => exact hcall

/-- A call whose work began goes on, and gains no lock. -/
theorem Step.begun (h : Step s l s') (hcall : s.calls[a]? = some call)
    (hbegun : (s.phase a).Begun) : (s'.phase a).Begun ∧ ∀ cid, s'.Holds a cid → s.Holds a cid := by
  have hsame {call' : NestedCall Cid} (h' : s'.calls[a]? = some call') : call' = call := by
    rw [h.call_kept hcall] at h'
    exact (Option.some.inj h').symm
  have hphase : (s'.phase a).Begun ∧ ∀ locks : List Cid, ∀ cid ∈ (s'.phase a).locked locks,
      cid ∈ (s.phase a).locked locks := by
    rcases h.moves with ⟨parent, mutator, rfl⟩ | ⟨-, c, phase, hupdate, hmoved⟩
    · cases h with
      | call _ hcontext =>
          have hne : a ≠ s.calls.length := (List.getElem?_eq_some_iff.mp hcall).1.ne
          rw [phase_goto_of_ne hne]
          exact ⟨hbegun, fun _ _ hmem => hmem⟩
    · rw [hupdate]
      by_cases heq : a = c
      · subst heq
        rw [Function.update_self]
        exact hmoved hbegun
      · rw [Function.update_of_ne heq]
        exact ⟨hbegun, fun _ _ hmem => hmem⟩
  refine ⟨hphase.1, ?_⟩
  rintro cid ⟨call', h', hmem⟩
  obtain rfl := hsame h'
  exact ⟨call', hcall, hphase.2 _ _ hmem⟩

/-! ### The invariant -/

/-- A step of one call leaves what the others hold. -/
theorem holds_goto_of_ne {phase : CallPhase} (h : a ≠ c) :
    (s.goto c phase).Holds a cid ↔ s.Holds a cid := by
  unfold Holds
  rw [phase_goto_of_ne h]
  exact Iff.rfl

theorem holds_goto_self {phase : CallPhase} (hcall : s.calls[c]? = some call) :
    (s.goto c phase).Holds c cid ↔ cid ∈ phase.locked call.mutator.locks := by
  unfold Holds
  rw [phase_goto]
  constructor
  · rintro ⟨call', hcall', hmem⟩
    obtain rfl : call = call' := Option.some.inj (hcall.symm.trans hcall')
    exact hmem
  · exact fun hmem => ⟨call, hcall, hmem⟩

theorem holds_iff (hcall : s.calls[c]? = some call) :
    s.Holds c cid ↔ cid ∈ (s.phase c).locked call.mutator.locks := by
  constructor
  · rintro ⟨call', hcall', hmem⟩
    obtain rfl : call = call' := Option.some.inj (hcall.symm.trans hcall')
    exact hmem
  · exact fun hmem => ⟨call, hcall, hmem⟩

/-- A call of a chain was made. -/
theorem Inv.exists_call (hinv : s.Inv) (hcall : s.calls[c]? = some call) (ha : a ∈ call.chain) :
    ∃ outer, s.calls[a]? = some outer := by
  have hlt := (hinv.chain c call hcall a ha).1
  have hc := (List.getElem?_eq_some_iff.mp hcall).1
  exact ⟨s.calls[a], List.getElem?_eq_getElem (hlt.trans hc)⟩

/-- What a chain tracks does not change. -/
theorem Step.chainTracks_iff (h : Step s l s') (hinv : s.Inv) (hcall : s.calls[c]? = some call) :
    s'.ChainTracks call cid ↔ s.ChainTracks call cid := by
  constructor
  · rintro ⟨a, ha, outer, houter, htracks⟩
    obtain ⟨outer', houter'⟩ := hinv.exists_call hcall ha
    rw [h.call_kept houter'] at houter
    obtain rfl := Option.some.inj houter
    exact ⟨a, ha, _, houter', htracks⟩
  · rintro ⟨a, ha, outer, houter, htracks⟩
    exact ⟨a, ha, outer, h.call_kept houter, htracks⟩

/-- The chain of a call gains no lock. -/
theorem Step.chainHolds (h : Step s l s') (hinv : s.Inv) (hcall : s.calls[c]? = some call)
    (hholds : s'.ChainHolds call cid) : s.ChainHolds call cid := by
  obtain ⟨a, ha, hholds⟩ := hholds
  obtain ⟨outer, houter⟩ := hinv.exists_call hcall ha
  exact ⟨a, ha, (h.begun houter (hinv.chain c call hcall a ha).2).2 cid hholds⟩

/-- A call of the next state was there, or is the one that was made. -/
theorem Step.call_cases (h : Step s l s') (hcall : s'.calls[c]? = some call) :
    s.calls[c]? = some call ∨
      c = s.calls.length ∧ ∃ parent, s.Context parent call.chain call.held := by
  rcases h.moves with ⟨parent, mutator, rfl⟩ | ⟨hcalls, -⟩
  · cases h with
    | call _ hcontext =>
        have hcall : (s.calls ++ [_])[c]? = some call := hcall
        rcases Nat.lt_or_ge c s.calls.length with hlt | hge
        · rw [List.getElem?_append_left hlt] at hcall
          exact .inl hcall
        · rw [List.getElem?_append_right hge, List.getElem?_singleton] at hcall
          split at hcall
          · cases hcall
            exact .inr ⟨by omega, _, hcontext⟩
          · cases hcall
  · rw [hcalls] at hcall
    exact .inl hcall

theorem Inv.chain_step (hinv : s.Inv) (h : Step s l s') :
    ∀ (c : Nat) (call : NestedCall Cid), s'.calls[c]? = some call →
      ∀ a ∈ call.chain, a < c ∧ (s'.phase a).Begun := by
  -- a call that was there keeps its chain, whose members go on
  have hold {c : Nat} {call : NestedCall Cid} (hcall : s.calls[c]? = some call) :
      ∀ a ∈ call.chain, a < c ∧ (s'.phase a).Begun := by
    intro a ha
    obtain ⟨outer, houter⟩ := hinv.exists_call hcall ha
    have hchain := hinv.chain c call hcall a ha
    exact ⟨hchain.1, (h.begun houter hchain.2).1⟩
  intro c call hcall
  rcases h.call_cases hcall with hcall | ⟨rfl, parent, hcontext⟩
  · exact hold hcall
  · intro a ha
    generalize call.chain = chain at hcontext ha
    generalize call.held = held at hcontext
    cases hcontext with
    | outside => simp at ha
    | @work p outer houter hwork hbegun =>
        have hp := (List.getElem?_eq_some_iff.mp houter).1
        rcases List.mem_cons.mp ha with rfl | ha
        · exact ⟨hp, (h.begun houter hbegun).1⟩
        · exact ⟨(hold houter a ha).1.trans hp, (hold houter a ha).2⟩

theorem Inv.store_step (hinv : s.Inv) (h : Step s l s') :
    ∀ (c : Nat) (call : NestedCall Cid), s'.calls[c]? = some call →
      ∀ cid, cid ∈ call.held.getD ∅ ↔ s'.ChainTracks call cid := by
  intro c call hcall cid
  rcases h.call_cases hcall with hcall | ⟨rfl, parent, hcontext⟩
  · rw [h.chainTracks_iff hinv hcall]
    exact hinv.store c call hcall cid
  · unfold ChainTracks
    generalize call.chain = chain at hcontext
    generalize call.held = held at hcontext
    cases hcontext with
    | outside => simp
    | @work p outer houter hwork hbegun =>
        rw [Mutator.mem_workStore, hinv.store p outer houter cid,
          ← h.chainTracks_iff hinv houter]
        constructor
        · rintro (⟨a, ha, htracks⟩ | htracks)
          · exact ⟨a, List.mem_cons_of_mem _ ha, htracks⟩
          · exact ⟨p, List.mem_cons_self, outer, h.call_kept houter, htracks⟩
        · rintro ⟨a, ha, inner, hinner, htracks⟩
          rcases List.mem_cons.mp ha with rfl | ha
          · rw [h.call_kept houter] at hinner
            cases hinner
            exact .inr htracks
          · exact .inl ⟨a, ha, inner, hinner, htracks⟩

/-- Who gives a lock back was the first of its queue. -/
theorem Inv.head_dequeue (hinv : s.Inv) (hcall : s.calls[c]? = some call) {count : Nat}
    {phase : CallPhase} (hlocked : ∀ locks : List Cid, phase.locked locks = locks.take count)
    (hphase : (s.phase c).locked call.mutator.locks = call.mutator.locks.take (count + 1))
    (hcid : call.mutator.locks[count]? = some cid) :
    ∀ (a : Nat) (cid' : Cid), ((s.dequeue cid).goto c phase).Holds a cid' →
      (Function.update s.queue cid (s.queue cid).tail cid').head? = some a := by
  intro a cid' hholds
  have hnodup := call.mutator.nodup_locks
  obtain ⟨hcount, hget⟩ := List.getElem?_eq_some_iff.mp hcid
  have htake := List.take_succ_eq_append_getElem hcount
  rw [hget] at htake
  have hown : s.Holds c cid := by
    rw [holds_iff hcall, hphase, htake]
    simp
  by_cases hac : a = c
  · subst hac
    have hcall' : (s.dequeue cid).calls[a]? = some call := hcall
    rw [holds_goto_self hcall', hlocked] at hholds
    have hne : cid' ≠ cid := by
      rintro rfl
      have hnodup' := (List.take_sublist (count + 1) _).nodup hnodup
      rw [htake] at hnodup'
      exact (List.nodup_append.mp hnodup').2.2 cid' hholds cid' (by simp) rfl
    rw [Function.update_of_ne hne]
    refine hinv.head a cid' ((holds_iff hcall).mpr ?_)
    rw [hphase, htake]
    exact List.mem_append_left _ hholds
  · have hfirst := hinv.head a cid' ((holds_goto_of_ne hac).mp hholds)
    have hne : cid' ≠ cid := by
      rintro rfl
      exact hac (Option.some.inj (hfirst.symm.trans (hinv.head c cid' hown)))
    rw [Function.update_of_ne hne]
    exact hfirst

/-- A step that changes no queue and gives its call only a lock it is first for. -/
theorem Inv.head_goto (hinv : s.Inv) (hcall : s.calls[c]? = some call) {phase : CallPhase}
    (hlocked : ∀ cid ∈ phase.locked call.mutator.locks,
      cid ∈ (s.phase c).locked call.mutator.locks ∨ (s.queue cid).head? = some c) :
    ∀ (a : Nat) (cid : Cid), (s.goto c phase).Holds a cid → (s.queue cid).head? = some a := by
  intro a cid hholds
  by_cases hac : a = c
  · subst hac
    rw [holds_goto_self hcall] at hholds
    rcases hlocked cid hholds with hheld | hfirst
    · exact hinv.head a cid ((holds_iff hcall).mpr hheld)
    · exact hfirst
  · exact hinv.head a cid ((holds_goto_of_ne hac).mp hholds)

theorem Inv.head_step (hinv : s.Inv) (h : Step s l s') :
    ∀ (c : Nat) (cid : Cid), s'.Holds c cid → (s'.queue cid).head? = some c := by
  cases h with
  | @call parent chain held mutator hcontext =>
      intro c cid hholds
      obtain ⟨call, hcall, hmem⟩ := hholds
      rcases (Step.call mutator hcontext).call_cases hcall with hcall | ⟨rfl, -⟩
      · rw [phase_goto_of_ne (List.getElem?_eq_some_iff.mp hcall).1.ne] at hmem
        exact hinv.head c cid ⟨call, hcall, hmem⟩
      · rw [phase_goto] at hmem
        simp [CallPhase.locked] at hmem
  | refuse hcall hphase =>
      refine hinv.head_goto hcall fun cid hmem => .inl ?_
      rw [hphase]
      exact hmem
  | @enqueue c count call cid hcall hphase hcid hheld =>
      intro a cid' hholds
      have hfirst : (s.queue cid').head? = some a := by
        refine hinv.head_goto hcall (fun cid hmem => .inl ?_) a cid' hholds
        rw [hphase]
        exact hmem
      by_cases heq : cid' = cid
      · subst heq
        show (Function.update s.queue cid' (s.queue cid' ++ [c]) cid').head? = some a
        rw [Function.update_self, List.head?_append, hfirst]
        rfl
      · show (Function.update s.queue cid (s.queue cid ++ [c]) cid').head? = some a
        rw [Function.update_of_ne heq]
        exact hfirst
  | grant hcall hphase hcid hhead =>
      refine hinv.head_goto hcall fun cid' hmem => ?_
      obtain ⟨hcount, hget⟩ := List.getElem?_eq_some_iff.mp hcid
      rw [CallPhase.locked, List.take_succ_eq_append_getElem hcount, hget] at hmem
      rcases List.mem_append.mp hmem with hmem | hmem
      · rw [hphase]
        exact .inl hmem
      · obtain rfl := List.mem_singleton.mp hmem
        exact .inr hhead
  | enter hcall hphase hall =>
      refine hinv.head_goto hcall fun cid hmem => .inl ?_
      rw [hphase, CallPhase.locked, List.take_of_length_le hall]
      exact hmem
  | finish hcall hphase =>
      refine hinv.head_goto hcall fun cid hmem => .inl ?_
      rw [hphase]
      exact List.mem_of_mem_take hmem
  | release hcall hphase hcid =>
      exact hinv.head_dequeue hcall (fun _ => rfl) (by rw [hphase]; rfl) hcid
  | unwind hcall hphase hcid =>
      exact hinv.head_dequeue hcall (fun _ => rfl) (by rw [hphase]; rfl) hcid

theorem Inv.step (hinv : s.Inv) (h : Step s l s') : s'.Inv :=
  ⟨hinv.chain_step h, hinv.store_step h, hinv.head_step h⟩

theorem inv_of_run {ok : LockState Cid → Label Cid → Prop} (h : Run Step ok init s) : s.Inv :=
  h.invariant inv_init fun _ _ _ hinv _ hstep => hinv.step hstep

/-! ### Waiting -/

theorem waitsFor_of_goto {phase : CallPhase} (h : (s.goto c phase).WaitsFor a call cid)
    (hne : ∀ count, phase ≠ .waiting count) : s.WaitsFor a call cid := by
  obtain ⟨hcall, count, hphase, hcid⟩ := h
  by_cases hac : a = c
  · subst hac
    rw [phase_goto] at hphase
    exact absurd hphase (hne count)
  · rw [phase_goto_of_ne hac] at hphase
    exact ⟨hcall, count, hphase, hcid⟩

/-- A call waits since before, or since it asked in vain. -/
theorem Step.waitsFor_cases (h : Step s l s') (hwaits : s'.WaitsFor a call cid) :
    s.WaitsFor a call cid ∨
      l = .request a ∧ s.AsksFor a call cid ∧ cid ∉ call.held.getD ∅ := by
  cases h with
  | call mutator hcontext =>
      obtain ⟨hcall, count, hphase, hcid⟩ := waitsFor_of_goto hwaits nofun
      rcases (Step.call mutator hcontext).call_cases hcall with hcall | ⟨rfl, -⟩
      · exact .inl ⟨hcall, count, hphase, hcid⟩
      · obtain ⟨-, _, hphase, -⟩ := hwaits
        rw [phase_goto] at hphase
        cases hphase
  | @enqueue c count call' cid' hcall hphase hcid hheld =>
      obtain ⟨hcall', count', hphase', hcid'⟩ := hwaits
      by_cases hac : a = c
      · subst hac
        rw [phase_goto] at hphase'
        cases hphase'
        cases Option.some.inj (hcall.symm.trans hcall')
        cases Option.some.inj (hcid.symm.trans hcid')
        exact .inr ⟨rfl, ⟨hcall, count, hphase, hcid⟩, hheld⟩
      · rw [phase_goto_of_ne hac] at hphase'
        exact .inl ⟨hcall', count', hphase', hcid'⟩
  | release _ _ _ => exact .inl (waitsFor_of_goto (s := s.dequeue _) hwaits nofun)
  | unwind _ _ _ => exact .inl (waitsFor_of_goto (s := s.dequeue _) hwaits nofun)
  | _ => exact .inl (waitsFor_of_goto hwaits nofun)

/-- The one that asks for a lock of its own chain throws where the chain tracks
the CID, and queues behind its chain where not. -/
theorem Step.asked (h : Step s (.request c) s') (hinv : s.Inv) (hasks : s.AsksFor c call cid)
    (hholds : s.ChainHolds call cid) :
    (s.ChainTracks call cid ∧ ∃ count, s'.phase c = .throwing count) ∨
      ¬s.ChainTracks call cid ∧ s'.WaitsForItself c ∧ ∀ s'', ¬Step s' (.grant c) s'' := by
  obtain ⟨hcall, count, hphase, hcid⟩ := hasks
  have hstore := hinv.store c call hcall cid
  have hgoes := h
  cases h with
  | @refuse _ count' call' cid' hcall' hphase' hcid' hheld =>
      cases Option.some.inj (hcall.symm.trans hcall')
      cases CallPhase.acquiring.inj (hphase.symm.trans hphase')
      cases Option.some.inj (hcid.symm.trans hcid')
      exact .inl ⟨hstore.mp hheld, count, phase_goto⟩
  | @enqueue _ count' call' cid' hcall' hphase' hcid' hheld =>
      cases Option.some.inj (hcall.symm.trans hcall')
      cases CallPhase.acquiring.inj (hphase.symm.trans hphase')
      cases Option.some.inj (hcid.symm.trans hcid')
      obtain ⟨a, ha, hown⟩ := hholds
      have hne : a ≠ c := (hinv.chain c call hcall a ha).1.ne
      have hown' : ((s.enqueue cid c).goto c (.waiting count)).Holds a cid :=
        (holds_goto_of_ne hne).mpr hown
      refine .inr ⟨fun htracks => hheld (hstore.mpr htracks),
        ⟨call, cid, ⟨hcall, count, phase_goto, hcid⟩, a, ha, hown'⟩, fun s'' hgrant => ?_⟩
      -- the first of the queue is the call of the chain
      have hfirst := (hinv.step hgoes).head a cid hown'
      cases hgrant with
      | grant hcall'' hphase'' hcid'' hhead =>
          cases Option.some.inj (hcall.symm.trans hcall'')
          cases CallPhase.waiting.inj (phase_goto.symm.trans hphase'')
          cases Option.some.inj (hcid.symm.trans hcid'')
          exact hne (Option.some.inj (hfirst.symm.trans hhead))

/-- Where nobody asks for an untracked lock of its chain, nobody waits for one. -/
theorem not_waitsForItself (h : Run Step AsksTracked init s) (c : Nat) : ¬s.WaitsForItself c := by
  refine (h.invariant (I := fun s => s.Inv ∧ ∀ c, ¬s.WaitsForItself c) ⟨inv_init, ?_⟩ ?_).2 c
  · rintro c ⟨call, cid, ⟨hcall, -⟩, -⟩
    simp [init] at hcall
  · rintro s l s' ⟨hinv, hquiet⟩ hok hstep
    refine ⟨hinv.step hstep, ?_⟩
    rintro c ⟨call, cid, hwaits, hholds⟩
    rcases hstep.waitsFor_cases hwaits with hwaits | ⟨rfl, hasks, hheld⟩
    · exact hquiet c ⟨call, cid, hwaits, hstep.chainHolds hinv hwaits.1 hholds⟩
    · have htracks := hok call cid hasks (hstep.chainHolds hinv hasks.1 hholds)
      exact hheld ((hinv.store c call hasks.1 cid).mpr htracks)

/-- In every state that calls of the registry reach, however they nest: a call
that asks for a lock its own chain holds throws exactly when a
`withExclusiveCids` of the chain lists the CID, and otherwise queues behind its
chain and is not granted. In runs without such untracked requests no call ever
waits for a lock of its own chain. -/
theorem nested_locking_iff :
    (∀ s : LockState Cid, Run Step always init s →
      ∀ c call cid s', s.AsksFor c call cid → s.ChainHolds call cid → Step s (.request c) s' →
        ((∃ count, s'.phase c = .throwing count) ↔ s.ChainTracks call cid) ∧
        (¬s.ChainTracks call cid →
          s'.WaitsForItself c ∧ ∀ s'', ¬Step s' (.grant c) s'')) ∧
    ∀ s : LockState Cid, Run Step AsksTracked init s → ∀ c, ¬s.WaitsForItself c := by
  refine ⟨fun s hrun c call cid s' hasks hholds hstep => ?_, fun s hrun c =>
    not_waitsForItself hrun c⟩
  rcases hstep.asked (inv_of_run hrun) hasks hholds with ⟨htracks, hthrows⟩ | ⟨hnot, hwaits⟩
  · exact ⟨iff_of_true hthrows htracks, fun hnot => absurd htracks hnot⟩
  · refine ⟨iff_of_false ?_ hnot, fun _ => hwaits⟩
    rintro ⟨count, hthrows⟩
    obtain ⟨_, _, ⟨-, _, hphase, -⟩, -⟩ := hwaits.1
    rw [hthrows] at hphase
    cases hphase

end LockState

namespace Untracked

open LockState

def outer : NestedCall Nat := ⟨.transition 7, [], none⟩

def inner : NestedCall Nat := ⟨.withExclusiveCids [7], [0], none⟩

/-- The work of the transition runs under its lock. -/
def entered : LockState Nat :=
  (((((init.add outer).goto 0 (.acquiring 0)).enqueue 7 0).goto 0 (.waiting 0)).goto 0
    (.acquiring 1)).goto 0 .working

/-- It calls the registry again. -/
def called : LockState Nat := (entered.add inner).goto 1 (.acquiring 0)

def asked : LockState Nat := (called.enqueue 7 1).goto 1 (.waiting 0)

theorem run_entered : Run Step always init entered := by
  have hcalled : Run Step always init ((init.add outer).goto 0 (.acquiring 0)) :=
    .next (a := .call none (.transition 7)) .start trivial (.call _ .outside)
  have hasked := hcalled.next (a := .request 0) trivial
    (.enqueue (show _ = some outer from rfl) rfl rfl (by decide))
  have hgranted := hasked.next (a := .grant 0) trivial
    (.grant (show _ = some outer from rfl) rfl (show _ = some 7 from rfl) rfl)
  exact hgranted.next (a := .enter 0) trivial
    (.enter (show _ = some outer from rfl) rfl le_rfl)

theorem run_called : Run Step always init called :=
  .next (a := .call (some 0) (.withExclusiveCids [7])) run_entered trivial
    (.call _ (.work (show _ = some outer from rfl) rfl trivial))

theorem step_asked : Step called (.request 1) asked :=
  .enqueue (show _ = some inner from rfl) rfl rfl (by decide)

theorem asksFor_called : called.AsksFor 1 inner 7 := ⟨rfl, 0, rfl, rfl⟩

theorem chainHolds_called : called.ChainHolds inner 7 :=
  ⟨0, List.mem_singleton_self 0, outer, rfl, List.mem_singleton_self 7⟩

theorem not_chainTracks_called : ¬called.ChainTracks inner 7 := by
  rintro ⟨a, ha, call, hcall, cids, htracks, -⟩
  obtain rfl := List.mem_singleton.mp ha
  cases hcall
  cases htracks

end Untracked

open LockState Untracked in
/-- The work of a transition that locks its own CID waits behind itself. -/
theorem nested_locking_of_transition : ∀ s, ¬Step asked (.grant 1) s :=
  ((nested_locking_iff.1 called run_called 1 inner 7 asked asksFor_called chainHolds_called
    step_asked).2 not_chainTracks_called).2

open LockState Untracked in
/-- Its call does not throw. -/
theorem transition_relocks_silently :
    ¬ ∀ s : LockState Nat, Run Step always init s →
      ∀ c call cid s', s.AsksFor c call cid → s.ChainHolds call cid → Step s (.request c) s' →
        ∃ count, s'.phase c = .throwing count := by
  intro h
  obtain ⟨count, hthrows⟩ := h called run_called 1 inner 7 asked asksFor_called chainHolds_called
    step_asked
  cases hthrows

end IpfsNode
