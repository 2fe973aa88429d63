import IpfsNode.KeyedLock
import IpfsNode.Node
import IpfsNode.Placement

/-!
# The locks of the registry

Every compound operation of the registry reads a record, decides from it and
writes the result while it holds the lock of the CID: `transition`,
`createIfAbsent`, `setReplicas` and `remove` under one lock,
`withExclusiveCids` under those of several CIDs in lexical order. Their
callbacks may call anything, the datastore may fail at any point, and any number
of them may run at once.

What a callback touches of the registry are the CIDs whose locks it holds; a
callback that asks for another lock is not of this module.
-/

namespace IpfsNode

open KeyedLock

section Calls

/-- What a callback calls: the registry, or anything else. -/
inductive RegistryOp (Cid Other : Type) where
  | get (cid : Cid)
  | save (record : FileRecord Cid)
  | removeRecord (cid : Cid)
  | other (o : Other)

variable {Cid Other T : Type} {Answer : Other → Type}

/-- A record is found under its own CID only. -/
def RegistryOp.Ret (Answer : Other → Type) : RegistryOp Cid Other → Type
  | get cid => Option { record : FileRecord Cid // record.cid = cid }
  | save _ => FileRecord Cid
  | removeRecord _ => Unit
  | other o => Answer o

/-- The call concerns none but the given CIDs. -/
def RegistryOp.On (cids : List Cid) : RegistryOp Cid Other → Prop
  | get cid | removeRecord cid => cid ∈ cids
  | save record => record.cid ∈ cids
  | other _ => True

theorem RegistryOp.On.mono {cids cids' : List Cid} (hcids : ∀ cid ∈ cids, cid ∈ cids')
    {o : RegistryOp Cid Other} (h : o.On cids) : o.On cids' := by
  cases o with
  | get cid | removeRecord cid => exact hcids cid h
  | save record => exact hcids record.cid h
  | other o => trivial

abbrev RegistryWork (Cid Other : Type) (Answer : Other → Type) (T : Type) :=
  Prog (RegistryOp Cid Other) (RegistryOp.Ret Answer) (LifecycleError Cid) T

/-- What a transition decides. -/
inductive Transition (cid : Cid) where
  | save (record : FileRecord Cid) (h : record.cid = cid)
  | remove
  | keep

/-- What a call answers: the result of its callback, or the stored record. -/
inductive RegistryAnswer (Cid T : Type) where
  | result (value : T)
  | stored (record : Option (FileRecord Cid))

inductive RegistryCall (Cid Other : Type) (Answer : Other → Type) (T : Type) where
  | withExclusiveCids (cids : List Cid) (work : RegistryWork Cid Other Answer T)
      (h : Prog.Requests (RegistryOp.On cids) work)
  | transition (cid : Cid)
      (work : Option { record : FileRecord Cid // record.cid = cid } →
        RegistryWork Cid Other Answer (Transition cid))
      (h : ∀ current, Prog.Requests (RegistryOp.On [cid]) (work current))
  | createIfAbsent (record : FileRecord Cid)
  | setReplicas (cid : Cid) (replicas : List String)
  | remove (cid : Cid)

namespace RegistryCall

/-- What a call does under its locks. -/
def body : RegistryCall Cid Other Answer T →
    RegistryWork Cid Other Answer (RegistryAnswer Cid T)
  | withExclusiveCids _ work _ => do
      let value ← work
      pure (.result value)
  | transition cid work _ => do
      let current ← Prog.perform (RegistryOp.get cid)
      let outcome ← work current
      match outcome with
      | .keep => pure (.stored none)
      | .remove => do
          Prog.perform (RegistryOp.removeRecord cid)
          pure (.stored none)
      | .save record _ => do
          let stored ← Prog.perform (RegistryOp.save record)
          pure (.stored (some stored))
  | createIfAbsent record => do
      let existing : Option { r : FileRecord Cid // r.cid = record.cid } ←
        Prog.perform (RegistryOp.get record.cid)
      match existing with
      | some _ => pure (.stored none)
      | none => do
          let stored ← Prog.perform (RegistryOp.save record)
          pure (.stored (some stored))
  | setReplicas cid replicas => do
      let record : Option { r : FileRecord Cid // r.cid = cid } ←
        Prog.perform (RegistryOp.get cid)
      match record with
      | none => pure (.stored none)
      | some record => do
          let stored ← Prog.perform (RegistryOp.save { record.val with replicas })
          pure (.stored (some stored))
  | remove cid => do
      Prog.perform (RegistryOp.removeRecord cid)
      pure (.stored none)

/-- The CIDs whose locks a call takes. -/
def cids : RegistryCall Cid Other Answer T → List Cid
  | withExclusiveCids cids _ _ => cids
  | transition cid _ _ | setReplicas cid _ | remove cid => [cid]
  | createIfAbsent record => [record.cid]

theorem requests_body (call : RegistryCall Cid Other Answer T) :
    Prog.Requests (RegistryOp.On call.cids) call.body := by
  cases call with
  | withExclusiveCids cids work h => exact h.bind fun _ => trivial
  | transition cid work h =>
      have hcid : cid ∈ [cid] := List.mem_singleton_self cid
      refine Prog.Requests.bind (Prog.Requests.perform hcid) fun current => ?_
      refine Prog.Requests.bind (h current) fun outcome => ?_
      cases outcome with
      | keep => trivial
      | remove => exact Prog.Requests.bind (Prog.Requests.perform hcid) fun _ => trivial
      | save record hrecord =>
          have hsave : record.cid ∈ [cid] := List.mem_singleton.mpr hrecord
          exact Prog.Requests.bind (Prog.Requests.perform hsave) fun _ => trivial
  | createIfAbsent record =>
      have hcid : record.cid ∈ [record.cid] := List.mem_singleton_self _
      refine Prog.Requests.bind (Prog.Requests.perform hcid) fun existing => ?_
      cases existing with
      | some _ => trivial
      | none => exact Prog.Requests.bind (Prog.Requests.perform hcid) fun _ => trivial
  | setReplicas cid replicas =>
      have hcid : cid ∈ [cid] := List.mem_singleton_self cid
      refine Prog.Requests.bind (Prog.Requests.perform hcid) fun record => ?_
      cases record with
      | none => trivial
      | some record =>
          have hsave : record.val.cid ∈ [cid] := List.mem_singleton.mpr record.property
          exact Prog.Requests.bind (Prog.Requests.perform hsave) fun _ => trivial
  | remove cid =>
      have hcid : cid ∈ [cid] := List.mem_singleton_self cid
      exact Prog.Requests.bind (Prog.Requests.perform hcid) fun _ => trivial

end RegistryCall

end Calls

/-! ## The registry under locks -/

section Semantics

variable {Cid Other T : Type} {Answer : Other → Type} [LinearOrder Cid]

/-- Calls of the datastore may fail, writes before or after they landed; every
stored record gets a new revision. -/
def registrySem (Cid : Type) [LinearOrder Cid] {Other : Type} (Answer : Other → Type) :
    Prog.Sem (RegistryOp Cid Other) (RegistryOp.Ret Answer) (LifecycleError Cid)
      (Cid → Option (FileRecord Cid))
  | .get cid, files, r, files' => files' = files ∧
      ((∃ record : Option { record : FileRecord Cid // record.cid = cid },
        r = .ok record ∧ record.map Subtype.val = files cid) ∨ ∃ err, r = .error err)
  | .save record, files, r, files' =>
      (∃ revision, isFileRecord record = true ∧
        files' = Function.update files record.cid (some (record.stamped revision)) ∧
        (r = .ok (record.stamped revision) ∨ ∃ err, r = .error err)) ∨
      files' = files ∧ ∃ err, r = .error err
  | .removeRecord cid, files, r, files' =>
      (files' = Function.update files cid none ∧ (r = .ok () ∨ ∃ err, r = .error err)) ∨
      files' = files ∧ ∃ err, r = .error err
  | .other _, files, _, files' => files' = files

theorem registrySem_total (o : RegistryOp Cid Other) (files : Cid → Option (FileRecord Cid)) :
    ∃ r files', registrySem Cid Answer o files r files' := by
  cases o with
  | get cid => exact ⟨.error .io, files, rfl, .inr ⟨_, rfl⟩⟩
  | save record => exact ⟨.error .io, files, .inr ⟨rfl, _, rfl⟩⟩
  | removeRecord cid => exact ⟨.error .io, files, .inr ⟨rfl, _, rfl⟩⟩
  | other o => exact ⟨.error .io, files, rfl⟩

/-- A write of one value does the same to any two stores that agree on it. -/
theorem update_local {V : Type} {keys : List Cid} {cid : Cid} (hcid : cid ∈ keys) (v : V)
    {σ τ : Cid → V} (h : ∀ k ∈ keys, τ k = σ k) :
    ∀ k ∈ keys, Function.update τ cid v k = Function.update σ cid v k := by
  intro k hk
  by_cases heq : k = cid
  · subst heq
    rw [Function.update_self, Function.update_self]
  · rw [Function.update_of_ne heq, Function.update_of_ne heq, h k hk]

/-- A call that concerns some CIDs reads and changes nothing of the others. -/
theorem localTo_of_on {keys : List Cid} {o : RegistryOp Cid Other} (h : o.On keys) :
    LocalTo (registrySem Cid Answer) keys o where
  frame := by
    intro σ r σ' hstep k hk
    cases o with
    | get cid => rw [hstep.1]
    | other o => exact congrFun hstep k
    | save record =>
        have hne : k ≠ record.cid := fun heq => hk (heq ▸ h)
        rcases hstep with ⟨_, _, rfl, -⟩ | ⟨rfl, -⟩
        · exact Function.update_of_ne hne ..
        · rfl
    | removeRecord cid =>
        have hne : k ≠ cid := fun heq => hk (heq ▸ h)
        rcases hstep with ⟨rfl, -⟩ | ⟨rfl, -⟩
        · exact Function.update_of_ne hne ..
        · rfl
  agree := by
    intro σ r σ' τ hstep hτ
    cases o with
    | get cid =>
        obtain ⟨rfl, hr⟩ := hstep
        refine ⟨τ, ⟨rfl, hr.imp ?_ id⟩, hτ⟩
        rintro ⟨record, hrecord, hget⟩
        exact ⟨record, hrecord, hget.trans (hτ cid h).symm⟩
    | other o =>
        obtain rfl : σ' = σ := hstep
        exact ⟨τ, rfl, hτ⟩
    | save record =>
        rcases hstep with ⟨revision, hvalid, rfl, hr⟩ | ⟨rfl, hr⟩
        · exact ⟨_, .inl ⟨revision, hvalid, rfl, hr⟩, update_local h _ hτ⟩
        · exact ⟨τ, .inr ⟨rfl, hr⟩, hτ⟩
    | removeRecord cid =>
        rcases hstep with ⟨rfl, hr⟩ | ⟨rfl, hr⟩
        · exact ⟨_, .inl ⟨rfl, hr⟩, update_local h _ hτ⟩
        · exact ⟨τ, .inr ⟨rfl, hr⟩, hτ⟩

/-- The CIDs in the order in which their locks are taken. -/
def orderedCids (cids : List Cid) : List Cid :=
  cids.eraseDups.insertionSort (· ≤ ·)

theorem mem_orderedCids {cids : List Cid} {cid : Cid} : cid ∈ orderedCids cids ↔ cid ∈ cids :=
  (List.mem_insertionSort _).trans List.mem_eraseDups

theorem pairwise_orderedCids (cids : List Cid) : (orderedCids cids).Pairwise (· < ·) := by
  have hle : (orderedCids cids).Pairwise (· ≤ ·) := List.pairwise_insertionSort _ _
  have hne : (orderedCids cids).Pairwise (· ≠ ·) :=
    (List.perm_insertionSort (· ≤ ·) cids.eraseDups).nodup_iff.mpr (nodup_eraseDups cids)
  exact (hle.and hne).imp fun h => lt_of_le_of_ne h.1 h.2

/-- The call with its locks. -/
def RegistryCall.locked (call : RegistryCall Cid Other Answer T) :
    Call (registrySem Cid Answer) (RegistryAnswer Cid T) where
  keys := orderedCids call.cids
  ordered := pairwise_orderedCids call.cids
  body := call.body
  within := call.requests_body.mono fun _ h =>
    localTo_of_on (RegistryOp.On.mono (fun _ hcid => mem_orderedCids.mpr hcid) h)

/-- Any calls of one registry at once: at most one holds a CID, CIDs are granted
in the order requested, the registry is what the calls make of it one after the
other in that order, all of them get to their end, and then the map is empty. -/
theorem registry_locking {n : Nat} (calls : Fin n → RegistryCall Cid Other Answer T)
    (files : Cid → Option (FileRecord Cid)) :
    (WellFounded fun s' s => Step (fun c => (calls c).locked) s s') ∧
    ∀ s, Reach (fun c => (calls c).locked) files s →
      (∀ cid c c', (s.lock (fun c => (calls c).locked) c cid).Inside →
        (s.lock (fun c => (calls c).locked) c' cid).Inside → c = c') ∧
      (∀ cid, grantsOf s.log cid <+: requestsOf s.log cid ∧
        ((finishedOf s.log).map Prod.fst).filter (fun c => cid ∈ (calls c).cids)
          <+: grantsOf s.log cid) ∧
      (∃ σ, Serial (fun c => (calls c).locked) files (finishedOf s.log) σ ∧
        ∀ cid, (∀ c p, s.phase c = .working p → cid ∉ (calls c).cids) → s.store cid = σ cid) ∧
      ((finishedOf s.log).map Prod.fst).Nodup ∧
      (∀ c r, s.Done c r → (c, r) ∈ finishedOf s.log) ∧
      ((∀ c, ∃ r, s.Done c r) ∨ ∃ s', Step (fun c => (calls c).locked) s s') ∧
      ((∀ c, ∃ r, s.Done c r) →
        (∀ cid, s.queued cid = none) ∧
          Serial (fun c => (calls c).locked) files (finishedOf s.log) s.store) := by
  refine ⟨wellFounded_step, fun s hreach => ⟨?_, ?_, ?_, ?_, ?_, ?_, ?_⟩⟩
  · exact fun cid c c' hc hc' => (chain_inv hreach cid).unique hc hc'
  · intro cid
    refine ⟨(chain_inv hreach cid).grants_front, ?_⟩
    have hfinished := finished_prefix hreach cid
    simpa [RegistryCall.locked, mem_orderedCids] using hfinished
  · obtain ⟨σ, hserial, -, hidle⟩ := serialized hreach
    refine ⟨σ, hserial, fun cid hcid => hidle cid fun c p hp hmem => ?_⟩
    exact hcid c p hp (mem_orderedCids.mp hmem)
  · exact (mem_finishedOf hreach).2
  · intro c r hdone
    refine ((mem_finishedOf hreach).1 c r).mpr ?_
    rw [show s.phase c = .releasing 0 r from hdone]
    rfl
  · by_cases hdone : ∀ c, ∃ r, s.Done c r
    · exact .inl hdone
    · push Not at hdone
      obtain ⟨c, hc⟩ := hdone
      exact .inr (exists_step registrySem_total hreach hc)
  · exact fun hdone => ⟨queued_of_done hreach hdone, serial_of_done hreach hdone⟩

end Semantics

/-- A callback under two locks, the second of which `setReplicas` asks for too. -/
def overlappingCalls : Fin 2 → RegistryCall String Empty (fun _ => Unit) Unit
  | 0 => .withExclusiveCids ["b", "a"] (pure ()) trivial
  | 1 => .setReplicas "a" ["left"]

theorem registry_locking_overlapping :
    ∃ s, Reach (fun c => (overlappingCalls c).locked) (fun _ => none) s ∧
      (∀ c, ∃ r, s.Done c r) ∧ ∀ cid, s.queued cid = none := by
  have hstart : Reach (fun c => (overlappingCalls c).locked) (fun _ => none) (State.init _) :=
    .refl
  obtain ⟨s, hreach, hdone⟩ := exists_done registrySem_total hstart
  have hlocking := (registry_locking overlappingCalls (fun _ => none)).2 s hreach
  exact ⟨s, hreach, hdone, (hlocking.2.2.2.2.2.2 hdone).1⟩

end IpfsNode
