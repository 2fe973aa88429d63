import Mathlib.Data.List.Nodup
import Mathlib.Data.List.Range
import Mathlib.Tactic.Cases
import Mathlib.Tactic.Push

/-!
# The storage operation lock

Work that builds or protects DAGs holds a shared lease, and Helia deletes blocks
under the exclusive one. Requests wait in the order in which they arrived; a
lease that is released twice is released once. `fair_lock` says what holds after
any calls, and that a release that frees the lock grants the head of the queue.
-/

namespace IpfsNode

/-! ## The code -/

inductive LeaseMode where
  | shared
  | exclusive
deriving DecidableEq, Repr

/-- A request for a lease; requests are numbered as they arrive. -/
structure Waiter where
  id : Nat
  mode : LeaseMode
deriving DecidableEq, Repr

/-- A granted request, and whether its lease was released. -/
structure StorageOperationLease where
  id : Nat
  mode : LeaseMode
  released : Bool
deriving DecidableEq, Repr

structure StorageOperationLock where
  readers : Nat
  writer : Bool
  waiters : List Waiter
  /-- Every lease handed out so far. -/
  leases : List StorageOperationLease
  /-- The number of the next request. -/
  next : Nat
deriving DecidableEq, Repr

namespace StorageOperationLock

def new : StorageOperationLock where
  readers := 0
  writer := false
  waiters := []
  leases := []
  next := 0

/-- Hand out the lease of a request. -/
def lease (l : StorageOperationLock) (id : Nat) (mode : LeaseMode) : StorageOperationLock :=
  { l with leases := l.leases ++ [⟨id, mode, false⟩] }

/-- Let a request wait. -/
def wait (l : StorageOperationLock) (id : Nat) (mode : LeaseMode) : StorageOperationLock :=
  { l with waiters := l.waiters ++ [⟨id, mode⟩] }

def acquireShared (l : StorageOperationLock) : StorageOperationLock :=
  let l' := { l with next := l.next + 1 }
  if !l.writer && l.waiters.isEmpty then
    { l' with readers := l.readers + 1 }.lease l.next .shared
  else l'.wait l.next .shared

def acquireExclusive (l : StorageOperationLock) : StorageOperationLock :=
  let l' := { l with next := l.next + 1 }
  if !l.writer && l.readers = 0 && l.waiters.isEmpty then
    { l' with writer := true }.lease l.next .exclusive
  else l'.wait l.next .exclusive

/-- A callback that holds a lease is refused another one. -/
def acquire (l : StorageOperationLock) (holding : Option LeaseMode) (mode : LeaseMode) :
    StorageOperationLock :=
  if holding.isSome then l
  else match mode with
    | .shared => l.acquireShared
    | .exclusive => l.acquireExclusive

/-- Grant the readers at the head of the queue. -/
def grantReaders (l : StorageOperationLock) : List Waiter → StorageOperationLock
  | [] => { l with waiters := [] }
  | reader :: rest =>
      if reader.mode = .shared then
        grantReaders ({ l with readers := l.readers + 1 }.lease reader.id .shared) rest
      else { l with waiters := reader :: rest }

/-- Grant queued work fairly: a waiting collector blocks later readers. -/
def drain (l : StorageOperationLock) : StorageOperationLock :=
  if l.writer || 0 < l.readers then l
  else match l.waiters with
    | [] => l
    | first :: rest =>
        if first.mode = .exclusive then
          { l with waiters := rest, writer := true }.lease first.id .exclusive
        else grantReaders l (first :: rest)

def markReleased (id : Nat) (lease : StorageOperationLease) : StorageOperationLease :=
  if lease.id = id then { lease with released := true } else lease

/-- What a lease counts for, given back. -/
def giveBack (l : StorageOperationLock) (lease : StorageOperationLease) :
    StorageOperationLock :=
  let l' := { l with leases := l.leases.map (markReleased lease.id) }
  match lease.mode with
  | .shared => { l' with readers := l.readers - 1 }
  | .exclusive => { l' with writer := false }

/-- Release a lease, once. -/
def release (l : StorageOperationLock) (id : Nat) : StorageOperationLock :=
  match l.leases.find? (·.id = id) with
  | none => l
  | some lease => if lease.released then l else (l.giveBack lease).drain

end StorageOperationLock

/-! ## Calls -/

inductive LockCall where
  | acquire (holding : Option LeaseMode) (mode : LeaseMode)
  | release (id : Nat)
deriving DecidableEq, Repr

namespace StorageOperationLock

def call (l : StorageOperationLock) : LockCall → StorageOperationLock
  | .acquire holding mode => l.acquire holding mode
  | .release id => l.release id

/-- The lock after these calls. -/
def after (calls : List LockCall) : StorageOperationLock := calls.foldl call new

theorem after_snoc (calls : List LockCall) (c : LockCall) :
    after (calls ++ [c]) = (after calls).call c := by
  simp [after]

/-- The leases that are granted and not released. -/
def held (l : StorageOperationLock) : List StorageOperationLease :=
  l.leases.filter fun lease => !lease.released

/-! ## The invariant -/

def heldIn (l : StorageOperationLock) (mode : LeaseMode) : Nat :=
  l.leases.countP fun lease => !lease.released && lease.mode = mode

/-- What the fields count, whether or not the lock was drained. -/
structure Counts (l : StorageOperationLock) : Prop where
  readers : l.readers = l.heldIn .shared
  writer : l.writer.toNat = l.heldIn .exclusive
  alone : l.writer = true → l.readers = 0
  /-- The requests in the order of their arrival: first those granted, then
  those that wait. -/
  order : l.leases.map (·.id) ++ l.waiters.map (·.id) = List.range l.next

/-- What holds between two calls. -/
structure Fair (l : StorageOperationLock) : Prop extends Counts l where
  busy : l.waiters ≠ [] → l.writer = true ∨ 0 < l.readers

theorem fair_new : new.Fair where
  readers := rfl
  writer := rfl
  alone := nofun
  order := rfl
  busy := nofun

theorem heldIn_lease {l : StorageOperationLock} {id : Nat} {mode mode' : LeaseMode} :
    (l.lease id mode).heldIn mode' = l.heldIn mode' + if mode = mode' then 1 else 0 := by
  simp [heldIn, lease, List.countP_append]

/-- A granted request moves from the queue to the leases. -/
theorem Counts.grantShared {l : StorageOperationLock} (h : l.Counts) {id : Nat}
    {waiters : List Waiter} {next : Nat} (hfree : l.writer = false)
    (horder : l.leases.map (·.id) ++ id :: waiters.map (·.id) = List.range next) :
    ({ l with readers := l.readers + 1, waiters, next }.lease id .shared).Counts where
  readers := by
    rw [heldIn_lease]
    exact congrArg (· + 1) h.readers
  writer := by
    rw [heldIn_lease]
    exact h.writer
  alone := by
    intro hwriter
    rw [lease, hfree] at hwriter
    cases hwriter
  order := by simpa [lease] using horder

theorem Counts.grantExclusive {l : StorageOperationLock} (h : l.Counts) {id : Nat}
    {waiters : List Waiter} {next : Nat} (hfree : l.writer = false) (hreaders : l.readers = 0)
    (horder : l.leases.map (·.id) ++ id :: waiters.map (·.id) = List.range next) :
    ({ l with writer := true, waiters, next }.lease id .exclusive).Counts where
  readers := by
    rw [heldIn_lease]
    exact h.readers
  writer := by
    have hnone : 0 = l.heldIn .exclusive := by
      rw [← h.writer, hfree]
      rfl
    rw [heldIn_lease]
    exact congrArg (· + 1) hnone
  alone := fun _ => hreaders
  order := by simpa [lease] using horder

theorem fair_grantReaders {l : StorageOperationLock} {waiters : List Waiter}
    (h : { l with waiters }.Counts) (hfree : l.writer = false)
    (hbusy : 0 < l.readers ∨ ∀ w ∈ waiters.head?, w.mode = .shared) :
    (l.grantReaders waiters).Fair := by
  induction waiters generalizing l with
  | nil => exact { toCounts := h, busy := fun hne => absurd rfl hne }
  | cons reader rest ih =>
      rw [grantReaders]
      by_cases hmode : reader.mode = .shared
      · rw [if_pos hmode]
        exact ih (h.grantShared hfree h.order) hfree (.inl (Nat.succ_pos _))
      · rw [if_neg hmode]
        refine { toCounts := h, busy := fun _ => .inr ?_ }
        exact hbusy.resolve_right fun hshared => hmode (hshared reader rfl)

theorem fair_drain {l : StorageOperationLock} (h : l.Counts) : l.drain.Fair := by
  rw [drain]
  split
  case isTrue hheld =>
    refine { toCounts := h, busy := fun _ => ?_ }
    simpa using hheld
  case isFalse hheld =>
    obtain ⟨hfree, hreaders⟩ : l.writer = false ∧ l.readers = 0 := by simpa using hheld
    cases hwaiters : l.waiters with
    | nil => exact { toCounts := h, busy := fun hne => absurd hwaiters hne }
    | cons first rest =>
        have horder := h.order
        rw [hwaiters, List.map_cons] at horder
        dsimp only
        by_cases hmode : first.mode = .exclusive
        · rw [if_pos hmode]
          exact { toCounts := h.grantExclusive hfree hreaders horder, busy := fun _ => .inl rfl }
        · rw [if_neg hmode]
          refine fair_grantReaders (by rw [← hwaiters]; exact h) hfree (.inr ?_)
          rintro w ⟨⟩
          cases hshared : first.mode with
          | shared => rfl
          | exclusive => exact absurd hshared hmode

/-! ## Calls keep it -/

theorem fair_acquireShared {l : StorageOperationLock} (h : l.Fair) : l.acquireShared.Fair := by
  have horder : l.leases.map (·.id) ++ (l.waiters.map (·.id) ++ [l.next]) =
      List.range (l.next + 1) := by
    rw [← List.append_assoc, h.order, List.range_succ]
  rw [acquireShared]
  by_cases hfree : (!l.writer && l.waiters.isEmpty) = true
  · rw [if_pos hfree]
    obtain ⟨hwriter, hwaiters⟩ : l.writer = false ∧ l.waiters = [] := by simpa using hfree
    rw [hwaiters] at horder
    refine { toCounts := h.grantShared hwriter ?_, busy := fun _ => .inr (Nat.succ_pos _) }
    rw [hwaiters]
    exact horder
  · rw [if_neg hfree]
    refine { readers := h.readers, writer := h.writer, alone := h.alone, order := ?_, busy := ?_ }
    · simpa [wait] using horder
    · intro _
      show l.writer = true ∨ 0 < l.readers
      by_cases hwriter : l.writer = true
      · exact .inl hwriter
      · refine h.busy fun hwaiters => hfree ?_
        simp [hwaiters, hwriter]

theorem fair_acquireExclusive {l : StorageOperationLock} (h : l.Fair) :
    l.acquireExclusive.Fair := by
  have horder : l.leases.map (·.id) ++ (l.waiters.map (·.id) ++ [l.next]) =
      List.range (l.next + 1) := by
    rw [← List.append_assoc, h.order, List.range_succ]
  rw [acquireExclusive]
  by_cases hfree : (!l.writer && decide (l.readers = 0) && l.waiters.isEmpty) = true
  · rw [if_pos hfree]
    obtain ⟨⟨hwriter, hreaders⟩, hwaiters⟩ :
        (l.writer = false ∧ l.readers = 0) ∧ l.waiters = [] := by simpa using hfree
    rw [hwaiters] at horder
    refine { toCounts := h.grantExclusive hwriter hreaders ?_, busy := fun _ => .inl rfl }
    rw [hwaiters]
    exact horder
  · rw [if_neg hfree]
    refine { readers := h.readers, writer := h.writer, alone := h.alone, order := ?_, busy := ?_ }
    · simpa [wait] using horder
    · intro _
      by_cases hheld : l.writer = true ∨ 0 < l.readers
      · exact hheld
      · refine h.busy fun hwaiters => hfree ?_
        push Not at hheld
        simp [hwaiters, hheld.1, Nat.le_zero.mp hheld.2]

theorem map_markReleased_id (id : Nat) (leases : List StorageOperationLease) :
    (leases.map (markReleased id)).map (·.id) = leases.map (·.id) := by
  rw [List.map_map]
  refine List.map_congr_left fun lease _ => ?_
  simp only [Function.comp, markReleased]
  split <;> rfl

/-- Releasing a lease takes it from the count of its mode. -/
theorem heldIn_markReleased {leases : List StorageOperationLease} {lease : StorageOperationLease}
    (hids : (leases.map (·.id)).Nodup) (hmem : lease ∈ leases) (hheld : lease.released = false)
    (mode : LeaseMode) :
    leases.countP (fun lease => !lease.released && lease.mode = mode) =
      (leases.map (markReleased lease.id)).countP
        (fun lease => !lease.released && lease.mode = mode) +
      if lease.mode = mode then 1 else 0 := by
  induction leases with
  | nil => cases hmem
  | cons first rest ih =>
      obtain ⟨hfirst, hrest⟩ := List.nodup_cons.mp hids
      rw [List.map_cons, List.countP_cons, List.countP_cons]
      rcases List.mem_cons.mp hmem with rfl | hmem
      · have hother : rest.map (markReleased lease.id) = rest := by
          refine List.map_congr_left (fun other hother => ?_) |>.trans (List.map_id rest)
          refine if_neg fun heq => hfirst ?_
          show lease.id ∈ _
          rw [← heq]
          exact List.mem_map_of_mem hother
        rw [hother]
        simp [markReleased, hheld]
      · have hne : first.id ≠ lease.id := by
          intro heq
          refine hfirst ?_
          show first.id ∈ _
          rw [heq]
          exact List.mem_map_of_mem hmem
        have hsame : markReleased lease.id first = first := if_neg hne
        rw [hsame, ih hrest hmem]
        omega

theorem nodup_leases {l : StorageOperationLock} (h : l.Counts) :
    (l.leases.map (·.id)).Nodup := by
  have hnodup : (l.leases.map (·.id) ++ l.waiters.map (·.id)).Nodup := by
    rw [h.order]
    exact List.nodup_range
  exact (List.nodup_append.mp hnodup).1

theorem counts_giveBack {l : StorageOperationLock} (h : l.Counts) {lease : StorageOperationLease}
    (hmem : lease ∈ l.leases) (hheld : lease.released = false) : (l.giveBack lease).Counts := by
  have hcount := heldIn_markReleased (nodup_leases h) hmem hheld
  have hshared := hcount .shared
  have hexclusive := hcount .exclusive
  have hreaders : l.readers = l.leases.countP _ := h.readers
  have hwriter : l.writer.toNat = l.leases.countP _ := h.writer
  have horder := h.order
  rw [← map_markReleased_id lease.id] at horder
  have hone : l.writer.toNat ≤ 1 := Bool.toNat_le _
  rw [giveBack]
  cases hmode : lease.mode with
  | shared =>
      rw [hmode] at hshared hexclusive
      simp only [reduceCtorEq, if_true, if_false, Nat.add_zero] at hshared hexclusive
      refine { readers := ?_, writer := ?_, alone := fun hw => ?_, order := horder }
      · show l.readers - 1 = (l.leases.map (markReleased lease.id)).countP _
        omega
      · show l.writer.toNat = (l.leases.map (markReleased lease.id)).countP _
        omega
      · have hzero : l.readers = 0 := h.alone hw
        show l.readers - 1 = 0
        omega
  | exclusive =>
      rw [hmode] at hshared hexclusive
      simp only [reduceCtorEq, if_true, if_false, Nat.add_zero] at hshared hexclusive
      refine { readers := ?_, writer := ?_, alone := fun hw => ?_, order := horder }
      · show l.readers = (l.leases.map (markReleased lease.id)).countP _
        omega
      · show 0 = (l.leases.map (markReleased lease.id)).countP _
        omega
      · cases hw

theorem fair_release {l : StorageOperationLock} (h : l.Fair) (id : Nat) : (l.release id).Fair := by
  rw [release]
  split
  case h_1 => exact h
  case h_2 lease hfind =>
    split
    case isTrue => exact h
    case isFalse hheld =>
      have hmem := List.mem_of_find?_eq_some hfind
      exact fair_drain (counts_giveBack h.toCounts hmem (Bool.eq_false_iff.mpr hheld))

theorem fair_call {l : StorageOperationLock} (h : l.Fair) (c : LockCall) : (l.call c).Fair := by
  cases c with
  | acquire holding mode =>
      show (if holding.isSome then l else _).Fair
      split
      · exact h
      · cases mode with
        | shared => exact fair_acquireShared h
        | exclusive => exact fair_acquireExclusive h
  | release id => exact fair_release h id

theorem fair_after (calls : List LockCall) : (after calls).Fair := by
  induction calls using List.reverseRecOn with
  | nil => exact fair_new
  | append_singleton calls c ih =>
      rw [after_snoc]
      exact fair_call ih c

/-! ## One lease among many -/

section Lease

/-- The lease of a request, once it is granted. -/
def lease? (l : StorageOperationLock) (id : Nat) : Option StorageOperationLease :=
  l.leases.find? (·.id = id)

/-- Whether the lease is granted and not released. -/
def holds (l : StorageOperationLock) (id : Nat) : Bool :=
  (l.lease? id).any fun lease => !lease.released

variable {l l' l'' : StorageOperationLock} {id other : Nat} {lease : StorageOperationLease}

/-- Nothing happened to the lease with this number, but that it may have been granted. -/
structure Spares (l l' : StorageOperationLock) (id : Nat) : Prop where
  kept : ∀ lease, l.lease? id = some lease → l'.lease? id = some lease
  fresh : ∀ lease, l.lease? id = none → l'.lease? id = some lease → lease.released = false

theorem Spares.refl (l : StorageOperationLock) (id : Nat) : Spares l l id where
  kept := fun _ h => h
  fresh := fun _ hnone h => by
    rw [hnone] at h
    cases h

theorem Spares.trans (h : Spares l l' id) (h' : Spares l' l'' id) : Spares l l'' id where
  kept := fun lease hlease => h'.kept lease (h.kept lease hlease)
  fresh := fun lease hnone hlease => by
    cases hmid : l'.lease? id with
    | none => exact h'.fresh lease hmid hlease
    | some granted =>
        have hsame : granted = lease := Option.some.inj ((h'.kept granted hmid).symm.trans hlease)
        exact hsame ▸ h.fresh granted hnone hmid

theorem spares_lease (l : StorageOperationLock) (other : Nat) (mode : LeaseMode) (id : Nat) :
    Spares l (l.lease other mode) id where
  kept := fun lease h => by
    unfold lease? StorageOperationLock.lease at *
    rw [List.find?_append, h]
    rfl
  fresh := fun lease hnone h => by
    unfold lease? StorageOperationLock.lease at *
    rw [List.find?_append, hnone] at h
    obtain rfl := List.mem_singleton.mp (List.mem_of_find?_eq_some (Option.none_or.symm.trans h))
    rfl

/-- Leases depend on nothing else in the lock. -/
theorem spares_fields (l : StorageOperationLock) (readers : Nat) (writer : Bool)
    (waiters : List Waiter) (next id : Nat) :
    Spares l ⟨readers, writer, waiters, l.leases, next⟩ id where
  kept := fun _ h => h
  fresh := fun _ hnone h => by
    have hsame : l.lease? id = some _ := h
    rw [hnone] at hsame
    cases hsame

theorem spares_grantReaders (l : StorageOperationLock) (waiters : List Waiter) (id : Nat) :
    Spares l (l.grantReaders waiters) id := by
  induction waiters generalizing l with
  | nil => exact spares_fields ..
  | cons reader rest ih =>
      rw [grantReaders]
      split
      · have hmore : Spares l { l with readers := l.readers + 1 } id := spares_fields ..
        exact (hmore.trans (spares_lease _ _ _ _)).trans (ih _)
      · exact spares_fields ..

theorem spares_drain (l : StorageOperationLock) (id : Nat) : Spares l l.drain id := by
  rw [drain]
  split
  · exact .refl l id
  split
  · exact .refl l id
  · rename_i first rest _
    split
    · have hmore : Spares l { l with waiters := rest, writer := true } id :=
        spares_fields ..
      exact hmore.trans (spares_lease _ _ _ _)
    · exact spares_grantReaders _ _ _

theorem leases_giveBack : (l.giveBack lease).leases = l.leases.map (markReleased lease.id) := by
  rw [giveBack]
  cases lease.mode <;> rfl

theorem lease?_giveBack : (l.giveBack lease).lease? id =
    (l.lease? id).map (markReleased lease.id) := by
  unfold lease?
  rw [leases_giveBack, List.find?_map]
  refine congrArg (fun p => (l.leases.find? p).map _) (funext fun other => ?_)
  show decide ((markReleased lease.id other).id = id) = _
  unfold markReleased
  split <;> rfl

/-- A release spares every other lease. -/
theorem spares_release (hne : id ≠ other) : Spares l (l.release other) id := by
  rw [release]
  split
  · exact .refl l id
  · rename_i lease hfind
    have hid : lease.id = other := by simpa using List.find?_some hfind
    split
    · exact .refl l id
    · refine Spares.trans ⟨fun lease' h => ?_, fun lease' hnone h => ?_⟩ (spares_drain _ id)
      · have hid' : lease'.id = id := by simpa using List.find?_some h
        rw [lease?_giveBack, h, Option.map_some, markReleased, if_neg (by omega)]
      · rw [lease?_giveBack, hnone] at h
        cases h

theorem spares_call (call : LockCall) (h : call ≠ .release id) : Spares l (l.call call) id := by
  cases call with
  | acquire holding mode =>
      show Spares l (if holding.isSome then l else _) id
      split
      · exact .refl l id
      · cases mode with
        | shared =>
            show Spares l (if _ then _ else _) id
            split
            · have hmore : Spares l { l with next := l.next + 1, readers := l.readers + 1 } id :=
                spares_fields ..
              exact hmore.trans (spares_lease _ _ _ _)
            · exact spares_fields ..
        | exclusive =>
            show Spares l (if _ then _ else _) id
            split
            · have hmore : Spares l { l with next := l.next + 1, writer := true } id :=
                spares_fields ..
              exact hmore.trans (spares_lease _ _ _ _)
            · exact spares_fields ..
  | release other => exact spares_release fun heq => h (heq ▸ rfl)

/-- A granted lease that is released is released. -/
theorem lease?_release (h : l.lease? id = some lease) :
    ∃ lease', (l.release id).lease? id = some lease' ∧ lease'.released = true := by
  have hid : lease.id = id := by simpa using List.find?_some h
  have hfind : l.leases.find? (·.id = id) = some lease := h
  rw [release, hfind]
  dsimp only
  split
  · rename_i hreleased
    exact ⟨lease, h, hreleased⟩
  · refine ⟨{ lease with released := true }, (spares_drain _ id).kept _ ?_, rfl⟩
    rw [lease?_giveBack, h, Option.map_some, markReleased, if_pos rfl]

theorem next_grantReaders (l : StorageOperationLock) (waiters : List Waiter) :
    (l.grantReaders waiters).next = l.next := by
  induction waiters generalizing l with
  | nil => rfl
  | cons reader rest ih =>
      rw [grantReaders]
      split
      · exact ih _
      · rfl

theorem next_drain (l : StorageOperationLock) : l.drain.next = l.next := by
  rw [drain]
  split
  · rfl
  split
  · rfl
  split
  · rfl
  · exact next_grantReaders _ _

theorem next_release (l : StorageOperationLock) (id : Nat) : (l.release id).next = l.next := by
  rw [release]
  split
  · rfl
  split
  · rfl
  · rw [next_drain, giveBack]
    split <;> rfl

theorem next_le_call (l : StorageOperationLock) (call : LockCall) :
    l.next ≤ (l.call call).next := by
  cases call with
  | acquire holding mode =>
      show l.next ≤ (if holding.isSome then l else _ : StorageOperationLock).next
      split
      · exact le_rfl
      · cases mode with
        | shared =>
            show l.next ≤ (if _ then _ else _ : StorageOperationLock).next
            split <;> exact Nat.le_succ _
        | exclusive =>
            show l.next ≤ (if _ then _ else _ : StorageOperationLock).next
            split <;> exact Nat.le_succ _
  | release id => exact (next_release l id).ge

/-- Nothing is granted under a number that was not given out. -/
theorem lease?_next (h : l.Fair) : l.lease? l.next = none := by
  refine List.find?_eq_none.mpr fun lease hmem => ?_
  have hrange : lease.id ∈ List.range l.next := by
    rw [← h.order]
    exact List.mem_append_left _ (List.mem_map_of_mem hmem)
  have hlt := List.mem_range.mp hrange
  simp only [decide_eq_true_eq]
  omega

/-! ## What was asked for -/

/-- The requests for leases, granted or not, and what each asked for. -/
def asked (l : StorageOperationLock) : List (Nat × LeaseMode) :=
  l.leases.map (fun lease => (lease.id, lease.mode)) ++ l.waiters.map fun w => (w.id, w.mode)

theorem asked_grantReaders (l : StorageOperationLock) (waiters : List Waiter) :
    (l.grantReaders waiters).asked = { l with waiters }.asked := by
  induction waiters generalizing l with
  | nil => rfl
  | cons reader rest ih =>
      rw [grantReaders]
      split
      · rename_i hshared
        rw [ih]
        simp [asked, StorageOperationLock.lease, hshared]
      · rfl

theorem asked_drain (l : StorageOperationLock) : l.drain.asked = l.asked := by
  rw [drain]
  split
  · rfl
  split
  · rfl
  · rename_i first rest hwaiters
    split
    · rename_i hexclusive
      simp [asked, StorageOperationLock.lease, hwaiters, hexclusive]
    · rw [asked_grantReaders]
      simp [asked, hwaiters]

theorem asked_release (l : StorageOperationLock) (id : Nat) : (l.release id).asked = l.asked := by
  rw [release]
  split
  · rfl
  · rename_i lease hfind
    split
    · rfl
    · have hwaiters : (l.giveBack lease).waiters = l.waiters := by
        rw [giveBack]
        cases lease.mode <;> rfl
      rw [asked_drain, asked, leases_giveBack, hwaiters, List.map_map, asked]
      refine congrArg (· ++ _) (List.map_congr_left fun other _ => ?_)
      simp only [Function.comp, markReleased]
      split <;> rfl

theorem asked_acquire (l : StorageOperationLock) (mode : LeaseMode) :
    (l.acquire none mode).asked = l.asked ++ [(l.next, mode)] := by
  have hfree {b : Bool} (h : (b && l.waiters.isEmpty) = true) : l.waiters = [] := by
    simpa using (Bool.and_eq_true_iff.mp h).2
  cases mode with
  | shared =>
      show l.acquireShared.asked = _
      rw [acquireShared]
      split
      · rename_i h
        simp [asked, StorageOperationLock.lease, hfree h]
      · simp [asked, wait]
  | exclusive =>
      show l.acquireExclusive.asked = _
      rw [acquireExclusive]
      split
      · rename_i h
        simp [asked, StorageOperationLock.lease, hfree h]
      · simp [asked, wait]

/-- What was asked for stays asked for. -/
theorem asked_call {asking : Nat × LeaseMode} (h : asking ∈ l.asked) (call : LockCall) :
    asking ∈ (l.call call).asked := by
  cases call with
  | acquire holding mode =>
      cases holding with
      | some held => exact h
      | none =>
          show asking ∈ (l.acquire none mode).asked
          rw [asked_acquire]
          exact List.mem_append_left _ h
  | release id =>
      show asking ∈ (l.release id).asked
      rwa [asked_release]

/-- A lease is of the mode that was asked for. -/
theorem Counts.mode_eq {mode : LeaseMode} (h : l.Counts) (hasked : (id, mode) ∈ l.asked)
    (hlease : l.lease? id = some lease) : lease.mode = mode := by
  have hid : lease.id = id := by simpa using List.find?_some hlease
  have hgranted : (id, lease.mode) ∈ l.asked := by
    refine List.mem_append_left _ (List.mem_map.mpr ⟨lease, List.mem_of_find?_eq_some hlease, ?_⟩)
    rw [hid]
  have hids : l.asked.map Prod.fst = List.range l.next := by
    rw [← h.order, asked, List.map_append, List.map_map, List.map_map]
    rfl
  have hnodup : (l.asked.map Prod.fst).Nodup := by
    rw [hids]
    exact List.nodup_range
  exact congrArg Prod.snd (List.inj_on_of_nodup_map hnodup hgranted hasked rfl)

end Lease

/-! ## The claims of the lock -/

theorem mem_held {l : StorageOperationLock} {lease : StorageOperationLease} :
    lease ∈ l.held ↔ lease ∈ l.leases ∧ lease.released = false := by
  simp [held]

theorem heldIn_eq {l : StorageOperationLock} {mode : LeaseMode} :
    l.heldIn mode = (l.held.filter (·.mode = mode)).length := by
  rw [held, List.filter_filter, heldIn, List.countP_eq_length_filter]
  refine congrArg List.length (List.filter_congr fun lease _ => ?_)
  rw [Bool.and_comm]

theorem Counts.writer_iff {l : StorageOperationLock} (h : l.Counts) :
    l.writer = true ↔ ∃ lease ∈ l.held, lease.mode = .exclusive := by
  have hwriter := h.writer
  rw [heldIn_eq] at hwriter
  constructor
  · intro hw
    rw [hw] at hwriter
    have hpos : 0 < (l.held.filter (·.mode = .exclusive)).length := hwriter ▸ Nat.one_pos
    obtain ⟨lease, hmem⟩ := List.exists_mem_of_length_pos hpos
    obtain ⟨hheld, hmode⟩ := List.mem_filter.mp hmem
    exact ⟨lease, hheld, of_decide_eq_true hmode⟩
  · rintro ⟨lease, hheld, hmode⟩
    have hmem : lease ∈ l.held.filter (·.mode = .exclusive) :=
      List.mem_filter.mpr ⟨hheld, decide_eq_true hmode⟩
    have hpos := List.length_pos_of_mem hmem
    rw [← hwriter] at hpos
    cases hw : l.writer with
    | true => rfl
    | false =>
        rw [hw] at hpos
        cases hpos

/-- A writer holds the lock alone. -/
theorem Counts.exclusive {l : StorageOperationLock} (h : l.Counts)
    {a b : StorageOperationLease} (ha : a ∈ l.held) (hb : b ∈ l.held)
    (hmode : a.mode = .exclusive) : b = a := by
  have hw := h.writer_iff.mpr ⟨a, ha, hmode⟩
  cases hmode' : b.mode with
  | shared =>
      have hshared : b ∈ l.held.filter (·.mode = .shared) :=
        List.mem_filter.mpr ⟨hb, decide_eq_true hmode'⟩
      have hpos := List.length_pos_of_mem hshared
      rw [← heldIn_eq, ← h.readers, h.alone hw] at hpos
      exact absurd hpos (Nat.lt_irrefl 0)
  | exclusive =>
      have hone : (l.held.filter (·.mode = .exclusive)).length = 1 := by
        rw [← heldIn_eq, ← h.writer, hw]
        rfl
      obtain ⟨only, honly⟩ := List.length_eq_one_iff.mp hone
      have hmem : ∀ lease ∈ l.held, lease.mode = .exclusive → lease = only := by
        intro lease hlease hm
        have hin : lease ∈ l.held.filter (·.mode = .exclusive) :=
          List.mem_filter.mpr ⟨hlease, decide_eq_true hm⟩
        rw [honly] at hin
        exact List.mem_singleton.mp hin
      rw [hmem b hb hmode', hmem a ha hmode]

theorem mem_leases_grantReaders {l : StorageOperationLock} {waiters : List Waiter}
    {lease : StorageOperationLease} (hmem : lease ∈ l.leases) :
    lease ∈ (l.grantReaders waiters).leases := by
  induction waiters generalizing l with
  | nil => exact hmem
  | cons reader rest ih =>
      rw [grantReaders]
      split
      · exact ih (List.mem_append_left _ hmem)
      · exact hmem

/-- The head of the queue is granted once the lock is free. -/
theorem grants_head {l : StorageOperationLock} (hwriter : l.writer = false)
    (hreaders : l.readers = 0) {first : Waiter} {rest : List Waiter}
    (hwaiters : l.waiters = first :: rest) : ⟨first.id, first.mode, false⟩ ∈ l.drain.held := by
  refine mem_held.mpr ⟨?_, rfl⟩
  have hfree : (l.writer || decide (0 < l.readers)) = false := by simp [hwriter, hreaders]
  rw [drain, hfree, if_neg Bool.false_ne_true, hwaiters]
  dsimp only
  cases hmode : first.mode with
  | exclusive =>
      rw [if_pos rfl]
      exact List.mem_append_right _ (List.mem_singleton.mpr rfl)
  | shared =>
      rw [if_neg nofun, grantReaders, if_pos hmode]
      exact mem_leases_grantReaders (List.mem_append_right _ (List.mem_singleton.mpr rfl))

/-- A release of the last lease leaves the lock free. -/
theorem grants_head_of_release {l : StorageOperationLock} (h : l.Fair) {id : Nat}
    (hlast : ∀ lease ∈ l.held, lease.id = id) {first : Waiter} {rest : List Waiter}
    (hwaiters : l.waiters = first :: rest) :
    ⟨first.id, first.mode, false⟩ ∈ (l.release id).held := by
  have hbusy : l.held ≠ [] := by
    intro hnone
    have hreaders := h.readers
    have hwriter := h.writer
    rw [heldIn_eq, hnone] at hreaders hwriter
    rcases h.busy (by rw [hwaiters]; exact List.cons_ne_nil _ _) with hw | hr
    · rw [hw] at hwriter
      cases hwriter
    · exact absurd hreaders (Nat.ne_of_gt hr)
  obtain ⟨lease, hmem⟩ := List.exists_mem_of_ne_nil _ hbusy
  obtain ⟨hlease, hheld⟩ := mem_held.mp hmem
  have hid := hlast lease hmem
  have hsingle : ∀ other ∈ l.leases, other.id = id → other = lease := by
    intro other hother hid'
    exact List.inj_on_of_nodup_map (nodup_leases h.toCounts) hother hlease
      (hid'.trans hid.symm)
  have hfind : l.leases.find? (·.id = id) = some lease := by
    have hsome : (l.leases.find? (·.id = id)).isSome = true :=
      List.find?_isSome.mpr ⟨lease, hlease, decide_eq_true hid⟩
    obtain ⟨other, hother⟩ := Option.isSome_iff_exists.mp hsome
    have hother' : other.id = id := by simpa using List.find?_some hother
    rw [hother, hsingle other (List.mem_of_find?_eq_some hother) hother']
  have hcounts := counts_giveBack h.toCounts hlease hheld
  have hnone : (l.giveBack lease).held = [] := by
    refine List.eq_nil_iff_forall_not_mem.mpr fun other hother => ?_
    obtain ⟨hother, hunreleased⟩ := mem_held.mp hother
    have hleases : (l.giveBack lease).leases = l.leases.map (markReleased lease.id) := by
      rw [giveBack]
      cases lease.mode <;> rfl
    rw [hleases] at hother
    obtain ⟨old, hold, rfl⟩ := List.mem_map.mp hother
    by_cases heq : old.id = lease.id
    · rw [markReleased, if_pos heq] at hunreleased
      cases hunreleased
    · rw [markReleased, if_neg heq] at hunreleased
      exact heq ((hlast old (mem_held.mpr ⟨hold, hunreleased⟩)).trans hid.symm)
  have hreaders := hcounts.readers
  have hwriter := hcounts.writer
  rw [heldIn_eq, hnone] at hreaders hwriter
  have hwaiters' : (l.giveBack lease).waiters = first :: rest := by
    rw [giveBack, ← hwaiters]
    cases lease.mode <;> rfl
  have hrelease : l.release id = (l.giveBack lease).drain := by
    rw [release, hfind]
    exact if_neg (by rw [hheld]; nofun)
  rw [hrelease]
  refine grants_head ?_ hreaders hwaiters'
  cases hw : (l.giveBack lease).writer with
  | false => rfl
  | true =>
      rw [hw] at hwriter
      cases hwriter

/-- Whatever calls were made: a writer holds the lock alone; the fields count
the leases that are held; requests are granted in the order in which they
arrived, so that none overtakes one that still waits; requests wait only while a
lease is held, and the release of the last one grants the head of the queue. -/
theorem fair_lock (calls : List LockCall) :
    (∀ a ∈ (after calls).held, ∀ b ∈ (after calls).held, a.mode = .exclusive → b = a) ∧
    (after calls).readers = ((after calls).held.filter (·.mode = .shared)).length ∧
    ((after calls).writer = true ↔ ∃ lease ∈ (after calls).held, lease.mode = .exclusive) ∧
    ((after calls).leases.map (·.id) ++ (after calls).waiters.map (·.id) =
      List.range (after calls).next ∧
      ∀ lease ∈ (after calls).leases, ∀ w ∈ (after calls).waiters, lease.id < w.id) ∧
    ((after calls).waiters ≠ [] → (after calls).held ≠ []) ∧
    ∀ id first rest, (after calls).waiters = first :: rest →
      (∀ lease ∈ (after calls).held, lease.id = id) →
      ⟨first.id, first.mode, false⟩ ∈ ((after calls).call (.release id)).held := by
  have h := fair_after calls
  refine ⟨fun a ha b hb => h.exclusive ha hb, ?_, h.writer_iff, ⟨h.order, ?_⟩, ?_, ?_⟩
  · rw [← heldIn_eq]
    exact h.readers
  · intro lease hlease w hw
    have hsorted : ((after calls).leases.map (·.id) ++
        (after calls).waiters.map (·.id)).Pairwise (· < ·) := by
      rw [h.order]
      exact List.pairwise_lt_range
    exact (List.pairwise_append.mp hsorted).2.2 _ (List.mem_map_of_mem hlease) _
      (List.mem_map_of_mem hw)
  · intro hwaiting hnone
    rcases h.busy hwaiting with hw | hr
    · obtain ⟨lease, hmem, -⟩ := h.writer_iff.mp hw
      rw [hnone] at hmem
      cases hmem
    · have hreaders := h.readers
      rw [heldIn_eq, hnone] at hreaders
      exact absurd hreaders (Nat.ne_of_gt hr)
  · exact fun id first rest hwaiters hlast => grants_head_of_release h hlast hwaiters

end StorageOperationLock

end IpfsNode
