import Mathlib.Data.Finset.Basic
import Mathlib.Data.Finset.Insert
import Mathlib.Data.List.Basic

/-!
# The lifecycle registry

Records, the shape a stored record must have, and the predicates lifecycle
policy is decided from. A registry holds at most one record per CID, every
record under its own CID and of a valid shape; both are fields of `Registry`,
so a reader of a record never has to argue for them again.

Admission and repair ownership live in process memory, not in the record;
`Process` is that memory.
-/

namespace IpfsNode

abbrev TransactionId := String
abbrev PeerId := String
abbrev AdmissionId := String

/-! ## Records -/

inductive FileState where
  | temporary
  | confirmed
  | expired
deriving DecidableEq, Repr

/-- What an abandoned stage is put back to. Its state is always `expired`,
and it is neither pinned nor held. -/
structure ReplicaStageBaseline where
  expiresAt : Option Nat
  confirmedAt : Option Nat
deriving DecidableEq, Repr

structure ReplicaStage where
  transactionIds : List TransactionId
  /-- Peer that staged each transaction; absent on records of older versions. -/
  origins : Option (List (TransactionId × PeerId))
  /-- `none` when the stage created the registry entry. -/
  previous : Option ReplicaStageBaseline
deriving DecidableEq, Repr

structure FileRecord (Cid : Type) where
  cid : Cid
  name : String
  state : FileState
  createdAt : Nat
  expiresAt : Option Nat
  confirmedAt : Option Nat
  fileSize : Nat
  storedBytes : Nat
  protectedBytes : Option Nat
  pinned : Bool
  heldLocally : Bool
  replicas : List String
  admissionId : Option AdmissionId
  admissionSettledAt : Option Nat
  replicaStage : Option ReplicaStage
  revision : Option Nat
deriving DecidableEq, Repr

/-- `stage.origins?.[transactionId]`. -/
def ReplicaStage.origin (stage : ReplicaStage) (transactionId : TransactionId) :
    Option PeerId :=
  stage.origins.bind (·.lookup transactionId)

def isReplicaStage (stage : ReplicaStage) : Bool :=
  !stage.transactionIds.isEmpty
    && decide stage.transactionIds.Nodup
    && stage.transactionIds.all (· ≠ "")
    && (stage.origins.getD []).all fun (id, peerId) =>
        decide (id ∈ stage.transactionIds) && peerId ≠ ""

/-- The durable shape of a record. Everything the types of the fields already
say (finite sizes and times, known states) is left to them. -/
def isFileRecord {Cid : Type} (record : FileRecord Cid) : Bool :=
  (record.admissionId ≠ some "")
    && (record.admissionSettledAt.isNone || record.admissionId.isSome)
    && match record.replicaStage with
      | none => true
      | some stage =>
          record.state = .temporary && record.pinned && record.heldLocally
            && record.expiresAt.isSome && isReplicaStage stage

/-- Only a temporary record lists transactions. -/
theorem unstaged_of_confirmed {Cid : Type} {record : FileRecord Cid}
    (hvalid : isFileRecord record = true) (hstate : record.state = .confirmed) :
    record.replicaStage = none := by
  cases hstage : record.replicaStage with
  | none => rfl
  | some stage =>
      unfold isFileRecord at hvalid
      simp [hstage, hstate] at hvalid

section Predicates

variable {Cid : Type}

/-- Blockstore bytes the pin of a record protects. -/
def protectedStorageBytes (record : FileRecord Cid) : Nat :=
  record.protectedBytes.getD (max record.storedBytes record.fileSize)

def isExpired (record : FileRecord Cid) (now : Nat) : Bool :=
  if record.state = .expired then true
  else if record.state ≠ .temporary then false
  else match record.expiresAt with
    | none => false
    | some expiresAt => expiresAt ≤ now

/-- Files that collection may unpin and reclaim. -/
def isReclaimable (record : FileRecord Cid) (now : Nat) : Bool :=
  record.state ≠ .confirmed && isExpired record now

/-- Whether an upload can no longer roll this local lifecycle back. -/
def isAdmissionSettled (record : FileRecord Cid) : Bool :=
  record.admissionId.isNone || record.admissionSettledAt.isSome

/-- The record of a permanent local copy. -/
def FileRecord.isDurable (record : FileRecord Cid) : Bool :=
  record.state = .confirmed && record.pinned && record.heldLocally
    && isAdmissionSettled record && record.replicaStage.isNone

end Predicates

/-! ## Process memory -/

/-- Key of an abort marker; the origin is `""` for a caller without a peer id. -/
structure AbortKey (Cid : Type) where
  cid : Cid
  transactionId : TransactionId
  originPeerId : PeerId
deriving DecidableEq, Repr

/-- What only the running process knows. -/
structure Process (Cid : Type) where
  activeAdmissions : Finset AdmissionId
  activeRepairs : Finset Cid
  /-- Abort markers with their expiry, oldest first. -/
  abortedTransactions : List (AbortKey Cid × Nat)

section Ownership

variable {Cid : Type} [DecidableEq Cid]

def Process.isActiveAdmission (proc : Process Cid) (admissionId : Option AdmissionId) : Bool :=
  match admissionId with
  | none => false
  | some id => id ∈ proc.activeAdmissions

def Process.isActiveRepair (proc : Process Cid) (cid : Cid) : Bool :=
  cid ∈ proc.activeRepairs

/-- The upload that owns the record can still roll it back, or its handler is
still running after settlement. -/
def isAdmissionInFlight (proc : Process Cid) (record : FileRecord Cid) : Bool :=
  !isAdmissionSettled record || proc.isActiveAdmission record.admissionId

/-- Durable local copy that no upload in flight and no repair owns. -/
def isSettledHeldFile (proc : Process Cid) (record : FileRecord Cid) : Bool :=
  record.state = .confirmed && record.heldLocally && isAdmissionSettled record
    && !proc.isActiveAdmission record.admissionId && !proc.isActiveRepair record.cid

/-- A replica stage, an upload request or a replication repair owns the CID. -/
def isLifecycleBusy (proc : Process Cid) (record : FileRecord Cid) : Bool :=
  record.replicaStage.isSome || isAdmissionInFlight proc record
    || proc.isActiveRepair record.cid

end Ownership

/-! ## The registry -/

/-- The decodable entries of the registry namespace of the datastore. -/
structure Registry (Cid : Type) where
  entries : List (FileRecord Cid)
  keyed : (entries.map (·.cid)).Nodup
  valid : ∀ record ∈ entries, isFileRecord record = true

namespace Registry

variable {Cid : Type} [DecidableEq Cid]

def empty : Registry Cid where
  entries := []
  keyed := by simp
  valid := by simp

def get (files : Registry Cid) (cid : Cid) : Option (FileRecord Cid) :=
  files.entries.find? (·.cid = cid)

def delete (files : Registry Cid) (cid : Cid) : Registry Cid where
  entries := files.entries.filter (·.cid ≠ cid)
  keyed := (List.filter_sublist.map _).nodup files.keyed
  valid := fun _ hr => files.valid _ (List.mem_of_mem_filter hr)

def put (files : Registry Cid) (record : FileRecord Cid)
    (h : isFileRecord record = true) : Registry Cid where
  entries := record :: (files.delete record.cid).entries
  keyed := by
    refine List.nodup_cons.mpr ⟨?_, (files.delete record.cid).keyed⟩
    simp [delete]
  valid := by
    intro r hr
    rcases List.mem_cons.mp hr with rfl | hr
    · exact h
    · exact (files.delete record.cid).valid r hr

variable {files : Registry Cid} {cid : Cid} {record : FileRecord Cid}

theorem mem_of_get (h : files.get cid = some record) : record ∈ files.entries :=
  List.mem_of_find?_eq_some h

/-- A record is stored under its own CID. -/
theorem cid_of_get (h : files.get cid = some record) : record.cid = cid := by
  simpa using List.find?_some h

theorem valid_of_get (h : files.get cid = some record) : isFileRecord record = true :=
  files.valid _ (mem_of_get h)

theorem get_of_mem (h : record ∈ files.entries) : files.get record.cid = some record := by
  have hk := files.keyed
  unfold get
  generalize files.entries = l at h hk
  induction l with
  | nil => cases h
  | cons x xs ih =>
      rw [List.map_cons, List.nodup_cons] at hk
      rcases List.mem_cons.mp h with rfl | h
      · simp
      · have hne : x.cid ≠ record.cid := fun heq =>
          hk.1 (heq ▸ List.mem_map_of_mem h)
        simp only [List.find?_cons, hne, decide_false]
        exact ih h hk.2

theorem get_delete (files : Registry Cid) (cid cid' : Cid) :
    (files.delete cid).get cid' = if cid' = cid then none else files.get cid' := by
  simp only [get, delete]
  induction files.entries with
  | nil => simp
  | cons x xs ih =>
      by_cases hx : x.cid = cid
      · have : (x :: xs).filter (·.cid ≠ cid) = xs.filter (·.cid ≠ cid) := by simp [hx]
        rw [this, ih]
        by_cases hc : cid' = cid
        · simp [hc]
        · simp [hc, hx, Ne.symm hc]
      · have : (x :: xs).filter (·.cid ≠ cid) = x :: xs.filter (·.cid ≠ cid) := by simp [hx]
        rw [this]
        by_cases hc : x.cid = cid'
        · subst hc
          simp [hx]
        · simp only [List.find?_cons, hc, decide_false]
          exact ih

theorem get_put (files : Registry Cid) (record : FileRecord Cid)
    (h : isFileRecord record = true) (cid : Cid) :
    (files.put record h).get cid = if cid = record.cid then some record else files.get cid := by
  have hd := get_delete files record.cid cid
  simp only [get, put, List.find?_cons] at hd ⊢
  by_cases hc : cid = record.cid
  · simp [hc]
  · simp only [Ne.symm hc, decide_false, hc, if_false] at hd ⊢
    exact hd

end Registry

/-- Every record of the registry, in whatever order the datastore lists them. -/
def Registry.Lists {Cid : Type} (files : Registry Cid) (records : List (FileRecord Cid)) : Prop :=
  records.Perm files.entries

end IpfsNode
