import IpfsNode.Json
import IpfsNode.Node

/-!
# The registry in the datastore

What `FileRegistry` does with the entries of the datastore: the check of the
durable shape, the decoding of an entry under its key, and `get`, `save` and
`list`. An entry may be anything here, also one that does not parse or one that
lies under the key of another CID.

`Represents` relates a datastore to the registry of decodable records that the
rest of the development works on. What its code makes of the one, the writes of
`FileRegistry` make of the other (`Represents.runs`).
-/

namespace IpfsNode

/-! ## Values -/

namespace Json

/-- `value.name`, `none` where the code reads `undefined`. -/
def get? (value : Json) (name : String) : Option Json :=
  match value with
  | .object fields => field name fields
  | _ => none

/-- `typeof value === 'object' && value !== null`. -/
def isObject : Json → Bool
  | .object _ | .array _ => true
  | _ => false

/-- `value === text`. -/
def isText (text : String) : Json → Bool
  | .string value => value = text
  | _ => false

/-- `value === flag`. -/
def isFlag (flag : Bool) : Json → Bool
  | .bool value => value = flag
  | _ => false

def isNull : Json → Bool
  | .null => true
  | _ => false

/-- `typeof value === 'string' && value.length > 0`. -/
def isNonEmptyString (value : Json) : Bool := value.asString.any (· ≠ "")

end Json

namespace FileRegistry

def isFiniteNonNegative : Json → Bool
  | .number value => 0 ≤ value
  | _ => false

def isNullableTimestamp (value : Json) : Bool :=
  value.isNull || isFiniteNonNegative value

/-- What a stage says about the record it found. -/
def isStageBaseline (previous : Json) : Bool :=
  previous.isNull
    || (previous.isObject
      && (previous.get? "state").any (·.isText "expired")
      && (previous.get? "expiresAt").any isNullableTimestamp
      && (previous.get? "confirmedAt").any isNullableTimestamp
      && (previous.get? "pinned").any (·.isFlag false)
      && (previous.get? "heldLocally").any (·.isFlag false))

def isTransactionIds : Json → Bool
  | .array items =>
      !items.isEmpty && decide (items.filterMap Json.asString).Nodup
        && items.all Json.isNonEmptyString
  | _ => false

/-- `transactionIds.includes(id)`. -/
def includesId (transactionIds : Json) (id : String) : Bool :=
  match transactionIds with
  | .array items => items.any (·.isText id)
  | _ => false

def isOrigins (transactionIds : Json) : Json → Bool
  | .object fields => fields.all fun (id, peerId) =>
      includesId transactionIds id && peerId.isNonEmptyString
  | _ => false

def isReplicaStage (value : Json) : Bool :=
  value.isObject
    && (value.get? "transactionIds").any isTransactionIds
    && (value.get? "origins").all (isOrigins ((value.get? "transactionIds").getD .null))
    && (value.get? "previous").any isStageBaseline

def isFileState (value : Json) : Bool :=
  value.isText "temporary" || value.isText "confirmed" || value.isText "expired"

/-- Validate the durable shape before lifecycle policy is allowed to trust it. -/
def isFileRecord (value : Json) : Bool :=
  value.isObject
    && (value.get? "cid").any (·.isNonEmptyString)
    && (value.get? "name").any (·.asString.isSome)
    && (value.get? "state").any isFileState
    && (value.get? "createdAt").any isFiniteNonNegative
    && (value.get? "expiresAt").any isNullableTimestamp
    && (value.get? "confirmedAt").any isNullableTimestamp
    && (value.get? "fileSize").any isFiniteNonNegative
    && (value.get? "storedBytes").any isFiniteNonNegative
    && (value.get? "protectedBytes").all isFiniteNonNegative
    && (value.get? "pinned").any (·.asBool.isSome)
    && (value.get? "heldLocally").any (·.asBool.isSome)
    && (value.get? "replicas").any isReplicas
    && (value.get? "revision").all (fun revision =>
      revision.isNonEmptyString || isFiniteNonNegative revision)
    && (value.get? "admissionId").all (·.isNonEmptyString)
    && (value.get? "admissionSettledAt").all (fun settledAt =>
      (value.get? "admissionId").isSome && isFiniteNonNegative settledAt)
    && (value.get? "replicaStage").all (fun stage =>
      (value.get? "state").any (·.isText "temporary")
        && (value.get? "pinned").any (·.isFlag true)
        && (value.get? "heldLocally").any (·.isFlag true)
        && !(value.get? "expiresAt").any Json.isNull
        && isReplicaStage stage)
where
  isReplicas : Json → Bool
    | .array peers => peers.all (·.asString.isSome)
    | _ => false

/-- `parsed.cid === expectedCid`. -/
def isAbout (cid : String) (value : Json) : Bool := (value.get? "cid").any (·.isText cid)

/-- Decode a record, given what `JSON.parse` makes of it (`none` where it
throws), and ensure it belongs to the datastore key that carried it. -/
def decodeRecord (value : Option Json) (expectedCid : String) : Option Json :=
  value.filter fun parsed => isFileRecord parsed && isAbout expectedCid parsed

end FileRegistry

/-! ## What `JSON.stringify` writes -/

/-- The text of a CID. -/
abbrev CidText := { text : String // text ≠ "" }

/-- A field that is left out when it is `undefined`. -/
def optionalField (name : String) (value : Option Json) : List (String × Json) :=
  (value.map (name, ·)).toList

def FileState.toJson : FileState → Json
  | .temporary => .string "temporary"
  | .confirmed => .string "confirmed"
  | .expired => .string "expired"

def ReplicaStageBaseline.toJson (baseline : ReplicaStageBaseline) : Json :=
  .object
    [("state", .string "expired"), ("expiresAt", .time baseline.expiresAt),
      ("confirmedAt", .time baseline.confirmedAt), ("pinned", .bool false),
      ("heldLocally", .bool false)]

def ReplicaStage.toJson (stage : ReplicaStage) : Json :=
  .object ([("transactionIds", .array (stage.transactionIds.map .string))]
    ++ optionalField "origins" (stage.origins.map fun origins =>
      .object (origins.map fun (id, peerId) => (id, .string peerId)))
    ++ [("previous", stage.previous.elim .null ReplicaStageBaseline.toJson)])

/-- A record as it is stored; the order of the fields says nothing. `uuid` is
the text of a revision. -/
def FileRecord.toJson (uuid : Nat → String) (record : FileRecord CidText) : Json :=
  .object ([("cid", .string record.cid), ("name", .string record.name),
      ("state", record.state.toJson), ("createdAt", .nat record.createdAt),
      ("expiresAt", .time record.expiresAt), ("confirmedAt", .time record.confirmedAt),
      ("fileSize", .nat record.fileSize), ("storedBytes", .nat record.storedBytes),
      ("pinned", .bool record.pinned), ("heldLocally", .bool record.heldLocally),
      ("replicas", .array (record.replicas.map .string))]
    ++ optionalField "protectedBytes" (record.protectedBytes.map .nat)
    ++ optionalField "admissionId" (record.admissionId.map .string)
    ++ optionalField "admissionSettledAt" (record.admissionSettledAt.map .nat)
    ++ optionalField "replicaStage" (record.replicaStage.map ReplicaStage.toJson)
    ++ optionalField "revision" (record.revision.map fun n => .string (uuid n)))

/-! ## Every stored record passes the check -/

section ToJson

open FileRegistry

variable {uuid : Nat → String} {record : FileRecord CidText} {stage : ReplicaStage}

theorem lookup_optionalField (name other : String) (value : Option Json) :
    (optionalField name value).lookup other = if other = name then value else none := by
  cases value with
  | none => simp [optionalField]
  | some value =>
      by_cases h : other = name
      · simp [optionalField, h]
      · have hne : (other == name) = false := beq_false_of_ne h
        simp [optionalField, List.lookup_cons, hne, h]

@[simp] theorem isFiniteNonNegative_nat (n : Nat) : isFiniteNonNegative (.nat n) = true := by
  exact decide_eq_true Rat.natCast_nonneg

@[simp] theorem isNullableTimestamp_time (t : Option Nat) :
    isNullableTimestamp (.time t) = true := by
  cases t with
  | none => rfl
  | some n => simp [isNullableTimestamp, Json.time]

@[simp] theorem isNull_time (t : Option Nat) : (Json.time t).isNull = t.isNone := by
  cases t <;> rfl

@[simp] theorem isNonEmptyString_string (text : String) :
    (Json.string text).isNonEmptyString = decide (text ≠ "") := rfl

theorem isTransactionIds_toJson (ids : List TransactionId) :
    isTransactionIds (.array (ids.map .string)) =
      (!ids.isEmpty && decide ids.Nodup && ids.all (· ≠ "")) := by
  have hstrings : (ids.map Json.string).filterMap Json.asString = ids := by
    rw [List.filterMap_map]
    exact List.filterMap_some
  simp [isTransactionIds, hstrings, List.all_map, Function.comp_def]

theorem includesId_toJson (ids : List TransactionId) (id : TransactionId) :
    includesId (.array (ids.map .string)) id = decide (id ∈ ids) := by
  rw [includesId, List.any_map]
  simp [Json.isText, Function.comp_def, List.any_eq]

theorem isOrigins_toJson (ids : List TransactionId) (origins : List (TransactionId × PeerId)) :
    isOrigins (.array (ids.map .string))
        (.object (origins.map fun (id, peerId) => (id, .string peerId))) =
      origins.all fun (id, peerId) => decide (id ∈ ids) && peerId ≠ "" := by
  rw [isOrigins, List.all_map]
  simp [Function.comp_def, includesId_toJson]

theorem isStageBaseline_toJson (previous : Option ReplicaStageBaseline) :
    isStageBaseline (previous.elim .null ReplicaStageBaseline.toJson) = true := by
  cases previous with
  | none => rfl
  | some baseline =>
      simp [isStageBaseline, ReplicaStageBaseline.toJson, Json.get?, Json.field, Json.isObject,
        List.lookup_cons, Json.isText, Json.isFlag]

theorem isReplicaStage_toJson :
    FileRegistry.isReplicaStage stage.toJson = IpfsNode.isReplicaStage stage := by
  have hids : stage.toJson.get? "transactionIds" =
      some (.array (stage.transactionIds.map .string)) := rfl
  have horigins : stage.toJson.get? "origins" = stage.origins.map fun origins =>
      .object (origins.map fun (id, peerId) => (id, .string peerId)) := by
    simp [ReplicaStage.toJson, Json.get?, Json.field, List.lookup_append, List.lookup_cons,
      lookup_optionalField]
  have hprevious : stage.toJson.get? "previous" =
      some (stage.previous.elim .null ReplicaStageBaseline.toJson) := by
    simp [ReplicaStage.toJson, Json.get?, Json.field, List.lookup_append, List.lookup_cons,
      lookup_optionalField]
  unfold FileRegistry.isReplicaStage IpfsNode.isReplicaStage
  rw [hids, horigins, hprevious]
  cases stage.origins with
  | none => simp [ReplicaStage.toJson, Json.isObject, isTransactionIds_toJson,
      isStageBaseline_toJson]
  | some origins => simp [ReplicaStage.toJson, Json.isObject, isTransactionIds_toJson,
      isStageBaseline_toJson, isOrigins_toJson]

/-- What a field of a stored record reads as. -/
theorem get?_toJson (name : String) : (record.toJson uuid).get? name =
    match name with
    | "cid" => some (.string record.cid)
    | "name" => some (.string record.name)
    | "state" => some record.state.toJson
    | "createdAt" => some (.nat record.createdAt)
    | "expiresAt" => some (.time record.expiresAt)
    | "confirmedAt" => some (.time record.confirmedAt)
    | "fileSize" => some (.nat record.fileSize)
    | "storedBytes" => some (.nat record.storedBytes)
    | "pinned" => some (.bool record.pinned)
    | "heldLocally" => some (.bool record.heldLocally)
    | "replicas" => some (.array (record.replicas.map .string))
    | "protectedBytes" => record.protectedBytes.map .nat
    | "admissionId" => record.admissionId.map .string
    | "admissionSettledAt" => record.admissionSettledAt.map .nat
    | "replicaStage" => record.replicaStage.map ReplicaStage.toJson
    | "revision" => record.revision.map fun n => .string (uuid n)
    | _ => none := by
  split <;>
    simp_all [FileRecord.toJson, Json.get?, Json.field, List.lookup_append, List.lookup_cons,
      lookup_optionalField, beq_false_of_ne]

@[simp] theorem isFileState_toJson (state : FileState) : isFileState state.toJson = true := by
  cases state <;> rfl

@[simp] theorem isText_temporary_toJson (state : FileState) :
    state.toJson.isText "temporary" = decide (state = .temporary) := by
  cases state <;> rfl

/-- The check in the datastore layer is the one of the model: what it asks beyond
that, the types of the fields say. -/
theorem isFileRecord_toJson (huuid : ∀ n, uuid n ≠ "") :
    FileRegistry.isFileRecord (record.toJson uuid) = IpfsNode.isFileRecord record := by
  have hobject : (record.toJson uuid).isObject = true := rfl
  have hreplicas : FileRegistry.isFileRecord.isReplicas (.array (record.replicas.map .string)) =
      true := by
    simp [FileRegistry.isFileRecord.isReplicas, Json.asString]
  have hadmission : (record.admissionId.map Json.string).all (·.isNonEmptyString) =
      decide (record.admissionId ≠ some "") := by
    cases record.admissionId <;> simp
  have hsettled : record.admissionSettledAt.all (fun _ => record.admissionId.isSome && true) =
      (record.admissionSettledAt.isNone || record.admissionId.isSome) := by
    cases record.admissionSettledAt <;> simp
  have hcid : (record.cid : String) ≠ "" := record.cid.2
  have hrevision : (record.revision.map fun n => Json.string (uuid n)).all (fun revision =>
      revision.isNonEmptyString || isFiniteNonNegative revision) = true := by
    cases record.revision <;> simp [huuid]
  unfold FileRegistry.isFileRecord IpfsNode.isFileRecord
  simp only [get?_toJson, hobject, hadmission, hrevision]
  simp only [Option.any_some, hreplicas, isNonEmptyString_string, isFiniteNonNegative_nat,
    isNullableTimestamp_time, isFileState_toJson, Option.all_map, Option.isSome_map, hsettled]
  cases record.replicaStage with
  | none => simp [hcid]
  | some stage => simp [hcid, isReplicaStage_toJson, Json.isFlag]

end ToJson

/-! ## The datastore -/

/-- What each key holds, as far as `JSON.parse` can read it. -/
structure Datastore where
  entries : List (String × Option Json)
  keyed : (entries.map (·.1)).Nodup

namespace Datastore

def empty : Datastore where
  entries := []
  keyed := by simp

def get (d : Datastore) (key : String) : Option (Option Json) := d.entries.lookup key

def delete (d : Datastore) (key : String) : Datastore where
  entries := d.entries.filter (·.1 ≠ key)
  keyed := (List.filter_sublist.map _).nodup d.keyed

def put (d : Datastore) (key : String) (value : Option Json) : Datastore where
  entries := (key, value) :: (d.delete key).entries
  keyed := by
    refine List.nodup_cons.mpr ⟨?_, (d.delete key).keyed⟩
    simp [delete]

/-- `text.startsWith(start)`. -/
def startsWith (text start : String) : Bool := start.toList.isPrefixOf text.toList

/-- `datastore.query`. -/
def query (d : Datastore) (start : String) : List (String × Option Json) :=
  d.entries.filter fun entry => startsWith entry.1 start

variable {d : Datastore} {key other : String} {value : Option Json}

theorem get_of_mem (h : (key, value) ∈ d.entries) : d.get key = some value := by
  have hkeyed := d.keyed
  unfold get
  generalize d.entries = entries at h hkeyed
  induction entries with
  | nil => cases h
  | cons entry entries ih =>
      rw [List.map_cons, List.nodup_cons] at hkeyed
      rcases List.mem_cons.mp h with rfl | h
      · simp
      · have hne : (key == entry.1) = false :=
          beq_false_of_ne fun heq => hkeyed.1 (heq ▸ List.mem_map_of_mem h)
        rw [List.lookup_cons, hne]
        exact ih h hkeyed.2

theorem mem_of_get (h : d.get key = some value) : (key, value) ∈ d.entries :=
  List.lookup_eq_some_iff.mp h |>.elim fun _ ⟨_, heq, _⟩ => by
    rw [heq]
    exact List.mem_append_right _ List.mem_cons_self

theorem get_delete : (d.delete key).get other = if other = key then none else d.get other := by
  show (d.entries.filter (·.1 ≠ key)).lookup other = if other = key then none else
    d.entries.lookup other
  induction d.entries with
  | nil => simp
  | cons entry entries ih =>
      by_cases hentry : entry.1 = key
      · rw [List.filter_cons_of_neg (by simpa using hentry), ih]
        by_cases hother : other = key
        · simp [hother]
        · have hne : (other == entry.1) = false := beq_false_of_ne (hentry ▸ hother)
          rw [if_neg hother, if_neg hother, List.lookup_cons, hne]
      · rw [List.filter_cons_of_pos (by simpa using hentry), List.lookup_cons, List.lookup_cons,
          ih]
        by_cases hother : other = entry.1
        · simp [hother, hentry]
        · simp [beq_false_of_ne hother]

theorem get_put :
    (d.put key value).get other = if other = key then some value else d.get other := by
  have hdelete : (d.delete key).entries.lookup other = if other = key then none else d.get other :=
    get_delete
  show ((key, value) :: (d.delete key).entries).lookup other = _
  rw [List.lookup_cons, hdelete]
  by_cases hother : other = key
  · simp [hother]
  · simp [hother, beq_false_of_ne hother]

/-- A key has one entry, if any. -/
theorem filter_key : d.entries.filter (fun entry => entry.1 = key) =
    ((d.get key).map (key, ·)).toList := by
  have hkeyed := d.keyed
  unfold get
  generalize d.entries = entries at hkeyed
  induction entries with
  | nil => rfl
  | cons entry entries ih =>
      rw [List.map_cons, List.nodup_cons] at hkeyed
      by_cases hentry : entry.1 = key
      · have hnone : entries.filter (fun entry => entry.1 = key) = [] := by
          refine List.filter_eq_nil_iff.mpr fun other hmem hother => hkeyed.1 ?_
          rw [hentry, ← of_decide_eq_true hother]
          exact List.mem_map_of_mem hmem
        rw [List.filter_cons_of_pos (by simpa using hentry), hnone, ← hentry,
          List.lookup_cons_self]
        rfl
      · rw [List.filter_cons_of_neg (by simpa using hentry), ih hkeyed.2, List.lookup_cons,
          beq_false_of_ne (Ne.symm hentry)]

theorem startsWith_append (start rest : String) : startsWith (start ++ rest) start = true := by
  rw [startsWith, String.toList_append]
  exact List.isPrefixOf_iff_prefix.mpr (List.prefix_append _ _)

end Datastore

/-! ## `FileRegistry` -/

/-- Datastore namespace of the lifecycle registry. -/
def REGISTRY_PREFIX : String := "/adm/files"

namespace FileRegistry

/-- The datastore key of a CID. A CID has no slash, so that `Key` has nothing to
clean. -/
def key (cid : String) : String := REGISTRY_PREFIX ++ "/" ++ cid

/-- Read one record. A record that does not decode is an error here. -/
def get (d : Datastore) (cid : String) : Except String (Option Json) :=
  match d.get (key cid) with
  | none => .ok none
  | some value =>
      match decodeRecord value cid with
      | none => .error ("Invalid lifecycle registry record for " ++ cid)
      | some record => .ok (some record)

/-- Store a record, under a revision of its own. -/
def save (uuid : Nat → String) (d : Datastore) (record : FileRecord CidText) (revision : Nat) :
    Except String (Json × Datastore) :=
  let stored := (record.stamped revision).toJson uuid
  if isFileRecord stored then .ok (stored, d.put (key record.cid) (some stored))
  else .error ("Refusing to store an invalid lifecycle record for " ++ record.cid)

def removeRecord (d : Datastore) (cid : String) : Datastore := d.delete (key cid)

/-- The CID an entry has to be about. -/
def expectedCid (entryKey : String) : String :=
  let keyPrefix := REGISTRY_PREFIX ++ "/"
  if Datastore.startsWith entryKey keyPrefix then
    String.ofList (entryKey.toList.drop keyPrefix.toList.length)
  else ""

/-- Every record that decodes under its key. -/
def list (d : Datastore) : List Json :=
  (d.query REGISTRY_PREFIX).filterMap fun entry => decodeRecord entry.2 (expectedCid entry.1)

variable {d : Datastore} {cid : String} {value : Json} {uuid : Nat → String}
variable {record : FileRecord CidText} {n : Nat}

@[simp] theorem expectedCid_key (cid : String) : expectedCid (key cid) = cid := by
  have htext : (key cid).toList = (REGISTRY_PREFIX ++ "/").toList ++ cid.toList :=
    String.toList_append
  have hstart : Datastore.startsWith (key cid) (REGISTRY_PREFIX ++ "/") = true :=
    Datastore.startsWith_append _ _
  unfold expectedCid
  rw [if_pos hstart, htext, List.drop_left, String.ofList_toList]

theorem key_inj {other : String} (h : key cid = key other) : cid = other := by
  rw [← expectedCid_key cid, h, expectedCid_key]

/-- An entry that has to be about a CID lies under the key of the CID. -/
theorem key_of_expectedCid {entryKey : String} (h : expectedCid entryKey = cid) (hcid : cid ≠ "") :
    entryKey = key cid := by
  unfold expectedCid at h
  dsimp only at h
  split at h
  · rename_i hstart
    obtain ⟨rest, hrest⟩ := List.isPrefixOf_iff_prefix.mp hstart
    rw [← hrest, List.drop_left] at h
    have htext : (key cid).toList = (REGISTRY_PREFIX ++ "/").toList ++ cid.toList :=
      String.toList_append
    rw [← String.toList_inj, htext, ← h, String.toList_ofList, hrest]
  · exact absurd h.symm hcid

theorem isAbout_iff : isAbout cid value = true ↔ value.get? "cid" = some (.string cid) := by
  unfold isAbout
  cases value.get? "cid" with
  | none => simp
  | some text =>
      cases text <;> simp [Json.isText]

theorem isAbout_toJson : isAbout cid (record.toJson uuid) = true ↔ cid = record.cid := by
  rw [isAbout_iff, get?_toJson]
  simp [eq_comm]

theorem decodeRecord_eq_some {entry : Option Json} : decodeRecord entry cid = some value ↔
    entry = some value ∧ isFileRecord value = true ∧ isAbout cid value = true := by
  unfold decodeRecord
  rw [Option.filter_eq_some_iff, Bool.and_eq_true]

/-- A record that decodes is about a CID. -/
theorem ne_empty_of_isFileRecord (hvalid : isFileRecord value = true)
    (hcid : isAbout cid value = true) : cid ≠ "" := by
  rintro rfl
  unfold isFileRecord at hvalid
  rw [isAbout_iff.mp hcid] at hvalid
  simp at hvalid

/-- `list` yields what lies under its own key and passes the check, and nothing
else. -/
theorem mem_list : value ∈ list d ↔ ∃ cid, d.get (key cid) = some (some value) ∧
    isFileRecord value = true ∧ isAbout cid value = true := by
  unfold list Datastore.query
  rw [List.mem_filterMap]
  constructor
  · rintro ⟨⟨entryKey, entry⟩, hmem, hdecoded⟩
    obtain ⟨rfl, hvalid, hcid⟩ := decodeRecord_eq_some.mp hdecoded
    have hkey : entryKey = key (expectedCid entryKey) :=
      key_of_expectedCid rfl (ne_empty_of_isFileRecord hvalid hcid)
    refine ⟨expectedCid entryKey, ?_, hvalid, hcid⟩
    rw [← hkey]
    exact Datastore.get_of_mem (List.mem_of_mem_filter hmem)
  · rintro ⟨cid, hget, hvalid, hcid⟩
    refine ⟨(key cid, some value), ?_, ?_⟩
    · refine List.mem_filter.mpr ⟨Datastore.mem_of_get hget, ?_⟩
      rw [key, String.append_assoc]
      exact Datastore.startsWith_append _ _
    · rw [expectedCid_key, decodeRecord_eq_some]
      exact ⟨rfl, hvalid, hcid⟩

/-- ... and the record of a CID once. -/
theorem filter_list (hget : d.get (key cid) = some (some value))
    (hvalid : isFileRecord value = true) (hcid : isAbout cid value = true) :
    (list d).filter (isAbout cid) = [value] := by
  have hentry : ∀ entry ∈ d.entries,
      (if Datastore.startsWith entry.1 REGISTRY_PREFIX then
        (decodeRecord entry.2 (expectedCid entry.1)).filter (isAbout cid) else none) =
      if entry.1 = key cid then some value else none := by
    rintro ⟨entryKey, entry⟩ hmem
    by_cases hkey : entryKey = key cid
    · subst hkey
      have hstart : Datastore.startsWith (key cid) REGISTRY_PREFIX = true := by
        rw [key, String.append_assoc]
        exact Datastore.startsWith_append _ _
      have hentry : entry = some value :=
        Option.some.inj ((Datastore.get_of_mem hmem).symm.trans hget)
      have hdecoded : decodeRecord entry cid = some value :=
        decodeRecord_eq_some.mpr ⟨hentry, hvalid, hcid⟩
      rw [if_pos hstart, if_pos rfl, expectedCid_key, hdecoded, Option.filter_some, if_pos hcid]
    · rw [if_neg hkey]
      split
      · refine Option.filter_eq_none_iff.mpr fun other hother habout => hkey ?_
        obtain ⟨-, hvalid', habout'⟩ := decodeRecord_eq_some.mp hother
        have hsame : expectedCid entryKey = cid := by
          rw [isAbout_iff] at habout habout'
          exact Json.string.inj (Option.some.inj (habout'.symm.trans habout))
        exact key_of_expectedCid hsame (ne_empty_of_isFileRecord hvalid hcid)
      · rfl
  unfold list Datastore.query
  rw [List.filter_filterMap, List.filterMap_filter, List.filterMap_congr hentry]
  have hone : (d.entries.filter fun entry => entry.1 = key cid).filterMap (fun _ => some value) =
      [value] := by
    rw [Datastore.filter_key, hget]
    rfl
  rw [List.filterMap_filter] at hone
  simpa using hone

/-! ### Writing -/

theorem save_valid (huuid : ∀ n, uuid n ≠ "") (hvalid : IpfsNode.isFileRecord record = true) :
    save uuid d record n = .ok ((record.stamped n).toJson uuid,
      d.put (key record.cid) (some ((record.stamped n).toJson uuid))) := by
  have hstored : isFileRecord ((record.stamped n).toJson uuid) = true :=
    (isFileRecord_toJson huuid).trans hvalid
  exact if_pos hstored

/-- A record that is accepted can be read back, and is listed once. -/
theorem readable_of_save (huuid : ∀ n, uuid n ≠ "")
    (hvalid : IpfsNode.isFileRecord record = true) :
    ∃ d', save uuid d record n = .ok ((record.stamped n).toJson uuid, d') ∧
      get d' record.cid = .ok (some ((record.stamped n).toJson uuid)) ∧
      (list d').filter (isAbout record.cid) = [(record.stamped n).toJson uuid] := by
  have hstored : isFileRecord ((record.stamped n).toJson uuid) = true :=
    (isFileRecord_toJson huuid).trans hvalid
  have hcid : isAbout record.cid ((record.stamped n).toJson uuid) = true :=
    isAbout_toJson.mpr rfl
  refine ⟨_, save_valid huuid hvalid, ?_, filter_list ?_ hstored hcid⟩
  · unfold get
    rw [Datastore.get_put, if_pos rfl]
    dsimp only
    rw [decodeRecord_eq_some.mpr ⟨rfl, hstored, hcid⟩]
  · rw [Datastore.get_put, if_pos rfl]

/-! ### The registry of the model -/

/-- The records of the model are those that decode. -/
def Represents (uuid : Nat → String) (d : Datastore) (files : Registry CidText) : Prop :=
  ∀ cid : CidText, ((d.get (key cid)).bind fun value => decodeRecord value cid) =
    (files.get cid).map (·.toJson uuid)

variable {files : Registry CidText}

theorem represents_empty : Represents uuid Datastore.empty Registry.empty :=
  fun _ => rfl

theorem Represents.get (h : Represents uuid d files) (cid : CidText)
    (hget : files.get cid = some record) : get d cid = .ok (some (record.toJson uuid)) := by
  have hdecoded := h cid
  rw [hget] at hdecoded
  obtain ⟨value, hvalue, hrecord⟩ := Option.bind_eq_some_iff.mp hdecoded
  unfold FileRegistry.get
  rw [hvalue]
  dsimp only
  rw [hrecord]

theorem Represents.save (h : Represents uuid d files) (huuid : ∀ n, uuid n ≠ "")
    (hvalid : IpfsNode.isFileRecord (record.stamped n) = true) :
    ∃ d', save uuid d record n = .ok ((record.stamped n).toJson uuid, d') ∧
      Represents uuid d' (files.put (record.stamped n) hvalid) := by
  refine ⟨_, save_valid huuid hvalid, fun cid => ?_⟩
  rw [Registry.get_put, Datastore.get_put]
  by_cases hcid : cid = (record.stamped n).cid
  · have hkey : key (cid : String) = key record.cid := by
      rw [hcid]
      rfl
    have hdecoded : decodeRecord (some ((record.stamped n).toJson uuid)) cid =
        some ((record.stamped n).toJson uuid) :=
      decodeRecord_eq_some.mpr ⟨rfl, (isFileRecord_toJson huuid).trans hvalid,
        isAbout_toJson.mpr (by rw [hcid])⟩
    rw [if_pos hkey, if_pos hcid]
    exact hdecoded
  · have hkey : key (cid : String) ≠ key record.cid :=
      fun hkey => hcid (Subtype.ext (key_inj hkey))
    rw [if_neg hkey, if_neg hcid]
    exact h cid

theorem Represents.remove (h : Represents uuid d files) (cid : CidText) :
    Represents uuid (removeRecord d cid) (files.delete cid) := by
  intro other
  unfold removeRecord
  rw [Registry.get_delete, Datastore.get_delete]
  by_cases hcid : other = cid
  · rw [if_pos hcid, if_pos (by rw [hcid])]
    rfl
  · rw [if_neg hcid, if_neg fun hkey => hcid (Subtype.ext (key_inj hkey))]
    exact h other

/-- `list` yields the records of the model. -/
theorem Represents.mem_list (h : Represents uuid d files) :
    value ∈ list d ↔ ∃ record ∈ files.entries, value = record.toJson uuid := by
  rw [FileRegistry.mem_list]
  constructor
  · rintro ⟨cid, hget, hvalid, hcid⟩
    have hdecoded := h ⟨cid, ne_empty_of_isFileRecord hvalid hcid⟩
    rw [hget, Option.bind_some, decodeRecord_eq_some.mpr ⟨rfl, hvalid, hcid⟩] at hdecoded
    obtain ⟨record, hrecord, heq⟩ := Option.map_eq_some_iff.mp hdecoded.symm
    exact ⟨record, Registry.mem_of_get hrecord, heq.symm⟩
  · rintro ⟨record, hmem, rfl⟩
    have hdecoded := h record.cid
    rw [Registry.get_of_mem hmem] at hdecoded
    obtain ⟨value, hvalue, hrecord⟩ := Option.bind_eq_some_iff.mp hdecoded
    obtain ⟨rfl, hvalid, hcid⟩ := decodeRecord_eq_some.mp hrecord
    exact ⟨record.cid, hvalue, hvalid, hcid⟩

/-! ### The registry of a run -/

/-- One write of the registry. -/
inductive Writes (uuid : Nat → String) : Datastore → Datastore → Prop
  | save {d d' : Datastore} {record : FileRecord CidText} {n : Nat} {stored : Json}
      (h : save uuid d record n = .ok (stored, d')) : Writes uuid d d'
  | remove {d : Datastore} (cid : String) : Writes uuid d (removeRecord d cid)

variable {content : Content CidText} {faults : Faults CidText} {w w' : World CidText}

/-- What a request makes of the records, writes of the registry make of the
datastore. -/
theorem Represents.effect (h : Represents uuid d w.files) (huuid : ∀ n, uuid n ≠ "")
    (o : StoreOp CidText) : ∃ d', Relation.ReflTransGen (Writes uuid) d d' ∧
      Represents uuid d' (o.effect content w).2.files := by
  cases o with
  | putRecord record hvalid =>
      obtain ⟨d', hsave, hd'⟩ := h.save huuid ((isFileRecord_stamped ..).trans hvalid)
      exact ⟨d', .single (.save hsave), hd'⟩
  | deleteRecord cid => exact ⟨_, .single (.remove cid), h.remove cid⟩
  | pinsAdd | pinsRm | pinsGet | statDag | beginRepair | beginAdmission =>
      refine ⟨d, .refl, ?_⟩
      simp only [StoreOp.effect]
      split <;> exact h
  | _ => exact ⟨d, .refl, h⟩

theorem Represents.runs {α : Type} {p : Store CidText α} {r : Except (LifecycleError CidText) α}
    (hrun : Prog.Runs (storeSem content faults) p w r w') (huuid : ∀ n, uuid n ≠ "")
    (h : Represents uuid d w.files) :
    ∃ d', Relation.ReflTransGen (Writes uuid) d d' ∧ Represents uuid d' w'.files := by
  induction hrun generalizing d with
  | ret | fail => exact ⟨d, .refl, h⟩
  | act hstep _ ih =>
      cases hstep with
      | failed => exact ih h
      | served | landed =>
          obtain ⟨d₁, hwrites, hd₁⟩ := h.effect huuid _
          obtain ⟨d', hrest, hd'⟩ := ih hd₁
          exact ⟨d', hwrites.trans hrest, hd'⟩

end FileRegistry

end IpfsNode
