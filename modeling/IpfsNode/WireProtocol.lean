import IpfsNode.Framing
import IpfsNode.Json
import IpfsNode.Registry

/-!
# Messages between nodes

The replication protocol and the health protocol frame their messages the same
way, each with a limit of its own. What `JSON.stringify` writes and `JSON.parse`
reads back is a parameter, as is which texts `CID.parse` accepts.

`wire_framing` says that a request arrives as it was sent, however the stream
cuts it, and what a reader makes of everything else. A request that names no
transaction where it has to is the one that the receiver refuses.
-/

namespace IpfsNode

open Framing (Bytes)

/-! ## Framed messages -/

/-- The text of a JSON value, in UTF-8. -/
structure JsonText where
  stringify : Json → Bytes
  parse : Bytes → Except String Json

/-- The value comes back as it was written. -/
def JsonText.Inverts (json : JsonText) (value : Json) : Prop :=
  json.parse (json.stringify value) = .ok value

/-- A protocol that frames its messages. -/
structure FrameProtocol where
  maxMessageBytes : Nat
  tooLarge : String
  incomplete : String

section Frames

variable (protocol : FrameProtocol) (json : JsonText)

def encodeFrame (message : Json) : Bytes := Framing.frame (json.stringify message)

/-- Read exactly one message from a stream that ends after the chunks. -/
def FrameProtocol.read (chunks : List Bytes) : Except String Json :=
  match Framing.read protocol.maxMessageBytes chunks with
  | .tooLarge => .error protocol.tooLarge
  | .incomplete => .error protocol.incomplete
  | .message body => json.parse body

/-- A message arrives whatever the chunks; a part of one and a length over the
limit are refused; and no more is asked for than the limit. -/
structure FrameProtocol.Laws : Prop where
  whole : ∀ message, json.Inverts message →
    (json.stringify message).length ≤ protocol.maxMessageBytes →
    ∀ chunks : List Bytes, chunks.flatten = encodeFrame json message →
      protocol.read json chunks = .ok message
  part : ∀ message, (json.stringify message).length ≤ protocol.maxMessageBytes →
    ∀ chunks : List Bytes, chunks.flatten <+: encodeFrame json message →
      chunks.flatten ≠ encodeFrame json message →
      protocol.read json chunks = .error protocol.incomplete
  oversized : ∀ chunks : List Bytes,
    Framing.LENGTH_PREFIX_BYTES ≤ chunks.flatten.length →
    protocol.maxMessageBytes < Framing.readUInt32BE chunks.flatten →
    protocol.read json chunks = .error protocol.tooLarge ∧
      ∃ unread, ∀ more, Framing.readFrom protocol.maxMessageBytes [] (chunks ++ more) =
        (.tooLarge, unread ++ more)
  bounded : ∀ chunks : List Bytes, Framing.Bounded protocol.maxMessageBytes [] chunks

variable {protocol}

theorem FrameProtocol.laws (hlimit : protocol.maxMessageBytes < 2 ^ 32) :
    protocol.Laws json where
  whole := by
    intro message hinverts hbody chunks hsplit
    have hstart : ([] : Bytes) ≠ encodeFrame json message := fun h => by cases h
    have hread : Framing.read protocol.maxMessageBytes chunks =
        .message (json.stringify message) :=
      Framing.readFrom_split hbody hlimit hstart hsplit
    unfold FrameProtocol.read
    rw [hread]
    exact hinverts
  part := by
    intro message hbody chunks hfront hpart
    have hread : Framing.read protocol.maxMessageBytes chunks = .incomplete :=
      Framing.readFrom_part hbody hlimit hfront hpart
    unfold FrameProtocol.read
    rw [hread]
  oversized := by
    intro chunks hlength hover
    have hread : Framing.read protocol.maxMessageBytes chunks = .tooLarge :=
      Framing.readFrom_oversized (Nat.zero_lt_succ 3) hlength hover
    refine ⟨by unfold FrameProtocol.read; rw [hread],
      (Framing.readFrom protocol.maxMessageBytes [] chunks).2, fun more => ?_⟩
    exact Framing.readFrom_append more (fun h => by cases h) (Prod.ext hread rfl)
  bounded chunks := Framing.readFrom_bounded chunks (Nat.zero_le _)

end Frames

/-! ## The health protocol -/

namespace HealthProtocol

def MAX_MESSAGE_BYTES : Nat := 1024

def frames : FrameProtocol where
  maxMessageBytes := MAX_MESSAGE_BYTES
  tooLarge := "Health attestation is too large"
  incomplete := "Health stream ended before a complete message arrived"

def encode (json : JsonText) (message : Json) : Bytes := encodeFrame json message

def read (json : JsonText) (chunks : List Bytes) : Except String Json := frames.read json chunks

end HealthProtocol

/-! ## The replication protocol -/

namespace ReplicationProtocol

def MAX_MESSAGE_BYTES : Nat := 4096

def frames : FrameProtocol where
  maxMessageBytes := MAX_MESSAGE_BYTES
  tooLarge := "Replication message is too large"
  incomplete := "Replication stream ended before a complete message arrived"

def encodeMessage (json : JsonText) (message : Json) : Bytes := encodeFrame json message

def readMessage (json : JsonText) (chunks : List Bytes) : Except String Json :=
  frames.read json chunks

inductive Operation where
  | store
  | stage
  | commit
  | abort
  | have_
  | accept
  | cache
deriving DecidableEq, Repr

def Operation.text : Operation → String
  | store => "store"
  | stage => "stage"
  | commit => "commit"
  | abort => "abort"
  | have_ => "have"
  | accept => "accept"
  | cache => "cache"

def operations : List Operation := [.store, .stage, .commit, .abort, .have_, .accept, .cache]

inductive Request where
  | store (cid : String)
  | stage (cid : String) (transactionId : TransactionId)
  | commit (cid : String) (transactionId : TransactionId)
  | abort (cid : String) (transactionId : TransactionId)
  | have_ (cid : String)
  | accept (cid : String)
  | cache (cid : String)
deriving DecidableEq, Repr

namespace Request

def op : Request → Operation
  | store _ => .store
  | stage .. => .stage
  | commit .. => .commit
  | abort .. => .abort
  | have_ _ => .have_
  | accept _ => .accept
  | cache _ => .cache

def cid : Request → String
  | store cid | stage cid _ | commit cid _ | abort cid _ | have_ cid | accept cid | cache cid =>
      cid

def transactionId : Request → Option TransactionId
  | stage _ transactionId | commit _ transactionId | abort _ transactionId => some transactionId
  | _ => none

/-- The message a request is sent as. -/
def toJson (request : Request) : Json :=
  .object ([("op", .string request.op.text), ("cid", .string request.cid)]
    ++ match request.transactionId with
      | none => []
      | some transactionId => [("transactionId", .string transactionId)])

end Request

/-- `message?.[name]` when it is a string. -/
def textMember (name : String) : Json → Option String
  | .object fields => (Json.field name fields).bind Json.asString
  | _ => none

def parseTransactionId (value : Json) : Except String TransactionId :=
  match textMember "transactionId" value with
  | none => .error "Replication request is missing a transaction id"
  | some transactionId =>
      if transactionId.length = 0 then .error "Replication request is missing a transaction id"
      else .ok transactionId

/-- `accepts` are the texts that `CID.parse` reads. -/
def parseRequest (accepts : String → Bool) (value : Json) : Except String Request :=
  match textMember "cid" value with
  | none => .error "Replication request is missing a CID"
  | some cid =>
      if cid = "" then .error "Replication request is missing a CID"
      else if !accepts cid then .error "Replication request has an invalid CID"
      else match operations.find? fun known => textMember "op" value = some known.text with
        | none => .error "Unknown replication operation"
        | some .store => .ok (.store cid)
        | some .have_ => .ok (.have_ cid)
        | some .accept => .ok (.accept cid)
        | some .cache => .ok (.cache cid)
        | some .stage => (parseTransactionId value).map (.stage cid)
        | some .commit => (parseTransactionId value).map (.commit cid)
        | some .abort => (parseTransactionId value).map (.abort cid)

/-- `parseRequest(await readMessage(stream))`. -/
def receiveRequest (json : JsonText) (accepts : String → Bool) (chunks : List Bytes) :
    Except String Request :=
  (readMessage json chunks).bind (parseRequest accepts)

/-! ### What a request is read as -/

section Requests

variable {accepts : String → Bool} {request : Request}

theorem textMember_cid (request : Request) :
    textMember "cid" request.toJson = some request.cid := rfl

theorem textMember_transactionId (request : Request) :
    textMember "transactionId" request.toJson = request.transactionId := by
  cases request <;> rfl

/-- The texts of the operations are different. -/
theorem find_operations (request : Request) :
    operations.find? (fun known => textMember "op" request.toJson = some known.text) =
      some request.op := by
  have hop : textMember "op" request.toJson = some request.op.text := rfl
  rw [hop]
  cases request.op <;> decide

/-- A request that lacks its transaction is refused, and every other one is read
as it was sent. -/
theorem parseRequest_toJson (haccepts : accepts request.cid = true) (hcid : request.cid ≠ "") :
    parseRequest accepts request.toJson =
      if request.transactionId = some "" then
        .error "Replication request is missing a transaction id"
      else .ok request := by
  have hid : ∀ id, request.transactionId = some id → parseTransactionId request.toJson =
      if id = "" then .error "Replication request is missing a transaction id" else .ok id := by
    intro id hid
    unfold parseTransactionId
    rw [textMember_transactionId, hid]
    simp
  unfold parseRequest
  simp only [textMember_cid, find_operations, hcid, haccepts, Bool.not_true,
    Bool.false_eq_true, if_false]
  cases request with
  | stage cid id | commit cid id | abort cid id =>
      simp only [Request.op, hid id rfl, Request.transactionId, Option.some.injEq]
      split <;> rfl
  | _ => rfl

end Requests

end ReplicationProtocol

/-! ## The claim of every chunking -/

open ReplicationProtocol in
/-- A request whose JSON text fits arrives as it was sent, whatever the chunks,
unless it names an empty transaction; and both protocols frame their messages by
the same laws. -/
theorem wire_framing (json : JsonText) {accepts : String → Bool} (hnone : accepts "" = false) :
    (∀ request : ReplicationProtocol.Request, json.Inverts request.toJson →
      accepts request.cid = true →
      (json.stringify request.toJson).length ≤ MAX_MESSAGE_BYTES →
      ∀ chunks : List Bytes, chunks.flatten = encodeMessage json request.toJson →
        receiveRequest json accepts chunks =
          if request.transactionId = some "" then
            .error "Replication request is missing a transaction id"
          else .ok request) ∧
    ReplicationProtocol.frames.Laws json ∧ HealthProtocol.frames.Laws json := by
  have hlaws : ReplicationProtocol.frames.Laws json := FrameProtocol.laws json (by decide)
  refine ⟨fun request hinverts haccepts hbody chunks hsplit => ?_, hlaws,
    FrameProtocol.laws json (by decide)⟩
  have hcid : request.cid ≠ "" := by
    intro hcid
    rw [hcid, hnone] at haccepts
    cases haccepts
  have hread : readMessage json chunks = .ok request.toJson :=
    hlaws.whole request.toJson hinverts hbody chunks hsplit
  unfold receiveRequest
  rw [hread]
  exact parseRequest_toJson haccepts hcid

/-! ## Two requests on the wire -/

namespace WireExample

open ReplicationProtocol

def cid : String := "bafkreigh2akiscaildcqabsyg3dfr6chu3fgpregiymsck7e7aqa4s52zy"

def isCid (text : String) : Bool := text = cid

def ascii (text : String) : Bytes := text.toList.map fun c => UInt8.ofNat c.toNat

/-- What is written and read when nothing else is sent. -/
def onlyText (value : Json) (text : Bytes) : JsonText where
  stringify _ := text
  parse bytes := if bytes = text then .ok value else .error "Unexpected token"

theorem inverts_onlyText (value : Json) (text : Bytes) : (onlyText value text).Inverts value :=
  if_pos (Eq.refl text)

def committing : ReplicationProtocol.Request := .commit cid "1b4e28ba"

def committingJson : JsonText := onlyText committing.toJson (ascii
  ("\x7b\"op\":\"commit\",\"cid\":\"bafkreigh2akiscaildcqabsyg3dfr6chu3fgpregiymsck7e7aqa4s52zy\","
    ++ "\"transactionId\":\"1b4e28ba\"\x7d"))

/-- A stage that names no transaction. -/
def unnamed : ReplicationProtocol.Request := .stage cid ""

def unnamedJson : JsonText := onlyText unnamed.toJson (ascii
  ("\x7b\"op\":\"stage\",\"cid\":\"bafkreigh2akiscaildcqabsyg3dfr6chu3fgpregiymsck7e7aqa4s52zy\","
    ++ "\"transactionId\":\"\"\x7d"))

end WireExample

open WireExample ReplicationProtocol in
/-- A request arrives in three chunks, one of them empty. -/
theorem wire_framing_commit :
    receiveRequest committingJson isCid
      [(encodeMessage committingJson committing.toJson).take 2, [],
        (encodeMessage committingJson committing.toJson).drop 2] = .ok committing := by
  have hnone : isCid "" = false := by decide
  have haccepts : isCid committing.cid = true := by decide
  have hbody : (committingJson.stringify committing.toJson).length ≤ MAX_MESSAGE_BYTES := by
    decide +kernel
  exact (wire_framing committingJson hnone).1 committing (inverts_onlyText _ _) haccepts hbody _
    (by simp)

open WireExample ReplicationProtocol in
/-- A request with an empty transaction does not come back as it was sent. -/
theorem unnamed_stage_refused :
    ¬ ∀ (json : JsonText) (accepts : String → Bool) (request : ReplicationProtocol.Request)
      (chunks : List Bytes), json.Inverts request.toJson → accepts request.cid = true →
      (json.stringify request.toJson).length ≤ MAX_MESSAGE_BYTES →
      chunks.flatten = encodeMessage json request.toJson →
      receiveRequest json accepts chunks = .ok request := by
  intro h
  have haccepts : isCid unnamed.cid = true := by decide
  have hbody : (unnamedJson.stringify unnamed.toJson).length ≤ MAX_MESSAGE_BYTES := by
    decide +kernel
  have hinverts : unnamedJson.Inverts unnamed.toJson := inverts_onlyText _ _
  have hsent := h unnamedJson isCid unnamed [encodeMessage unnamedJson unnamed.toJson] hinverts
    haccepts hbody (by simp)
  have hread : readMessage unnamedJson [encodeMessage unnamedJson unnamed.toJson] =
      .ok unnamed.toJson :=
    (FrameProtocol.laws unnamedJson (by decide)).whole _ hinverts hbody _ (List.append_nil _)
  unfold receiveRequest at hsent
  rw [hread] at hsent
  have hrefused : parseRequest isCid unnamed.toJson =
      .error "Replication request is missing a transaction id" :=
    parseRequest_toJson haccepts (by decide)
  cases hrefused.symm.trans hsent

end IpfsNode
