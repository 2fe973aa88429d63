import IpfsNode.WireProtocol
import IpfsNode.Replication
import IpfsNode.Prog

/-!
# Requests and their answers

Both ends of a replication stream. `respond` is what a node does with the
request of a peer, over the handlers that a node installs; `call` is what the
peer makes of the answer. The handlers are effects that answer anything, and a
run keeps the list of them with their answers, so what is said of one stream
holds whatever other streams do meanwhile.

- `stream_lawful` says what each effect of a stream comes after: nothing but a
  cached copy is asked for before the peer was found authorized, and a message
  only says what a handler answered.
- `exchange_sound` says what a peer may conclude from the outcome of a call,
  when the streams cut the messages anywhere and may end early.
-/

namespace IpfsNode

namespace ReplicationProtocol

open Framing (Bytes)

/-! ## Answers -/

def errorCodes : List ReplicationErrorCode :=
  [.notAuthorized, .busy, .notStaged, .alreadyAborted, .noRoom, .invalid, .failed]

def codeText : ReplicationErrorCode → String
  | .notAuthorized => "not_authorized"
  | .busy => "busy"
  | .notStaged => "not_staged"
  | .alreadyAborted => "already_aborted"
  | .noRoom => "no_room"
  | .invalid => "invalid"
  | .failed => "failed"

inductive Response where
  | store (storedBytes : Nat)
  | stage (storedBytes : Nat) (staged : Bool)
  | commit
  | abort
  | have_ (has : Bool)
  | accept (willAccept : Bool)
  | cache (cachedBytes : Nat)
  | refused (error : String) (code : ReplicationErrorCode)
deriving DecidableEq, Repr

/-- The message an answer is sent as. -/
def Response.toJson : Response → Json
  | store storedBytes =>
      .object [("ok", .bool true), ("op", .string "store"), ("storedBytes", .nat storedBytes)]
  | stage storedBytes staged =>
      .object [("ok", .bool true), ("op", .string "stage"), ("storedBytes", .nat storedBytes),
        ("staged", .bool staged)]
  | commit => .object [("ok", .bool true), ("op", .string "commit")]
  | abort => .object [("ok", .bool true), ("op", .string "abort")]
  | have_ has => .object [("ok", .bool true), ("op", .string "have"), ("has", .bool has)]
  | accept willAccept =>
      .object [("ok", .bool true), ("op", .string "accept"), ("willAccept", .bool willAccept)]
  | cache cachedBytes =>
      .object [("ok", .bool true), ("op", .string "cache"), ("cachedBytes", .nat cachedBytes)]
  | refused error code =>
      .object [("ok", .bool false), ("error", .string error), ("code", .string (codeText code))]

/-- What a handler throws. -/
inductive HandlerError where
  /-- A `FileLifecycleBusyError`. -/
  | busy (message : String)
  | protocol (message : String) (code : ReplicationErrorCode)
  | error (message : String)
  /-- A value that is not an `Error`. -/
  | value
deriving DecidableEq, Repr

def HandlerError.message : HandlerError → String
  | busy message | protocol message _ | error message => message
  | value => "undefined"

/-- What a node tells of an error by its text. -/
def failureOfText (message : String) : Response :=
  if includes message "Not authorized" || includes message "staged by another peer" then
    .refused "Not authorized" .notAuthorized
  else if includes message "was already aborted" then .refused message .alreadyAborted
  else if includes message "unrelated temporary" || includes message "unsettled local"
      || includes message "active lifecycle" then
    .refused message .busy
  else if includes message "is not staged" then .refused message .notStaged
  else if includes message "no room" || includes message "No room" then .refused message .noRoom
  else .refused "Replication request failed" .failed

def failureResponse : HandlerError → Response
  | .busy _ => .refused "File lifecycle is busy" .busy
  | .protocol message code => .refused message code
  | .error message => failureOfText message
  | .value => failureOfText "Replication request failed"

theorem failureOfText_refused (message : String) :
    ∃ error code, failureOfText message = .refused error code := by
  unfold failureOfText
  split_ifs
  all_goals exact ⟨_, _, rfl⟩

theorem failureResponse_refused (err : HandlerError) :
    ∃ error code, failureResponse err = .refused error code := by
  cases err with
  | busy message => exact ⟨_, _, rfl⟩
  | protocol message code => exact ⟨_, _, rfl⟩
  | error message => exact failureOfText_refused message
  | value => exact failureOfText_refused _

/-! ## The node that is asked -/

/-- What `respond` asks of the handlers and of the stream. -/
inductive ServerOp where
  | isAuthorized (peerId : PeerId)
  | onRefused (peerId : PeerId) (op : Operation)
  | willAccept
  | cacheCopy (cid : String) (peerId : PeerId)
  | have_ (cid : String)
  | stage (cid : String) (transactionId : TransactionId) (peerId : PeerId)
  | commit (cid : String) (transactionId : TransactionId) (peerId : PeerId)
  | abort (cid : String) (transactionId : TransactionId) (peerId : PeerId)
  | store (cid : String)
  | sendMessage (response : Response)
  | close
  | onError (message : String) (peerId : PeerId)
  | abortStream (message : String)

def ServerOp.Ret : ServerOp → Type
  | isAuthorized _ | willAccept | have_ _ => Bool
  | cacheCopy .. | store _ => Nat
  | stage .. => Nat × Bool
  | _ => Unit

abbrev Server (α : Type) := Prog ServerOp ServerOp.Ret HandlerError α

/-- What is done with a stream after its request. -/
def ServerOp.IsClosing : ServerOp → Prop
  | close | onError .. | abortStream _ => True
  | _ => False

def ServerOp.ask (o : ServerOp) : Server o.Ret := Prog.perform o

/-- Holding an extra copy is open to anyone. -/
def answerCache (cid : String) (peerId : PeerId) : Server Response := do
  if !(← ServerOp.ask .willAccept) then
    pure (.refused "No room for another copy" .noRoom)
  else
    let cachedBytes ← ServerOp.ask (.cacheCopy cid peerId)
    pure (.cache cachedBytes)

/-- What the handlers of an authorized peer's request come to. -/
def answerAuthorized (request : Request) (peerId : PeerId) : Server Response :=
  match request with
  | .cache cid => answerCache cid peerId
  | .have_ cid => do
      let has ← ServerOp.ask (.have_ cid)
      pure (.have_ has)
  | .accept _ => do
      let accepts ← ServerOp.ask .willAccept
      pure (.accept accepts)
  | .stage cid transactionId => do
      let staged ← ServerOp.ask (.stage cid transactionId peerId)
      pure (.stage staged.1 staged.2)
  | .commit cid transactionId => do
      let _ ← ServerOp.ask (.commit cid transactionId peerId)
      pure .commit
  | .abort cid transactionId => do
      let _ ← ServerOp.ask (.abort cid transactionId peerId)
      pure .abort
  | .store cid => do
      let storedBytes ← ServerOp.ask (.store cid)
      pure (.store storedBytes)

/-- The message that each branch of `respond` ends with. -/
def answer (request : Request) (peerId : PeerId) : Server Response := do
  if request.op = .cache then
    answerCache request.cid peerId
  else if !(← ServerOp.ask (.isAuthorized peerId)) then
    let _ ← ServerOp.ask (.onRefused peerId request.op)
    pure (.refused "Not authorized" .notAuthorized)
  else
    answerAuthorized request peerId

/-- `respond` after the request was read. -/
def respond (request : Request) (peerId : PeerId) : Server Unit :=
  tryCatch (do
    let response ← answer request peerId
    ServerOp.ask (.sendMessage response))
    fun err => ServerOp.ask (.sendMessage (failureResponse err))

/-- A stream that could not be answered. -/
def failStream (peerId : PeerId) (err : HandlerError) : Server Unit := do
  let _ ← ServerOp.ask (.onError ("Replication request failed: " ++ err.message) peerId)
  ServerOp.ask (.abortStream err.message)

/-- What `registerReplicationProtocol` does with a stream. -/
def serveStream (json : JsonText) (accepts : String → Bool) (chunks : List Bytes)
    (peerId : PeerId) : Server Unit :=
  tryCatch (do
    let request ← Prog.ofExcept ((receiveRequest json accepts chunks).mapError HandlerError.error)
    respond request peerId
    ServerOp.ask .close)
    (failStream peerId)

/-! ## What a stream may ask for -/

/-- An effect with its answer. -/
abbrev ServerCall := (o : ServerOp) × Except HandlerError o.Ret

/-- Handlers that answer anything, and a list of what they answered. -/
def logged : Prog.Sem ServerOp ServerOp.Ret HandlerError (List ServerCall) :=
  fun o past r past' => past' = past ++ [⟨o, r⟩]

/-- The message that went out with a call, if any. -/
def ServerCall.sent : ServerCall → Option Response
  | ⟨.sendMessage response, .ok _⟩ => some response
  | _ => none

def sentMessages (log : List ServerCall) : List Response := log.filterMap ServerCall.sent

/-- The peer was found authorized, and nothing else happened. -/
def Authorized (peerId : PeerId) (past : List ServerCall) : Prop :=
  past = [⟨.isAuthorized peerId, .ok true⟩]

/-- What the message says is what the handlers answered. -/
def Response.Reports (request : Request) (peerId : PeerId) (past : List ServerCall) :
    Response → Prop
  | .store storedBytes => ∃ cid, request = .store cid ∧
      past = [⟨.isAuthorized peerId, .ok true⟩, ⟨.store cid, .ok storedBytes⟩]
  | .stage storedBytes staged => ∃ cid transactionId, request = .stage cid transactionId ∧
      past = [⟨.isAuthorized peerId, .ok true⟩,
        ⟨.stage cid transactionId peerId, .ok (storedBytes, staged)⟩]
  | .commit => ∃ cid transactionId, request = .commit cid transactionId ∧
      past = [⟨.isAuthorized peerId, .ok true⟩, ⟨.commit cid transactionId peerId, .ok ()⟩]
  | .abort => ∃ cid transactionId, request = .abort cid transactionId ∧
      past = [⟨.isAuthorized peerId, .ok true⟩, ⟨.abort cid transactionId peerId, .ok ()⟩]
  | .have_ has => ∃ cid, request = .have_ cid ∧
      past = [⟨.isAuthorized peerId, .ok true⟩, ⟨.have_ cid, .ok has⟩]
  | .accept willAccept => ∃ cid, request = .accept cid ∧
      past = [⟨.isAuthorized peerId, .ok true⟩, ⟨.willAccept, .ok willAccept⟩]
  | .cache cachedBytes => ∃ cid, request = .cache cid ∧
      past = [⟨.willAccept, .ok true⟩, ⟨.cacheCopy cid peerId, .ok cachedBytes⟩]
  | .refused error code =>
      (error = "No room for another copy" ∧ code = .noRoom ∧ request.op = .cache ∧
        past = [⟨.willAccept, .ok false⟩]) ∨
      (error = "Not authorized" ∧ code = .notAuthorized ∧ request.op ≠ .cache ∧
        past = [⟨.isAuthorized peerId, .ok false⟩, ⟨.onRefused peerId request.op, .ok ()⟩]) ∨
      ∃ before o err, past = before ++ [⟨o, .error err⟩] ∧ ¬ o.IsClosing ∧
        failureResponse err = .refused error code

/-- What every effect of a stream comes after, for the request that was received. -/
def ServerOp.Permitted (received : Except String Request) (peerId : PeerId)
    (past : List ServerCall) : ServerOp → Prop
  | isAuthorized p => p = peerId ∧ past = [] ∧ ∃ request, received = .ok request ∧
      request.op ≠ .cache
  | onRefused p op => p = peerId ∧ past = [⟨.isAuthorized peerId, .ok false⟩] ∧
      ∃ request, received = .ok request ∧ op = request.op
  | willAccept => (∃ cid, received = .ok (.cache cid) ∧ past = []) ∨
      ∃ cid, received = .ok (.accept cid) ∧ Authorized peerId past
  | cacheCopy cid p => p = peerId ∧ received = .ok (.cache cid) ∧
      past = [⟨.willAccept, .ok true⟩]
  | have_ cid => received = .ok (.have_ cid) ∧ Authorized peerId past
  | stage cid transactionId p => p = peerId ∧ received = .ok (.stage cid transactionId) ∧
      Authorized peerId past
  | commit cid transactionId p => p = peerId ∧ received = .ok (.commit cid transactionId) ∧
      Authorized peerId past
  | abort cid transactionId p => p = peerId ∧ received = .ok (.abort cid transactionId) ∧
      Authorized peerId past
  | store cid => received = .ok (.store cid) ∧ Authorized peerId past
  | sendMessage response => sentMessages past = [] ∧
      ∃ request, received = .ok request ∧ response.Reports request peerId past
  | close => ∃ response, sentMessages past = [response]
  | onError _ p => p = peerId ∧
      ((∃ text, received = .error text) ∨ ∃ before o err, past = before ++ [⟨o, .error err⟩])
  | abortStream _ => ∃ before message, past = before ++ [⟨.onError message peerId, .ok ()⟩]

/-- Every effect came after what it has to. -/
def Lawful (received : Except String Request) (peerId : PeerId) (log : List ServerCall) : Prop :=
  ∀ past o answer rest, log = past ++ ⟨o, answer⟩ :: rest → o.Permitted received peerId past

section Streams

variable {received : Except String Request} {request : Request} {peerId : PeerId}
variable {log : List ServerCall}

theorem lawful_nil : Lawful received peerId [] := by
  intro past o answer rest h
  simp at h

theorem Lawful.snoc {o : ServerOp} (h : Lawful received peerId log)
    (ho : o.Permitted received peerId log) (answer : Except HandlerError o.Ret) :
    Lawful received peerId (log ++ [⟨o, answer⟩]) := by
  intro past o' answer' rest heq
  rcases Prog.Pool.split_snoc heq.symm with ⟨front, hfront⟩ | ⟨rfl, hlast⟩
  · exact h past o' answer' front hfront
  · cases hlast
    exact ho

/-- The rule of one effect. -/
theorem wp_ask {o : ServerOp} {Q : Except HandlerError o.Ret → List ServerCall → Prop}
    (h : Lawful received peerId log) (ho : o.Permitted received peerId log)
    (hQ : ∀ answer, Lawful received peerId (log ++ [⟨o, answer⟩]) →
      Q answer (log ++ [⟨o, answer⟩])) : Prog.wp logged o.ask Q log := by
  refine Prog.wp_perform.mpr ?_
  rintro answer _ rfl
  exact hQ answer (h.snoc ho answer)

/-- What is known when `answer` ends. -/
def Answered (request : Request) (peerId : PeerId) (r : Except HandlerError Response)
    (log : List ServerCall) : Prop :=
  Lawful (.ok request) peerId log ∧ sentMessages log = [] ∧
    match r with
    | .ok response => response.Reports request peerId log
    | .error err => ∃ before o, log = before ++ [⟨o, .error err⟩] ∧ ¬ o.IsClosing

/-- A handler that is asked last. -/
theorem answered_of_handler {o : ServerOp} {past : List ServerCall} {respond : o.Ret → Response}
    (h : Lawful (.ok request) peerId past) (ho : o.Permitted (.ok request) peerId past)
    (hclosing : ¬ o.IsClosing)
    (hsent : ∀ answer, sentMessages (past ++ [⟨o, answer⟩]) = [])
    (hreports : ∀ a, (respond a).Reports request peerId (past ++ [⟨o, .ok a⟩])) :
    Prog.wp logged (o.ask >>= fun a => pure (respond a)) (Answered request peerId) past := by
  refine Prog.wp_bind.mpr (wp_ask h ho fun answer hlaw => ?_)
  cases answer with
  | ok a => exact ⟨hlaw, hsent _, hreports a⟩
  | error err => exact ⟨hlaw, hsent _, past, o, rfl, hclosing⟩

theorem wp_answerCache {cid : String} :
    Prog.wp logged (answerCache cid peerId) (Answered (.cache cid) peerId) [] := by
  have hstart : Lawful (.ok (.cache cid)) peerId [] := lawful_nil
  unfold answerCache
  refine Prog.wp_bind.mpr (wp_ask hstart (.inl ⟨cid, rfl, rfl⟩) fun answer hlaw => ?_)
  cases answer with
  | error err => exact ⟨hlaw, rfl, [], .willAccept, rfl, id⟩
  | ok room =>
      cases room with
      | false => exact ⟨hlaw, rfl, .inl ⟨rfl, rfl, rfl, rfl⟩⟩
      | true =>
          exact answered_of_handler hlaw ⟨rfl, rfl, rfl⟩ id (fun _ => rfl) fun n => ⟨cid, rfl, rfl⟩

/-- One handler for each request of an authorized peer. -/
theorem wp_answerAuthorized (hop : request.op ≠ .cache)
    (h : Lawful (.ok request) peerId [⟨.isAuthorized peerId, .ok true⟩]) :
    Prog.wp logged (answerAuthorized request peerId) (Answered request peerId)
      [⟨.isAuthorized peerId, .ok true⟩] := by
  cases request with
  | cache cid => exact absurd rfl hop
  | have_ cid =>
      exact answered_of_handler h ⟨rfl, rfl⟩ id (fun _ => rfl) fun has => ⟨cid, rfl, rfl⟩
  | accept cid =>
      exact answered_of_handler h (.inr ⟨cid, rfl, rfl⟩) id (fun _ => rfl)
        fun room => ⟨cid, rfl, rfl⟩
  | stage cid transactionId =>
      exact answered_of_handler h ⟨rfl, rfl, rfl⟩ id (fun _ => rfl)
        fun staged => ⟨cid, transactionId, rfl, rfl⟩
  | commit cid transactionId =>
      exact answered_of_handler h ⟨rfl, rfl, rfl⟩ id (fun _ => rfl)
        fun _ => ⟨cid, transactionId, rfl, rfl⟩
  | abort cid transactionId =>
      exact answered_of_handler h ⟨rfl, rfl, rfl⟩ id (fun _ => rfl)
        fun _ => ⟨cid, transactionId, rfl, rfl⟩
  | store cid =>
      exact answered_of_handler h ⟨rfl, rfl⟩ id (fun _ => rfl) fun n => ⟨cid, rfl, rfl⟩

theorem wp_answer : Prog.wp logged (answer request peerId) (Answered request peerId) [] := by
  unfold answer
  by_cases hop : request.op = .cache
  · rw [if_pos hop]
    obtain ⟨cid, rfl⟩ : ∃ cid, request = .cache cid := by
      cases request with
      | cache cid => exact ⟨cid, rfl⟩
      | _ => cases hop
    exact wp_answerCache
  · rw [if_neg hop]
    refine Prog.wp_bind.mpr
      (wp_ask lawful_nil ⟨rfl, rfl, request, rfl, hop⟩ fun answer hlaw => ?_)
    cases answer with
    | error err => exact ⟨hlaw, rfl, [], _, rfl, id⟩
    | ok authorized =>
        cases authorized with
        | true => exact wp_answerAuthorized hop hlaw
        | false =>
            exact answered_of_handler hlaw ⟨rfl, rfl, request, rfl, rfl⟩ id (fun _ => rfl)
              fun _ => .inr (.inl ⟨rfl, rfl, hop, rfl⟩)

/-- What is known when `respond` ends. -/
def Responded (request : Request) (peerId : PeerId) (r : Except HandlerError Unit)
    (log : List ServerCall) : Prop :=
  Lawful (.ok request) peerId log ∧
    match r with
    | .ok _ => ∃ response, sentMessages log = [response]
    | .error err => sentMessages log = [] ∧
        ∃ before o, log = before ++ [⟨o, .error err⟩] ∧ ¬ o.IsClosing

theorem sentMessages_snoc (log : List ServerCall) (c : ServerCall) :
    sentMessages (log ++ [c]) = sentMessages log ++ sentMessages [c] :=
  List.filterMap_append

theorem wp_sendMessage {response : Response} (h : Lawful (.ok request) peerId log)
    (hsent : sentMessages log = []) (hreports : response.Reports request peerId log) :
    Prog.wp logged (ServerOp.ask (.sendMessage response)) (Responded request peerId) log := by
  refine wp_ask h ⟨hsent, request, rfl, hreports⟩ fun answer hlaw => ⟨hlaw, ?_⟩
  cases answer with
  | ok _ => exact ⟨response, by rw [sentMessages_snoc, hsent]; rfl⟩
  | error err => exact ⟨by rw [sentMessages_snoc, hsent]; rfl, log, _, rfl, id⟩

theorem wp_respond : Prog.wp logged (respond request peerId) (Responded request peerId) [] := by
  refine Prog.wp_tryCatch.mpr (Prog.wp_bind.mpr (Prog.wp_mono ?_ wp_answer))
  have hfailed : ∀ err (log : List ServerCall), Lawful (.ok request) peerId log →
      sentMessages log = [] → (∃ before o, log = before ++ [⟨o, .error err⟩] ∧ ¬ o.IsClosing) →
      Prog.wp logged (ServerOp.ask (.sendMessage (failureResponse err)))
        (Responded request peerId) log := by
    rintro err log hlaw hsent ⟨before, o, hlast, hclosing⟩
    obtain ⟨error, code, hfailure⟩ := failureResponse_refused err
    rw [hfailure]
    exact wp_sendMessage hlaw hsent (.inr (.inr ⟨before, o, err, hlast, hclosing, hfailure⟩))
  rintro (err | response) log ⟨hlaw, hsent, hr⟩
  · exact hfailed err log hlaw hsent hr
  · refine Prog.wp_mono ?_ (wp_sendMessage hlaw hsent hr)
    rintro (err | _) log' ⟨hlaw', hr'⟩
    · exact hfailed err log' hlaw' hr'.1 hr'.2
    · exact ⟨hlaw', hr'⟩

/-- How a stream ends: answered and closed, or aborted after the node was told
why, unless telling it failed. -/
def Settled (peerId : PeerId) (log : List ServerCall) : Prop :=
  (∃ response, sentMessages log = [response] ∧ ⟨.close, .ok ()⟩ ∈ log) ∨
    (∃ message answer, ⟨.abortStream message, answer⟩ ∈ log) ∨
    ∃ message err, ⟨.onError message peerId, .error err⟩ ∈ log

/-- What is known when a stream ends. -/
def Streamed (received : Except String Request) (peerId : PeerId) (log : List ServerCall) : Prop :=
  Lawful received peerId log ∧ (sentMessages log).length ≤ 1 ∧ Settled peerId log

theorem wp_failStream {err : HandlerError} (h : Lawful received peerId log)
    (hsent : (sentMessages log).length ≤ 1)
    (hwhy : (∃ text, received = .error text) ∨ ∃ before o err, log = before ++ [⟨o, .error err⟩]) :
    Prog.wp logged (failStream peerId err) (fun _ => Streamed received peerId) log := by
  refine Prog.wp_bind.mpr (wp_ask h ⟨rfl, hwhy⟩ fun told hlaw => ?_)
  have hsent' : (sentMessages (log ++ [⟨_, told⟩])).length ≤ 1 := by
    rw [sentMessages_snoc]
    exact (List.length_append ..).trans_le hsent
  cases told with
  | error err' =>
      exact ⟨hlaw, hsent', .inr (.inr ⟨_, err', List.mem_append_right _ (.head _)⟩)⟩
  | ok _ =>
      refine wp_ask hlaw ⟨log, _, rfl⟩ fun aborted hlaw => ⟨hlaw, ?_, ?_⟩
      · rw [sentMessages_snoc]
        exact (List.length_append ..).trans_le hsent'
      · exact .inr (.inl ⟨_, aborted, List.mem_append_right _ (.head _)⟩)

variable {json : JsonText} {accepts : String → Bool} {chunks : List Bytes}

theorem wp_serveStream : Prog.wp logged (serveStream json accepts chunks peerId)
    (fun _ => Streamed (receiveRequest json accepts chunks) peerId) [] := by
  generalize hreceived : receiveRequest json accepts chunks = received
  refine Prog.wp_tryCatch.mpr (Prog.wp_bind.mpr (Prog.wp_ofExcept.mpr ?_))
  rw [hreceived]
  cases received with
  | error text => exact wp_failStream lawful_nil (Nat.zero_le _) (.inl ⟨text, rfl⟩)
  | ok request =>
      refine Prog.wp_bind.mpr (Prog.wp_mono ?_ wp_respond)
      rintro (err | _) log ⟨hlaw, hr⟩
      · obtain ⟨hsent, before, o, hlast, -⟩ := hr
        exact wp_failStream hlaw (by rw [hsent]; exact Nat.zero_le _) (.inr ⟨before, o, err, hlast⟩)
      · obtain ⟨response, hsent⟩ := hr
        refine wp_ask hlaw ⟨response, hsent⟩ fun closed hlaw => ?_
        have hsent' : sentMessages (log ++ [⟨.close, closed⟩]) = [response] := by
          rw [sentMessages_snoc, hsent]
          rfl
        have hone : (sentMessages (log ++ [⟨.close, closed⟩])).length ≤ 1 := by
          rw [hsent']
          exact le_rfl
        cases closed with
        | ok _ =>
            exact ⟨hlaw, hone, .inl ⟨response, hsent', List.mem_append_right _ (.head _)⟩⟩
        | error err => exact wp_failStream hlaw hone (.inr ⟨log, _, err, rfl⟩)

theorem streamed {r : Except HandlerError Unit}
    (hrun : Prog.Runs logged (serveStream json accepts chunks peerId) [] r log) :
    Streamed (receiveRequest json accepts chunks) peerId log :=
  Prog.wp_iff_runs.mp wp_serveStream r log hrun

end Streams

/-! ## Peers that are not configured -/

/-- The handler `isAuthorized`, over the configured peers. -/
def authorizes (peers : List ReplicationPeer) (peerId : PeerId) : Bool :=
  peers.any fun peer => peer.peerId = peerId

/-- Handlers that make a node responsible for content or tell what it keeps. -/
def ServerOp.IsTrusted : ServerOp → Prop
  | have_ _ | stage .. | commit .. | abort .. | store _ => True
  | _ => False

/-- The precondition of a trusted handler. -/
theorem ServerOp.IsTrusted.authorized {o : ServerOp} (h : o.IsTrusted)
    {received : Except String Request} {peerId : PeerId} {past : List ServerCall}
    (hpermitted : o.Permitted received peerId past) : Authorized peerId past := by
  cases o with
  | have_ cid | store cid => exact hpermitted.2
  | stage cid transactionId p | commit cid transactionId p | abort cid transactionId p =>
      exact hpermitted.2.2
  | _ => exact h.elim

/-- Whatever a peer sends, and however the handlers fail: every effect comes after
what it has to, no more than one message goes out, the stream is settled, and a
peer that is not configured gets at no handler but the one for cached copies. -/
theorem stream_access_control {json : JsonText} {accepts : String → Bool} {chunks : List Bytes}
    {peerId : PeerId} {r : Except HandlerError Unit} {log : List ServerCall}
    (hrun : Prog.Runs logged (serveStream json accepts chunks peerId) [] r log) :
    (∀ past o answer rest, log = past ++ ⟨o, answer⟩ :: rest →
      o.Permitted (receiveRequest json accepts chunks) peerId past) ∧
    (sentMessages log).length ≤ 1 ∧ Settled peerId log ∧
    ∀ peers, (∀ p answer, ⟨.isAuthorized p, .ok answer⟩ ∈ log → answer = authorizes peers p) →
      authorizes peers peerId = false → ∀ call ∈ log, ¬ call.1.IsTrusted := by
  obtain ⟨hlaw, hsent, hsettled⟩ := streamed hrun
  refine ⟨hlaw, hsent, hsettled, ?_⟩
  intro peers hpeers hunknown call hmem htrusted
  obtain ⟨past, rest, hsplit⟩ := List.append_of_mem hmem
  have hpast : past = [⟨.isAuthorized peerId, .ok true⟩] :=
    htrusted.authorized (hlaw past call.1 call.2 rest hsplit)
  have hasked : ⟨.isAuthorized peerId, .ok true⟩ ∈ log := by
    rw [hsplit, hpast]
    exact .head _
  have htrue := hpeers peerId true hasked
  rw [hunknown] at htrue
  cases htrue

namespace UnknownPeer

open WireExample

/-- Handlers that never fail, over the configured peers. -/
def answers (peers : List ReplicationPeer) : (o : ServerOp) → o.Ret
  | .isAuthorized peerId => authorizes peers peerId
  | .willAccept | .have_ _ => true
  | .cacheCopy .. | .store _ => (1 : Nat)
  | .stage .. => ((1 : Nat), true)
  | .onRefused .. | .commit .. | .abort .. | .sendMessage _ | .close | .onError ..
  | .abortStream _ => ()

def execute (peers : List ReplicationPeer) (o : ServerOp) (log : List ServerCall) :
    Except HandlerError o.Ret × List ServerCall :=
  (.ok (answers peers o), log ++ [⟨o, .ok (answers peers o)⟩])

def chunks : List Bytes := [encodeMessage committingJson committing.toJson]

theorem received_committing : receiveRequest committingJson isCid chunks = .ok committing := by
  have hbody : (committingJson.stringify committing.toJson).length ≤ MAX_MESSAGE_BYTES := by
    decide +kernel
  have hread : readMessage committingJson chunks = .ok committing.toJson :=
    (FrameProtocol.laws committingJson (by decide)).whole _ (inverts_onlyText _ _) hbody _
      (List.append_nil _)
  have haccepts : isCid committing.cid = true := by decide
  have hcid : committing.cid ≠ "" := by decide
  unfold receiveRequest
  rw [hread]
  exact parseRequest_toJson haccepts hcid

/-- What the node did with the request of a peer that it does not know. -/
def log : List ServerCall :=
  (Prog.run (execute []) (serveStream committingJson isCid chunks "peer") []).2

theorem log_eq : log = [⟨.isAuthorized "peer", .ok false⟩, ⟨.onRefused "peer" .commit, .ok ()⟩,
    ⟨.sendMessage (.refused "Not authorized" .notAuthorized), .ok ()⟩, ⟨.close, .ok ()⟩] := by
  unfold log serveStream
  rw [received_committing]
  rfl

end UnknownPeer

open UnknownPeer in
theorem stream_access_control_unknown : ¬ ∃ call ∈ log, call.1.IsTrusted := by
  rintro ⟨call, hcall, htrusted⟩
  have hexec : ∀ o past, logged o past (execute [] o past).1 (execute [] o past).2 :=
    fun _ _ => rfl
  have hrun := Prog.runs_run hexec
    (serveStream WireExample.committingJson WireExample.isCid chunks "peer") []
  refine (stream_access_control hrun).2.2.2 [] ?_ rfl call hcall htrusted
  intro p answer hmem
  have hmem : ⟨.isAuthorized p, .ok answer⟩ ∈ log := hmem
  rw [log_eq] at hmem
  simp only [List.mem_cons, Sigma.mk.injEq, reduceCtorEq, false_and, or_false,
    List.not_mem_nil] at hmem
  obtain ⟨-, heq⟩ := hmem
  cases heq
  rfl

/-! ## The node that asks -/

/-- `message?.[name]`; `none` is `undefined`. -/
def member (name : String) : Json → Option Json
  | .object fields => Json.field name fields
  | _ => none

/-- `response?.ok === true`. -/
def isOk (response : Json) : Bool :=
  match member "ok" response with
  | some (.bool true) => true
  | _ => false

/-- `response?.error ?? 'Replication request was refused'`, as the text of an error;
`toText` is `String(value)` for what is no text. -/
def refusalText (toText : Json → String) (response : Json) : String :=
  match member "error" response with
  | none | some .null => "Replication request was refused"
  | some (.string message) => message
  | some value => toText value

/-- `response?.code ?? 'failed'`. A code that this node does not know tells it no
more than `failed` does. -/
def refusalCode (response : Json) : ReplicationErrorCode :=
  (errorCodes.find? fun known => textMember "code" response = some (codeText known)).getD .failed

/-- The chunks that arrived for a call, or why there was no stream. -/
abbrev Delivery := Except String (List Bytes)

section Client

variable (toText : Json → String) (json : JsonText) (transport : Request → Delivery)

def call (request : Request) : Except CallError Json :=
  match (transport request).bind (readMessage json) with
  | .error message => .error (.other message)
  | .ok response =>
      if isOk response then .ok response
      else .error (.protocol (refusalText toText response) (refusalCode response))

def requestStore (cid : String) : Except CallError (Option Json) := do
  let response ← call toText json transport (.store cid)
  pure (if textMember "op" response = some "store" then member "storedBytes" response
    else some (.nat 0))

/-- The stored bytes, and whether the copy is staged. -/
def requestStage (cid : String) (transactionId : TransactionId) :
    Except CallError (Option Json × Option Json) := do
  let response ← call toText json transport (.stage cid transactionId)
  pure (if textMember "op" response = some "stage" then
      (member "storedBytes" response, member "staged" response)
    else (some (.nat 0), some (.bool false)))

def requestCommit (cid : String) (transactionId : TransactionId) : Except CallError Unit := do
  let response ← call toText json transport (.commit cid transactionId)
  if textMember "op" response = some "commit" then pure ()
  else throw (.other "Unexpected replication commit response")

def requestAbort (cid : String) (transactionId : TransactionId) : Except CallError Unit := do
  let response ← call toText json transport (.abort cid transactionId)
  if textMember "op" response = some "abort" then pure ()
  else throw (.other "Unexpected replication abort response")

def probeAccept (cid : String) : Except CallError (Option Json) := do
  let response ← call toText json transport (.accept cid)
  pure (if textMember "op" response = some "accept" then member "willAccept" response
    else some (.bool false))

def requestCache (cid : String) : Except CallError (Option Json) := do
  let response ← call toText json transport (.cache cid)
  pure (if textMember "op" response = some "cache" then member "cachedBytes" response
    else some (.nat 0))

def probeHave (cid : String) : Except CallError (Option Json) := do
  let response ← call toText json transport (.have_ cid)
  pure (if textMember "op" response = some "have" then member "has" response
    else some (.bool false))

end Client

/-! ## One call, from both ends -/

/-- A message that is sent and read again as it was, and has a length. -/
def JsonText.Carries (json : JsonText) (message : Json) : Prop :=
  json.Inverts message ∧ (json.stringify message).length < 2 ^ 32

/-- What was sent on a stream. -/
def wire (json : JsonText) (log : List ServerCall) : Bytes :=
  ((sentMessages log).map fun response => encodeMessage json response.toJson).flatten

/-- A call of the peer `peerId`: the first bytes of the request arrived in some
chunks, the node did with them what it does, and the first bytes of what it sent
arrived in other chunks. -/
structure Exchange (json : JsonText) (accepts : String → Bool) (peerId : PeerId)
    (request : Request) where
  chunks : List Bytes
  result : Except HandlerError Unit
  log : List ServerCall
  received : List Bytes
  carried : JsonText.Carries json request.toJson
  sent : chunks.flatten <+: encodeMessage json request.toJson
  ran : Prog.Runs logged (serveStream json accepts chunks peerId) [] result log
  answered : ∀ response ∈ sentMessages log, JsonText.Carries json response.toJson
  arrived : received.flatten <+: wire json log

section Exchanges

variable {json : JsonText} {accepts : String → Bool} {peerId : PeerId} {request : Request}
variable {toText : Json → String} {transport : Request → Delivery}

/-- What is read from the first bytes of a message is the message. -/
theorem read_front {message value : Json} {chunks : List Bytes}
    (hcarried : JsonText.Carries json message)
    (hfront : chunks.flatten <+: encodeMessage json message)
    (h : readMessage json chunks = .ok value) : value = message := by
  unfold readMessage FrameProtocol.read at h
  cases hread : Framing.read frames.maxMessageBytes chunks with
  | tooLarge | incomplete =>
      rw [hread] at h
      cases h
  | message body =>
      rw [hread] at h
      obtain rfl := Framing.readFrom_front hcarried.2 hfront hread
      exact Except.ok.inj (h.symm.trans hcarried.1)

theorem read_nothing {value : Json} {chunks : List Bytes} (hnothing : chunks.flatten = [])
    (h : readMessage json chunks = .ok value) : False := by
  have hfront : [] ++ chunks.flatten <+: Framing.frame [] := by
    rw [hnothing]
    exact List.nil_prefix
  have hpart : [] ++ chunks.flatten ≠ Framing.frame [] := by
    rw [hnothing]
    exact fun h => by cases h
  have hread : Framing.read frames.maxMessageBytes chunks = .incomplete :=
    Framing.readFrom_part (Nat.zero_le _) (by decide) hfront hpart
  unfold readMessage FrameProtocol.read at h
  rw [hread] at h
  cases h

/-- A request that is read is the one that was sent. -/
theorem parseRequest_front {request' : Request}
    (h : parseRequest accepts request.toJson = .ok request') : request' = request := by
  by_cases hcid : request.cid = ""
  · unfold parseRequest at h
    simp [textMember_cid, hcid] at h
  · by_cases haccepts : accepts request.cid = true
    · rw [parseRequest_toJson haccepts hcid] at h
      split at h
      · cases h
      · exact (Except.ok.inj h).symm
    · unfold parseRequest at h
      simp [textMember_cid, hcid, haccepts] at h

theorem Exchange.received_eq (e : Exchange json accepts peerId request) {request' : Request}
    (h : receiveRequest json accepts e.chunks = .ok request') : request' = request := by
  unfold receiveRequest at h
  cases hread : readMessage json e.chunks with
  | error text =>
      rw [hread] at h
      cases h
  | ok value =>
      rw [hread] at h
      obtain rfl := read_front e.carried e.sent hread
      exact parseRequest_front h

/-- The node sent the message, and it reports what the handlers answered. -/
def Exchange.Told (e : Exchange json accepts peerId request) (response : Response) : Prop :=
  ∃ past rest, e.log = past ++ ⟨.sendMessage response, .ok ()⟩ :: rest ∧
    response.Reports request peerId past

theorem mem_of_sent {response : Response} {log : List ServerCall}
    (h : response ∈ sentMessages log) : ⟨.sendMessage response, .ok ()⟩ ∈ log := by
  obtain ⟨call, hmem, hsent⟩ := List.mem_filterMap.mp h
  unfold ServerCall.sent at hsent
  split at hsent
  · cases hsent
    exact hmem
  · cases hsent

theorem Exchange.told_of_sent (e : Exchange json accepts peerId request) {response : Response}
    (h : response ∈ sentMessages e.log) : e.Told response := by
  obtain ⟨past, rest, hsplit⟩ := List.append_of_mem (mem_of_sent h)
  obtain ⟨-, request', hreceived, hreports⟩ := (streamed e.ran).1 past _ _ rest hsplit
  obtain rfl := e.received_eq hreceived
  exact ⟨past, rest, hsplit, hreports⟩

/-- Whatever arrives as an answer is the one message that was sent. -/
theorem Exchange.told (e : Exchange json accepts peerId request) {value : Json}
    (h : readMessage json e.received = .ok value) :
    ∃ response, value = response.toJson ∧ e.Told response := by
  have harrived := e.arrived
  unfold wire at harrived
  rcases hsent : sentMessages e.log with _ | ⟨response, _ | ⟨_, _⟩⟩
  · rw [hsent] at harrived
    exact (read_nothing (List.prefix_nil.mp harrived) h).elim
  · have hmem : response ∈ sentMessages e.log := by
      rw [hsent]
      exact .head _
    rw [hsent, List.map_singleton, List.flatten_singleton] at harrived
    exact ⟨response, read_front (e.answered response hmem) harrived h, e.told_of_sent hmem⟩
  · have hone := (streamed e.ran).2.1
    rw [hsent] at hone
    simp at hone

theorem isOk_toJson (response : Response) :
    isOk response.toJson = true ↔ ∀ error code, response ≠ .refused error code := by
  cases response with
  | refused error code => exact iff_of_false (fun h => by cases h) fun h => h error code rfl
  | _ => exact iff_of_true rfl fun _ _ h => by cases h

theorem refusalCode_toJson (error : String) (code : ReplicationErrorCode) :
    refusalCode (Response.refused error code).toJson = code := by
  have hcode : textMember "code" (Response.refused error code).toJson = some (codeText code) := rfl
  unfold refusalCode
  rw [hcode]
  cases code <;> decide

/-- What a call comes to when something arrived. -/
theorem Exchange.call_cases (e : Exchange json accepts peerId request)
    (ht : transport request = .ok e.received) :
    (∃ message, call toText json transport request = .error (.other message)) ∨
    (∃ error code, call toText json transport request = .error (.protocol error code) ∧
      e.Told (.refused error code)) ∨
    ∃ response, call toText json transport request = .ok response.toJson ∧ e.Told response ∧
      ∀ error code, response ≠ .refused error code := by
  unfold call
  rw [ht]
  cases hread : readMessage json e.received with
  | error message => exact .inl ⟨message, by simp only [Except.bind, hread]⟩
  | ok value =>
      obtain ⟨response, rfl, htold⟩ := e.told hread
      simp only [Except.bind, hread]
      by_cases hok : isOk response.toJson = true
      · exact .inr (.inr ⟨response, if_pos hok, htold, (isOk_toJson response).mp hok⟩)
      · rw [if_neg hok]
        cases response with
        | refused error code =>
            refine .inr (.inl ⟨error, code, ?_, htold⟩)
            rw [refusalCode_toJson]
            rfl
        | _ => exact absurd ((isOk_toJson _).mpr fun _ _ h => by cases h) hok

/-- What a successful call was answered. -/
theorem Exchange.of_ok (e : Exchange json accepts peerId request)
    (ht : transport request = .ok e.received) {α : Type} {f : Json → Except CallError α} {v : α}
    (h : (call toText json transport request >>= f) = .ok v) :
    ∃ response past rest, f response.toJson = .ok v ∧
      e.log = past ++ ⟨.sendMessage response, .ok ()⟩ :: rest ∧
      response.Reports request peerId past ∧ ∀ error code, response ≠ .refused error code := by
  rcases e.call_cases ht with
    ⟨message, hcall⟩ | ⟨error, code, hcall, -⟩ | ⟨response, hcall, ⟨past, rest, hlog, hr⟩, hok⟩
  · rw [hcall] at h
    cases h
  · rw [hcall] at h
    cases h
  · rw [hcall] at h
    exact ⟨response, past, rest, h, hlog, hr, hok⟩

end Exchanges

/-! ## What a caller may conclude -/

section Callers

variable {json : JsonText} {accepts : String → Bool} {peerId : PeerId}
variable {toText : Json → String} {transport : Request → Delivery}

theorem requestStore_sound {cid : String} (e : Exchange json accepts peerId (.store cid))
    (ht : transport (.store cid) = .ok e.received) {v : Option Json}
    (h : requestStore toText json transport cid = .ok v) : ∃ n rest, v = some (.nat n) ∧
      e.log = ⟨.isAuthorized peerId, .ok true⟩ :: ⟨.store cid, .ok n⟩ :: rest := by
  obtain ⟨response, past, rest, hv, hlog, hreports, hok⟩ := e.of_ok ht h
  cases response with
  | store n =>
      obtain ⟨_, ⟨⟩, rfl⟩ := hreports
      exact ⟨n, _, (Except.ok.inj hv).symm, hlog⟩
  | refused error code => exact absurd rfl (hok error code)
  | _ => simp [Response.Reports] at hreports

theorem requestStage_sound {cid : String} {transactionId : TransactionId}
    (e : Exchange json accepts peerId (.stage cid transactionId))
    (ht : transport (.stage cid transactionId) = .ok e.received) {v : Option Json × Option Json}
    (h : requestStage toText json transport cid transactionId = .ok v) : ∃ n staged rest,
      v = (some (.nat n), some (.bool staged)) ∧ e.log = ⟨.isAuthorized peerId, .ok true⟩ ::
        ⟨.stage cid transactionId peerId, .ok (n, staged)⟩ :: rest := by
  obtain ⟨response, past, rest, hv, hlog, hreports, hok⟩ := e.of_ok ht h
  cases response with
  | stage n staged =>
      obtain ⟨_, _, ⟨⟩, rfl⟩ := hreports
      exact ⟨n, staged, _, (Except.ok.inj hv).symm, hlog⟩
  | refused error code => exact absurd rfl (hok error code)
  | _ => simp [Response.Reports] at hreports

theorem requestCommit_sound {cid : String} {transactionId : TransactionId}
    (e : Exchange json accepts peerId (.commit cid transactionId))
    (ht : transport (.commit cid transactionId) = .ok e.received)
    (h : requestCommit toText json transport cid transactionId = .ok ()) : ∃ rest,
      e.log = ⟨.isAuthorized peerId, .ok true⟩ ::
        ⟨.commit cid transactionId peerId, .ok ()⟩ :: rest := by
  obtain ⟨response, past, rest, -, hlog, hreports, hok⟩ := e.of_ok ht h
  cases response with
  | commit =>
      obtain ⟨_, _, ⟨⟩, rfl⟩ := hreports
      exact ⟨_, hlog⟩
  | refused error code => exact absurd rfl (hok error code)
  | _ => simp [Response.Reports] at hreports

theorem requestAbort_sound {cid : String} {transactionId : TransactionId}
    (e : Exchange json accepts peerId (.abort cid transactionId))
    (ht : transport (.abort cid transactionId) = .ok e.received)
    (h : requestAbort toText json transport cid transactionId = .ok ()) : ∃ rest,
      e.log = ⟨.isAuthorized peerId, .ok true⟩ ::
        ⟨.abort cid transactionId peerId, .ok ()⟩ :: rest := by
  obtain ⟨response, past, rest, -, hlog, hreports, hok⟩ := e.of_ok ht h
  cases response with
  | abort =>
      obtain ⟨_, _, ⟨⟩, rfl⟩ := hreports
      exact ⟨_, hlog⟩
  | refused error code => exact absurd rfl (hok error code)
  | _ => simp [Response.Reports] at hreports

theorem probeAccept_sound {cid : String} (e : Exchange json accepts peerId (.accept cid))
    (ht : transport (.accept cid) = .ok e.received) {v : Option Json}
    (h : probeAccept toText json transport cid = .ok v) : ∃ room rest, v = some (.bool room) ∧
      e.log = ⟨.isAuthorized peerId, .ok true⟩ :: ⟨.willAccept, .ok room⟩ :: rest := by
  obtain ⟨response, past, rest, hv, hlog, hreports, hok⟩ := e.of_ok ht h
  cases response with
  | accept room =>
      obtain ⟨_, ⟨⟩, rfl⟩ := hreports
      exact ⟨room, _, (Except.ok.inj hv).symm, hlog⟩
  | refused error code => exact absurd rfl (hok error code)
  | _ => simp [Response.Reports] at hreports

theorem requestCache_sound {cid : String} (e : Exchange json accepts peerId (.cache cid))
    (ht : transport (.cache cid) = .ok e.received) {v : Option Json}
    (h : requestCache toText json transport cid = .ok v) : ∃ n rest, v = some (.nat n) ∧
      e.log = ⟨.willAccept, .ok true⟩ :: ⟨.cacheCopy cid peerId, .ok n⟩ :: rest := by
  obtain ⟨response, past, rest, hv, hlog, hreports, hok⟩ := e.of_ok ht h
  cases response with
  | cache n =>
      obtain ⟨_, ⟨⟩, rfl⟩ := hreports
      exact ⟨n, _, (Except.ok.inj hv).symm, hlog⟩
  | refused error code => exact absurd rfl (hok error code)
  | _ => simp [Response.Reports] at hreports

theorem probeHave_sound {cid : String} (e : Exchange json accepts peerId (.have_ cid))
    (ht : transport (.have_ cid) = .ok e.received) {v : Option Json}
    (h : probeHave toText json transport cid = .ok v) : ∃ has rest, v = some (.bool has) ∧
      e.log = ⟨.isAuthorized peerId, .ok true⟩ :: ⟨.have_ cid, .ok has⟩ :: rest := by
  obtain ⟨response, past, rest, hv, hlog, hreports, hok⟩ := e.of_ok ht h
  cases response with
  | have_ has =>
      obtain ⟨_, ⟨⟩, rfl⟩ := hreports
      exact ⟨has, _, (Except.ok.inj hv).symm, hlog⟩
  | refused error code => exact absurd rfl (hok error code)
  | _ => simp [Response.Reports] at hreports

/-- Why a call was refused. -/
theorem refusal_sound {request : Request} (e : Exchange json accepts peerId request)
    (ht : transport request = .ok e.received) {error : String} {code : ReplicationErrorCode}
    (h : call toText json transport request = .error (.protocol error code)) :
    ∃ past rest, e.log = past ++ rest ∧
      (Response.refused error code).Reports request peerId past := by
  rcases e.call_cases ht with
    ⟨message, hcall⟩ | ⟨error', code', hcall, htold⟩ | ⟨response, hcall, -⟩
  · cases hcall.symm.trans h
  · cases hcall.symm.trans h
    obtain ⟨past, rest, hlog, hreports⟩ := htold
    exact ⟨past, _, hlog, hreports⟩
  · cases hcall.symm.trans h

/-- What a caller makes of a message. -/
def Response.outcome : Response → Except CallError Json
  | .refused error code => .error (.protocol error code)
  | response => .ok response.toJson

/-- What the node sent reaches the caller. -/
theorem call_complete {request : Request} (e : Exchange json accepts peerId request)
    (ht : transport request = .ok e.received) (hall : e.received.flatten = wire json e.log)
    {response : Response} (hsent : sentMessages e.log = [response])
    (hfits : (json.stringify response.toJson).length ≤ MAX_MESSAGE_BYTES) :
    call toText json transport request = response.outcome := by
  have hmem : response ∈ sentMessages e.log := by
    rw [hsent]
    exact .head _
  unfold wire at hall
  rw [hsent, List.map_singleton, List.flatten_singleton] at hall
  have hread : readMessage json e.received = .ok response.toJson :=
    (FrameProtocol.laws json (by decide)).whole _ (e.answered response hmem).1 hfits _ hall
  unfold call
  rw [ht]
  simp only [Except.bind, hread]
  cases response with
  | refused error code =>
      have hrefused : isOk (Response.refused error code).toJson = false := rfl
      rw [hrefused, refusalCode_toJson]
      rfl
  | _ => rfl

theorem requestCommit_of_call {cid : String} {transactionId : TransactionId}
    (h : call toText json transport (.commit cid transactionId) = Response.commit.outcome) :
    requestCommit toText json transport cid transactionId = .ok () := by
  unfold requestCommit
  rw [h]
  rfl

end Callers

/-- What a peer may conclude from a call, wherever the messages were cut and however
much of them arrived: a success is what the handler for this peer and this request
answered after the peer was found authorized, and a refusal names what the node
refused or what its last handler failed with. And when all of the answer arrives,
that is what the call comes to. -/
theorem exchange_sound (toText : Json → String) (json : JsonText) (accepts : String → Bool)
    (peerId : PeerId) (transport : Request → Delivery) :
    (∀ request (e : Exchange json accepts peerId request), transport request = .ok e.received →
      e.received.flatten = wire json e.log → ∀ response, sentMessages e.log = [response] →
        (json.stringify response.toJson).length ≤ MAX_MESSAGE_BYTES →
        call toText json transport request = response.outcome) ∧
    (∀ request (e : Exchange json accepts peerId request), transport request = .ok e.received →
      ∀ error code, call toText json transport request = .error (.protocol error code) →
        ∃ past rest, e.log = past ++ rest ∧
          (Response.refused error code).Reports request peerId past) ∧
    (∀ cid (e : Exchange json accepts peerId (.store cid)),
      transport (.store cid) = .ok e.received →
      ∀ v, requestStore toText json transport cid = .ok v → ∃ n rest, v = some (.nat n) ∧
        e.log = ⟨.isAuthorized peerId, .ok true⟩ :: ⟨.store cid, .ok n⟩ :: rest) ∧
    (∀ cid transactionId (e : Exchange json accepts peerId (.stage cid transactionId)),
      transport (.stage cid transactionId) = .ok e.received →
      ∀ v, requestStage toText json transport cid transactionId = .ok v → ∃ n staged rest,
        v = (some (.nat n), some (.bool staged)) ∧ e.log = ⟨.isAuthorized peerId, .ok true⟩ ::
          ⟨.stage cid transactionId peerId, .ok (n, staged)⟩ :: rest) ∧
    (∀ cid transactionId (e : Exchange json accepts peerId (.commit cid transactionId)),
      transport (.commit cid transactionId) = .ok e.received →
      requestCommit toText json transport cid transactionId = .ok () → ∃ rest,
        e.log = ⟨.isAuthorized peerId, .ok true⟩ ::
          ⟨.commit cid transactionId peerId, .ok ()⟩ :: rest) ∧
    (∀ cid transactionId (e : Exchange json accepts peerId (.abort cid transactionId)),
      transport (.abort cid transactionId) = .ok e.received →
      requestAbort toText json transport cid transactionId = .ok () → ∃ rest,
        e.log = ⟨.isAuthorized peerId, .ok true⟩ ::
          ⟨.abort cid transactionId peerId, .ok ()⟩ :: rest) ∧
    (∀ cid (e : Exchange json accepts peerId (.accept cid)),
      transport (.accept cid) = .ok e.received →
      ∀ v, probeAccept toText json transport cid = .ok v → ∃ room rest, v = some (.bool room) ∧
        e.log = ⟨.isAuthorized peerId, .ok true⟩ :: ⟨.willAccept, .ok room⟩ :: rest) ∧
    (∀ cid (e : Exchange json accepts peerId (.cache cid)),
      transport (.cache cid) = .ok e.received →
      ∀ v, requestCache toText json transport cid = .ok v → ∃ n rest, v = some (.nat n) ∧
        e.log = ⟨.willAccept, .ok true⟩ :: ⟨.cacheCopy cid peerId, .ok n⟩ :: rest) ∧
    ∀ cid (e : Exchange json accepts peerId (.have_ cid)),
      transport (.have_ cid) = .ok e.received →
      ∀ v, probeHave toText json transport cid = .ok v → ∃ has rest, v = some (.bool has) ∧
        e.log = ⟨.isAuthorized peerId, .ok true⟩ :: ⟨.have_ cid, .ok has⟩ :: rest :=
  ⟨fun _ e ht hall _ hsent hfits => call_complete e ht hall hsent hfits,
    fun _ e ht _ _ h => refusal_sound e ht h,
    fun _ e ht _ h => requestStore_sound e ht h,
    fun _ _ e ht _ h => requestStage_sound e ht h,
    fun _ _ e ht h => requestCommit_sound e ht h,
    fun _ _ e ht h => requestAbort_sound e ht h,
    fun _ e ht _ h => probeAccept_sound e ht h,
    fun _ e ht _ h => requestCache_sound e ht h,
    fun _ e ht _ h => probeHave_sound e ht h⟩

namespace KnownPeer

open WireExample UnknownPeer

def peers : List ReplicationPeer := [⟨"node", "peer"⟩]

/-- A request of the configured peer and the answer to it, with their texts. -/
structure Dialogue where
  request : Request
  requestText : Bytes
  response : Response
  responseText : Bytes
  accepted : isCid request.cid = true
  named : request.transactionId ≠ some ""
  succeeds : isOk response.toJson = true
  differ : requestText ≠ responseText
  short : requestText.length ≤ MAX_MESSAGE_BYTES ∧ responseText.length ≤ MAX_MESSAGE_BYTES

namespace Dialogue

variable (d : Dialogue)

def json : JsonText where
  stringify value := if isOk value then d.responseText else d.requestText
  parse bytes :=
    if bytes = d.responseText then .ok d.response.toJson
    else if bytes = d.requestText then .ok d.request.toJson
    else .error "Unexpected token"

theorem isOk_request : isOk d.request.toJson = false := by
  cases d.request <;> rfl

theorem stringify_request : d.json.stringify d.request.toJson = d.requestText :=
  if_neg (by rw [d.isOk_request]; exact Bool.false_ne_true)

theorem stringify_response : d.json.stringify d.response.toJson = d.responseText :=
  if_pos d.succeeds

theorem carries_request : JsonText.Carries d.json d.request.toJson := by
  unfold JsonText.Carries JsonText.Inverts
  rw [d.stringify_request]
  exact ⟨(if_neg d.differ).trans (if_pos rfl), d.short.1.trans_lt (by decide)⟩

theorem carries_response : JsonText.Carries d.json d.response.toJson := by
  unfold JsonText.Carries JsonText.Inverts
  rw [d.stringify_response]
  exact ⟨if_pos rfl, d.short.2.trans_lt (by decide)⟩

def chunks : List Bytes := [encodeMessage d.json d.request.toJson]

theorem received_request : receiveRequest d.json isCid d.chunks = .ok d.request := by
  have hbody : (d.json.stringify d.request.toJson).length ≤ MAX_MESSAGE_BYTES := by
    rw [d.stringify_request]
    exact d.short.1
  have hread : readMessage d.json d.chunks = .ok d.request.toJson :=
    (FrameProtocol.laws d.json (by decide)).whole _ d.carries_request.1 hbody _
      (List.append_nil _)
  have hcid : d.request.cid ≠ "" := by
    intro hcid
    have haccepted := d.accepted
    rw [hcid] at haccepted
    cases haccepted
  unfold receiveRequest
  rw [hread]
  exact (parseRequest_toJson d.accepted hcid).trans (if_neg d.named)

def served : Except HandlerError Unit × List ServerCall :=
  Prog.run (execute peers) (serveStream d.json isCid d.chunks "peer") []

/-- The answer in two chunks. -/
def cut : List Bytes :=
  [(encodeMessage d.json d.response.toJson).take 3,
    (encodeMessage d.json d.response.toJson).drop 3]

variable {d}

theorem wire_served (hsent : sentMessages d.served.2 = [d.response]) :
    d.cut.flatten = wire d.json d.served.2 := by
  unfold wire
  rw [hsent]
  simp [cut]

def exchange (hsent : sentMessages d.served.2 = [d.response]) :
    Exchange d.json isCid "peer" d.request where
  chunks := d.chunks
  result := d.served.1
  log := d.served.2
  received := d.cut
  carried := d.carries_request
  sent := by
    unfold chunks
    rw [List.flatten_singleton]
  ran := by
    have hexec : ∀ o past, logged o past (execute peers o past).1 (execute peers o past).2 :=
      fun _ _ => rfl
    exact Prog.runs_run hexec _ []
  answered := by
    rw [hsent]
    intro response hmem
    obtain rfl := List.mem_singleton.mp hmem
    exact d.carries_response
  arrived := by
    rw [wire_served hsent]

theorem log_exchange (hsent : sentMessages d.served.2 = [d.response]) :
    (exchange hsent).log = d.served.2 := rfl

end Dialogue

def anyText : Json → String := fun _ => "[object Object]"

def transport (d : Dialogue) : Request → Delivery := fun _ => .ok d.cut

theorem transport_exchange {d : Dialogue} (hsent : sentMessages d.served.2 = [d.response])
    (request : Request) : transport d request = .ok (Dialogue.exchange hsent).received := rfl

theorem call_dialogue {d : Dialogue} (hsent : sentMessages d.served.2 = [d.response]) :
    call anyText d.json (transport d) d.request = d.response.outcome := by
  refine call_complete (Dialogue.exchange hsent) rfl (Dialogue.wire_served hsent) hsent ?_
  rw [d.stringify_response]
  exact d.short.2

/-- A commit that is acknowledged. -/
def committed : Dialogue where
  request := committing
  requestText := committingJson.stringify committing.toJson
  response := .commit
  responseText := WireExample.ascii "\x7b\"ok\":true,\"op\":\"commit\"\x7d"
  accepted := by decide
  named := by decide
  succeeds := rfl
  differ := by decide +kernel
  short := by decide +kernel

theorem served_committed : committed.served.2 = [⟨.isAuthorized "peer", .ok true⟩,
    ⟨.commit committing.cid "1b4e28ba" "peer", .ok ()⟩, ⟨.sendMessage .commit, .ok ()⟩,
    ⟨.close, .ok ()⟩] := by
  unfold Dialogue.served serveStream
  rw [committed.received_request]
  rfl

theorem sent_committed : sentMessages committed.served.2 = [committed.response] := by
  rw [served_committed]
  rfl

end KnownPeer

open KnownPeer WireExample in
/-- The commit was acknowledged, so the node asked its handler for it. -/
theorem exchange_sound_commit : ∃ rest, committed.served.2 = ⟨.isAuthorized "peer", .ok true⟩ ::
    ⟨.commit committing.cid "1b4e28ba" "peer", .ok ()⟩ :: rest := by
  have hsound := exchange_sound anyText committed.json isCid "peer" (transport committed)
  have hcall : call anyText committed.json (transport committed)
      (.commit committing.cid "1b4e28ba") = Response.commit.outcome :=
    call_dialogue sent_committed
  have hcommitted : requestCommit anyText committed.json (transport committed) committing.cid
      "1b4e28ba" = .ok () := requestCommit_of_call hcall
  have hlog := hsound.2.2.2.2.1 committing.cid "1b4e28ba" (Dialogue.exchange sent_committed)
    (transport_exchange sent_committed _) hcommitted
  rw [Dialogue.log_exchange] at hlog
  exact hlog

end ReplicationProtocol

end IpfsNode
