import OrcState.Lifecycle.ClaimState
import OrcState.Lifecycle.WorkerLifecycle
import OrcState.Messaging.Messages

/-!
# Input requests

A worker's question is an event first and a durable row after, in transactions
of their own; an answer reads the events, writes the row and is an event last.
A worker polls the rows, then the events.  Between two transactions of one call
any other call may move, so a call in flight is part of the state, with what it
has read so far.  No operation here deletes a run, so no row goes with one.
-/

namespace OrcState.Messaging

open OrcState.Contract OrcState.Foundation OrcState.Store OrcState.Lifecycle

/-! ## Rows -/

inductive RequestState where
  | pending | answered
  deriving DecidableEq, Repr

structure InputRequest where
  requestId : String
  runId : RunId
  messageId : Option String
  idempotencyKey : String
  question : String
  state : RequestState := .pending
  response : Option String := none
  createdAt : String
  answeredAt : Option String := none
  deriving DecidableEq, Repr

abbrev InputRequests := Table String InputRequest InputRequest.requestId

def InputRequests.insertOrIgnore (requests : InputRequests) (q : InputRequest) :
    InputRequests :=
  if requests.rows.any fun q₀ => q₀.idempotencyKey = q.idempotencyKey ||
      (q.messageId.isSome && q₀.messageId = q.messageId) then requests
  else (Table.insert? requests q).getD requests

def Messages.insertOrIgnore (messages : Messages) (m : Message) : Messages :=
  (messages.insert? m).getD messages

/-- `ORDER BY created_at DESC, rowid DESC LIMIT 1`, of one id if one is given. -/
def InputRequests.latest (requests : InputRequests) (runId : RunId)
    (requestId : Option String) : Option InputRequest :=
  ((requests.rows.filter fun q => q.runId = runId &&
      (!truthy requestId || requestId = some q.requestId)).mergeSort
    fun a b => a.createdAt ≤ b.createdAt).getLast?

def InputRequest.answer (response stamp : String) (q : InputRequest) :
    InputRequest :=
  { q with
    state := .answered, response := some response, answeredAt := some stamp }

def InputRequests.answer (requests : InputRequests)
    (id response stamp : String) : InputRequests :=
  requests.update id (InputRequest.answer response stamp) fun _ => rfl

structure InputDb where
  project : Project := {}
  messages : Messages := Table.empty
  requests : InputRequests := Table.empty
  deriving DecidableEq

abbrev InputTxn (α : Type) := Txn InputDb DomainError α

/-! ## The bridge -/

def activeRun (runId : RunId) (agentId : AgentId) : InputTxn (Option Claim) := do
  let db ← get
  match db.project.findClaim runId with
  | none => return none
  | some run => do
      Txn.throwIf (run.agentId ≠ agentId ∨ run.active = false)
        (conflictError "Message actor is not scoped to an active run")
      return some run

def runningSession (db : EventsDb) (agentId : AgentId) (runId : Option RunId) :
    Option Session :=
  db.sessions.rows.find? fun s =>
    s.agentId = agentId && s.runId = runId && s.state = .running

def questionMessage (db : EventsDb) (messageId createdAt : String)
    (runId : RunId) (agentId : AgentId) (requestId question : String) :
    Message where
  messageId := messageId
  runId := runId
  idempotencyKey := "input:" ++ requestId
  direction := .outbound
  kind := .question
  payload := .input question requestId
  createdAt := createdAt
  senderId := some agentId
  senderSessionId := (runningSession db agentId (some runId)).map (·.sessionId)
  recipientId := some "master"
  recipientSessionId := (runningSession db "master" none).map (·.sessionId)
  recipientRunId := none

/-- The durable copy of a request, for a run that is stored. -/
def bridgeInputRequest (messageId createdAt : String) (runId : RunId)
    (agentId : AgentId) (requestId question : String) :
    InputTxn (Option String) := do
  match ← activeRun runId agentId with
  | none => return none
  | some _ => do
      let db ← get
      let messages := db.messages.insertOrIgnore (questionMessage
        db.project.events messageId createdAt runId agentId requestId question)
      let stored ← Txn.orThrow (messages.byKey ("input:" ++ requestId))
        (plainError
          "Cannot read properties of undefined (reading 'message_id')")
      set { db with
        messages := messages
        requests := db.requests.insertOrIgnore
          { requestId := requestId
            runId := runId
            messageId := some stored.messageId
            idempotencyKey := "input:" ++ requestId
            question := question
            createdAt := createdAt } }
      return some stored.messageId

structure Authority where
  sessionId : Option String := none
  trustedMaster : Bool := false
  deriving DecidableEq, Repr

def Authority.accepted (db : EventsDb) (authority : Authority) : Bool :=
  authority.trustedMaster || (truthy authority.sessionId &&
    (runningSession db "master" none).any fun master =>
      authority.sessionId = some master.sessionId)

def answerMessage (db : EventsDb) (messageId createdAt : String) (runId : RunId)
    (agentId : AgentId) (response : String) (request : InputRequest) :
    Message where
  messageId := messageId
  runId := runId
  idempotencyKey := "input-response:" ++ request.requestId
  direction := .inbound
  kind := .feedback
  payload := .input response request.requestId
  createdAt := createdAt
  senderId := some "human"
  senderSessionId := none
  recipientId := some agentId
  recipientSessionId :=
    (runningSession db agentId (some runId)).map (·.sessionId)
  recipientRunId := some runId
  parentMessageId := request.messageId

def bindResponse (messageId createdAt : String) (runId : RunId)
    (agentId : AgentId) (response : String) (request : InputRequest) :
    InputTxn (Option String) := do
  let db ← get
  match request.state with
  | .answered => do
      Txn.throwIf (request.response ≠ some response)
        (conflictError "Input request already has a different response")
      return (db.messages.byKey ("input-response:" ++ request.requestId)).map
        Message.messageId
  | .pending => do
      let messages ← Txn.orThrow
        (db.messages.insert? (answerMessage db.project.events messageId createdAt
          runId agentId response request))
        (plainError "UNIQUE constraint failed: messages.idempotency_key")
      set { db with
        messages := messages
        requests := db.requests.answer request.requestId response createdAt }
      return some messageId

def notPending : DomainError :=
  conflictError "Input request is not pending for this run"

/-- `none` for a run that has ended, or that has no durable request. -/
def bridgeInputResponse (messageId createdAt : String) (runId : RunId)
    (agentId : AgentId) (response : String) (requestId : Option String)
    (authority : Authority) : InputTxn (Option String) := do
  let db ← get
  match db.project.findClaim runId with
  | none => return none
  | some run => do
      Txn.throwIf (run.agentId ≠ agentId)
        (conflictError "Message actor is not scoped to an active run")
      if run.active = false then return none else
      match db.requests.latest runId requestId with
      | none => do
          Txn.throwIf (truthy requestId = true ∧
            ∃ q ∈ db.requests.rows, q.runId = runId) notPending
          return none
      | some request => do
          Txn.throwIf (authority.accepted db.project.events = false)
            (forbiddenError "Input response requires a running master session")
          bindResponse messageId createdAt runId agentId response request

/-! ## respondInput -/

/-- `actorId` is the one given, or else the registered master's. -/
structure RespondInput where
  runId : RunId
  agentId : AgentId
  response : String
  actorId : AgentId
  requestId : Option String := none
  deriving DecidableEq, Repr

def checkRespond (input : RespondInput) : Except DomainError Unit :=
  if input.runId = "" then .error (inputError "run_id is required")
  else if input.agentId = "" then .error (inputError "agent_id is required")
  else if input.response = "" then .error (inputError "response is required")
  else if agentIdRe input.actorId = false then
    .error (inputError "actor_id must be a valid agent id")
  else .ok ()

/-- `queryEvents`: in the order of the log, the first fifty. -/
def inputRequests (db : EventsDb) (runId : RunId) (agentId : AgentId) :
    List OrcEvent :=
  (db.events.filter fun e => e.event = .inputRequested &&
    e.runId = some runId && e.agentId = some agentId).take 50

def latestRequest (requests : List OrcEvent) (requestId : Option String) :
    Option OrcEvent :=
  if truthy requestId then
    requests.reverse.find? fun e =>
      e.field "request_id" = requestId.map PayloadValue.str
  else requests.getLast?

def textField (e : OrcEvent) (key : String) : Option String :=
  match e.field key with
  | some (.str text) => some text
  | _ => none

def latestRequestId (requestId : Option String) (request : Option OrcEvent) :
    Option String :=
  requestId.or (request.bind fun e => textField e "request_id")

def checkAnswered (requestId : Option String) (request : Option OrcEvent)
    (messageId : Option String) : Except DomainError Unit :=
  if truthy requestId = true ∧ truthy messageId = false then .error notPending
  else if truthy messageId = false ∧ request = none then .error notPending
  else .ok ()

def responseEvent (time : String) (input : RespondInput)
    (request : Option OrcEvent) (messageId : Option String) : OrcEvent where
  ts := time
  event := .inputResponse
  actorType := actorTypeOf input.actorId
  actorId := input.actorId
  runId := some input.runId
  taskRef := request.bind OrcEvent.taskRef
  agentId := some input.agentId
  payload :=
    [("response", .str input.response),
     ("question", (request.bind (OrcEvent.field · "question")).getD .null),
     ("request_id", nullable (latestRequestId input.requestId request)),
     ("message_id", nullable messageId)]

/-! ## Asking and polling -/

def mayAsk (project : Project) (runId : RunId) (agentId : AgentId) :
    Option Claim :=
  match validateProgressCommandInput
      { event := .needInput, runId := runId, agentId := agentId
        reason := some "master_input_required" } (project.findClaim runId) with
  | .ok claim => if claim.state = .inProgress then some claim else none
  | .error _ => none

def requestEvent (time : String) (claim : Claim) (runId : RunId)
    (agentId : AgentId) (requestId question : String) : OrcEvent where
  ts := time
  event := .inputRequested
  actorType := .agent
  actorId := agentId
  runId := some runId
  taskRef := some claim.taskRef
  agentId := some agentId
  payload := [("question", .str question), ("request_id", .str requestId)]

structure PollInput where
  runId : RunId
  agentId : AgentId
  requestId : String
  requestSeq : Int
  heartbeat : Bool := false
  deriving DecidableEq, Repr

def isActiveRunClaim (project : Project) (runId : RunId) (agentId : AgentId) :
    Option Claim :=
  (project.findClaim runId).filter fun c => c.agentId = agentId && c.active

def durableResponse (requests : InputRequests) (request : PollInput) :
    Option String :=
  ((requests.find? request.requestId).filter fun q =>
    q.runId = request.runId && q.state = .answered).bind InputRequest.response

/-- An event without a request id answers any earlier request of its run. -/
def answers (request : PollInput) (e : OrcEvent) : Bool :=
  e.event = .inputResponse && e.runId = some request.runId &&
  e.agentId = some request.agentId &&
  (e.field "request_id" = some (.str request.requestId) ||
    (e.field "request_id" = none && request.requestSeq < (e.seq : Int)))

def eventResponse (events : List OrcEvent) (request : PollInput) :
    Option String :=
  ((events.filter fun e => request.requestSeq < (e.seq : Int)).filter
    (answers request)).reverse.findSome? fun e => textField e "response"

/-- The rows are read first, and the events `later` in a second read. -/
def latestInputResponse (first later : InputDb) (request : PollInput) :
    Option String :=
  (durableResponse first.requests request).or
    (eventResponse later.project.events.events request)

/-! ## Calls in flight -/

structure Ask where
  runId : RunId
  agentId : AgentId
  question : String
  requestId : String
  claim : Claim
  logged : Bool := false
  deriving DecidableEq, Repr

inductive ReplyStage where
  | read
  | bridged (messageId : Option String)
  | cleared (messageId : Option String)
  deriving DecidableEq, Repr

structure Reply where
  input : RespondInput
  authority : Authority
  request : Option OrcEvent
  stage : ReplyStage := .read
  deriving DecidableEq, Repr

def Reply.requestId (reply : Reply) : Option String :=
  latestRequestId reply.input.requestId reply.request

/-- `issued` are the ids that `randomUUID` has given to requests. -/
structure Inputs where
  db : InputDb := {}
  issued : List String := []
  asks : List Ask := []
  replies : List Reply := []
  timeouts : List (RunId × AgentId) := []
  deriving DecidableEq

inductive InputLabel where
  | ask (runId : RunId) (agentId : AgentId) (question requestId : String)
  | logRequest (time : String) (i : Nat)
  | bridgeRequest (now messageId : String) (i : Nat)
  | dropAsk (i : Nat)
  | respond (input : RespondInput) (authority : Authority)
  | bridgeResponse (now messageId : String) (i : Nat)
  | clearState (now : String) (i : Nat)
  | logResponse (time : String) (i : Nat)
  | beat (time : String) (request : PollInput)
  | timeout (runId : RunId) (agentId : AgentId)
  | expire (time : String) (i : Nat)

variable (dates : DateApi)

def InputDb.append (db : InputDb) (event : OrcEvent) : Bool × InputDb :=
  match appendSequencedEvent dates event db.project.events with
  | .ok (_, events) =>
      (true, { db with project := db.project.setEvents events })
  | .error _ => (false, db)

/-- Start an `input-request`; one that is refused leaves nothing in flight. -/
def Inputs.ask (s : Inputs) (runId : RunId) (agentId : AgentId)
    (question requestId : String) : Inputs :=
  { s with
    issued := s.issued ++ [requestId]
    asks := s.asks ++
      ((mayAsk s.db.project runId agentId).map fun claim =>
        { runId := runId, agentId := agentId, question := question
          requestId := requestId, claim := claim }).toList }

def Inputs.logRequest (s : Inputs) (time : String) (i : Nat) (ask : Ask) :
    Inputs :=
  match s.db.append dates (requestEvent time ask.claim ask.runId ask.agentId
      ask.requestId ask.question) with
  | (true, db) =>
      { s with db := db, asks := s.asks.set i { ask with logged := true } }
  | (false, db) => { s with db := db, asks := s.asks.eraseIdx i }

def Inputs.bridgeRequest (s : Inputs) (now messageId : String) (i : Nat)
    (ask : Ask) : Inputs :=
  { s with
    db := (bridgeInputRequest messageId now ask.runId ask.agentId ask.requestId
      ask.question).commit s.db
    asks := s.asks.eraseIdx i }

def Inputs.respond (s : Inputs) (input : RespondInput) (authority : Authority) :
    Inputs :=
  match checkRespond input with
  | .error _ => s
  | .ok () =>
      { s with
        replies := s.replies ++
          [{ input := input
             authority := authority
             request := latestRequest
               (inputRequests s.db.project.events input.runId input.agentId)
               input.requestId }] }

def Inputs.bridgeResponse (s : Inputs) (now messageId : String) (i : Nat)
    (reply : Reply) : Inputs :=
  match bridgeInputResponse messageId now reply.input.runId reply.input.agentId
      reply.input.response reply.requestId reply.authority s.db with
  | .error _ => { s with replies := s.replies.eraseIdx i }
  | .ok (answer, db) =>
      match checkAnswered reply.input.requestId reply.request answer with
      | .error _ => { s with db := db, replies := s.replies.eraseIdx i }
      | .ok () =>
          { s with
            db := db
            replies := s.replies.set i { reply with stage := .bridged answer } }

def Inputs.clearState (s : Inputs) (now : String) (i : Nat) (reply : Reply)
    (messageId : Option String) : Inputs :=
  { s with
    db := { s.db with
      project := (setRunInputState dates reply.input.runId reply.input.agentId
        none none now s.db.project).2 }
    replies := s.replies.set i { reply with stage := .cleared messageId } }

def Inputs.logResponse (s : Inputs) (time : String) (i : Nat) (reply : Reply)
    (messageId : Option String) : Inputs :=
  { s with
    db := (s.db.append dates
      (responseEvent time reply.input reply.request messageId)).2
    replies := s.replies.eraseIdx i }

def Inputs.beat (s : Inputs) (time : String) (request : PollInput) : Inputs :=
  match isActiveRunClaim s.db.project request.runId request.agentId with
  | some claim =>
      if request.heartbeat then
        { s with
          db := (s.db.append dates
            (runEvent time .heartbeat .agent request.agentId claim [])).2 }
      else s
  | none => s

def Inputs.expire (s : Inputs) (time : String) (i : Nat)
    (call : RunId × AgentId) : Inputs :=
  { s with
    db := { s.db with
      project := (finishRun dates call.1 call.2
        { success := false, failureReason := some "input_request_timeout"
          failureCode := some "ERR_INPUT_REQUEST_TIMEOUT", time := time } time
        s.db.project).2 }
    timeouts := s.timeouts.eraseIdx i }

/-- One transaction of one call; the id of a request is fresh. -/
def inputStep (s : Inputs) : InputLabel → Option Inputs
  | .ask runId agentId question requestId =>
      if requestId = "" ∨ requestId ∈ s.issued then none
      else some (s.ask runId agentId question requestId)
  | .logRequest time i =>
      (s.asks[i]?.filter fun ask => !ask.logged).map (s.logRequest dates time i)
  | .bridgeRequest now messageId i =>
      (s.asks[i]?.filter Ask.logged).map (s.bridgeRequest now messageId i)
  | .dropAsk i => some { s with asks := s.asks.eraseIdx i }
  | .respond input authority => some (s.respond input authority)
  | .bridgeResponse now messageId i =>
      (s.replies[i]?.filter fun reply => reply.stage = .read).map
        (s.bridgeResponse now messageId i)
  | .clearState now i =>
      s.replies[i]?.bind fun reply =>
        match reply.stage with
        | .bridged messageId => some (s.clearState dates now i reply messageId)
        | _ => none
  | .logResponse time i =>
      s.replies[i]?.bind fun reply =>
        match reply.stage with
        | .cleared messageId => some (s.logResponse dates time i reply messageId)
        | _ => none
  | .beat time request => some (s.beat dates time request)
  | .timeout runId agentId =>
      if (isActiveRunClaim s.db.project runId agentId).isSome then
        some { s with timeouts := s.timeouts ++ [(runId, agentId)] }
      else some s
  | .expire time i => s.timeouts[i]?.map (s.expire dates time i)

structure Unasked (s : Inputs) : Prop where
  requests : s.db.requests.rows = []
  log : ∀ e ∈ s.db.project.events.events,
    e.event ≠ .inputRequested ∧ e.event ≠ .inputResponse
  issued : s.issued = []
  asks : s.asks = []
  replies : s.replies = []
  timeouts : s.timeouts = []

def inputs : System Inputs InputLabel where
  initial := Unasked
  step := inputStep dates

end OrcState.Messaging
