import OrcState.Contract.Event
import OrcState.Foundation.Transition

/-!
# The turns of an app-server session

A session after its handshake: `turn/start` requests with their pending answers
and timers, the frames that the server sends, and what is known of its turns.
The promise of a request settles in one step and the rest of `submit` runs in a
later one, with other frames in between.  Frames are taken as parsed; the log,
the responses to server requests, and the handle, agent and time of an event are
left out.
-/

namespace OrcState.Provider

open OrcState.Contract OrcState.Foundation

abbrev TurnId := String

abbrev RpcId := Nat

/-! ## Frames -/

structure TurnParam where
  id : Option String := none
  status : Option String := none
  deriving DecidableEq, Repr

structure ItemParam where
  itemType : Option String := none
  id : Option String := none
  status : Option String := none
  deriving DecidableEq, Repr

structure FrameParams where
  turn : Option TurnParam := none
  turnId : Option String := none
  item : Option ItemParam := none
  willRetry : Bool := false
  deriving DecidableEq, Repr

inductive FrameId where
  | absent
  | number (id : RpcId)
  | other
  deriving DecidableEq, Repr

/-- `resultTurn` is `result.turn.id`, `error` the text of the error if any. -/
structure Frame where
  id : FrameId := .absent
  method : Option String := none
  params : FrameParams := {}
  error : Option String := none
  resultTurn : Option TurnId := none
  deriving DecidableEq, Repr

def FrameParams.turnOf (params : FrameParams) : Option TurnId :=
  (params.turn.bind TurnParam.id).or params.turnId

/-! ## The session -/

inductive RuntimeEventType where
  | sessionReady | sessionExited
  | turnStarted | turnCompleted | turnFailed | turnInterrupted
  | toolStarted | toolCompleted | messageCompleted
  | approvalRequested | approvalRefused | providerError
  deriving DecidableEq, Repr

structure RuntimeEvent where
  kind : RuntimeEventType
  turnId : Option TurnId
  commandId : Option String
  providerEvent : String
  providerMeta : Payload
  deriving DecidableEq, Repr

structure Submission where
  commandId : Option String
  id : RpcId
  outcome : Option (Except String (Option TurnId)) := none

/--
The session, and what it has done so far: the requests written, the events
emitted, the turns acknowledged to a caller, and the turns known to run.
-/
structure CodexSession where
  threadId : String := "thread"
  exited : Bool := false
  nextId : RpcId := 1
  pending : List RpcId := []
  activeTurnId : Option TurnId := none
  submission : Option Submission := none
  turnCommands : List (TurnId × Option String) := []
  finishedTurns : List TurnId := []
  requests : List (RpcId × Option String) := []
  events : List RuntimeEvent := []
  acks : List (Option String × TurnId) := []
  running : List TurnId := []

def CodexSession.commandOf (s : CodexSession) (turnId : Option TurnId) :
    Option String :=
  (turnId.bind fun t => (s.turnCommands.lookup t).join).filter (· ≠ "")

def CodexSession.emit (s : CodexSession) (kind : RuntimeEventType)
    (providerEvent : String) (details : Payload)
    (turnId : Option TurnId := none) : CodexSession :=
  let turnId := turnId.filter (· ≠ "")
  { s with
    events := s.events ++ [
      { kind := kind
        turnId := turnId
        commandId := s.commandOf turnId
        providerEvent := providerEvent
        providerMeta := ("thread_id", .str s.threadId) :: details }] }

def CodexSession.claimTurn (s : CodexSession) (turnId : TurnId) : CodexSession :=
  match s.turnCommands.lookup turnId, s.submission with
  | none, some submission =>
      { s with
        turnCommands := s.turnCommands ++ [(turnId, submission.commandId)] }
  | _, _ => s

/-- A turn that already finished is not opened again. -/
def CodexSession.activate (s : CodexSession) (turnId : TurnId) : CodexSession :=
  { s with
    activeTurnId :=
      if turnId ∈ s.finishedTurns then s.activeTurnId else some turnId
    running := s.running ++ [turnId] }

def CodexSession.finish (s : CodexSession) (turnId : TurnId) : CodexSession :=
  { s with
    finishedTurns := s.finishedTurns ++ [turnId]
    activeTurnId := if s.activeTurnId = some turnId then none
      else s.activeTurnId }

/-! ## Frames of the server -/

def toolItemTypes : List String :=
  ["commandExecution", "fileChange", "mcpToolCall", "dynamicToolCall",
    "collabAgentToolCall", "webSearch", "imageGeneration"]

def completedType (status : String) : RuntimeEventType :=
  if status = "completed" then .turnCompleted
  else if status = "interrupted" then .turnInterrupted
  else .turnFailed

def turnStarted (s : CodexSession) (turnId : TurnId) : CodexSession :=
  ((s.claimTurn turnId).activate turnId).emit .turnStarted "turn/started" []
    (some turnId)

def turnCompleted (s : CodexSession) (turnId : TurnId) (status : String) :
    CodexSession :=
  ((s.claimTurn turnId).finish turnId).emit (completedType status)
    "turn/completed" [("status", .str status)] (some turnId)

def itemMeta (item : ItemParam) : Payload :=
  [("item_type", .str (item.itemType.getD "unknown"))] ++
    (item.id.map fun id => ("item_id", .str id)).toList ++
    (item.status.map fun status => ("item_status", .str status)).toList

def itemNotified (s : CodexSession) (method : String) (params : FrameParams) :
    CodexSession :=
  let item := params.item.getD {}
  let itemType := item.itemType.getD "unknown"
  if toolItemTypes.contains itemType then
    s.emit (if method = "item/started" then .toolStarted else .toolCompleted)
      method (itemMeta item) params.turnOf
  else if itemType = "agentMessage" ∧ method = "item/completed" then
    s.emit .messageCompleted method (itemMeta item) params.turnOf
  else s

def onNotification (s : CodexSession) (method : String)
    (params : FrameParams) : CodexSession :=
  let turnId := params.turnOf.getD ""
  if method = "turn/started" ∧ turnId ≠ "" then turnStarted s turnId
  else if method = "turn/completed" ∧ turnId ≠ "" then
    turnCompleted s turnId
      ((params.turn.bind TurnParam.status).getD "unknown")
  else if method = "item/started" ∨ method = "item/completed" then
    itemNotified s method params
  else if method = "error" then
    s.emit .providerError method [("will_retry", .bool params.willRetry)]
      params.turnOf
  else s

/-- `method in APPROVAL_DECLINES`, with what every object has, or a request
that asks a human. -/
def asksApproval (method : String) : Bool :=
  ["item/commandExecution/requestApproval", "item/fileChange/requestApproval",
    "execCommandApproval", "applyPatchApproval", "constructor",
    "__defineGetter__", "__defineSetter__", "hasOwnProperty",
    "__lookupGetter__", "__lookupSetter__", "isPrototypeOf",
    "propertyIsEnumerable", "toString", "valueOf", "__proto__",
    "toLocaleString", "item/permissions/requestApproval",
    "item/tool/requestUserInput", "mcpServer/elicitation/request"].contains
    method

def onServerRequest (s : CodexSession) (method : String)
    (params : FrameParams) : CodexSession :=
  if asksApproval method then
    (s.emit .approvalRequested method [] params.turnId).emit .approvalRefused
      method [("reason", .str "approvals capability not supported")]
      params.turnId
  else s

def CodexSession.settle (s : CodexSession) (id : RpcId)
    (outcome : Except String (Option TurnId)) : CodexSession :=
  { s with
    pending := s.pending.erase id
    submission := s.submission.map fun submission =>
      if submission.id = id then { submission with outcome := some outcome }
      else submission }

def rpcOutcome (frame : Frame) : Except String (Option TurnId) :=
  match frame.error with
  | some text => .error ("app-server turn/start failed " ++ text)
  | none => .ok frame.resultTurn

def onFrame (s : CodexSession) (frame : Frame) : CodexSession :=
  match frame.method.filter (· ≠ "") with
  | some method =>
      if frame.id = .absent then onNotification s method frame.params
      else onServerRequest s method frame.params
  | none =>
      match frame.id with
      | .number id => if id ∈ s.pending then s.settle id (rpcOutcome frame) else s
      | _ => s

/-! ## submit -/

/-- The first part of `submit`; `writable` says whether stdin takes the frame. -/
def submit (s : CodexSession) (commandId : Option String) (writable : Bool) :
    Except DomainError CodexSession :=
  if s.exited then
    .error (plainError "No live app-server session for handle")
  else if s.activeTurnId.isSome ∨ s.submission.isSome then
    .error (plainError ("codex runtime does not support steer: turn " ++
      s.activeTurnId.getD "(starting)" ++ " is still running"))
  else if writable then
    .ok { s with
      nextId := s.nextId + 1
      pending := s.pending ++ [s.nextId]
      submission := some { commandId := commandId, id := s.nextId }
      requests := s.requests ++ [(s.nextId, commandId)] }
  else
    .ok { s with
      nextId := s.nextId + 1
      submission := some
        { commandId := commandId, id := s.nextId
          outcome := some (.error "app-server session is not running") } }

def answered (s : CodexSession) (submission : Submission)
    (turnId : Option TurnId) : CodexSession :=
  match turnId.filter (· ≠ "") with
  | none => { s with submission := none }
  | some turnId =>
      { (s.claimTurn turnId).activate turnId with
        submission := none
        acks := s.acks ++ [(submission.commandId, turnId)] }

def continueSubmit (s : CodexSession) : Option CodexSession :=
  match s.submission with
  | some ⟨commandId, id, some (.ok turnId)⟩ =>
      some (answered s ⟨commandId, id, some (.ok turnId)⟩ turnId)
  | some ⟨_, _, some (.error _)⟩ => some { s with submission := none }
  | _ => none

def onExit (s : CodexSession) (code signal : PayloadValue) : CodexSession :=
  let rejected := s.submission.map fun submission =>
    if submission.id ∈ s.pending then
      { submission with
        outcome := some (.error "app-server exited before responding") }
    else submission
  { s with
    exited := true
    activeTurnId := none
    submission := rejected
    pending := [] }.emit .sessionExited "process/exit"
      [("code", code), ("signal", signal)]

/-! ## Runs -/

inductive SessionLabel where
  | submit (commandId : Option String) (writable : Bool)
  | frame (frame : Frame)
  | timeout (id : RpcId)
  | continueSubmit
  | exit (code signal : PayloadValue)

abbrev Origin := TurnId → Option RpcId

/-- The turn was started for a request that was written, or for none of them. -/
def startable (origin : Origin) (s : CodexSession) (turnId : TurnId) : Bool :=
  (origin turnId).all fun id => s.requests.any fun request => request.1 = id

def serverSends (origin : Origin) (s : CodexSession) (frame : Frame) : Bool :=
  (frame.params.turnOf.all (startable origin s)) &&
    frame.resultTurn.all fun turnId =>
      frame.id = (origin turnId).elim .other .number

def sessionStep (origin : Origin) (s : CodexSession) :
    SessionLabel → Option CodexSession
  | .submit commandId writable => (submit s commandId writable).toOption
  | .frame frame => if serverSends origin s frame then some (onFrame s frame)
      else none
  | .timeout id =>
      if id ∈ s.pending then
        some (s.settle id (.error "app-server turn/start timed out"))
      else none
  | .continueSubmit => continueSubmit s
  | .exit code signal =>
      if s.exited then none else some (onExit s code signal)

structure JustStarted (s : CodexSession) : Prop where
  pending : s.pending = []
  idle : s.activeTurnId = none
  submission : s.submission = none
  turnCommands : s.turnCommands = []
  finishedTurns : s.finishedTurns = []
  requests : s.requests = []
  events : ∀ e ∈ s.events, e.turnId = none
  acks : s.acks = []
  running : s.running = []

def sessionSystem (origin : Origin) : System CodexSession SessionLabel where
  initial := JustStarted
  step := sessionStep origin

end OrcState.Provider
