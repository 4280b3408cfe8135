import OrcState.Command.Delivery
import OrcState.Foundation.Effect
import OrcState.Foundation.Transition

/-!
# Semantic messages

The `messages` table and the operations of the message router: sending, listing
and consuming.  A send is a transaction on the mailbox, then, when a dispatcher
is there, a command in a transaction of its own, then the reference to it in a
third; a throw in a later one takes nothing back.  The identifiers `randomUUID`
gives and the readings of the clock are arguments.
-/

namespace OrcState.Messaging

open OrcState.Contract OrcState.Foundation OrcState.Store OrcState.Command

/-! ## Rows -/

inductive MessageKind where
  | message | question | reviewRequest | feedback | result
  deriving DecidableEq, Repr

inductive MessageDirection where
  | inbound | outbound
  deriving DecidableEq, Repr

inductive MessageState where
  | queued | consumed
  deriving DecidableEq, Repr

inductive ReviewOutcome where
  | approved | findings
  deriving DecidableEq, Repr

/-- What `artifact_refs` holds: a list, or a falsy value that is kept as it is. -/
inductive ArtifactRefs where
  | list (refs : List String)
  | falsy (json : String)
  deriving DecidableEq, Repr

/--
The objects whose JSON texts are stored: two texts are equal exactly when the
objects are.
-/
inductive MessagePayload where
  | semantic (text : String) (artifactRefs : ArtifactRefs)
  | input (text : String) (requestId : String)
  | review (text : String) (outcome : ReviewOutcome)
  deriving DecidableEq, Repr

structure Message where
  messageId : String
  runId : RunId
  commandId : Option String := none
  idempotencyKey : String
  direction : MessageDirection
  kind : MessageKind
  payload : MessagePayload
  createdAt : String
  senderId : Option AgentId
  senderSessionId : Option String
  recipientId : Option AgentId
  recipientSessionId : Option String
  recipientRunId : Option RunId
  parentMessageId : Option String := none
  state : MessageState := .queued
  consumedAt : Option String := none
  deriving DecidableEq, Repr

abbrev Messages := Table String Message Message.messageId

def Messages.insert? (messages : Messages) (m : Message) : Option Messages :=
  if messages.rows.any fun m₀ => m₀.idempotencyKey = m.idempotencyKey then none
  else Table.insert? messages m

def Messages.byKey (messages : Messages) (key : String) : Option Message :=
  messages.rows.find? fun m => m.idempotencyKey = key

def Message.restrict (db : EventsDb) (kept : Messages) (m : Message) : Message :=
  { m with
    commandId := m.commandId.filter fun id => (db.commands.find? id).isSome
    recipientRunId := m.recipientRunId.filter fun r => (db.runs.find? r).isSome
    parentMessageId :=
      m.parentMessageId.filter fun id => (kept.find? id).isSome }

/-- The messages of a deleted run go; other deletions leave a `NULL`. -/
def Messages.restrict (messages : Messages) (db : EventsDb) : Messages :=
  let kept := messages.filter fun m => (db.runs.find? m.runId).isSome
  kept.map (Message.restrict db kept) fun _ => rfl

structure MessageDb where
  store : EventsDb := {}
  messages : Messages := Table.empty
  deriving DecidableEq

abbrev MessageTxn (α : Type) := Txn MessageDb DomainError α

/-! ## The request -/

/-- A value of `artifactRefs`; `invalid` is no array, or holds no string. -/
inductive RefsInput where
  | strings (refs : List String)
  | null
  | falsy (json : String)
  | invalid
  deriving DecidableEq, Repr

/-- `kind` is `none` outside `KINDS`, a parent `some none` when no string. -/
structure SendMessageInput where
  runId : RunId
  recipientSessionId : String
  idempotencyKey : String
  kind : Option MessageKind
  text : String
  artifactRefs : Option RefsInput := none
  parentMessageId : Option (Option String) := none
  deriving DecidableEq, Repr

structure MessageRequest where
  kind : MessageKind
  payload : MessagePayload
  parentMessageId : Option String
  deriving DecidableEq, Repr

def unreviewable : Option RefsInput → Bool
  | some (.strings refs) => refs.isEmpty || refs.any blank
  | _ => true

def storedRefs : Option RefsInput → ArtifactRefs
  | some (.strings refs) => .list refs
  | some (.falsy json) => .falsy json
  | _ => .list []

def checkInput (input : SendMessageInput) : Except DomainError MessageRequest :=
  match input.kind with
  | none => .error (inputError "Invalid semantic message")
  | some kind =>
      if input.idempotencyKey = "" ∨ blank input.text = true then
        .error (inputError "Invalid semantic message")
      else if kind = .reviewRequest ∧ unreviewable input.artifactRefs = true then
        .error (inputError "Review request requires artifact references")
      else if input.artifactRefs = some .invalid then
        .error (inputError "Invalid artifact references")
      else if input.parentMessageId.any fun id => !truthy id then
        .error (inputError "Invalid parent message")
      else
        .ok
          { kind := kind
            payload := .semantic input.text (storedRefs input.artifactRefs)
            parentMessageId := input.parentMessageId.getD none }

/-! ## Routing -/

def session (id : String) : MessageTxn Session := do
  let db ← get
  Txn.orThrow
    ((db.store.sessions.find? id).filter fun s => s.state = .running)
    (forbiddenError "Message session is not running")

def owns (db : EventsDb) (runId : RunId) (agentId : AgentId) : Bool :=
  (db.runs.find? runId).any fun run => run.active && run.agentId = agentId

def ownedRun (runId : RunId) (agentId : AgentId) : MessageTxn Unit := do
  let db ← get
  Txn.throwIf (owns db.store runId agentId = false)
    (forbiddenError "Message run is not active or owned by recipient")

def read (id : String) : MessageTxn Message := do
  let db ← get
  Txn.orThrow (db.messages.find? id) (notFoundError "Message not found")

/-- What a parent must be for this sender and recipient. -/
def checkParent (input : SendMessageInput) (request : MessageRequest)
    (sender recipient : Session) : MessageTxn Unit :=
  match request.parentMessageId with
  | none => pure ()
  | some id => do
      let parent ← read id
      Txn.throwIf (request.kind = .result ∧ parent.kind ≠ .reviewRequest)
        (inputError "Review result requires a review request")
      Txn.throwIf
        (parent.senderId ≠ some recipient.agentId ∨
          parent.recipientId ≠ some sender.agentId ∨
          parent.runId ≠ recipient.runId.getD input.runId ∨
          parent.recipientRunId ≠ sender.runId)
        (forbiddenError "Message reply is not scoped to its request")

/-- A recipient works its own active run, or is the master. -/
def checkRecipient (recipient : Session) : MessageTxn Unit :=
  if truthy recipient.runId then
    ownedRun (recipient.runId.getD "") recipient.agentId
  else
    Txn.throwIf (recipient.agentId ≠ "master")
      (forbiddenError "Message recipient has no active run")

/-- A sender works the run it names; the master names its recipient's. -/
def checkSender (input : SendMessageInput) (sender recipient : Session) :
    MessageTxn Unit :=
  if sender.agentId ≠ "master" then ownedRun input.runId sender.agentId
  else
    Txn.throwIf
      (truthy recipient.runId = false ∨ recipient.runId ≠ some input.runId)
      (forbiddenError "Master message must target its run")

def route (principal : CommandPrincipal) (input : SendMessageInput)
    (request : MessageRequest) : MessageTxn (Session × Session) := do
  let sender ← session principal.sessionId
  Txn.throwIf
    (sender.agentId ≠ principal.agentId ∨
      (sender.agentId ≠ "master" ∧ sender.runId ≠ some input.runId))
    (forbiddenError "Message sender is not scoped to the run")
  let recipient ← session input.recipientSessionId
  checkRecipient recipient
  checkSender input sender recipient
  Txn.throwIf
    (request.kind = .reviewRequest ∧
      (truthy sender.runId = false ∨ truthy recipient.runId = false ∨
        sender.sessionId = recipient.sessionId))
    (inputError "Review requires two worker sessions")
  Txn.throwIf (request.kind = .result ∧ request.parentMessageId = none)
    (inputError "Result requires a parent message")
  checkParent input request sender recipient
  return (sender, recipient)

/-! ## Sending -/

def Message.matches (m : Message) (input : SendMessageInput)
    (request : MessageRequest) (sender recipient : Session) : Bool :=
  m.runId = input.runId && m.senderId = some sender.agentId &&
  m.recipientId = some recipient.agentId &&
  m.recipientRunId = recipient.runId && m.kind = request.kind &&
  m.payload = request.payload &&
  m.parentMessageId = request.parentMessageId

def Message.retarget (sessionId : String) (m : Message) : Message :=
  { m with recipientSessionId := some sessionId, commandId := none }

def Messages.retarget (messages : Messages) (id sessionId : String) : Messages :=
  messages.update id (Message.retarget sessionId) fun _ => rfl

def newMessage (messageId createdAt : String) (input : SendMessageInput)
    (request : MessageRequest) (sender recipient : Session) : Message where
  messageId := messageId
  runId := input.runId
  idempotencyKey := input.idempotencyKey
  direction := .outbound
  kind := request.kind
  payload := request.payload
  createdAt := createdAt
  senderId := some sender.agentId
  senderSessionId := some sender.sessionId
  recipientId := some recipient.agentId
  recipientSessionId := some recipient.sessionId
  recipientRunId := recipient.runId
  parentMessageId := request.parentMessageId

variable (dates : DateApi) (now : Int)

def storeMessage (messageId : String) (principal : CommandPrincipal)
    (input : SendMessageInput) : MessageTxn Message := do
  let request ← liftM (checkInput input)
  let (sender, recipient) ← route principal input request
  let db ← get
  match db.messages.byKey input.idempotencyKey with
  | some existing => do
      Txn.throwIf (existing.matches input request sender recipient = false)
        (conflictError "Message idempotency key conflicts")
      if existing.recipientSessionId ≠ some recipient.sessionId ∧
          existing.state = .queued then
        set { db with
          messages :=
            db.messages.retarget existing.messageId recipient.sessionId }
        read existing.messageId
      else
        return existing
  | none => do
      let messages ← Txn.orThrow
        (db.messages.insert? (newMessage messageId (dates.toISOString now) input
          request sender recipient))
        (plainError "UNIQUE constraint failed: messages.message_id")
      set { db with messages := messages }
      read messageId

def announcement (m : Message) : EnqueueCommand where
  runId := m.recipientRunId.getD ""
  recipientSessionId := m.recipientSessionId.getD "null"
  idempotencyKey :=
    "message:" ++ m.messageId ++ ":" ++ m.recipientSessionId.getD "null"
  kind := "semantic_message"
  payload := some ("\x7b\"message_id\":\"" ++ m.messageId ++ "\"\x7d")
  sideEffecting := some false

def Message.attach (commandId : String) (m : Message) : Message :=
  { m with commandId := m.commandId.or (some commandId) }

def Messages.attach (messages : Messages) (id commandId : String) : Messages :=
  messages.update id (Message.attach commandId) fun _ => rfl

def attachCommand (messageId commandId : String) : MessageTxn Message := do
  modify fun db => { db with messages := db.messages.attach messageId commandId }
  read messageId

/-- `dispatched` says that the caller has a dispatcher. -/
def sendMessage (messageId commandId : String) (dispatched : Bool)
    (principal : CommandPrincipal) (input : SendMessageInput) :
    Effect MessageDb DomainError Message := do
  let message ← Effect.atomically id (fun _ db => db)
    (storeMessage dates now messageId principal input)
  if truthy message.recipientRunId && dispatched && !truthy message.commandId then
    let command ← Effect.atomically MessageDb.store
      (fun db store => { db with store := store })
      (enqueueCommand dates now commandId .coordinator (announcement message))
    Effect.atomically id (fun _ db => db)
      (attachCommand message.messageId command.commandId)
  else
    pure message

/-! ## Reading and consuming -/

def Message.addressedTo (actor : Session) (m : Message) : Bool :=
  m.recipientId = some actor.agentId && m.recipientRunId = actor.runId

def inbox (messages : Messages) (actor : Session) (includeConsumed : Bool) :
    List Message :=
  (messages.rows.filter fun m =>
      m.addressedTo actor && (includeConsumed || m.state = .queued)).mergeSort
    fun a b => a.createdAt ≤ b.createdAt

def listMessages (principal : CommandPrincipal) (includeConsumed : Bool) :
    MessageTxn (List Message) := do
  let actor ← session principal.sessionId
  Txn.throwIf (actor.agentId ≠ principal.agentId)
    (forbiddenError "Message actor does not match session")
  let db ← get
  return inbox db.messages actor includeConsumed

def Message.consume (stamp : String) (m : Message) : Message :=
  { m with state := .consumed, consumedAt := m.consumedAt.or (some stamp) }

def Messages.consume (messages : Messages) (id stamp : String) : Messages :=
  messages.update id (Message.consume stamp) fun _ => rfl

def consumeMessage (principal : CommandPrincipal) (messageId : String) :
    MessageTxn Message := do
  let actor ← session principal.sessionId
  let message ← read messageId
  Txn.throwIf
    (actor.agentId ≠ principal.agentId ∨ message.addressedTo actor = false)
    (forbiddenError "Message recipient does not match session")
  modify fun db =>
    { db with
      messages := db.messages.consume messageId (dates.toISOString now) }
  read messageId

/-! ## Any sequence of calls -/

inductive MailLabel where
  | send (now : Int) (messageId commandId : String) (dispatched : Bool)
      (principal : CommandPrincipal) (input : SendMessageInput)
  | list (principal : CommandPrincipal) (includeConsumed : Bool)
  | consume (now : Int) (principal : CommandPrincipal) (messageId : String)
  | store (db : EventsDb)

/-- `issued` are the ids that `randomUUID` has given to messages. -/
structure Mailbox where
  db : MessageDb := {}
  issued : List String := []
  deriving DecidableEq

/-- Runs, sessions and commands change as they like between two calls. -/
def mail (s : Mailbox) : MailLabel → Option Mailbox
  | .send now messageId commandId dispatched principal input =>
      if messageId ∈ s.issued then none
      else some
        { db := (sendMessage dates now messageId commandId dispatched principal
            input s.db).2
          issued := s.issued ++ [messageId] }
  | .list principal includeConsumed =>
      some { s with db := (listMessages principal includeConsumed).commit s.db }
  | .consume now principal messageId =>
      some { s with
        db := (consumeMessage dates now principal messageId).commit s.db }
  | .store db =>
      some { s with
        db := { store := db, messages := s.db.messages.restrict db } }

structure Posted (s : Mailbox) : Prop where
  keys : (s.db.messages.rows.map Message.idempotencyKey).Nodup
  issued : ∀ m ∈ s.db.messages, m.messageId ∈ s.issued
  stamped : ∀ m ∈ s.db.messages, m.state = .consumed → m.consumedAt ≠ none

def mailbox : System Mailbox MailLabel where
  initial := Posted
  step := mail dates

end OrcState.Messaging
