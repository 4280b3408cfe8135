import OrcState.Contract.Types

/-!
# Events and their validation

`validateEventObject` is the schema check followed by the payload contract of
each event kind.  It returns the list of complaints, empty for a valid event;
every append to the event log goes through it.
-/

namespace OrcState.Contract

/-! ## Event records -/

inductive EventName where
  | claimCreated | claimRenewed | claimExpired | claimReleased
  | taskEnvelopeSent | runStarted | reviewSubmitted | workComplete
  | finalizeRebaseStarted | readyToMerge | phaseStarted | phaseFinished
  | runFinished | runFailed | runCancelled
  | commandQueued | commandDispatching | commandSendStarted | commandSent
  | commandAccepted | commandRunning | commandCompleted | commandFailed
  | commandCancelled | commandOutcomeUnknown
  | blocked | unblocked | needInput | inputProvided | inputRequested
  | inputResponse | heartbeat | agentRegistered | agentOnline
  | reportedForDuty | agentOffline | agentMarkedDead | sessionStartFailed
  | sessionReconciled | sessionStarted | taskAdded | taskUpdated
  | taskCancelled | taskReleased | taskDelegated | taskDispatchBlocked
  | coordinatorStarted | coordinatorStopped | workerNeedsAttention
  | remediationApplied
  deriving DecidableEq, Repr

inductive ActorType where
  | agent | coordinator | human
  deriving DecidableEq, Repr

/-- A payload value; `other` is an array, an object or a fractional number. -/
inductive PayloadValue where
  | null
  | bool (b : Bool)
  | num (n : Int)
  | str (s : String)
  | other
  deriving DecidableEq, Repr

abbrev Payload := List (String × PayloadValue)

structure OrcEvent where
  seq : Nat := 1
  ts : String
  event : EventName
  actorType : ActorType
  actorId : String
  runId : Option RunId := none
  taskRef : Option TaskRef := none
  agentId : Option AgentId := none
  payload : Payload := []
  deriving DecidableEq, Repr

def OrcEvent.field (event : OrcEvent) (key : String) : Option PayloadValue :=
  (event.payload.find? fun entry => entry.1 = key).map (·.2)

/-! ## Identifier patterns -/

def alnum (c : Char) : Bool :=
  ('a' ≤ c && c ≤ 'z') || ('0' ≤ c && c ≤ '9')

def idChar (c : Char) : Bool := alnum c || c = '-'

/-- `AGENT_ID_RE`: `^[a-z0-9][a-z0-9-]*$`. -/
def agentIdRe (s : String) : Bool :=
  match s.toList with
  | [] => false
  | c :: rest => alnum c && rest.all idChar

/-- `TASK_REF_RE`: `^[a-z0-9-]+\/[a-z0-9-]+$`. -/
def taskRefRe (s : String) : Bool :=
  match s.toList.dropWhile idChar with
  | '/' :: rest => s.toList.takeWhile idChar ≠ [] && rest ≠ [] && rest.all idChar
  | _ => false

/-- The schema's pattern of a run id: `^run-[a-z0-9-]+$`. -/
def runIdRe (s : String) : Bool :=
  match s.toList with
  | 'r' :: 'u' :: 'n' :: '-' :: rest => rest ≠ [] && rest.all idChar
  | _ => false

theorem truthy_of_runIdRe {id : RunId} (h : runIdRe id = true) :
    truthy (some id) = true := by
  cases hid : decide (id = "") with
  | true =>
      rw [of_decide_eq_true hid] at h
      cases h
  | false => simp [truthy, of_decide_eq_false hid]

/-! ## Schema check -/

def complainIf (c : Bool) (message : String) : List String :=
  if c then [message] else []

theorem complainIf_eq_nil {c : Bool} {message : String} :
    complainIf c message = [] ↔ c = false := by
  cases c <;> simp [complainIf]

-- A typed record can break only these properties of `event.schema.json`.
def validateSchema (dates : DateApi) (event : OrcEvent) : List String :=
  complainIf (event.seq < 1) "/seq must be >= 1" ++
  complainIf (!dates.isDateTime event.ts)
    "/ts must match format \"date-time\"" ++
  complainIf (event.runId.any fun id => !runIdRe id)
    "/run_id must match pattern \"^run-[a-z0-9-]+$\"" ++
  complainIf (event.taskRef.any fun ref => !taskRefRe ref)
    "/task_ref must match pattern \"^[a-z0-9-]+/[a-z0-9-]+$\"" ++
  complainIf (event.agentId.any fun id => !agentIdRe id)
    "/agent_id must match pattern \"^[a-z0-9][a-z0-9-]*$\""

/-! ## Payload contracts -/

def requireTaskRef (event : OrcEvent) : List String :=
  complainIf (!event.taskRef.any taskRefRe)
    "task_ref is required and must match feature/task format"

def requireRunId (event : OrcEvent) : List String :=
  complainIf (!truthy event.runId) "run_id is required"

def requireAgentId (event : OrcEvent) : List String :=
  complainIf (!event.agentId.any agentIdRe)
    "agent_id is required and must be a valid agent_id"

def requirePayloadField (event : OrcEvent) (key : String)
    (validator : Option PayloadValue → Bool) (description : String) :
    List String :=
  complainIf (!validator (event.field key))
    ("payload." ++ key ++ " " ++ description)

def isNonEmptyString : Option PayloadValue → Bool
  | some (.str s) => s ≠ ""
  | _ => false

def isNonNegativeInteger : Option PayloadValue → Bool
  | some (.num n) => 0 ≤ n
  | _ => false

def isOneOf (values : List String) : Option PayloadValue → Bool
  | some (.str s) => values.contains s
  | _ => false

def isString : Option PayloadValue → Bool
  | some (.str _) => true
  | _ => false

def requireNonEmptyString (event : OrcEvent) (key : String) : List String :=
  requirePayloadField event key isNonEmptyString "must be a non-empty string"

def requireNonNegativeInteger (event : OrcEvent) (key : String) :
    List String :=
  requirePayloadField event key isNonNegativeInteger
    "must be a non-negative integer"

def commandEvents : List EventName :=
  [.commandQueued, .commandDispatching, .commandSendStarted, .commandSent,
   .commandAccepted, .commandRunning, .commandCompleted, .commandFailed,
   .commandCancelled, .commandOutcomeUnknown]

def taskEvents : List EventName :=
  [.taskAdded, .taskUpdated, .taskCancelled, .taskReleased, .taskDelegated,
   .taskDispatchBlocked]

def workerRunEvents : List EventName :=
  [.claimCreated, .taskEnvelopeSent, .runStarted, .workComplete,
   .finalizeRebaseStarted, .readyToMerge, .runFinished, .runFailed,
   .runCancelled, .phaseStarted, .phaseFinished, .blocked, .unblocked,
   .needInput, .inputProvided, .workerNeedsAttention, .remediationApplied]
  ++ commandEvents

def runLifecycleEvents : List EventName :=
  [.claimRenewed, .claimExpired, .claimReleased, .inputRequested,
   .inputResponse] ++ workerRunEvents

def agentEvents : List EventName :=
  [.agentRegistered, .agentOnline, .reportedForDuty, .agentOffline,
   .agentMarkedDead, .sessionStartFailed, .sessionReconciled]

def finalizationStatusByEvent : EventName → Option String
  | .workComplete => some "awaiting_finalize"
  | .finalizeRebaseStarted => some "finalize_rebase_in_progress"
  | .readyToMerge => some "ready_to_merge"
  | _ => none

def validatePayload (dates : DateApi) (event : OrcEvent) : List String :=
  match event.event with
  | .sessionReconciled =>
      requireNonEmptyString event "session_id" ++
      requireNonEmptyString event "state"
  | .inputRequested =>
      requireNonEmptyString event "question" ++
      complainIf ((event.field "request_id").isSome &&
          !isString (event.field "request_id"))
        "payload.request_id must be a string when present"
  | .inputResponse =>
      requireNonEmptyString event "response" ++
      complainIf ((event.field "request_id").isSome &&
          !isString (event.field "request_id") &&
          event.field "request_id" ≠ some .null)
        "payload.request_id must be a string or null when present"
  | .reportedForDuty => requireNonEmptyString event "session_token"
  | .heartbeat =>
      complainIf (!event.agentId.any agentIdRe && event.runId.isNone)
        "heartbeat requires agent_id or run_id"
  | .claimCreated | .claimRenewed =>
      requirePayloadField event "lease_expires_at"
        (fun v => match v with
          | some (.str s) => (dates.parse s).isSome
          | _ => false)
        "must be an ISO date-time string"
  | .claimExpired | .runFailed =>
      requirePayloadField event "policy" (isOneOf ["requeue", "block"])
        "must be requeue or block"
  | .taskUpdated => requireNonEmptyString event "status"
  | .agentMarkedDead => requireNonNegativeInteger event "elapsed_ms"
  | .sessionStartFailed =>
      requireRunId event ++ requireTaskRef event ++
      requireNonEmptyString event "reason"
  | .sessionStarted =>
      requireNonEmptyString event "session_id" ++
      requireNonNegativeInteger event "reset_tasks" ++
      requireNonNegativeInteger event "reset_claims" ++
      requireNonNegativeInteger event "reset_agents"
  | .workerNeedsAttention =>
      requirePayloadField event "reason" (isOneOf ["stale"])
        "must be \"stale\"" ++
      requireNonNegativeInteger event "idle_ms"
  | .remediationApplied =>
      requireNonEmptyString event "policy_id" ++
      requireNonEmptyString event "action" ++
      requireNonEmptyString event "message"
  | .workComplete | .finalizeRebaseStarted | .readyToMerge =>
      requirePayloadField event "status"
        (isOneOf (finalizationStatusByEvent event.event).toList)
        ("must be one of: " ++
          (finalizationStatusByEvent event.event).getD "") ++
      complainIf ((event.field "retry_count").isSome &&
          !isNonNegativeInteger (event.field "retry_count"))
        "payload.retry_count must be a non-negative integer"
  | _ => []

def validateCoreEventInvariants (dates : DateApi) (event : OrcEvent) :
    List String :=
  (if taskEvents.contains event.event then requireTaskRef event else []) ++
  (if runLifecycleEvents.contains event.event then requireRunId event
    else []) ++
  (if workerRunEvents.contains event.event then
    requireTaskRef event ++ requireAgentId event else []) ++
  (if commandEvents.contains event.event then
    requireNonEmptyString event "command_id" ++
    requireNonEmptyString event "state" else []) ++
  (if [EventName.inputRequested, .inputResponse].contains event.event then
    requireRunId event ++ requireAgentId event else []) ++
  (if agentEvents.contains event.event then requireAgentId event else []) ++
  validatePayload dates event

def validateEventObject (dates : DateApi) (event : OrcEvent) : List String :=
  validateSchema dates event ++ validateCoreEventInvariants dates event

end OrcState.Contract
