import OrcState.Lifecycle.ClaimManager

/-!
# Master and operator mutations

Cancel, reset, unblock, delegate, force-expire and mark done.  The registry of
agents and the routing rules that delegation consults are a parameter: no result
here depends on whom they pick.
-/

namespace OrcState.Lifecycle

open OrcState.Contract OrcState.Foundation OrcState.Store

structure Registry where
  agents : List AgentId
  /-- `evaluateTaskEligibility(…).reasons`, empty when eligible. -/
  reasons : Task → AgentId → List String
  formatRoutingReasons : List String → List String
  selectAutoTarget : Task → TaskType → List Claim → Option AgentId

variable (dates : DateApi) (registry : Registry)

/-! ## Checks shared by the operations -/

def requireActor (actorId : AgentId) (message : String) : Op Unit :=
  Effect.throwIf (agentIdRe actorId = false) (inputError message)

def invalidActor (actorId : AgentId) : String :=
  "Invalid actor-id: " ++ actorId ++ ". Must match ^[a-z0-9][a-z0-9-]*$."

def requireRegistered (actorId : AgentId) : Op Unit :=
  Effect.throwIf (actorId ≠ "human" ∧ actorId ∉ registry.agents)
    (notFoundError ("Actor agent not found: " ++ actorId ++
      ". Registered agents: " ++
      (if registry.agents = [] then "(none)"
      else ", ".intercalate registry.agents)))

def requireTask (s : Project) (ref : TaskRef) (label : String) : Op Task :=
  Effect.orThrow (findTask s.backlog ref) (notFoundError (label ++ ref))

def taskEvent (ts : String) (event : EventName) (actorId : AgentId)
    (ref : TaskRef) (payload : Payload) : OrcEvent where
  ts := ts
  event := event
  actorType := actorTypeOf actorId
  actorId := actorId
  taskRef := some ref
  payload := payload

def activeClaimsFor (s : Project) (ref : TaskRef) : List Claim :=
  s.claims.filter fun c => c.taskRef = ref && c.active

/-! ## delegateTask -/

def TaskType.text : TaskType → String
  | .implementation => "implementation"
  | .refactor => "refactor"

structure DelegateArgs where
  taskRef : TaskRef
  targetAgentId : Option AgentId := none
  taskType : TaskType := .implementation
  note : Option String := none
  actorId : AgentId
  deriving DecidableEq, Repr

/-- The named target when it may take the task, else the planner's choice. -/
def assignTarget (s : Project) (task : Task) (args : DelegateArgs) :
    Except DomainError (Option AgentId) :=
  if truthy args.targetAgentId then
    let target := args.targetAgentId.getD ""
    if target ∉ registry.agents then
      .error (notFoundError ("Target agent not found: " ++ target))
    else
      match s.claims.find? fun c => c.agentId = target && c.active with
      | some active =>
          .error (conflictError ("Target agent " ++ target ++
            " already has active run " ++ active.runId))
      | none =>
          let reasons :=
            registry.reasons { task with taskType := args.taskType } target
          if reasons ≠ [] then
            .error (conflictError ("Target agent " ++ target ++
              " cannot execute task: " ++ ", ".intercalate reasons ++ " (" ++
              "; ".intercalate (registry.formatRoutingReasons reasons) ++ ")"))
          else .ok (some target)
  else .ok (registry.selectAutoTarget task args.taskType s.claims)

def delegatedTask (args : DelegateArgs) (target : Option AgentId)
    (task : Task) : Task :=
  { task with
    taskType := args.taskType
    planningState := some .readyForDispatch
    delegatedBy := some args.actorId
    owner := if truthy target then target else none
    status := if task.status = .blocked then .todo else task.status }

def commitDelegation (args : DelegateArgs) (task : Task)
    (target : Option AgentId) (now : String) (s : Project) : Op Unit := do
  onTasks (commitBacklog
    (mutateTask s.backlog args.taskRef (delegatedTask args target))
    (if task.status = .blocked then
      [(args.taskRef, { cause := .unblock, actorId := some args.actorId })]
    else [])
    now)
  onEvents (appendSequencedEvent dates
    { taskEvent now .taskDelegated args.actorId args.taskRef
        [("target_agent_id", nullable target),
          ("task_type", .str (TaskType.text args.taskType)),
          ("note", nullable args.note), ("feature_ref", .str task.featureRef),
          ("auto_assigned", .bool (!truthy args.targetAgentId))] with
      agentId := target.filter fun a => a ≠ "" })

def delegateTask (args : DelegateArgs) (now : String) :
    Op (Option AgentId) := do
  Effect.throwIf (args.taskRef = "") (inputError "task_ref is required")
  requireActor args.actorId (invalidActor args.actorId)
  requireRegistered registry args.actorId
  let s ← Effect.read
  let task ← requireTask s args.taskRef "Task not found: "
  let target ← Effect.ofExcept (assignTarget registry s task args)
  commitDelegation dates args task target now s
  pure target

/-! ## cancelTask -/

inductive CancelResult where
  | alreadyTerminal (status : TaskStatus)
  | cancelled (runs : List RunId)
  deriving DecidableEq, Repr

def cancelClaims (ref : TaskRef) (reason : Option String) (actorId : AgentId)
    (now : String) (s : Project) : Op Unit :=
  if activeClaimsFor s ref = [] then pure ()
  else
    onEvents (commitClaims dates
      (s.claims.filter fun c => !(c.taskRef = ref && c.active))
      ((activeClaimsFor s ref).map fun removed =>
        runEvent now .runCancelled (actorTypeOf actorId) actorId removed
          [("reason", nullable reason)]))

def cancelledEvent (ref : TaskRef) (reason : Option String) (actorId : AgentId)
    (now : String) (runs : List Claim) : OrcEvent :=
  { taskEvent now .taskCancelled actorId ref
      [("reason", nullable reason), ("had_active_run", .bool (runs ≠ []))] with
    runId := runs.head?.map Claim.runId
    agentId := runs.head?.map Claim.agentId }

def commitCancel (ref : TaskRef) (reason : Option String) (actorId : AgentId)
    (now : String) (s : Project) : Op Unit := do
  cancelClaims dates ref reason actorId now s
  onTasks (commitBacklog
    (mutateTask s.backlog ref fun task =>
      { task with status := .cancelled, blockedReason := none })
    [(ref, { cause := .cancel, actorId := some actorId, reason := reason })]
    now)
  onEvents (appendSequencedEvent dates
    (cancelledEvent ref reason actorId now (activeClaimsFor s ref)))

def cancelTask (ref : TaskRef) (reason : Option String) (actorId : AgentId)
    (now : String) : Op CancelResult := do
  Effect.throwIf (ref = "") (inputError "task_ref is required")
  requireActor actorId (invalidActor actorId)
  requireRegistered registry actorId
  let s ← Effect.read
  let task ← requireTask s ref "Task not found: "
  if task.status.terminal then pure (.alreadyTerminal task.status) else do
    commitCancel dates ref reason actorId now s
    pure (.cancelled ((activeClaimsFor s ref).map Claim.runId))

/-! ## resetTask -/

def resetClaim (now : String) (claim : Claim) : Claim :=
  { claim with
    state := .failed
    failureReason := some "manual_reset"
    finishedAt := some now }

def resetEntry (task : Task) : Task :=
  { task with
    status := .todo, blockedReason := none, requeueEligibleAfter := none }

def resetTask (ref : TaskRef) (actorId : AgentId) (now : String) :
    Op TaskStatus := do
  Effect.throwIf (ref = "") (inputError "task_ref is required")
  requireActor actorId ("Invalid actor_id: " ++ actorId)
  let s ← Effect.read
  let task ← requireTask s ref "task not found: "
  commitBoth dates
    (mutateClaims s.claims (fun c => c.taskRef = ref && c.active)
      (resetClaim now))
    (taskEvent now .taskUpdated actorId ref
        [("reset", .bool true), ("previous_status", .str task.status.text),
          ("status", .str "todo")] ::
      (activeClaimsFor s ref).map fun claim =>
        runEvent now .runCancelled (actorTypeOf actorId) actorId claim
          [("reason", .str "manual_reset")])
    (mutateTask s.backlog ref resetEntry)
    (if task.status = .todo then []
    else [(ref, { cause := .operatorReset, actorId := some actorId })]) now
  pure task.status

/-! ## unblockTask -/

def unblockTask (ref : TaskRef) (reason : Option String) (actorId : AgentId)
    (now : String) : Op Unit := do
  Effect.throwIf (ref = "") (inputError "task_ref is required")
  requireActor actorId ("Invalid actor_id: " ++ actorId)
  let s ← Effect.read
  let task ← requireTask s ref "task not found: "
  Effect.throwIf (task.status ≠ .blocked)
    (conflictError ("task is not blocked (status: " ++ task.status.text ++
      "): " ++ ref))
  onTasks (commitBacklog
    (mutateTask s.backlog ref fun task =>
      { task with status := .todo, blockedReason := none })
    [(ref, { cause := .unblock, actorId := some actorId, reason := reason })]
    now)
  onEvents (appendSequencedEvent dates
    (taskEvent now .taskUpdated actorId ref
      ([("status", .str "todo"), ("previous_status", .str "blocked"),
        ("unblocked", .bool true)] ++
        (if truthy reason then optionalEntry "reason" reason else []))))

/-! ## expireRun -/

def expireRunClaim (now : String) (claim : Claim) : Claim :=
  clearFinalization
    { claim with
      state := .failed
      failureReason := some "manual_expire"
      finishedAt := some now }

def expireRun (runId : RunId) (actorId : AgentId) (now : String) :
    Op Unit := do
  Effect.throwIf (runId = "") (inputError "run_id is required")
  let s ← Effect.read
  let claim ← Effect.orThrow (s.findClaim runId)
    (notFoundError ("run not found: " ++ runId))
  Effect.throwIf (claim.active = false)
    (conflictError ("run is already terminal (state: " ++ claim.state.text ++
      "): " ++ runId))
  let task ← Effect.orThrow (findTask s.backlog claim.taskRef)
    (notFoundError ("task not found for run: " ++ claim.taskRef))
  Effect.throwIf (task.status.terminal = true)
    (conflictError ("task is already terminal (status: " ++ task.status.text ++
      "): " ++ claim.taskRef))
  commitBoth dates (mutateClaim s.claims runId (expireRunClaim now))
    [runEvent now .claimExpired (actorTypeOf actorId) actorId claim
      [("reason", .str "manual_expire"), ("policy", .str "requeue")]]
    (mutateTask s.backlog claim.taskRef fun task =>
      { task with status := .todo })
    [(claim.taskRef,
      { cause := .failureRequeue, runId := some runId, actorId := some actorId
        reason := some "manual_expire" })] now

/-! ## markTaskDoneRuntimeOnly -/

def nonCompletable : TaskStatus → Bool
  | .blocked | .released | .cancelled => true
  | _ => false

def completeTask (ref : TaskRef) (task : Task) (actorId : AgentId)
    (now : String) (s : Project) : Op Unit :=
  if task.status = .done then pure ()
  else
    onTasks (commitBacklog
      (mutateTask s.backlog ref fun task =>
        { task with status := .done, blockedReason := none })
      [(ref,
        { cause := .mergeSucceeded, actorId := some actorId
          runId := s.tasks.activeRunId ref })] now)

def markTaskDoneRuntimeOnly (ref : TaskRef) (actorId : AgentId)
    (now : String) : Op TaskStatus := do
  let s ← Effect.read
  let task ← requireTask s ref "task not found: "
  Effect.throwIf (nonCompletable task.status = true)
    (conflictError ("task " ++ ref ++
      " cannot transition to done from status " ++ task.status.text))
  completeTask ref task actorId now s
  onEvents (appendSequencedEvent dates
    (taskEvent now .taskUpdated actorId ref
      [("status", .str "done"), ("previous_status", .str task.status.text),
        ("fields", .other)]))
  pure task.status

end OrcState.Lifecycle
