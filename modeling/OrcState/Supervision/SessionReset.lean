import OrcState.Lifecycle.Session
import OrcState.Supervision.Sessions

/-!
# The reset of a session and its rollback

`start-session` takes a snapshot of the backlog, the claims and the agents, and
resets all three, or only takes it when the coordinator is reused; a start that
fails writes the snapshot back.  The rollback replaces the stored claims by those
of the snapshot, but moves a task only if it finds it in the queue.  Each store
is written in transactions of its own.
-/

namespace OrcState.Supervision

open OrcState.Contract OrcState.Foundation OrcState.Store OrcState.Lifecycle

/-! ## The state of a project directory -/

structure Workspace where
  project : Project := {}
  sessions : SupervisedSessions := Table.empty
  agents : List Agent := []
  deriving DecidableEq

abbrev Work (α : Type) := Effect Workspace DomainError α

/-- Deleting a run leaves a `NULL` in its sessions. -/
def detach (sessions : SupervisedSessions) (runs : Runs) : SupervisedSessions :=
  sessions.map (SupervisedSession.setNull runs) (setNull_sessionId runs)

def Workspace.setProject (w : Workspace) (p : Project) : Workspace :=
  { w with project := p, sessions := detach w.sessions p.events.runs }

def onProject {α : Type} (x : Op α) : Work α := fun w =>
  ((x w.project).1, w.setProject (x w.project).2)

def Workspace.sessionDb (w : Workspace) : SessionDb where
  runs := w.project.events.runs
  sessions := w.sessions

def Workspace.setSessions (w : Workspace) (db : SessionDb) : Workspace :=
  { w with sessions := db.sessions }

def onSessions {α : Type} (x : SessionTxn α) : Work α :=
  Effect.atomically Workspace.sessionDb Workspace.setSessions x

def writeAgents (agents : List Agent) : Work Unit := fun w =>
  (.ok (), { w with agents := agents })

/-! ## The reset -/

def restingStatus (agent : Agent) : AgentStatus :=
  if agent.role = some .master then .offline else .idle

def resettable (agent : Agent) : Bool :=
  agent.status ≠ restingStatus agent || agent.sessionHandle.isSome ||
    agent.sessionToken.isSome || agent.sessionStartedAt.isSome ||
    agent.sessionReadyAt.isSome || agent.providerRef.isSome ||
    agent.lastHeartbeatAt.isSome

def resetAgent (now : String) (agent : Agent) : Agent :=
  if resettable agent then
    { agent with
      status := restingStatus agent
      sessionHandle := none
      sessionToken := none
      sessionStartedAt := none
      sessionReadyAt := none
      providerRef := none
      lastHeartbeatAt := none
      lastStatusChangeAt := some now }
  else agent

structure SessionStateSnapshot where
  backlog : Backlog
  agents : List Agent
  claims : List Claim
  deriving DecidableEq

structure PreparedSessionReset where
  sessionId : String
  resetTasks : Nat
  resetClaims : Nat
  resetAgents : Nat
  snapshot : SessionStateSnapshot
  deriving DecidableEq

def Workspace.snapshot (w : Workspace) : SessionStateSnapshot where
  backlog := w.project.backlog
  agents := w.agents
  claims := w.project.claims

def closeSessions (now : String) (agents : List Agent) : Work Unit :=
  agents.forM fun agent =>
    if truthy agent.sessionHandle then
      onSessions (closeProviderSessionsForAgent agent.agentId now)
    else pure ()

variable (dates : DateApi)

/-- `sessionId` is the id drawn for the session. -/
def resetVolatileRuntimeStateForSession (now sessionId : String) :
    Work PreparedSessionReset := do
  let w ← Effect.read
  let (resetTasks, resetClaims) ← onProject
    (Lifecycle.resetVolatileRuntimeStateForSession dates now)
  closeSessions now w.agents
  writeAgents (w.agents.map (resetAgent now))
  pure
    { sessionId := sessionId
      resetTasks := resetTasks
      resetClaims := resetClaims
      resetAgents := (w.agents.filter resettable).length
      snapshot := w.snapshot }

def prepareSessionReuse (sessionId : String) : Work PreparedSessionReset := do
  let w ← Effect.read
  pure
    { sessionId := sessionId
      resetTasks := 0
      resetClaims := 0
      resetAgents := 0
      snapshot := w.snapshot }

/-! ## The rollback -/

/-- The event of a claim whose stored state is not that of the snapshot. -/
def restoreEvent (current : Project) (now : String) (claim : Claim) :
    List OrcEvent :=
  if (current.findClaim claim.runId).map Claim.state = some claim.state then []
  else
    match claim.state with
    | .claimed =>
        [runEvent now .claimCreated .human "human" claim
          [("lease_expires_at", .str claim.leaseExpiresAt),
           ("reason", .str "session_reset_rollback")]]
    | .inProgress =>
        [runEvent now .runStarted .human "human" claim
          [("reason", .str "session_reset_rollback")]]
    | _ => []

def TaskRun.reactivate (runId : RunId) (now : String) (run : TaskRun) : TaskRun :=
  if run.runId = runId then { run with state := .claimed, updatedAt := now }
  else run

theorem reactivate_runId (runId : RunId) (now : String) (run : TaskRun) :
    (TaskRun.reactivate runId now run).runId = run.runId := by
  unfold TaskRun.reactivate
  split <;> rfl

def reactivateRun (runId : RunId) (now : String) : Tasks Unit := do
  let ts ← get
  Txn.throwIf (∃ run ∈ ts.taskRuns.rows, run.runId = runId ∧
      ∃ other ∈ ts.taskRuns.rows, other.runId ≠ runId ∧
        other.active = true ∧ other.taskRef = run.taskRef)
    (plainError "UNIQUE constraint failed: task_runs.task_ref")
  set { ts with
    taskRuns := ts.taskRuns.map (TaskRun.reactivate runId now)
      (reactivate_runId runId now) }

/-- The claim of the snapshot that holds the task. -/
def holder (claims : List Claim) (ref : TaskRef) : Option Claim :=
  claims.find? fun c => c.taskRef = ref && c.active

def reclaim (task : Task) (claim : Claim) (now : String) : Tasks Unit := do
  applyTransition task.ref
    { cause := .claim, toStatus := .claimed, runId := some claim.runId
      actorId := some "human", reason := some "session_reset_rollback" } now
  reactivateRun claim.runId now
  if task.status = .inProgress then
    applyTransition task.ref
      { cause := .runStart, toStatus := .inProgress, runId := some claim.runId
        actorId := some "human" } now

def restoreTask (claims : List Claim) (now : String) (task : Task) :
    Tasks Unit := do
  let ts ← get
  if task.status.running = true ∧ statusAt ts task.ref = some .todo then
    match holder claims task.ref with
    | some claim => reclaim task claim now
    | none => pure ()

/-- A task that the reset returned to the queue is claimed again by its run. -/
def restoreBacklogStatuses (backlog : Backlog) (claims : List Claim)
    (now : String) : Tasks Unit :=
  backlog.forM (restoreTask claims now)

def restoreVolatileRuntimeStateFromSnapshot (snapshot : SessionStateSnapshot)
    (now : String) : Work Unit := do
  let w ← Effect.read
  onProject (onTasks
    (restoreBacklogStatuses snapshot.backlog snapshot.claims now))
  onProject (onEvents (commitClaims dates snapshot.claims
    (snapshot.claims.flatMap (restoreEvent w.project now))))
  onSessions (restoreProviderSessionsForAgents snapshot.agents now)
  writeAgents snapshot.agents

end OrcState.Supervision
