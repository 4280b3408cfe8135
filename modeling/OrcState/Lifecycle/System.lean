import OrcState.Foundation.Transition
import OrcState.Lifecycle.ClaimState
import OrcState.Lifecycle.Leases
import OrcState.Lifecycle.Operator
import OrcState.Lifecycle.Reconcile
import OrcState.Lifecycle.WorkerLifecycle

/-!
# The project as a system

One step is one call, refused or not: a refused call steps to what it left.  The
arguments of a call, the clock and the drawn identifiers are its label.
-/

namespace OrcState.Lifecycle

open OrcState.Contract OrcState.Foundation OrcState.Store

inductive Action where
  | claimTask (ref : TaskRef) (agentId : AgentId) (leaseDurationMs : Int)
      (runId : RunId) (snapshot : Except DomainError Unit) (now : Int)
  | startRun (runId : RunId) (agentId : AgentId) (o : StartOptions)
      (now : String)
  | heartbeat (runId : RunId) (agentId : AgentId) (o : HeartbeatOptions)
  | renewLeaseOnly (runId : RunId) (leaseDurationMs now : Int)
  | finishRun (runId : RunId) (agentId : AgentId) (o : FinishOptions)
      (now : String)
  | markTaskEnvelopeSent (runId : RunId) (agentId : AgentId)
      (o : EnvelopeOptions)
  | setRunSessionStartRetryState (runId : RunId) (agentId : AgentId)
      (retryCount : Int) (nextRetryAt lastError : Option String)
  | setRunFinalizationState (runId : RunId) (agentId : AgentId)
      (u : FinalizationUpdate)
  | setRunInputState (runId : RunId) (agentId : AgentId)
      (inputState : Option InputState) (requestedAt : Option String)
      (now : String)
  | setPrRef (runId : RunId) (prRef : String)
  | setPrCreatedAt (runId : RunId) (createdAt : String)
      (initialWorkCompleteSeq : Option Nat)
  | expireStaleLeases (policy : String) (actorId : AgentId) (now : Int)
  | delegateTask (args : DelegateArgs) (now : String)
  | cancelTask (ref : TaskRef) (reason : Option String) (actorId : AgentId)
      (now : String)
  | resetTask (ref : TaskRef) (actorId : AgentId) (now : String)
  | unblockTask (ref : TaskRef) (reason : Option String) (actorId : AgentId)
      (now : String)
  | expireRun (runId : RunId) (actorId : AgentId) (now : String)
  | markTaskDoneRuntimeOnly (ref : TaskRef) (actorId : AgentId) (now : String)
  | reconcileState (now : String)
  | applyLifecycle (request : LifecycleRequest) (time : String)

variable (dates : DateApi) (registry : Registry)

def perform : Action → Op Unit
  | .claimTask ref agentId lease runId snapshot now => do
      let _ ← claimTask dates ref agentId lease runId snapshot now
      pure ()
  | .startRun runId agentId o now => startRun dates runId agentId o now
  | .heartbeat runId agentId o => do
      let _ ← heartbeat dates runId agentId o
      pure ()
  | .renewLeaseOnly runId lease now => renewLeaseOnly dates runId lease now
  | .finishRun runId agentId o now => finishRun dates runId agentId o now
  | .markTaskEnvelopeSent runId agentId o => do
      let _ ← markTaskEnvelopeSent dates runId agentId o
      pure ()
  | .setRunSessionStartRetryState runId agentId count nextRetryAt lastError => do
      let _ ← setRunSessionStartRetryState dates runId agentId count nextRetryAt
        lastError
      pure ()
  | .setRunFinalizationState runId agentId u => do
      let _ ← setRunFinalizationState dates runId agentId u
      pure ()
  | .setRunInputState runId agentId inputState requestedAt now => do
      let _ ← setRunInputState dates runId agentId inputState requestedAt now
      pure ()
  | .setPrRef runId prRef => do
      let _ ← setPrRef dates runId prRef
      pure ()
  | .setPrCreatedAt runId createdAt seq => do
      let _ ← setPrCreatedAt dates runId createdAt seq
      pure ()
  | .expireStaleLeases policy actorId now => do
      let _ ← expireStaleLeases dates policy actorId now
      pure ()
  | .delegateTask args now => do
      let _ ← delegateTask dates registry args now
      pure ()
  | .cancelTask ref reason actorId now => do
      let _ ← cancelTask dates registry ref reason actorId now
      pure ()
  | .resetTask ref actorId now => do
      let _ ← resetTask dates ref actorId now
      pure ()
  | .unblockTask ref reason actorId now =>
      unblockTask dates ref reason actorId now
  | .expireRun runId actorId now => expireRun dates runId actorId now
  | .markTaskDoneRuntimeOnly ref actorId now => do
      let _ ← markTaskDoneRuntimeOnly dates ref actorId now
      pure ()
  | .reconcileState now => reconcileState dates now
  | .applyLifecycle request time => applyLifecycle dates request time

/--
No run has ever been claimed, so no task is held by one.  Tasks are created only
under well-formed references, and the transitions leave a reason only on a
blocked task.
-/
structure Fresh (s : Project) : Prop where
  runs : s.events.runs.rows = []
  taskRuns : s.tasks.taskRuns.rows = []
  idle : ∀ task, task ∈ s.tasks.tasks → task.status.running = false
  refs : ∀ task, task ∈ s.tasks.tasks → taskRefRe task.ref = true
  tidy : ∀ task, task ∈ s.tasks.tasks → ProjectTask.Tidy task

def lifecycleSystem : System Project Action where
  initial := Fresh
  step := fun s a => some (perform dates registry a s).2

end OrcState.Lifecycle
