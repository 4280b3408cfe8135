import OrcState.Contract.Agent
import OrcState.Contract.Spec
import OrcState.Lifecycle.Claims

/-!
# The watchdog

`enforceRunStartLifecycle` and `enforceInProgressLifecycle` of the coordinator,
with the remediation policies they consult.  A tick takes the claims, examines
them one at a time in two passes, and sends the nudges of a pass once the pass
is over; between any two of these steps other calls may change the project.
What the coordinator remembers of a run is lost when it restarts.
-/

namespace OrcState.Coordinator

open OrcState.Contract OrcState.Foundation OrcState.Store OrcState.Lifecycle

/-! ## Remediation policies -/

/-- `intFlag` takes positive values only. -/
structure RemediationConfig where
  maxAttempts : Nat := 3
  phaseStuckMs : Nat := 1200000
  maxNudges : Nat := 3
  maxNudges_pos : 0 < maxNudges := by decide

structure RemediationSignals where
  idleMs : Nat
  phase : Option String
  phaseChanged : Bool
  hookEvents : List (Option String)
  blockingPrompt : Option String
  sessionAlive : Bool
  attemptCount : Nat
  nudgeCount : Nat

inductive RemediationAction where
  | recordInput | nudgeTargeted | requeueNow | block
  deriving DecidableEq, Repr

def RemediationAction.text : RemediationAction → String
  | .recordInput => "record_input"
  | .nudgeTargeted => "nudge_targeted"
  | .requeueNow => "requeue_now"
  | .block => "block"

structure RemediationPolicy where
  id : String
  matched : RemediationSignals → Bool
  action : RemediationAction
  message : RemediationSignals → String

/-- `Math.round(n / d)`. -/
def roundDiv (n d : Nat) : Nat := (2 * n + d) / (2 * d)

/-- The first nudge of a phase is left to the cascade, which seeds the count. -/
def builtinPolicies (config : RemediationConfig) : List RemediationPolicy :=
  [{ id := "session_dead"
     matched s := !s.sessionAlive
     action := .requeueNow
     message _ := "worker PTY session is dead; requeueing task" },
   { id := "permission_prompt"
     matched s := s.blockingPrompt.isSome || s.hookEvents ≠ []
     action := .recordInput
     message s := (s.blockingPrompt.or (s.hookEvents.head?.join)).getD
       "permission prompt detected" },
   { id := "repeated_failure"
     matched s := 0 < s.nudgeCount && config.maxAttempts ≤ s.attemptCount
     action := .block
     message s := "task blocked after " ++ toString s.attemptCount ++
       " failed attempts" },
   { id := "phase_stuck"
     matched s := 0 < s.nudgeCount && s.nudgeCount < config.maxNudges &&
       !s.phaseChanged && config.phaseStuckMs ≤ s.idleMs
     action := .nudgeTargeted
     message s :=
       if truthy s.phase then
         "No progress in phase \"" ++ s.phase.getD "" ++ "\" for " ++
           toString (roundDiv s.idleMs 1000) ++
           "s. Check if you are blocked and need help."
       else
         "No progress detected for " ++ toString (roundDiv s.idleMs 1000) ++
           "s. Have you started exploring the task spec?" },
   { id := "excessive_nudges"
     matched s := config.maxNudges ≤ s.nudgeCount && !s.phaseChanged
     action := .requeueNow
     message s := "no progress after " ++ toString s.nudgeCount ++
       " nudges; requeueing task" }]

/-- The first policy that matches; the built-in ones never throw. -/
def evaluateRemediationPolicies (policies : List RemediationPolicy)
    (signals : RemediationSignals) : Option (RemediationPolicy × String) :=
  (policies.find? fun policy => policy.matched signals).map fun policy =>
    (policy, policy.message signals)

/-! ## Idle time -/

variable (dates : DateApi)

def runIdleMs (claim : Claim) (latestActivityTs : Option String) (now : Int) :
    Option Nat :=
  let anchor := ((latestActivityTs.or claim.lastHeartbeatAt).or
    claim.startedAt).or claim.taskEnvelopeSentAt
  if truthy anchor then
    (anchor.bind dates.parse).map fun ts => (now - ts).toNat
  else none

def claimAwaitingInput (claim : Claim) : Bool :=
  claim.inputState = some .awaitingInput

/-! ## The state of the coordinator -/

structure WatchConfig where
  runStartTimeoutMs : Nat := 600000
  runInactiveNudgeMs : Nat := 600000
  runInactiveNudgeIntervalMs : Nat := 300000
  workerStaleSoftMs : Nat := 1800000
  workerStaleNudgeMs : Nat := 3600000
  workerStaleForceFailMs : Nat := 7200000
  remediation : RemediationConfig := {}

def WatchConfig.runStartNudgeMs (cfg : WatchConfig) : Nat :=
  cfg.runStartTimeoutMs / 10

def WatchConfig.runStartNudgeIntervalMs (cfg : WatchConfig) : Nat :=
  cfg.runStartTimeoutMs / 5

structure Memory where
  runStartNudgeAtMs : RunId → Option Int := fun _ => none
  runInactiveNudgeAtMs : RunId → Option Int := fun _ => none
  runNudgeCount : RunId → Option Nat := fun _ => none
  runLastPhase : RunId → Option String := fun _ => none

def Memory.count (m : Memory) (runId : RunId) : Nat :=
  (m.runNudgeCount runId).getD 0

def Memory.forgetStart (runId : RunId) (m : Memory) : Memory :=
  { m with
    runStartNudgeAtMs := Function.update m.runStartNudgeAtMs runId none }

def Memory.forgetNudge (runId : RunId) (m : Memory) : Memory :=
  { m with
    runInactiveNudgeAtMs := Function.update m.runInactiveNudgeAtMs runId none }

def Memory.forgetRun (runId : RunId) (m : Memory) : Memory :=
  { m.forgetNudge runId with
    runNudgeCount := Function.update m.runNudgeCount runId none
    runLastPhase := Function.update m.runLastPhase runId none }

def Memory.nudgedAt (runId : RunId) (now : Int) (m : Memory) : Memory :=
  { m with
    runInactiveNudgeAtMs :=
      Function.update m.runInactiveNudgeAtMs runId (some now) }

def Memory.countNudge (runId : RunId) (now : Int) (m : Memory) : Memory :=
  { m.nudgedAt runId now with
    runNudgeCount :=
      Function.update m.runNudgeCount runId (some (m.count runId + 1)) }

def Memory.phaseChanged (m : Memory) (runId : RunId) (phase : Option String) :
    Bool :=
  phase.isSome && (m.runLastPhase runId).isSome &&
    phase ≠ m.runLastPhase runId

def Memory.seePhase (runId : RunId) (phase : Option String) (m : Memory) :
    Memory :=
  { m with
    runLastPhase :=
      if phase.isSome then Function.update m.runLastPhase runId phase
      else m.runLastPhase
    runNudgeCount :=
      if m.phaseChanged runId phase then
        Function.update m.runNudgeCount runId (some 0)
      else m.runNudgeCount }

inductive NudgeKind where
  | runStart
  | inProgress (idleMs : Nat) (phase : Option String)
  deriving DecidableEq, Repr

/-- A thunk of `nudgeWork`: the claim is the copy it closed over. -/
structure Nudge where
  claim : Claim
  kind : NudgeKind
  deriving DecidableEq, Repr

/-- What happened, in order; no step reads it. -/
inductive Entry where
  | examined (runId : RunId)
  | nudged (runId : RunId)
  | phaseChanged (runId : RunId)
  | aborted
  | restarted
  deriving DecidableEq, Repr

inductive WatchStage where
  | resting | starting | running
  deriving DecidableEq, Repr

structure Watch where
  project : Project := {}
  memory : Memory := {}
  stage : WatchStage := .resting
  now : Int := 0
  agents : List Agent := []
  attempts : TaskRef → Nat := fun _ => 0
  claims : List Claim := []
  todo : List Claim := []
  work : List Nudge := []
  journal : List Entry := []

structure Sight where
  hookEvents : List (Option String) := []
  activity : Option String := none
  phase : Option String := none
  alive : Except DomainError Bool := .ok true
  prompt : Option String := none
  delivered : Except DomainError Unit := .ok ()
  rebaseSent : Bool := true
  cleanup : Except DomainError Unit := .ok ()
  clock : Int := 0

abbrev Patrol (α : Type) := Effect Watch DomainError α

def onProject {α : Type} (x : Op α) : Patrol α := fun w =>
  ((x w.project).1, { w with project := (x w.project).2 })

def remember (f : Memory → Memory) : Patrol Unit := fun w =>
  (.ok (), { w with memory := f w.memory })

def record (entry : Entry) : Patrol Unit := fun w =>
  (.ok (), { w with journal := w.journal ++ [entry] })

def queueNudge (nudge : Nudge) : Patrol Unit := fun w =>
  (.ok (), { w with work := w.work ++ [nudge] })

/-! ## What both passes do to a run -/

def emit (clock : Int) (event : EventName) (claim : Claim)
    (payload : Payload) : Op Unit :=
  onEvents (appendSequencedEvent dates
    (runEvent (dates.toISOString clock) event .coordinator "coordinator" claim
      payload))

def failRun (claim : Claim) (reason code policy : String) (clock : Int) :
    Op Unit :=
  finishRun dates claim.runId claim.agentId
    { success := false, failureReason := some reason, failureCode := some code
      policy := policy, time := dates.toISOString clock }
    (dates.toISOString clock)

def failThen (claim : Claim) (reason code policy : String) (sight : Sight)
    (forget : Memory → Memory) : Patrol Unit := do
  onProject (failRun dates claim reason code policy sight.clock)
  Effect.ofExcept sight.cleanup
  remember forget

def liveAgent (agents : List Agent) (agentId : AgentId) : Option Agent :=
  (byAgent agents agentId).filter fun agent =>
    truthy agent.sessionHandle && agent.status ≠ .offline

def detectBlockingPromptQuestion (prompt : Option String) : Option String :=
  (prompt.map fun text => jsTrim text.toList).filter fun text => text ≠ ""

def recordCoordinatorInputRequest (claim : Claim) (question reason : String)
    (clock : Int) : Op Unit := fun s =>
  match setRunInputState dates claim.runId claim.agentId (some .awaitingInput)
      (some (dates.toISOString clock)) (dates.toISOString clock) s with
  | (.error _, t) => (.ok (), t)
  | (.ok _, t) =>
      emit dates clock .inputRequested claim
        [("question", .str question), ("reason", .str reason)] t

/-! ## The start of a run -/

variable (cfg : WatchConfig)

def examineClaimed (claim : Claim) (sight : Sight) : Patrol Unit := do
  let w ← Effect.read
  if claim.state ≠ .claimed ∨ claimAwaitingInput claim = true ∨
      truthy claim.taskEnvelopeSentAt = false then
    remember (Memory.forgetStart claim.runId)
  else match claim.taskEnvelopeSentAt.bind dates.parse with
  | none => pure ()
  | some sentAt =>
      if (cfg.runStartTimeoutMs : Int) ≤ w.now - sentAt then
        failThen dates claim
          "run_started timeout: worker did not acknowledge start in time"
          "ERR_RUN_START_TIMEOUT" "requeue" sight
          (Memory.forgetStart claim.runId)
      else if w.now - sentAt < cfg.runStartNudgeMs ∨
          w.now - (w.memory.runStartNudgeAtMs claim.runId).getD 0 <
            cfg.runStartNudgeIntervalMs ∨
          liveAgent w.agents claim.agentId = none then pure ()
      else match detectBlockingPromptQuestion sight.prompt with
      | some question => do
          onProject (recordCoordinatorInputRequest dates claim question
            "provider_interactive_prompt" sight.clock)
          remember (Memory.forgetStart claim.runId)
      | none => queueNudge { claim := claim, kind := .runStart }

/-! ## A run in progress -/

def executeRemediation (policy : RemediationPolicy) (message : String)
    (claim : Claim) (agent : Agent) (sight : Sight) : Patrol Unit := do
  let applied := onProject (emit dates sight.clock .remediationApplied claim
    [("policy_id", .str policy.id), ("action", .str policy.action.text),
     ("message", .str message)])
  match policy.action with
  | .recordInput => do
      onProject (recordCoordinatorInputRequest dates claim message
        ("remediation_policy:" ++ policy.id) sight.clock)
      applied
  | .nudgeTargeted => do
      if truthy agent.sessionHandle ∧ agent.status ≠ .offline then do
        Effect.ofExcept sight.delivered
        record (.nudged claim.runId)
        remember (Memory.countNudge claim.runId sight.clock)
      applied
  | .requeueNow | .block => do
      let block := policy.action = .block
      failThen dates claim ("remediation[" ++ policy.id ++ "]: " ++ message)
        (if block then "ERR_REMEDIATION_BLOCK" else "ERR_REMEDIATION_REQUEUE")
        (if block then "block" else "requeue") sight
        (Memory.forgetRun claim.runId)
      applied

/-- A refused update ends the request; the cleanup follows an accepted one. -/
def markFinalizeBlocked (claim : Claim) (reason : String) (sight : Sight) :
    Patrol Unit := fun w =>
  match setRunFinalizationState dates claim.runId claim.agentId
      { finalizationState := some .blockedFinalize
        blockedReason := some reason } w.project with
  | (.error _, p) => (.ok (), { w with project := p })
  | (.ok _, p) => (sight.cleanup, { w with project := p })

/-- `requestFinalizeRebase`, on the latest claim. -/
def requestRebaseAgain (claim : Claim) (reason : String) (sight : Sight) :
    Patrol Unit := fun w =>
  let latest := (w.project.findClaim claim.runId).getD claim
  let ask (delta : Int) := setRunFinalizationState dates latest.runId
    latest.agentId { finalizationState := some .finalizeRebaseRequested
                     retryCountDelta := delta }
  if 2 ≤ latest.finalizationRetryCount then
    markFinalizeBlocked dates latest reason sight w
  else match ask 0 w.project with
  | (.error _, p) => (.ok (), { w with project := p })
  | (.ok updated, p) =>
      if sight.rebaseSent then (.ok (), { w with project := (ask 1 p).2 })
      else if latest.finalizationState =
          some FinalizationState.finalizeRebaseRequested then
        markFinalizeBlocked dates updated
          (reason ++ "; finalize request could not be delivered twice") sight
          { w with project := p }
      else (.ok (), { w with project := p })

def handleFinalizationRetry (claim : Claim) (idleMs : Nat) (sight : Sight) :
    Patrol Unit := do
  let w ← Effect.read
  if idleMs < cfg.runInactiveNudgeMs ∨
      w.now - (w.memory.runInactiveNudgeAtMs claim.runId).getD 0 <
        cfg.runInactiveNudgeIntervalMs then pure ()
  else match liveAgent w.agents claim.agentId with
  | none => do
      markFinalizeBlocked dates claim
        "live agent session unavailable during finalization retry" sight
      remember (Memory.forgetNudge claim.runId)
  | some _ =>
      match detectBlockingPromptQuestion sight.prompt with
      | some question => do
          onProject (recordCoordinatorInputRequest dates claim question
            "provider_interactive_prompt" sight.clock)
          remember (Memory.forgetNudge claim.runId)
      | none => do
          requestRebaseAgain dates claim
            "finalization retry timed out waiting for worker progress" sight
          remember (Memory.nudgedAt claim.runId w.now)

def setEscalationNotified (runId : RunId) (now : String) : Op Claim :=
  updateClaim dates runId (fun _ => .ok ())
    (fun claim => { claim with escalationNotifiedAt := some now }) (fun _ => [])

def raiseStale (claim : Claim) (idleMs : Nat) (sight : Sight) : Patrol Unit :=
  if truthy claim.escalationNotifiedAt = false ∧
      cfg.workerStaleSoftMs ≤ idleMs then do
    onProject (emit dates sight.clock .workerNeedsAttention claim
      [("reason", .str "stale"), ("idle_ms", .num idleMs)])
    onProject (do
      let _ ← setEscalationNotified dates claim.runId
        (dates.toISOString sight.clock)
      pure ())
  else pure ()

def nudgeStale (claim : Claim) (idleMs : Nat) (sight : Sight) :
    Patrol Unit := do
  let w ← Effect.read
  if cfg.workerStaleNudgeMs ≤ idleMs ∧
      (liveAgent w.agents claim.agentId).isSome = true ∧
      (w.memory.runInactiveNudgeAtMs claim.runId).all (fun last =>
        (cfg.runInactiveNudgeIntervalMs : Int) ≤ w.now - last) = true then
    queueNudge { claim := claim, kind := .inProgress idleMs sight.phase }
  else pure ()

def cascade (claim : Claim) (idleMs : Nat) (sight : Sight) : Patrol Unit :=
  if cfg.workerStaleForceFailMs ≤ idleMs then
    failThen dates claim
      ("force-failed after " ++ toString (roundDiv idleMs 60000) ++
        "min of inactivity") "ERR_STALE_WORKER" "requeue" sight
      (Memory.forgetRun claim.runId)
  else do
    raiseStale dates cfg claim idleMs sight
    nudgeStale cfg claim idleMs sight

/-- Whether the session answers; an agent without one is not asked. -/
def probe (agent : Agent) (sight : Sight) : Except DomainError Bool :=
  if truthy agent.sessionHandle ∧ agent.status ≠ .offline then sight.alive
  else .ok false

def signalsOf (w : Watch) (claim : Claim) (idleMs : Nat) (phaseChanged : Bool)
    (sessionAlive : Bool) (sight : Sight) : RemediationSignals where
  idleMs := idleMs
  phase := sight.phase
  phaseChanged := phaseChanged
  hookEvents := sight.hookEvents
  blockingPrompt :=
    if sessionAlive then detectBlockingPromptQuestion sight.prompt else none
  sessionAlive := sessionAlive
  attemptCount := w.attempts claim.taskRef
  nudgeCount := w.memory.count claim.runId

def trackPhase (runId : RunId) (phase : Option String) : Patrol Unit := fun w =>
  (.ok (),
    if w.memory.phaseChanged runId phase then
      { w with
        memory := w.memory.seePhase runId phase
        journal := w.journal ++ [.phaseChanged runId] }
    else { w with memory := w.memory.seePhase runId phase })

def remediate (claim : Claim) (idleMs : Nat) (sight : Sight) :
    Patrol Unit := do
  let before ← Effect.read
  let phaseChanged := before.memory.phaseChanged claim.runId sight.phase
  trackPhase claim.runId sight.phase
  match byAgent before.agents claim.agentId with
  | none => cascade dates cfg claim idleMs sight
  | some agent => do
      let sessionAlive ← Effect.ofExcept (probe agent sight)
      let w ← Effect.read
      match evaluateRemediationPolicies (builtinPolicies cfg.remediation)
          (signalsOf w claim idleMs phaseChanged sessionAlive sight) with
      | some (policy, message) =>
          executeRemediation dates policy message claim agent sight
      | none => cascade dates cfg claim idleMs sight

def examineRunning (claim : Claim) (sight : Sight) : Patrol Unit := do
  let w ← Effect.read
  if claim.state ≠ .inProgress then
    remember (Memory.forgetRun claim.runId)
  else match runIdleMs dates claim sight.activity w.now with
  | none => pure ()
  | some idleMs =>
      if claimAwaitingInput claim then
        remember (Memory.forgetNudge claim.runId)
      else match claim.finalizationState with
      | some .blockedFinalize | some .awaitingFinalize | some .readyToMerge
      | some .prCreated | some .prReviewInProgress | some .prMerged =>
          remember (Memory.forgetNudge claim.runId)
      | some .finalizeRebaseRequested | some .finalizeRebaseInProgress =>
          handleFinalizationRetry dates cfg claim idleMs sight
      | some .prFailed | none => remediate dates cfg claim idleMs sight

/-! ## Sending the nudges of a pass -/

def sendNudge (nudge : Nudge) (delivered : Except DomainError Unit)
    (clock : Int) : Patrol Unit := do
  let w ← Effect.read
  Effect.ofExcept delivered
  match nudge.kind with
  | .runStart => do
      onProject (emit dates clock .needInput nudge.claim
        [("reason", .str "run_start_ack_missing"),
         ("action", .str "nudge_sent")])
      remember fun m =>
        { m with
          runStartNudgeAtMs :=
            Function.update m.runStartNudgeAtMs nudge.claim.runId (some w.now) }
  | .inProgress idleMs phase => do
      record (.nudged nudge.claim.runId)
      onProject (emit dates clock .needInput nudge.claim
        [("reason", .str "run_progress_stale"), ("action", .str "nudge_sent"),
         ("idle_ms", .num idleMs), ("phase", nullable phase)])
      remember (Memory.countNudge nudge.claim.runId w.now)

/-! ## The coordinator and everyone else -/

/--
`tick` takes the claims and opens the first pass, `examine` takes the next claim
of the pass, `send` settles one thunk of its batch and `next` closes the pass.
-/
inductive WatchStep where
  | call (a : Action)
  | tick (agents : List Agent) (readable : Bool) (now : Int)
  | examine (sight : Sight)
  | send (i : Nat) (delivered : Except DomainError Unit) (clock : Int)
  | next (now : Int)
  | restart

/-- A throw out of a pass ends the tick, and the nudges it queued are lost. -/
def Watch.settle (r : Except DomainError Unit × Watch) : Watch :=
  match r with
  | (.ok _, w) => w
  | (.error _, w) =>
      { w with
        stage := .resting, todo := [], work := []
        journal := w.journal ++ [.aborted] }

/-- `buildAttemptCountLookup`; nothing when the backlog cannot be read. -/
def attemptCounts (backlog : Backlog) (readable : Bool) (ref : TaskRef) :
    Nat :=
  if readable then (findTask backlog ref).elim 0 Task.attemptCount else 0

variable (registry : Registry)

def Watch.step (w : Watch) : WatchStep → Option Watch
  | .call a => some { w with project := (perform dates registry a w.project).2 }
  | .tick agents readable now =>
      if w.stage = .resting then
        some { w with
          stage := .starting, now := now, agents := agents
          attempts := attemptCounts w.project.backlog readable
          claims := w.project.claims, todo := w.project.claims, work := [] }
      else none
  | .examine sight =>
      match w.stage, w.todo with
      | .starting, claim :: rest =>
          some (Watch.settle
            (examineClaimed dates cfg claim sight { w with todo := rest }))
      | .running, claim :: rest =>
          some (Watch.settle
            (examineRunning dates cfg claim sight
              { w with
                todo := rest
                journal := w.journal ++ [.examined claim.runId] }))
      | _, _ => none
  | .send i delivered clock =>
      match w.todo, w.work[i]? with
      | [], some nudge =>
          some (sendNudge dates nudge delivered clock
            { w with work := w.work.eraseIdx i }).2
      | _, _ => none
  | .next now =>
      match w.stage, w.todo, w.work with
      | .starting, [], [] =>
          some { w with stage := .running, now := now, todo := w.claims }
      | .running, [], [] => some { w with stage := .resting }
      | _, _, _ => none
  | .restart =>
      some { w with
        memory := {}, stage := .resting, todo := [], work := []
        journal := w.journal ++ [.restarted] }

structure Watch.Idle (w : Watch) : Prop where
  project : Fresh w.project
  memory : w.memory = {}
  stage : w.stage = .resting
  todo : w.todo = []
  work : w.work = []
  journal : w.journal = []

def watchSystem : System Watch WatchStep where
  initial := Watch.Idle
  step := Watch.step dates cfg registry

end OrcState.Coordinator
