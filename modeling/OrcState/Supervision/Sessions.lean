import OrcState.Contract.Agent
import OrcState.Foundation.Transition
import OrcState.Store.EventsDb

/-!
# Provider sessions

The rows of `sessions` in `rowid` order and the operations that write them: a
launch supersedes the agent's earlier sessions, a close ends them, a rolled-back
reset takes the latest one up again, and the supervisor stores what it decided.
The index of the schema allows one `running` row for an agent; a statement that
would break it throws, and its transaction is undone.
-/

namespace OrcState.Supervision

open OrcState.Contract OrcState.Foundation OrcState.Store

structure SupervisedSession where
  sessionId : String
  runId : Option RunId
  agentId : AgentId
  provider : String
  state : SessionState
  providerRef : Option String := none
  transport : Option String := none
  processPid : Option Nat := none
  processStart : Option String := none
  ownerId : Option String := none
  ownerExpiresAt : Option String := none
  stateReason : Option String := none
  startedAt : String
  updatedAt : String
  credentialHash : Option String := none
  deriving DecidableEq, Repr

def SupervisedSession.live (s : SupervisedSession) : Bool := s.state ≠ .offline

abbrev SupervisedSessions :=
  Table String SupervisedSession SupervisedSession.sessionId

structure SessionDb where
  runs : Runs := Table.empty
  sessions : SupervisedSessions := Table.empty
  deriving DecidableEq

abbrev SessionTxn (α : Type) := Txn SessionDb DomainError α

/-! ## The unique indexes -/

def runningAgents (sessions : SupervisedSessions) : List AgentId :=
  (sessions.rows.filter fun s => s.state = .running).map
    SupervisedSession.agentId

def credentials (sessions : SupervisedSessions) : List String :=
  sessions.rows.filterMap SupervisedSession.credentialHash

/-- `sessions_one_running_agent_idx` and `sessions_credential_idx`. -/
structure Indexed (sessions : SupervisedSessions) : Prop where
  running : (runningAgents sessions).Nodup
  credential : (credentials sessions).Nodup

def storeSessions (sessions : SupervisedSessions) : SessionTxn Unit := do
  Txn.throwIf (¬ (runningAgents sessions).Nodup)
    (plainError "UNIQUE constraint failed: sessions.agent_id")
  Txn.throwIf (¬ (credentials sessions).Nodup)
    (plainError "UNIQUE constraint failed: sessions.credential_hash")
  modify fun db => { db with sessions := sessions }

/-! ## Launch, close and restore -/

structure ProviderSession where
  sessionId : String
  runId : Option RunId
  agentId : AgentId
  provider : String
  providerRef : Option String := none
  startedAt : String
  transport : Option String := none
  processPid : Option Nat := none
  processStart : Option String := none
  ownerId : Option String := none
  ownerExpiresAt : Option String := none
  credentialHash : Option String := none
  deriving DecidableEq, Repr

def SupervisedSession.close (reason stamp : String) (s : SupervisedSession) :
    SupervisedSession :=
  { s with
    state := .offline, stateReason := some reason, updatedAt := stamp }

/-- `UPDATE … WHERE agent_id = ? AND state <> 'offline'`, but for one row. -/
def endSessions (sessions : SupervisedSessions) (agentId : AgentId)
    (except : Option String) (reason stamp : String) : SupervisedSessions :=
  sessions.map
    (fun s =>
      if s.agentId = agentId ∧ some s.sessionId ≠ except ∧ s.live = true then
        s.close reason stamp
      else s)
    fun s => by
      split <;> rfl

def ProviderSession.row (p : ProviderSession) : SupervisedSession where
  sessionId := p.sessionId
  runId := p.runId
  agentId := p.agentId
  provider := p.provider
  state := .running
  providerRef := p.providerRef
  transport := p.transport
  processPid := p.processPid
  processStart := p.processStart
  ownerId := p.ownerId
  ownerExpiresAt := p.ownerExpiresAt
  stateReason := none
  startedAt := p.startedAt
  updatedAt := p.startedAt
  credentialHash := p.credentialHash

/-- `ON CONFLICT(session_id) DO UPDATE`: its run and agent stay. -/
def ProviderSession.again (p : ProviderSession) (old : SupervisedSession) :
    SupervisedSession :=
  { old with
    state := .running
    providerRef := p.providerRef
    updatedAt := p.startedAt
    transport := p.transport
    processPid := p.processPid
    processStart := p.processStart
    ownerId := p.ownerId
    ownerExpiresAt := p.ownerExpiresAt
    stateReason := none
    credentialHash := p.credentialHash.or old.credentialHash }

def recordProviderSession (p : ProviderSession) : SessionTxn Bool := do
  Txn.throwIf (p.sessionId = p.agentId ∨ some p.sessionId = p.runId)
    (plainError "Provider session ID must differ from agent and run IDs")
  let db ← get
  if p.runId.any fun runId => (db.runs.find? runId).isNone then
    return false
  let others := endSessions db.sessions p.agentId (some p.sessionId)
    "superseded by a new session" p.startedAt
  match others.find? p.sessionId with
  | some old => storeSessions (others.upsert (p.again old))
  | none => storeSessions (others.upsert p.row)
  return true

def closeProviderSessionsForAgent (agentId : AgentId) (stamp : String) :
    SessionTxn Unit := do
  let db ← get
  storeSessions (endSessions db.sessions agentId none "session closed" stamp)

def latestSession (sessions : SupervisedSessions) (agentId : AgentId) :
    Option SupervisedSession :=
  (sessions.rows.filter fun s => s.agentId = agentId).getLast?

def SupervisedSession.reactivate (stamp : String) (s : SupervisedSession) :
    SupervisedSession :=
  { s with state := .running, updatedAt := stamp }

theorem reactivate_sessionId (stamp : String) (s : SupervisedSession) :
    (s.reactivate stamp).sessionId = s.sessionId := rfl

/-- `agent.session_handle && agent.status === 'running'`. -/
def Agent.attached (agent : Agent) : Bool :=
  truthy agent.sessionHandle && agent.status = .running

def restoreProviderSession (stamp : String) (agent : Agent) :
    SessionTxn Unit := do
  if Agent.attached agent then
    let db ← get
    match latestSession db.sessions agent.agentId with
    | some s =>
        storeSessions (db.sessions.update s.sessionId
          (SupervisedSession.reactivate stamp) fun _ => rfl)
    | none => pure ()

def restoreProviderSessionsForAgents (agents : List Agent) (stamp : String) :
    SessionTxn Unit :=
  agents.forM (restoreProviderSession stamp)

/-! ## The supervisor's decisions -/

inductive ReconcileOutcome where
  | adopted | recoverable | unknown | exited | superseded
  deriving DecidableEq, Repr

def ReconcileOutcome.text : ReconcileOutcome → String
  | .adopted => "adopted"
  | .recoverable => "recoverable"
  | .unknown => "unknown"
  | .exited => "exited"
  | .superseded => "superseded"

def sessionStateText : SessionState → String
  | .running => "running"
  | .recoverable => "recoverable"
  | .unknown => "unknown"
  | .offline => "offline"

def SESSION_OWNER_TTL_MS : Int := 120000

structure StateOptions where
  ownerId : Option String := none
  ownerTtlMs : Int := SESSION_OWNER_TTL_MS
  outcome : Option ReconcileOutcome := none
  deriving DecidableEq, Repr

def reconciledEvent (runs : Runs) (s : SupervisedSession) (state : SessionState)
    (reason : Option String) (outcome : Option ReconcileOutcome)
    (now : String) : OrcEvent where
  ts := now
  event := .sessionReconciled
  actorType := .coordinator
  actorId := "coordinator"
  agentId := some s.agentId
  runId := if truthy s.runId then s.runId else none
  taskRef := (if truthy s.runId then s.runId else none).bind fun runId =>
    (runs.find? runId).map Claim.taskRef
  payload :=
    [("session_id", .str s.sessionId),
      ("state", .str (sessionStateText state)),
      ("previous_state", .str (sessionStateText s.state)),
      ("transport", (s.transport.map PayloadValue.str).getD .null)] ++
      (outcome.toList.map fun o => ("outcome", .str o.text)) ++
      if truthy reason then reason.toList.map fun r => ("reason", .str r)
      else []

def SupervisedSession.decide (dates : DateApi) (state : SessionState)
    (reason : Option String) (options : StateOptions) (now : Int)
    (s : SupervisedSession) : SupervisedSession :=
  { s with
    state := state
    stateReason := reason
    updatedAt := dates.toISOString now
    ownerId := options.ownerId.or s.ownerId
    ownerExpiresAt :=
      if truthy options.ownerId then
        some (dates.toISOString (now + options.ownerTtlMs))
      else none }

def setSessionState (dates : DateApi) (now : Int) (sessionId : String)
    (state : SessionState) (reason : Option String) (options : StateOptions) :
    SessionTxn Bool := do
  let db ← get
  match db.sessions.find? sessionId with
  | none => return false
  | some s =>
      if s.state = state ∧ s.stateReason = reason ∧
          s.ownerId = options.ownerId.or s.ownerId then
        return false
      storeSessions (db.sessions.update sessionId
        (SupervisedSession.decide dates state reason options now) fun _ => rfl)
      let errors := validateEventObject dates
        (reconciledEvent db.runs s state reason options.outcome
          (dates.toISOString now))
      Txn.throwIf (errors ≠ [])
        (plainError ("event validation failed: " ++ "; ".intercalate errors))
      return true

/-! ## What a probe says -/

structure SessionInspection where
  alive : Bool
  writable : Bool
  pid : Option Nat
  processStart : Option String
  reason : Option String := none
  deriving DecidableEq, Repr

structure Decision where
  state : SessionState
  outcome : ReconcileOutcome
  reason : Option String
  deriving DecidableEq, Repr

def IDENTITY_MISMATCH_REASON : String :=
  "live process does not match the recorded process identity"

/--
`same` is what `isSameProcess` finds when it asks the process table about a start
that was recorded before the readings were normalised.
-/
def identityMismatch (same : Bool) (s : SupervisedSession)
    (inspection : SessionInspection) : Bool :=
  match s.processPid, s.processStart with
  | some pid, some start =>
      inspection.alive &&
        (inspection.pid ≠ some pid ||
          (inspection.processStart ≠ some start &&
            !("ps:".isPrefixOf start && same)))
  | _, _ => false

def classifySession (same : Bool) (s : SupervisedSession) :
    Option SessionInspection → Decision
  | none => ⟨.offline, .exited, some "session process exited"⟩
  | some inspection =>
      if !inspection.alive then
        ⟨.offline, .exited,
          some (inspection.reason.getD "session process exited")⟩
      else if s.processPid.isNone || s.processStart.isNone then
        ⟨.unknown, .unknown,
          some ("no recorded process identity; cannot rule out PID reuse. " ++
            "Stop the worker (orc worker-remove) or wait for it to exit")⟩
      else if identityMismatch same s inspection then
        ⟨.unknown, .unknown, some IDENTITY_MISMATCH_REASON⟩
      else if !inspection.writable then
        ⟨.recoverable, .recoverable,
          some (inspection.reason.getD "session is alive but not writable" ++
            "; the worker keeps running. " ++
            "Stop it with orc worker-remove to relaunch")⟩
      else ⟨.running, .adopted, none⟩

/-! ## Reconciliation -/

/--
One call of `reconcileSessions`: the sessions it still has to decide, as it
listed them, and whether it waits for the inspection of the first.
-/
structure Pass where
  owner : String
  ownerTtlMs : Int := SESSION_OWNER_TTL_MS
  agents : List Agent
  pending : List SupervisedSession
  awaiting : Bool := false
  deriving DecidableEq, Repr

structure Supervisor where
  db : SessionDb := {}
  passes : List Pass := []
  deriving DecidableEq

inductive SessionLabel where
  | runs (runs : Runs)
  | record (p : ProviderSession)
  | close (agentId : AgentId) (stamp : String)
  | restore (agents : List Agent) (stamp : String)
  | set (sessionId : String) (state : SessionState) (reason : Option String)
      (options : StateOptions) (now : Int)
  | reconcile (owner : String) (ownerTtlMs : Int) (agents : List Agent)
  | examine (i : Nat) (now : Int)
  | probed (i : Nat) (inspection : Option SessionInspection) (same : Bool)
      (now : Int)
  | rejected (i : Nat)

variable (dates : DateApi)

def Supervisor.commit {α : Type} (s : Supervisor) (x : SessionTxn α) :
    Supervisor :=
  { s with db := x.commit s.db }

def Pass.options (pass : Pass) (decision : Decision) : StateOptions where
  outcome := some decision.outcome
  ownerId := if decision.outcome = .adopted then some pass.owner else none
  ownerTtlMs :=
    if decision.outcome = .adopted then pass.ownerTtlMs
    else SESSION_OWNER_TTL_MS

def Supervisor.store (s : Supervisor) (i : Nat) (pass : Pass)
    (head : SupervisedSession) (rest : List SupervisedSession)
    (decision : Decision) (now : Int) : Supervisor :=
  match setSessionState dates now head.sessionId decision.state
      decision.reason (pass.options decision) s.db with
  | .ok (_, db) =>
      { db := db
        passes := s.passes.set i
          { pass with pending := rest, awaiting := false } }
  | .error _ => { s with passes := s.passes.eraseIdx i }

def Supervisor.examine (s : Supervisor) (i : Nat) (pass : Pass)
    (head : SupervisedSession) (rest : List SupervisedSession) (now : Int) :
    Supervisor :=
  let agent := byAgent pass.agents head.agentId
  if agent.any fun a => a.role = some .master then
    { s with passes := s.passes.set i { pass with pending := rest } }
  else if agent.any fun a =>
      truthy a.sessionHandle && a.sessionToken = some head.sessionId then
    { s with passes := s.passes.set i { pass with awaiting := true } }
  else
    s.store dates i pass head rest
      ⟨.offline, .superseded, some "agent no longer references this session"⟩
      now

def SupervisedSession.setNull (runs : Runs) (s : SupervisedSession) :
    SupervisedSession :=
  { s with runId := s.runId.filter fun r => (runs.find? r).isSome }

theorem setNull_sessionId (runs : Runs) (s : SupervisedSession) :
    (s.setNull runs).sessionId = s.sessionId := rfl

def SessionDb.replaceRuns (db : SessionDb) (runs : Runs) : SessionDb where
  runs := runs
  sessions := db.sessions.map (SupervisedSession.setNull runs)
    (setNull_sessionId runs)

def supervise (s : Supervisor) : SessionLabel → Option Supervisor
  | .runs runs => some { s with db := s.db.replaceRuns runs }
  | .record p => some (s.commit (recordProviderSession p))
  | .close agentId stamp =>
      some (s.commit (closeProviderSessionsForAgent agentId stamp))
  | .restore agents stamp =>
      some (s.commit (restoreProviderSessionsForAgents agents stamp))
  | .set sessionId state reason options now =>
      some (s.commit
        (setSessionState dates now sessionId state reason options))
  | .reconcile owner ownerTtlMs agents =>
      some { s with
        passes := s.passes ++
          [{ owner := owner
             ownerTtlMs := ownerTtlMs
             agents := agents
             pending := s.db.sessions.rows.filter SupervisedSession.live }] }
  | .examine i now =>
      match s.passes[i]? with
      | some pass =>
          match pass.pending, pass.awaiting with
          | head :: rest, false =>
              some (s.examine dates i pass head rest now)
          | _, _ => none
      | none => none
  | .probed i inspection same now =>
      match s.passes[i]? with
      | some pass =>
          match pass.pending, pass.awaiting with
          | head :: rest, true =>
              some (s.store dates i pass head rest
                (classifySession same head inspection) now)
          | _, _ => none
      | none => none
  | .rejected i =>
      if (s.passes[i]?).any Pass.awaiting then
        some { s with passes := s.passes.eraseIdx i }
      else none

/-- At most one session of an agent is not offline. -/
def OneLive (db : SessionDb) : Prop :=
  ∀ s ∈ db.sessions, ∀ s' ∈ db.sessions, s.agentId = s'.agentId →
    s.live = true → s'.live = true → s = s'

/-- Any sessions, one live one for an agent, and no reconciliation begun. -/
def supervision : System Supervisor SessionLabel where
  initial s := OneLive s.db ∧ Indexed s.db.sessions ∧ s.passes = []
  step := supervise dates

end OrcState.Supervision
