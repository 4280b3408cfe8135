import OrcState.Contract.Command
import OrcState.Foundation.Table
import OrcState.Foundation.Transition

/-!
# The terminal broker

`TerminalBroker` serves the terminals of the active runs and the lease of their
one writer.  A request runs to its end before the next one, and what it reads of
the runs, the sessions and the terminals' processes can change between two of its
reads, so a request is cut at each of them.  Instants are milliseconds: the texts
of `toISOString` parse back to them and, in years of four digits, sort as they do.
-/

namespace OrcState.Terminal

open OrcState.Contract OrcState.Foundation

/-! ## Records -/

inductive TerminalKind where
  | provider | shell
  deriving DecidableEq, Repr

def TerminalKind.text : TerminalKind → String
  | .provider => "provider"
  | .shell => "shell"

/-- `tmux:<agent>` or `shell:<run>`. -/
inductive Handle where
  | tmux (agentId : AgentId)
  | shell (runId : RunId)
  deriving DecidableEq, Repr

inductive TerminalState where
  | running | offline
  deriving DecidableEq, Repr

structure TerminalRecord where
  terminalId : String
  runId : RunId
  kind : TerminalKind
  handle : Handle
  state : TerminalState
  deriving DecidableEq, Repr

structure ControlLease where
  resourceId : String
  leaseId : String
  ownerId : String
  expiresAt : Int
  deriving DecidableEq, Repr

abbrev Terminals := Table String TerminalRecord TerminalRecord.terminalId

abbrev ControlLeases := Table String ControlLease ControlLease.resourceId

structure ProviderSession where
  agentId : AgentId
  runId : Option RunId
  state : SessionState
  transport : Option String
  deriving DecidableEq, Repr

/--
What other code and other processes change under the broker: runs, sessions in
`rowid` order, the live terminals and the worktrees that exist.
-/
structure Surroundings where
  runs : List (RunId × ClaimState)
  sessions : List ProviderSession
  alive : List Handle
  worktrees : List RunId
  deriving DecidableEq, Repr

def Surroundings.runActive (e : Surroundings) (runId : RunId) : Bool :=
  ((e.runs.find? fun run => run.1 = runId).map fun run => run.2.active).getD
    false

def Surroundings.latestSession (e : Surroundings) (agentId : AgentId) :
    Option ProviderSession :=
  (e.sessions.filter fun s => s.agentId = agentId).getLast?

def isCurrent (e : Surroundings) (runId : RunId) (kind : TerminalKind)
    (handle : Handle) : Bool :=
  e.runActive runId &&
    match kind, handle with
    | .shell, _ => true
    | .provider, .shell _ => false
    | .provider, .tmux agentId =>
        agentId ≠ "" &&
          match e.latestSession agentId with
          | some s =>
              s.runId = some runId && s.state = .running &&
                s.transport = some "tmux"
          | none => false

/-! ## Requests and their refusals -/

inductive ControlErrorCode where
  | unauthenticated | forbidden | notFound | conflict | badRequest | unavailable
  deriving DecidableEq, Repr

structure ControlError where
  code : ControlErrorCode
  message : String
  status : Nat
  deriving DecidableEq, Repr

inductive LeaseCall where
  | acquire (ownerId : String) (ttlMs : Option Int)
  | renew (leaseId : String)
  | input (leaseId : String) (data : String)
  | resize (leaseId : String) (columns rows : Int)
  deriving DecidableEq, Repr

inductive Request where
  | lease (terminalId : String) (call : LeaseCall)
  | release (terminalId leaseId : String)
  | observe (terminalId : String) (after : Int)
  | provider (runId : RunId)
  | shell (runId : RunId)
  | reconcile
  deriving DecidableEq, Repr

inductive Answer where
  | done
  | refused (error : ControlError)
  | failed
  deriving DecidableEq, Repr

def DEFAULT_LEASE_MS : Int := 30000

def jsLength (text : String) : Nat := (text.toList.flatMap utf16).length

def LeaseCall.check : LeaseCall → Option ControlError
  | .acquire ownerId ttlMs =>
      if ownerId = "" ∨ 200 < jsLength ownerId then
        some ⟨.badRequest, "owner_id is required", 400⟩
      else if ttlMs.getD DEFAULT_LEASE_MS < 1000 ∨
          120000 < ttlMs.getD DEFAULT_LEASE_MS then
        some ⟨.badRequest, "ttl_ms must be 1000–120000", 400⟩
      else none
  | .renew _ => none
  | .input _ data =>
      if 8192 < jsLength data then
        some ⟨.badRequest, "data must be at most 8192 characters", 400⟩
      else none
  | .resize _ columns rows =>
      if columns < 20 ∨ 500 < columns ∨ rows < 5 ∨ 200 < rows then
        some ⟨.badRequest, "Invalid terminal size", 400⟩
      else none

def LeaseCall.leaseId : LeaseCall → Option String
  | .acquire _ _ => none
  | .renew id | .input id _ | .resize id _ _ => some id

def notRunning : ControlError :=
  ⟨.unavailable, "Terminal is not running", 503⟩

def runInactive : ControlError := ⟨.conflict, "Run is not active", 409⟩

def sessionMoved : ControlError :=
  ⟨.conflict, "Provider session no longer belongs to this run", 409⟩

def leaseRequired : ControlError :=
  ⟨.forbidden, "Valid terminal writer lease required", 403⟩

def noTerminal (terminalId : String) : ControlError :=
  ⟨.notFound, "Terminal " ++ terminalId ++ " not found", 404⟩

def noWorktree (runId : RunId) : ControlError :=
  ⟨.notFound, "No assigned worktree for run " ++ runId, 404⟩

/-! ## The broker -/

/-- For whom `available` looks at a terminal. -/
inductive Purpose where
  | lease (call : LeaseCall)
  | observe
  | sweep (rest : List (TerminalRecord × Bool))
  deriving DecidableEq, Repr

/-- Between which two reads or writes a request stands. -/
inductive Stage where
  | idle
  | begun (request : Request)
  | checking (purpose : Purpose) (terminal : TerminalRecord)
  | probing (purpose : Purpose) (terminal : TerminalRecord)
  | dead (purpose : Purpose) (terminal : TerminalRecord)
  | holding (call : LeaseCall) (terminal : TerminalRecord)
  | candidate (runId : RunId) (handle : Handle)
  | located (runId : RunId) (handle : Handle)
  | shellProbe (runId : RunId)
  | shellDead (runId : RunId)
  | shellStart (runId : RunId)
  | shellStarted (runId : RunId) (started : Bool)
  | saving (runId : RunId) (kind : TerminalKind) (handle : Handle)
      (started : Bool)
  | sweeping (rows : List (TerminalRecord × Bool))
  deriving DecidableEq, Repr

structure DriverCall where
  handle : Handle
  call : LeaseCall
  deriving DecidableEq, Repr

structure Broker where
  around : Surroundings
  terminals : Terminals := Table.empty
  leases : ControlLeases := Table.empty
  stage : Stage := .idle
  clock : Int := 0
  request : Option Request := none
  answer : Option Answer := none
  entry : ControlLeases := Table.empty
  issued : List String := []
  driven : List DriverCall := []
  deriving DecidableEq

def Broker.setStage (b : Broker) (stage : Stage) : Broker :=
  { b with stage := stage }

def Broker.reply (b : Broker) (answer : Answer) : Broker :=
  { b with stage := .idle, answer := some answer }

def Broker.refuse (b : Broker) (error : ControlError) : Broker :=
  b.reply (.refused error)

def TerminalRecord.offline (r : TerminalRecord) : TerminalRecord :=
  { r with state := .offline }

def Broker.markOffline (b : Broker) (terminalId : String) : Broker :=
  { b with
    terminals := b.terminals.update terminalId TerminalRecord.offline
      fun _ => rfl
    leases := b.leases.filter fun l => l.resourceId ≠ terminalId }

def Broker.setAlive (b : Broker) (alive : List Handle) : Broker :=
  { b with around := { b.around with alive := alive } }

def Broker.stop (b : Broker) (handle : Handle) : Broker :=
  b.setAlive (b.around.alive.filter fun h => h ≠ handle)

/-- Clock readings, a fresh lease id, and whether the driver call goes well. -/
structure Choice where
  now : Int
  later : Int
  leaseId : String
  driverOk : Bool
  deriving DecidableEq, Repr

/-! ## Looking at a terminal -/

def Broker.available (b : Broker) (terminal : TerminalRecord) :
    Purpose → Broker
  | .lease call => b.setStage (.holding call terminal)
  | .observe => b.reply .done
  | .sweep rest => b.setStage (.sweeping rest)

def Broker.unavailable (b : Broker) (terminal : TerminalRecord)
    (purpose : Purpose) : Broker :=
  if purpose = .observe ∧ terminal.state = .offline then b.reply .done
  else b.setStage (.dead purpose terminal)

def Broker.declareDead (b : Broker) (terminal : TerminalRecord)
    (purpose : Purpose) : Broker :=
  let marked := b.markOffline terminal.terminalId
  match purpose with
  | .lease _ => marked.refuse notRunning
  | .observe => marked.reply .done
  | .sweep rest => marked.setStage (.sweeping rest)

/-! ## The lease -/

def Broker.grant (b : Broker) (lease : ControlLease) : Broker :=
  { b with
    leases := b.leases.upsert lease, issued := b.issued ++ [lease.leaseId] }

def Broker.acquire (b : Broker) (terminalId ownerId : String)
    (ttlMs : Option Int) (o : Choice) : Option Broker :=
  if (b.leases.find? terminalId).any fun l => o.now < l.expiresAt then
    some (b.refuse ⟨.conflict, "Terminal already has a writer", 409⟩)
  else if o.leaseId ∈ b.issued then none
  else
    some ((b.grant
      { resourceId := terminalId
        leaseId := o.leaseId
        ownerId := ownerId
        expiresAt := o.now + ttlMs.getD DEFAULT_LEASE_MS }).reply .done)

def LeaseCall.drives : LeaseCall → Bool
  | .input _ _ | .resize _ _ _ => true
  | _ => false

def Broker.drive (b : Broker) (handle : Handle) (call : LeaseCall) : Broker :=
  if call.drives then { b with driven := b.driven ++ [⟨handle, call⟩] } else b

def Broker.extend (b : Broker) (terminalId : String) (later : Int) : Broker :=
  { b with
    leases := b.leases.update terminalId
      (fun l => { l with expiresAt := later + DEFAULT_LEASE_MS }) fun _ => rfl }

def holds (leases : ControlLeases) (terminalId leaseId : String) (now : Int) :
    Bool :=
  (leases.find? terminalId).any fun l =>
    l.leaseId = leaseId && !(l.expiresAt ≤ now : Bool)

def Broker.withLease (b : Broker) (terminal : TerminalRecord)
    (leaseId : String) (call : LeaseCall) (o : Choice) : Broker :=
  if !holds b.leases terminal.terminalId leaseId o.now then
    b.refuse leaseRequired
  else
    let driven := b.drive terminal.handle call
    if o.driverOk then
      (driven.extend terminal.terminalId o.later).reply .done
    else driven.reply .failed

def Broker.underLease (b : Broker) (call : LeaseCall)
    (terminal : TerminalRecord) (o : Choice) : Option Broker :=
  if !isCurrent b.around terminal.runId terminal.kind terminal.handle then
    some (b.refuse
      ⟨.unavailable, "Terminal run is no longer active", 503⟩)
  else
    match call with
    | .acquire ownerId ttlMs => b.acquire terminal.terminalId ownerId ttlMs o
    | .renew id | .input id _ | .resize id _ _ =>
        some (b.withLease terminal id call o)

def Broker.release (b : Broker) (terminalId leaseId : String) : Broker :=
  let kept := b.leases.filter fun l =>
    ¬ (l.resourceId = terminalId ∧ l.leaseId = leaseId)
  if kept = b.leases then b.refuse leaseRequired
  else { b with leases := kept }.reply .done

/-! ## Opening a terminal -/

def terminalIdOf (kind : TerminalKind) (runId : RunId) : String :=
  kind.text ++ ":" ++ runId

def Broker.openProvider (b : Broker) (runId : RunId) : Broker :=
  match (b.around.sessions.filter fun s =>
      s.runId = some runId && s.state = .running).getLast? with
  | some s =>
      if s.transport = some "tmux" then
        b.setStage (.candidate runId (.tmux s.agentId))
      else b.refuse ⟨.conflict, "Run has no tmux provider terminal", 409⟩
  | none => b.refuse ⟨.conflict, "Run has no tmux provider terminal", 409⟩

def Broker.openShell (b : Broker) (runId : RunId) : Broker :=
  if runId ∉ b.around.worktrees then b.refuse (noWorktree runId)
  else if !b.around.runActive runId then b.refuse runInactive
  else b.setStage (.shellProbe runId)

def Broker.startShell (b : Broker) (runId : RunId) (o : Choice) : Broker :=
  if .shell runId ∈ b.around.alive then
    b.setStage (.shellStarted runId false)
  else if o.driverOk then
    (b.setAlive (.shell runId :: b.around.alive)).setStage
      (.shellStarted runId true)
  else b.reply .failed

def Broker.saveError (b : Broker) (runId : RunId) (kind : TerminalKind)
    (handle : Handle) : Option ControlError :=
  if runId ∉ b.around.worktrees then some (noWorktree runId)
  else if !b.around.runActive runId then some runInactive
  else if kind = .provider ∧ !isCurrent b.around runId kind handle then
    some sessionMoved
  else none

def Broker.save (b : Broker) (runId : RunId) (kind : TerminalKind)
    (handle : Handle) (started : Bool) : Broker :=
  match b.saveError runId kind handle with
  | some error =>
      if started then (b.stop handle).refuse error else b.refuse error
  | none =>
      { b with
        terminals := b.terminals.upsert
          { terminalId := terminalIdOf kind runId
            runId := runId
            kind := kind
            handle := handle
            state := .running } }.reply .done

/-! ## Steps -/

def Broker.begin (b : Broker) : Request → Broker
  | .lease terminalId call =>
      match call.check with
      | some error => b.refuse error
      | none =>
          match b.terminals.find? terminalId with
          | none => b.refuse (noTerminal terminalId)
          | some terminal => b.setStage (.checking (.lease call) terminal)
  | .release terminalId leaseId =>
      match b.terminals.find? terminalId with
      | none => b.refuse (noTerminal terminalId)
      | some _ => b.release terminalId leaseId
  | .observe terminalId after =>
      if after < 0 then
        b.refuse ⟨.badRequest, "after must be a non-negative integer", 400⟩
      else
        match b.terminals.find? terminalId with
        | none => b.refuse (noTerminal terminalId)
        | some terminal => b.setStage (.checking .observe terminal)
  | .provider runId => b.openProvider runId
  | .shell runId => b.openShell runId
  | .reconcile =>
      b.setStage (.sweeping
        ((b.terminals.rows.filter fun r => r.state = .running).map fun r =>
          (r, b.around.runActive r.runId)))

def Broker.sweepRow (b : Broker) (row : TerminalRecord × Bool)
    (rest : List (TerminalRecord × Bool)) : Broker :=
  let stopped :=
    if row.1.kind = .shell ∧ row.2 = false ∧
        row.1.handle ∈ b.around.alive then b.stop row.1.handle
    else b
  stopped.setStage (.checking (.sweep rest) row.1)

def Broker.dropExpired (b : Broker) (now : Int) : Broker :=
  { b with leases := b.leases.filter fun l => !(l.expiresAt ≤ now : Bool) }

def Broker.advance (b : Broker) (o : Choice) : Option Broker :=
  match b.stage with
  | .idle => none
  | .begun request => some (b.begin request)
  | .checking purpose terminal =>
      if terminal.state = .running ∧
          isCurrent b.around terminal.runId terminal.kind terminal.handle then
        some (b.setStage (.probing purpose terminal))
      else some (b.unavailable terminal purpose)
  | .probing purpose terminal =>
      if terminal.handle ∈ b.around.alive then
        some (b.available terminal purpose)
      else some (b.unavailable terminal purpose)
  | .dead purpose terminal => some (b.declareDead terminal purpose)
  | .holding call terminal => b.underLease call terminal o
  | .candidate runId handle =>
      if isCurrent b.around runId .provider handle then
        some (b.setStage (.located runId handle))
      else some (b.refuse sessionMoved)
  | .located runId handle =>
      if handle ∈ b.around.alive then
        some (b.setStage (.saving runId .provider handle false))
      else
        some (b.refuse
          ⟨.unavailable, "Provider terminal is not running", 503⟩)
  | .shellProbe runId =>
      if .shell runId ∈ b.around.alive then
        some (b.setStage (.shellStart runId))
      else some (b.setStage (.shellDead runId))
  | .shellDead runId =>
      some ((b.markOffline (terminalIdOf .shell runId)).setStage
        (.shellStart runId))
  | .shellStart runId => some (b.startShell runId o)
  | .shellStarted runId started =>
      if .shell runId ∈ b.around.alive then
        some (b.setStage (.saving runId .shell (.shell runId) started))
      else
        some (b.refuse
          ⟨.unavailable, "Worktree shell did not start", 503⟩)
  | .saving runId kind handle started =>
      some (b.save runId kind handle started)
  | .sweeping (row :: rest) => some (b.sweepRow row rest)
  | .sweeping [] => some ((b.dropExpired o.now).reply .done)

/-- The writer lease of the tmux adapter, taken for one `send`. -/
def Broker.claimSendLease (b : Broker) (agentId : AgentId) (pid : Nat)
    (o : Choice) : Option Broker :=
  match (b.around.sessions.filter fun s =>
      s.agentId = agentId && s.state = .running &&
        s.transport = some "tmux").getLast?.bind ProviderSession.runId with
  | none => some b
  | some runId =>
      if (b.leases.find? (terminalIdOf .provider runId)).any fun l =>
          o.now < l.expiresAt then some b
      else if o.leaseId ∈ b.issued then none
      else
        some (b.grant
          { resourceId := terminalIdOf .provider runId
            leaseId := o.leaseId
            ownerId := "coordinator:" ++ toString pid
            expiresAt := o.later + DEFAULT_LEASE_MS })

def Broker.releaseSendLease (b : Broker) (resourceId leaseId : String) :
    Broker :=
  { b with
    leases := b.leases.filter fun l =>
      ¬ (l.resourceId = resourceId ∧ l.leaseId = leaseId) }

/-- `terminals.run_id` refers to `runs`; a deleted run takes its rows along. -/
def Broker.surround (b : Broker) (e : Surroundings) : Broker :=
  { b with
    around := e
    terminals := b.terminals.filter fun r =>
      (e.runs.find? fun run => run.1 = r.runId).isSome }

inductive Label where
  | surroundings (e : Surroundings)
  | request (r : Request)
  | advance (o : Choice)
  | send (agentId : AgentId) (pid : Nat) (o : Choice)
  | sent (resourceId leaseId : String)
  deriving DecidableEq

/-- The clock does not run backwards. -/
def Broker.timed (b : Broker) (o : Choice) (next : Broker → Option Broker) :
    Option Broker :=
  if b.clock ≤ o.now ∧ o.now ≤ o.later then next { b with clock := o.later }
  else none

def step (b : Broker) : Label → Option Broker
  | .surroundings e => some (b.surround e)
  | .request r =>
      if b.stage = .idle then
        some { b with
          stage := .begun r, request := some r, answer := none
          entry := b.leases }
      else none
  | .advance o => b.timed o fun b => b.advance o
  | .send agentId pid o =>
      if b.stage = .idle then
        b.timed o fun b =>
          (b.claimSendLease agentId pid o).map fun c => { c with answer := none }
      else none
  | .sent resourceId leaseId =>
      if b.stage = .idle then
        some { b.releaseSendLease resourceId leaseId with answer := none }
      else none

def broker : System Broker Label where
  initial b :=
    b.terminals = Table.empty ∧ b.leases = Table.empty ∧ b.stage = .idle ∧
      b.request = none ∧ b.answer = none ∧ b.entry = Table.empty ∧
      b.issued = [] ∧ b.driven = []
  step := step

end OrcState.Terminal
