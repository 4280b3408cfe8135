import OrcState.Foundation.Effect
import OrcState.Store.ProjectTasks
import OrcState.Store.RunStore

/-!
# A project and its operations

The state of a project is its two databases.  An operation holds the state lock
from its reads to its last write, so it is one step; but it writes each database
in a transaction of its own, and a throw from the second leaves the first
committed.  A call reads the clock once: `now` is that reading.
-/

namespace OrcState.Lifecycle

open OrcState.Contract OrcState.Foundation OrcState.Store

structure Project where
  events : EventsDb := {}
  tasks : TaskStore := {}
  deriving DecidableEq

abbrev Op (α : Type) := Effect Project DomainError α

def Project.setEvents (s : Project) (db : EventsDb) : Project :=
  { s with events := db }

def Project.setTasks (s : Project) (ts : TaskStore) : Project :=
  { s with tasks := ts }

@[simp] theorem setEvents_events (s : Project) (db : EventsDb) :
    (s.setEvents db).events = db := rfl

@[simp] theorem setEvents_tasks (s : Project) (db : EventsDb) :
    (s.setEvents db).tasks = s.tasks := rfl

@[simp] theorem setTasks_events (s : Project) (ts : TaskStore) :
    (s.setTasks ts).events = s.events := rfl

@[simp] theorem setTasks_tasks (s : Project) (ts : TaskStore) :
    (s.setTasks ts).tasks = ts := rfl

def onEvents {α : Type} (x : Db α) : Op α :=
  Effect.atomically Project.events Project.setEvents x

def onTasks {α : Type} (x : Tasks α) : Op α :=
  Effect.atomically Project.tasks Project.setTasks x

/-- `claims.json` as it is read: the run rows in insertion order. -/
def Project.claims (s : Project) : List Claim := s.events.runs.rows

def Project.findClaim (s : Project) (runId : RunId) : Option Claim :=
  s.events.runs.find? runId

def Project.backlog (s : Project) : Backlog := readProjectBacklog s.tasks

def mutateClaims (claims : List Claim) (p : Claim → Bool)
    (f : Claim → Claim) : List Claim :=
  claims.map fun claim => if p claim then f claim else claim

def mutateClaim (claims : List Claim) (runId : RunId) (f : Claim → Claim) :
    List Claim :=
  mutateClaims claims (fun claim => claim.runId = runId) f

/-! ## Events of a run -/

def actorTypeOf (actorId : AgentId) : ActorType :=
  if actorId = "human" then .human else .agent

/-- A payload entry that `JSON.stringify` keeps only when it is defined. -/
def optionalEntry (key : String) (value : Option String) : Payload :=
  match value with
  | some s => [(key, .str s)]
  | none => []

def nullable : Option String → PayloadValue
  | some s => .str s
  | none => .null

def runEvent (ts : String) (event : EventName) (actorType : ActorType)
    (actorId : AgentId) (claim : Claim) (payload : Payload) : OrcEvent where
  ts := ts
  event := event
  actorType := actorType
  actorId := actorId
  runId := some claim.runId
  taskRef := some claim.taskRef
  agentId := some claim.agentId
  payload := payload

def isEnding : EventName → Bool
  | .runFinished | .runFailed | .runCancelled | .claimExpired => true
  | _ => false

/-- Every identifier of the claim has the shape the schema asks for. -/
structure WellNamed (claim : Claim) : Prop where
  runId : runIdRe claim.runId = true
  taskRef : taskRefRe claim.taskRef = true
  agentId : agentIdRe claim.agentId = true

theorem validEvent_runEvent {dates : DateApi} {ts : String} {event : EventName}
    {actorType : ActorType} {actorId : AgentId} {claim : Claim}
    {payload : Payload} (hevent : event ∉ commandEvents) :
    ValidEvent dates (runEvent ts event actorType actorId claim payload) ↔
      dates.isDateTime ts = true ∧ WellNamed claim ∧
        validatePayload dates
          (runEvent ts event actorType actorId claim payload) = [] := by
  have hname : ∀ e : OrcEvent, e.runId = some claim.runId →
      e.taskRef = some claim.taskRef → e.agentId = some claim.agentId →
      WellNamed claim → requireRunId e = [] ∧ requireTaskRef e = [] ∧
        requireAgentId e = [] := by
    intro e hrun href hagent hnamed
    simp [requireRunId, requireTaskRef, requireAgentId, complainIf, hrun, href,
      hagent, truthy_of_runIdRe hnamed.runId, hnamed.taskRef, hnamed.agentId]
  constructor
  · intro h
    simp only [ValidEvent, validateEventObject, validateSchema, runEvent,
      List.append_eq_nil_iff, complainIf_eq_nil, Option.any_some,
      Bool.not_eq_false'] at h
    obtain ⟨⟨⟨⟨⟨-, hts⟩, hrun⟩, href⟩, hagent⟩, hcore⟩ := h
    refine ⟨hts, ⟨hrun, href, hagent⟩, ?_⟩
    simp only [validateCoreEventInvariants, List.append_eq_nil_iff] at hcore
    exact hcore.2
  · rintro ⟨hts, hnamed, hpayload⟩
    obtain ⟨hrun, href, hagent⟩ := hname
      (runEvent ts event actorType actorId claim payload) rfl rfl rfl hnamed
    simp only [ValidEvent, validateEventObject, validateSchema, runEvent,
      List.append_eq_nil_iff, complainIf_eq_nil, Option.any_some,
      Bool.not_eq_false']
    refine ⟨⟨⟨⟨⟨rfl, hts⟩, hnamed.runId⟩, hnamed.taskRef⟩, hnamed.agentId⟩, ?_⟩
    change validateCoreEventInvariants dates
      (runEvent ts event actorType actorId claim payload) = []
    have hkind : (runEvent ts event actorType actorId claim payload).event =
      event := rfl
    simp [validateCoreEventInvariants, hkind, hevent, hrun, href, hagent,
      hpayload]

/-! ## Two commits, one after the other -/

def commitBoth (dates : DateApi) (claims : List Claim) (events : List OrcEvent)
    (backlog : Backlog) (changes : TaskStatusChanges) (now : String) :
    Op Unit := do
  onEvents (commitClaims dates claims events)
  onTasks (commitBacklog backlog changes now)

theorem commitBoth_cases {dates : DateApi} {claims : List Claim}
    {events : List OrcEvent} {backlog : Backlog} {changes : TaskStatusChanges}
    {now : String} {s t : Project} {r : Except DomainError Unit}
    (h : commitBoth dates claims events backlog changes now s = (r, t)) :
    (∃ e, r = .error e ∧ t = s) ∨
      ∃ db, commitClaims dates claims events s.events = .ok ((), db) ∧
        ((∃ e, r = .error e ∧
            commitBacklog backlog changes now s.tasks = .error e ∧
            t = s.setEvents db) ∨
          ∃ ts, commitBacklog backlog changes now s.tasks = .ok ((), ts) ∧
            r = .ok () ∧ t = (s.setEvents db).setTasks ts) :=
  Effect.atomically_seq_cases h

theorem onEvents_cases {α : Type} {x : Db α} {s t : Project}
    {r : Except DomainError α} (h : onEvents x s = (r, t)) :
    (∃ e, r = .error e ∧ t = s) ∨
      ∃ a db, x s.events = .ok (a, db) ∧ r = .ok a ∧ t = s.setEvents db := by
  unfold onEvents Effect.atomically at h
  split at h
  · rename_i a db hx
    cases h
    exact .inr ⟨a, db, hx, rfl, rfl⟩
  · rename_i e hx
    cases h
    exact .inl ⟨e, rfl, rfl⟩

theorem onTasks_cases {α : Type} {x : Tasks α} {s t : Project}
    {r : Except DomainError α} (h : onTasks x s = (r, t)) :
    (∃ e, r = .error e ∧ t = s) ∨
      ∃ a ts, x s.tasks = .ok (a, ts) ∧ r = .ok a ∧ t = s.setTasks ts := by
  unfold onTasks Effect.atomically at h
  split at h
  · rename_i a ts hx
    cases h
    exact .inr ⟨a, ts, hx, rfl, rfl⟩
  · rename_i e hx
    cases h
    exact .inl ⟨e, rfl, rfl⟩

end OrcState.Lifecycle
