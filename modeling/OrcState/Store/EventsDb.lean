import OrcState.Contract.Event
import OrcState.Contract.Command
import OrcState.Foundation.Table
import OrcState.Foundation.Transaction

/-!
# events.db

The tables of `events.db` that the run and command code shares.  `runs` holds
one row a claim; its columns are the claim's own fields, which `commitClaims`
writes together with the JSON copy.  The foreign keys act as the schema says:
deleting a run deletes its commands and detaches its sessions, deleting a
session detaches the commands addressed to it or sent by it.
-/

namespace OrcState.Store

open OrcState.Contract OrcState.Foundation

abbrev Runs := Table RunId Claim Claim.runId

abbrev Sessions := Table String Session Session.sessionId

abbrev Commands := Table String DurableCommand DurableCommand.commandId

structure EventsDb where
  runs : Runs := Table.empty
  sessions : Sessions := Table.empty
  commands : Commands := Table.empty
  events : List OrcEvent := []
  lastSeq : Nat := 0
  deriving DecidableEq

abbrev Db (α : Type) := Txn EventsDb DomainError α

/-! ## Appending to the event log -/

def EventsDb.logged (db : EventsDb) (event : OrcEvent) : EventsDb :=
  { db with
    events := db.events ++ [{ event with seq := db.lastSeq + 1 }]
    lastSeq := db.lastSeq + 1 }

@[simp] theorem EventsDb.logged_runs (db : EventsDb) (e : OrcEvent) :
    (db.logged e).runs = db.runs := rfl

@[simp] theorem EventsDb.logged_sessions (db : EventsDb) (e : OrcEvent) :
    (db.logged e).sessions = db.sessions := rfl

@[simp] theorem EventsDb.logged_commands (db : EventsDb) (e : OrcEvent) :
    (db.logged e).commands = db.commands := rfl

def appendSequencedEvent (dates : DateApi) (event : OrcEvent) : Db Unit := do
  let errors := validateEventObject dates { event with seq := 1 }
  Txn.throwIf (errors ≠ [])
    (plainError ("event validation failed: " ++ "; ".intercalate errors))
  modify fun db => db.logged event

theorem appendSequencedEvent_ok {dates : DateApi} {event : OrcEvent}
    {s t : EventsDb} {u : Unit} :
    appendSequencedEvent dates event s = .ok (u, t) ↔
      validateEventObject dates { event with seq := 1 } = [] ∧
        s.logged event = t := by
  simp only [appendSequencedEvent, Txn.bind_ok, Txn.throwIf_ok,
    Txn.modify_ok, not_not]
  constructor
  · rintro ⟨_, _, ⟨h, rfl⟩, rfl⟩
    exact ⟨h, rfl⟩
  · rintro ⟨h, rfl⟩
    exact ⟨(), s, ⟨h, rfl⟩, rfl⟩

/-! ## Foreign keys -/

def DurableCommand.detach (keep : String → Bool) (c : DurableCommand) :
    DurableCommand :=
  { c with
    sessionId := c.sessionId.filter keep
    actorSessionId := c.actorSessionId.filter keep }

theorem detach_commandId (keep : String → Bool) (c : DurableCommand) :
    (DurableCommand.detach keep c).commandId = c.commandId := rfl

def EventsDb.replaceRuns (db : EventsDb) (runs : Runs) : EventsDb :=
  { db with
    runs := runs
    sessions := db.sessions.map
      (fun s => { s with runId := s.runId.filter fun r => (runs.find? r).isSome })
      fun _ => rfl
    commands := db.commands.filter fun c => (runs.find? c.runId).isSome }

def EventsDb.replaceSessions (db : EventsDb) (sessions : Sessions) :
    EventsDb :=
  { db with
    sessions := sessions
    commands := db.commands.map
      (DurableCommand.detach fun s => (sessions.find? s).isSome)
      (detach_commandId _) }

end OrcState.Store
