import OrcState.Command.Refinement
import OrcState.Foundation.Transition
import Mathlib.Data.List.Nodup

/-!
# Delivery as a system

The command store, the dispatchers that work it and everyone else who calls its
operations.  A dispatcher's tick is a small program over the operations and may
lose its place at any point; the operations themselves may be called by anyone
in any order.  The rest of the coordinator appears as replacements of the run
and session rows.  `starts` and `sends` are history: each `markSendStarted` that
succeeded and each call of the transport, with the command it was about.
-/

namespace OrcState.Command

open OrcState.Contract OrcState.Foundation OrcState.Store

/-! ## Dispatchers -/

inductive TickPc where
  | idle
  | reserved (command : DurableCommand)
  | started (command : DurableCommand)
  | handed (command : DurableCommand)
  deriving DecidableEq, Repr

def TickPc.command : TickPc → Option DurableCommand
  | .idle => none
  | .reserved c | .started c | .handed c => some c

/-- The steps of one tick; `failed` is the `catch` of the loop body. -/
inductive TickStep where
  | reserve (now : Int)
  | busy (now : Int)
  | dead (now : Int)
  | startSend (now : Int)
  | handOver
  | sent (now : Int)
  | failed (now : Int) (reason : String)
  | crash
  deriving DecidableEq, Repr

/-! ## Actions -/

inductive Action where
  | enqueue (now : Int) (commandId : String) (caller : Caller)
      (input : EnqueueCommand)
  | reserve (now : Int) (at_ : String)
  | markSendStarted (now : Int) (commandId : String)
  | markSent (now : Int) (commandId : String)
  | acknowledge (now : Int) (commandId : String)
      (principal : CommandPrincipal) (ack : AckState)
  | acknowledgeFromRuntime (now : Int) (commandId sessionId : String)
      (ack : AckState) (reason : Option String)
  | failTransport (now : Int) (commandId reason : String)
  | reconcile (now : Int) (at_ : String) (staleAfterMs : Int)
  | resolveUnknown (now : Int) (commandId : String)
      (principal : CommandPrincipal) (outcome : Outcome) (reason : String)
  | defer (now : Int) (commandId reason retryAt : String)
  | tick (dispatcher : Nat) (step : TickStep)
  | replaceRuns (runs : Runs)
  | replaceSessions (sessions : Sessions)

structure Delivery where
  db : EventsDb := {}
  issued : List String := []
  dispatchers : Nat → TickPc := fun _ => .idle
  starts : List DurableCommand := []
  sends : List DurableCommand := []

/-- The ids of the side-effecting commands in a history. -/
def sideEffects (history : List DurableCommand) : List String :=
  (history.filter (·.sideEffecting)).map (·.commandId)

namespace Delivery

def setTick (s : Delivery) (d : Nat) (pc : TickPc) : Delivery :=
  { s with dispatchers := Function.update s.dispatchers d pc }

def after {α : Type} (s : Delivery) (x : Db α) : Delivery :=
  { s with db := x.commit s.db }

end Delivery

variable (dates : DateApi)

def BUSY_RETRY_MS : Int := 1000

def startSend (s : Delivery) (now : Int) (commandId : String)
    (next : Delivery → Delivery) : Delivery :=
  match markSendStarted dates now commandId s.db with
  | .error _ => s
  | .ok (started, db) =>
      next { s with db := db, starts := s.starts ++ [started] }

def tickStep (s : Delivery) (d : Nat) : TickPc → TickStep → Option Delivery
  | _, .crash => some (s.setTick d .idle)
  | .idle, .reserve now =>
      match reserveCommand dates now (dates.toISOString now) s.db with
      | .error _ => some s
      | .ok (none, db) => some { s with db := db }
      | .ok (some command, db) =>
          if command.state = .dispatching then
            some (({ s with db := db } : Delivery).setTick d
              (.reserved command))
          else some { s with db := db }
  | .reserved command, .busy now =>
      match deferCommand dates now command.commandId "recipient busy"
          (dates.toISOString (now + BUSY_RETRY_MS)) s.db with
      | .error _ => some s
      | .ok (_, db) => some (({ s with db := db } : Delivery).setTick d .idle)
  | .reserved command, .dead now =>
      some ((s.after (failTransport dates now command.commandId
        "provider exited before send")).setTick d .idle)
  | .reserved command, .startSend now =>
      some (startSend dates s now command.commandId fun s =>
        s.setTick d (.started command))
  | .started command, .handOver =>
      some (({ s with sends := s.sends ++ [command] } : Delivery).setTick d
        (.handed command))
  | .handed command, .sent now =>
      match markSent dates now command.commandId s.db with
      | .error _ => some s
      | .ok (_, db) => some (({ s with db := db } : Delivery).setTick d .idle)
  | .idle, .failed _ _ => none
  | .reserved command, .failed now reason
  | .started command, .failed now reason
  | .handed command, .failed now reason =>
      some ((s.after (failTransport dates now command.commandId
        reason)).setTick d .idle)
  | _, _ => none

def step (s : Delivery) : Action → Option Delivery
  | .enqueue now commandId caller input =>
      -- `randomUUID` never repeats
      if commandId ∈ s.issued then none
      else some
        (({ s with issued := s.issued ++ [commandId] } : Delivery).after
          (enqueueCommand dates now commandId caller input))
  | .reserve now at_ => some (s.after (reserveCommand dates now at_))
  | .markSendStarted now commandId =>
      some (startSend dates s now commandId id)
  | .markSent now commandId => some (s.after (markSent dates now commandId))
  | .acknowledge now commandId principal ack =>
      some (s.after (acknowledgeCommand dates now commandId principal ack))
  | .acknowledgeFromRuntime now commandId sessionId ack reason =>
      some (s.after
        (acknowledgeFromRuntime dates now commandId sessionId ack reason))
  | .failTransport now commandId reason =>
      some (s.after (failTransport dates now commandId reason))
  | .reconcile now at_ staleAfterMs =>
      some (s.after (reconcileCommands dates now at_ staleAfterMs))
  | .resolveUnknown now commandId principal outcome reason =>
      some (s.after
        (resolveUnknownCommand dates now commandId principal outcome reason))
  | .defer now commandId reason retryAt =>
      some (s.after (deferCommand dates now commandId reason retryAt))
  | .tick d next => tickStep dates s d (s.dispatchers d) next
  | .replaceRuns runs => some { s with db := s.db.replaceRuns runs }
  | .replaceSessions sessions =>
      some { s with db := s.db.replaceSessions sessions }

def delivery : System Delivery Action where
  initial s :=
    s.db.commands = Table.empty ∧ s.issued = [] ∧
      (∀ d, s.dispatchers d = .idle) ∧ s.starts = [] ∧ s.sends = []
  step := step dates

/-! ## A run on fixed inputs -/

def idleDelivery : Delivery where
  db :=
    { runs := ⟨[{ runId := "run-1", taskRef := "app/edit",
                  agentId := "worker-1", state := .inProgress,
                  claimedAt := "", leaseExpiresAt := "" }], by decide⟩
      sessions := ⟨[{ sessionId := "session-1", agentId := "worker-1",
                      runId := some "run-1", state := .running }],
        by decide⟩ }

def handOverActions : List Action :=
  [.enqueue 0 "cmd-1" .coordinator
     { runId := "run-1", recipientSessionId := "session-1",
       idempotencyKey := "key-1", kind := "send", payload := some "{}" },
   .tick 0 (.reserve 1), .tick 0 (.startSend 2), .tick 0 .handOver]

theorem idleDelivery_initial :
    (delivery .epoch).initial idleDelivery :=
  ⟨rfl, rfl, fun _ => rfl, rfl, rfl⟩

/-! ## What a step can do -/

def Settles (s t : Delivery) (d : Nat) : Prop :=
  t.dispatchers d = s.dispatchers d ∨ t.dispatchers d = .idle ∨
    ∃ c, t.dispatchers d = .reserved c ∧
      t.db.commands.find? c.commandId = some c

inductive Change (s t : Delivery) : Prop
  /-- Rows move, places are given up, nothing is started or sent. -/
  | quiet (rows : Evolves s.db.commands t.db.commands)
      (issued : s.issued ⊆ t.issued) (starts : t.starts = s.starts)
      (sends : t.sends = s.sends) (ticks : ∀ d, Settles s t d)
  | insert (c : DurableCommand) (fresh : c.commandId ∉ s.issued)
      (queued : Enqueued c.commandId c)
      (rows : t.db.commands.rows = s.db.commands.rows ++ [c])
      (issued : t.issued = s.issued ++ [c.commandId])
      (starts : t.starts = s.starts) (sends : t.sends = s.sends)
      (ticks : t.dispatchers = s.dispatchers)
  /-- One unsent reservation gets its send mark. -/
  | start (c : DurableCommand) (stamp : String)
      (row : s.db.commands.find? c.commandId = some c)
      (reserved : c.state = .dispatching)
      (unsent : truthy c.sendStartedAt = false)
      (stamped : truthy (some stamp) = true)
      (rows : t.db.commands = s.db.commands.update c.commandId
        (fun c => { c with sendStartedAt := some stamp }) (fun _ => rfl))
      (issued : t.issued = s.issued)
      (starts : t.starts = s.starts ++ [{ c with sendStartedAt := some stamp }])
      (sends : t.sends = s.sends)
      (ticks : t.dispatchers = s.dispatchers ∨
        ∃ d k, s.dispatchers d = .reserved k ∧ k.commandId = c.commandId ∧
          t.dispatchers = Function.update s.dispatchers d (.started k))
  | handOver (d : Nat) (k : DurableCommand)
      (ready : s.dispatchers d = .started k) (db : t.db = s.db)
      (issued : t.issued = s.issued) (starts : t.starts = s.starts)
      (sends : t.sends = s.sends ++ [k])
      (ticks : t.dispatchers =
        Function.update s.dispatchers d (.handed k))

variable {dates}

theorem Settles.same (s t : Delivery) (h : t.dispatchers = s.dispatchers)
    (d : Nat) : Settles s t d :=
  .inl (by rw [h])

theorem Settles.setTick_idle {s t : Delivery}
    (h : t.dispatchers = s.dispatchers) (d d' : Nat) :
    Settles s (t.setTick d .idle) d' := by
  by_cases hd : d' = d
  · subst hd
    exact .inr (.inl (by simp [Delivery.setTick]))
  · exact .inl (by simp [Delivery.setTick, Function.update_of_ne hd, h])

theorem Change.refl (s : Delivery) : Change s s :=
  .quiet (.refl _) (List.Subset.refl _) rfl rfl (Settles.same s s rfl)

theorem Change.after {α : Type} {x : Db α} (s : Delivery)
    (hx : ∀ a t, x s.db = .ok (a, t) → Evolves s.db.commands t.commands) :
    Evolves s.db.commands (s.after x).db.commands := by
  rcases Txn.commit_cases x s.db with ⟨a, ha⟩ | hsame
  · exact hx a _ ha
  · change Evolves s.db.commands (x.commit s.db).commands
    rw [hsame]
    exact .refl _

theorem Change.of_after {α : Type} {x : Db α} {s : Delivery}
    (hx : ∀ a t, x s.db = .ok (a, t) → Evolves s.db.commands t.commands) :
    Change s (s.after x) :=
  .quiet (Change.after s hx) (List.Subset.refl _) rfl rfl
    (Settles.same _ _ rfl)

theorem Change.of_after_idle {α : Type} {x : Db α} {s : Delivery} (d : Nat)
    (hx : ∀ a t, x s.db = .ok (a, t) → Evolves s.db.commands t.commands) :
    Change s ((s.after x).setTick d .idle) :=
  .quiet (Change.after s hx) (List.Subset.refl _) rfl rfl
    (Settles.setTick_idle rfl d)

theorem Change.of_ok_idle {s : Delivery} {db : EventsDb} (d : Nat)
    (h : Evolves s.db.commands db.commands) :
    Change s (({ s with db := db } : Delivery).setTick d .idle) :=
  .quiet h (List.Subset.refl _) rfl rfl (Settles.setTick_idle rfl d)

theorem startSend_change {s : Delivery} {now : Int} {commandId : String}
    {next : Delivery → Delivery}
    (hnext : ∀ u, (next u).db = u.db ∧ (next u).issued = u.issued ∧
      (next u).starts = u.starts ∧ (next u).sends = u.sends)
    (hticks : ∀ u, u.dispatchers = s.dispatchers →
      (next u).dispatchers = s.dispatchers ∨
        ∃ d k, s.dispatchers d = .reserved k ∧ k.commandId = commandId ∧
          (next u).dispatchers =
            Function.update s.dispatchers d (.started k)) :
    Change s (startSend dates s now commandId next) := by
  cases h : markSendStarted dates now commandId s.db with
  | error e =>
      simp only [startSend, h]
      exact .refl s
  | ok p =>
      obtain ⟨r, db⟩ := p
      simp only [startSend, h]
      obtain ⟨c, hc, hd, hs, rfl, hrows⟩ := markSendStarted_ok h
      have hkey := Table.key_of_find? hc
      subst hkey
      obtain ⟨hdb, hissued, hstarts, hsends⟩ := hnext
        { s with db := db, starts := s.starts ++ [_] }
      exact .start c (dates.toISOString now) hc hd hs
        (truthy_toISOString dates now) (by rw [hdb]; exact hrows) hissued
        hstarts hsends (hticks _ rfl)

theorem reserveTick_change {s t : Delivery} {d : Nat} {now : Int}
    (h : tickStep dates s d .idle (.reserve now) = some t) :
    Change s t := by
  cases hr : reserveCommand dates now (dates.toISOString now) s.db with
  | error e =>
      simp only [tickStep, hr, Option.some.injEq] at h
      exact h ▸ .refl s
  | ok p =>
      obtain ⟨r, db⟩ := p
      have hrows := reserveCommand_evolves hr
      cases r with
      | none =>
          simp only [tickStep, hr, Option.some.injEq] at h
          subst h
          exact .quiet hrows (List.Subset.refl _) rfl rfl
            (Settles.same _ _ rfl)
      | some c =>
          simp only [tickStep, hr] at h
          split at h
          · cases h
            refine .quiet hrows (List.Subset.refl _) rfl rfl fun d' => ?_
            by_cases hd : d' = d
            · subst hd
              exact .inr (.inr ⟨c, by simp [Delivery.setTick],
                reserveCommand_find hr⟩)
            · exact .inl
                (by simp [Delivery.setTick, Function.update_of_ne hd])
          · cases h
            exact .quiet hrows (List.Subset.refl _) rfl rfl
              (Settles.same _ _ rfl)

theorem tickStep_change {s t : Delivery} {d : Nat} {next : TickStep}
    (h : tickStep dates s d (s.dispatchers d) next = some t) :
    Change s t := by
  cases hpc : s.dispatchers d with
  | idle =>
      rw [hpc] at h
      cases next with
      | reserve now => exact reserveTick_change h
      | crash =>
          cases h
          exact .of_ok_idle d (.refl _)
      | _ => cases h
  | reserved c =>
      rw [hpc] at h
      cases next with
      | busy now =>
          cases hx : deferCommand dates now c.commandId "recipient busy"
              (dates.toISOString (now + BUSY_RETRY_MS)) s.db with
          | error e =>
              simp only [tickStep, hx, Option.some.injEq] at h
              exact h ▸ .refl s
          | ok p =>
              simp only [tickStep, hx, Option.some.injEq] at h
              subst h
              exact .of_ok_idle d (deferCommand_evolves hx)
      | dead now =>
          cases h
          exact .of_after_idle d fun _ _ hx => failTransport_evolves hx
      | startSend now =>
          cases h
          refine startSend_change (fun u => ⟨rfl, rfl, rfl, rfl⟩) ?_
          intro u hu
          refine .inr ⟨d, c, hpc, rfl, ?_⟩
          simp [Delivery.setTick, hu]
      | failed now reason =>
          cases h
          exact .of_after_idle d fun _ _ hx => failTransport_evolves hx
      | crash =>
          cases h
          exact .of_ok_idle d (.refl _)
      | _ => cases h
  | started c =>
      rw [hpc] at h
      cases next with
      | handOver =>
          cases h
          exact .handOver d c hpc rfl rfl rfl rfl rfl
      | failed now reason =>
          cases h
          exact .of_after_idle d fun _ _ hx => failTransport_evolves hx
      | crash =>
          cases h
          exact .of_ok_idle d (.refl _)
      | _ => cases h
  | handed c =>
      rw [hpc] at h
      cases next with
      | sent now =>
          cases hx : markSent dates now c.commandId s.db with
          | error e =>
              simp only [tickStep, hx, Option.some.injEq] at h
              exact h ▸ .refl s
          | ok p =>
              simp only [tickStep, hx, Option.some.injEq] at h
              subst h
              exact .of_ok_idle d (markSent_evolves hx)
      | failed now reason =>
          cases h
          exact .of_after_idle d fun _ _ hx => failTransport_evolves hx
      | crash =>
          cases h
          exact .of_ok_idle d (.refl _)
      | _ => cases h

theorem enqueue_change {s : Delivery} {now : Int} {commandId : String}
    {caller : Caller} {input : EnqueueCommand}
    (hfresh : commandId ∉ s.issued) :
    Change s (({ s with issued := s.issued ++ [commandId] } : Delivery).after
      (enqueueCommand dates now commandId caller input)) := by
  have hquiet : ∀ db : EventsDb, db.commands = s.db.commands →
      Change s { s with issued := s.issued ++ [commandId], db := db } := by
    intro db hdb
    refine .quiet ?_ (List.subset_append_left _ _) rfl rfl
      (Settles.same _ _ rfl)
    rw [hdb]
    exact .refl _
  rcases Txn.commit_cases (enqueueCommand dates now commandId caller input)
    s.db with ⟨r, hr⟩ | hsame
  · rcases enqueueCommand_ok hr with hrows | ⟨c, hc, hrows⟩
    · exact hquiet _ hrows
    · obtain ⟨rfl, hc⟩ := hc
      exact .insert c hfresh ⟨rfl, hc⟩ hrows rfl rfl rfl rfl
  · exact hquiet _ (congrArg EventsDb.commands hsame)

/-- Every step of the system is one of the four changes. -/
theorem step_change {s t : Delivery} {a : Action}
    (h : step dates s a = some t) : Change s t := by
  cases a with
  | enqueue now commandId caller input =>
      simp only [step] at h
      split at h
      · cases h
      · rename_i hfresh
        cases h
        exact enqueue_change hfresh
  | reserve now at_ =>
      cases h
      exact .of_after fun _ _ hx => reserveCommand_evolves hx
  | markSendStarted now commandId =>
      cases h
      exact startSend_change (fun u => ⟨rfl, rfl, rfl, rfl⟩)
        fun u hu => .inl hu
  | markSent now commandId =>
      cases h
      exact .of_after fun _ _ hx => markSent_evolves hx
  | acknowledge now commandId principal ack =>
      cases h
      exact .of_after fun _ _ hx => acknowledgeCommand_evolves hx
  | acknowledgeFromRuntime now commandId sessionId ack reason =>
      cases h
      exact .of_after fun _ _ hx => acknowledgeFromRuntime_evolves hx
  | failTransport now commandId reason =>
      cases h
      exact .of_after fun _ _ hx => failTransport_evolves hx
  | reconcile now at_ staleAfterMs =>
      cases h
      exact .of_after fun _ _ hx => reconcileCommands_evolves hx
  | resolveUnknown now commandId principal outcome reason =>
      cases h
      exact .of_after fun _ _ hx => resolveUnknownCommand_evolves hx
  | defer now commandId reason retryAt =>
      cases h
      exact .of_after fun _ _ hx => deferCommand_evolves hx
  | tick d next => exact tickStep_change h
  | replaceRuns runs =>
      cases h
      exact .quiet (.replaceRuns _ _) (List.Subset.refl _) rfl rfl
        (Settles.same _ _ rfl)
  | replaceSessions sessions =>
      cases h
      exact .quiet (.replaceSessions _ _) (List.Subset.refl _) rfl rfl
        (Settles.same _ _ rfl)

end OrcState.Command
