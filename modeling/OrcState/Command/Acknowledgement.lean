import OrcState.Command.Safety

/-!
# Acknowledgements commute

The provider answers for a command in protocol frames, and they race with the
send's own completion or failure.  Here the frames of one command arrive in any
order and any number of times, together with the `markSent` and `failTransport`
calls of the dispatcher that sent it.  `Frame.passes` says which states one of
them takes the command through; the stage of the command only grows, so where
it ends depends on which frames arrived and not on when.
-/

namespace OrcState.Command

open OrcState.Contract OrcState.Foundation OrcState.Store

variable {dates : DateApi} {now : Int}

/-! ## Events of a command are accepted -/

def CommandState.eventName : CommandState → EventName
  | .queued => .commandQueued
  | .dispatching => .commandDispatching
  | .sent => .commandSent
  | .accepted => .commandAccepted
  | .running => .commandRunning
  | .completed => .commandCompleted
  | .failed => .commandFailed
  | .cancelled => .commandCancelled
  | .outcomeUnknown => .commandOutcomeUnknown

theorem AckState.event_eq (ack : AckState) :
    ack.event = CommandState.eventName ack.state := by
  cases ack <;> rfl

structure Loggable (db : EventsDb) (c : DurableCommand) : Prop where
  owner : ∃ owner, db.runs.find? c.runId = some owner ∧
    taskRefRe owner.taskRef = true
  runId : runIdRe c.runId = true
  recipientId : agentIdRe c.recipientId = true
  commandId : c.commandId ≠ ""

def Reports (c : DurableCommand) (e : OrcEvent) : Prop :=
  e.runId = some c.runId ∧ e.agentId = some c.recipientId ∧
    e.field "command_id" = some (.str c.commandId) ∧
    e.field "state" = some (.str c.state.text)

theorem CommandState.text_ne_empty (state : CommandState) :
    state.text ≠ "" := by
  cases state <;> decide

/-- Which clauses of the validation speak of a command event. -/
theorem commandEvent_clauses (dates : DateApi) {e : OrcEvent}
    (hname : commandEvents.contains e.event = true) :
    validatePayload dates e = [] ∧ taskEvents.contains e.event = false ∧
      agentEvents.contains e.event = false ∧
      [EventName.inputRequested, .inputResponse].contains e.event = false ∧
      workerRunEvents.contains e.event = true ∧
      runLifecycleEvents.contains e.event = true := by
  have hpayload : ∀ name, name ∈ commandEvents → e.event = name →
      validatePayload dates e = [] := by
    intro name hmem hevent
    simp only [commandEvents, List.mem_cons, List.not_mem_nil, or_false] at hmem
    rcases hmem with rfl | rfl | rfl | rfl | rfl | rfl | rfl | rfl | rfl | rfl
    all_goals simp only [validatePayload, hevent]
  refine ⟨hpayload e.event (by simpa using hname) rfl, ?_⟩
  revert hname
  generalize e.event = name
  cases name <;> decide

theorem validate_commandEvent {e : OrcEvent} (c : DurableCommand)
    {taskRef : TaskRef} (hname : commandEvents.contains e.event = true)
    (hts : dates.isDateTime e.ts = true) (hseq : 1 ≤ e.seq)
    (href : e.taskRef = some taskRef) (he : Reports c e) :
    validateEventObject dates e = [] ↔
      runIdRe c.runId = true ∧ taskRefRe taskRef = true ∧
        agentIdRe c.recipientId = true ∧ c.commandId ≠ "" := by
  obtain ⟨hrun, hagent, hid, hstate⟩ := he
  have hschema : validateSchema dates e = [] ↔
      runIdRe c.runId = true ∧ taskRefRe taskRef = true ∧
        agentIdRe c.recipientId = true := by
    have hseq' : decide (e.seq < 1) = false := decide_eq_false (by omega)
    simp only [validateSchema, List.append_eq_nil_iff, complainIf_eq_nil, hts,
      hrun, href, hagent, hseq', Option.any_some, Bool.not_eq_eq_eq_not,
      Bool.not_true, Bool.not_false, true_and, and_assoc]
  have hcore : validateCoreEventInvariants dates e = [] ↔
      truthy (some c.runId) = true ∧ taskRefRe taskRef = true ∧
        agentIdRe c.recipientId = true ∧ c.commandId ≠ "" := by
    obtain ⟨hpayload, htask, hagents, hinput, hworker, hcycle⟩ :=
      commandEvent_clauses dates hname
    have hstate' : decide (c.state.text ≠ "") = true :=
      decide_eq_true (CommandState.text_ne_empty c.state)
    simp only [validateCoreEventInvariants, hname, hpayload, htask, hagents,
      hinput, hworker, hcycle, hrun, href, hagent, hid, hstate, requireRunId,
      requireTaskRef, requireAgentId, requireNonEmptyString,
      requirePayloadField, isNonEmptyString, hstate', Option.any_some,
      List.append_eq_nil_iff, complainIf_eq_nil, Bool.not_eq_eq_eq_not,
      Bool.not_false, Bool.false_eq_true, if_true, if_false, and_true,
      true_and, and_assoc, decide_eq_true_eq]
  rw [validateEventObject, List.append_eq_nil_iff, hschema, hcore]
  constructor
  · rintro ⟨⟨h₁, h₂, h₃⟩, -, -, -, h₄⟩
    exact ⟨h₁, h₂, h₃, h₄⟩
  · rintro ⟨h₁, h₂, h₃, h₄⟩
    exact ⟨⟨h₁, h₂, h₃⟩, truthy_of_runIdRe h₁, h₂, h₃, h₄⟩

theorem Loggable.carry {db db' : EventsDb} {c d : DurableCommand}
    (h : Loggable db c) (hruns : db'.runs = db.runs)
    (hrun : d.runId = c.runId) (hto : d.recipientId = c.recipientId)
    (hid : d.commandId = c.commandId) : Loggable db' d := by
  obtain ⟨howner, hr, ha, hne⟩ := h
  refine ⟨?_, ?_, ?_, ?_⟩
  · rw [hruns, hrun]
    exact howner
  · rw [hrun]
    exact hr
  · rw [hto]
    exact ha
  · rw [hid]
    exact hne

theorem event_returns (dates : DateApi) (now : Int) (reason : Option String)
    {db : EventsDb} {c : DurableCommand} {name : EventName}
    (hname : commandEvents.contains name = true)
    (h : Loggable db c) :
    ∃ e, e.event = name ∧ Reports c e ∧
      event dates now c name reason db = .ok ((), db.logged e) := by
  obtain ⟨⟨owner, hfind, href⟩, hrun, hto, hid⟩ := h
  simp only [event, Txn.bind_ok, runRow, Txn.get_ok, Txn.orThrow_ok,
    appendSequencedEvent_ok]
  refine ⟨_, ?_, ?_, owner, db, ⟨db, db, ⟨rfl, rfl⟩, hfind, rfl⟩, ?_, rfl⟩
  · rfl
  · exact ⟨rfl, rfl, rfl, rfl⟩
  · exact (validate_commandEvent c hname
      (dates.isDateTime_toISOString now) (Nat.le_refl 1) rfl
      ⟨rfl, rfl, rfl, rfl⟩).mpr ⟨hrun, href, hto, hid⟩

theorem event_loggable {s t : EventsDb} {c : DurableCommand}
    {name : EventName} {reason : Option String} {u : Unit}
    (hname : commandEvents.contains name = true)
    (h : event dates now c name reason s = .ok (u, t)) : Loggable s c := by
  simp only [event, Txn.bind_ok, appendSequencedEvent_ok] at h
  obtain ⟨owner, m, howner, hvalid, -⟩ := h
  obtain ⟨hfind, rfl⟩ := runRow_ok howner
  obtain ⟨hrun, href, hto, hid⟩ := (validate_commandEvent c hname
    (dates.isDateTime_toISOString now) (Nat.le_refl 1) rfl ⟨rfl, rfl, rfl, rfl⟩).mp hvalid
  exact ⟨⟨owner, hfind, href⟩, hrun, hto, hid⟩

theorem updateRow_returns (dates : DateApi) (now : Int)
    (reason : Option String) {db : EventsDb} {c : DurableCommand}
    {f : DurableCommand → DurableCommand}
    (hf : ∀ c, (f c).commandId = c.commandId) {name : EventName}
    (hc : db.commands.find? c.commandId = some c) (hl : Loggable db c) (hrun : (f c).runId = c.runId)
    (hto : (f c).recipientId = c.recipientId)
    (hname : commandEvents.contains name = true) :
    ∃ e, e.event = name ∧ Reports (f c) e ∧
      updateRow dates now c.commandId f hf name reason db = .ok (f c,
        ({ db with commands := db.commands.update c.commandId f hf } :
          EventsDb).logged e) := by
  have hl' : Loggable
      { db with commands := db.commands.update c.commandId f hf } (f c) :=
    hl.carry rfl hrun hto (hf c)
  obtain ⟨e, he, hreports, hevent⟩ := event_returns dates now reason hname hl'
  have hfind : (db.commands.update c.commandId f hf).find? c.commandId =
      some (f c) := Table.find?_update_self hc
  refine ⟨e, he, hreports, ?_⟩
  simp only [updateRow, Txn.bind_ok, Txn.modify_ok, Txn.pure_ok, row,
    Txn.get_ok, Txn.orThrow_ok]
  exact ⟨(), _, rfl, f c, _, ⟨_, _, ⟨rfl, rfl⟩, hfind, rfl⟩, (), _, hevent,
    rfl, rfl⟩

/-! ## Frames -/

/-- What reaches one command after its send has started. -/
inductive Frame where
  | ack (state : AckState) (reason : Option String)
  | sent
  | failed (reason : String)
  deriving DecidableEq, Repr

def Frame.deliver (dates : DateApi) (now : Int) (commandId sessionId : String) :
    Frame → Db DurableCommand
  | .ack state reason =>
      acknowledgeFromRuntime dates now commandId sessionId state reason
  | .sent => markSent dates now commandId
  | .failed reason => failTransport dates now commandId reason

def Frame.ackState : Frame → Option AckState
  | .ack state _ => some state
  | .sent | .failed _ => none

def Frame.stamp (dates : DateApi) (now : Int) : Frame → Option String
  | .ack _ _ => some (dates.toISOString now)
  | .sent | .failed _ => none

/-- The states a frame takes a command through, in order. -/
def Frame.passes : Frame → CommandState → List CommandState
  | .ack state _, current =>
      if ackRank state.state ≤ ackRank current then []
      else if current = .accepted ∨ current = .running then [state.state]
      else if state = .accepted then [.accepted]
      else [.accepted, state.state]
  | .sent, current => if current = .dispatching then [.sent] else []
  | .failed _, current =>
      if current = .dispatching then [.outcomeUnknown] else []

def stage : CommandState → Nat
  | .queued | .dispatching => 0
  | .sent | .outcomeUnknown => 1
  | .accepted => 2
  | .running => 3
  | .completed | .failed | .cancelled => 4

theorem Frame.passes_ascend (frame : Frame) (current : CommandState) :
    (frame.passes current).Pairwise (fun a b => stage a < stage b) ∧
      (∀ state ∈ frame.passes current, stage current < stage state) ∧
      ∀ state ∈ frame.passes current,
        stage state ≤ stage ((frame.passes current).getLast?.getD current) := by
  cases frame with
  | ack state reason =>
      cases state <;> cases current <;>
        simp [Frame.passes, ackRank, AckState.state, stage]
  | sent => cases current <;> simp [Frame.passes, stage]
  | failed reason => cases current <;> simp [Frame.passes, stage]

/-- A side effect whose send has started; `acknowledged_at` goes with its rank. -/
structure Sending (c : DurableCommand) : Prop where
  sideEffecting : c.sideEffecting = true
  started : Started c
  acknowledged : 0 < ackRank c.state → c.acknowledgedAt.isSome = true

/--
What a call leaves of command `c`: the row `d`, past `states`, each logged; and
`stamp`, the time of an acknowledgement that came.
-/
structure Passed (db : EventsDb) (c : DurableCommand) (db' : EventsDb)
    (d : DurableCommand) (states : List CommandState)
    (stamp : Option String) : Prop where
  row : db'.commands.find? c.commandId = some d
  runs : db'.runs = db.runs
  commandId : d.commandId = c.commandId
  runId : d.runId = c.runId
  recipientId : d.recipientId = c.recipientId
  sessionId : d.sessionId = c.sessionId
  sideEffecting : d.sideEffecting = c.sideEffecting
  started : Started c → Started d
  state : d.state = states.getLast?.getD c.state
  acknowledgedAt : d.acknowledgedAt = c.acknowledgedAt.or stamp
  events : ∃ new, db'.events = db.events ++ new ∧
    List.Forall₂ (fun e state => e.event = CommandState.eventName state ∧
      e.field "command_id" = some (.str c.commandId)) new states

theorem Passed.refl {db : EventsDb} {c : DurableCommand}
    (hc : db.commands.find? c.commandId = some c) :
    Passed db c db c [] none :=
  ⟨hc, rfl, rfl, rfl, rfl, rfl, rfl, id, rfl, by simp, [], by simp, .nil⟩

theorem Passed.trans {db₁ db₂ db₃ : EventsDb} {c d e : DurableCommand}
    {states states' : List CommandState} {stamp stamp' : Option String}
    (h : Passed db₁ c db₂ d states stamp)
    (h' : Passed db₂ d db₃ e states' stamp') :
    Passed db₁ c db₃ e (states ++ states') (stamp.or stamp') := by
  obtain ⟨new, hnew, hlogged⟩ := h.events
  obtain ⟨new', hnew', hlogged'⟩ := h'.events
  rw [h.commandId] at hlogged'
  constructor
  · rw [← h.commandId]
    exact h'.row
  · exact h'.runs.trans h.runs
  · exact h'.commandId.trans h.commandId
  · exact h'.runId.trans h.runId
  · exact h'.recipientId.trans h.recipientId
  · exact h'.sessionId.trans h.sessionId
  · exact h'.sideEffecting.trans h.sideEffecting
  · exact fun hs => h'.started (h.started hs)
  · rw [h'.state, h.state, List.getLast?_append]
    cases states'.getLast? with
    | none => rfl
    | some state => rfl
  · rw [h'.acknowledgedAt, h.acknowledgedAt, Option.or_assoc]
  · refine ⟨new ++ new', ?_, ?_⟩
    · rw [hnew', hnew, List.append_assoc]
    · exact List.rel_append hlogged hlogged'

theorem Passed.loggable {db db' : EventsDb} {c d : DurableCommand}
    {states : List CommandState} {stamp : Option String}
    (h : Passed db c db' d states stamp) (hl : Loggable db c) :
    Loggable db' d :=
  hl.carry h.runs h.runId h.recipientId h.commandId

theorem Passed.found {db db' : EventsDb} {c d : DurableCommand}
    {states : List CommandState} {stamp : Option String}
    (h : Passed db c db' d states stamp) :
    db'.commands.find? d.commandId = some d := by
  rw [h.commandId]
  exact h.row

theorem updateRow_passes (dates : DateApi) (now : Int)
    (reason : Option String) {db : EventsDb} {c : DurableCommand}
    (f : DurableCommand → DurableCommand)
    (hf : ∀ c, (f c).commandId = c.commandId) (state : CommandState)
    (stamp : Option String)
    (hc : db.commands.find? c.commandId = some c) (hl : Loggable db c)
    (hstate : (f c).state = state) (hrun : (f c).runId = c.runId)
    (hto : (f c).recipientId = c.recipientId)
    (hsession : (f c).sessionId = c.sessionId)
    (hside : (f c).sideEffecting = c.sideEffecting)
    (hstarted : Started c → Started (f c))
    (hacked : (f c).acknowledgedAt = c.acknowledgedAt.or stamp) :
    ∃ d db', updateRow dates now c.commandId f hf
        (CommandState.eventName state) reason db = .ok (d, db') ∧
      Passed db c db' d [state] stamp := by
  have hname : commandEvents.contains (CommandState.eventName state) = true := by
    cases state <;> decide
  obtain ⟨e, he, hreports, hreturns⟩ := updateRow_returns dates now reason hf
    hc hl hrun hto hname
  refine ⟨f c, _, hreturns, ?_⟩
  have hrow : (db.commands.update c.commandId f hf).find? c.commandId =
      some (f c) := Table.find?_update_self hc
  refine ⟨hrow, rfl, hf c, hrun, hto, hsession, hside, hstarted, hstate,
    hacked, [{ e with seq := db.lastSeq + 1 }], rfl, ?_⟩
  refine .cons ⟨he, ?_⟩ .nil
  have hid := hreports.2.2.1
  rw [hf c] at hid
  exact hid

/-! ## One frame -/

section Step

variable {db : EventsDb} {c : DurableCommand}

theorem row_returns {id : String} (hc : db.commands.find? id = some c) :
    row id db = .ok (c, db) := by
  simp only [row, Txn.bind_ok, Txn.get_ok, Txn.orThrow_ok]
  exact ⟨db, db, ⟨rfl, rfl⟩, hc, rfl⟩

theorem applyAck_passes (dates : DateApi) (now : Int) (ack : AckState)
    (reason : Option String) (hc : db.commands.find? c.commandId = some c)
    (hl : Loggable db c) (hs : Started c) (hallowed : c.state ∈ ack.allowed) :
    ∃ d db', applyAck dates now c ack reason db = .ok (d, db') ∧
      Passed db c db' d [ack.state] (some (dates.toISOString now)) := by
  have hguard : ¬ (c.state ∉ ack.allowed ∨
      (c.state = .dispatching ∧ truthy c.sendStartedAt = false)) := by
    rintro (h | ⟨hd, h⟩)
    · exact h hallowed
    · rw [hs.2 hd] at h
      cases h
  obtain ⟨d, db', hreturns, hpassed⟩ := updateRow_passes dates now reason
    (fun c =>
      { c with
        state := ack.state
        acknowledgedAt := c.acknowledgedAt.or (some (dates.toISOString now))
        terminalAt :=
          if ack.state.terminal then some (dates.toISOString now) else none
        lastError := reason.or c.lastError })
    (fun _ => rfl) ack.state (some (dates.toISOString now)) hc hl rfl rfl rfl
    rfl rfl
    (fun _ => ⟨ack.state_ne_queued, fun h => absurd h ack.state_ne_dispatching⟩)
    rfl
  refine ⟨d, db', ?_, hpassed⟩
  simp only [applyAck, Txn.bind_ok, Txn.throwIf_ok, AckState.event_eq]
  exact ⟨(), db, ⟨hguard, rfl⟩, hreturns⟩

theorem AckState.rank_pos (ack : AckState) : 0 < ackRank ack.state := by
  cases ack <;> decide

theorem Sending.behind (hs : Sending c)
    (hc : db.commands.find? c.commandId = some c) (stamp : String)
    (h : 0 < ackRank c.state) : Passed db c db c [] (some stamp) := by
  obtain ⟨first, hfirst⟩ := Option.isSome_iff_exists.mp (hs.acknowledged h)
  refine { Passed.refl hc with acknowledgedAt := ?_ }
  rw [hfirst]
  rfl

theorem acceptFirst_passes (dates : DateApi) (now : Int) {ack : AckState}
    (hc : db.commands.find? c.commandId = some c) (hl : Loggable db c)
    (hs : Sending c) (hrank : ackRank c.state < ackRank ack.state) :
    ∃ d db', acceptFirst dates now c db = .ok (d, db') ∧
      (d.state = .accepted ∨ d.state = .running) ∧
      (ack ≠ .accepted → ackRank d.state < ackRank ack.state) ∧
      Passed db c db' d
        (if c.state = .accepted ∨ c.state = .running then [] else [.accepted])
        (some (dates.toISOString now)) := by
  by_cases h : c.state = .accepted ∨ c.state = .running
  · have hpos : 0 < ackRank c.state := by
      rcases h with h | h <;> rw [h] <;> decide
    rw [acceptFirst, if_neg (by tauto), if_pos h]
    exact ⟨c, db, rfl, h, fun _ => hrank, hs.behind hc _ hpos⟩
  · have hallowed : c.state ∈ AckState.accepted.allowed := by
      have hq := hs.started.1
      revert hrank hq h
      cases c.state <;> cases ack <;> decide
    obtain ⟨d, db', happly, hpassed⟩ := applyAck_passes dates now .accepted none
      hc hl hs.started hallowed
    rw [acceptFirst, if_pos (by tauto), if_neg h]
    have hstate : d.state = .accepted := hpassed.state
    refine ⟨d, db', happly, .inl hstate, fun hne => ?_, hpassed⟩
    rw [hstate]
    revert hne
    cases ack <;> decide

theorem AckState.allowed_of_rank {ack : AckState} {current : CommandState}
    (h : current = .accepted ∨ current = .running)
    (hrank : ackRank current < ackRank ack.state) :
    current ∈ ack.allowed := by
  revert hrank
  rcases h with rfl | rfl <;> cases ack <;> decide

theorem acknowledgeFromRuntime_passes (dates : DateApi) (now : Int)
    (ack : AckState) (reason : Option String) {sessionId : String}
    (hc : db.commands.find? c.commandId = some c) (hl : Loggable db c)
    (hs : Sending c) (hsession : c.sessionId = some sessionId) :
    ∃ r d db', acknowledgeFromRuntime dates now c.commandId sessionId ack reason
        db = .ok (r, db') ∧
      Passed db c db' d ((Frame.ack ack reason).passes c.state)
        (some (dates.toISOString now)) := by
  have hguard : ¬ (c.state = .queued ∨
      (c.state = .dispatching ∧ truthy c.sendStartedAt = false)) := by
    rintro (h | ⟨hd, h⟩)
    · exact hs.started.1 h
    · rw [hs.started.2 hd] at h
      cases h
  rw [acknowledgeFromRuntime, Txn.bind_of_ok (row_returns hc),
    Txn.throwIf_bind (not_not.mpr hsession), Txn.throwIf_bind hguard]
  by_cases hrank : ackRank ack.state ≤ ackRank c.state
  · have hpos := ack.rank_pos
    rw [if_pos hrank, Frame.passes, if_pos hrank]
    exact ⟨c, c, db, rfl, hs.behind hc _ (by omega)⟩
  · rw [if_neg hrank, Frame.passes, if_neg hrank]
    simp only [Txn.bind_ok]
    obtain ⟨c₁, m, hfirst, hstate, hlt, hpassed⟩ :=
      acceptFirst_passes dates now hc hl hs (Nat.lt_of_not_le hrank)
    by_cases hacc : ack = .accepted
    · subst hacc
      have hbehind : ¬ (c.state = .accepted ∨ c.state = .running) := by
        rintro (h | h) <;> exact hrank (by rw [h]; decide)
      rw [if_neg hbehind] at hpassed ⊢
      exact ⟨c₁, c₁, m, ⟨c₁, m, hfirst, rfl⟩, hpassed⟩
    · have hahead := hlt hacc
      have hlast := fun reason => applyAck_passes dates now ack reason
        hpassed.found (hpassed.loggable hl) (hpassed.started hs.started)
        (AckState.allowed_of_rank hstate hahead)
      have hjoin : ∀ {d db'},
          Passed m c₁ db' d [ack.state] (some (dates.toISOString now)) →
          Passed db c db' d
            (if c.state = .accepted ∨ c.state = .running then [ack.state]
              else if ack = .accepted then [.accepted]
              else [.accepted, ack.state])
            (some (dates.toISOString now)) := by
        intro d db' h
        have hboth := hpassed.trans h
        rw [if_neg hacc]
        by_cases hfirst : c.state = .accepted ∨ c.state = .running
        · rw [if_pos hfirst] at hboth ⊢
          exact hboth
        · rw [if_neg hfirst] at hboth ⊢
          exact hboth
      cases ack with
      | accepted => exact absurd rfl hacc
      | running =>
          obtain ⟨d, db', happly, h⟩ := hlast none
          have hne : c₁.state ≠ .running := by
            intro heq
            rw [heq] at hahead
            exact absurd hahead (by decide)
          refine ⟨d, d, db', ⟨c₁, m, hfirst, ?_⟩, hjoin h⟩
          change (if c₁.state = .running then pure c₁
            else applyAck dates now c₁ .running none : Db DurableCommand) m = _
          rw [if_neg hne]
          exact happly
      | completed | failed =>
          obtain ⟨d, db', happly, h⟩ := hlast reason
          exact ⟨d, d, db', ⟨c₁, m, hfirst, happly⟩, hjoin h⟩

theorem markSent_passes (dates : DateApi) (now : Int)
    (hc : db.commands.find? c.commandId = some c) (hl : Loggable db c)
    (hs : Sending c) :
    ∃ r d db', markSent dates now c.commandId db = .ok (r, db') ∧
      Passed db c db' d (Frame.sent.passes c.state) none := by
  simp only [markSent, Txn.bind_ok]
  by_cases hd : c.state = .dispatching
  · obtain ⟨d, db', hreturns, hpassed⟩ := updateRow_passes dates now none
      (fun c =>
        { c with
          state := .sent
          deliveredAt := some (dates.toISOString now) })
      (fun _ => rfl) .sent none hc hl rfl rfl rfl rfl rfl
      (fun _ => ⟨by rintro ⟨⟩, by rintro ⟨⟩⟩) (by simp)
    have hguard : ¬ (c.state ≠ .dispatching ∨
        truthy c.sendStartedAt = false) := by
      rintro (h | h)
      · exact h hd
      · rw [hs.started.2 hd] at h
        cases h
    refine ⟨d, d, db', ⟨c, db, row_returns hc, ?_⟩, ?_⟩
    · rw [if_neg hguard]
      exact hreturns
    · rw [Frame.passes, if_pos hd]
      exact hpassed
  · refine ⟨c, c, db, ⟨c, db, row_returns hc, ?_⟩, ?_⟩
    · rw [if_pos (.inl hd)]
      rfl
    · rw [Frame.passes, if_neg hd]
      exact .refl hc

theorem failTransport_passes (dates : DateApi) (now : Int) (reason : String)
    (hc : db.commands.find? c.commandId = some c) (hl : Loggable db c)
    (hs : Sending c) :
    ∃ r d db', failTransport dates now c.commandId reason db = .ok (r, db') ∧
      Passed db c db' d ((Frame.failed reason).passes c.state) none := by
  simp only [failTransport, Txn.bind_ok]
  by_cases hd : c.state = .dispatching
  · obtain ⟨d, db', hreturns, hpassed⟩ := updateRow_passes dates now (some reason)
      (fun c =>
        { c with
          state := .outcomeUnknown
          lastError := some reason
          terminalAt := some (dates.toISOString now) })
      (fun _ => rfl) .outcomeUnknown none hc hl rfl rfl rfl rfl rfl
      (fun _ => ⟨by rintro ⟨⟩, by rintro ⟨⟩⟩) (by simp)
    refine ⟨d, d, db', ⟨c, db, row_returns hc, ?_⟩, ?_⟩
    · rw [if_neg (not_not.mpr hd), if_pos ⟨hs.started.2 hd, hs.sideEffecting⟩]
      exact hreturns
    · rw [Frame.passes, if_pos hd]
      exact hpassed
  · refine ⟨c, c, db, ⟨c, db, row_returns hc, ?_⟩, ?_⟩
    · rw [if_pos hd]
      rfl
    · rw [Frame.passes, if_neg hd]
      exact .refl hc

theorem Frame.deliver_passes (dates : DateApi) (now : Int) (frame : Frame)
    {sessionId : String} (hc : db.commands.find? c.commandId = some c)
    (hl : Loggable db c) (hs : Sending c)
    (hsession : c.sessionId = some sessionId) :
    ∃ r d db', frame.deliver dates now c.commandId sessionId db =
        .ok (r, db') ∧
      Passed db c db' d (frame.passes c.state) (frame.stamp dates now) := by
  cases frame with
  | ack state reason =>
      exact acknowledgeFromRuntime_passes dates now state reason hc hl hs
        hsession
  | sent => exact markSent_passes dates now hc hl hs
  | failed reason => exact failTransport_passes dates now reason hc hl hs

theorem Frame.passes_state (frame : Frame) {current next : CommandState}
    (h : next = (frame.passes current).getLast?.getD current) :
    ackRank current ≤ ackRank next ∧
      (∀ ack, frame.ackState = some ack →
        ackRank ack.state ≤ ackRank next) ∧
      (next = current ∨ ackRank next = 0 ∨
        ∃ ack, frame.ackState = some ack ∧ next = ack.state) := by
  subst h
  cases frame with
  | ack state reason =>
      cases state <;> cases current <;>
        simp [Frame.passes, Frame.ackState, ackRank, AckState.state]
  | sent =>
      cases current <;> simp [Frame.passes, Frame.ackState, ackRank]
  | failed reason =>
      cases current <;> simp [Frame.passes, Frame.ackState, ackRank]

theorem Frame.passes_stage (frame : Frame) {current next : CommandState}
    (h : next = (frame.passes current).getLast?.getD current) :
    stage current ≤ stage next := by
  subst h
  cases hlast : (frame.passes current).getLast? with
  | none => exact Nat.le_refl _
  | some state =>
      have hmem := List.mem_of_getLast? hlast
      exact ((frame.passes_ascend current).2.1 state hmem).le

theorem Passed.sending {db' : EventsDb} {d : DurableCommand} {frame : Frame}
    (h : Passed db c db' d (frame.passes c.state) (frame.stamp dates now))
    (hs : Sending c) : Sending d := by
  refine ⟨h.sideEffecting.trans hs.sideEffecting, h.started hs.started, ?_⟩
  intro hpos
  obtain ⟨-, -, hsame | hzero | ⟨ack, hack, -⟩⟩ := frame.passes_state h.state
  · rw [hsame] at hpos
    have hsome := hs.acknowledged hpos
    rw [h.acknowledgedAt]
    simp [hsome]
  · omega
  · rw [h.acknowledgedAt]
    cases frame with
    | ack state reason => simp [Frame.stamp]
    | sent => cases hack
    | failed reason => cases hack

end Step

/-! ## Every order of frames -/

def deliverAll (dates : DateApi) (commandId sessionId : String)
    (frames : List (Int × Frame)) : Db Unit :=
  frames.forM fun f => do
    let _ ← f.2.deliver dates f.1 commandId sessionId

def acknowledgements (frames : List (Int × Frame)) : List AckState :=
  frames.filterMap (·.2.ackState)

def firstAcknowledgedAt (dates : DateApi) (frames : List (Int × Frame)) :
    Option String :=
  frames.findSome? fun f => f.2.stamp dates f.1

theorem mem_acknowledgements_cons {f : Int × Frame}
    {frames : List (Int × Frame)} {ack : AckState} :
    ack ∈ acknowledgements (f :: frames) ↔
      f.2.ackState = some ack ∨ ack ∈ acknowledgements frames := by
  simp [acknowledgements, List.mem_filterMap]

theorem deliverAll_passes (dates : DateApi) {sessionId : String}
    (frames : List (Int × Frame)) {db : EventsDb} {c : DurableCommand}
    (hc : db.commands.find? c.commandId = some c) (hl : Loggable db c)
    (hs : Sending c) (hsession : c.sessionId = some sessionId) :
    ∃ db' d states, deliverAll dates c.commandId sessionId frames db =
        .ok ((), db') ∧
      Passed db c db' d states (firstAcknowledgedAt dates frames) ∧
      states.Pairwise (fun a b => stage a < stage b) ∧
      (∀ state ∈ states, stage c.state < stage state) ∧
      ackRank c.state ≤ ackRank d.state ∧
      (∀ ack ∈ acknowledgements frames,
        ackRank ack.state ≤ ackRank d.state) ∧
      (d.state = c.state ∨ ackRank d.state = 0 ∨
        ∃ ack ∈ acknowledgements frames, d.state = ack.state) := by
  induction frames generalizing db c with
  | nil =>
      exact ⟨db, c, [], rfl, .refl hc, .nil, by simp, Nat.le_refl _, by
        simp [acknowledgements], .inl rfl⟩
  | cons f rest ih =>
      obtain ⟨r, c₁, m, hdeliver, hpassed⟩ :=
        f.2.deliver_passes dates f.1 hc hl hs hsession
      obtain ⟨hmono, hack, hfrom⟩ := f.2.passes_state hpassed.state
      obtain ⟨hascend, habove, hbelow⟩ := f.2.passes_ascend c.state
      rw [← hpassed.state] at hbelow
      have hnext : stage c.state ≤ stage c₁.state :=
        f.2.passes_stage hpassed.state
      obtain ⟨db', d, states, hrest, hpassed', hascend', habove', hmono',
        hack', hfrom'⟩ := ih hpassed.found (hpassed.loggable hl)
        (hpassed.sending hs) (hpassed.sessionId.trans hsession)
      refine ⟨db', d, f.2.passes c.state ++ states, ?_, ?_, ?_, ?_, ?_, ?_, ?_⟩
      · rw [hpassed.commandId] at hrest
        exact Txn.forM_cons_ok.mpr
          ⟨m, Txn.bind_ok.mpr ⟨r, m, hdeliver, rfl⟩, hrest⟩
      · have hstamp : firstAcknowledgedAt dates (f :: rest) =
            (f.2.stamp dates f.1).or (firstAcknowledgedAt dates rest) := by
          simp only [firstAcknowledgedAt, List.findSome?_cons]
          cases f.2.stamp dates f.1 <;> rfl
        rw [hstamp]
        exact hpassed.trans hpassed'
      · refine List.pairwise_append.mpr ⟨hascend, hascend', ?_⟩
        intro a ha b hb
        exact Nat.lt_of_le_of_lt (hbelow a ha) (habove' b hb)
      · intro state hmem
        rcases List.mem_append.mp hmem with h | h
        · exact habove state h
        · exact Nat.lt_of_le_of_lt hnext (habove' state h)
      · exact hmono.trans hmono'
      · intro ack hmem
        rcases mem_acknowledgements_cons.mp hmem with h | h
        · exact (hack ack h).trans hmono'
        · exact hack' ack h
      · rcases hfrom' with h | h | ⟨ack, hmem, h⟩
        · rw [h]
          rcases hfrom with h | h | ⟨ack, hown, h⟩
          · exact .inl h
          · exact .inr (.inl h)
          · exact .inr (.inr
              ⟨ack, mem_acknowledgements_cons.mpr (.inl hown), h⟩)
        · exact .inr (.inl h)
        · exact .inr (.inr ⟨ack, mem_acknowledgements_cons.mpr (.inr hmem), h⟩)

/-! ## Nothing is acknowledged before its send -/

/-- Before the provider can answer there is no time of an answer. -/
def Unanswered (c : DurableCommand) : Prop :=
  c.state = .queued ∨ c.state = .dispatching ∨ c.state = .sent →
    c.acknowledgedAt = none

theorem Move.unanswered {c d : DurableCommand} (h : Move c d)
    (hc : Unanswered c) : Unanswered d := by
  cases h with
  | reserve at_ h => exact fun _ => hc (.inl h)
  | send stamp h hs => exact fun _ => hc (.inr (.inl h))
  | acknowledge ack stamp reason h hs =>
      rintro (h | h | h) <;> cases ack <;> cases h
  | fail stamp reason h => rintro (h | h | h) <;> cases h
  | lose stamp reason h hs => rintro (h | h | h) <;> cases h
  | requeue next reason h ha =>
      exact fun _ => hc (h.state.imp_right .inl)
  | postpone next reason h hs ha => exact fun _ => hc (.inr (.inl h))
  | resolve outcome stamp reason h =>
      rintro (h | h | h) <;> cases outcome <;> cases h
  | detach keep => exact hc

theorem startSend_issued {s : Delivery} {commandId : String}
    {next : Delivery → Delivery} (hnext : ∀ u, (next u).issued = u.issued) :
    (startSend dates s now commandId next).issued = s.issued := by
  unfold startSend
  split
  · rfl
  · exact hnext _

theorem tickStep_issued {s t : Delivery} {d : Nat} {next : TickStep}
    (h : tickStep dates s d (s.dispatchers d) next = some t) :
    t.issued = s.issued := by
  unfold tickStep at h
  split at h
  case h_5 =>
    cases h
    exact startSend_issued fun _ => rfl
  all_goals repeat' split at h
  all_goals cases h
  all_goals rfl

theorem step_fresh {s t : Delivery} {a : Action}
    (h : step dates s a = some t) :
    t.issued = s.issued ∨
      ∀ d, d ∈ t.db.commands →
        d ∈ s.db.commands ∨ d.acknowledgedAt = none := by
  cases a with
  | enqueue now commandId caller input =>
      simp only [step] at h
      split at h
      · cases h
      cases h
      refine .inr fun d hd => ?_
      rcases Txn.commit_cases
        (enqueueCommand dates now commandId caller input) s.db with
        ⟨r, hr⟩ | hsame
      · rcases enqueueCommand_inserts hr with hrows | ⟨payload, n, actor,
          recipient, -, hrows⟩
        · exact .inl (hrows ▸ hd)
        · change d ∈ ((enqueueCommand dates now commandId caller input).commit
            s.db).commands.rows at hd
          rw [hrows, List.mem_append, List.mem_singleton] at hd
          rcases hd with hold | rfl
          · exact .inl hold
          · exact .inr rfl
      · have hdb : ((enqueueCommand dates now commandId caller input).commit
            s.db).commands = s.db.commands := by rw [hsame]
        exact .inl (hdb ▸ hd)
  | markSendStarted now commandId =>
      cases h
      exact .inl (startSend_issued fun _ => rfl)
  | tick d next => exact .inl (tickStep_issued h)
  | _ =>
      cases h
      exact .inl rfl

theorem unanswered_reachable {s : Delivery}
    (hs : (delivery dates).Reachable s) :
    ∀ c, c ∈ s.db.commands → Unanswered c := by
  refine hs.invariant (I := fun s => ∀ c, c ∈ s.db.commands → Unanswered c)
    ?_ ?_
  · intro s hinit c hc
    rw [hinit.1] at hc
    exact absurd hc (Table.not_mem_empty c)
  · intro s t a hI ht d hd
    rcases (step_change ht).row hd with ⟨c, hc, hm⟩ |
      ⟨c, stamp, hc, -, -, -, rfl, -⟩ | ⟨hfresh, hissued, -⟩
    · exact hm.preserve (fun _ _ h hmove => hmove.unanswered h) (hI c hc)
    · exact hI c hc
    · rcases step_fresh ht with hsame | hnew
      · rw [hsame] at hissued
        exact absurd hissued hfresh
      · rcases hnew d hd with hold | hnone
        · exact hI d hold
        · exact fun _ => hnone

/-! ## The outcome of a send -/

theorem updateRow_loggable {s t : EventsDb} {id : String}
    {f : DurableCommand → DurableCommand}
    {hf : ∀ c, (f c).commandId = c.commandId} {name : EventName}
    {reason : Option String} {d : DurableCommand}
    (hname : commandEvents.contains name = true)
    (h : updateRow dates now id f hf name reason s = .ok (d, t)) :
    Loggable t d := by
  simp only [updateRow, Txn.bind_ok, Txn.modify_ok, Txn.pure_ok] at h
  obtain ⟨_, _, rfl, updated, m, hrow, _, t', hevent, rfl, rfl⟩ := h
  obtain ⟨-, rfl⟩ := row_ok hrow
  have hl := event_loggable hname hevent
  obtain ⟨e, rfl⟩ := event_ok hevent
  exact hl.carry rfl rfl rfl rfl

theorem markSendStarted_sending {db db' : EventsDb} {id : String}
    {c : DurableCommand}
    (h : markSendStarted dates now id db = .ok (c, db'))
    (hside : c.sideEffecting = true)
    (hrows : ∀ c, c ∈ db.commands → Unanswered c) :
    c.commandId = id ∧ db'.commands.find? id = some c ∧ Loggable db' c ∧
      Sending c ∧ ackRank c.state = 0 ∧ c.acknowledgedAt = none := by
  obtain ⟨c₀, hc₀, hd, -, rfl, -⟩ := markSendStarted_ok h
  have hnone : c₀.acknowledgedAt = none :=
    hrows c₀ (Table.mem_of_find? hc₀) (.inr (.inl hd))
  have hid : c₀.commandId = id := Table.key_of_find? hc₀
  have hrank : ackRank c₀.state = 0 := by
    rw [hd]
    rfl
  simp only [markSendStarted, Txn.bind_ok] at h
  obtain ⟨_, _, -, _, _, -, _, _, -, _, _, -, _, _, -, _, _, -, h⟩ := h
  refine ⟨hid, updateRow_find h, updateRow_loggable rfl h,
    ⟨hside, ⟨?_, fun _ => truthy_toISOString dates now⟩, ?_⟩, hrank, hnone⟩
  · change c₀.state ≠ .queued
    rw [hd]
    decide
  · intro hpos
    change 0 < ackRank c₀.state at hpos
    omega

/-! ## Confluence -/

theorem AckState.eq_of_rank {a b : AckState}
    (h : ¬ (a = .completed ∧ b = .failed)) (h' : ¬ (a = .failed ∧ b = .completed))
    (hrank : ackRank a.state = ackRank b.state) : a = b := by
  revert hrank h h'
  cases a <;> cases b <;> decide

/--
Once the send of a side effect has started, its acknowledgements commute:
delivered in any order, any number of times and with the dispatcher's own
`markSent` and `failTransport` calls anywhere between them, every call returns,
the command ends in the highest of the acknowledged states, each state it
passes is logged once and in rank order, and `acknowledged_at` is the time of
the first acknowledgement.
-/
theorem acknowledgements_commute {s : Delivery} {db : EventsDb} {id : String}
    {c : DurableCommand} {sessionId : String} {frames : List (Int × Frame)}
    (hs : (delivery dates).Reachable s)
    (hstart : markSendStarted dates now id s.db = .ok (c, db))
    (hside : c.sideEffecting = true) (hsession : c.sessionId = some sessionId)
    (hacks : acknowledgements frames ≠ [])
    (hone : ¬ (AckState.completed ∈ acknowledgements frames ∧
      AckState.failed ∈ acknowledgements frames)) :
    ∃ db' d new states,
      deliverAll dates id sessionId frames db = .ok ((), db') ∧
      db'.commands.find? id = some d ∧
      (∃ top ∈ acknowledgements frames, d.state = top.state ∧
        ∀ ack ∈ acknowledgements frames, ack ≠ top →
          ackRank ack.state < ackRank top.state) ∧
      db'.events = db.events ++ new ∧
      List.Forall₂ (fun e state => e.event = CommandState.eventName state ∧
        e.field "command_id" = some (.str id)) new states ∧
      states.Pairwise (fun a b => stage a < stage b) ∧
      d.acknowledgedAt = firstAcknowledgedAt dates frames := by
  obtain ⟨rfl, hc, hl, hsending, hzero, hnone⟩ :=
    markSendStarted_sending hstart hside (unanswered_reachable hs)
  obtain ⟨db', d, states, hdeliver, hpassed, hascend, -, -, htop, hfrom⟩ :=
    deliverAll_passes dates frames hc hl hsending hsession
  obtain ⟨new, hnew, hlogged⟩ := hpassed.events
  -- some acknowledgement moved the command off rank 0, and it is the highest
  obtain ⟨first, hfirst⟩ := List.exists_mem_of_ne_nil _ hacks
  have hpos : 0 < ackRank d.state :=
    Nat.lt_of_lt_of_le first.rank_pos (htop first hfirst)
  obtain ⟨top, hmem, hstate⟩ : ∃ top ∈ acknowledgements frames,
      d.state = top.state := by
    rcases hfrom with h | h | h
    · rw [h] at hpos
      omega
    · omega
    · exact h
  refine ⟨db', d, new, states, hdeliver, hpassed.row, ⟨top, hmem, hstate, ?_⟩,
    hnew, hlogged, hascend, ?_⟩
  · intro ack hack hne
    have hle := htop ack hack
    rw [hstate] at hle
    refine Nat.lt_of_le_of_ne hle fun heq => hne (AckState.eq_of_rank ?_ ?_ heq)
    · rintro ⟨rfl, rfl⟩
      exact hone ⟨hack, hmem⟩
    · rintro ⟨rfl, rfl⟩
      exact hone ⟨hmem, hack⟩
  · rw [hpassed.acknowledgedAt, hnone]
    rfl

def lateFrames : List (Int × Frame) :=
  [(3, .failed "socket closed"), (4, .ack .completed none),
   (5, .ack .running none), (6, .sent), (7, .ack .completed none)]

theorem acknowledgements_commute_late :
    ∃ db db' d, deliverAll .epoch "cmd-1" "session-1" lateFrames db =
        .ok ((), db') ∧
      db'.commands.find? "cmd-1" = some d ∧ d.state = .completed ∧
      d.acknowledgedAt = some "1970-01-01T00:00:00.004Z" := by
  obtain ⟨s, hrun, hstart⟩ := (delivery .epoch).exists_run_of_map
    (f := fun s => (markSendStarted .epoch 2 "cmd-1" s.db).toOption.map
      fun p => (p.1.sideEffecting, p.1.sessionId))
    (by decide +kernel : ((delivery .epoch).run idleDelivery
      (handOverActions.take 2)).map
      (fun s => (markSendStarted .epoch 2 "cmd-1" s.db).toOption.map
        fun p => (p.1.sideEffecting, p.1.sessionId)) =
          some (some (true, some "session-1")))
  cases hmark : markSendStarted .epoch 2 "cmd-1" s.db with
  | error e =>
      rw [hmark] at hstart
      cases hstart
  | ok p =>
      obtain ⟨c, db⟩ := p
      rw [hmark] at hstart
      obtain ⟨hside, hsession⟩ := Prod.mk.inj (Option.some.inj hstart)
      have hcompleted : AckState.completed ∈ acknowledgements lateFrames := by
        decide
      obtain ⟨db', d, new, states, hall, hd, ⟨top, hmem, hstate, hlt⟩, -, -, -,
        hacked⟩ := acknowledgements_commute
          ((System.Reachable.initial idleDelivery_initial).run hrun) hmark hside
          hsession (List.ne_nil_of_mem hcompleted) (by decide)
      refine ⟨db, db', d, hall, hd, ?_, hacked.trans (by decide)⟩
      have htop : top = .completed := by
        by_contra hne
        have h := hlt .completed hcompleted (Ne.symm hne)
        revert h
        cases top <;> decide
      rw [hstate, htop]
      rfl

end OrcState.Command
