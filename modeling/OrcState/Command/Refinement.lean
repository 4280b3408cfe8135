import OrcState.Command.Lifecycle

/-!
# Every operation is made of moves

Each operation on the `commands` table, when it returns, takes every row it
leaves behind through a sequence of moves from a row it found, except for the
row an enqueue adds and the send mark `markSendStarted` sets.  One lemma an
operation; nothing after this file unfolds the delivery code.
-/

namespace OrcState.Command

open OrcState.Contract OrcState.Foundation OrcState.Store

variable {dates : DateApi} {now : Int}

/-- Every row of `U` comes by moves from a row of `T`. -/
def Evolves (T U : Commands) : Prop :=
  ∀ d, d ∈ U → ∃ c, c ∈ T ∧ Moves c d

theorem Evolves.refl (T : Commands) : Evolves T T :=
  fun d hd => ⟨d, hd, .refl⟩

theorem Evolves.trans {T U V : Commands} (h : Evolves T U)
    (h' : Evolves U V) : Evolves T V := by
  intro e he
  obtain ⟨d, hd, hde⟩ := h' e he
  obtain ⟨c, hc, hcd⟩ := h d hd
  exact ⟨c, hc, hcd.trans hde⟩

theorem Evolves.of_update {T : Commands} {id : String}
    {f : DurableCommand → DurableCommand}
    {hf : ∀ c, (f c).commandId = c.commandId}
    (h : ∀ c, T.find? id = some c → Move c (f c)) :
    Evolves T (T.update id f hf) := by
  intro d hd
  rcases Table.mem_update.mp hd with ⟨c, hc, rfl, rfl⟩ | ⟨hd, -⟩
  · exact ⟨c, hc, .single (h c (Table.find?_of_mem hc))⟩
  · exact ⟨d, hd, .refl⟩

theorem Evolves.replaceRuns (db : EventsDb) (runs : Runs) :
    Evolves db.commands (db.replaceRuns runs).commands := by
  intro d hd
  exact ⟨d, (Table.mem_filter.mp hd).1, .refl⟩

theorem Evolves.replaceSessions (db : EventsDb) (sessions : Sessions) :
    Evolves db.commands (db.replaceSessions sessions).commands := by
  intro d hd
  simp only [EventsDb.replaceSessions, Table.mem_map] at hd
  obtain ⟨c, hc, rfl⟩ := hd
  exact ⟨c, hc, .single (.detach c _)⟩

/-! ## The building blocks -/

theorem row_ok {id : String} {s t : EventsDb} {c : DurableCommand}
    (h : row id s = .ok (c, t)) : s.commands.find? id = some c ∧ s = t := by
  simp only [row, Txn.bind_ok, Txn.get_ok, Txn.orThrow_ok] at h
  obtain ⟨_, _, ⟨rfl, rfl⟩, hc, rfl⟩ := h
  exact ⟨hc, rfl⟩

theorem runRow_ok {id : RunId} {s t : EventsDb} {c : Claim}
    (h : runRow id s = .ok (c, t)) : s.runs.find? id = some c ∧ s = t := by
  simp only [runRow, Txn.bind_ok, Txn.get_ok, Txn.orThrow_ok] at h
  obtain ⟨_, _, ⟨rfl, rfl⟩, hc, rfl⟩ := h
  exact ⟨hc, rfl⟩

theorem session_ok {id : String} {s t : EventsDb} {x : Session}
    (h : session id s = .ok (x, t)) : s = t := by
  simp only [session, Txn.bind_ok, Txn.get_ok, Txn.orThrow_ok] at h
  obtain ⟨_, _, ⟨rfl, rfl⟩, -, rfl⟩ := h
  rfl

theorem sessionOf_ok {id : Option String} {s t : EventsDb} {x : Session}
    (h : sessionOf id s = .ok (x, t)) : s = t := by
  cases id with
  | none => simp [sessionOf] at h
  | some id => exact session_ok h

theorem event_ok {c : DurableCommand} {name : EventName}
    {reason : Option String} {s t : EventsDb} {u : Unit}
    (h : event dates now c name reason s = .ok (u, t)) :
    ∃ e, s.logged e = t := by
  simp only [event, Txn.bind_ok, appendSequencedEvent_ok] at h
  obtain ⟨owner, m, howner, -, rfl⟩ := h
  obtain ⟨-, rfl⟩ := runRow_ok howner
  exact ⟨_, rfl⟩

theorem updateRow_ok {id : String} {f : DurableCommand → DurableCommand}
    {hf : ∀ c, (f c).commandId = c.commandId} {name : EventName}
    {reason : Option String} {s t : EventsDb} {d : DurableCommand}
    (h : updateRow dates now id f hf name reason s = .ok (d, t)) :
    (∃ c, s.commands.find? id = some c ∧ d = f c) ∧
      t.commands = s.commands.update id f hf := by
  simp only [updateRow, Txn.bind_ok, Txn.modify_ok, Txn.pure_ok] at h
  obtain ⟨_, _, rfl, updated, m, hrow, _, t', hevent, rfl, rfl⟩ := h
  obtain ⟨hfind, rfl⟩ := row_ok hrow
  obtain ⟨e, rfl⟩ := event_ok hevent
  refine ⟨?_, rfl⟩
  obtain ⟨hmem, hkey⟩ := Table.find?_eq_some.mp hfind
  change updated ∈ s.commands.update id f hf at hmem
  rw [Table.mem_update] at hmem
  rcases hmem with ⟨c, hc, hk, hd⟩ | ⟨-, hne⟩
  · exact ⟨c, Table.find?_eq_some.mpr ⟨hc, hk⟩, hd.symm⟩
  · exact absurd hkey hne

theorem updateRow_evolves {id : String} {f : DurableCommand → DurableCommand}
    {hf : ∀ c, (f c).commandId = c.commandId} {name : EventName}
    {reason : Option String} {s t : EventsDb} {d : DurableCommand}
    (h : updateRow dates now id f hf name reason s = .ok (d, t))
    (hm : ∀ c, s.commands.find? id = some c → Move c (f c)) :
    Evolves s.commands t.commands := by
  rw [(updateRow_ok h).2]
  exact .of_update hm

theorem updateRow_find {id : String} {f : DurableCommand → DurableCommand}
    {hf : ∀ c, (f c).commandId = c.commandId} {name : EventName}
    {reason : Option String} {s t : EventsDb} {d : DurableCommand}
    (h : updateRow dates now id f hf name reason s = .ok (d, t)) :
    t.commands.find? id = some d := by
  obtain ⟨⟨c, hc, rfl⟩, ht⟩ := updateRow_ok h
  rw [ht]
  exact Table.find?_update_self hc

theorem updateRow_other {id id' : String}
    {f : DurableCommand → DurableCommand}
    {hf : ∀ c, (f c).commandId = c.commandId} {name : EventName}
    {reason : Option String} {s t : EventsDb} {d c : DurableCommand}
    (h : updateRow dates now id f hf name reason s = .ok (d, t))
    (hne : id' ≠ id) (hc : s.commands.find? id' = some c) :
    t.commands.find? id' = some c := by
  obtain ⟨hmem, hkey⟩ := Table.find?_eq_some.mp hc
  rw [(updateRow_ok h).2]
  refine Table.find?_eq_some.mpr ⟨Table.mem_update.mpr (.inr ⟨hmem, ?_⟩), hkey⟩
  rw [hkey]
  exact hne

section Row

variable {s t : EventsDb} {c d : DurableCommand}

theorem transition_fail_evolves {reason : Option String}
    {name : EventName} (hc : s.commands.find? c.commandId = some c)
    (hfail : Retractable c ∨ (InFlight c ∧ c.sideEffecting = false))
    (h : transition dates now c .failed name reason s = .ok (d, t)) :
    Evolves s.commands t.commands := by
  refine updateRow_evolves h fun c' hc' => ?_
  rw [hc] at hc'
  cases hc'
  exact .fail c (dates.toISOString now) reason hfail

theorem transition_lose_evolves {reason : Option String}
    {name : EventName} (hc : s.commands.find? c.commandId = some c)
    (hflight : InFlight c) (hse : c.sideEffecting = true)
    (h : transition dates now c .outcomeUnknown name reason s = .ok (d, t)) :
    Evolves s.commands t.commands := by
  refine updateRow_evolves h fun c' hc' => ?_
  rw [hc] at hc'
  cases hc'
  exact .lose c (dates.toISOString now) reason hflight hse

theorem requeue_evolves {next reason : String}
    (hc : s.commands.find? c.commandId = some c) (hretract : Retractable c)
    (ha : c.attemptCount < c.maxAttempts)
    (h : requeue dates now c next reason s = .ok (d, t)) :
    Evolves s.commands t.commands := by
  refine updateRow_evolves h fun c' hc' => ?_
  rw [hc] at hc'
  cases hc'
  exact .requeue c next reason hretract ha

theorem applyAck_evolves {ack : AckState} {reason : Option String}
    (hc : s.commands.find? c.commandId = some c)
    (h : applyAck dates now c ack reason s = .ok (d, t)) :
    Evolves s.commands t.commands ∧
      t.commands.find? d.commandId = some d := by
  simp only [applyAck, Txn.bind_ok, Txn.throwIf_ok, not_or, not_not] at h
  obtain ⟨_, _, ⟨⟨hallowed, hstarted⟩, rfl⟩, h⟩ := h
  have hfind := updateRow_find h
  obtain ⟨⟨c', hc', rfl⟩, -⟩ := updateRow_ok h
  rw [hc] at hc'
  cases hc'
  refine ⟨updateRow_evolves h fun c' hc' => ?_, hfind⟩
  rw [hc] at hc'
  cases hc'
  refine .acknowledge c ack (dates.toISOString now) reason hallowed ?_
  intro hd
  simpa [hd] using hstarted

theorem acceptFirst_evolves (hc : s.commands.find? c.commandId = some c)
    (h : acceptFirst dates now c s = .ok (d, t)) :
    Evolves s.commands t.commands ∧
      t.commands.find? d.commandId = some d := by
  unfold acceptFirst at h
  split at h
  · exact applyAck_evolves hc h
  · obtain ⟨rfl, rfl⟩ := Txn.pure_ok.mp h
    exact ⟨.refl _, hc⟩

end Row

/-! ## The operations -/

section Operations

variable {s t : EventsDb} {r : DurableCommand}

def Enqueued (commandId : String) (c : DurableCommand) : Prop :=
  c.commandId = commandId ∧ c.state = .queued ∧ c.attemptCount = 0 ∧
    1 ≤ c.maxAttempts ∧ c.terminalAt = none ∧ c.sendStartedAt = none

theorem actorOf_ok {caller : Caller} {input : EnqueueCommand} {owner : Claim}
    {actor : Option String × AgentId}
    (h : actorOf caller input owner s = .ok (actor, t)) : s = t := by
  cases caller with
  | coordinator =>
      simp only [actorOf, Txn.pure_ok] at h
      exact h.2
  | principal p =>
      simp only [actorOf, Txn.bind_ok, Txn.throwIf_ok, Txn.pure_ok] at h
      obtain ⟨_, _, hs, _, _, ⟨-, rfl⟩, _, _, ⟨-, rfl⟩, -, rfl⟩ := h
      exact session_ok hs

theorem insertCommand_ok {c : DurableCommand}
    (h : insertCommand dates now c s = .ok (r, t)) :
    t.commands.rows = s.commands.rows ++ [c] := by
  simp only [insertCommand, Txn.bind_ok, Txn.get_ok, Txn.orThrow_ok,
    Txn.set_ok, Txn.pure_ok] at h
  obtain ⟨_, _, ⟨rfl, rfl⟩, U, _, ⟨hU, rfl⟩, _, _, rfl, _, _, hrow, _, _,
    hevent, -, rfl⟩ := h
  obtain ⟨-, rfl⟩ := row_ok hrow
  obtain ⟨e, rfl⟩ := event_ok hevent
  exact (Table.insert?_eq_some hU).2

theorem attempts_pos {input : EnqueueCommand} {n : Int}
    (h : input.attempts = some n) : 1 ≤ n := by
  unfold EnqueueCommand.attempts at h
  split at h
  · split at h
    · cases h
    · cases h
      omega
  · cases h

theorem enqueueCommand_inserts {commandId : String} {caller : Caller}
    {input : EnqueueCommand}
    (h : enqueueCommand dates now commandId caller input s = .ok (r, t)) :
    t.commands = s.commands ∨
      ∃ payload n actor recipient, input.attempts = some n ∧
        t.commands.rows = s.commands.rows ++
          [queuedCommand dates now commandId input payload n actor
            recipient] := by
  simp only [enqueueCommand, Txn.bind_ok, Txn.throwIf_ok, Txn.orThrow_ok,
    Txn.get_ok] at h
  obtain ⟨_, _, ⟨-, rfl⟩, n, _, ⟨hn, rfl⟩, _, _, ⟨-, rfl⟩, payload, _,
    ⟨-, rfl⟩, owner, _, howner, _, _, ⟨-, rfl⟩, actor, _, hactor, recipient,
    _, hrecipient, _, _, ⟨-, rfl⟩, _, _, ⟨rfl, rfl⟩, h⟩ := h
  obtain ⟨-, rfl⟩ := runRow_ok howner
  have hs₁ := actorOf_ok hactor
  subst hs₁
  have hs₂ := session_ok hrecipient
  subst hs₂
  cases hfind : s.commands.rows.find? fun c =>
      c.runId = input.runId ∧ c.idempotencyKey = input.idempotencyKey with
  | some existing =>
      simp only [hfind, Txn.bind_ok, Txn.throwIf_ok, Txn.pure_ok] at h
      obtain ⟨_, _, ⟨-, rfl⟩, -, rfl⟩ := h
      exact .inl rfl
  | none =>
      simp only [hfind] at h
      exact .inr ⟨payload, n, actor, recipient, hn, insertCommand_ok h⟩

theorem enqueueCommand_ok {commandId : String} {caller : Caller}
    {input : EnqueueCommand}
    (h : enqueueCommand dates now commandId caller input s = .ok (r, t)) :
    t.commands = s.commands ∨
      ∃ c, Enqueued commandId c ∧
        t.commands.rows = s.commands.rows ++ [c] := by
  rcases enqueueCommand_inserts h with hsame | ⟨payload, n, actor, recipient,
    hn, hrows⟩
  · exact .inl hsame
  · exact .inr ⟨_, ⟨rfl, rfl, rfl, attempts_pos hn, rfl, rfl⟩, hrows⟩

theorem reserveCommand_evolves {at_ : String} {r : Option DurableCommand}
    (h : reserveCommand dates now at_ s = .ok (r, t)) :
    Evolves s.commands t.commands := by
  simp only [reserveCommand, Txn.bind_ok, Txn.get_ok] at h
  obtain ⟨_, _, ⟨rfl, rfl⟩, h⟩ := h
  cases ho : oldest (s.commands.rows.filter (due at_)) with
  | none =>
      simp only [ho, Txn.pure_ok] at h
      rw [← h.2]
      exact .refl _
  | some c =>
      have hmem := List.mem_filter.mp (mem_of_oldest ho)
      have hc : s.commands.find? c.commandId = some c :=
        Table.find?_of_mem hmem.1
      have hq : c.state = .queued := by
        have := hmem.2
        simp only [due, Bool.and_eq_true, decide_eq_true_eq] at this
        exact this.1
      simp only [ho] at h
      split at h
      · simp only [Txn.bind_ok, Txn.pure_ok] at h
        obtain ⟨_, _, h, -, rfl⟩ := h
        exact transition_fail_evolves hc (.inl (.inl hq)) h
      · simp only [Txn.bind_ok, Txn.pure_ok] at h
        obtain ⟨_, _, h, -, rfl⟩ := h
        refine updateRow_evolves h fun c' hc' => ?_
        rw [hc] at hc'
        cases hc'
        exact .reserve c at_ hq

theorem reserveCommand_find {at_ : String} {c : DurableCommand}
    (h : reserveCommand dates now at_ s = .ok (some c, t)) :
    t.commands.find? c.commandId = some c := by
  simp only [reserveCommand, Txn.bind_ok, Txn.get_ok] at h
  obtain ⟨_, _, ⟨rfl, rfl⟩, h⟩ := h
  cases ho : oldest (s.commands.rows.filter (due at_)) with
  | none => simp [ho] at h
  | some c₀ =>
      simp only [ho] at h
      split at h
      all_goals
        simp only [Txn.bind_ok, Txn.pure_ok] at h
        obtain ⟨d, _, h, hd, rfl⟩ := h
        cases hd
        have hfind := updateRow_find h
        rw [← Table.key_of_find? hfind] at hfind
        exact hfind

theorem markSendStarted_ok {commandId : String}
    (h : markSendStarted dates now commandId s = .ok (r, t)) :
    ∃ c, s.commands.find? commandId = some c ∧ c.state = .dispatching ∧
      truthy c.sendStartedAt = false ∧
      r = { c with sendStartedAt := some (dates.toISOString now) } ∧
      t.commands = s.commands.update commandId
        (fun c => { c with sendStartedAt := some (dates.toISOString now) })
        (fun _ => rfl) := by
  simp only [markSendStarted, Txn.bind_ok, Txn.throwIf_ok, not_or, not_not,
    Bool.not_eq_true] at h
  obtain ⟨c, _, hrow, _, _, ⟨⟨hd, hs⟩, rfl⟩, owner, _, howner, _, _,
    ⟨-, rfl⟩, recipient, _, hrecipient, _, _, ⟨-, rfl⟩, h⟩ := h
  obtain ⟨hc, rfl⟩ := row_ok hrow
  obtain ⟨-, rfl⟩ := runRow_ok howner
  have hs₁ := sessionOf_ok hrecipient
  subst hs₁
  obtain ⟨⟨c', hc', rfl⟩, ht⟩ := updateRow_ok h
  rw [hc] at hc'
  cases hc'
  exact ⟨c, hc, hd, hs, rfl, ht⟩

theorem markSent_evolves {commandId : String}
    (h : markSent dates now commandId s = .ok (r, t)) :
    Evolves s.commands t.commands := by
  simp only [markSent, Txn.bind_ok] at h
  obtain ⟨c, _, hrow, h⟩ := h
  obtain ⟨hc, rfl⟩ := row_ok hrow
  split at h
  · rw [(Txn.pure_ok.mp h).2]
    exact .refl _
  · rename_i hguard
    simp only [not_or, not_not, Bool.not_eq_false] at hguard
    refine updateRow_evolves h fun c' hc' => ?_
    rw [hc] at hc'
    cases hc'
    exact .send c _ hguard.1 hguard.2

theorem acknowledgeCommand_evolves {commandId : String}
    {principal : CommandPrincipal} {ack : AckState}
    (h : acknowledgeCommand dates now commandId principal ack s =
      .ok (r, t)) : Evolves s.commands t.commands := by
  simp only [acknowledgeCommand, Txn.bind_ok, Txn.throwIf_ok] at h
  obtain ⟨c, _, hrow, recipient, _, hrecipient, _, _, ⟨-, rfl⟩, _, _,
    ⟨-, rfl⟩, h⟩ := h
  obtain ⟨hc, rfl⟩ := row_ok hrow
  have hs₁ := session_ok hrecipient
  subst hs₁
  rw [← Table.key_of_find? hc] at hc
  exact (applyAck_evolves hc h).1

theorem acknowledgeFromRuntime_evolves {commandId sessionId : String}
    {ack : AckState} {reason : Option String}
    (h : acknowledgeFromRuntime dates now commandId sessionId ack reason s =
      .ok (r, t)) : Evolves s.commands t.commands := by
  simp only [acknowledgeFromRuntime, Txn.bind_ok, Txn.throwIf_ok] at h
  obtain ⟨c, _, hrow, _, _, ⟨-, rfl⟩, _, _, ⟨-, rfl⟩, h⟩ := h
  obtain ⟨hc, rfl⟩ := row_ok hrow
  rw [← Table.key_of_find? hc] at hc
  split at h
  · rw [(Txn.pure_ok.mp h).2]
    exact .refl _
  · simp only [Txn.bind_ok] at h
    obtain ⟨c₁, m, hfirst, h⟩ := h
    have h₁ := acceptFirst_evolves hc hfirst
    refine h₁.1.trans ?_
    cases ack with
    | accepted =>
        rw [(Txn.pure_ok.mp h).2]
        exact .refl _
    | running =>
        change (if c₁.state = .running then pure c₁
          else applyAck dates now c₁ .running none : Db DurableCommand) m =
            .ok (r, t) at h
        split at h
        · rw [(Txn.pure_ok.mp h).2]
          exact .refl _
        · exact (applyAck_evolves h₁.2 h).1
    | completed => exact (applyAck_evolves h₁.2 h).1
    | failed => exact (applyAck_evolves h₁.2 h).1

theorem failTransport_evolves {commandId reason : String}
    (h : failTransport dates now commandId reason s = .ok (r, t)) :
    Evolves s.commands t.commands := by
  simp only [failTransport, Txn.bind_ok] at h
  obtain ⟨c, _, hrow, h⟩ := h
  obtain ⟨hc, rfl⟩ := row_ok hrow
  rw [← Table.key_of_find? hc] at hc
  split at h
  · rw [(Txn.pure_ok.mp h).2]
    exact .refl _
  · rename_i hd
    rw [not_not] at hd
    split at h
    · rename_i hsent
      exact transition_lose_evolves hc (.inl ⟨hd, hsent.1⟩) hsent.2 h
    · rename_i hsent
      have hretract : Retractable c := by
        refine .inr ⟨hd, ?_⟩
        by_cases hs : truthy c.sendStartedAt = true
        · exact .inr (by simpa [hs] using hsent)
        · exact .inl (by simpa using hs)
      split at h
      · exact transition_fail_evolves hc (.inl hretract) h
      · rename_i ha
        exact requeue_evolves hc hretract (by omega) h

theorem resolveUnknownCommand_evolves {commandId reason : String}
    {principal : CommandPrincipal} {outcome : Outcome}
    (h : resolveUnknownCommand dates now commandId principal outcome reason s
      = .ok (r, t)) : Evolves s.commands t.commands := by
  simp only [resolveUnknownCommand, Txn.bind_ok, Txn.throwIf_ok, not_not]
    at h
  obtain ⟨_, _, ⟨-, rfl⟩, _, _, ⟨-, rfl⟩, operator, _, hoperator, _, _,
    ⟨-, rfl⟩, c, _, hrow, _, _, ⟨hu, rfl⟩, h⟩ := h
  have hs₁ := session_ok hoperator
  subst hs₁
  obtain ⟨hc, rfl⟩ := row_ok hrow
  rw [← Table.key_of_find? hc] at hc
  refine updateRow_evolves h fun c' hc' => ?_
  rw [hc] at hc'
  cases hc'
  have hmove := Move.resolve c outcome (dates.toISOString now) (some reason) hu
  simpa [outcome.state_terminal] using hmove

theorem deferCommand_evolves {commandId reason retryAt : String}
    (h : deferCommand dates now commandId reason retryAt s = .ok (r, t)) :
    Evolves s.commands t.commands := by
  simp only [deferCommand, Txn.bind_ok] at h
  obtain ⟨c, _, hrow, h⟩ := h
  obtain ⟨hc, rfl⟩ := row_ok hrow
  split at h
  · rw [(Txn.pure_ok.mp h).2]
    exact .refl _
  · rename_i hguard
    simp only [not_or, not_not, Bool.not_eq_true] at hguard
    simp only [Txn.bind_ok, Txn.throwIf_ok, Int.not_lt] at h
    obtain ⟨_, _, ⟨ha, rfl⟩, h⟩ := h
    refine updateRow_evolves h fun c' hc' => ?_
    rw [hc] at hc'
    cases hc'
    exact .postpone c retryAt reason hguard.1 hguard.2 ha

/-! ## The recovery loop -/

theorem reconcileOne_evolves {at_ : String} {staleAfterMs : Int}
    {c : DurableCommand} (hc : s.commands.find? c.commandId = some c)
    (hopen : reconcilable c = true) {u : Unit}
    (h : reconcileOne dates now at_ staleAfterMs c s = .ok (u, t)) :
    Evolves s.commands t.commands ∧
      ∀ id d, id ≠ c.commandId → s.commands.find? id = some d →
        t.commands.find? id = some d := by
  simp only [reconcileOne, Txn.bind_ok, Txn.get_ok] at h
  obtain ⟨_, _, ⟨rfl, rfl⟩, owner, _, howner, h⟩ := h
  obtain ⟨-, rfl⟩ := runRow_ok howner
  split at h
  · obtain ⟨-, rfl⟩ := Txn.pure_ok.mp h
    exact ⟨.refl _, fun _ _ _ hd => hd⟩
  split at h
  · rename_i hq
    have hretract : Retractable c :=
      hq.imp_right fun h => ⟨h.1, .inl h.2⟩
    split at h
    · simp only [Txn.bind_ok, Txn.pure_ok] at h
      obtain ⟨_, _, h, -, rfl⟩ := h
      exact ⟨transition_fail_evolves hc (.inl hretract) h,
        fun _ d hne hd => updateRow_other h hne hd⟩
    · rename_i ha
      simp only [Bool.or_eq_true, decide_eq_true_eq, not_or, Int.not_le] at ha
      simp only [Txn.bind_ok, Txn.pure_ok] at h
      obtain ⟨_, _, h, -, rfl⟩ := h
      exact ⟨requeue_evolves hc hretract ha.2 h,
        fun _ d hne hd => updateRow_other h hne hd⟩
  rename_i hq
  have hflight : InFlight c := by
    simp only [not_or, not_and, Bool.not_eq_false] at hq
    cases hstate : c.state with
    | dispatching => exact .inl ⟨hstate, hq.2 hstate⟩
    | sent => exact .inr (.inl hstate)
    | accepted => exact .inr (.inr (.inl hstate))
    | running => exact .inr (.inr (.inr hstate))
    | queued => exact absurd hstate hq.1
    | completed | failed | cancelled | outcomeUnknown =>
        simp [reconcilable, hstate] at hopen
  split at h
  · rename_i hse
    simp only [Txn.bind_ok, Txn.pure_ok] at h
    obtain ⟨_, _, h, -, rfl⟩ := h
    exact ⟨transition_lose_evolves hc hflight hse h,
      fun _ d hne hd => updateRow_other h hne hd⟩
  rename_i hse
  rw [Bool.not_eq_true] at hse
  split at h
  · rename_i hretry
    simp only [Txn.bind_ok, Txn.pure_ok] at h
    obtain ⟨_, _, h, -, rfl⟩ := h
    exact ⟨requeue_evolves hc (.inr ⟨hretry.1, .inr hse⟩) hretry.2.2.2 h,
      fun _ d hne hd => updateRow_other h hne hd⟩
  · simp only [Txn.bind_ok, Txn.pure_ok] at h
    obtain ⟨_, _, h, -, rfl⟩ := h
    exact ⟨transition_fail_evolves hc (.inr ⟨hflight, hse⟩) h,
      fun _ d hne hd => updateRow_other h hne hd⟩

theorem reconcileEach_evolves {at_ : String} {staleAfterMs : Int}
    {cs : List DurableCommand}
    (hnodup : (cs.map DurableCommand.commandId).Nodup)
    (hcs : ∀ c ∈ cs, reconcilable c = true ∧
      s.commands.find? c.commandId = some c) {u : Unit}
    (h : reconcileEach dates now at_ staleAfterMs cs s = .ok (u, t)) :
    Evolves s.commands t.commands := by
  induction cs generalizing s with
  | nil =>
      obtain ⟨-, rfl⟩ := Txn.pure_ok.mp h
      exact .refl _
  | cons c rest ih =>
      simp only [reconcileEach, Txn.bind_ok] at h
      obtain ⟨_, m, hone, hrest⟩ := h
      obtain ⟨hopen, hc⟩ := hcs c List.mem_cons_self
      obtain ⟨hevolves, hkept⟩ := reconcileOne_evolves hc hopen hone
      rw [List.map_cons, List.nodup_cons] at hnodup
      refine hevolves.trans (ih hnodup.2 ?_ hrest)
      intro d hd
      obtain ⟨hopen', hd'⟩ := hcs d (List.mem_cons_of_mem _ hd)
      refine ⟨hopen', hkept _ _ ?_ hd'⟩
      intro heq
      exact hnodup.1 (List.mem_map.mpr ⟨d, hd, heq⟩)

theorem reconcileCommands_evolves {at_ : String} {staleAfterMs : Int}
    {u : Unit}
    (h : reconcileCommands dates now at_ staleAfterMs s = .ok (u, t)) :
    Evolves s.commands t.commands := by
  simp only [reconcileCommands, Txn.bind_ok, Txn.get_ok] at h
  obtain ⟨_, _, ⟨rfl, rfl⟩, h⟩ := h
  refine reconcileEach_evolves ?_ ?_ h
  · exact s.commands.nodup.sublist
      (List.filter_sublist.map DurableCommand.commandId)
  · intro c hc
    obtain ⟨hmem, hopen⟩ := List.mem_filter.mp hc
    exact ⟨hopen, Table.find?_of_mem hmem⟩

end Operations

end OrcState.Command
