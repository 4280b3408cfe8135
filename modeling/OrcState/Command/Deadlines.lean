import OrcState.Command.Acknowledgement

/-!
# Deadlines

A deadline is accepted when `Date.parse` reads it and expires when its text is
at or before the text of the dispatcher's clock.  `TimedOut` is what the two
sweeps write to a command past its deadline, and `DeadlineIsInstant` says that
they write it exactly from the instant the deadline denotes on.  A deadline has
that property when its text sorts where the clock's own text of the instant
does, and no other deadline has it.
-/

namespace OrcState.Command

open OrcState.Contract OrcState.Foundation OrcState.Store

variable {dates : DateApi} {now : Int}

/-! ## What the sweeps write -/

def TimedOut (c : DurableCommand) : Prop :=
  (c.state = .failed ∨ c.state = .outcomeUnknown) ∧
    c.lastError = some "deadline exceeded"

structure Attended (db : EventsDb) (c : DurableCommand) : Prop where
  run : ∃ owner, db.runs.find? c.runId = some owner ∧ owner.active = true
  session : ∃ x, c.sessionId.bind db.sessions.find? = some x ∧
    x.state = .running

theorem Attended.carry {db db' : EventsDb} {c : DurableCommand}
    (h : Attended db c) (hruns : db'.runs = db.runs)
    (hsessions : db'.sessions = db.sessions) : Attended db' c := by
  obtain ⟨hrun, hsession⟩ := h
  rw [← hruns] at hrun
  rw [← hsessions] at hsession
  exact ⟨hrun, hsession⟩

theorem reconcilable_not_timedOut {c : DurableCommand}
    (h : reconcilable c = true) : ¬ TimedOut c := by
  rintro ⟨hstate | hstate, -⟩ <;> simp [reconcilable, hstate] at h

theorem updateRow_keeps {id : String} {f : DurableCommand → DurableCommand}
    {hf : ∀ c, (f c).commandId = c.commandId} {name : EventName}
    {reason : Option String} {s t : EventsDb} {d : DurableCommand}
    (h : updateRow dates now id f hf name reason s = .ok (d, t)) :
    t.runs = s.runs ∧ t.sessions = s.sessions := by
  simp only [updateRow, Txn.bind_ok, Txn.modify_ok, Txn.pure_ok] at h
  obtain ⟨_, _, rfl, updated, m, hrow, _, t', hevent, rfl, rfl⟩ := h
  obtain ⟨-, rfl⟩ := row_ok hrow
  obtain ⟨e, rfl⟩ := event_ok hevent
  exact ⟨rfl, rfl⟩

theorem updateRow_succeeds (dates : DateApi) (now : Int)
    (reason : Option String) {db : EventsDb} {c : DurableCommand}
    {f : DurableCommand → DurableCommand}
    (hf : ∀ c, (f c).commandId = c.commandId) {name : EventName}
    (hc : db.commands.find? c.commandId = some c) (hl : Loggable db c)
    (hrun : (f c).runId = c.runId) (hto : (f c).recipientId = c.recipientId)
    (hname : commandEvents.contains name = true) :
    ∃ d t, updateRow dates now c.commandId f hf name reason db =
      .ok (d, t) := by
  obtain ⟨e, -, -, hreturns⟩ :=
    updateRow_returns dates now reason hf hc hl hrun hto hname
  exact ⟨_, _, hreturns⟩

/-! ## Reservation -/

theorem reserveCommand_timedOut {s t : EventsDb} {at_ : String}
    {c r : DurableCommand}
    (holdest : oldest (s.commands.rows.filter (due at_)) = some c)
    (h : reserveCommand dates now at_ s = .ok (some r, t)) :
    TimedOut r ↔ pastDeadline at_ c = true := by
  simp only [reserveCommand, Txn.bind_ok, Txn.get_ok] at h
  obtain ⟨_, _, ⟨rfl, rfl⟩, h⟩ := h
  simp only [holdest] at h
  split at h
  · rename_i hpast
    simp only [Txn.bind_ok, Txn.pure_ok, Option.some.injEq] at h
    obtain ⟨_, _, h, rfl, rfl⟩ := h
    obtain ⟨⟨c', -, rfl⟩, -⟩ := updateRow_ok h
    exact ⟨fun _ => hpast, fun _ => ⟨.inl rfl, rfl⟩⟩
  · rename_i hpast
    simp only [Txn.bind_ok, Txn.pure_ok, Option.some.injEq] at h
    obtain ⟨_, _, h, rfl, rfl⟩ := h
    obtain ⟨⟨c', -, rfl⟩, -⟩ := updateRow_ok h
    constructor
    · rintro ⟨hstate | hstate, -⟩ <;> cases hstate
    · exact fun hp => absurd hp hpast

theorem reserveCommand_returns (dates : DateApi) (now : Int) {db : EventsDb}
    {at_ : String} {c : DurableCommand}
    (holdest : oldest (db.commands.rows.filter (due at_)) = some c)
    (hl : Loggable db c) :
    ∃ r db', reserveCommand dates now at_ db = .ok (some r, db') := by
  have hc : db.commands.find? c.commandId = some c :=
    Table.find?_of_mem (List.mem_filter.mp (mem_of_oldest holdest)).1
  simp only [reserveCommand, Txn.bind_ok, Txn.get_ok]
  by_cases hpast : pastDeadline at_ c = true
  · obtain ⟨d, t, hreturns⟩ : ∃ d t, transition dates now c .failed
        .commandFailed (some "deadline exceeded") db = .ok (d, t) :=
      updateRow_succeeds dates now _ _ hc hl rfl rfl rfl
    refine ⟨d, t, db, db, ⟨rfl, rfl⟩, ?_⟩
    simp only [holdest]
    rw [if_pos hpast]
    exact Txn.bind_ok.mpr ⟨d, t, hreturns, rfl⟩
  · obtain ⟨d, t, hreturns⟩ : ∃ d t, updateRow dates now c.commandId
        (fun c =>
          { c with
            state := .dispatching
            attemptCount := c.attemptCount + 1
            dispatchStartedAt := some at_
            sendStartedAt := none })
        (fun _ => rfl) .commandDispatching none db = .ok (d, t) :=
      updateRow_succeeds dates now _ _ hc hl rfl rfl rfl
    refine ⟨d, t, db, db, ⟨rfl, rfl⟩, ?_⟩
    simp only [holdest]
    rw [if_neg hpast]
    exact Txn.bind_ok.mpr ⟨d, t, hreturns, rfl⟩

/-! ## Recovery -/

section Recovery

variable {s t : EventsDb} {at_ : String} {staleAfterMs : Int}
  {c : DurableCommand}

theorem reconcileOne_keeps {u : Unit}
    (h : reconcileOne dates now at_ staleAfterMs c s = .ok (u, t)) :
    t.runs = s.runs ∧ t.sessions = s.sessions := by
  simp only [reconcileOne, Txn.bind_ok, Txn.get_ok] at h
  obtain ⟨_, _, ⟨rfl, rfl⟩, owner, _, howner, h⟩ := h
  obtain ⟨-, rfl⟩ := runRow_ok howner
  split at h
  · obtain ⟨-, rfl⟩ := Txn.pure_ok.mp h
    exact ⟨rfl, rfl⟩
  all_goals repeat' split at h
  all_goals
    simp only [Txn.bind_ok, Txn.pure_ok] at h
    obtain ⟨_, _, h, -, rfl⟩ := h
    exact updateRow_keeps h

theorem reconcileOne_timedOut {u : Unit} (hatt : Attended s c)
    (hc : s.commands.find? c.commandId = some c)
    (hopen : reconcilable c = true)
    (h : reconcileOne dates now at_ staleAfterMs c s = .ok (u, t)) :
    ∃ e, t.commands.find? c.commandId = some e ∧
      (TimedOut e ↔ pastDeadline at_ c = true) := by
  obtain ⟨⟨owner, howner, hactive⟩, x, hx, hrunning⟩ := hatt
  simp only [reconcileOne, Txn.bind_ok, Txn.get_ok] at h
  obtain ⟨_, _, ⟨rfl, rfl⟩, owner', _, howner', h⟩ := h
  obtain ⟨hfind, rfl⟩ := runRow_ok howner'
  rw [howner] at hfind
  cases hfind
  have hexited : (c.sessionId.bind s.sessions.find?).all
      (fun s => decide (s.state ≠ .running)) = false := by
    rw [hx]
    simp [hrunning]
  simp only [hexited, hactive, reconcileReason, Bool.not_true, Bool.or_false,
    Bool.false_or, Bool.false_eq_true, if_false, Bool.not_false,
    Bool.and_true] at h
  -- every branch that writes ends the command or puts it back in the queue
  have hends : ∀ {state name reason},
      state = .failed ∨ state = .outcomeUnknown →
      (do let _ ← transition dates now c state name (some reason) : Db Unit) s =
        .ok (u, t) →
      ∃ e, t.commands.find? c.commandId = some e ∧
        (TimedOut e ↔ reason = "deadline exceeded") := by
    intro state name reason hstate hd
    simp only [Txn.bind_ok, Txn.pure_ok] at hd
    obtain ⟨d, _, hd, -, rfl⟩ := hd
    refine ⟨d, updateRow_find hd, ?_⟩
    obtain ⟨⟨c', -, rfl⟩, -⟩ := updateRow_ok hd
    exact ⟨fun h => Option.some.inj h.2, fun h => ⟨hstate, congrArg some h⟩⟩
  have hqueues : ∀ {next reason},
      (do let _ ← requeue dates now c next reason : Db Unit) s = .ok (u, t) →
      ∃ e, t.commands.find? c.commandId = some e ∧ ¬ TimedOut e := by
    intro next reason hd
    simp only [Txn.bind_ok, Txn.pure_ok] at hd
    obtain ⟨d, _, hd, -, rfl⟩ := hd
    refine ⟨d, updateRow_find hd, ?_⟩
    obtain ⟨⟨c', -, rfl⟩, -⟩ := updateRow_ok hd
    rintro ⟨hstate | hstate, -⟩ <;> cases hstate
  cases hpast : pastDeadline at_ c with
  | false =>
      simp only [hpast, Bool.not_false, Bool.true_and, Bool.not_eq_true',
        Bool.false_eq_true, if_false, Bool.false_or, true_and] at h
      suffices h : ∃ e, t.commands.find? c.commandId = some e ∧ ¬ TimedOut e by
        obtain ⟨e, he, hout⟩ := h
        exact ⟨e, he, fun h => absurd h hout, fun h => by cases h⟩
      have hother : ∀ {state name}, state = .failed ∨ state = .outcomeUnknown →
          (do let _ ← transition dates now c state name
                (some "dispatch interrupted") : Db Unit) s = .ok (u, t) →
          ∃ e, t.commands.find? c.commandId = some e ∧ ¬ TimedOut e := by
        intro state name hstate hd
        obtain ⟨e, he, hiff⟩ := hends hstate hd
        exact ⟨e, he, fun hout => absurd (hiff.mp hout) (by decide)⟩
      split at h
      · obtain ⟨-, rfl⟩ := Txn.pure_ok.mp h
        exact ⟨c, hc, reconcilable_not_timedOut hopen⟩
      split at h
      · split at h
        · exact hother (.inl rfl) h
        · exact hqueues h
      · split at h
        · exact hother (.inr rfl) h
        · split at h
          · exact hqueues h
          · exact hother (.inl rfl) h
  | true =>
      suffices h : ∃ e, t.commands.find? c.commandId = some e ∧
          (TimedOut e ↔ "deadline exceeded" = "deadline exceeded") by
        obtain ⟨e, he, hiff⟩ := h
        exact ⟨e, he, fun _ => rfl, fun _ => hiff.mpr rfl⟩
      simp only [hpast, Bool.not_true, Bool.false_and, Bool.false_eq_true,
        if_false, if_true, Bool.true_or, false_and, and_false] at h
      split at h
      · exact hends (.inl rfl) h
      · split at h
        · exact hends (.inr rfl) h
        · exact hends (.inl rfl) h

theorem reconcileOne_rest {d : DurableCommand} {rest : List DurableCommand}
    (hnodup : ((d :: rest).map DurableCommand.commandId).Nodup)
    (hcs : ∀ c ∈ d :: rest, reconcilable c = true ∧
      s.commands.find? c.commandId = some c) {u : Unit}
    (h : reconcileOne dates now at_ staleAfterMs d s = .ok (u, t)) :
    ∀ c ∈ rest, reconcilable c = true ∧
      t.commands.find? c.commandId = some c := by
  obtain ⟨hopen, hd⟩ := hcs d List.mem_cons_self
  obtain ⟨-, hkept⟩ := reconcileOne_evolves hd hopen h
  rw [List.map_cons, List.nodup_cons] at hnodup
  intro c hc
  obtain ⟨hopen', hc'⟩ := hcs c (List.mem_cons_of_mem _ hc)
  refine ⟨hopen', hkept _ _ (fun heq => hnodup.1 ?_) hc'⟩
  exact List.mem_map.mpr ⟨c, hc, heq⟩

theorem reconcileEach_other {cs : List DurableCommand} {id : String}
    {e : DurableCommand} (hnodup : (cs.map DurableCommand.commandId).Nodup)
    (hcs : ∀ c ∈ cs, reconcilable c = true ∧
      s.commands.find? c.commandId = some c)
    (hid : id ∉ cs.map DurableCommand.commandId) {u : Unit}
    (h : reconcileEach dates now at_ staleAfterMs cs s = .ok (u, t))
    (he : s.commands.find? id = some e) : t.commands.find? id = some e := by
  induction cs generalizing s with
  | nil =>
      obtain ⟨-, rfl⟩ := Txn.pure_ok.mp h
      exact he
  | cons d rest ih =>
      simp only [reconcileEach, Txn.bind_ok] at h
      obtain ⟨_, m, hone, hlater⟩ := h
      obtain ⟨hopen, hd⟩ := hcs d List.mem_cons_self
      obtain ⟨-, hkept⟩ := reconcileOne_evolves hd hopen hone
      have hnext := reconcileOne_rest hnodup hcs hone
      rw [List.map_cons, List.nodup_cons] at hnodup
      rw [List.map_cons, List.mem_cons, not_or] at hid
      exact ih hnodup.2 hnext hid.2 hlater (hkept _ _ hid.1 he)

/-- The loop decides an attended command once, when its turn comes. -/
theorem reconcileEach_timedOut {cs : List DurableCommand}
    (hnodup : (cs.map DurableCommand.commandId).Nodup)
    (hcs : ∀ c ∈ cs, reconcilable c = true ∧
      s.commands.find? c.commandId = some c) (hc : c ∈ cs)
    (hatt : Attended s c) {u : Unit}
    (h : reconcileEach dates now at_ staleAfterMs cs s = .ok (u, t)) :
    ∃ e, t.commands.find? c.commandId = some e ∧
      (TimedOut e ↔ pastDeadline at_ c = true) := by
  induction cs generalizing s with
  | nil => cases hc
  | cons d rest ih =>
      simp only [reconcileEach, Txn.bind_ok] at h
      obtain ⟨_, m, hone, hlater⟩ := h
      obtain ⟨hopen, hd⟩ := hcs d List.mem_cons_self
      obtain ⟨hruns, hsessions⟩ := reconcileOne_keeps hone
      have hnext := reconcileOne_rest hnodup hcs hone
      rw [List.map_cons, List.nodup_cons] at hnodup
      rcases List.mem_cons.mp hc with rfl | hc
      · obtain ⟨e, he, hout⟩ := reconcileOne_timedOut hatt hd hopen hone
        exact ⟨e, reconcileEach_other hnodup.2 hnext hnodup.1 hlater he, hout⟩
      · exact ih hnodup.2 hnext hc (hatt.carry hruns hsessions) hlater

theorem reconcileCommands_timedOut (hc : c ∈ s.commands)
    (hopen : reconcilable c = true) (hatt : Attended s c) {u : Unit}
    (h : reconcileCommands dates now at_ staleAfterMs s = .ok (u, t)) :
    ∃ e, t.commands.find? c.commandId = some e ∧
      (TimedOut e ↔ pastDeadline at_ c = true) := by
  simp only [reconcileCommands, Txn.bind_ok, Txn.get_ok] at h
  obtain ⟨_, _, ⟨rfl, rfl⟩, h⟩ := h
  refine reconcileEach_timedOut ?_ ?_
    (List.mem_filter.mpr ⟨hc, hopen⟩) hatt h
  · exact s.commands.nodup.sublist
      (List.filter_sublist.map DurableCommand.commandId)
  · intro d hd
    obtain ⟨hmem, hopen⟩ := List.mem_filter.mp hd
    exact ⟨hopen, Table.find?_of_mem hmem⟩

end Recovery

/-! ## Texts and instants -/

/-- On the clock's range the texts of `toISOString` sort as their times do. -/
structure TextsOrdered (dates : DateApi) (lo hi : Int) : Prop where
  lt : ∀ s t, lo ≤ s → s < t → t ≤ hi →
    dates.toISOString s < dates.toISOString t

structure Accepted (dates : DateApi) (d : String) (ms : Int) : Prop where
  nonempty : d ≠ ""
  parsed : dates.parse d = some ms

/--
Both sweeps treat a command with deadline `d` as past it exactly when the clock
has reached `ms`.
-/
structure DeadlineIsInstant (dates : DateApi) (lo hi : Int) (d : String)
    (ms : Int) : Prop where
  reserve : ∀ t now db c r db', lo ≤ t → t ≤ hi → c.deadlineAt = some d →
    oldest (db.commands.rows.filter (due (dates.toISOString t))) = some c →
    reserveCommand dates now (dates.toISOString t) db = .ok (some r, db') →
    (TimedOut r ↔ ms ≤ t)
  reconcile : ∀ t now staleAfterMs db c db', lo ≤ t → t ≤ hi →
    c.deadlineAt = some d → c ∈ db.commands → reconcilable c = true →
    Attended db c →
    reconcileCommands dates now (dates.toISOString t) staleAfterMs db =
      .ok ((), db') →
    ((∃ e, db'.commands.find? c.commandId = some e ∧ TimedOut e) ↔ ms ≤ t)

/--
The deadline sorts with the clock's text of its instant: after the last text
before the instant and not after the first one from it on.
-/
def InPlace (dates : DateApi) (lo hi : Int) (d : String) (ms : Int) : Prop :=
  (max ms lo ≤ hi → d ≤ dates.toISOString (max ms lo)) ∧
    (lo ≤ min (ms - 1) hi → dates.toISOString (min (ms - 1) hi) < d)

variable {lo hi : Int}

theorem TextsOrdered.le (h : TextsOrdered dates lo hi) {s t : Int}
    (hs : lo ≤ s) (hst : s ≤ t) (ht : t ≤ hi) :
    dates.toISOString s ≤ dates.toISOString t := by
  rcases Int.lt_or_eq_of_le hst with hlt | rfl
  · exact String.not_lt.mp (String.lt_asymm (h.lt s t hs hlt ht))
  · exact String.le_refl _

theorem InPlace.le_iff (h : TextsOrdered dates lo hi) {d : String} {ms t : Int}
    (hd : InPlace dates lo hi d ms) (hlo : lo ≤ t) (hhi : t ≤ hi) :
    d ≤ dates.toISOString t ↔ ms ≤ t := by
  obtain ⟨hfirst, hlast⟩ := hd
  constructor
  · intro hle
    by_contra hlt
    have hbefore := hlast (by omega)
    have hmono : dates.toISOString t ≤ dates.toISOString (min (ms - 1) hi) :=
      h.le hlo (by omega) (by omega)
    exact String.not_le.mpr hbefore (String.le_trans hle hmono)
  · intro hle
    have hmono : dates.toISOString (max ms lo) ≤ dates.toISOString t :=
      h.le (by omega) (by omega) hhi
    exact String.le_trans (hfirst (by omega)) hmono

theorem pastDeadline_iff {c : DurableCommand} {d : String} (at_ : String)
    (hd : d ≠ "") (hc : c.deadlineAt = some d) :
    pastDeadline at_ c = true ↔ d ≤ at_ := by
  simp [pastDeadline, hc, truthy, hd]

/-! ## A command waiting with a deadline -/

def waitingCommand (d : String) : DurableCommand :=
  queuedCommand .epoch 0 "cmd-1"
    { runId := "run-1", recipientSessionId := "session-1",
      idempotencyKey := "key-1", kind := "send", payload := some "{}",
      deadlineAt := some d }
    "{}" 3 (none, "coordinator")
    { sessionId := "session-1", agentId := "worker-1", runId := some "run-1",
      state := .running }

def waitingDb (d : String) : EventsDb :=
  { idleDelivery.db with commands := ⟨[waitingCommand d], by simp⟩ }

theorem waitingDb_oldest (d at_ : String) :
    oldest ((waitingDb d).commands.rows.filter (due at_)) =
      some (waitingCommand d) := rfl

theorem waitingDb_loggable (d : String) :
    Loggable (waitingDb d) (waitingCommand d) :=
  ⟨⟨_, rfl, by decide⟩, (by decide : runIdRe "run-1" = true),
    (by decide : agentIdRe "worker-1" = true), (by decide : "cmd-1" ≠ "")⟩

/--
A deadline is an instant to the sweeps exactly when its text is in place: the
canonical text is, a text without milliseconds or with an offset is not.
-/
theorem deadline_isInstant_iff (h : TextsOrdered dates lo hi) {d : String}
    {ms : Int} (hd : Accepted dates d ms) :
    DeadlineIsInstant dates lo hi d ms ↔ InPlace dates lo hi d ms := by
  constructor
  · intro hinstant
    have hwaiting : ∀ t, lo ≤ t → t ≤ hi →
        (d ≤ dates.toISOString t ↔ ms ≤ t) := by
      intro t hlo hhi
      have holdest := waitingDb_oldest d (dates.toISOString t)
      obtain ⟨r, db', hreserve⟩ := reserveCommand_returns dates t holdest
        (waitingDb_loggable d)
      have hcode := reserveCommand_timedOut holdest hreserve
      have hclaim := hinstant.reserve t t _ _ r db' hlo hhi rfl holdest hreserve
      rw [pastDeadline_iff _ hd.nonempty rfl] at hcode
      exact hcode.symm.trans hclaim
    refine ⟨fun hle => ?_, fun hle => ?_⟩
    · exact (hwaiting _ (by omega) hle).mpr (by omega)
    · refine String.not_le.mp fun hpast => ?_
      have := (hwaiting _ hle (by omega)).mp hpast
      omega
  · intro hplace
    constructor
    · intro t now db c r db' hlo hhi hc holdest hreserve
      rw [reserveCommand_timedOut holdest hreserve,
        pastDeadline_iff _ hd.nonempty hc]
      exact hplace.le_iff h hlo hhi
    · intro t now staleAfterMs db c db' hlo hhi hc hmem hopen hatt hreconcile
      obtain ⟨e, he, hout⟩ :=
        reconcileCommands_timedOut hmem hopen hatt hreconcile
      rw [pastDeadline_iff _ hd.nonempty hc, hplace.le_iff h hlo hhi] at hout
      rw [← hout]
      constructor
      · rintro ⟨e', he', h'⟩
        rw [he] at he'
        cases he'
        exact h'
      · exact fun h' => ⟨e, he, h'⟩

theorem epoch_textsOrdered : TextsOrdered .epoch 0 9 := by
  have hdigits : ∀ a b : Fin 10, a < b →
      DateApi.epoch.toISOString (a.val : Int) <
        DateApi.epoch.toISOString (b.val : Int) := by decide +kernel
  constructor
  intro s t hs hst ht
  obtain ⟨a, rfl⟩ := Int.eq_ofNat_of_zero_le hs
  obtain ⟨b, rfl⟩ := Int.eq_ofNat_of_zero_le (hs.trans hst.le)
  exact hdigits ⟨a, by omega⟩ ⟨b, by omega⟩ (Int.ofNat_lt.mp hst)

theorem deadline_isInstant_canonical :
    DeadlineIsInstant .epoch 0 9 "1970-01-01T00:00:00.004Z" 4 :=
  (deadline_isInstant_iff epoch_textsOrdered
    ⟨by decide, by decide⟩).mpr ⟨by decide, by decide⟩

/-- A deadline without milliseconds is still ahead five milliseconds later. -/
theorem deadline_overrun :
    ∃ s r db', (delivery .epoch).Reachable s ∧
      Accepted .epoch "1970-01-01T00:00:00Z" 0 ∧
      reserveCommand .epoch 5 (DateApi.epoch.toISOString 5) s.db =
        .ok (some r, db') ∧
      r.deadlineAt = some "1970-01-01T00:00:00Z" ∧ r.state = .dispatching := by
  obtain ⟨s, hrun, hreserve⟩ := (delivery .epoch).exists_run_of_map
    (f := fun s => (reserveCommand .epoch 5 (DateApi.epoch.toISOString 5)
      s.db).toOption.map fun p => p.1.map fun r => (r.deadlineAt, r.state))
    (by decide +kernel : ((delivery .epoch).run idleDelivery
      [.enqueue 0 "cmd-1" .coordinator
        { runId := "run-1", recipientSessionId := "session-1",
          idempotencyKey := "key-1", kind := "send", payload := some "{}",
          deadlineAt := some "1970-01-01T00:00:00Z" }]).map
      (fun s => (reserveCommand .epoch 5 (DateApi.epoch.toISOString 5)
        s.db).toOption.map fun p => p.1.map fun r => (r.deadlineAt, r.state)) =
          some (some (some (some "1970-01-01T00:00:00Z", .dispatching))))
  have hreachable : (delivery .epoch).Reachable s :=
    (System.Reachable.initial idleDelivery_initial).run hrun
  cases h : reserveCommand .epoch 5 (DateApi.epoch.toISOString 5) s.db with
  | error e =>
      rw [h] at hreserve
      cases hreserve
  | ok p =>
      obtain ⟨r, db'⟩ := p
      rw [h] at hreserve
      cases r with
      | none => cases hreserve
      | some r =>
          obtain ⟨hdeadline, hstate⟩ :=
            Prod.mk.inj (Option.some.inj (Option.some.inj hreserve))
          exact ⟨s, r, db', hreachable, ⟨by decide, by decide⟩, h, hdeadline,
            hstate⟩

/-- Deadlines in place for one instant time out at the same sweep. -/
theorem sameInstant_sameSweep (h : TextsOrdered dates lo hi) {d d' : String}
    {ms t : Int} {c c' : DurableCommand} (hd : Accepted dates d ms)
    (hd' : Accepted dates d' ms) (hplace : InPlace dates lo hi d ms)
    (hplace' : InPlace dates lo hi d' ms) (hc : c.deadlineAt = some d)
    (hc' : c'.deadlineAt = some d') (hlo : lo ≤ t) (hhi : t ≤ hi) :
    pastDeadline (dates.toISOString t) c =
      pastDeadline (dates.toISOString t) c' := by
  rw [Bool.eq_iff_iff, pastDeadline_iff _ hd.nonempty hc,
    pastDeadline_iff _ hd'.nonempty hc', hplace.le_iff h hlo hhi,
    hplace'.le_iff h hlo hhi]

end OrcState.Command
