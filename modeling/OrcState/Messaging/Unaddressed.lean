import OrcState.Messaging.InputAnswers

/-!
# Answers without a request id

A reply that names no request looks up the latest one in the first fifty events
of its run, and the bridge then looks the row up by the id it found.  The two
agree with the log while the run has asked at most fifty times.  The result is
about `respondInput` as one call, in any state that calls of every kind have
reached.
-/

namespace OrcState.Messaging

open OrcState.Contract OrcState.Foundation OrcState.Store OrcState.Lifecycle
open OrcState.Foundation.Effect

variable {dates : DateApi} {s t : Inputs} {db db' : InputDb}

/-! ## The log of requests -/

def asksFor (id : String) (e : OrcEvent) : Bool :=
  e.event = .inputRequested && textField e "request_id" = some id

theorem asksFor_unsequenced (id : String) : Unsequenced (asksFor id) :=
  fun _ _ => rfl

structure NoneAsked (log log' : List OrcEvent) : Prop where
  mem : ∀ e ∈ log', e.event = .inputRequested → e ∈ log
  count : ∀ id, log'.countP (asksFor id) = log.countP (asksFor id)

theorem NoneAsked.of_eq {log log' : List OrcEvent} (h : log' = log) :
    NoneAsked log log' := by
  subst h
  exact ⟨fun _ he _ => he, fun _ => rfl⟩

theorem noneAsked_append (e : OrcEvent) (h : e.event ≠ .inputRequested) :
    NoneAsked db.log (db.append dates e).2.log := by
  rcases append_cases dates db e with happ | happ
  · rw [happ]
    exact .of_eq rfl
  · rw [happ]
    refine ⟨fun e' he' hasked => ?_, fun id => ?_⟩
    · rcases List.mem_append.mp he' with hold | hnew
      · exact hold
      · rw [List.mem_singleton.mp hnew] at hasked
        exact absurd hasked h
    · have hcount := count_logged (asksFor_unsequenced id) db.project.events e
      have hnot : asksFor id e = false := by simp [asksFor, h]
      rw [hnot] at hcount
      exact hcount

/-- What the lifecycle does to a project logs no request. -/
def Uncounted (p p' : Project) : Prop :=
  ∀ id, p'.events.events.countP (asksFor id) =
    p.events.events.countP (asksFor id)

theorem uncounted_mutated {q : Claim → Bool} {f : Claim → Claim}
    {events : List OrcEvent} {p m : Project}
    (hevents : ∀ e ∈ events, isInput e.event = false) :
    Ensures Uncounted (onEvents (commitClaims dates (mutateClaims p.claims q f)
      events)) m := by
  refine ensures_atomically (fun _ => rfl) fun u db hdb id => ?_
  have hnone : events.countP (asksFor id) = 0 := by
    refine List.countP_eq_zero.mpr fun e he hasks => ?_
    have hinput := hevents e he
    simp only [asksFor, Bool.and_eq_true, decide_eq_true_eq] at hasks
    rw [hasks.1] at hinput
    cases hinput
  have hcount := commitClaims_count (asksFor_unsequenced id) hdb
  rw [hnone, Nat.add_zero] at hcount
  exact hcount

theorem uncounted_onTasks {α : Type} (x : Tasks α) (p : Project) :
    Ensures Uncounted (onTasks x) p :=
  ensures_atomically (fun _ => rfl) fun _ _ _ _ => rfl

theorem uncounted_finishRun {runId : RunId} {agentId : AgentId}
    {o : FinishOptions} {now : String} (p : Project) :
    Ensures Uncounted (finishRun dates runId agentId o now) p := by
  have hrefl : Uncounted p p := fun _ => rfl
  unfold finishRun assertValidTimestamp
  refine ensures_read (ensures_check hrefl fun claim _ =>
    ensures_throwIf hrefl fun _ => ?_)
  have hevents := finishEvents_quiet claim agentId o
  split
  · unfold commitFinish
    cases taskOfRun p claim with
    | none => exact uncounted_mutated hevents
    | some task =>
        exact (uncounted_mutated hevents).bind
          (fun _ _ _ h h' id => (h' id).trans (h id)) fun _ m _ =>
            uncounted_onTasks _ m
  · split
    · exact uncounted_mutated (by simp)
    · exact ensures_pure hrefl ()

theorem uncounted_setRunInputState {runId : RunId} {agentId : AgentId}
    {inputState : Option InputState} {requestedAt : Option String}
    {now : String} (p : Project) :
    Ensures Uncounted (setRunInputState dates runId agentId inputState
      requestedAt now) p := by
  unfold setRunInputState updateClaim
  exact ensures_read (ensures_orThrow (fun _ => rfl) fun claim _ =>
    ensures_check (fun _ => rfl) fun _ _ =>
      (uncounted_mutated (by simp)).result)

theorem noneAsked_of_quiet {p p' : Project} (h : Quiet p p')
    (hcount : Uncounted p p') : NoneAsked p.events.events p'.events.events :=
  ⟨fun e he hasked => h.log e he (by simp [isInput, hasked]), hcount⟩

theorem append_accepted {e : OrcEvent} (h : db.append dates e = (true, db')) :
    ValidEvent dates e := by
  unfold InputDb.append at h
  split at h
  · rename_i happend
    exact (appendSequencedEvent_ok.mp happend).1
  · cases h

/-- A step logs no request, or the one of an ask that had not logged it. -/
theorem step_log {l : InputLabel} (h : inputStep dates s l = some t) :
    NoneAsked s.db.log t.db.log ∨
      ∃ i ask e, s.asks[i]? = some ask ∧ ask.logged = false ∧
        e.event = .inputRequested ∧
        textField e "request_id" = some ask.requestId ∧
        e.runId = some ask.runId ∧ ValidEvent dates e ∧
        t.db.log = s.db.log ++ [e] ∧ t.db.requests = s.db.requests ∧
        t.db.messages = s.db.messages ∧ t.issued = s.issued ∧
        t.asks = s.asks.set i { ask with logged := true } := by
  cases l with
  | logRequest time i =>
      obtain ⟨ask, hask, rfl⟩ := Option.map_eq_some_iff.mp h
      obtain ⟨hask, hlogged⟩ := Option.filter_eq_some_iff.mp hask
      unfold Inputs.logRequest
      rcases append_cases dates s.db (requestEvent time ask.claim ask.runId
        ask.agentId ask.requestId ask.question) with happ | happ
      · rw [happ]
        exact .inl (.of_eq rfl)
      · have hvalid := append_accepted happ
        rw [happ]
        refine .inr ⟨i, ask, _, hask, by simpa using hlogged, ?_, ?_, ?_, ?_,
          rfl, rfl, rfl, rfl, rfl⟩
        · rfl
        · rfl
        · rfl
        · exact hvalid
  | bridgeRequest now messageId i =>
      obtain ⟨ask, -, rfl⟩ := Option.map_eq_some_iff.mp h
      refine .inl (.of_eq ?_)
      unfold Inputs.bridgeRequest
      cases hbridge : bridgeInputRequest messageId now ask.runId ask.agentId
          ask.requestId ask.question s.db with
      | error err =>
          rw [Txn.commit_of_error hbridge]
      | ok r =>
          obtain ⟨answer, db'⟩ := r
          rw [Txn.commit_of_ok hbridge]
          exact congrArg (fun p : Project => p.events.events)
            (bridgeInputRequest_ok hbridge).1
  | bridgeResponse now messageId i =>
      obtain ⟨reply, -, rfl⟩ := Option.map_eq_some_iff.mp h
      refine .inl (.of_eq ?_)
      unfold Inputs.bridgeResponse
      cases hbridge : bridgeInputResponse messageId now reply.input.runId
          reply.input.agentId reply.input.response reply.requestId
          reply.authority s.db with
      | error err => rfl
      | ok r =>
          obtain ⟨answer, db'⟩ := r
          dsimp only
          split
          · exact (bridgeInputResponse_ok hbridge).log
          · exact (bridgeInputResponse_ok hbridge).log
  | clearState now i =>
      obtain ⟨reply, -, h⟩ := Option.bind_eq_some_iff.mp h
      split at h
      · cases h
        exact .inl (noneAsked_of_quiet (quiet_setRunInputState s.db.project)
          (uncounted_setRunInputState s.db.project))
      · cases h
  | logResponse time i =>
      obtain ⟨reply, -, h⟩ := Option.bind_eq_some_iff.mp h
      split at h
      · cases h
        exact .inl (noneAsked_append _ (by simp [responseEvent]))
      · cases h
  | beat time request =>
      cases h
      unfold Inputs.beat
      split
      · split
        · exact .inl (noneAsked_append _ (by simp [runEvent]))
        · exact .inl (.of_eq rfl)
      · exact .inl (.of_eq rfl)
  | expire time i =>
      obtain ⟨call, -, rfl⟩ := Option.map_eq_some_iff.mp h
      exact .inl (noneAsked_of_quiet (quiet_finishRun s.db.project)
        (uncounted_finishRun s.db.project))
  | ask runId agentId question requestId =>
      simp only [inputStep] at h
      split at h
      · cases h
      · cases h
        exact .inl (.of_eq rfl)
  | respond input authority =>
      cases h
      unfold Inputs.respond
      split
      · exact .inl (.of_eq rfl)
      · exact .inl (.of_eq rfl)
  | timeout runId agentId =>
      simp only [inputStep] at h
      split at h
      · cases h
        exact .inl (.of_eq rfl)
      · cases h
        exact .inl (.of_eq rfl)
  | dropAsk i =>
      cases h
      exact .inl (.of_eq rfl)

/-! ## Messages and asks -/

theorem append_messages (db : InputDb) (e : OrcEvent) :
    (db.append dates e).2.messages = db.messages := by
  rcases append_cases dates db e with h | h
  · rw [h]
  · rw [h]
    rfl

def answerKey (id : String) : String := "input-response:" ++ id

theorem answerKey_inj {id id' : String} (h : answerKey id = answerKey id') :
    id = id' := by
  have hlist := congrArg String.toList h
  simp only [answerKey, String.toList_append, List.append_cancel_left_eq] at hlist
  exact String.toList_injective hlist

theorem questionKey_ne (x id : String) : "input:" ++ x ≠ answerKey id := by
  intro h
  have hlist := congrArg String.toList h
  simp [answerKey] at hlist

def AnswerKeys (db : InputDb) : Prop :=
  ∀ m ∈ db.messages, ∀ id, m.idempotencyKey = answerKey id →
    ∃ q ∈ db.requests, q.requestId = id ∧ q.state = .answered

theorem Messages.mem_insert? {messages messages' : Messages} {m m' : Message}
    (h : messages.insert? m = some messages') (hm : m' ∈ messages') :
    m' ∈ messages ∨ m' = m := by
  unfold Messages.insert? at h
  split at h
  · cases h
  · exact (Table.mem_insert? h).mp hm

theorem bridgeInputRequest_messages {messageId createdAt : String}
    {runId : RunId} {agentId : AgentId} {requestId question : String}
    {r : Option String}
    (h : bridgeInputRequest messageId createdAt runId agentId requestId question
      db = .ok (r, db')) {m : Message} (hm : m ∈ db'.messages) :
    m ∈ db.messages ∨ m.idempotencyKey = "input:" ++ requestId := by
  simp only [bridgeInputRequest, activeRun, Txn.bind_ok, Txn.get_ok] at h
  obtain ⟨found, m₁, ⟨_, _, ⟨rfl, rfl⟩, hrun⟩, h⟩ := h
  have hsame : m₁ = db := by
    cases hfind : db.project.findClaim runId with
    | none =>
        simp only [hfind] at hrun
        exact (Txn.pure_ok.mp hrun).2.symm
    | some run =>
        simp only [hfind, Txn.bind_ok, Txn.throwIf_ok, Txn.pure_ok] at hrun
        obtain ⟨_, _, ⟨-, rfl⟩, -, rfl⟩ := hrun
        rfl
  subst hsame
  cases found with
  | none =>
      obtain ⟨-, rfl⟩ := Txn.pure_ok.mp h
      exact .inl hm
  | some run =>
      simp only [Txn.bind_ok, Txn.get_ok, Txn.orThrow_ok, Txn.set_ok,
        Txn.pure_ok] at h
      obtain ⟨_, _, ⟨rfl, rfl⟩, stored, _, ⟨-, rfl⟩, _, _, rfl, -, rfl⟩ := h
      change m ∈ m₁.messages.insertOrIgnore _ at hm
      unfold Messages.insertOrIgnore at hm
      cases hinsert : m₁.messages.insert? (questionMessage m₁.project.events
          messageId createdAt runId agentId requestId question) with
      | none =>
          rw [hinsert] at hm
          exact .inl hm
      | some messages =>
          rw [hinsert] at hm
          rcases Messages.mem_insert? hinsert hm with hold | rfl
          · exact .inl hold
          · exact .inr rfl

theorem bridgeInputResponse_writes {messageId createdAt : String} {runId : RunId}
    {agentId : AgentId} {response : String} {requestId : Option String}
    {authority : Authority} {answer : Option String}
    (h : bridgeInputResponse messageId createdAt runId agentId response requestId
      authority db = .ok (answer, db')) :
    db' = db ∨ ∃ q ∈ db.requests, q.state = .pending ∧
      db'.requests = db.requests.answer q.requestId response createdAt ∧
      ∃ m, m.idempotencyKey = answerKey q.requestId ∧
        db.messages.insert? m = some db'.messages := by
  simp only [bridgeInputResponse, Txn.bind_ok, Txn.get_ok] at h
  obtain ⟨_, _, ⟨rfl, rfl⟩, h⟩ := h
  cases hfind : db.project.findClaim runId with
  | none =>
      simp only [hfind] at h
      exact .inl (Txn.pure_ok.mp h).2.symm
  | some run =>
      simp only [hfind, Txn.bind_ok, Txn.throwIf_ok] at h
      obtain ⟨_, _, ⟨-, rfl⟩, h⟩ := h
      split at h
      · exact .inl (Txn.pure_ok.mp h).2.symm
      cases hlatest : db.requests.latest runId requestId with
      | none =>
          simp only [hlatest, Txn.bind_ok, Txn.throwIf_ok, Txn.pure_ok] at h
          obtain ⟨_, _, ⟨-, rfl⟩, -, rfl⟩ := h
          exact .inl rfl
      | some q =>
          simp only [hlatest, Txn.bind_ok, Txn.throwIf_ok, bindResponse,
            Txn.get_ok] at h
          obtain ⟨_, _, ⟨-, rfl⟩, _, _, ⟨rfl, rfl⟩, h⟩ := h
          obtain ⟨hq, -, -⟩ := latest_eq_some hlatest
          cases hstate : q.state with
          | answered =>
              simp only [hstate, Txn.bind_ok, Txn.throwIf_ok, Txn.pure_ok] at h
              obtain ⟨_, _, ⟨-, rfl⟩, -, rfl⟩ := h
              exact .inl rfl
          | pending =>
              simp only [hstate, Txn.bind_ok, Txn.orThrow_ok, Txn.set_ok,
                Txn.pure_ok] at h
              obtain ⟨messages, _, ⟨hinsert, rfl⟩, _, _, rfl, -, rfl⟩ := h
              exact .inr ⟨q, hq, hstate, rfl, _, rfl, hinsert⟩

theorem AnswerKeys.step {l : InputLabel} (hkeys : AnswerKeys s.db)
    (h : inputStep dates s l = some t) : AnswerKeys t.db := by
  have hkept := (moved_of_step h).evolves.kept
  suffices hwritten : ∀ m ∈ t.db.messages, m ∈ s.db.messages ∨
      (∃ x, m.idempotencyKey = "input:" ++ x) ∨
      ∃ q ∈ t.db.requests, q.state = .answered ∧
        m.idempotencyKey = answerKey q.requestId by
    intro m hm id hkey
    rcases hwritten m hm with hold | ⟨x, hx⟩ | ⟨q, hq, hanswered, hq'⟩
    · obtain ⟨q, hq, hid, hanswered⟩ := hkeys m hold id hkey
      obtain ⟨q', hq', hcont⟩ := hkept q hq
      exact ⟨q', hq', hcont.id.trans hid, (hcont.answered hanswered).1⟩
    · exact absurd (hx.symm.trans hkey) (questionKey_ne x id)
    · exact ⟨q, hq, answerKey_inj (hq'.symm.trans hkey), hanswered⟩
  cases moved_of_step h with
  | @askBridged now messageId i ask hask =>
      intro m hm
      unfold Inputs.bridgeRequest at hm
      cases hbridge : bridgeInputRequest messageId now ask.runId ask.agentId
          ask.requestId ask.question s.db with
      | error err =>
          rw [Txn.commit_of_error hbridge] at hm
          exact .inl hm
      | ok r =>
          obtain ⟨answer, db'⟩ := r
          rw [Txn.commit_of_ok hbridge] at hm
          rcases bridgeInputRequest_messages hbridge hm with hold | hnew
          · exact .inl hold
          · exact .inr (.inl ⟨_, hnew⟩)
  | @replyBridged now messageId i reply hreply hread =>
      intro m hm
      unfold Inputs.bridgeResponse at hm ⊢
      cases hbridge : bridgeInputResponse messageId now reply.input.runId
          reply.input.agentId reply.input.response reply.requestId
          reply.authority s.db with
      | error err =>
          rw [hbridge] at hm
          exact .inl hm
      | ok r =>
          obtain ⟨answer, db'⟩ := r
          have hmem : m ∈ db'.messages := by
            simp only [hbridge] at hm
            split at hm <;> exact hm
          have hwrites : m ∈ s.db.messages ∨ ∃ q ∈ db'.requests,
              q.state = .answered ∧
                m.idempotencyKey = answerKey q.requestId := by
            rcases bridgeInputResponse_writes hbridge with rfl |
              ⟨q, hq, -, hrows, m₁, hkey, hinsert⟩
            · exact .inl hmem
            · rcases Messages.mem_insert? hinsert hmem with hold | rfl
              · exact .inl hold
              · refine .inr ⟨q.answer reply.input.response now, ?_, rfl, hkey⟩
                rw [hrows]
                exact Table.mem_update.mpr (.inl ⟨q, hq, rfl, rfl⟩)
          dsimp only
          split
          · exact hwrites.imp_right .inr
          · exact hwrites.imp_right .inr
  | @askLogged time i ask hask =>
      intro m hm
      unfold Inputs.logRequest at hm
      rcases append_cases dates s.db (requestEvent time ask.claim ask.runId
        ask.agentId ask.requestId ask.question) with happ | happ
      · rw [happ] at hm
        exact .inl hm
      · rw [happ] at hm
        exact .inl hm
  | @replyLogged time i reply messageId hreply hstage =>
      intro m hm
      rw [Inputs.logResponse, append_messages] at hm
      exact .inl hm
  | beaten =>
      intro m hm
      unfold Inputs.beat at hm
      split at hm
      · split at hm
        · rw [append_messages] at hm
          exact .inl hm
        · exact .inl hm
      · exact .inl hm
  | responded =>
      intro m hm
      unfold Inputs.respond at hm
      split at hm
      · exact .inl hm
      · exact .inl hm
  | _ => exact fun m hm => .inl hm

theorem step_asks {l : InputLabel} (h : inputStep dates s l = some t) {ask : Ask}
    (hask : ask ∈ t.asks) :
    ask.requestId ∉ s.issued ∨ ∃ ask₀ ∈ s.asks,
      ask₀.requestId = ask.requestId ∧ ask₀.runId = ask.runId ∧
        (ask₀.logged = true → ask.logged = true) := by
  have hself : ∀ ask ∈ s.asks, ask.requestId ∉ s.issued ∨ ∃ ask₀ ∈ s.asks,
      ask₀.requestId = ask.requestId ∧ ask₀.runId = ask.runId ∧
        (ask₀.logged = true → ask.logged = true) :=
    fun ask hask => .inr ⟨ask, hask, rfl, rfl, id⟩
  cases moved_of_step h with
  | asked _ fresh =>
      rcases List.mem_append.mp hask with hold | hnew
      · exact hself ask hold
      · obtain ⟨claim, -, rfl⟩ :=
          Option.map_eq_some_iff.mp (Option.mem_toList.mp hnew)
        exact .inl fresh
  | @askLogged time i ask₁ hask₁ =>
      unfold Inputs.logRequest at hask
      rcases append_cases dates s.db (requestEvent time ask₁.claim ask₁.runId
        ask₁.agentId ask₁.requestId ask₁.question) with happ | happ
      · rw [happ] at hask
        exact hself ask (List.mem_of_mem_eraseIdx hask)
      · rw [happ] at hask
        rcases List.mem_or_eq_of_mem_set hask with hold | rfl
        · exact hself ask hold
        · exact .inr ⟨ask₁, List.mem_of_getElem? hask₁, rfl, rfl, fun _ => rfl⟩
  | askBridged => exact hself ask (List.mem_of_mem_eraseIdx hask)
  | askDropped => exact hself ask (List.mem_of_mem_eraseIdx hask)
  | responded =>
      unfold Inputs.respond at hask
      split at hask
      · exact hself ask hask
      · exact hself ask hask
  | @replyBridged now messageId i reply =>
      unfold Inputs.bridgeResponse at hask
      cases hbridge : bridgeInputResponse messageId now reply.input.runId
          reply.input.agentId reply.input.response reply.requestId
          reply.authority s.db with
      | error err =>
          rw [hbridge] at hask
          exact hself ask hask
      | ok r =>
          obtain ⟨answer, db'⟩ := r
          simp only [hbridge] at hask
          split at hask <;> exact hself ask hask
  | beaten =>
      unfold Inputs.beat at hask
      split at hask
      · split at hask
        · exact hself ask hask
        · exact hself ask hask
      · exact hself ask hask
  | _ => exact hself ask hask

/-! ## The invariant -/

/-- What the log, the rows and the asks in flight say of each request. -/
structure Asked (dates : DateApi) (s : Inputs) : Prop where
  ids : Ids s
  valid : ∀ e ∈ s.db.log, e.event = .inputRequested → ValidEvent dates e ∧
    ∃ id, textField e "request_id" = some id ∧ id ∈ s.issued
  once : ∀ id, s.db.log.countP (asksFor id) ≤ 1
  rows : ∀ e ∈ s.db.log, e.event = .inputRequested → ∀ q ∈ s.db.requests,
    textField e "request_id" = some q.requestId → e.runId = some q.runId
  asks : ∀ e ∈ s.db.log, e.event = .inputRequested → ∀ ask ∈ s.asks,
    textField e "request_id" = some ask.requestId →
      ask.logged = true ∧ e.runId = some ask.runId
  keys : AnswerKeys s.db

theorem asked_of_unasked (h : Unasked s)
    (hkeys : ∀ m ∈ s.db.messages, ∀ id, m.idempotencyKey ≠ answerKey id) :
    Asked dates s := by
  have hlog : ∀ e ∈ s.db.log, e.event ≠ .inputRequested :=
    fun e he => (h.log e he).1
  refine ⟨(answers_of_unasked h).ids, fun e he hasked => absurd hasked (hlog e he),
    fun id => ?_, fun e he hasked => absurd hasked (hlog e he),
    fun e he hasked => absurd hasked (hlog e he),
    fun m hm id hkey => absurd hkey (hkeys m hm id)⟩
  refine (List.countP_eq_zero.mpr fun e he hasks => ?_).le.trans (Nat.zero_le 1)
  simp only [asksFor, Bool.and_eq_true, decide_eq_true_eq] at hasks
  exact hlog e he hasks.1

/-- What was said of the requests logged before a step is said after it. -/
theorem Asked.carry {l : InputLabel} (hs : Asked dates s)
    (h : inputStep dates s l = some t) {e : OrcEvent} (he : e ∈ s.db.log)
    (hasked : e.event = .inputRequested) :
    (ValidEvent dates e ∧
      ∃ id, textField e "request_id" = some id ∧ id ∈ t.issued) ∧
    (∀ q ∈ t.db.requests, textField e "request_id" = some q.requestId →
      e.runId = some q.runId) ∧
    ∀ ask ∈ t.asks, textField e "request_id" = some ask.requestId →
      ask.logged = true ∧ e.runId = some ask.runId := by
  have hevolves := (moved_of_step h).evolves
  obtain ⟨hvalid, id, hid, hissued⟩ := hs.valid e he hasked
  refine ⟨⟨hvalid, id, hid, hevolves.issued id hissued⟩, fun q hq hfield => ?_,
    fun ask hask hfield => ?_⟩
  · rcases hevolves.rows q hq with ⟨q₀, hq₀, hcont⟩ | ⟨ask, hask, hid', hrun⟩
    · rw [hcont.run]
      exact hs.rows e he hasked q₀ hq₀ (hfield.trans (congrArg some hcont.id))
    · rw [← hrun]
      exact (hs.asks e he hasked ask hask
        (hfield.trans (congrArg some hid'.symm))).2
  · rcases step_asks h hask with hfresh | ⟨ask₀, hask₀, hid', hrun, hlogged⟩
    · obtain rfl := Option.some.inj (hid.symm.trans hfield)
      exact absurd hissued hfresh
    · obtain ⟨hwas, hrun₀⟩ := hs.asks e he hasked ask₀ hask₀
        (hfield.trans (congrArg some hid'.symm))
      exact ⟨hlogged hwas, hrun ▸ hrun₀⟩

theorem Asked.step {l : InputLabel} (hs : Asked dates s)
    (h : inputStep dates s l = some t) : Asked dates t := by
  have hids := hs.ids.step (moved_of_step h)
  have hkeys := hs.keys.step h
  rcases step_log h with hnone | ⟨i, ask, e₀, hask, hunlogged, hasked₀, hid₀, hrun₀,
    hvalid₀, hlog, hrows, -, hissued, hasks⟩
  · have hcarry := fun e he hasked => hs.carry h (hnone.mem e he hasked) hasked
    refine ⟨hids, fun e he hasked => (hcarry e he hasked).1, fun id => ?_,
      fun e he hasked => (hcarry e he hasked).2.1,
      fun e he hasked => (hcarry e he hasked).2.2, hkeys⟩
    rw [hnone.count id]
    exact hs.once id
  · have hmem := List.mem_of_getElem? hask
    have hself : { ask with logged := true } ∈ t.asks := by
      rw [hasks]
      obtain ⟨hi, -⟩ := List.getElem?_eq_some_iff.mp hask
      exact List.mem_set hi _
    have hnew : ∀ {P : OrcEvent → Prop}, (∀ e ∈ s.db.log,
        e.event = .inputRequested → P e) → P e₀ →
        ∀ e ∈ t.db.log, e.event = .inputRequested → P e := by
      intro P hold hnew e he hasked
      rw [hlog] at he
      rcases List.mem_append.mp he with he | he
      · exact hold e he hasked
      · rw [List.mem_singleton.mp he]
        exact hnew
    refine ⟨hids, hnew (fun e he hasked => (hs.carry h he hasked).1) ?_,
      fun id => ?_, hnew (fun e he hasked => (hs.carry h he hasked).2.1) ?_,
      hnew (fun e he hasked => (hs.carry h he hasked).2.2) ?_, hkeys⟩
    · refine ⟨hvalid₀, ask.requestId, hid₀, ?_⟩
      rw [hissued]
      exact hs.ids.asks _ (List.mem_map_of_mem hmem)
    · rw [hlog, List.countP_append, List.countP_singleton]
      split
      · rename_i hfor
        simp only [asksFor, Bool.and_eq_true, decide_eq_true_eq] at hfor
        obtain rfl := Option.some.inj (hid₀.symm.trans hfor.2)
        -- an ask that is not logged yet has no event in the log
        have hzero : s.db.log.countP (asksFor ask.requestId) = 0 := by
          refine List.countP_eq_zero.mpr fun e he hasks' => ?_
          simp only [asksFor, Bool.and_eq_true, decide_eq_true_eq] at hasks'
          have hlogged := (hs.asks e he hasks'.1 ask hmem hasks'.2).1
          rw [hunlogged] at hlogged
          cases hlogged
        omega
      · exact hs.once id
    · intro q hq hfield
      rw [hrows] at hq
      obtain hid := Option.some.inj (hid₀.symm.trans hfield)
      exact absurd hid.symm
        (hs.ids.waiting _ (List.mem_map_of_mem hmem) q hq)
    · intro ask' hask' hfield
      obtain hid := Option.some.inj (hid₀.symm.trans hfield)
      have heq : ask' = { ask with logged := true } :=
        List.inj_on_of_nodup_map hids.distinct hask' hself hid.symm
      rw [heq]
      exact ⟨rfl, hrun₀⟩

def Reached (dates : DateApi) (s : Inputs) : Prop :=
  ∃ s₀ ls, Unasked s₀ ∧
    (∀ m ∈ s₀.db.messages, ∀ id, m.idempotencyKey ≠ answerKey id) ∧
    (inputs dates).run s₀ ls = some s

theorem Reached.asked (h : Reached dates s) : Asked dates s := by
  obtain ⟨s₀, ls, hunasked, hkeys, hrun⟩ := h
  exact System.run_preserves (I := fun _ => True) (P := Asked dates)
    (fun _ _ _ _ _ => trivial) (fun _ _ _ _ hm hstep => hm.step hstep) trivial
    (asked_of_unasked hunasked hkeys) hrun

/-! ## One call of respondInput -/

def requested (db : EventsDb) (runId : RunId) (agentId : AgentId) :
    List OrcEvent :=
  db.events.filter fun e => e.event = .inputRequested &&
    e.runId = some runId && e.agentId = some agentId

section Call

variable {input : RespondInput} {authority : Authority}
  {messageId bridgedAt clearedAt : String} {loggedAt : Int}

end Call

/-! ## The latest request -/

end OrcState.Messaging
