import OrcState.Lifecycle.History
import OrcState.Messaging.InputRequests
import Mathlib.Data.List.Basic

/-!
# One answer for each request

A durable request is answered once, a reply that names a request it may not
answer is refused, and a poll of an active run reads the stored response.  The
last rests on an invariant: a response that has been logged, or will be, settles
the request it names.  It is lost when a reply that names no request finds the
event of one whose row is still to come, and those runs are set apart.
-/

namespace OrcState.Messaging

open OrcState.Contract OrcState.Foundation OrcState.Store OrcState.Lifecycle
open OrcState.Foundation.Effect

variable {dates : DateApi} {s t : Inputs} {db db' : InputDb}

/-! ## What the lifecycle leaves alone -/

def isInput (name : EventName) : Bool :=
  name = .inputRequested || name = .inputResponse

structure Quiet (p p' : Project) : Prop where
  runs : ∀ c' ∈ p'.events.runs, ∃ c ∈ p.events.runs, c.runId = c'.runId ∧
    (c'.active = true → c.active = true)
  log : ∀ e ∈ p'.events.events, isInput e.event = true →
    e ∈ p.events.events

theorem Quiet.of_events {p p' : Project} (h : p'.events = p.events) :
    Quiet p p' where
  runs c hc := ⟨c, by rwa [← h], rfl, id⟩
  log e he _ := by rwa [← h]

theorem Quiet.refl (p : Project) : Quiet p p := .of_events rfl

theorem Quiet.trans (p m p' : Project) (h : Quiet p m) (h' : Quiet m p') :
    Quiet p p' := by
  refine ⟨fun c' hc' => ?_, fun e he hinput =>
    h.log e (h'.log e he hinput) hinput⟩
  obtain ⟨m, hm, hid', hactive'⟩ := h'.runs c' hc'
  obtain ⟨c, hc, hid, hactive⟩ := h.runs m hm
  exact ⟨c, hc, hid.trans hid', fun ha => hactive (hactive' ha)⟩

def EndsOnly (f : Claim → Claim) : Prop :=
  ∀ c, (f c).runId = c.runId ∧ ((f c).active = true → c.active = true)

theorem quiet_mutated {q : Claim → Bool} {f : Claim → Claim}
    {events : List OrcEvent} {p m : Project} (hf : EndsOnly f)
    (hm : m.events = p.events)
    (hevents : ∀ e ∈ events, isInput e.event = false) :
    Ensures Quiet (onEvents (commitClaims dates (mutateClaims p.claims q f)
      events)) m := by
  refine ensures_atomically (.refl m) fun u db hdb => ⟨fun c' hc' => ?_,
    fun e he hinput => ?_⟩
  · obtain ⟨c, hc, rfl⟩ := List.mem_map.mp ((commitClaims_sub hdb).1 c' hc')
    have hold : c ∈ m.events.runs := by
      rw [hm]
      exact hc
    refine ⟨c, hold, ?_⟩
    split
    · exact ⟨(hf c).1.symm, (hf c).2⟩
    · exact ⟨rfl, id⟩
  · rcases commitClaims_mem hdb he with hold | ⟨e₀, he₀, n, rfl⟩
    · exact hold
    · exact absurd hinput (by simp [hevents e₀ he₀])

theorem quiet_onTasks {α : Type} (x : Tasks α) (p : Project) :
    Ensures Quiet (onTasks x) p :=
  ensures_atomically (.refl p) fun _ _ _ => .of_events rfl

theorem finishEvents_quiet (claim : Claim) (agentId : AgentId)
    (o : FinishOptions) :
    ∀ e ∈ finishEvents claim agentId o, isInput e.event = false := by
  intro e he
  unfold finishEvents at he
  split at he
  · split at he
    · rw [List.mem_singleton.mp he]
      rfl
    · rw [List.mem_singleton.mp he]
      rfl
  · cases he

theorem quiet_finishRun {runId : RunId} {agentId : AgentId} {o : FinishOptions}
    {now : String} (p : Project) :
    Ensures Quiet (finishRun dates runId agentId o now) p := by
  unfold finishRun assertValidTimestamp
  refine ensures_read (ensures_check (.refl p) fun claim _ =>
    ensures_throwIf (.refl p) fun _ => ?_)
  have hf : EndsOnly (finishClaim o) := fun c =>
    ⟨rfl, fun h => by rw [finishClaim_active] at h; cases h⟩
  have hevents := finishEvents_quiet claim agentId o
  split
  · unfold commitFinish
    cases taskOfRun p claim with
    | none => exact quiet_mutated hf rfl hevents
    | some task =>
        exact (quiet_mutated hf rfl hevents).bind Quiet.trans fun _ m _ =>
          quiet_onTasks _ m
  · split
    · refine quiet_mutated (f := clearFinalization) ?_ rfl (by simp)
      exact fun _ => ⟨rfl, id⟩
    · exact ensures_pure (.refl p) ()

theorem quiet_setRunInputState {runId : RunId} {agentId : AgentId}
    {inputState : Option InputState} {requestedAt : Option String}
    {now : String} (p : Project) :
    Ensures Quiet (setRunInputState dates runId agentId inputState requestedAt
      now) p := by
  unfold setRunInputState updateClaim
  refine ensures_read (ensures_orThrow (.refl p) fun claim _ =>
    ensures_check (.refl p) fun _ _ =>
      (quiet_mutated ?_ rfl (by simp)).result)
  exact fun _ => ⟨rfl, id⟩

/-! ## What one transaction does -/

def InputDb.runActive (db : InputDb) (runId : RunId) : Bool :=
  (db.project.findClaim runId).any Claim.active

theorem Quiet.runActive {p p' : Project} (h : Quiet p p') {runId : RunId}
    (hactive : (p'.findClaim runId).any Claim.active = true) :
    (p.findClaim runId).any Claim.active = true := by
  obtain ⟨c', hfind, ha⟩ := (Option.any_eq_true _ _).mp hactive
  obtain ⟨c, hc, hid, hkept⟩ := h.runs c' (Table.mem_of_find? hfind)
  have hfound : p.findClaim runId = some c := by
    rw [← Table.key_of_find? hfind, ← hid]
    exact Table.find?_of_mem hc
  rw [hfound]
  exact hkept ha

/-- The same request, with the same response once it has one. -/
structure Continues (q q' : InputRequest) : Prop where
  id : q'.requestId = q.requestId
  run : q'.runId = q.runId
  answered : q.state = .answered →
    q'.state = .answered ∧ q'.response = q.response

theorem Continues.refl (q : InputRequest) : Continues q q :=
  ⟨rfl, rfl, fun h => ⟨h, rfl⟩⟩

theorem Continues.trans {q m q' : InputRequest} (h : Continues q m)
    (h' : Continues m q') : Continues q q' where
  id := h'.id.trans h.id
  run := h'.run.trans h.run
  answered ha := by
    obtain ⟨hm, hresponse⟩ := h.answered ha
    obtain ⟨hq', hresponse'⟩ := h'.answered hm
    exact ⟨hq', hresponse'.trans hresponse⟩

def InputDb.logged (db : InputDb) (e : OrcEvent) : InputDb :=
  { db with project := db.project.setEvents (db.project.events.logged e) }

theorem append_cases (dates : DateApi) (db : InputDb) (e : OrcEvent) :
    db.append dates e = (false, db) ∨ db.append dates e = (true, db.logged e) := by
  unfold InputDb.append
  cases happend : appendSequencedEvent dates e db.project.events with
  | error err => exact .inl rfl
  | ok r =>
      obtain ⟨u, events⟩ := r
      obtain ⟨-, rfl⟩ := appendSequencedEvent_ok.mp happend
      exact .inr rfl

theorem mem_insertOrIgnore {requests : InputRequests} {q q' : InputRequest}
    (h : q' ∈ requests.insertOrIgnore q) : q' ∈ requests ∨ q' = q := by
  unfold InputRequests.insertOrIgnore at h
  split at h
  · exact .inl h
  · cases hinsert : Table.insert? requests q with
    | none =>
        rw [hinsert] at h
        exact .inl h
    | some U =>
        rw [hinsert] at h
        exact (Table.mem_insert? hinsert).mp h

theorem mem_insertOrIgnore_of_mem {requests : InputRequests}
    {q q' : InputRequest} (h : q' ∈ requests) :
    q' ∈ requests.insertOrIgnore q := by
  unfold InputRequests.insertOrIgnore
  split
  · exact h
  · cases hinsert : Table.insert? requests q with
    | none => exact h
    | some U => exact (Table.mem_insert? hinsert).mpr (.inl h)

theorem bridgeInputRequest_ok {messageId createdAt : String} {runId : RunId}
    {agentId : AgentId} {requestId question : String} {r : Option String}
    (h : bridgeInputRequest messageId createdAt runId agentId requestId question
      db = .ok (r, db')) :
    db'.project = db.project ∧ (db'.requests = db.requests ∨
      ∃ q : InputRequest, q.requestId = requestId ∧ q.runId = runId ∧
        db'.requests = db.requests.insertOrIgnore q) := by
  simp only [bridgeInputRequest, activeRun, Txn.bind_ok, Txn.get_ok] at h
  obtain ⟨found, m, ⟨_, _, ⟨rfl, rfl⟩, hrun⟩, h⟩ := h
  have hm : m = db := by
    cases hfind : db.project.findClaim runId with
    | none =>
        simp only [hfind] at hrun
        exact (Txn.pure_ok.mp hrun).2.symm
    | some run =>
        simp only [hfind, Txn.bind_ok, Txn.throwIf_ok, Txn.pure_ok] at hrun
        obtain ⟨_, _, ⟨-, rfl⟩, -, rfl⟩ := hrun
        rfl
  subst hm
  cases found with
  | none =>
      obtain ⟨-, rfl⟩ := Txn.pure_ok.mp h
      exact ⟨rfl, .inl rfl⟩
  | some run =>
      simp only [Txn.bind_ok, Txn.get_ok, Txn.orThrow_ok, Txn.set_ok,
        Txn.pure_ok] at h
      obtain ⟨_, _, ⟨rfl, rfl⟩, stored, _, ⟨-, rfl⟩, _, _, rfl, -, rfl⟩ := h
      exact ⟨rfl, .inr ⟨_, rfl, rfl, rfl⟩⟩

theorem latest_eq_some {requests : InputRequests} {runId : RunId}
    {requestId : Option String} {q : InputRequest}
    (h : requests.latest runId requestId = some q) :
    q ∈ requests ∧ q.runId = runId ∧
      (truthy requestId = true → requestId = some q.requestId) := by
  have hmem := List.mem_mergeSort.mp (List.mem_of_getLast? h)
  simp only [List.mem_filter, Bool.and_eq_true, Bool.or_eq_true,
    decide_eq_true_eq, Bool.not_eq_true'] at hmem
  obtain ⟨hq, hrun, hid⟩ := hmem
  refine ⟨hq, hrun, fun htruthy => ?_⟩
  rcases hid with hfalse | hid
  · rw [htruthy] at hfalse
    cases hfalse
  · exact hid

theorem latest_eq_none {requests : InputRequests} {runId : RunId}
    {requestId : Option String}
    (h : requests.latest runId requestId = none) {q : InputRequest}
    (hq : q ∈ requests) (hrun : q.runId = runId) :
    truthy requestId = true := by
  by_contra hfalse
  rw [InputRequests.latest, List.getLast?_eq_none_iff] at h
  have hmem : q ∈ ((requests.rows.filter fun q => q.runId = runId &&
      (!truthy requestId || requestId = some q.requestId)).mergeSort
        fun a b => a.createdAt ≤ b.createdAt) := by
    rw [List.mem_mergeSort, List.mem_filter]
    exact ⟨hq, by simp [hrun, hfalse]⟩
  rw [h] at hmem
  cases hmem

inductive Bridging (db : InputDb) (runId : RunId) (agentId : AgentId)
    (response : String) (requestId : Option String) :
    Option String → InputDb → Prop
  | ended (inactive : db.runActive runId = false) :
      Bridging db runId agentId response requestId none db
  | unasked (rows : ∀ q ∈ db.requests, q.runId ≠ runId) :
      Bridging db runId agentId response requestId none db
  | repeated {q : InputRequest} {answer : Option String}
      (mem : q ∈ db.requests) (run : q.runId = runId)
      (named : truthy requestId = true → requestId = some q.requestId)
      (agent : ∃ c, db.project.findClaim runId = some c ∧ c.agentId = agentId)
      (answered : q.state = .answered) (same : q.response = some response) :
      Bridging db runId agentId response requestId answer db
  | bound {q : InputRequest} {answer : Option String} {db' : InputDb}
      {stamp : String} (mem : q ∈ db.requests) (run : q.runId = runId)
      (named : truthy requestId = true → requestId = some q.requestId)
      (agent : ∃ c, db.project.findClaim runId = some c ∧ c.agentId = agentId)
      (pending : q.state = .pending) (project : db'.project = db.project)
      (rows : db'.requests = db.requests.answer q.requestId response stamp) :
      Bridging db runId agentId response requestId answer db'

theorem bridging_of_bind {messageId createdAt : String} {runId : RunId}
    {agentId : AgentId} {response : String} {requestId : Option String}
    {q : InputRequest} {answer : Option String} (mem : q ∈ db.requests)
    (run : q.runId = runId)
    (named : truthy requestId = true → requestId = some q.requestId)
    (agent : ∃ c, db.project.findClaim runId = some c ∧ c.agentId = agentId)
    (h : bindResponse messageId createdAt runId agentId response q db =
      .ok (answer, db')) :
    Bridging db runId agentId response requestId answer db' := by
  simp only [bindResponse, Txn.bind_ok, Txn.get_ok] at h
  obtain ⟨_, _, ⟨rfl, rfl⟩, h⟩ := h
  cases hstate : q.state with
  | answered =>
      simp only [hstate, Txn.bind_ok, Txn.throwIf_ok, Txn.pure_ok, not_not] at h
      obtain ⟨_, _, ⟨hsame, rfl⟩, -, rfl⟩ := h
      exact .repeated mem run named agent hstate hsame
  | pending =>
      simp only [hstate, Txn.bind_ok, Txn.orThrow_ok, Txn.set_ok,
        Txn.pure_ok] at h
      obtain ⟨messages, _, ⟨-, rfl⟩, _, _, rfl, -, rfl⟩ := h
      exact .bound mem run named agent hstate rfl rfl

theorem bridgeInputResponse_ok {messageId createdAt : String} {runId : RunId}
    {agentId : AgentId} {response : String} {requestId : Option String}
    {authority : Authority} {answer : Option String}
    (h : bridgeInputResponse messageId createdAt runId agentId response requestId
      authority db = .ok (answer, db')) :
    Bridging db runId agentId response requestId answer db' := by
  simp only [bridgeInputResponse, Txn.bind_ok, Txn.get_ok] at h
  obtain ⟨_, _, ⟨rfl, rfl⟩, h⟩ := h
  cases hfind : db.project.findClaim runId with
  | none =>
      simp only [hfind] at h
      obtain ⟨rfl, rfl⟩ := Txn.pure_ok.mp h
      exact .ended (by simp [InputDb.runActive, hfind])
  | some run =>
      simp only [hfind, Txn.bind_ok, Txn.throwIf_ok, not_not] at h
      obtain ⟨_, _, ⟨hagent, rfl⟩, h⟩ := h
      by_cases hactive : run.active = false
      · rw [if_pos hactive] at h
        obtain ⟨rfl, rfl⟩ := Txn.pure_ok.mp h
        exact .ended (by simp [InputDb.runActive, hfind, hactive])
      · rw [if_neg hactive] at h
        cases hlatest : db.requests.latest runId requestId with
        | none =>
            simp only [hlatest, Txn.bind_ok, Txn.throwIf_ok, Txn.pure_ok] at h
            obtain ⟨_, _, ⟨hnone, rfl⟩, rfl, rfl⟩ := h
            refine .unasked fun q hq hrun => hnone ⟨?_, q, hq, hrun⟩
            exact latest_eq_none hlatest hq hrun
        | some q =>
            simp only [hlatest, Txn.bind_ok, Txn.throwIf_ok] at h
            obtain ⟨_, _, ⟨-, rfl⟩, hbind⟩ := h
            obtain ⟨hq, hrun, hnamed⟩ := latest_eq_some hlatest
            exact bridging_of_bind hq hrun hnamed ⟨run, hfind, hagent⟩ hbind

/-! ## What one step can be -/

/-- The steps, each with what it needed. -/
inductive Moved (dates : DateApi) (s : Inputs) : InputLabel → Inputs → Prop
  | asked {runId : RunId} {agentId : AgentId} {question requestId : String}
      (some : requestId ≠ "") (fresh : requestId ∉ s.issued) :
      Moved dates s (.ask runId agentId question requestId)
        (s.ask runId agentId question requestId)
  | askLogged {time : String} {i : Nat} {ask : Ask}
      (h : s.asks[i]? = some ask) :
      Moved dates s (.logRequest time i) (s.logRequest dates time i ask)
  | askBridged {now messageId : String} {i : Nat} {ask : Ask}
      (h : s.asks[i]? = some ask) :
      Moved dates s (.bridgeRequest now messageId i)
        (s.bridgeRequest now messageId i ask)
  | askDropped {i : Nat} :
      Moved dates s (.dropAsk i) { s with asks := s.asks.eraseIdx i }
  | responded {input : RespondInput} {authority : Authority} :
      Moved dates s (.respond input authority) (s.respond input authority)
  | replyBridged {now messageId : String} {i : Nat} {reply : Reply}
      (h : s.replies[i]? = some reply) (read : reply.stage = .read) :
      Moved dates s (.bridgeResponse now messageId i)
        (s.bridgeResponse now messageId i reply)
  | replyCleared {now : String} {i : Nat} {reply : Reply}
      {messageId : Option String} (h : s.replies[i]? = some reply)
      (stage : reply.stage = .bridged messageId) :
      Moved dates s (.clearState now i)
        (s.clearState dates now i reply messageId)
  | replyLogged {time : String} {i : Nat} {reply : Reply}
      {messageId : Option String} (h : s.replies[i]? = some reply)
      (stage : reply.stage = .cleared messageId) :
      Moved dates s (.logResponse time i)
        (s.logResponse dates time i reply messageId)
  | beaten {time : String} {request : PollInput} :
      Moved dates s (.beat time request) (s.beat dates time request)
  | waited {runId : RunId} {agentId : AgentId}
      {timeouts : List (RunId × AgentId)} :
      Moved dates s (.timeout runId agentId) { s with timeouts := timeouts }
  | expired {time : String} {i : Nat} {call : RunId × AgentId} :
      Moved dates s (.expire time i) (s.expire dates time i call)

theorem moved_of_step {l : InputLabel} (h : inputStep dates s l = some t) :
    Moved dates s l t := by
  cases l with
  | ask runId agentId question requestId =>
      simp only [inputStep] at h
      split at h
      · cases h
      · rename_i hid
        cases h
        exact .asked (fun he => hid (.inl he)) fun hmem => hid (.inr hmem)
  | logRequest time i =>
      obtain ⟨ask, hask, rfl⟩ := Option.map_eq_some_iff.mp h
      exact .askLogged (Option.filter_eq_some_iff.mp hask).1
  | bridgeRequest now messageId i =>
      obtain ⟨ask, hask, rfl⟩ := Option.map_eq_some_iff.mp h
      exact .askBridged (Option.filter_eq_some_iff.mp hask).1
  | dropAsk i =>
      cases h
      exact .askDropped
  | respond input authority =>
      cases h
      exact .responded
  | bridgeResponse now messageId i =>
      obtain ⟨reply, hreply, rfl⟩ := Option.map_eq_some_iff.mp h
      obtain ⟨hreply, hread⟩ := Option.filter_eq_some_iff.mp hreply
      exact .replyBridged hreply (of_decide_eq_true hread)
  | clearState now i =>
      obtain ⟨reply, hreply, h⟩ := Option.bind_eq_some_iff.mp h
      split at h
      · rename_i messageId hstage
        cases h
        exact .replyCleared hreply hstage
      · cases h
  | logResponse time i =>
      obtain ⟨reply, hreply, h⟩ := Option.bind_eq_some_iff.mp h
      split at h
      · rename_i messageId hstage
        cases h
        exact .replyLogged hreply hstage
      · cases h
  | beat time request =>
      cases h
      exact .beaten
  | timeout runId agentId =>
      simp only [inputStep] at h
      split at h
      · cases h
        exact .waited
      · cases h
        exact @Moved.waited dates s runId agentId s.timeouts
  | expire time i =>
      obtain ⟨call, -, rfl⟩ := Option.map_eq_some_iff.mp h
      exact .expired

structure Evolves (s t : Inputs) : Prop where
  active : ∀ runId, t.db.runActive runId = true → s.db.runActive runId = true
  kept : ∀ q ∈ s.db.requests, ∃ q' ∈ t.db.requests, Continues q q'
  rows : ∀ q' ∈ t.db.requests, (∃ q ∈ s.db.requests, Continues q q') ∨
    ∃ ask ∈ s.asks, ask.requestId = q'.requestId ∧ ask.runId = q'.runId
  asks : ∀ ask ∈ t.asks, ask.requestId ∉ s.issued ∨
    ∃ ask₀ ∈ s.asks, ask₀.requestId = ask.requestId ∧ ask₀.runId = ask.runId
  issued : ∀ id ∈ s.issued, id ∈ t.issued

theorem Evolves.of_same (hrows : t.db.requests = s.db.requests)
    (hissued : t.issued = s.issued)
    (hactive : ∀ runId, t.db.runActive runId = true →
      s.db.runActive runId = true)
    (hasks : ∀ ask ∈ t.asks, ∃ ask₀ ∈ s.asks,
      ask₀.requestId = ask.requestId ∧ ask₀.runId = ask.runId) :
    Evolves s t where
  active := hactive
  kept q hq := ⟨q, by rwa [hrows], .refl q⟩
  rows q hq := .inl ⟨q, by rwa [← hrows], .refl q⟩
  asks ask hask := .inr (hasks ask hask)
  issued id hid := by rwa [hissued]

theorem append_requests (db : InputDb) (e : OrcEvent) :
    (db.append dates e).2.requests = db.requests := by
  rcases append_cases dates db e with h | h
  · rw [h]
  · rw [h]
    rfl

theorem append_runActive (db : InputDb) (e : OrcEvent) (runId : RunId) :
    (db.append dates e).2.runActive runId = db.runActive runId := by
  rcases append_cases dates db e with h | h
  · rw [h]
  · rw [h]
    rfl

theorem mem_answer {requests : InputRequests} {id response stamp : String}
    {q' : InputRequest} (h : q' ∈ requests.answer id response stamp) :
    ∃ q ∈ requests, (q.requestId ≠ id ∧ q' = q) ∨
      (q.requestId = id ∧ q' = q.answer response stamp) := by
  have hrow : q' ∈ Table.update requests id
      (InputRequest.answer response stamp) fun _ => rfl := h
  rcases Table.mem_update.mp hrow with ⟨q, hq, hid, rfl⟩ | ⟨hq, hne⟩
  · exact ⟨q, hq, .inr ⟨hid, rfl⟩⟩
  · exact ⟨q', hq, .inl ⟨hne, rfl⟩⟩

theorem continues_answer {requests : InputRequests} {response stamp : String}
    {q₀ q : InputRequest} (h₀ : q₀ ∈ requests) (hpending : q₀.state = .pending)
    (hq : q ∈ requests) (hid : q.requestId = q₀.requestId) :
    Continues q (q.answer response stamp) := by
  refine ⟨rfl, rfl, fun hanswered => ?_⟩
  rw [Table.eq_of_key hq h₀ hid, hpending] at hanswered
  cases hanswered

theorem Bridging.kept {runId : RunId} {agentId : AgentId} {response : String}
    {requestId answer : Option String}
    (h : Bridging db runId agentId response requestId answer db') :
    (∀ q ∈ db.requests, ∃ q' ∈ db'.requests, Continues q q') ∧
      ∀ q' ∈ db'.requests, ∃ q ∈ db.requests, Continues q q' := by
  have hsame : (∀ q ∈ db.requests, ∃ q' ∈ db.requests, Continues q q') ∧
      ∀ q' ∈ db.requests, ∃ q ∈ db.requests, Continues q q' :=
    ⟨fun q hq => ⟨q, hq, .refl q⟩, fun q hq => ⟨q, hq, .refl q⟩⟩
  cases h with
  | ended => exact hsame
  | unasked => exact hsame
  | repeated => exact hsame
  | @bound q₀ _ _ stamp mem run named agent pending project rows =>
      refine ⟨fun q hq => ?_, fun q' hq' => ?_⟩
      · have hrow : (if q.requestId = q₀.requestId then q.answer response stamp
            else q) ∈ db'.requests := by
          rw [rows]
          exact List.mem_map.mpr ⟨q, hq, rfl⟩
        refine ⟨_, hrow, ?_⟩
        split
        · exact continues_answer mem pending hq ‹_›
        · exact .refl q
      · rw [rows] at hq'
        obtain ⟨q, hq, ⟨-, rfl⟩ | ⟨hid, rfl⟩⟩ := mem_answer hq'
        · exact ⟨q', hq, .refl q'⟩
        · exact ⟨q, hq, continues_answer mem pending hq hid⟩

theorem Bridging.project_eq {runId : RunId} {agentId : AgentId}
    {response : String} {requestId answer : Option String}
    (h : Bridging db runId agentId response requestId answer db') :
    db'.project = db.project := by
  cases h with
  | ended => rfl
  | unasked => rfl
  | repeated => rfl
  | bound _ _ _ _ _ project => exact project

/-! Each step, in turn. -/

theorem evolves_ask {runId : RunId} {agentId : AgentId}
    {question requestId : String} (hfresh : requestId ∉ s.issued) :
    Evolves s (s.ask runId agentId question requestId) where
  active _ h := h
  kept q hq := ⟨q, hq, .refl q⟩
  rows q hq := .inl ⟨q, hq, .refl q⟩
  asks ask hask := by
    rcases List.mem_append.mp hask with hold | hnew
    · exact .inr ⟨ask, hold, rfl, rfl⟩
    · obtain ⟨claim, -, rfl⟩ :=
        Option.map_eq_some_iff.mp (Option.mem_toList.mp hnew)
      exact .inl hfresh
  issued id hid := List.mem_append_left _ hid

theorem evolves_logRequest {time : String} {i : Nat} {ask : Ask}
    (hask : s.asks[i]? = some ask) :
    Evolves s (s.logRequest dates time i ask) := by
  unfold Inputs.logRequest
  rcases append_cases dates s.db (requestEvent time ask.claim
    ask.runId ask.agentId ask.requestId ask.question) with h | h
  · rw [h]
    exact .of_same rfl rfl (fun _ ha => ha) fun ask' hask' =>
      ⟨ask', List.mem_of_mem_eraseIdx hask', rfl, rfl⟩
  · rw [h]
    refine .of_same rfl rfl (fun _ ha => ha) fun ask' hask' => ?_
    rcases List.mem_or_eq_of_mem_set hask' with hold | rfl
    · exact ⟨ask', hold, rfl, rfl⟩
    · exact ⟨ask, List.mem_of_getElem? hask, rfl, rfl⟩

theorem evolves_bridgeRequest {now messageId : String} {i : Nat} {ask : Ask}
    (hask : s.asks[i]? = some ask) :
    Evolves s (s.bridgeRequest now messageId i ask) := by
  have hasks : ∀ ask' ∈ s.asks.eraseIdx i, ask' ∈ s.asks := fun ask' hask' =>
    List.mem_of_mem_eraseIdx hask'
  unfold Inputs.bridgeRequest
  cases h : bridgeInputRequest messageId now ask.runId ask.agentId ask.requestId
      ask.question s.db with
  | error e =>
      rw [Txn.commit_of_error h]
      exact .of_same rfl rfl (fun _ ha => ha) fun ask' hask' =>
        ⟨ask', hasks ask' hask', rfl, rfl⟩
  | ok r =>
      obtain ⟨answer, db'⟩ := r
      rw [Txn.commit_of_ok h]
      obtain ⟨hproject, hrows⟩ := bridgeInputRequest_ok h
      have hactive : ∀ runId, db'.runActive runId = true →
          s.db.runActive runId = true := by
        intro runId ha
        rwa [InputDb.runActive, hproject] at ha
      rcases hrows with hsame | ⟨q, hid, hrun, hrows⟩
      · exact .of_same hsame rfl hactive fun ask' hask' =>
          ⟨ask', hasks ask' hask', rfl, rfl⟩
      · refine ⟨hactive, fun q₀ hq₀ => ⟨q₀, ?_, .refl q₀⟩, fun q' hq' => ?_,
          fun ask' hask' => .inr ⟨ask', hasks ask' hask', rfl, rfl⟩,
          fun _ hid => hid⟩
        · rw [hrows]
          exact mem_insertOrIgnore_of_mem hq₀
        · rw [hrows] at hq'
          rcases mem_insertOrIgnore hq' with hold | rfl
          · exact .inl ⟨q', hold, .refl q'⟩
          · exact .inr ⟨ask, List.mem_of_getElem? hask, hid.symm, hrun.symm⟩

theorem evolves_bridgeResponse {now messageId : String} {i : Nat}
    {reply : Reply} : Evolves s (s.bridgeResponse now messageId i reply) := by
  unfold Inputs.bridgeResponse
  cases h : bridgeInputResponse messageId now reply.input.runId
      reply.input.agentId reply.input.response reply.requestId reply.authority
      s.db with
  | error e =>
      exact .of_same rfl rfl (fun _ ha => ha) fun ask hask =>
        ⟨ask, hask, rfl, rfl⟩
  | ok r =>
      obtain ⟨answer, db'⟩ := r
      have hbridging := bridgeInputResponse_ok h
      obtain ⟨hkept, hrows⟩ := hbridging.kept
      have hactive : ∀ runId, db'.runActive runId = true →
          s.db.runActive runId = true := by
        intro runId ha
        rwa [InputDb.runActive, hbridging.project_eq] at ha
      dsimp only
      split
      · exact ⟨hactive, hkept, fun q' hq' => .inl (hrows q' hq'),
          fun ask hask => .inr ⟨ask, hask, rfl, rfl⟩, fun _ hid => hid⟩
      · exact ⟨hactive, hkept, fun q' hq' => .inl (hrows q' hq'),
          fun ask hask => .inr ⟨ask, hask, rfl, rfl⟩, fun _ hid => hid⟩

theorem Moved.evolves {l : InputLabel} (h : Moved dates s l t) :
    Evolves s t := by
  have hself : ∀ ask ∈ s.asks, ∃ ask₀ ∈ s.asks,
      ask₀.requestId = ask.requestId ∧ ask₀.runId = ask.runId :=
    fun ask hask => ⟨ask, hask, rfl, rfl⟩
  cases h with
  | asked _ fresh => exact evolves_ask fresh
  | askLogged hask => exact evolves_logRequest hask
  | askBridged hask => exact evolves_bridgeRequest hask
  | askDropped =>
      exact .of_same rfl rfl (fun _ ha => ha) fun ask hask =>
        ⟨ask, List.mem_of_mem_eraseIdx hask, rfl, rfl⟩
  | responded =>
      unfold Inputs.respond
      split
      · exact .of_same rfl rfl (fun _ ha => ha) hself
      · exact .of_same rfl rfl (fun _ ha => ha) hself
  | replyBridged => exact evolves_bridgeResponse
  | replyCleared =>
      exact .of_same rfl rfl (fun _ ha =>
        (quiet_setRunInputState s.db.project).runActive ha) hself
  | replyLogged =>
      exact .of_same (append_requests s.db _) rfl (fun runId ha => by
        rwa [Inputs.logResponse, append_runActive] at ha) hself
  | beaten =>
      unfold Inputs.beat
      split
      · split
        · exact .of_same (append_requests s.db _) rfl (fun runId ha => by
            rwa [append_runActive] at ha) hself
        · exact .of_same rfl rfl (fun _ ha => ha) hself
      · exact .of_same rfl rfl (fun _ ha => ha) hself
  | waited => exact .of_same rfl rfl (fun _ ha => ha) hself
  | expired =>
      exact .of_same rfl rfl (fun _ ha =>
        (quiet_finishRun s.db.project).runActive ha) hself

/-! ## Ids -/

def Inputs.askIds (s : Inputs) : List String := s.asks.map Ask.requestId

structure Ids (s : Inputs) : Prop where
  rows : ∀ q ∈ s.db.requests, q.requestId ∈ s.issued
  asks : ∀ id ∈ s.askIds, id ∈ s.issued
  nonempty : "" ∉ s.issued
  distinct : s.askIds.Nodup
  waiting : ∀ id ∈ s.askIds, ∀ q ∈ s.db.requests, q.requestId ≠ id

theorem Ids.of_sublist (h : Ids s) (hissued : t.issued = s.issued)
    (hasks : t.askIds.Sublist s.askIds)
    (hrows : ∀ q' ∈ t.db.requests, ∃ q ∈ s.db.requests,
      q.requestId = q'.requestId) : Ids t := by
  refine ⟨fun q' hq' => ?_, fun id hid => ?_, ?_, h.distinct.sublist hasks,
    fun id hid q' hq' => ?_⟩
  · obtain ⟨q, hq, hid⟩ := hrows q' hq'
    rw [hissued, ← hid]
    exact h.rows q hq
  · rw [hissued]
    exact h.asks id (hasks.subset hid)
  · rw [hissued]
    exact h.nonempty
  · obtain ⟨q, hq, hid'⟩ := hrows q' hq'
    rw [← hid']
    exact h.waiting id (hasks.subset hid) q hq

theorem askIds_set {i : Nat} {ask ask' : Ask} (h : s.asks[i]? = some ask)
    (hid : ask'.requestId = ask.requestId) :
    (s.asks.set i ask').map Ask.requestId = s.askIds := by
  obtain ⟨hi, rfl⟩ := List.getElem?_eq_some_iff.mp h
  have hget : ask'.requestId = (s.asks.map Ask.requestId).get
      ⟨i, by simpa using hi⟩ := by
    rw [List.get_eq_getElem, List.getElem_map]
    exact hid
  rw [List.map_set, Inputs.askIds, hget, List.get_eq_getElem]
  exact List.set_getElem_self _

theorem askIds_eraseIdx (i : Nat) :
    ((s.asks.eraseIdx i).map Ask.requestId).Sublist s.askIds :=
  (List.eraseIdx_sublist s.asks i).map Ask.requestId

theorem not_mem_askIds_eraseIdx {i : Nat} {ask : Ask} (hids : Ids s)
    (h : s.asks[i]? = some ask) :
    ask.requestId ∉ (s.asks.eraseIdx i).map Ask.requestId := by
  intro hmem
  obtain ⟨ask', hask', hid⟩ := List.mem_map.mp hmem
  obtain ⟨j, hne, hj⟩ := List.mem_eraseIdx_iff_getElem?.mp hask'
  obtain ⟨hi, -⟩ := List.getElem?_eq_some_iff.mp h
  have hi' : i < s.askIds.length := by
    rw [Inputs.askIds, List.length_map]
    exact hi
  refine hne ((List.getElem?_inj hi' hids.distinct).mp ?_).symm
  rw [Inputs.askIds, List.getElem?_map, List.getElem?_map, h, hj,
    Option.map_some, Option.map_some, hid]

theorem Ids.ask {runId : RunId} {agentId : AgentId} {question id : String}
    (h : Ids s) (hsome : id ≠ "") (hfresh : id ∉ s.issued) :
    Ids (s.ask runId agentId question id) := by
  have hids : ∀ id' ∈ (s.ask runId agentId question id).askIds,
      id' ∈ s.askIds ∨ id' = id := by
    intro id' hid'
    obtain ⟨ask, hask, rfl⟩ := List.mem_map.mp hid'
    rcases List.mem_append.mp hask with hold | hnew
    · exact .inl (List.mem_map.mpr ⟨ask, hold, rfl⟩)
    · obtain ⟨claim, -, rfl⟩ :=
        Option.map_eq_some_iff.mp (Option.mem_toList.mp hnew)
      exact .inr rfl
  refine ⟨fun q hq => List.mem_append_left _ (h.rows q hq), fun id' hid' => ?_,
    fun hmem => ?_, ?_, fun id' hid' q hq => ?_⟩
  · rcases hids id' hid' with hold | rfl
    · exact List.mem_append_left _ (h.asks id' hold)
    · exact List.mem_append_right _ (List.mem_singleton_self _)
  · rcases List.mem_append.mp hmem with hold | hnew
    · exact h.nonempty hold
    · exact hsome (List.mem_singleton.mp hnew).symm
  · unfold Inputs.ask Inputs.askIds
    rw [List.map_append]
    cases mayAsk s.db.project runId agentId with
    | none =>
        rw [Option.map_none, Option.toList_none, List.map_nil, List.append_nil]
        exact h.distinct
    | some claim =>
        refine List.nodup_append.mpr ⟨h.distinct, by simp, ?_⟩
        intro id₁ h₁ id₂ h₂ heq
        have h₂' : id₂ = id := by simpa using h₂
        exact hfresh (h₂' ▸ heq ▸ h.asks id₁ h₁)
  · rcases hids id' hid' with hold | rfl
    · exact h.waiting id' hold q hq
    · intro heq
      exact hfresh (heq ▸ h.rows q hq)

theorem Ids.bridgeRequest {now messageId : String} {i : Nat} {ask : Ask}
    (h : Ids s) (hask : s.asks[i]? = some ask) :
    Ids (s.bridgeRequest now messageId i ask) := by
  have hevolves : Evolves s (s.bridgeRequest now messageId i ask) :=
    evolves_bridgeRequest hask
  have hasks : (s.bridgeRequest now messageId i ask).askIds.Sublist s.askIds :=
    askIds_eraseIdx i
  have hrows : ∀ q' ∈ (s.bridgeRequest now messageId i ask).db.requests,
      (∃ q ∈ s.db.requests, q.requestId = q'.requestId) ∨
        q'.requestId = ask.requestId := by
    intro q' hq'
    unfold Inputs.bridgeRequest at hq'
    cases hbridge : bridgeInputRequest messageId now ask.runId ask.agentId
        ask.requestId ask.question s.db with
    | error e =>
        rw [Txn.commit_of_error hbridge] at hq'
        exact .inl ⟨q', hq', rfl⟩
    | ok r =>
        obtain ⟨answer, db'⟩ := r
        rw [Txn.commit_of_ok hbridge] at hq'
        rcases (bridgeInputRequest_ok hbridge).2 with hsame | ⟨q, hid, -, hins⟩
        · rw [hsame] at hq'
          exact .inl ⟨q', hq', rfl⟩
        · rw [hins] at hq'
          rcases mem_insertOrIgnore hq' with hold | rfl
          · exact .inl ⟨q', hold, rfl⟩
          · exact .inr hid
  refine ⟨fun q' hq' => ?_, fun id hid => h.asks id (hasks.subset hid), h.nonempty,
    h.distinct.sublist hasks, fun id hid q' hq' => ?_⟩
  · rcases hrows q' hq' with ⟨q, hq, heq⟩ | heq
    · exact heq ▸ h.rows q hq
    · exact heq ▸ h.asks _ (List.mem_map.mpr
        ⟨ask, List.mem_of_getElem? hask, rfl⟩)
  · rcases hrows q' hq' with ⟨q, hq, heq⟩ | heq
    · exact heq ▸ h.waiting id (hasks.subset hid) q hq
    · rintro rfl
      exact not_mem_askIds_eraseIdx h hask (heq ▸ hid)

theorem Ids.step {l : InputLabel} (h : Ids s) (hmoved : Moved dates s l t) :
    Ids t := by
  have hself : ∀ q' ∈ s.db.requests, ∃ q ∈ s.db.requests,
      q.requestId = q'.requestId := fun q' hq' => ⟨q', hq', rfl⟩
  cases hmoved with
  | asked hsome hfresh => exact h.ask hsome hfresh
  | @askLogged time i ask hask =>
      unfold Inputs.logRequest
      rcases append_cases dates s.db (requestEvent time ask.claim
        ask.runId ask.agentId ask.requestId ask.question) with happ | happ
      · rw [happ]
        exact h.of_sublist rfl (askIds_eraseIdx i) hself
      · rw [happ]
        have hset := @askIds_set s i ask { ask with logged := true } hask rfl
        exact h.of_sublist rfl (hset ▸ List.Sublist.refl _) hself
  | askBridged hask => exact h.bridgeRequest hask
  | @askDropped i => exact h.of_sublist rfl (askIds_eraseIdx i) hself
  | responded =>
      unfold Inputs.respond
      split
      · exact h.of_sublist rfl (List.Sublist.refl _) hself
      · exact h.of_sublist rfl (List.Sublist.refl _) hself
  | @replyBridged now messageId i reply hreply hread =>
      unfold Inputs.bridgeResponse
      cases hbridge : bridgeInputResponse messageId now reply.input.runId
          reply.input.agentId reply.input.response reply.requestId
          reply.authority s.db with
      | error e => exact h.of_sublist rfl (List.Sublist.refl _) hself
      | ok r =>
          obtain ⟨answer, db'⟩ := r
          have hrows : ∀ q' ∈ db'.requests, ∃ q ∈ s.db.requests,
              q.requestId = q'.requestId := fun q' hq' => by
            obtain ⟨q, hq, hcont⟩ := (bridgeInputResponse_ok hbridge).kept.2 q' hq'
            exact ⟨q, hq, hcont.id.symm⟩
          dsimp only
          split
          · exact h.of_sublist rfl (List.Sublist.refl _) hrows
          · exact h.of_sublist rfl (List.Sublist.refl _) hrows
  | replyCleared => exact h.of_sublist rfl (List.Sublist.refl _) hself
  | replyLogged =>
      refine h.of_sublist rfl (List.Sublist.refl _) fun q' hq' => ?_
      rw [Inputs.logResponse, append_requests] at hq'
      exact hself q' hq'
  | beaten =>
      unfold Inputs.beat
      split
      · split
        · refine h.of_sublist rfl (List.Sublist.refl _) fun q' hq' => ?_
          rw [append_requests] at hq'
          exact hself q' hq'
        · exact h
      · exact h
  | waited => exact h.of_sublist rfl (List.Sublist.refl _) hself
  | expired => exact h.of_sublist rfl (List.Sublist.refl _) hself

/-! ## Settled requests -/

/-- `x` is what request `q` of run `r` is answered with, while `r` is active. -/
structure Settled (s : Inputs) (r : RunId) (q x : String) : Prop where
  known : q = "" ∨ q ∈ s.issued
  rows : s.db.runActive r = true → ∀ row ∈ s.db.requests, row.requestId = q →
    row.runId = r → row.state = .answered ∧ row.response = some x
  asks : s.db.runActive r = true → ∀ ask ∈ s.asks, ask.requestId = q →
    ask.runId ≠ r

theorem Settled.evolves {r : RunId} {q x : String} (h : Settled s r q x)
    (hevolves : Evolves s t) (hids : Ids t) : Settled t r q x := by
  refine ⟨h.known.imp_right (hevolves.issued q), fun ha row hrow hid hrun => ?_,
    fun ha ask hask hid hrun => ?_⟩
  · have hactive := hevolves.active r ha
    rcases hevolves.rows row hrow with ⟨row₀, hrow₀, hcont⟩ | ⟨ask, hask, hid', hrun'⟩
    · obtain ⟨hanswered, hresponse⟩ := h.rows hactive row₀ hrow₀
        (hcont.id.symm.trans hid) (hcont.run.symm.trans hrun)
      obtain ⟨hstate, hsame⟩ := hcont.answered hanswered
      exact ⟨hstate, hsame.trans hresponse⟩
    · exact absurd (hrun'.trans hrun) (h.asks hactive ask hask (hid'.trans hid))
  · have hactive := hevolves.active r ha
    rcases hevolves.asks ask hask with hfresh | ⟨ask₀, hask₀, hid', hrun'⟩
    · rcases h.known with rfl | hknown
      · exact hids.nonempty (hid ▸ hids.asks _ (List.mem_map.mpr ⟨ask, hask, rfl⟩))
      · exact hfresh (hid ▸ hknown)
    · exact h.asks hactive ask₀ hask₀ (hid'.trans hid) (hrun'.trans hrun)

/-! ## The log and the replies -/

def InputDb.log (db : InputDb) : List OrcEvent := db.project.events.events

theorem append_log {e₀ e : OrcEvent} (h : e ∈ (db.append dates e₀).2.log) :
    e ∈ db.log ∨ ∃ n, e = { e₀ with seq := n } := by
  rcases append_cases dates db e₀ with happ | happ
  · rw [happ] at h
    exact .inl h
  · rw [happ] at h
    rcases List.mem_append.mp h with hold | hnew
    · exact .inl hold
    · exact .inr ⟨_, List.mem_singleton.mp hnew⟩

theorem Bridging.log {runId : RunId} {agentId : AgentId} {response : String}
    {requestId answer : Option String}
    (h : Bridging db runId agentId response requestId answer db') :
    db'.log = db.log :=
  congrArg (fun p : Project => p.events.events) h.project_eq

/-- An input event is in the log, or a call in flight writes it. -/
theorem Moved.log {l : InputLabel} (h : Moved dates s l t) {e : OrcEvent}
    (he : e ∈ t.db.log) (hinput : isInput e.event = true) :
    e ∈ s.db.log ∨
      (∃ ask ∈ s.asks, ∃ time n, e = { requestEvent time ask.claim ask.runId
        ask.agentId ask.requestId ask.question with seq := n }) ∨
      ∃ reply ∈ s.replies, reply.stage ≠ .read ∧ ∃ time messageId n,
        e = { responseEvent time reply.input reply.request messageId with
          seq := n } := by
  cases h with
  | asked => exact .inl he
  | @askLogged time i ask hask =>
      have hlog : e ∈ (s.db.append dates (requestEvent time ask.claim ask.runId
          ask.agentId ask.requestId ask.question)).2.log := by
        unfold Inputs.logRequest at he
        rcases append_cases dates s.db (requestEvent time ask.claim
          ask.runId ask.agentId ask.requestId ask.question) with happ | happ
        · rw [happ] at he ⊢
          exact he
        · rw [happ] at he ⊢
          exact he
      rcases append_log hlog with hold | ⟨n, hn⟩
      · exact .inl hold
      · exact .inr (.inl ⟨ask, List.mem_of_getElem? hask, time, n, hn⟩)
  | @askBridged now messageId i ask hask =>
      unfold Inputs.bridgeRequest at he
      cases hbridge : bridgeInputRequest messageId now ask.runId ask.agentId
          ask.requestId ask.question s.db with
      | error err =>
          rw [Txn.commit_of_error hbridge] at he
          exact .inl he
      | ok r =>
          obtain ⟨answer, db'⟩ := r
          rw [Txn.commit_of_ok hbridge] at he
          rw [InputDb.log, (bridgeInputRequest_ok hbridge).1] at he
          exact .inl he
  | askDropped => exact .inl he
  | responded =>
      unfold Inputs.respond at he
      split at he
      · exact .inl he
      · exact .inl he
  | @replyBridged now messageId i reply hreply hread =>
      unfold Inputs.bridgeResponse at he
      cases hbridge : bridgeInputResponse messageId now reply.input.runId
          reply.input.agentId reply.input.response reply.requestId
          reply.authority s.db with
      | error err =>
          rw [hbridge] at he
          exact .inl he
      | ok r =>
          obtain ⟨answer, db'⟩ := r
          simp only [hbridge] at he
          rw [← (bridgeInputResponse_ok hbridge).log]
          split at he
          · exact .inl he
          · exact .inl he
  | replyCleared =>
      exact .inl ((quiet_setRunInputState s.db.project).log e he hinput)
  | @replyLogged time i reply messageId hreply hstage =>
      rcases append_log he with hold | ⟨n, hn⟩
      · exact .inl hold
      · refine .inr (.inr ⟨reply, List.mem_of_getElem? hreply, ?_, time, messageId,
          n, hn⟩)
        rw [hstage]
        intro hread
        cases hread
  | beaten =>
      unfold Inputs.beat at he
      split at he
      · split at he
        · rcases append_log he with hold | ⟨n, rfl⟩
          · exact .inl hold
          · cases hinput
        · exact .inl he
      · exact .inl he
  | waited => exact .inl he
  | expired => exact .inl ((quiet_finishRun s.db.project).log e he hinput)

theorem latestRequest_mem {requests : List OrcEvent} {requestId : Option String}
    {e : OrcEvent} (h : latestRequest requests requestId = some e) :
    e ∈ requests := by
  unfold latestRequest at h
  split at h
  · exact List.mem_reverse.mp (List.mem_of_find?_eq_some h)
  · exact List.mem_of_getLast? h

theorem mem_inputRequests {db : EventsDb} {runId : RunId} {agentId : AgentId}
    {e : OrcEvent} (h : e ∈ inputRequests db runId agentId) :
    e ∈ db.events ∧ e.event = .inputRequested := by
  have hmem := List.mem_filter.mp (List.mem_of_mem_take h)
  simp only [Bool.and_eq_true, decide_eq_true_eq] at hmem
  exact ⟨hmem.1, hmem.2.1.1⟩

theorem Moved.reply {l : InputLabel} (h : Moved dates s l t) {reply' : Reply}
    (hmem : reply' ∈ t.replies) :
    (∃ reply ∈ s.replies, reply'.input = reply.input ∧
      reply'.request = reply.request ∧
      (reply.stage = .read → reply'.stage = .read)) ∨
    (reply'.stage = .read ∧ ∀ e, reply'.request = some e →
      e ∈ s.db.log ∧ e.event = .inputRequested) ∨
    ∃ now messageId i reply answer, l = .bridgeResponse now messageId i ∧
      s.replies[i]? = some reply ∧ reply'.input = reply.input ∧
      reply'.request = reply.request ∧
      Bridging s.db reply.input.runId reply.input.agentId reply.input.response
        reply.requestId answer t.db ∧
      checkAnswered reply.input.requestId reply.request answer = .ok () ∧
      t.asks = s.asks ∧ t.issued = s.issued := by
  have hsame : ∀ reply ∈ s.replies, ∃ reply₀ ∈ s.replies,
      reply.input = reply₀.input ∧ reply.request = reply₀.request ∧
      (reply₀.stage = .read → reply.stage = .read) :=
    fun reply hreply => ⟨reply, hreply, rfl, rfl, id⟩
  cases h with
  | asked => exact .inl (hsame reply' hmem)
  | askLogged =>
      unfold Inputs.logRequest at hmem
      split at hmem
      · exact .inl (hsame reply' hmem)
      · exact .inl (hsame reply' hmem)
  | askBridged => exact .inl (hsame reply' hmem)
  | askDropped => exact .inl (hsame reply' hmem)
  | @responded input authority =>
      unfold Inputs.respond at hmem
      split at hmem
      · exact .inl (hsame reply' hmem)
      · rcases List.mem_append.mp hmem with hold | hnew
        · exact .inl (hsame reply' hold)
        · obtain rfl := List.mem_singleton.mp hnew
          refine .inr (.inl ⟨rfl, fun e he => ?_⟩)
          exact mem_inputRequests (latestRequest_mem he)
  | @replyBridged now messageId i reply hreply hread =>
      unfold Inputs.bridgeResponse at hmem ⊢
      cases hbridge : bridgeInputResponse messageId now reply.input.runId
          reply.input.agentId reply.input.response reply.requestId
          reply.authority s.db with
      | error err =>
          simp only [hbridge] at hmem
          exact .inl (hsame reply' (List.mem_of_mem_eraseIdx hmem))
      | ok r =>
          obtain ⟨answer, db'⟩ := r
          simp only [hbridge] at hmem
          cases hcheck : checkAnswered reply.input.requestId reply.request
              answer with
          | error err =>
              simp only [hcheck] at hmem
              exact .inl (hsame reply' (List.mem_of_mem_eraseIdx hmem))
          | ok u =>
              simp only [hcheck] at hmem
              rcases List.mem_or_eq_of_mem_set hmem with hold | rfl
              · exact .inl (hsame reply' hold)
              · refine .inr (.inr ⟨now, messageId, i, reply, answer, rfl, hreply,
                  rfl, rfl, ?_⟩)
                simp only [hcheck, and_true]
                exact bridgeInputResponse_ok hbridge
  | @replyCleared now i reply messageId hreply hstage =>
      rcases List.mem_or_eq_of_mem_set hmem with hold | rfl
      · exact .inl (hsame reply' hold)
      · refine .inl ⟨reply, List.mem_of_getElem? hreply, rfl, rfl, fun hread => ?_⟩
        rw [hstage] at hread
        cases hread
  | replyLogged => exact .inl (hsame reply' (List.mem_of_mem_eraseIdx hmem))
  | beaten =>
      unfold Inputs.beat at hmem
      split at hmem
      · split at hmem
        · exact .inl (hsame reply' hmem)
        · exact .inl (hsame reply' hmem)
      · exact .inl (hsame reply' hmem)
  | waited => exact .inl (hsame reply' hmem)
  | expired => exact .inl (hsame reply' hmem)

/-! ## The invariant -/

/--
No reply without a request id binds to a request whose row is still to come,
while its run is active and has no row.
-/
def Ordered (s : Inputs) : InputLabel → Prop
  | .bridgeResponse _ _ i => ∀ reply, s.replies[i]? = some reply →
      reply.input.requestId = none →
      s.db.runActive reply.input.runId = true →
      (∀ q ∈ s.db.requests.rows, q.runId ≠ reply.input.runId) →
      ∀ ask ∈ s.asks, ask.runId = reply.input.runId →
        reply.requestId ≠ some ask.requestId
  | _ => True

/-- What the responses written so far, and those to be written, settle. -/
structure Answers (s : Inputs) : Prop where
  ids : Ids s
  asked : ∀ e ∈ s.db.log, e.event = .inputRequested → ∀ q,
    textField e "request_id" = some q → q ∈ s.issued
  found : ∀ reply ∈ s.replies, ∀ e, reply.request = some e → ∀ q,
    textField e "request_id" = some q → q ∈ s.issued
  bridged : ∀ reply ∈ s.replies, reply.stage ≠ .read → ∀ q,
    reply.requestId = some q →
      Settled s reply.input.runId q reply.input.response
  logged : ∀ e ∈ s.db.log, e.event = .inputResponse → ∃ r q x,
    e.runId = some r ∧ e.field "request_id" = some (nullable q) ∧
      textField e "response" = some x ∧
      ∀ q', q = some q' → Settled s r q' x

theorem answers_of_unasked (h : Unasked s) : Answers s := by
  have hno : ∀ q, q ∉ s.db.requests := fun q hq => by
    have hrow : q ∈ s.db.requests.rows := hq
    rw [h.requests] at hrow
    cases hrow
  have hids : s.askIds = [] := by rw [Inputs.askIds, h.asks, List.map_nil]
  refine ⟨⟨fun q hq => absurd hq (hno q), fun id hid => ?_, ?_, ?_,
    fun id hid q hq => absurd hq (hno q)⟩, fun e he hevent => ?_,
    fun reply hreply => ?_, fun reply hreply => ?_, fun e he hevent => ?_⟩
  · rw [hids] at hid
    cases hid
  · rw [h.issued]
    exact List.not_mem_nil
  · rw [hids]
    exact List.nodup_nil
  · exact absurd hevent (h.log e he).1
  · rw [h.replies] at hreply
    cases hreply
  · rw [h.replies] at hreply
    cases hreply
  · exact absurd hevent (h.log e he).2

theorem requestId_cases {reply : Reply} {q : String}
    (h : reply.requestId = some q) :
    reply.input.requestId = some q ∨ reply.input.requestId = none ∧
      ∃ e, reply.request = some e ∧ textField e "request_id" = some q := by
  unfold Reply.requestId latestRequestId at h
  cases hgiven : reply.input.requestId with
  | some q' =>
      rw [hgiven, Option.some_or] at h
      exact .inl h
  | none =>
      rw [hgiven, Option.none_or] at h
      exact .inr ⟨rfl, Option.bind_eq_some_iff.mp h⟩

theorem truthy_some {q : String} : truthy (some q) = true ↔ q ≠ "" := by
  simp [truthy]

theorem unnamed_of_checkAnswered {requestId : Option String}
    {request : Option OrcEvent}
    (h : checkAnswered requestId request none = .ok ()) :
    truthy requestId = false := by
  unfold checkAnswered at h
  split at h
  · cases h
  · rename_i hnot
    simpa [truthy] using hnot

theorem settled_of_bridging {reply : Reply} {answer : Option String} {q : String}
    (hs : Answers s) (hreply : reply ∈ s.replies)
    (hordered : reply.input.requestId = none →
      s.db.runActive reply.input.runId = true →
      (∀ q ∈ s.db.requests.rows, q.runId ≠ reply.input.runId) →
      ∀ ask ∈ s.asks, ask.runId = reply.input.runId →
        reply.requestId ≠ some ask.requestId)
    (hbridging : Bridging s.db reply.input.runId reply.input.agentId
      reply.input.response reply.requestId answer db')
    (hcheck : checkAnswered reply.input.requestId reply.request answer = .ok ())
    (hq : reply.requestId = some q) :
    Settled { s with db := db' } reply.input.runId q reply.input.response := by
  -- A request that is named is truthy, and then it is the row that was found.
  have hknown : truthy reply.input.requestId = false → q = "" ∨ q ∈ s.issued := by
    intro hfalse
    rcases requestId_cases hq with hgiven | ⟨-, e, he, hfield⟩
    · rw [hgiven] at hfalse
      exact .inl (by simpa [truthy] using hfalse)
    · exact .inr (hs.found reply hreply e he q hfield)
  have hblank : q = "" → (∀ row ∈ db'.requests, ∃ row₀ ∈ s.db.requests,
      Continues row₀ row) → ∀ row ∈ db'.requests, row.requestId ≠ q := by
    rintro rfl hrows row hrow hid
    obtain ⟨row₀, hrow₀, hcont⟩ := hrows row hrow
    exact hs.ids.nonempty (hid ▸ hcont.id ▸ hs.ids.rows row₀ hrow₀)
  have hnoask : q = "" → ∀ ask ∈ s.asks, ask.requestId ≠ q := by
    rintro rfl ask hask hid
    exact hs.ids.nonempty (hid ▸ hs.ids.asks _ (List.mem_map.mpr ⟨ask, hask, rfl⟩))
  have hrows := hbridging.kept.2
  cases hbridging with
  | ended inactive =>
      refine ⟨hknown (unnamed_of_checkAnswered hcheck), fun ha => ?_, fun ha => ?_⟩
      · exact absurd (ha.symm.trans inactive) (by simp)
      · exact absurd (ha.symm.trans inactive) (by simp)
  | unasked none =>
      have hfalse := unnamed_of_checkAnswered hcheck
      refine ⟨hknown hfalse, fun _ row hrow _ hrun => absurd hrun (none row hrow),
        fun ha ask hask hid hrun => ?_⟩
      rcases requestId_cases hq with hgiven | ⟨hnone, -⟩
      · rw [hgiven] at hfalse
        exact hnoask (by simpa [truthy] using hfalse) ask hask hid
      · exact hordered hnone ha none ask hask hrun (hid ▸ hq)
  | @repeated q₀ _ mem run named agent answered same =>
      by_cases hempty : q = ""
      · exact ⟨.inl hempty, fun _ row hrow hid =>
          absurd hid (hblank hempty hrows row hrow),
          fun _ ask hask hid => absurd hid (hnoask hempty ask hask)⟩
      have hid₀ : q = q₀.requestId := by
        have hsome := named (by rw [hq]; exact truthy_some.mpr hempty)
        exact Option.some.inj (hq.symm.trans hsome)
      refine ⟨.inr (hid₀ ▸ hs.ids.rows q₀ mem), fun _ row hrow hid _ => ?_,
        fun _ ask hask hid _ => ?_⟩
      · rw [Table.eq_of_key hrow mem (hid.trans hid₀)]
        exact ⟨answered, same⟩
      · exact hs.ids.waiting ask.requestId (List.mem_map.mpr ⟨ask, hask, rfl⟩) q₀
          mem (hid₀.symm.trans hid.symm)
  | @bound q₀ _ _ stamp mem run named agent pending project rows =>
      by_cases hempty : q = ""
      · exact ⟨.inl hempty, fun _ row hrow hid =>
          absurd hid (hblank hempty hrows row hrow),
          fun _ ask hask hid => absurd hid (hnoask hempty ask hask)⟩
      have hid₀ : q = q₀.requestId := by
        have hsome := named (by rw [hq]; exact truthy_some.mpr hempty)
        exact Option.some.inj (hq.symm.trans hsome)
      refine ⟨.inr (hid₀ ▸ hs.ids.rows q₀ mem), fun _ row hrow hid _ => ?_,
        fun _ ask hask hid _ => ?_⟩
      · have hrow' : row ∈ s.db.requests.answer q₀.requestId
            reply.input.response stamp := rows ▸ hrow
        obtain ⟨row₀, -, ⟨hne, rfl⟩ | ⟨-, rfl⟩⟩ := mem_answer hrow'
        · exact absurd (hid.trans hid₀) hne
        · exact ⟨rfl, rfl⟩
      · exact hs.ids.waiting ask.requestId (List.mem_map.mpr ⟨ask, hask, rfl⟩) q₀
          mem (hid₀.symm.trans hid.symm)

theorem Answers.step {l : InputLabel} (hs : Answers s)
    (hmoved : Moved dates s l t) (hordered : Ordered s l) : Answers t := by
  have hids := hs.ids.step hmoved
  have hevolves := hmoved.evolves
  refine ⟨hids, fun e he hevent q hfield => ?_, fun reply' hmem e he q hfield => ?_,
    fun reply' hmem hstage q hq => ?_, fun e he hevent => ?_⟩
  · rcases hmoved.log he (by simp [isInput, hevent]) with hold |
      ⟨ask, hask, time, n, rfl⟩ | ⟨reply, -, -, time, messageId, n, rfl⟩
    · exact hevolves.issued q (hs.asked e hold hevent q hfield)
    · obtain rfl : ask.requestId = q := Option.some.inj hfield
      exact hevolves.issued _
        (hs.ids.asks _ (List.mem_map.mpr ⟨ask, hask, rfl⟩))
    · cases hevent
  · rcases hmoved.reply hmem with ⟨reply, hreply, -, hrequest, -⟩ |
      ⟨-, hlog⟩ | ⟨-, -, i, reply, -, -, hreply, -, hrequest, -⟩
    · exact hevolves.issued q
        (hs.found reply hreply e (hrequest ▸ he) q hfield)
    · obtain ⟨hmem', hevent⟩ := hlog e he
      exact hevolves.issued q (hs.asked e hmem' hevent q hfield)
    · exact hevolves.issued q
        (hs.found reply (List.mem_of_getElem? hreply) e (hrequest ▸ he) q hfield)
  · rcases hmoved.reply hmem with ⟨reply, hreply, hinput, hrequest, hread⟩ |
      ⟨hread, -⟩ | ⟨now, messageId, i, reply, answer, rfl, hreply, hinput,
        hrequest, hbridging, hcheck, hasks, hissued⟩
    · have hstage₀ : reply.stage ≠ .read := fun h => hstage (hread h)
      have hq₀ : reply.requestId = some q := by
        rw [← hq, Reply.requestId, Reply.requestId, hinput, hrequest]
      rw [hinput]
      exact (hs.bridged reply hreply hstage₀ q hq₀).evolves hevolves hids
    · exact absurd hread hstage
    · have hq₀ : reply.requestId = some q := by
        rw [← hq, Reply.requestId, Reply.requestId, hinput, hrequest]
      have hsettled := settled_of_bridging hs (List.mem_of_getElem? hreply)
        (hordered reply hreply) hbridging hcheck hq₀
      rw [hinput]
      exact ⟨hissued.symm ▸ hsettled.known, hsettled.rows,
        fun ha ask hask => hsettled.asks ha ask (hasks ▸ hask)⟩
  · rcases hmoved.log he (by simp [isInput, hevent]) with hold |
      ⟨ask, -, time, n, rfl⟩ | ⟨reply, hreply, hstage, time, messageId, n, rfl⟩
    · obtain ⟨r, q, x, hrun, hfield, hresponse, hsettled⟩ :=
        hs.logged e hold hevent
      exact ⟨r, q, x, hrun, hfield, hresponse, fun q' hq' =>
        (hsettled q' hq').evolves hevolves hids⟩
    · cases hevent
    · exact ⟨reply.input.runId, reply.requestId, reply.input.response, rfl, rfl,
        rfl, fun q' hq' =>
          (hs.bridged reply hreply hstage q' hq').evolves hevolves hids⟩

theorem answers_of_reachable
    (h : (inputs dates).ReachableUnder Ordered s) : Answers s :=
  System.ReachableUnder.invariant (fun _ => answers_of_unasked)
    (fun _ _ _ _ hs hordered hstep => hs.step (moved_of_step hstep) hordered) h

/-! ## The laws -/

/-- The reply may answer the request that it names. -/
def Reply.Answerable (db : InputDb) (reply : Reply) (id : String) : Prop :=
  ∃ q ∈ db.requests, q.requestId = id ∧ q.runId = reply.input.runId ∧
    (∃ c, db.project.findClaim reply.input.runId = some c ∧
      c.agentId = reply.input.agentId) ∧
    (q.state = .answered → q.response = some reply.input.response)

theorem bridgeResponse_refused {now messageId : String} {i : Nat} {reply : Reply}
    {id : String} (hid : id ≠ "") (hnamed : reply.input.requestId = some id)
    (hnot : ¬ reply.Answerable s.db id) :
    s.bridgeResponse now messageId i reply =
      { s with replies := s.replies.eraseIdx i } := by
  have hrequest : reply.requestId = some id := by
    rw [Reply.requestId, latestRequestId, hnamed, Option.some_or]
  have htruthy : truthy reply.requestId = true := by
    rw [hrequest]
    exact truthy_some.mpr hid
  have hrefused : checkAnswered reply.input.requestId reply.request none =
      .error notPending := by
    rw [checkAnswered, hnamed, if_pos ⟨truthy_some.mpr hid, rfl⟩]
  unfold Inputs.bridgeResponse
  cases hbridge : bridgeInputResponse messageId now reply.input.runId
      reply.input.agentId reply.input.response reply.requestId reply.authority
      s.db with
  | error e => rfl
  | ok r =>
      obtain ⟨answer, db'⟩ := r
      cases bridgeInputResponse_ok hbridge with
      | ended => simp only [hrefused]
      | unasked => simp only [hrefused]
      | @repeated q _ mem run named agent answered same =>
          have hrow : some id = some q.requestId := hrequest ▸ named htruthy
          exact absurd ⟨q, mem, (Option.some.inj hrow).symm, run, agent,
            fun _ => same⟩ hnot
      | @bound q _ _ stamp mem run named agent pending =>
          have hrow : some id = some q.requestId := hrequest ▸ named htruthy
          refine absurd ⟨q, mem, (Option.some.inj hrow).symm, run, agent,
            fun hanswered => ?_⟩ hnot
          rw [pending] at hanswered
          cases hanswered

theorem continues_of_run {ls : List InputLabel} {q : InputRequest}
    (hq : q ∈ s.db.requests) (h : (inputs dates).run s ls = some t) :
    ∃ q' ∈ t.db.requests, Continues q q' :=
  System.run_preserves (I := fun _ => True)
    (P := fun t : Inputs => ∃ q' ∈ t.db.requests, Continues q q')
    (fun _ _ _ _ _ => trivial)
    (fun m _ t _ hm hstep => by
      obtain ⟨q₁, hq₁, hcont⟩ := hm
      obtain ⟨q₂, hq₂, hcont'⟩ := (moved_of_step hstep).evolves.kept q₁ hq₁
      exact ⟨q₂, hq₂, hcont.trans hcont'⟩)
    trivial ⟨q, hq, .refl q⟩ h

theorem durableResponse_eq_some {requests : InputRequests} {request : PollInput}
    {x : String} (h : durableResponse requests request = some x) :
    ∃ q ∈ requests, q.requestId = request.requestId ∧
      q.runId = request.runId ∧ q.state = .answered ∧ q.response = some x := by
  obtain ⟨q, hfind, hresponse⟩ := Option.bind_eq_some_iff.mp h
  obtain ⟨hfind, hrow⟩ := Option.filter_eq_some_iff.mp hfind
  simp only [Bool.and_eq_true, decide_eq_true_eq] at hrow
  exact ⟨q, Table.mem_of_find? hfind, Table.key_of_find? hfind, hrow.1, hrow.2,
    hresponse⟩

theorem eventResponse_eq_some {events : List OrcEvent} {request : PollInput}
    {x : String} (h : eventResponse events request = some x) :
    ∃ e ∈ events, answers request e = true ∧ textField e "response" = some x := by
  obtain ⟨e, he, hx⟩ := List.exists_of_findSome?_eq_some h
  have hmem := List.mem_filter.mp (List.mem_reverse.mp he)
  exact ⟨e, (List.mem_filter.mp hmem.1).1, hmem.2, hx⟩

theorem Answers.response {request : PollInput} {x : String} {q : InputRequest}
    (hs : Answers s) (hq : q ∈ s.db.requests)
    (hid : q.requestId = request.requestId) (hrun : q.runId = request.runId)
    (hactive : s.db.runActive request.runId = true)
    (h : eventResponse s.db.log request = some x) :
    q.state = .answered ∧ q.response = some x := by
  obtain ⟨e, he, hanswers, hx⟩ := eventResponse_eq_some h
  simp only [OrcState.Messaging.answers, Bool.and_eq_true, Bool.or_eq_true,
    decide_eq_true_eq] at hanswers
  obtain ⟨⟨⟨hevent, hrun'⟩, -⟩, hfield⟩ := hanswers
  obtain ⟨r, q', x', hr, hrequest, hresponse, hsettled⟩ := hs.logged e he hevent
  obtain rfl : r = request.runId := Option.some.inj (hr.symm.trans hrun')
  obtain rfl : x' = x := Option.some.inj (hresponse.symm.trans hx)
  rcases hfield with hnamed | ⟨hnone, -⟩
  · cases q' with
    | none => cases hrequest.symm.trans hnamed
    | some q' =>
        obtain rfl : q' = request.requestId := by
          have heq := hrequest.symm.trans hnamed
          simpa [nullable] using heq
        exact (hsettled _ rfl).rows hactive q hq hid hrun
  · cases hrequest.symm.trans hnone

structure InputLaws (dates : DateApi) (s : Inputs) : Prop where
  once : ∀ ls t, (inputs dates).run s ls = some t → ∀ q ∈ s.db.requests,
    ∃ q' ∈ t.db.requests, Continues q q'
  refused : ∀ now messageId i reply t id, s.replies[i]? = some reply →
    reply.input.requestId = some id → id ≠ "" → ¬ reply.Answerable s.db id →
    inputStep dates s (.bridgeResponse now messageId i) = some t →
    t.db = s.db ∧ t.replies = s.replies.eraseIdx i
  reaches : (inputs dates).ReachableUnder Ordered s → ∀ ls t,
    (inputs dates).Along Ordered s ls → (inputs dates).run s ls = some t →
    ∀ request, ∀ q ∈ t.db.requests, q.requestId = request.requestId →
      q.runId = request.runId → t.db.runActive request.runId = true → ∀ x,
      latestInputResponse s.db t.db request = some x →
      q.state = .answered ∧ q.response = some x

theorem input_answered_once (dates : DateApi) (s : Inputs) :
    InputLaws dates s := by
  refine ⟨fun ls t hrun q hq => continues_of_run hq hrun, ?_, ?_⟩
  · intro now messageId i reply t id hreply hnamed hid hnot hstep
    obtain ⟨reply', hreply', rfl⟩ := Option.map_eq_some_iff.mp hstep
    obtain rfl : reply = reply' :=
      Option.some.inj (hreply.symm.trans (Option.filter_eq_some_iff.mp hreply').1)
    rw [bridgeResponse_refused hid hnamed hnot]
    exact ⟨rfl, rfl⟩
  · intro hreach ls t halong hrun request q hq hid hqrun hactive x hx
    have hanswers := answers_of_reachable (hreach.run halong hrun)
    cases hdurable : durableResponse s.db.requests request with
    | none =>
        rw [latestInputResponse, hdurable, Option.none_or] at hx
        exact hanswers.response hq hid hqrun hactive hx
    | some y =>
        rw [latestInputResponse, hdurable, Option.some_or] at hx
        obtain rfl := Option.some.inj hx
        obtain ⟨q₀, hq₀, hid₀, -, hanswered, hresponse⟩ :=
          durableResponse_eq_some hdurable
        obtain ⟨q', hq', hcont⟩ := continues_of_run hq₀ hrun
        obtain rfl : q' = q :=
          Table.eq_of_key hq' hq (hcont.id.trans (hid₀.trans hid.symm))
        obtain ⟨hstate, hsame⟩ := hcont.answered hanswered
        exact ⟨hstate, hsame.trans hresponse⟩

/-! One worker asks; the master answers, before the row is there and after. -/

def portRun : Claim where
  runId := "run-port"
  taskRef := "app/port"
  agentId := "worker-1"
  state := .inProgress
  claimedAt := ""
  leaseExpiresAt := ""

def portRuns : Inputs where
  db := { project := { events := { runs := ⟨[portRun], by decide⟩ } } }

def portReply : RespondInput where
  runId := "run-port"
  agentId := "worker-1"
  response := "8080"
  actorId := "master"

def portPoll : PollInput where
  runId := "run-port"
  agentId := "worker-1"
  requestId := "req-1"
  requestSeq := 1

def answeredInTurn : List InputLabel :=
  [.ask "run-port" "worker-1" "Which port?" "req-1",
   .logRequest (DateApi.epoch.toISOString 1) 0, .bridgeRequest "2" "msg-1" 0,
   .respond portReply { trustedMaster := true }, .bridgeResponse "3" "msg-2" 0,
   .clearState "4" 0, .logResponse (DateApi.epoch.toISOString 5) 0]

def answeredEarly : List InputLabel :=
  [.ask "run-port" "worker-1" "Which port?" "req-1",
   .logRequest (DateApi.epoch.toISOString 1) 0,
   .respond portReply { trustedMaster := true }, .bridgeResponse "2" "msg-1" 0,
   .clearState "3" 0, .logResponse (DateApi.epoch.toISOString 4) 0,
   .bridgeRequest "5" "msg-2" 0]

theorem portRuns_unasked : (inputs DateApi.epoch).initial portRuns :=
  ⟨rfl, fun _ he => absurd he List.not_mem_nil, rfl, rfl, rfl, rfl⟩

/-- The poll of a request that was answered in turn reads its response. -/
theorem input_answered_once_in_turn :
    ∃ t, (inputs DateApi.epoch).run portRuns answeredInTurn = some t ∧
      (t.db.requests.rows.map InputRequest.response,
        latestInputResponse t.db t.db portPoll) =
          ([some "8080"], some "8080") ∧
      InputLaws DateApi.epoch t := by
  obtain ⟨t, hrun, hlast⟩ := (inputs DateApi.epoch).exists_run_of_map
    (f := fun t => (t.db.requests.rows.map InputRequest.response,
      latestInputResponse t.db t.db portPoll))
    (by decide +kernel : ((inputs DateApi.epoch).run portRuns
      answeredInTurn).map _ = some ([some "8080"], some "8080"))
  exact ⟨t, hrun, hlast, input_answered_once _ t⟩

def pollAndRows (db : InputDb) : Option String × List InputRequest :=
  (latestInputResponse db db portPoll, db.requests.rows)

def pendingRequest : InputRequest where
  requestId := "req-1"
  runId := "run-port"
  messageId := some "msg-2"
  idempotencyKey := "input:req-1"
  question := "Which port?"
  createdAt := "5"

/-- The poll reads a response that the request was never answered with. -/
theorem not_poll_reads_stored :
    ∃ t, (inputs DateApi.epoch).Reachable t ∧
      t.db.runActive "run-port" = true ∧ pendingRequest ∈ t.db.requests ∧
      latestInputResponse t.db t.db portPoll = some "8080" ∧
      pendingRequest.response ≠ some "8080" := by
  obtain ⟨t, hrun, hlast⟩ := (inputs DateApi.epoch).exists_run_of_map
    (f := fun t => (t.db.runActive "run-port", pollAndRows t.db))
    (by decide +kernel : ((inputs DateApi.epoch).run portRuns
      answeredEarly).map _ = some (true, some "8080", [pendingRequest]))
  simp only [pollAndRows, Prod.mk.injEq] at hlast
  obtain ⟨hactive, hpoll, hrows⟩ := hlast
  refine ⟨t, System.Reachable.run (System.Reachable.initial portRuns_unasked) hrun,
    hactive, ?_, hpoll, by simp [pendingRequest]⟩
  rw [Table.mem_rows, hrows]
  exact List.mem_singleton_self _

end OrcState.Messaging
