import OrcState.Messaging.Messages
import Mathlib.Data.List.Basic

/-!
# The laws of the mailbox

Keys name messages, a repeated send names the message it repeats, a message is
read and consumed by its recipient's running session only, and what a worker
sends stays within its run.  One inversion lemma for each operation says all
that it can do; the laws are read off those.
-/

namespace OrcState.Messaging

open OrcState.Contract OrcState.Foundation OrcState.Store OrcState.Command

variable {dates : DateApi} {db db' : MessageDb} {s t : Mailbox}
  {principal : CommandPrincipal} {input : SendMessageInput}
  {request : MessageRequest} {sender recipient : Session}

/-! ## What the operations do -/

def Running (db : MessageDb) (id : String) (actor : Session) : Prop :=
  db.store.sessions.find? id = some actor ∧ actor.state = .running

theorem session_ok {id : String} {actor : Session} :
    session id db = .ok (actor, db') ↔ Running db id actor ∧ db' = db := by
  simp only [session, Txn.bind_ok, Txn.get_ok, Txn.orThrow_ok,
    Option.filter_eq_some_iff, decide_eq_true_eq]
  constructor
  · rintro ⟨_, _, ⟨rfl, rfl⟩, hactor, rfl⟩
    exact ⟨hactor, rfl⟩
  · rintro ⟨hactor, rfl⟩
    exact ⟨db', db', ⟨rfl, rfl⟩, hactor, rfl⟩

theorem read_ok {id : String} {m : Message} :
    read id db = .ok (m, db') ↔ db.messages.find? id = some m ∧ db' = db := by
  simp only [read, Txn.bind_ok, Txn.get_ok, Txn.orThrow_ok]
  constructor
  · rintro ⟨_, _, ⟨rfl, rfl⟩, hm, rfl⟩
    exact ⟨hm, rfl⟩
  · rintro ⟨hm, rfl⟩
    exact ⟨db', db', ⟨rfl, rfl⟩, hm, rfl⟩

/-- A reply names a message that the sender got from this recipient. -/
def Replies (db : MessageDb) (input : SendMessageInput)
    (request : MessageRequest) (sender recipient : Session) : Prop :=
  ∀ id, request.parentMessageId = some id →
    ∃ parent, db.messages.find? id = some parent ∧
      (request.kind = .result → parent.kind = .reviewRequest) ∧
      parent.senderId = some recipient.agentId ∧
      parent.recipientId = some sender.agentId ∧
      parent.runId = recipient.runId.getD input.runId ∧
      parent.recipientRunId = sender.runId

theorem checkParent_ok {u : Unit}
    (h : checkParent input request sender recipient db = .ok (u, db')) :
    db' = db ∧ Replies db input request sender recipient := by
  unfold checkParent at h
  unfold Replies
  cases hparent : request.parentMessageId with
  | none =>
      simp only [hparent] at h
      obtain ⟨-, rfl⟩ := Txn.pure_ok.mp h
      exact ⟨rfl, fun id hid => by cases hid⟩
  | some id =>
      simp only [hparent, Txn.bind_ok, Txn.throwIf_ok, read_ok] at h
      obtain ⟨parent, _, ⟨hread, rfl⟩, _, _, ⟨hkind, rfl⟩, hscope, rfl⟩ := h
      refine ⟨rfl, fun id' hid => ⟨parent, ?_, ?_⟩⟩
      · cases hid
        exact hread
      · simp only [not_or, not_not, not_and] at hscope hkind
        exact ⟨hkind, hscope⟩

structure Routed (db : MessageDb) (principal : CommandPrincipal)
    (input : SendMessageInput) (request : MessageRequest)
    (sender recipient : Session) : Prop where
  senderRuns : Running db principal.sessionId sender
  recipientRuns : Running db input.recipientSessionId recipient
  actor : sender.agentId = principal.agentId
  scope : sender.agentId ≠ "master" → sender.runId = some input.runId ∧
    owns db.store input.runId sender.agentId = true
  replies : Replies db input request sender recipient

theorem ownedRun_ok {runId : RunId} {agentId : AgentId} {u : Unit} :
    ownedRun runId agentId db = .ok (u, db') ↔
      owns db.store runId agentId = true ∧ db' = db := by
  simp only [ownedRun, Txn.bind_ok, Txn.get_ok, Txn.throwIf_ok,
    Bool.not_eq_false]
  constructor
  · rintro ⟨_, _, ⟨rfl, rfl⟩, howned, rfl⟩
    exact ⟨howned, rfl⟩
  · rintro ⟨howned, rfl⟩
    exact ⟨db', db', ⟨rfl, rfl⟩, howned, rfl⟩

theorem checkRecipient_ok {u : Unit}
    (h : checkRecipient recipient db = .ok (u, db')) : db' = db := by
  unfold checkRecipient at h
  split at h
  · exact (ownedRun_ok.mp h).2
  · exact (Txn.throwIf_ok.mp h).2.symm

theorem checkSender_ok {u : Unit}
    (h : checkSender input sender recipient db = .ok (u, db')) :
    db' = db ∧ (sender.agentId ≠ "master" →
      owns db.store input.runId sender.agentId = true) := by
  unfold checkSender at h
  split at h
  · obtain ⟨howned, rfl⟩ := ownedRun_ok.mp h
    exact ⟨rfl, fun _ => howned⟩
  · rename_i hmaster
    obtain ⟨-, rfl⟩ := Txn.throwIf_ok.mp h
    exact ⟨rfl, fun hne => absurd hne hmaster⟩

theorem route_ok
    (h : route principal input request db = .ok ((sender, recipient), db')) :
    db' = db ∧ Routed db principal input request sender recipient := by
  simp only [route, Txn.bind_ok, session_ok, Txn.throwIf_ok, Txn.pure_ok] at h
  obtain ⟨sender', _, ⟨hsender, rfl⟩, _, _, ⟨hscope, rfl⟩, recipient', _,
    ⟨hrecipient, rfl⟩, _, _, hcheck, _, _, howned, _, _, ⟨-, rfl⟩, _, _,
    ⟨-, rfl⟩, _, _, hparent, hpair, rfl⟩ := h
  obtain ⟨rfl, rfl⟩ := Prod.mk.inj hpair
  cases checkRecipient_ok hcheck
  obtain ⟨rfl, howned⟩ := checkSender_ok howned
  obtain ⟨rfl, hreplies⟩ := checkParent_ok hparent
  simp only [not_or, not_not, not_and] at hscope
  exact ⟨rfl, hsender, hrecipient, hscope.1,
    fun hne => ⟨hscope.2 hne, howned hne⟩, hreplies⟩

/-- What the mailbox transaction of a send has done when it returns `m`. -/
inductive Stored (dates : DateApi) (now : Int) (messageId : String)
    (db : MessageDb) (input : SendMessageInput) (request : MessageRequest)
    (sender recipient : Session) (m : Message) (db' : MessageDb) : Prop
  | kept (key : db.messages.byKey input.idempotencyKey = some m)
      (same : m.matches input request sender recipient = true)
      (stays : db' = db)
  | retargeted (e : Message)
      (key : db.messages.byKey input.idempotencyKey = some e)
      (same : e.matches input request sender recipient = true)
      (queued : e.state = .queued)
      (row : m = e.retarget recipient.sessionId)
      (rows : db' = { db with
        messages := db.messages.retarget e.messageId recipient.sessionId })
  | posted (messages : Messages)
      (key : db.messages.byKey input.idempotencyKey = none)
      (row : m = newMessage messageId (dates.toISOString now) input request
        sender recipient)
      (inserted : db.messages.insert? m = some messages)
      (rows : db' = { db with messages := messages })

theorem byKey_mem {messages : Messages} {key : String} {m : Message}
    (h : messages.byKey key = some m) :
    m ∈ messages ∧ m.idempotencyKey = key := by
  refine ⟨List.mem_of_find?_eq_some h, ?_⟩
  have hkey := List.find?_some h
  simpa using hkey

theorem insertMessage_ok {messages messages' : Messages} {m : Message}
    (h : messages.insert? m = some messages') :
    (∀ m₀ ∈ messages, m₀.idempotencyKey ≠ m.idempotencyKey) ∧
      Table.insert? messages m = some messages' := by
  unfold Messages.insert? at h
  split at h
  · cases h
  · rename_i hfree
    simp only [Bool.not_eq_true, List.any_eq_false,
      decide_eq_true_eq] at hfree
    exact ⟨hfree, h⟩

variable {now : Int} {messageId : String} {m : Message}

theorem find?_retarget {messages : Messages} {id : String} {e : Message}
    (h : messages.find? id = some e) (sessionId : String) :
    (messages.retarget id sessionId).find? id = some (e.retarget sessionId) :=
  Table.find?_update_self h

theorem find?_attach {messages : Messages} {id : String} {e : Message}
    (h : messages.find? id = some e) (commandId : String) :
    (messages.attach id commandId).find? id = some (e.attach commandId) :=
  Table.find?_update_self h

theorem storeMessage_ok
    (h : storeMessage dates now messageId principal input db =
      .ok (m, db')) :
    ∃ request sender recipient, checkInput input = .ok request ∧
      route principal input request db = .ok ((sender, recipient), db) ∧
      Stored dates now messageId db input request sender recipient m db' := by
  simp only [storeMessage, Txn.bind_ok, Txn.liftM_ok, Txn.get_ok] at h
  obtain ⟨request, _, ⟨hcheck, rfl⟩, ⟨sender, recipient⟩, mid, hroute, _, _,
    ⟨rfl, rfl⟩, h⟩ := h
  obtain ⟨rfl, -⟩ := route_ok hroute
  refine ⟨request, sender, recipient, hcheck, hroute, ?_⟩
  cases hkey : mid.messages.byKey input.idempotencyKey with
  | none =>
      simp only [hkey, Txn.bind_ok, Txn.orThrow_ok, Txn.set_ok, read_ok] at h
      obtain ⟨messages, _, ⟨hinsert, rfl⟩, _, _, rfl, hread, rfl⟩ := h
      obtain ⟨-, hrows⟩ := Table.insert?_eq_some (insertMessage_ok hinsert).2
      have hfound : messages.find? messageId = some (newMessage messageId
          (dates.toISOString now) input request sender recipient) := by
        refine Table.find?_eq_some.mpr ⟨?_, rfl⟩
        rw [Table.mem_rows, hrows]
        simp
      have hm := hread.symm.trans hfound
      cases hm
      exact .posted messages hkey rfl hinsert rfl
  | some e =>
      simp only [hkey, Txn.bind_ok, Txn.throwIf_ok, Bool.not_eq_false] at h
      obtain ⟨_, _, ⟨hsame, rfl⟩, h⟩ := h
      by_cases hmoved : e.recipientSessionId ≠ some recipient.sessionId ∧
          e.state = .queued
      · rw [if_pos hmoved] at h
        simp only [Txn.bind_ok, Txn.set_ok, read_ok] at h
        obtain ⟨_, _, rfl, hread, rfl⟩ := h
        have hfound := Table.find?_of_mem (byKey_mem hkey).1
        have hmoved' := find?_retarget hfound recipient.sessionId
        cases hread.symm.trans hmoved'
        exact .retargeted e hkey hsame hmoved.2 rfl rfl
      · rw [if_neg hmoved] at h
        obtain ⟨rfl, rfl⟩ := Txn.pure_ok.mp h
        exact .kept hkey hsame rfl

/-- The request is malformed, or not in the scope of its sender. -/
def Unrouted (db : MessageDb) (principal : CommandPrincipal)
    (input : SendMessageInput) (e : DomainError) : Prop :=
  checkInput input = .error e ∨
    ∃ request, checkInput input = .ok request ∧
      route principal input request db = .error e

/-- Once routed, a send of a stored message is refused only as a conflict. -/
theorem storeMessage_refused {e : DomainError} {stored : Message}
    (hkey : db.messages.byKey input.idempotencyKey = some stored)
    (h : storeMessage dates now messageId principal input db = .error e) :
    Unrouted db principal input e ∨
      ∃ request sender recipient, checkInput input = .ok request ∧
        route principal input request db = .ok ((sender, recipient), db) ∧
        stored.matches input request sender recipient = false := by
  simp only [storeMessage, Txn.bind_error, Txn.liftM_error, Txn.liftM_ok] at h
  rcases h with hcheck | ⟨request, _, ⟨hcheck, rfl⟩, hrouted⟩
  · exact .inl (.inl hcheck)
  rcases hrouted with hroute | ⟨⟨sender, recipient⟩, mid, hroute, hrest⟩
  · exact .inl (.inr ⟨request, hcheck, hroute⟩)
  obtain ⟨rfl, -⟩ := route_ok hroute
  refine .inr ⟨request, sender, recipient, hcheck, hroute, ?_⟩
  cases hsame : stored.matches input request sender recipient with
  | false => rfl
  | true =>
      rcases hrest with hget | ⟨_, _, hget, hrest⟩
      · cases hget
      obtain ⟨rfl, rfl⟩ := Txn.get_ok.mp hget
      simp only [hkey, hsame, Txn.bind_error] at hrest
      rcases hrest with hthrow | ⟨_, _, hthrow, hrest⟩
      · cases hthrow
      obtain ⟨-, rfl⟩ := Txn.throwIf_ok.mp hthrow
      by_cases hmoved : stored.recipientSessionId ≠ some recipient.sessionId ∧
          stored.state = .queued
      · rw [if_pos hmoved] at hrest
        have hfound := Table.find?_of_mem (byKey_mem hkey).1
        obtain ⟨r, hr⟩ : ∃ r, read stored.messageId { mid with
            messages := mid.messages.retarget stored.messageId
              recipient.sessionId } = .ok r :=
          ⟨_, read_ok.mpr ⟨find?_retarget hfound recipient.sessionId, rfl⟩⟩
        rcases Txn.bind_error.mp hrest with hset | ⟨_, _, hset, hread⟩
        · cases hset
        · cases Txn.set_ok.mp hset
          rw [hr] at hread
          cases hread
      · rw [if_neg hmoved] at hrest
        cases hrest

theorem Stored.found
    (h : Stored dates now messageId db input request sender recipient m db') :
    db'.messages.find? m.messageId = some m := by
  cases h with
  | kept key same stays =>
      subst stays
      exact Table.find?_of_mem (byKey_mem key).1
  | retargeted e key same queued row rows =>
      subst row rows
      exact find?_retarget (Table.find?_of_mem (byKey_mem key).1) _
  | posted messages key row inserted rows =>
      subst rows
      obtain ⟨-, hinsert⟩ := insertMessage_ok inserted
      exact Table.find?_of_mem ((Table.mem_insert? hinsert).mpr (.inr rfl))

def Announces (dispatched : Bool) (m : Message) : Prop :=
  truthy m.recipientRunId = true ∧ dispatched = true ∧
    truthy m.commandId = false

variable {commandId : String} {dispatched : Bool}
  {r : Except DomainError Message}

inductive Announced (dates : DateApi) (now : Int) (commandId : String)
    (dispatched : Bool) (m : Message) (db : MessageDb) :
    Except DomainError Message → MessageDb → Prop
  | quiet (none : ¬ Announces dispatched m) :
      Announced dates now commandId dispatched m db (.ok m) db
  | refused (told : Announces dispatched m) (e : DomainError)
      (thrown : enqueueCommand dates now commandId .coordinator
        (announcement m) db.store = .error e) :
      Announced dates now commandId dispatched m db (.error e) db
  | told (told : Announces dispatched m) (c : DurableCommand)
      (store : EventsDb)
      (enqueued : enqueueCommand dates now commandId .coordinator
        (announcement m) db.store = .ok (c, store)) :
      Announced dates now commandId dispatched m db
        (.ok (m.attach c.commandId))
        { store := store
          messages := db.messages.attach m.messageId c.commandId }

section Announced

variable (h : Announced dates now commandId dispatched m db r db')

include h

theorem Announced.answer {m' : Message} (hr : r = .ok m') :
    m'.messageId = m.messageId := by
  cases h with
  | quiet none =>
      cases hr
      rfl
  | refused told e thrown => cases hr
  | told told c store enqueued =>
      cases hr
      rfl

theorem Announced.error {e : DomainError} (hr : r = .error e) :
    enqueueCommand dates now commandId .coordinator (announcement m) db.store =
      .error e := by
  cases h with
  | quiet none => cases hr
  | refused told e' thrown =>
      cases hr
      exact thrown
  | told told c store enqueued => cases hr

theorem Announced.rows : db'.messages = db.messages ∨
    Announces dispatched m ∧
      ∃ c, db'.messages = db.messages.attach m.messageId c := by
  cases h with
  | quiet none => exact .inl rfl
  | refused told e thrown => exact .inl rfl
  | told told c store enqueued => exact .inr ⟨told, c.commandId, rfl⟩

end Announced

theorem sendMessage_cases
    (h : sendMessage dates now messageId commandId dispatched principal input
      db = (r, db')) :
    (∃ e, storeMessage dates now messageId principal input db = .error e ∧
        r = .error e ∧ db' = db) ∨
      ∃ m mid, storeMessage dates now messageId principal input db =
          .ok (m, mid) ∧ Announced dates now commandId dispatched m mid r db' := by
  rcases Effect.bind_cases h with ⟨e, hstore, rfl⟩ | ⟨m, mid, hstore, hrest⟩
  · unfold Effect.atomically at hstore
    split at hstore <;> cases hstore
    exact .inl ⟨e, by assumption, rfl, rfl⟩
  have hstored : storeMessage dates now messageId principal input db =
      .ok (m, mid) := by
    unfold Effect.atomically at hstore
    split at hstore <;> cases hstore
    assumption
  refine .inr ⟨m, mid, hstored, ?_⟩
  obtain ⟨request, sender, recipient, -, -, hcase⟩ := storeMessage_ok hstored
  by_cases htold : Announces dispatched m
  · have hcond : (truthy m.recipientRunId && dispatched &&
        !truthy m.commandId) = true := by
      simp [htold.1, htold.2.1, htold.2.2]
    rw [if_pos hcond] at hrest
    rcases Effect.bind_cases hrest with ⟨e, henq, rfl⟩ | ⟨c, mid', henq, hlast⟩
    · unfold Effect.atomically at henq
      split at henq <;> cases henq
      exact .refused htold e (by assumption)
    · unfold Effect.atomically at henq
      split at henq <;> cases henq
      rename_i store henq
      have hfound := find?_attach hcase.found c.commandId
      have hattach : attachCommand m.messageId c.commandId
          { mid with store := store } = .ok (m.attach c.commandId,
            { store := store
              messages := mid.messages.attach m.messageId c.commandId }) := by
        simp only [attachCommand, Txn.bind_ok, Txn.modify_ok, read_ok]
        exact ⟨(), _, rfl, hfound, rfl⟩
      unfold Effect.atomically at hlast
      rw [id, hattach] at hlast
      cases hlast
      exact .told htold c store henq
  · have hcond : ¬ (truthy m.recipientRunId && dispatched &&
        !truthy m.commandId) = true := by
      simpa [Announces, and_assoc] using htold
    rw [if_neg hcond] at hrest
    cases hrest
    exact .quiet htold

/-! ## Keys and ids -/

theorem Posted.key_eq (h : Posted s) {m m' : Message} (hm : m ∈ s.db.messages)
    (hm' : m' ∈ s.db.messages) (hkey : m.idempotencyKey = m'.idempotencyKey) :
    m = m' :=
  List.inj_on_of_nodup_map h.keys hm hm' hkey

theorem Posted.byKey (h : Posted s) {m : Message} (hm : m ∈ s.db.messages) :
    s.db.messages.byKey m.idempotencyKey = some m := by
  cases hfind : s.db.messages.byKey m.idempotencyKey with
  | none =>
      have hnone := List.find?_eq_none.mp hfind m hm
      simp at hnone
  | some m' =>
      obtain ⟨hm', hkey⟩ := byKey_mem hfind
      rw [h.key_eq hm' hm hkey]

/-! ## What one call does to the mailbox -/

def Message.redirect (sessionId commandId : Option String) (m : Message) :
    Message :=
  { m with recipientSessionId := sessionId, commandId := commandId }

def Messages.redirect (messages : Messages) (id : String)
    (sessionId commandId : Option String) : Messages :=
  messages.update id (Message.redirect sessionId commandId) fun _ => rfl

theorem redirect_self {messages : Messages} (hm : m ∈ messages) :
    messages.redirect m.messageId m.recipientSessionId m.commandId = messages :=
  Table.update_of_eq hm rfl

theorem attach_eq_redirect {messages : Messages} (hm : m ∈ messages)
    (commandId : String) :
    messages.attach m.messageId commandId =
      messages.redirect m.messageId m.recipientSessionId
        (m.commandId.or (some commandId)) :=
  Table.update_congr hm rfl

theorem redirect_redirect (messages : Messages) (id : String)
    (sessionId commandId sessionId' commandId' : Option String) :
    (messages.redirect id sessionId commandId).redirect id sessionId'
        commandId' =
      messages.redirect id sessionId' commandId' :=
  Table.update_update _ _ _ _

structure Sent (db : MessageDb) (l : MailLabel) (m : Message) : Prop where
  call : ∃ now messageId commandId dispatched principal input sender,
    l = .send now messageId commandId dispatched principal input ∧
      Running db principal.sessionId sender ∧
      sender.agentId = principal.agentId ∧
      m.senderId = some sender.agentId ∧
      (sender.agentId ≠ "master" → sender.runId = some m.runId ∧
        owns db.store m.runId sender.agentId = true)
  reply : ∀ id, m.parentMessageId = some id →
    ∃ parent, db.messages.find? id = some parent ∧
      parent.senderId = m.recipientId ∧ parent.recipientId = m.senderId

def Consumes (db : MessageDb) (l : MailLabel) (m : Message) : Prop :=
  ∃ now principal actor, l = .consume now principal m.messageId ∧
    Running db principal.sessionId actor ∧ actor.agentId = principal.agentId ∧
    m.recipientId = some actor.agentId ∧ m.recipientRunId = actor.runId

inductive MailChange (s : Mailbox) (l : MailLabel) (t : Mailbox) : Prop
  | same (rows : t.db.messages = s.db.messages) (issued : s.issued ⊆ t.issued)
  | redirected (id : String) (sessionId commandId : Option String)
      (rows : t.db.messages = s.db.messages.redirect id sessionId commandId)
      (issued : s.issued ⊆ t.issued)
  | posted (m : Message)
      (rows : t.db.messages.rows = s.db.messages.rows ++ [m])
      (key : ∀ m₀ ∈ s.db.messages, m₀.idempotencyKey ≠ m.idempotencyKey)
      (queued : m.state = .queued) (fresh : m.messageId ∉ s.issued)
      (issued : t.issued = s.issued ++ [m.messageId]) (sent : Sent s.db l m)
  | consumed (m : Message) (stamp : String) (mem : m ∈ s.db.messages)
      (consumes : Consumes s.db l m)
      (rows : t.db.messages = s.db.messages.consume m.messageId stamp)
      (issued : t.issued = s.issued)
  | restricted (store : EventsDb)
      (rows : t.db.messages = s.db.messages.restrict store)
      (issued : t.issued = s.issued)

theorem attach_appended {messages messages' : Messages}
    (hrows : messages'.rows = messages.rows ++ [m])
    (hfresh : ∀ m₀ ∈ messages, m₀.messageId ≠ m.messageId)
    (commandId : String) :
    (messages'.attach m.messageId commandId).rows =
      messages.rows ++ [m.attach commandId] := by
  simp only [Messages.attach, Table.update, Table.map, hrows, List.map_append,
    List.map_cons, List.map_nil, if_pos]
  congr 1
  refine (List.map_congr_left fun m₀ hm₀ => ?_).trans (List.map_id _)
  rw [if_neg (hfresh m₀ hm₀)]
  rfl

theorem Routed.sent {l : MailLabel}
    (h : Routed db principal input request sender recipient)
    (hl : l = .send now messageId commandId dispatched principal input)
    (hm : m.senderId = some sender.agentId) (hrun : m.runId = input.runId)
    (hrecipient : m.recipientId = some recipient.agentId)
    (hparent : m.parentMessageId = request.parentMessageId) : Sent db l m := by
  refine ⟨⟨now, messageId, commandId, dispatched, principal, input, sender, hl,
    h.senderRuns, h.actor, hm, ?_⟩, fun id hid => ?_⟩
  · rw [hrun]
    exact h.scope
  · obtain ⟨parent, hfound, -, hauthor, haddressed, -⟩ :=
      h.replies id (hparent.symm.trans hid)
    exact ⟨parent, hfound, hauthor.trans hrecipient.symm,
      haddressed.trans hm.symm⟩

theorem send_change
    (hfresh : messageId ∉ s.issued)
    (h : sendMessage dates now messageId commandId dispatched principal input
      s.db = (r, db')) :
    MailChange s (.send now messageId commandId dispatched principal input)
      { db := db', issued := s.issued ++ [messageId] } := by
  have hissued : s.issued ⊆ s.issued ++ [messageId] :=
    List.subset_append_left _ _
  rcases sendMessage_cases h with ⟨e, -, -, rfl⟩ | ⟨m, mid, hstore, htold⟩
  · exact .same rfl hissued
  obtain ⟨request, sender, recipient, hcheck, hroute, hstored⟩ :=
    storeMessage_ok hstore
  obtain ⟨-, hrouted⟩ := route_ok hroute
  -- Whether the recipient was told is one more redirection, or none.
  have htail := htold.rows
  have hfound := hstored.found
  obtain ⟨hmem, -⟩ := Table.find?_eq_some.mp hfound
  cases hstored with
  | kept key same stays =>
      subst stays
      rcases htail with hrows | ⟨-, c, hrows⟩
      · exact .same hrows hissued
      · rw [attach_eq_redirect hmem] at hrows
        exact .redirected _ _ _ hrows hissued
  | retargeted e key same queued row rows =>
      subst rows
      have hid : m.messageId = e.messageId := by rw [row]; rfl
      rcases htail with hrows | ⟨-, c, hrows⟩
      · exact .redirected _ _ _ hrows hissued
      · rw [attach_eq_redirect hmem, hid] at hrows
        exact .redirected _ _ _ (hrows.trans (redirect_redirect _ _ _ _ _ _))
          hissued
  | posted messages key row inserted rows =>
      subst rows
      obtain ⟨hkeys, hinsert⟩ := insertMessage_ok inserted
      obtain ⟨hids, happend⟩ := Table.insert?_eq_some hinsert
      have hsent : ∀ c, Sent s.db (.send now messageId commandId dispatched
          principal input) { m with commandId := c } := by
        intro c
        refine hrouted.sent rfl ?_ ?_ ?_ ?_ <;> rw [row] <;> rfl
      have hidM : m.messageId = messageId := by rw [row]; rfl
      have hqueued : m.state = .queued := by rw [row]; rfl
      rcases htail with hrows | ⟨-, c, hrows⟩
      · refine .posted m ?_ hkeys hqueued (hidM ▸ hfresh) (by rw [hidM])
          (hsent m.commandId)
        rw [hrows]
        exact happend
      · refine .posted (m.attach c) ?_ hkeys hqueued (hidM ▸ hfresh)
          (by rw [← hidM]; rfl) (hsent _)
        rw [hrows]
        exact attach_appended happend hids c

theorem consume_change {r : Message}
    (h : consumeMessage dates now principal messageId s.db = .ok (r, db')) :
    MailChange s (.consume now principal messageId) { s with db := db' } := by
  simp only [consumeMessage, Txn.bind_ok, session_ok, read_ok, Txn.throwIf_ok,
    Txn.modify_ok] at h
  obtain ⟨actor, _, ⟨hactor, rfl⟩, m, _, ⟨hm, rfl⟩, _, _, ⟨hscope, rfl⟩, _, _,
    rfl, -, rfl⟩ := h
  obtain ⟨hmem, hid⟩ := Table.find?_eq_some.mp hm
  simp only [not_or, not_not, Message.addressedTo, Bool.not_eq_false,
    Bool.and_eq_true, decide_eq_true_eq] at hscope
  obtain ⟨hself, hrecipient, hrun⟩ := hscope
  subst hid
  exact .consumed m (dates.toISOString now) hmem
    ⟨now, principal, actor, rfl, hactor, hself, hrecipient, hrun⟩ rfl rfl

theorem listMessages_keeps {includeConsumed : Bool} {l : List Message}
    (h : listMessages principal includeConsumed db = .ok (l, db')) :
    db' = db := by
  simp only [listMessages, Txn.bind_ok, session_ok, Txn.throwIf_ok, Txn.get_ok,
    Txn.pure_ok] at h
  obtain ⟨actor, _, ⟨-, rfl⟩, _, _, ⟨-, rfl⟩, _, _, ⟨rfl, rfl⟩, -, rfl⟩ := h
  rfl

theorem mail_change {l : MailLabel} (h : mail dates s l = some t) :
    MailChange s l t := by
  cases l with
  | send now messageId commandId dispatched principal input =>
      simp only [mail] at h
      split at h
      · cases h
      · rename_i hfresh
        cases h
        exact send_change hfresh rfl
  | list principal includeConsumed =>
      cases h
      refine .same ?_ (List.Subset.refl _)
      rcases Txn.commit_cases (listMessages principal includeConsumed) s.db with
        ⟨l, hl⟩ | hsame
      · rw [listMessages_keeps hl]
      · rw [hsame]
  | consume now principal messageId =>
      cases h
      rcases Txn.commit_cases (consumeMessage dates now principal messageId)
        s.db with ⟨m, hm⟩ | hsame
      · exact consume_change hm
      · rw [hsame]
        exact .same rfl (List.Subset.refl _)
  | store db =>
      cases h
      exact .restricted db rfl rfl

/-! ## What every step keeps -/

structure Stems (m m' : Message) : Prop where
  id : m'.messageId = m.messageId
  key : m'.idempotencyKey = m.idempotencyKey
  consumed : m.state = .consumed → m'.state = .consumed
  stamp : ∀ x, m.consumedAt = some x → m'.consumedAt = some x
  stamped : (m.state = .consumed → m.consumedAt ≠ none) →
    m'.state = .consumed → m'.consumedAt ≠ none

theorem Stems.refl (m : Message) : Stems m m :=
  ⟨rfl, rfl, fun h => h, fun _ h => h, fun h => h⟩

theorem stems_redirect (sessionId commandId : Option String) (m : Message) :
    Stems m (m.redirect sessionId commandId) :=
  ⟨rfl, rfl, fun h => h, fun _ h => h, fun h => h⟩

theorem stems_consume (stamp : String) (m : Message) :
    Stems m (m.consume stamp) := by
  refine ⟨rfl, rfl, fun _ => rfl, fun x hx => ?_, fun _ _ => ?_⟩
  · simp [Message.consume, hx]
  · simp only [Message.consume]
    cases m.consumedAt <;> simp

theorem stems_update {messages : Messages} {id : String} {f : Message → Message}
    {hid : ∀ m, (f m).messageId = m.messageId} (hf : ∀ m, Stems m (f m))
    (hm : m ∈ messages.update id f hid) : ∃ m₀ ∈ messages, Stems m₀ m := by
  rcases Table.mem_update.mp hm with ⟨m₀, hm₀, -, rfl⟩ | ⟨hm, -⟩
  · exact ⟨m₀, hm₀, hf m₀⟩
  · exact ⟨m, hm, .refl m⟩

theorem keys_update {messages : Messages} {id : String} {f : Message → Message}
    {hid : ∀ m, (f m).messageId = m.messageId} (hf : ∀ m, Stems m (f m)) :
    (messages.update id f hid).rows.map Message.idempotencyKey =
      messages.rows.map Message.idempotencyKey := by
  have hsame : (Message.idempotencyKey ∘
      fun m : Message => if m.messageId = id then f m else m) =
      Message.idempotencyKey := by
    funext m
    simp only [Function.comp]
    split
    · exact (hf m).key
    · rfl
  simp only [Table.update, Table.map, List.map_map, hsame]

theorem stems_restrict {messages : Messages} {store : EventsDb}
    (hm : m ∈ messages.restrict store) : ∃ m₀ ∈ messages, Stems m₀ m := by
  have hm' : m ∈ (messages.filter fun m =>
      (store.runs.find? m.runId).isSome).map (Message.restrict store
        (messages.filter fun m => (store.runs.find? m.runId).isSome))
      fun _ => rfl := hm
  obtain ⟨m₀, hm₀, rfl⟩ := Table.mem_map.mp hm'
  exact ⟨m₀, (Table.mem_filter.mp hm₀).1,
    ⟨rfl, rfl, fun h => h, fun _ h => h, fun h => h⟩⟩

theorem MailChange.stems {l : MailLabel} (h : MailChange s l t)
    {m : Message} (hm : m ∈ t.db.messages) :
    (∃ m₀ ∈ s.db.messages, Stems m₀ m) ∨
      (m.messageId ∉ s.issued ∧ m.messageId ∈ t.issued ∧ m.state = .queued ∧
        Sent s.db l m) := by
  cases h with
  | same rows issued =>
      rw [rows] at hm
      exact .inl ⟨m, hm, .refl m⟩
  | redirected id sessionId commandId rows issued =>
      rw [rows] at hm
      exact .inl (stems_update (stems_redirect sessionId commandId) hm)
  | posted m' rows key queued fresh issued sent =>
      rw [Table.mem_rows, rows, List.mem_append, List.mem_singleton] at hm
      rcases hm with hold | rfl
      · exact .inl ⟨m, hold, .refl m⟩
      · refine .inr ⟨fresh, ?_, queued, sent⟩
        rw [issued]
        exact List.mem_append_right _ (List.mem_singleton_self _)
  | consumed m' stamp mem consumes rows issued =>
      rw [rows] at hm
      exact .inl (stems_update (stems_consume stamp) hm)
  | restricted store rows issued =>
      rw [rows] at hm
      exact .inl (stems_restrict hm)

theorem MailChange.issued {l : MailLabel} (h : MailChange s l t) :
    s.issued ⊆ t.issued := by
  cases h with
  | same rows issued => exact issued
  | redirected id sessionId commandId rows issued => exact issued
  | posted m rows key queued fresh issued sent =>
      rw [issued]
      exact List.subset_append_left _ _
  | consumed m stamp mem consumes rows issued => exact issued ▸ List.Subset.refl _
  | restricted store rows issued => exact issued ▸ List.Subset.refl _

theorem Posted.step {l : MailLabel} (h : Posted s)
    (hstep : mail dates s l = some t) : Posted t := by
  have hchange := mail_change hstep
  refine ⟨?_, fun m hm => ?_, fun m hm hconsumed => ?_⟩
  · cases hchange with
    | same rows issued =>
        rw [rows]
        exact h.keys
    | redirected id sessionId commandId rows issued =>
        rw [rows]
        exact (keys_update (stems_redirect sessionId commandId)).symm ▸ h.keys
    | posted m rows key queued fresh issued sent =>
        rw [rows, List.map_append, List.nodup_append]
        refine ⟨h.keys, by simp, fun k hk k' hk' => ?_⟩
        obtain ⟨m₀, hm₀, rfl⟩ := List.mem_map.mp hk
        simp only [List.map_cons, List.map_nil, List.mem_singleton] at hk'
        rw [hk']
        exact key m₀ hm₀
    | consumed m stamp mem consumes rows issued =>
        rw [rows]
        exact (keys_update (stems_consume stamp)).symm ▸ h.keys
    | restricted store rows issued =>
        rw [rows]
        simp only [Messages.restrict, Table.map, List.map_map]
        exact h.keys.sublist (List.filter_sublist.map Message.idempotencyKey)
  · rcases hchange.stems hm with ⟨m₀, hm₀, hstems⟩ | ⟨-, hissued, -⟩
    · rw [hstems.id]
      exact hchange.issued (h.issued m₀ hm₀)
    · exact hissued
  · rcases hchange.stems hm with ⟨m₀, hm₀, hstems⟩ | ⟨-, -, hqueued, -⟩
    · exact hstems.stamped (h.stamped m₀ hm₀) hconsumed
    · rw [hqueued] at hconsumed
      cases hconsumed

/-! ## Repeated sends -/

structure SameSend (db : MessageDb) (principal : CommandPrincipal)
    (input : SendMessageInput) (e : Message) : Prop where
  run : e.runId = input.runId
  author : e.senderId = some principal.agentId
  addressee : ∃ recipient,
    db.store.sessions.find? input.recipientSessionId = some recipient ∧
      e.recipientId = some recipient.agentId ∧
      e.recipientRunId = recipient.runId
  content : ∃ request, checkInput input = .ok request ∧
    e.kind = request.kind ∧ e.payload = request.payload ∧
    e.parentMessageId = request.parentMessageId

theorem matches_iff {e : Message} (hcheck : checkInput input = .ok request)
    (hrouted : Routed db principal input request sender recipient) :
    e.matches input request sender recipient = true ↔
      SameSend db principal input e := by
  simp only [Message.matches, Bool.and_eq_true, decide_eq_true_eq]
  constructor
  · rintro ⟨⟨⟨⟨⟨⟨hrun, hsender⟩, hrecipient⟩, hrecipientRun⟩, hkind⟩, hpayload⟩,
      hparent⟩
    exact ⟨hrun, hrouted.actor ▸ hsender,
      ⟨recipient, hrouted.recipientRuns.1, hrecipient, hrecipientRun⟩,
      ⟨request, hcheck, hkind, hpayload, hparent⟩⟩
  · rintro ⟨hrun, hsender, ⟨recipient', hfound, hrecipient, hrecipientRun⟩,
      ⟨request', hcheck', hkind, hpayload, hparent⟩⟩
    cases hcheck.symm.trans hcheck'
    cases hrouted.recipientRuns.1.symm.trans hfound
    exact ⟨⟨⟨⟨⟨⟨hrun, hrouted.actor.symm ▸ hsender⟩, hrecipient⟩,
      hrecipientRun⟩, hkind⟩, hpayload⟩, hparent⟩

/--
A repeated send answers with the message it repeats, which it may redirect while
that is queued; it is refused out of scope, when nothing changes, or by the
command store.
-/
structure Repeated (dates : DateApi) (now : Int) (commandId : String)
    (db : MessageDb) (principal : CommandPrincipal) (input : SendMessageInput)
    (e : Message) (r : Except DomainError Message) (db' : MessageDb) :
    Prop where
  answer : ∀ m, r = .ok m → m.messageId = e.messageId
  refused : ∀ error, r = .error error →
    (Unrouted db principal input error ∧ db' = db) ∨
      ∃ m store, m.messageId = e.messageId ∧
        enqueueCommand dates now commandId .coordinator (announcement m) store =
          .error error
  rows : ∃ sessionId commandId,
    db'.messages = db.messages.redirect e.messageId sessionId commandId
  consumed : e.state = .consumed → db'.messages = db.messages

/-- The send would announce a message that its recipient has consumed. -/
def AnnouncesConsumed (db : MessageDb) (dispatched : Bool)
    (principal : CommandPrincipal) (input : SendMessageInput) : Prop :=
  ∃ e ∈ db.messages, e.idempotencyKey = input.idempotencyKey ∧
    SameSend db principal input e ∧ e.state = .consumed ∧
    Announces dispatched e

theorem repeated_send {e : Message} (hposted : Posted s)
    (hmem : e ∈ s.db.messages)
    (hkey : e.idempotencyKey = input.idempotencyKey)
    (hsame : SameSend s.db principal input e)
    (hfresh : ¬ AnnouncesConsumed s.db dispatched principal input)
    (h : sendMessage dates now messageId commandId dispatched principal input
      s.db = (r, db')) :
    Repeated dates now commandId s.db principal input e r db' := by
  have hby : s.db.messages.byKey input.idempotencyKey = some e :=
    hkey ▸ hposted.byKey hmem
  have hself : ∃ sessionId commandId, s.db.messages =
      s.db.messages.redirect e.messageId sessionId commandId :=
    ⟨_, _, (redirect_self hmem).symm⟩
  rcases sendMessage_cases h with ⟨error, hstore, rfl, rfl⟩ |
    ⟨m, mid, hstore, htold⟩
  · refine ⟨fun m hm => ?_, fun error' herror => ?_, hself, fun _ => rfl⟩
    · cases hm
    cases herror
    rcases storeMessage_refused hby hstore with hunrouted |
      ⟨request, sender, recipient, hcheck, hroute, hdiffers⟩
    · exact .inl ⟨hunrouted, rfl⟩
    · rw [(matches_iff hcheck (route_ok hroute).2).mpr hsame] at hdiffers
      cases hdiffers
  obtain ⟨request, sender, recipient, hcheck, hroute, hstored⟩ :=
    storeMessage_ok hstore
  obtain ⟨hmid, -⟩ := Table.find?_eq_some.mp hstored.found
  have hrefused : ∀ error, r = .error error →
      (Unrouted s.db principal input error ∧ db' = s.db) ∨
        ∃ m' store, m'.messageId = m.messageId ∧
          enqueueCommand dates now commandId .coordinator (announcement m')
            store = .error error :=
    fun error herror => .inr ⟨m, _, rfl, htold.error herror⟩
  cases hstored with
  | posted messages key row inserted rows =>
      rw [hby] at key
      cases key
  | kept key same stays =>
      subst stays
      cases key.symm.trans hby
      refine ⟨fun m' hm' => htold.answer hm', hrefused, ?_, fun hconsumed => ?_⟩
      · rcases htold.rows with hrows | ⟨-, c, hrows⟩
        · rw [hrows]
          exact hself
        · exact ⟨_, _, hrows.trans (attach_eq_redirect hmem c)⟩
      · rcases htold.rows with hrows | ⟨htells, -⟩
        · exact hrows
        · exact absurd ⟨e, hmem, hkey, hsame, hconsumed, htells⟩ hfresh
  | retargeted e' key same queued row rows =>
      subst rows
      cases key.symm.trans hby
      have hid : m.messageId = e.messageId := by
        rw [row]
        rfl
      rw [hid] at hrefused
      refine ⟨fun m' hm' => (htold.answer hm').trans hid, hrefused, ?_,
        fun hconsumed => ?_⟩
      · rcases htold.rows with hrows | ⟨-, c, hrows⟩
        · exact ⟨_, _, hrows⟩
        · rw [attach_eq_redirect hmid, hid] at hrows
          exact ⟨_, _, hrows.trans (redirect_redirect _ _ _ _ _ _)⟩
      · rw [queued] at hconsumed
        cases hconsumed

theorem conflicting_send {e : Message} (hposted : Posted s)
    (hmem : e ∈ s.db.messages)
    (hkey : e.idempotencyKey = input.idempotencyKey)
    (hother : ¬ SameSend s.db principal input e)
    (h : sendMessage dates now messageId commandId dispatched principal input
      s.db = (r, db')) : (∃ error, r = .error error) ∧ db' = s.db := by
  have hby : s.db.messages.byKey input.idempotencyKey = some e :=
    hkey ▸ hposted.byKey hmem
  rcases sendMessage_cases h with ⟨error, -, rfl, rfl⟩ | ⟨m, mid, hstore, -⟩
  · exact ⟨⟨error, rfl⟩, rfl⟩
  obtain ⟨request, sender, recipient, hcheck, hroute, hstored⟩ :=
    storeMessage_ok hstore
  have hiff {e' : Message} := matches_iff (e := e') hcheck (route_ok hroute).2
  cases hstored with
  | kept key same stays =>
      cases key.symm.trans hby
      exact absurd (hiff.mp same) hother
  | retargeted e' key same queued row rows =>
      cases key.symm.trans hby
      exact absurd (hiff.mp same) hother
  | posted messages key row inserted rows =>
      rw [hby] at key
      cases key

/-! ## The laws -/

def Lists (db : MessageDb) (actor : Session) (includeConsumed : Bool)
    (l : List Message) : Prop :=
  l.Nodup ∧ ∀ m, m ∈ l ↔ m ∈ db.messages ∧
    m.recipientId = some actor.agentId ∧ m.recipientRunId = actor.runId ∧
    (includeConsumed = true ∨ m.state = .queued)

theorem listMessages_lists {actor : Session}
    (hactor : Running db principal.sessionId actor)
    (hself : actor.agentId = principal.agentId) (includeConsumed : Bool) :
    ∃ l, listMessages principal includeConsumed db = .ok (l, db) ∧
      Lists db actor includeConsumed l := by
  refine ⟨inbox db.messages actor includeConsumed, ?_, ?_⟩
  · simp only [listMessages, Txn.bind_ok, session_ok, Txn.throwIf_ok,
      Txn.get_ok, Txn.pure_ok]
    exact ⟨actor, db, ⟨hactor, rfl⟩, (), db, ⟨not_not.mpr hself, rfl⟩, db, db,
      ⟨rfl, rfl⟩, rfl, rfl⟩
  · refine ⟨?_, fun m => ?_⟩
    · have hrows : db.messages.rows.Nodup := List.Nodup.of_map _ db.messages.nodup
      exact (List.mergeSort_perm _ _).nodup_iff.mpr (hrows.filter _)
    · simp only [inbox, List.mem_mergeSort, List.mem_filter, Message.addressedTo,
        Bool.and_eq_true, Bool.or_eq_true, decide_eq_true_eq, and_assoc]
      rfl

structure MailboxLaws (dates : DateApi) (s : Mailbox) : Prop where
  keys : ∀ m ∈ s.db.messages, ∀ m' ∈ s.db.messages,
    m.idempotencyKey = m'.idempotencyKey → m = m'
  repeated : ∀ now messageId commandId dispatched principal input r db',
    sendMessage dates now messageId commandId dispatched principal input s.db =
      (r, db') →
    ∀ e ∈ s.db.messages, e.idempotencyKey = input.idempotencyKey →
      (SameSend s.db principal input e →
        ¬ AnnouncesConsumed s.db dispatched principal input →
        Repeated dates now commandId s.db principal input e r db') ∧
      (¬ SameSend s.db principal input e →
        (∃ error, r = .error error) ∧ db' = s.db)
  listed : ∀ principal actor, Running s.db principal.sessionId actor →
    actor.agentId = principal.agentId → ∀ includeConsumed, ∃ l,
      listMessages principal includeConsumed s.db = .ok (l, s.db) ∧
        Lists s.db actor includeConsumed l
  consumes : ∀ l t, mail dates s l = some t → ∀ m ∈ s.db.messages,
    ∀ m' ∈ t.db.messages, m'.messageId = m.messageId → m.state = .queued →
      m'.state = .consumed → Consumes s.db l m
  stays : ∀ ls t, (mailbox dates).run s ls = some t → ∀ m ∈ s.db.messages,
    m.state = .consumed → ∀ m' ∈ t.db.messages, m'.messageId = m.messageId →
      m'.state = .consumed ∧ m'.consumedAt = m.consumedAt
  sent : ∀ l t, mail dates s l = some t → ∀ m ∈ t.db.messages,
    (∀ m₀ ∈ s.db.messages, m₀.messageId ≠ m.messageId) → Sent s.db l m

theorem consumes_of_step {l : MailLabel}
    (hstep : mail dates s l = some t) {m m' : Message}
    (hm : m ∈ s.db.messages) (hm' : m' ∈ t.db.messages)
    (hid : m'.messageId = m.messageId) (hqueued : m.state = .queued)
    (hconsumed : m'.state = .consumed) : Consumes s.db l m := by
  have hchange := mail_change hstep
  -- Only a consuming call turns a row that was there into a consumed one.
  have hold : ∀ m₀ ∈ s.db.messages, m'.messageId = m₀.messageId →
      m'.state = m₀.state → False := by
    intro m₀ hm₀ hid₀ hstate
    have hsame : m₀ = m := Table.eq_of_key hm₀ hm (hid₀.symm.trans hid)
    rw [hstate, hsame, hqueued] at hconsumed
    cases hconsumed
  cases hchange with
  | same rows issued =>
      rw [rows] at hm'
      exact (hold m' hm' rfl rfl).elim
  | redirected id sessionId commandId rows issued =>
      rw [rows] at hm'
      have hm'' : m' ∈ s.db.messages.update id
          (Message.redirect sessionId commandId) fun _ => rfl := hm'
      rcases Table.mem_update.mp hm'' with ⟨m₀, hm₀, -, rfl⟩ | ⟨hm₀, -⟩
      · exact (hold m₀ hm₀ rfl rfl).elim
      · exact (hold m' hm₀ rfl rfl).elim
  | posted m₁ rows key queued fresh issued sent =>
      rw [Table.mem_rows, rows, List.mem_append, List.mem_singleton] at hm'
      rcases hm' with hm₀ | rfl
      · exact (hold m' hm₀ rfl rfl).elim
      · rw [queued] at hconsumed
        cases hconsumed
  | consumed m₁ stamp mem consumes rows issued =>
      rw [rows] at hm'
      have hm'' : m' ∈ s.db.messages.update m₁.messageId
          (Message.consume stamp) fun _ => rfl := hm'
      rcases Table.mem_update.mp hm'' with ⟨m₀, hm₀, hid₀, rfl⟩ | ⟨hm₀, -⟩
      · have hsame : m₀ = m := Table.eq_of_key hm₀ hm hid
        have hsame' : m₁ = m := Table.eq_of_key mem hm
          (hid₀.symm.trans (congrArg Message.messageId hsame))
        exact hsame' ▸ consumes
      · exact (hold m' hm₀ rfl rfl).elim
  | restricted store rows issued =>
      rw [rows] at hm'
      have hm'' : m' ∈ (s.db.messages.filter fun m =>
          (store.runs.find? m.runId).isSome).map (Message.restrict store
            (s.db.messages.filter fun m => (store.runs.find? m.runId).isSome))
          fun _ => rfl := hm'
      obtain ⟨m₀, hm₀, rfl⟩ := Table.mem_map.mp hm''
      exact (hold m₀ (Table.mem_filter.mp hm₀).1 rfl rfl).elim

def ConsumedAt (id : String) (stamp : Option String) (s : Mailbox) : Prop :=
  id ∈ s.issued ∧ ∀ m ∈ s.db.messages, m.messageId = id →
    m.state = .consumed ∧ m.consumedAt = stamp

theorem ConsumedAt.step {id : String} {stamp : Option String} {l : MailLabel}
    (h : ConsumedAt id stamp s) (hposted : Posted s)
    (hstep : mail dates s l = some t) : ConsumedAt id stamp t := by
  have hchange := mail_change hstep
  refine ⟨hchange.issued h.1, fun m hm hid => ?_⟩
  rcases hchange.stems hm with ⟨m₀, hm₀, hstems⟩ | ⟨hfresh, -⟩
  · obtain ⟨hconsumed, hstamp⟩ := h.2 m₀ hm₀ (hstems.id.symm.trans hid)
    refine ⟨hstems.consumed hconsumed, ?_⟩
    cases hat : m₀.consumedAt with
    | none => exact absurd hat (hposted.stamped m₀ hm₀ hconsumed)
    | some x => rw [hstems.stamp x hat, ← hstamp, hat]
  · exact absurd (hid ▸ h.1) hfresh

theorem sent_of_step {l : MailLabel} (hstep : mail dates s l = some t)
    {m : Message} (hm : m ∈ t.db.messages)
    (hnew : ∀ m₀ ∈ s.db.messages, m₀.messageId ≠ m.messageId) :
    Sent s.db l m := by
  rcases (mail_change hstep).stems hm with ⟨m₀, hm₀, hstems⟩ | ⟨-, -, -, hsent⟩
  · exact absurd hstems.id.symm (hnew m₀ hm₀)
  · exact hsent

theorem mailbox_isolated (h : (mailbox dates).Reachable s) :
    MailboxLaws dates s := by
  have hposted : Posted s :=
    System.Reachable.invariant (I := Posted) (fun _ hs => hs)
      (fun _ _ _ hs hstep => hs.step hstep) h
  refine ⟨fun m hm m' hm' hkey => hposted.key_eq hm hm' hkey, ?_,
    fun principal actor hactor hself => listMessages_lists hactor hself,
    fun l t hstep m hm m' hm' => consumes_of_step hstep hm hm', ?_,
    fun l t hstep m hm => sent_of_step hstep hm⟩
  · intro now messageId commandId dispatched principal input r db' hsend e he
      hkey
    exact ⟨fun hsame hfresh => repeated_send hposted he hkey hsame hfresh hsend,
      fun hother => conflicting_send hposted he hkey hother hsend⟩
  · intro ls t hrun m hm hconsumed m' hm' hid
    have hstart : ConsumedAt m.messageId m.consumedAt s := by
      refine ⟨hposted.issued m hm, fun m₀ hm₀ hid₀ => ?_⟩
      rw [Table.eq_of_key hm₀ hm hid₀]
      exact ⟨hconsumed, rfl⟩
    have hend : ConsumedAt m.messageId m.consumedAt t :=
      System.run_preserves (I := Posted)
        (P := ConsumedAt m.messageId m.consumedAt)
        (fun _ _ _ hs hstep => hs.step hstep)
        (fun _ _ _ hs hp hstep => hp.step hs hstep) hposted hstart hrun
    exact hend.2 m' hm' hid

/-! Two workers: one writes to the other without a dispatcher, the message is
read, and the same send comes again. -/

def workerRun (runId taskRef agentId : String) : Claim where
  runId := runId
  taskRef := taskRef
  agentId := agentId
  state := .inProgress
  claimedAt := ""
  leaseExpiresAt := ""

def workerSession (sessionId agentId runId : String) : Session where
  sessionId := sessionId
  agentId := agentId
  runId := some runId
  state := .running

def twoWorkers : Mailbox where
  db :=
    { store :=
        { runs := ⟨[workerRun "run-a" "app/a" "worker-a",
            workerRun "run-b" "app/b" "worker-b"], by decide⟩
          sessions := ⟨[workerSession "session-a" "worker-a" "run-a",
            workerSession "session-b" "worker-b" "run-b"], by decide⟩ } }

def greeting : SendMessageInput where
  runId := "run-a"
  recipientSessionId := "session-b"
  idempotencyKey := "hello-1"
  kind := some .message
  text := "Hello"

def workerA : CommandPrincipal := ⟨"worker-a", "session-a"⟩

def workerB : CommandPrincipal := ⟨"worker-b", "session-b"⟩

def greeted : List MailLabel :=
  [.send 1 "msg-1" "cmd-1" false workerA greeting, .consume 2 workerB "msg-1"]

def readGreeting : Message where
  messageId := "msg-1"
  runId := "run-a"
  idempotencyKey := "hello-1"
  direction := .outbound
  kind := .message
  payload := .semantic "Hello" (.list [])
  createdAt := DateApi.epoch.toISOString 1
  senderId := some "worker-a"
  senderSessionId := some "session-a"
  recipientId := some "worker-b"
  recipientSessionId := some "session-b"
  recipientRunId := some "run-b"
  state := .consumed
  consumedAt := some (DateApi.epoch.toISOString 2)

def afterReading : Mailbox where
  db := { twoWorkers.db with messages := ⟨[readGreeting], by decide⟩ }
  issued := ["msg-1"]

theorem twoWorkers_initial : (mailbox DateApi.epoch).initial twoWorkers :=
  ⟨List.nodup_nil, fun _ hm => absurd hm (Table.not_mem_empty _),
    fun _ hm => absurd hm (Table.not_mem_empty _)⟩

theorem run_greeted :
    (mailbox DateApi.epoch).run twoWorkers greeted = some afterReading := by
  decide +kernel

theorem mailbox_isolated_greeted :
    (mailbox DateApi.epoch).run twoWorkers greeted = some afterReading ∧
      MailboxLaws DateApi.epoch afterReading :=
  ⟨run_greeted, mailbox_isolated (System.Reachable.run
    (System.Reachable.initial twoWorkers_initial) run_greeted)⟩

/-- A repeated send announces a message that has been consumed. -/
theorem not_repeated_leaves_consumed :
    ∃ s e r db', (mailbox DateApi.epoch).Reachable s ∧ e ∈ s.db.messages ∧
      e.idempotencyKey = greeting.idempotencyKey ∧
      SameSend s.db workerA greeting e ∧ e.state = .consumed ∧
      sendMessage DateApi.epoch 3 "msg-2" "cmd-2" true workerA greeting s.db =
        (r, db') ∧ db'.messages ≠ s.db.messages := by
  have hreach : (mailbox DateApi.epoch).Reachable afterReading :=
    System.Reachable.run (System.Reachable.initial twoWorkers_initial)
      run_greeted
  refine ⟨afterReading, readGreeting, _, _, hreach, List.mem_singleton_self _,
    rfl, ⟨rfl, rfl, ⟨workerSession "session-b" "worker-b" "run-b", ?_, rfl, rfl⟩,
      ⟨⟨.message, .semantic "Hello" (.list []), none⟩, ?_, rfl, rfl, rfl⟩⟩, rfl,
    rfl, ?_⟩
  · decide +kernel
  · decide +kernel
  · decide +kernel

end OrcState.Messaging
