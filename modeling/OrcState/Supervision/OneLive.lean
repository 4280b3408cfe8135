import OrcState.Supervision.Sessions
import Mathlib.Data.List.Basic

/-!
# One live session for an agent

A launch ends the agent's other sessions, and nothing brings an ended one back
but a stored decision, a rolled-back reset or a second record of the same id.
Those keep one live session for an agent as long as what they bring back has not
been superseded meanwhile, and a probe is trusted as long as the identity that it
was compared with is still the recorded one.
-/

namespace OrcState.Supervision

open OrcState.Contract OrcState.Foundation OrcState.Store

variable {dates : DateApi} {db db' : SessionDb} {s t : Supervisor}
  {l : SessionLabel}

/-! ## What the operations write -/

theorem storeSessions_ok {sessions : SupervisedSessions} {u : Unit}
    (h : storeSessions sessions db = .ok (u, db')) :
    Indexed sessions ∧ db' = { db with sessions := sessions } := by
  simp only [storeSessions, Txn.bind_ok, Txn.throwIf_ok, Txn.modify_ok] at h
  obtain ⟨_, _, ⟨hrunning, rfl⟩, _, _, ⟨hcredential, rfl⟩, rfl⟩ := h
  exact ⟨⟨not_not.mp hrunning, not_not.mp hcredential⟩, rfl⟩

theorem storeSessions_of_indexed {sessions : SupervisedSessions}
    (h : Indexed sessions) :
    storeSessions sessions db = .ok ((), { db with sessions := sessions }) := by
  simp only [storeSessions, Txn.bind_ok, Txn.throwIf_ok, Txn.modify_ok]
  exact ⟨(), db, ⟨not_not.mpr h.running, rfl⟩, (), db,
    ⟨not_not.mpr h.credential, rfl⟩, rfl⟩

theorem Indexed.one {sessions : SupervisedSessions} (h : Indexed sessions)
    {x y : SupervisedSession} (hx : x ∈ sessions) (hy : y ∈ sessions)
    (hagent : x.agentId = y.agentId) (hrunning : x.state = .running)
    (hrunning' : y.state = .running) : x = y := by
  refine List.inj_on_of_nodup_map h.running ?_ ?_ hagent
  · exact List.mem_filter.mpr ⟨hx, decide_eq_true hrunning⟩
  · exact List.mem_filter.mpr ⟨hy, decide_eq_true hrunning'⟩

theorem endSessions_mem {sessions : SupervisedSessions} {agentId : AgentId}
    {except : Option String} {reason stamp : String} {x : SupervisedSession}
    (h : x ∈ endSessions sessions agentId except reason stamp) :
    ∃ x₀ ∈ sessions, x.sessionId = x₀.sessionId ∧ x.agentId = x₀.agentId ∧
      ((x = x₀ ∧ ¬ (x₀.agentId = agentId ∧ some x₀.sessionId ≠ except ∧
          x₀.live = true)) ∨ x.live = false) := by
  obtain ⟨x₀, hmem, rfl⟩ := Table.mem_map.mp h
  refine ⟨x₀, hmem, ?_⟩
  split
  · exact ⟨rfl, rfl, .inr rfl⟩
  · rename_i hkept
    exact ⟨rfl, rfl, .inl ⟨rfl, hkept⟩⟩

def superseding (db : SessionDb) (p : ProviderSession) : SupervisedSessions :=
  endSessions db.sessions p.agentId (some p.sessionId)
    "superseded by a new session" p.startedAt

def Recorded (db : SessionDb) (p : ProviderSession) (row : SupervisedSession) :
    Prop :=
  ((superseding db p).find? p.sessionId = none ∧ row = p.row) ∨
    ∃ old, (superseding db p).find? p.sessionId = some old ∧ row = p.again old

theorem recordProviderSession_ok {p : ProviderSession} {b : Bool}
    (h : recordProviderSession p db = .ok (b, db')) :
    db' = db ∨ ∃ row, Recorded db p row ∧
      Indexed ((superseding db p).upsert row) ∧
      db' = { db with sessions := (superseding db p).upsert row } := by
  simp only [recordProviderSession, Txn.bind_ok, Txn.throwIf_ok,
    Txn.get_ok] at h
  obtain ⟨_, _, ⟨-, rfl⟩, _, _, ⟨rfl, rfl⟩, h⟩ := h
  by_cases hgone : (p.runId.any fun runId => (db.runs.find? runId).isNone)
  · rw [if_pos hgone] at h
    obtain ⟨-, rfl⟩ := Txn.pure_ok.mp h
    exact .inl rfl
  · rw [if_neg hgone] at h
    right
    cases hold : (superseding db p).find? p.sessionId with
    | none =>
        have hold' := hold
        unfold superseding at hold'
        simp only [hold', Txn.bind_ok, Txn.pure_ok] at h
        obtain ⟨_, m, hm, -, rfl⟩ := h
        obtain ⟨hindexed, rfl⟩ := storeSessions_ok hm
        exact ⟨p.row, .inl ⟨hold, rfl⟩, hindexed, rfl⟩
    | some old =>
        have hold' := hold
        unfold superseding at hold'
        simp only [hold', Txn.bind_ok, Txn.pure_ok] at h
        obtain ⟨_, m, hm, -, rfl⟩ := h
        obtain ⟨hindexed, rfl⟩ := storeSessions_ok hm
        exact ⟨p.again old, .inr ⟨old, hold, rfl⟩, hindexed, rfl⟩

def reactivated (db : SessionDb) (x : SupervisedSession) (stamp : String) :
    SupervisedSessions :=
  db.sessions.update x.sessionId (SupervisedSession.reactivate stamp)
    (reactivate_sessionId stamp)

theorem restoreProviderSession_ok {agent : Agent} {stamp : String} {u : Unit}
    (h : restoreProviderSession stamp agent db = .ok (u, db')) :
    db' = db ∨ ∃ x, Agent.attached agent = true ∧
      latestSession db.sessions agent.agentId = some x ∧
      Indexed (reactivated db x stamp) ∧
      db' = { db with sessions := reactivated db x stamp } := by
  unfold restoreProviderSession at h
  split at h
  · rename_i hattached
    simp only [Txn.bind_ok, Txn.get_ok] at h
    obtain ⟨_, _, ⟨rfl, rfl⟩, h⟩ := h
    cases hlatest : latestSession db.sessions agent.agentId with
    | none =>
        simp only [hlatest] at h
        obtain ⟨-, rfl⟩ := Txn.pure_ok.mp h
        exact .inl rfl
    | some x =>
        simp only [hlatest] at h
        exact .inr ⟨x, hattached, rfl, storeSessions_ok h⟩
  · obtain ⟨-, rfl⟩ := Txn.pure_ok.mp h
    exact .inl rfl

def decided (dates : DateApi) (db : SessionDb) (sessionId : String)
    (state : SessionState) (reason : Option String) (options : StateOptions)
    (now : Int) : SupervisedSessions :=
  db.sessions.update sessionId
    (SupervisedSession.decide dates state reason options now) fun _ => rfl

theorem setSessionState_ok {now : Int} {sessionId : String}
    {state : SessionState} {reason : Option String} {options : StateOptions}
    {b : Bool}
    (h : setSessionState dates now sessionId state reason options db =
      .ok (b, db')) :
    (db' = db ∧ ∀ x ∈ db.sessions, x.sessionId = sessionId →
        x.state = state) ∨
      Indexed (decided dates db sessionId state reason options now) ∧
      db' = { db with
        sessions := decided dates db sessionId state reason options now } := by
  simp only [setSessionState, Txn.bind_ok, Txn.get_ok] at h
  obtain ⟨_, _, ⟨rfl, rfl⟩, h⟩ := h
  cases hfind : db.sessions.find? sessionId with
  | none =>
      simp only [hfind] at h
      obtain ⟨-, rfl⟩ := Txn.pure_ok.mp h
      refine .inl ⟨rfl, fun x hx hid => ?_⟩
      exact absurd hid (Table.find?_eq_none.mp hfind x hx)
  | some x₀ =>
      simp only [hfind] at h
      by_cases hsame : x₀.state = state ∧ x₀.stateReason = reason ∧
          x₀.ownerId = options.ownerId.or x₀.ownerId
      · rw [if_pos hsame] at h
        obtain ⟨-, rfl⟩ := Txn.pure_ok.mp h
        refine .inl ⟨rfl, fun x hx hid => ?_⟩
        obtain ⟨hmem, hid₀⟩ := Table.find?_eq_some.mp hfind
        rw [Table.eq_of_key hx hmem (hid.trans hid₀.symm)]
        exact hsame.1
      · rw [if_neg hsame] at h
        simp only [Txn.bind_ok, Txn.throwIf_ok, Txn.pure_ok] at h
        obtain ⟨_, m, hm, _, _, ⟨-, rfl⟩, -, rfl⟩ := h
        exact .inr (storeSessions_ok hm)

/-! ## Ended sessions and revived ones -/

/--
The session has ended, and its agent has another one beside which the index lets
this one take the state again.
-/
def Superseded (db : SessionDb) (sessionId : String) (state : SessionState) :
    Prop :=
  ∃ x ∈ db.sessions, x.sessionId = sessionId ∧ x.live = false ∧
    ∃ x' ∈ db.sessions, x'.agentId = x.agentId ∧ x'.live = true ∧
      ¬ (state = .running ∧ x'.state = .running)

theorem OneLive.ended (h : OneLive db)
    (hold : ∀ x ∈ db'.sessions, ∃ x₀ ∈ db.sessions,
      x.sessionId = x₀.sessionId ∧ x.agentId = x₀.agentId ∧
        (x.live = true → x₀.live = true)) : OneLive db' := by
  intro x hx y hy hagent hlive hlive'
  obtain ⟨x₀, hx₀, hid, hagent₀, hback⟩ := hold x hx
  obtain ⟨y₀, hy₀, hid', hagent₀', hback'⟩ := hold y hy
  have hsame : x₀ = y₀ := by
    refine h x₀ hx₀ y₀ hy₀ ?_ (hback hlive) (hback' hlive')
    rw [← hagent₀, ← hagent₀', hagent]
  refine Table.eq_of_key hx hy ?_
  exact hid.trans ((congrArg _ hsame).trans hid'.symm)

theorem OneLive.endSessions (h : OneLive db) (agentId : AgentId)
    (except : Option String) (reason stamp : String) :
    OneLive { db with
      sessions := endSessions db.sessions agentId except reason stamp } := by
  refine h.ended fun x hx => ?_
  obtain ⟨x₀, hx₀, hid, hagent, hcase⟩ := endSessions_mem hx
  refine ⟨x₀, hx₀, hid, hagent, fun hlive => ?_⟩
  rcases hcase with ⟨rfl, -⟩ | hended
  · exact hlive
  · rw [hended] at hlive
    cases hlive

theorem OneLive.update (h : OneLive db) {sessionId : String}
    {state : SessionState} {f : SupervisedSession → SupervisedSession}
    (hid : ∀ x, (f x).sessionId = x.sessionId)
    (hagent : ∀ x, (f x).agentId = x.agentId)
    (hstate : ∀ x, (f x).state = state)
    (hindexed : Indexed (db.sessions.update sessionId f hid))
    (hfree : state = .offline ∨ ¬ Superseded db sessionId state) :
    OneLive { db with sessions := db.sessions.update sessionId f hid } := by
  -- A live row after the update stems from a row that no other live row of
  -- its agent stood beside.
  have hold : ∀ x ∈ db.sessions.update sessionId f hid, x.live = true →
      ∃ x₀ ∈ db.sessions, x.sessionId = x₀.sessionId ∧
        x.agentId = x₀.agentId ∧
        ∀ y ∈ db.sessions, y.agentId = x₀.agentId → y.live = true →
          y = x₀ := by
    intro x hx hlive
    rcases Table.mem_update.mp hx with ⟨x₀, hx₀, hkey, rfl⟩ | ⟨hx, -⟩
    · refine ⟨x₀, hx₀, hid x₀, hagent x₀, fun y hy hya hyl => ?_⟩
      cases hlive₀ : x₀.live with
      | true => exact h y hy x₀ hx₀ hya hyl hlive₀
      | false =>
          rcases hfree with hoffline | hfree
          · simp [SupervisedSession.live, hstate, hoffline] at hlive
          by_cases hboth : state = .running ∧ y.state = .running
          · have hne : y.sessionId ≠ sessionId := by
              intro heq
              rw [Table.eq_of_key hy hx₀ (heq.trans hkey.symm), hlive₀] at hyl
              cases hyl
            have hy' : y ∈ db.sessions.update sessionId f hid :=
              Table.mem_update.mpr (.inr ⟨hy, hne⟩)
            have hsame : y = f x₀ := hindexed.one hy' hx
              (hya.trans (hagent x₀).symm) hboth.2 ((hstate x₀).trans hboth.1)
            refine absurd ?_ hne
            rw [hsame, hid, hkey]
          · exact absurd ⟨x₀, hx₀, hkey, hlive₀, y, hy, hya, hyl, hboth⟩ hfree
    · exact ⟨x, hx, rfl, rfl, fun y hy hya hyl => h y hy x hx hya hyl hlive⟩
  intro x (hx : x ∈ db.sessions.update sessionId f hid) y
    (hy : y ∈ db.sessions.update sessionId f hid) hsame hlive hlive'
  obtain ⟨x₀, hx₀, hxid, hxa, hone⟩ := hold x hx hlive
  obtain ⟨y₀, hy₀, hyid, hya, hone'⟩ := hold y hy hlive'
  refine Table.eq_of_key hx hy ?_
  rcases Table.mem_update.mp hx with ⟨x₁, hx₁, hkey, rfl⟩ | ⟨hx, -⟩
  · rcases Table.mem_update.mp hy with ⟨y₁, hy₁, hkey', rfl⟩ | ⟨hy, -⟩
    · rw [hid, hid, hkey, hkey']
    · have hyx : y = x₀ := hone y hy (by rw [← hxa, hsame]) hlive'
      rw [hxid, hyx]
  · have hxy : x = y₀ := hone' x hx (by rw [← hya, hsame]) hlive
    rw [hyid, hxy]

theorem Recorded.sessionId {p : ProviderSession} {row : SupervisedSession}
    (h : Recorded db p row) : row.sessionId = p.sessionId := by
  rcases h with ⟨-, rfl⟩ | ⟨old, hold, rfl⟩
  · rfl
  · have hid := Table.key_of_find? hold
    exact hid

theorem Recorded.agentId {p : ProviderSession} {row : SupervisedSession}
    (h : Recorded db p row) : row.agentId = p.agentId ∨
      ∃ x ∈ db.sessions, x.sessionId = p.sessionId ∧
        row.agentId = x.agentId := by
  rcases h with ⟨-, rfl⟩ | ⟨old, hold, rfl⟩
  · exact .inl rfl
  · obtain ⟨hmem, hid⟩ := Table.find?_eq_some.mp hold
    obtain ⟨x, hx, hxid, hxa, -⟩ := endSessions_mem hmem
    exact .inr ⟨x, hx, hxid.symm.trans hid, hxa⟩

theorem Recorded.running {p : ProviderSession} {row : SupervisedSession}
    (h : Recorded db p row) : row.state = .running := by
  rcases h with ⟨-, rfl⟩ | ⟨old, -, rfl⟩
  · rfl
  · rfl

theorem OneLive.apart (h : OneLive db) {p : ProviderSession}
    {row : SupervisedSession} (hrow : Recorded db p row)
    (hindexed : Indexed ((superseding db p).upsert row))
    (hfree : ∀ x ∈ db.sessions, x.sessionId = p.sessionId →
      x.agentId ≠ p.agentId → ¬ Superseded db p.sessionId .running)
    {y : SupervisedSession} (hy : y ∈ superseding db p)
    (hne : y.sessionId ≠ row.sessionId) (hlive : y.live = true) :
    y.agentId ≠ row.agentId := by
  intro hagent
  obtain ⟨y₀, hy₀, -, -, hcase⟩ := endSessions_mem hy
  rcases hcase with ⟨rfl, hkept⟩ | hended
  · have hother : y.agentId ≠ p.agentId := by
      intro heq
      refine hkept ⟨heq, fun hsome => hne ?_, hlive⟩
      rw [hrow.sessionId]
      exact Option.some.inj hsome
    rcases hrow.agentId with heq | ⟨x, hx, hxid, hxa⟩
    · exact hother (hagent.trans heq)
    have hyx : y.agentId = x.agentId := hagent.trans hxa
    have hstays := hfree x hx hxid fun heq => hother (hyx.trans heq)
    cases hlive₀ : x.live with
    | true =>
        have hsame : y = x := h y hy₀ x hx hyx hlive hlive₀
        exact hne (by rw [hsame, hxid, hrow.sessionId])
    | false =>
        by_cases hrunning : y.state = .running
        · refine hne (congrArg _ (hindexed.one ?_ ?_ hagent hrunning
            hrow.running))
          · exact Table.mem_upsert.mpr (.inr ⟨hy, hne⟩)
          · exact Table.mem_upsert.mpr (.inl rfl)
        · exact hstays ⟨x, hx, hxid, hlive₀, y, hy₀, hyx, hlive,
            fun hboth => hrunning hboth.2⟩
  · rw [hended] at hlive
    cases hlive

theorem OneLive.upsert (h : OneLive db) {p : ProviderSession}
    {row : SupervisedSession} (hrow : Recorded db p row)
    (hindexed : Indexed ((superseding db p).upsert row))
    (hfree : ∀ x ∈ db.sessions, x.sessionId = p.sessionId →
      x.agentId ≠ p.agentId → ¬ Superseded db p.sessionId .running) :
    OneLive { db with sessions := (superseding db p).upsert row } := by
  have hothers : OneLive { db with sessions := superseding db p } :=
    h.endSessions _ _ _ _
  intro x hx y hy hagent hlive hlive'
  rcases Table.mem_upsert.mp hx with hxrow | ⟨hxold, hxne⟩ <;>
    rcases Table.mem_upsert.mp hy with hyrow | ⟨hyold, hyne⟩
  · exact hxrow.trans hyrow.symm
  · rw [hxrow] at hagent
    exact absurd hagent.symm (h.apart hrow hindexed hfree hyold hyne hlive')
  · rw [hyrow] at hagent
    exact absurd hagent (h.apart hrow hindexed hfree hxold hxne hlive)
  · exact hothers x hxold y hyold hagent hlive hlive'

/-! ## A rolled-back reset -/

theorem latestSession_mem {sessions : SupervisedSessions} {agentId : AgentId}
    {x : SupervisedSession} (h : latestSession sessions agentId = some x) :
    x ∈ sessions ∧ x.agentId = agentId := by
  have hmem := List.mem_of_getLast? h
  obtain ⟨hx, hagent⟩ := List.mem_filter.mp hmem
  exact ⟨hx, of_decide_eq_true hagent⟩

theorem latestSession_map {sessions : SupervisedSessions}
    {f : SupervisedSession → SupervisedSession}
    (hid : ∀ x, (f x).sessionId = x.sessionId)
    (hagent : ∀ x, (f x).agentId = x.agentId) (agentId : AgentId) :
    latestSession (sessions.map f hid) agentId =
      (latestSession sessions agentId).map f := by
  have hsame : (fun s : SupervisedSession => decide (s.agentId = agentId)) ∘ f =
      fun s => decide (s.agentId = agentId) := by
    funext s
    simp only [Function.comp, hagent]
  simp only [latestSession, Table.map, List.filter_map, hsame,
    List.getLast?_map]

/-- The latest session of each attached agent has no live successor. -/
def Ready (agents : List Agent) (db : SessionDb) : Prop :=
  ∀ agent ∈ agents, Agent.attached agent = true →
    ∀ x, latestSession db.sessions agent.agentId = some x →
      ¬ Superseded db x.sessionId .running

theorem Ready.reactivated {agents : List Agent} (h : Ready agents db)
    {agent : Agent} {x : SupervisedSession}
    (hx : latestSession db.sessions agent.agentId = some x) (stamp : String) :
    Ready agents { db with sessions := reactivated db x stamp } := by
  obtain ⟨hxmem, hxagent⟩ := latestSession_mem hx
  intro other hother hattached y hy
  rintro ⟨z, hz, hzid, hzdead, w, hw, hwz, hwlive, hboth⟩
  unfold Supervision.reactivated Table.update at hy
  rw [latestSession_map _ fun s => by split <;> rfl] at hy
  obtain ⟨y₀, hy₀, hyy₀⟩ := Option.map_eq_some_iff.mp hy
  obtain ⟨hy₀mem, hy₀agent⟩ := latestSession_mem hy₀
  have hyid : y.sessionId = y₀.sessionId := by
    rw [← hyy₀]
    split <;> rfl
  have hz' : z ∈ db.sessions.update x.sessionId
      (SupervisedSession.reactivate stamp) fun _ => rfl := hz
  have hw' : w ∈ db.sessions.update x.sessionId
      (SupervisedSession.reactivate stamp) fun _ => rfl := hw
  rcases Table.mem_update.mp hz' with ⟨z₀, -, -, rfl⟩ | ⟨hz₀, hzne⟩
  · -- The dead row would be the one just revived.
    simp [SupervisedSession.live, SupervisedSession.reactivate] at hzdead
  have hzy : z = y₀ := Table.eq_of_key hz₀ hy₀mem (hzid.trans hyid)
  rcases Table.mem_update.mp hw' with ⟨w₀, hw₀, hwid, rfl⟩ | ⟨hw₀, -⟩
  · -- The live row is the one just revived, so both are its agent's latest.
    have hwx : w₀ = x := Table.eq_of_key hw₀ hxmem hwid
    have hsame : other.agentId = agent.agentId := by
      rw [← hy₀agent, ← hxagent, ← hzy, ← hwx]
      exact hwz.symm
    rw [hsame, hx] at hy₀
    exact hzne (by rw [hzy, ← Option.some.inj hy₀])
  · refine h other hother hattached y₀ hy₀ ?_
    exact ⟨z, hz₀, hzid.trans hyid, hzdead, w, hw₀, hwz, hwlive, hboth⟩

/-- What holds of the rows: one live session for an agent, and the indexes. -/
structure Sound (db : SessionDb) : Prop where
  one : OneLive db
  indexed : Indexed db.sessions

theorem Sound.restore {agents : List Agent} {stamp : String} {u : Unit}
    (h : Sound db) (hready : Ready agents db)
    (hrun : restoreProviderSessionsForAgents agents stamp db = .ok (u, db')) :
    Sound db' := by
  suffices hloop : ∀ (l : List Agent) (db : SessionDb), l ⊆ agents →
      Sound db → Ready agents db →
      l.forM (restoreProviderSession stamp) db = .ok (u, db') → Sound db' from
    hloop agents db (List.Subset.refl _) h hready hrun
  intro l
  induction l with
  | nil =>
      intro db _ hsound _ hrun
      cases Txn.forM_nil_ok.mp hrun
      exact hsound
  | cons agent rest ih =>
      intro db hsub hsound hready hrun
      obtain ⟨m, hhead, hrest⟩ := Txn.forM_cons_ok.mp hrun
      have hsub' : rest ⊆ agents := fun a ha => hsub (List.mem_cons_of_mem _ ha)
      rcases restoreProviderSession_ok hhead with
        rfl | ⟨x, hattached, hx, hindexed, rfl⟩
      · exact ih _ hsub' hsound hready hrest
      · have hstays : ¬ Superseded db x.sessionId .running :=
          hready agent (hsub List.mem_cons_self) hattached x hx
        have hone := @OneLive.update _ hsound.one x.sessionId .running
          (SupervisedSession.reactivate stamp) (fun _ => rfl) (fun _ => rfl)
          (fun _ => rfl) hindexed (.inr hstays)
        exact ih _ hsub' ⟨hone, hindexed⟩ (hready.reactivated hx stamp) hrest

/-! ## Stored decisions -/

theorem Sound.decision {sessionId : String} {state : SessionState}
    {reason : Option String} {options : StateOptions} {now : Int} {b : Bool}
    (h : Sound db)
    (hfree : state = .offline ∨ ¬ Superseded db sessionId state)
    (hrun : setSessionState dates now sessionId state reason options db =
      .ok (b, db')) : Sound db' := by
  rcases setSessionState_ok hrun with ⟨rfl, -⟩ | ⟨hindexed, rfl⟩
  · exact h
  · have hone := @OneLive.update _ h.one sessionId state
      (SupervisedSession.decide dates state reason options now) (fun _ => rfl)
      (fun _ => rfl) (fun _ => rfl) hindexed hfree
    exact ⟨hone, hindexed⟩

theorem running_sublist {f : SupervisedSession → SupervisedSession}
    (hf : ∀ x, f x = x ∨ (f x).state ≠ .running) (rows : List SupervisedSession) :
    (((rows.map f).filter fun s => s.state = .running).map
        SupervisedSession.agentId).Sublist
      ((rows.filter fun s => s.state = .running).map
        SupervisedSession.agentId) := by
  induction rows with
  | nil => exact List.Sublist.slnil
  | cons x rest ih =>
      rcases hf x with hsame | hstopped
      · by_cases hx : x.state = .running
        · simp only [List.map_cons, hsame, List.filter_cons_of_pos, hx,
            decide_true]
          exact ih.cons_cons _
        · simp only [List.map_cons, hsame, List.filter_cons, hx,
            decide_false]
          exact ih
      · have hcons : ((f x :: rest.map f).filter fun s => s.state = .running) =
            (rest.map f).filter fun s => s.state = .running := by
          simp [hstopped]
        rw [List.map_cons, hcons]
        by_cases hx : x.state = .running
        · simp only [List.filter_cons, hx, decide_true]
          exact ih.cons _
        · simp only [List.filter_cons, hx, decide_false]
          exact ih

theorem Indexed.decided (h : Indexed db.sessions) {sessionId : String}
    {state : SessionState} (hstate : state ≠ .running) (reason : Option String)
    (options : StateOptions) (now : Int) :
    Indexed (decided dates db sessionId state reason options now) := by
  refine ⟨h.running.sublist (running_sublist (fun x => ?_) _), ?_⟩
  · split
    · exact .inr hstate
    · exact .inl rfl
  · have hsame : (SupervisedSession.credentialHash ∘ fun x : SupervisedSession =>
        if x.sessionId = sessionId then
          SupervisedSession.decide dates state reason options now x
        else x) = SupervisedSession.credentialHash := by
      funext x
      simp only [Function.comp]
      split <;> rfl
    have hcred := h.credential
    simp only [credentials, Supervision.decided, Table.update, Table.map,
      List.filterMap_map, hsame] at hcred ⊢
    exact hcred

theorem setSessionState_stored {sessionId : String} {state : SessionState}
    {reason : Option String} {options : StateOptions} {now : Int}
    (h : Indexed db.sessions) (hstate : state ≠ .running)
    {x : SupervisedSession} (hx : x ∈ db.sessions)
    (hid : x.sessionId = sessionId)
    (hvalid : validateEventObject dates
      (reconciledEvent db.runs x state reason options.outcome
        (dates.toISOString now)) = []) :
    ∃ r, setSessionState dates now sessionId state reason options db =
      .ok r := by
  have hfind : db.sessions.find? sessionId = some x :=
    Table.find?_eq_some.mpr ⟨hx, hid⟩
  have hindexed : Indexed (db.sessions.update sessionId
      (SupervisedSession.decide dates state reason options now)
      fun _ => rfl) := h.decided hstate reason options now
  by_cases hsame : x.state = state ∧ x.stateReason = reason ∧
      x.ownerId = options.ownerId.or x.ownerId
  · refine ⟨(false, db), ?_⟩
    simp only [setSessionState, Txn.bind_ok, Txn.get_ok]
    refine ⟨db, db, ⟨rfl, rfl⟩, ?_⟩
    simp only [hfind]
    rw [if_pos hsame]
    rfl
  · refine ⟨(true, { db with
      sessions := decided dates db sessionId state reason options now }), ?_⟩
    simp only [setSessionState, Txn.bind_ok, Txn.get_ok]
    refine ⟨db, db, ⟨rfl, rfl⟩, ?_⟩
    simp only [hfind]
    rw [if_neg hsame]
    simp only [Txn.bind_ok, Txn.throwIf_ok, Txn.pure_ok]
    exact ⟨(), _, storeSessions_of_indexed hindexed, (), _,
      ⟨not_not.mpr hvalid, rfl⟩, trivial, rfl⟩

/-! ## Runs in time -/

/-- What is recorded of the session is still what the pass has listed. -/
def SameIdentity (x head : SupervisedSession) : Prop :=
  x.processPid = head.processPid ∧ x.processStart = head.processStart

/-- What is recorded of the session is what the probe has read. -/
def ReadIdentity (x : SupervisedSession) (inspection : SessionInspection) :
    Prop :=
  x.processPid = inspection.pid ∧ x.processStart = inspection.processStart ∧
    x.processStart ≠ none

/--
The answer of a probe comes in time: it brings back no session that has a
successor, what it adopts is still recorded as the process that was looked for,
and what it does not adopt is recorded under ids that its event may carry.
-/
structure InTime (dates : DateApi) (db : SessionDb)
    (head : SupervisedSession) (inspection : Option SessionInspection)
    (same : Bool) (now : Int) : Prop where
  alone : (classifySession same head inspection).state ≠ .offline →
    ¬ Superseded db head.sessionId (classifySession same head inspection).state
  adopted : (classifySession same head inspection).state = .running →
    ∀ x ∈ db.sessions, x.sessionId = head.sessionId →
      SameIdentity x head ∨ ∃ read ∈ inspection, ReadIdentity x read
  audited : (classifySession same head inspection).state ≠ .running →
    ∀ x ∈ db.sessions, x.sessionId = head.sessionId → x.state = .running →
      validateEventObject dates
        (reconciledEvent db.runs x (classifySession same head inspection).state
          (classifySession same head inspection).reason
          (some (classifySession same head inspection).outcome)
          (dates.toISOString now)) = []

def Timely (dates : DateApi) (s : Supervisor) : SessionLabel → Prop
  | .record p => ∀ x ∈ s.db.sessions, x.sessionId = p.sessionId →
      x.agentId ≠ p.agentId → ¬ Superseded s.db p.sessionId .running
  | .restore agents _ => Ready agents s.db
  | .set sessionId state _ _ _ =>
      state ≠ .offline → ¬ Superseded s.db sessionId state
  | .probed i inspection same now =>
      ∀ pass head rest, s.passes[i]? = some pass →
        pass.pending = head :: rest →
          InTime dates s.db head inspection same now
  | _ => True

/--
The process that the probe found has this pid and start: it reads so, or the
process table took it for the one recorded when the pass listed the session.
-/
def LiveProcess (head : SupervisedSession) (inspection : SessionInspection)
    (same : Bool) (pid : Nat) (start : String) : Prop :=
  inspection.alive = true ∧ inspection.pid = some pid ∧
    (inspection.processStart = some start ∨
      (same = true ∧ "ps:".isPrefixOf start = true ∧
        head.processStart = some start))

/-- A probed session left running is recorded as the process that was found. -/
def TrustsProbe (s : Supervisor) (l : SessionLabel) (t : Supervisor) : Prop :=
  ∀ i inspection same now pass head rest, l = .probed i inspection same now →
    s.passes[i]? = some pass → pass.pending = head :: rest →
    ∀ x ∈ t.db.sessions, x.sessionId = head.sessionId → x.state = .running →
      ∃ read ∈ inspection, ∃ pid start, x.processPid = some pid ∧
        x.processStart = some start ∧ LiveProcess head read same pid start

/-! ## What one step keeps -/

theorem commit_sound {α : Type} {x : SessionTxn α} (h : Sound db)
    (hx : ∀ a db', x db = .ok (a, db') → Sound db') : Sound (x.commit db) := by
  rcases Txn.commit_cases x db with ⟨a, hrun⟩ | hsame
  · exact hx a _ hrun
  · rw [hsame]
    exact h

theorem store_db (s : Supervisor) (i : Nat) (pass : Pass)
    (head : SupervisedSession) (rest : List SupervisedSession)
    (decision : Decision) (now : Int) :
    (s.store dates i pass head rest decision now).db =
      (setSessionState dates now head.sessionId decision.state
        decision.reason (pass.options decision)).commit s.db := by
  unfold Supervisor.store Txn.commit
  split <;> rename_i hrun <;> rw [hrun]

theorem Sound.store (h : Sound s.db) {i : Nat} {pass : Pass}
    {head : SupervisedSession} {rest : List SupervisedSession}
    {decision : Decision} {now : Int}
    (hfree : decision.state = .offline ∨
      ¬ Superseded s.db head.sessionId decision.state) :
    Sound (s.store dates i pass head rest decision now).db := by
  rw [store_db]
  exact commit_sound h fun _ _ hrun => h.decision hfree hrun

theorem Sound.examine (h : Sound s.db) {i : Nat} {pass : Pass}
    {head : SupervisedSession} {rest : List SupervisedSession} {now : Int} :
    Sound (s.examine dates i pass head rest now).db := by
  unfold Supervisor.examine
  dsimp only
  split
  · exact h
  split
  · exact h
  · exact h.store (.inl rfl)

theorem Sound.replaceRuns (h : Sound db) (runs : Runs) :
    Sound (db.replaceRuns runs) := by
  refine ⟨h.one.ended fun x hx => ?_, ?_, ?_⟩
  · have hx' : x ∈ db.sessions.map (SupervisedSession.setNull runs)
        fun _ => rfl := hx
    obtain ⟨x₀, hx₀, rfl⟩ := Table.mem_map.mp hx'
    exact ⟨x₀, hx₀, rfl, rfl, id⟩
  · have hrunning := h.indexed.running
    simp only [runningAgents, SessionDb.replaceRuns, Table.map,
      List.filter_map, List.map_map] at hrunning ⊢
    exact hrunning
  · have hcredential := h.indexed.credential
    simp only [credentials, SessionDb.replaceRuns, Table.map,
      List.filterMap_map] at hcredential ⊢
    exact hcredential

theorem Sound.step (h : Sound s.db) (hok : Timely dates s l)
    (hstep : supervise dates s l = some t) : Sound t.db := by
  cases l with
  | runs runs =>
      cases hstep
      exact h.replaceRuns runs
  | record p =>
      cases hstep
      refine commit_sound h fun _ _ hrun => ?_
      rcases recordProviderSession_ok hrun with rfl | ⟨row, hrow, hindexed, rfl⟩
      · exact h
      · exact ⟨h.one.upsert hrow hindexed hok, hindexed⟩
  | close agentId stamp =>
      cases hstep
      refine commit_sound h fun _ _ hrun => ?_
      simp only [closeProviderSessionsForAgent, Txn.bind_ok, Txn.get_ok] at hrun
      obtain ⟨_, _, ⟨rfl, rfl⟩, hrun⟩ := hrun
      obtain ⟨hindexed, rfl⟩ := storeSessions_ok hrun
      exact ⟨h.one.endSessions _ _ _ _, hindexed⟩
  | restore agents stamp =>
      cases hstep
      exact commit_sound h fun _ _ hrun => h.restore hok hrun
  | set sessionId state reason options now =>
      cases hstep
      refine commit_sound h fun _ _ hrun => h.decision ?_ hrun
      by_cases hoffline : state = .offline
      · exact .inl hoffline
      · exact .inr (hok hoffline)
  | reconcile owner ownerTtlMs agents =>
      cases hstep
      exact h
  | examine i now =>
      simp only [supervise] at hstep
      split at hstep <;> [skip; cases hstep]
      split at hstep <;> [skip; cases hstep]
      cases hstep
      exact h.examine
  | probed i inspection same now =>
      simp only [supervise] at hstep
      split at hstep <;> [skip; cases hstep]
      rename_i pass hpass
      split at hstep <;> [skip; cases hstep]
      rename_i head rest hpending _
      cases hstep
      refine h.store ?_
      by_cases hoffline : (classifySession same head inspection).state = .offline
      · exact .inl hoffline
      · exact .inr ((hok pass head rest hpass hpending).alone hoffline)
  | rejected i =>
      simp only [supervise] at hstep
      split at hstep <;> cases hstep
      exact h

/-! ## Adoption -/

theorem classifySession_running {same : Bool} {head : SupervisedSession}
    {inspection : Option SessionInspection}
    (h : (classifySession same head inspection).state = .running) :
    ∃ read ∈ inspection, ∃ pid start, head.processPid = some pid ∧
      head.processStart = some start ∧
      LiveProcess head read same pid start := by
  cases inspection with
  | none => cases h
  | some read =>
      refine ⟨read, rfl, ?_⟩
      unfold classifySession at h
      dsimp only at h
      split at h
      · cases h
      rename_i halive
      split at h
      · cases h
      rename_i hrecorded
      split at h
      · cases h
      rename_i hmatch
      simp only [Bool.not_eq_true', Bool.not_eq_false] at halive
      cases hpid : head.processPid with
      | none => simp [hpid] at hrecorded
      | some pid =>
          cases hstart : head.processStart with
          | none => simp [hstart] at hrecorded
          | some start =>
              simp only [identityMismatch, hpid, hstart, halive,
                Bool.true_and, Bool.or_eq_true, decide_eq_true_eq,
                Bool.and_eq_true, Bool.not_eq_true', Bool.and_eq_false_iff,
                not_or, not_and, not_not] at hmatch
              refine ⟨pid, start, rfl, rfl, halive, hmatch.1, ?_⟩
              by_cases hread : read.processStart = some start
              · exact .inl hread
              · have hps := hmatch.2 hread
                simp only [Bool.not_eq_false] at hps
                exact .inr ⟨hps.2, hps.1, hstart⟩

theorem setSessionState_running {sessionId : String} {state : SessionState}
    {reason : Option String} {options : StateOptions} {now : Int}
    {x : SupervisedSession}
    (hx : x ∈ ((setSessionState dates now sessionId state reason
      options).commit db).sessions)
    (hid : x.sessionId = sessionId) (hrunning : x.state = .running) :
    ∃ x₀ ∈ db.sessions, x₀.sessionId = sessionId ∧
      x.processPid = x₀.processPid ∧ x.processStart = x₀.processStart ∧
      (state = .running ∨ (x = x₀ ∧ ∃ e, setSessionState dates now sessionId
        state reason options db = .error e)) := by
  unfold Txn.commit at hx
  split at hx
  · rename_i hrun
    rcases setSessionState_ok hrun with ⟨rfl, hsame⟩ | ⟨-, rfl⟩
    · refine ⟨x, hx, hid, rfl, rfl, .inl ?_⟩
      exact (hsame x hx hid).symm.trans hrunning
    · have hx' : x ∈ db.sessions.update sessionId
          (SupervisedSession.decide dates state reason options now)
          fun _ => rfl := hx
      rcases Table.mem_update.mp hx' with ⟨x₀, hx₀, hid₀, rfl⟩ | ⟨-, hne⟩
      · exact ⟨x₀, hx₀, hid₀, rfl, rfl, .inl hrunning⟩
      · exact absurd hid hne
  · rename_i e hrun
    exact ⟨x, hx, hid, rfl, rfl, .inr ⟨rfl, e, hrun⟩⟩

theorem Sound.trustsProbe (h : Sound s.db) (hok : Timely dates s l)
    (hstep : supervise dates s l = some t) : TrustsProbe s l t := by
  rintro i inspection same now pass head rest rfl hpass hpending x hx hid
    hrunning
  have htime := hok pass head rest hpass hpending
  have hdb : t.db = (setSessionState dates now head.sessionId
      (classifySession same head inspection).state
      (classifySession same head inspection).reason
      (pass.options (classifySession same head inspection))).commit s.db := by
    cases hawaiting : pass.awaiting with
    | false => simp [supervise, hpass, hpending, hawaiting] at hstep
    | true =>
        simp only [supervise, hpass, hpending, hawaiting,
          Option.some.injEq] at hstep
        rw [← hstep, store_db]
  rw [hdb] at hx
  obtain ⟨x₀, hx₀, hid₀, hpid, hstart, hcase⟩ :=
    setSessionState_running hx hid hrunning
  by_cases hadopted : (classifySession same head inspection).state = .running
  · obtain ⟨read, hread, pid, start, hheadPid, hheadStart, hlive⟩ :=
      classifySession_running hadopted
    rcases htime.adopted hadopted x₀ hx₀ hid₀ with
      ⟨hpid', hstart'⟩ | ⟨read', hread', hpid', hstart', hsome⟩
    · refine ⟨read, hread, pid, start, ?_, ?_, hlive⟩
      · rw [hpid, hpid', hheadPid]
      · rw [hstart, hstart', hheadStart]
    · have hsame : read' = read := by
        rw [Option.mem_def] at hread hread'
        exact Option.some.inj (hread'.symm.trans hread)
      obtain ⟨start', hstart''⟩ := Option.ne_none_iff_exists'.mp hsome
      subst hsame
      refine ⟨read', hread', pid, start', ?_, ?_, hlive.1, hlive.2.1, .inl ?_⟩
      · rw [hpid, hpid', hlive.2.1]
      · rw [hstart, hstart'']
      · rw [← hstart', hstart'']
  · -- The refused verdict would have been stored.
    rcases hcase with hadopted' | ⟨rfl, e, hthrown⟩
    · exact absurd hadopted' hadopted
    · have hvalid := htime.audited hadopted x hx₀ hid₀ hrunning
      obtain ⟨r, hr⟩ : ∃ r, setSessionState dates now head.sessionId
          (classifySession same head inspection).state
          (classifySession same head inspection).reason
          (pass.options (classifySession same head inspection)) s.db = .ok r :=
        setSessionState_stored h.indexed hadopted hx₀ hid₀ hvalid
      rw [hr] at hthrown
      cases hthrown

/--
As long as what is brought back has no live successor and a probe's answer comes
in time, every agent has one live session, and a session that a probe leaves
running is recorded as the process that was found.
-/
theorem one_live_session
    (h : (supervision dates).ReachableUnder (Timely dates) s) :
    OneLive s.db ∧ ∀ l t, Timely dates s l → supervise dates s l = some t →
      TrustsProbe s l t := by
  have hsound : Sound s.db := by
    refine System.ReachableUnder.invariant (I := fun s => Sound s.db) ?_
      (fun _ _ _ _ hs hok hstep => hs.step hok hstep) h
    rintro s ⟨hone, hindexed, -⟩
    exact ⟨hone, hindexed⟩
  exact ⟨hsound.one, fun _ _ hok hstep => hsound.trustsProbe hok hstep⟩

/-! One worker, whose session is listed, probed and adopted in time; and what a
late answer does when the worker was launched again meanwhile. -/

def launchOf (sessionId : String) (pid : Nat) : ProviderSession where
  sessionId := sessionId
  runId := none
  agentId := "orc-1"
  provider := "claude"
  startedAt := "1970-01-01T00:00:00.000Z"
  processPid := some pid
  processStart := some "boot:1"

def workerAgent : Agent where
  agentId := "orc-1"
  status := .running
  role := some .worker
  sessionHandle := some "pty:orc-1"
  sessionToken := some "session-1"

def sessionRow : SupervisedSession := (launchOf "session-1" 10).row

def oneSession : Supervisor where
  db := { sessions := ⟨[sessionRow], by decide⟩ }

def readOf (pid : Nat) (writable : Bool) : Option SessionInspection :=
  some
    { alive := true, writable := writable, pid := some pid
      processStart := some "boot:1" }

def listed : List SessionLabel :=
  [.reconcile "coordinator" SESSION_OWNER_TTL_MS [workerAgent], .examine 0 1]

def awaitingPass : Pass where
  owner := "coordinator"
  agents := [workerAgent]
  pending := [sessionRow]
  awaiting := true

def probing : Supervisor := { oneSession with passes := [awaitingPass] }

def adopts : SessionLabel := .probed 0 (readOf 10 true) false 2

theorem oneSession_initial : (supervision DateApi.epoch).initial oneSession := by
  refine ⟨?_, ⟨by decide, by decide⟩, rfl⟩
  intro x hx y hy _ _ _
  rw [List.mem_singleton.mp hx, List.mem_singleton.mp hy]

theorem run_listed :
    (supervision DateApi.epoch).run oneSession listed = some probing := by
  decide +kernel

theorem probing_inTime : Timely DateApi.epoch probing adopts := by
  intro pass head rest hpass hpending
  cases hpass
  cases hpending
  have hone : ∀ x ∈ probing.db.sessions, x = sessionRow :=
    fun x hx => List.mem_singleton.mp hx
  refine ⟨fun _ => ?_, fun _ x hx _ => ?_, fun hne => ?_⟩
  · rintro ⟨x, hx, -, hdead, -⟩
    rw [hone x hx] at hdead
    revert hdead
    decide
  · rw [hone x hx]
    exact .inl ⟨rfl, rfl⟩
  · exact absurd (by decide) hne

theorem one_live_session_adopted :
    ∃ t, supervise DateApi.epoch probing adopts = some t ∧
      (t.db.sessions.rows.map fun x => (x.state, x.ownerId)) =
        [(.running, some "coordinator")] ∧
      OneLive probing.db ∧ TrustsProbe probing adopts t := by
  obtain ⟨t, hstep, hend⟩ := Option.map_eq_some_iff.mp
    (by decide +kernel : (supervise DateApi.epoch probing adopts).map
      (fun t => t.db.sessions.rows.map fun x => (x.state, x.ownerId)) =
        some [(.running, some "coordinator")])
  have hreach : (supervision DateApi.epoch).ReachableUnder
      (Timely DateApi.epoch) probing := by
    refine System.ReachableUnder.run (.initial oneSession_initial) ?_ run_listed
    refine System.along_of_run ?_ run_listed
    intro a ha m
    simp only [listed, List.mem_cons, List.not_mem_nil, or_false] at ha
    rcases ha with rfl | rfl <;> trivial
  obtain ⟨hone, htrusts⟩ := one_live_session hreach
  exact ⟨t, hstep, hend, hone, htrusts _ _ probing_inTime hstep⟩

def relaunchedRow : SupervisedSession :=
  (launchOf "session-1" 20).again sessionRow

def relaunched : Supervisor where
  db := { sessions := ⟨[relaunchedRow], by decide⟩ }
  passes := [awaitingPass]

/-- A late answer revives a session beside its successor, or adopts a new pid. -/
theorem not_one_live_session :
    (∃ s, (supervision DateApi.epoch).Reachable s ∧ ¬ OneLive s.db) ∧
      ∃ s l t, (supervision DateApi.epoch).Reachable s ∧
        supervise DateApi.epoch s l = some t ∧ ¬ TrustsProbe s l t := by
  have hstart : (supervision DateApi.epoch).Reachable oneSession :=
    .initial oneSession_initial
  refine ⟨?_, relaunched, adopts, ?_⟩
  · obtain ⟨s, hs, hend⟩ := (supervision DateApi.epoch).exists_run_of_map
      (f := fun s => s.db.sessions.rows.map fun x =>
        (x.sessionId, x.agentId, x.state))
      (by decide +kernel :
        ((supervision DateApi.epoch).run oneSession
          (listed ++ [.record (launchOf "session-2" 20),
            .probed 0 (readOf 10 false) false 2])).map
          (fun s => s.db.sessions.rows.map fun x =>
            (x.sessionId, x.agentId, x.state)) =
              some [("session-1", "orc-1", .recoverable),
                ("session-2", "orc-1", .running)])
    refine ⟨s, System.Reachable.run hstart hs, fun hone => ?_⟩
    obtain ⟨x, rest, hrows, hx, hrest⟩ := List.map_eq_cons_iff.mp hend
    obtain ⟨y, rest', rfl, hy, -⟩ := List.map_eq_cons_iff.mp hrest
    have hxy : x = y := by
      refine hone x ?_ y ?_ ?_ ?_ ?_
      · simp [Table.mem_rows, hrows]
      · simp [Table.mem_rows, hrows]
      · simp only [Prod.mk.injEq] at hx hy
        rw [hx.2.1, hy.2.1]
      · simp only [Prod.mk.injEq] at hx
        simp [SupervisedSession.live, hx.2.2]
      · simp only [Prod.mk.injEq] at hy
        simp [SupervisedSession.live, hy.2.2]
    rw [hxy, hy] at hx
    revert hx
    decide
  · obtain ⟨t, hstep, hend⟩ := Option.map_eq_some_iff.mp
      (by decide +kernel : (supervise DateApi.epoch relaunched adopts).map
        (fun t => t.db.sessions.rows.map fun x =>
          (x.sessionId, x.state, x.processPid)) =
            some [("session-1", .running, some 20)])
    refine ⟨t, ?_, hstep, fun htrusts => ?_⟩
    · have hrun : (supervision DateApi.epoch).run oneSession
          (listed ++ [.record (launchOf "session-1" 20)]) = some relaunched := by
        decide +kernel
      exact System.Reachable.run hstart hrun
    · obtain ⟨x, rest, hrows, hx, -⟩ := List.map_eq_cons_iff.mp hend
      simp only [Prod.mk.injEq] at hx
      obtain ⟨read, hread, pid, start, hpid, -, hlive⟩ :=
        htrusts 0 _ false 2 awaitingPass sessionRow [] rfl rfl rfl x
          (by simp [Table.mem_rows, hrows]) hx.1 hx.2.1
      cases hread
      have hten : some 10 = some pid := hlive.2.1
      rw [← hpid, hx.2.2] at hten
      revert hten
      decide

end OrcState.Supervision
