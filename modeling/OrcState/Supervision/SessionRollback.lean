import OrcState.Supervision.OneLive
import OrcState.Supervision.SessionReset

/-!
# The sessions of a rolled-back reset

The reset closes the live sessions of the agents that have a handle, and the
rollback reopens the latest session of each of them that was running.  Both are
maps over the rows: which session is the latest of its agent does not depend on
the states, so neither statement breaks the index and neither call is refused.
-/

namespace OrcState.Supervision

open OrcState.Contract OrcState.Foundation OrcState.Store OrcState.Lifecycle
open OrcState.Foundation.Effect

variable {w : Workspace} {db : SessionDb} {S : SupervisedSessions}

/-! ## Maps over the rows -/

structure KeepsOwner (f : SupervisedSession → SupervisedSession) : Prop where
  sessionId : ∀ x, (f x).sessionId = x.sessionId
  agentId : ∀ x, (f x).agentId = x.agentId
  credentialHash : ∀ x, (f x).credentialHash = x.credentialHash

def latestId (S : SupervisedSessions) (agentId : AgentId) : Option String :=
  (latestSession S agentId).map SupervisedSession.sessionId

theorem latestId_map {f : SupervisedSession → SupervisedSession}
    (hf : KeepsOwner f) (agentId : AgentId) :
    latestId (S.map f hf.sessionId) agentId = latestId S agentId := by
  rw [latestId, latestSession_map hf.sessionId hf.agentId, Option.map_map]
  have hsame : SupervisedSession.sessionId ∘ f = SupervisedSession.sessionId :=
    funext hf.sessionId
  rw [hsame, latestId]

theorem credentials_map {f : SupervisedSession → SupervisedSession}
    (hf : KeepsOwner f) : credentials (S.map f hf.sessionId) = credentials S := by
  have hsame : SupervisedSession.credentialHash ∘ f =
      SupervisedSession.credentialHash := funext hf.credentialHash
  simp only [credentials, Table.map, List.filterMap_map, hsame]

theorem KeepsOwner.comp {f g : SupervisedSession → SupervisedSession}
    (hg : KeepsOwner g) (hf : KeepsOwner f) : KeepsOwner (g ∘ f) where
  sessionId x := (hg.sessionId _).trans (hf.sessionId x)
  agentId x := (hg.agentId _).trans (hf.agentId x)
  credentialHash x := (hg.credentialHash _).trans (hf.credentialHash x)

theorem indexed_of_one
    (hone : ∀ x, x ∈ S → ∀ y, y ∈ S → x.state = .running →
      y.state = .running → x.agentId = y.agentId → x = y)
    (hcredential : (credentials S).Nodup) : Indexed S := by
  refine ⟨List.Nodup.map_on ?_ (List.Nodup.filter _ ?_), hcredential⟩
  · intro x hx y hy hagent
    obtain ⟨hx, hrunning⟩ := List.mem_filter.mp hx
    obtain ⟨hy, hrunning'⟩ := List.mem_filter.mp hy
    exact hone x hx y hy (of_decide_eq_true hrunning)
      (of_decide_eq_true hrunning') hagent
  · exact List.Nodup.of_map _ S.nodup

/-! ## The reset -/

def handled (agents : List Agent) (agentId : AgentId) : Bool :=
  agents.any fun a => agentId = a.agentId && truthy a.sessionHandle

def closing (agents : List Agent) (now : String) (x : SupervisedSession) :
    SupervisedSession :=
  if handled agents x.agentId = true ∧ x.live = true then
    x.close "session closed" now
  else x

theorem closing_keeps (agents : List Agent) (now : String) :
    KeepsOwner (closing agents now) := by
  constructor <;> intro x <;> unfold closing <;> split <;> rfl

theorem Indexed.closed (h : Indexed S) (agents : List Agent) (now : String) :
    Indexed (S.map (closing agents now) (closing_keeps agents now).sessionId) := by
  refine ⟨h.running.sublist (running_sublist (fun x => ?_) _), ?_⟩
  · unfold closing
    split
    · exact .inr fun hstate => nomatch hstate
    · exact .inl rfl
  · rw [credentials_map (closing_keeps agents now)]
    exact h.credential

theorem closing_cons (agent : Agent) (rest : List Agent) (now : String)
    (x : SupervisedSession) :
    closing rest now (closing [agent] now x) =
      closing (agent :: rest) now x := by
  have hcons : handled (agent :: rest) x.agentId =
      (handled [agent] x.agentId || handled rest x.agentId) := by
    simp [handled]
  by_cases hlive : x.live = true
  · cases hhead : handled [agent] x.agentId with
    | true =>
        have hdead : (x.close "session closed" now).live = false := rfl
        simp [closing, hcons, hhead, hlive, hdead]
    | false => simp [closing, hcons, hhead, hlive]
  · simp [closing, hlive]

theorem closing_nil (now : String) (x : SupervisedSession) :
    closing [] now x = x := by
  simp [closing, handled]

theorem onSessions_ok {α : Type} {x : SessionTxn α} {a : α}
    (h : x w.sessionDb = .ok (a, db)) :
    onSessions x w = (.ok a, { w with sessions := db.sessions }) := by
  unfold onSessions Effect.atomically
  rw [h]
  rfl

/-- The reset of the sessions is never refused. -/
theorem closeSessions_eq (h : Indexed w.sessions) (now : String)
    (agents : List Agent) :
    closeSessions now agents w =
      (.ok (), { w with
        sessions := w.sessions.map (closing agents now)
          (closing_keeps agents now).sessionId }) := by
  induction agents generalizing w with
  | nil =>
      have hsame : w.sessions.map (closing [] now)
          (closing_keeps [] now).sessionId = w.sessions := by
        refine Table.ext ?_
        have hid : closing [] now = id := funext (closing_nil now)
        simp only [Table.map, hid, List.map_id]
      rw [hsame]
      rfl
  | cons agent rest ih =>
      have hhead : (if truthy agent.sessionHandle then
          onSessions (closeProviderSessionsForAgent agent.agentId now)
        else pure ()) w = (.ok (), { w with
          sessions := w.sessions.map (closing [agent] now)
            (closing_keeps [agent] now).sessionId }) := by
        cases hhandle : truthy agent.sessionHandle with
        | false =>
            have hsame : w.sessions.map (closing [agent] now)
                (closing_keeps [agent] now).sessionId = w.sessions := by
              refine Table.ext ?_
              have hid : closing [agent] now = id := by
                funext x
                simp [closing, handled, hhandle]
              simp only [Table.map, hid, List.map_id]
            rw [hsame]
            rfl
        | true =>
            have hended : endSessions w.sessions agent.agentId none
                "session closed" now = w.sessions.map (closing [agent] now)
                  (closing_keeps [agent] now).sessionId := by
              refine Table.ext (List.map_congr_left fun x _ => ?_)
              simp [closing, handled, hhandle]
            have hclose : closeProviderSessionsForAgent agent.agentId now
                w.sessionDb = .ok ((), { w.sessionDb with
                  sessions := w.sessions.map (closing [agent] now)
                    (closing_keeps [agent] now).sessionId }) := by
              simp only [closeProviderSessionsForAgent, Txn.bind_ok, Txn.get_ok]
              refine ⟨w.sessionDb, w.sessionDb, ⟨rfl, rfl⟩, ?_⟩
              have hsessions : w.sessionDb.sessions = w.sessions := rfl
              rw [hsessions, hended]
              exact storeSessions_of_indexed (h.closed [agent] now)
            rw [if_pos rfl, onSessions_ok hclose]
      have hnext : Indexed ({ w with
          sessions := w.sessions.map (closing [agent] now)
            (closing_keeps [agent] now).sessionId } : Workspace).sessions :=
        h.closed [agent] now
      have hrest := ih hnext
      have hcons : closeSessions now (agent :: rest) =
          ((if truthy agent.sessionHandle then
              onSessions (closeProviderSessionsForAgent agent.agentId now)
            else pure ()) >>= fun _ => closeSessions now rest) := rfl
      rw [hcons, bind_of_ok hhead, hrest]
      have htable : (w.sessions.map (closing [agent] now)
          (closing_keeps [agent] now).sessionId).map (closing rest now)
            (closing_keeps rest now).sessionId =
          w.sessions.map (closing (agent :: rest) now)
            (closing_keeps (agent :: rest) now).sessionId := by
        refine Table.ext ((List.map_map ..).trans
          (List.map_congr_left fun x _ => closing_cons agent rest now x))
      rw [htable]

/-! ## The rollback -/

def reopened (S : SupervisedSessions) (agents : List Agent)
    (sessionId : String) : Bool :=
  agents.any fun a =>
    Agent.attached a && latestId S a.agentId = some sessionId

def reopening (S : SupervisedSessions) (agents : List Agent) (stamp : String)
    (x : SupervisedSession) : SupervisedSession :=
  if reopened S agents x.sessionId = true then x.reactivate stamp else x

theorem reopening_keeps (S : SupervisedSessions) (agents : List Agent)
    (stamp : String) : KeepsOwner (reopening S agents stamp) := by
  constructor <;> intro x <;> unfold reopening <;> split <;> rfl

theorem reopened_map {f : SupervisedSession → SupervisedSession}
    (hf : KeepsOwner f) (agents : List Agent) (sessionId : String) :
    reopened (S.map f hf.sessionId) agents sessionId =
      reopened S agents sessionId := by
  simp only [reopened, latestId_map hf]

theorem reopening_map {f : SupervisedSession → SupervisedSession}
    (hf : KeepsOwner f) (agents : List Agent) (stamp : String) :
    reopening (S.map f hf.sessionId) agents stamp =
      reopening S agents stamp := by
  funext x
  simp only [reopening, reopened_map hf]

theorem latestId_owner {agentId : AgentId} {x : SupervisedSession}
    (hx : x ∈ S) (h : latestId S agentId = some x.sessionId) :
    x.agentId = agentId := by
  obtain ⟨y, hy, hid⟩ := Option.map_eq_some_iff.mp h
  obtain ⟨hmem, hagent⟩ := latestSession_mem hy
  rw [← hagent, Table.eq_of_key hx hmem hid.symm]

/-- Of the agents to be taken up, only the latest sessions run. -/
structure Reopenable (agents : List Agent) (S : SupervisedSessions) : Prop where
  indexed : Indexed S
  latest : ∀ x, x ∈ S → x.state = .running → ∀ a ∈ agents,
    Agent.attached a = true → x.agentId = a.agentId →
      latestId S a.agentId = some x.sessionId

theorem reopened_one {a : Agent} {sessionId : String}
    (h : reopened S [a] sessionId = true) :
    Agent.attached a = true ∧ latestId S a.agentId = some sessionId := by
  simpa [reopened] using h

theorem reopening_running {a : Agent} {stamp : String} {x : SupervisedSession}
    (h : (reopening S [a] stamp x).state = .running) :
    x.state = .running ∨
      Agent.attached a = true ∧ latestId S a.agentId = some x.sessionId := by
  unfold reopening at h
  split at h
  · rename_i hreopened
    exact .inr (reopened_one hreopened)
  · exact .inl h

theorem Reopenable.step {agents : List Agent} (h : Reopenable agents S)
    {a : Agent} (ha : a ∈ agents) (stamp : String) :
    Reopenable agents (S.map (reopening S [a] stamp)
      (reopening_keeps S [a] stamp).sessionId) := by
  have hkeeps := reopening_keeps S [a] stamp
  have hlatest : ∀ x, x ∈ S → (reopening S [a] stamp x).state = .running →
      ∀ a' ∈ agents, Agent.attached a' = true → x.agentId = a'.agentId →
        latestId S a'.agentId = some x.sessionId := by
    intro x hx hrunning a' ha' hattached hagent
    rcases reopening_running hrunning with hran | ⟨-, hlast⟩
    · exact h.latest x hx hran a' ha' hattached hagent
    · rwa [← hagent, latestId_owner hx hlast]
  refine ⟨indexed_of_one ?_ ?_, ?_⟩
  · intro y hy z hz hrunning hrunning' hagent
    obtain ⟨x, hx, rfl⟩ := Table.mem_map.mp hy
    obtain ⟨x', hx', rfl⟩ := Table.mem_map.mp hz
    rw [hkeeps.agentId, hkeeps.agentId] at hagent
    suffices hsame : x = x' by rw [hsame]
    by_cases hlast : Agent.attached a = true ∧
        (latestId S a.agentId = some x.sessionId ∨
          latestId S a.agentId = some x'.sessionId)
    · obtain ⟨hattached, hlast⟩ := hlast
      have howner : x.agentId = a.agentId := by
        rcases hlast with hlast | hlast
        · exact latestId_owner hx hlast
        · exact hagent.trans (latestId_owner hx' hlast)
      have hfirst := hlatest x hx hrunning a ha hattached howner
      have hsecond := hlatest x' hx' hrunning' a ha hattached
        (hagent.symm.trans howner)
      exact Table.eq_of_key hx hx' (Option.some.inj (hfirst.symm.trans hsecond))
    · rcases reopening_running hrunning with hran | ⟨hattached, hlast'⟩
      · rcases reopening_running hrunning' with hran' | ⟨hattached, hlast'⟩
        · exact h.indexed.one hx hx' hagent hran hran'
        · exact absurd ⟨hattached, .inr hlast'⟩ hlast
      · exact absurd ⟨hattached, .inl hlast'⟩ hlast
  · rw [credentials_map hkeeps]
    exact h.indexed.credential
  · intro y hy hrunning a' ha' hattached hagent
    obtain ⟨x, hx, rfl⟩ := Table.mem_map.mp hy
    rw [hkeeps.agentId] at hagent
    rw [latestId_map hkeeps, hkeeps.sessionId]
    exact hlatest x hx hrunning a' ha' hattached hagent

theorem reopening_cons (a : Agent) (rest : List Agent) (stamp : String)
    (x : SupervisedSession) :
    reopening S rest stamp (reopening S [a] stamp x) =
      reopening S (a :: rest) stamp x := by
  have hcons : reopened S (a :: rest) x.sessionId =
      (reopened S [a] x.sessionId || reopened S rest x.sessionId) := by
    simp [reopened]
  have hid : (x.reactivate stamp).sessionId = x.sessionId := rfl
  cases hhead : reopened S [a] x.sessionId with
  | true =>
      simp only [reopening, hcons, hhead, hid, Bool.true_or, if_true]
      split <;> rfl
  | false => simp [reopening, hcons, hhead]

theorem restoreProviderSession_eq {agents : List Agent}
    (h : Reopenable agents db.sessions) {a : Agent} (ha : a ∈ agents)
    (stamp : String) :
    restoreProviderSession stamp a db =
      .ok ((), { db with
        sessions := db.sessions.map (reopening db.sessions [a] stamp)
          (reopening_keeps db.sessions [a] stamp).sessionId }) := by
  have hnothing : (∀ id, reopened db.sessions [a] id = false) →
      db.sessions.map (reopening db.sessions [a] stamp)
        (reopening_keeps db.sessions [a] stamp).sessionId = db.sessions := by
    intro hnone
    have hid : reopening db.sessions [a] stamp = id := by
      funext x
      simp [reopening, hnone]
    refine Table.ext ?_
    simp only [Table.map, hid, List.map_id]
  unfold restoreProviderSession
  cases hattached : Agent.attached a with
  | false =>
      rw [hnothing fun id => by simp [reopened, hattached]]
      rfl
  | true =>
      simp only [if_true, Txn.bind_ok, Txn.get_ok]
      refine ⟨db, db, ⟨rfl, rfl⟩, ?_⟩
      cases hlatest : latestSession db.sessions a.agentId with
      | none =>
          rw [hnothing fun id => by simp [reopened, latestId, hlatest]]
          rfl
      | some x =>
          have hupdate : db.sessions.update x.sessionId
              (SupervisedSession.reactivate stamp) (fun _ => rfl) =
              db.sessions.map (reopening db.sessions [a] stamp)
                (reopening_keeps db.sessions [a] stamp).sessionId := by
            refine Table.ext (List.map_congr_left fun y _ => ?_)
            simp [reopening, reopened, hattached, latestId, hlatest, eq_comm]
          dsimp only
          rw [hupdate]
          exact storeSessions_of_indexed (h.step ha stamp).indexed

/-- The rollback of the sessions is never refused after the reset. -/
theorem restoreProviderSessions_eq {agents : List Agent}
    (h : Reopenable agents db.sessions) (stamp : String) :
    restoreProviderSessionsForAgents agents stamp db =
      .ok ((), { db with
        sessions := db.sessions.map (reopening db.sessions agents stamp)
          (reopening_keeps db.sessions agents stamp).sessionId }) := by
  suffices hloop : ∀ (l : List Agent) (db : SessionDb), l ⊆ agents →
      Reopenable agents db.sessions →
      l.forM (restoreProviderSession stamp) db =
        .ok ((), { db with
          sessions := db.sessions.map (reopening db.sessions l stamp)
            (reopening_keeps db.sessions l stamp).sessionId }) from
    hloop agents db (List.Subset.refl _) h
  intro l
  induction l with
  | nil =>
      intro db _ _
      have hsame : db.sessions.map (reopening db.sessions [] stamp)
          (reopening_keeps db.sessions [] stamp).sessionId = db.sessions := by
        have hid : reopening db.sessions [] stamp = id := by
          funext x
          simp [reopening, reopened]
        refine Table.ext ?_
        simp only [Table.map, hid, List.map_id]
      rw [hsame]
      rfl
  | cons a rest ih =>
      intro db hsub h
      have ha := hsub List.mem_cons_self
      have hhead := restoreProviderSession_eq h ha stamp
      refine Txn.forM_cons_ok.mpr ⟨_, hhead, ?_⟩
      rw [ih _ (fun b hb => hsub (List.mem_cons_of_mem _ hb)) (h.step ha stamp)]
      have htable : ((db.sessions.map (reopening db.sessions [a] stamp)
          (reopening_keeps db.sessions [a] stamp).sessionId).map
            (reopening (db.sessions.map (reopening db.sessions [a] stamp)
              (reopening_keeps db.sessions [a] stamp).sessionId) rest stamp)
            (reopening_keeps _ rest stamp).sessionId) =
          db.sessions.map (reopening db.sessions (a :: rest) stamp)
            (reopening_keeps db.sessions (a :: rest) stamp).sessionId := by
        refine Table.ext ((List.map_map ..).trans
          (List.map_congr_left fun x _ => ?_))
        rw [reopening_map (reopening_keeps db.sessions [a] stamp)]
        exact reopening_cons a rest stamp x
      rw [htable]

theorem Indexed.reopenable (h : Indexed S) (agents : List Agent)
    (now : String) :
    Reopenable agents (S.map (closing agents now)
      (closing_keeps agents now).sessionId) := by
  refine ⟨h.closed agents now, fun y hy hrunning a ha hattached hagent => ?_⟩
  obtain ⟨x, -, rfl⟩ := Table.mem_map.mp hy
  rw [(closing_keeps agents now).agentId] at hagent
  have hhandled : handled agents x.agentId = true := by
    have hhandle := (Bool.and_eq_true_iff.mp hattached).1
    rw [handled, List.any_eq_true]
    exact ⟨a, ha, by simp [hagent, hhandle]⟩
  unfold closing at hrunning
  split at hrunning
  · cases hrunning
  · rename_i hkept
    refine absurd ⟨hhandled, ?_⟩ hkept
    rw [SupervisedSession.live, hrunning]
    rfl

end OrcState.Supervision
