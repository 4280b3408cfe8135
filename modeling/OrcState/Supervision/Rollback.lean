import OrcState.Supervision.SessionRollback
import OrcState.Supervision.TaskRollback

/-!
# A reset that is rolled back

When the reset and its rollback together change nothing.  The claims and the
tasks come back, but a session is reopened as `running` whatever it was, only if
it is the latest of an agent whose status was `running`, and with the reason of
its close.
-/

namespace OrcState.Supervision

open OrcState.Contract OrcState.Foundation OrcState.Store OrcState.Lifecycle
open OrcState.Foundation.Effect

variable {dates : DateApi} {w w₁ w₂ : Workspace}

/-! ## How the two calls go -/

theorem onProject_apply {α : Type} (x : Op α) (w : Workspace) :
    onProject x w = ((x w.project).1, w.setProject (x w.project).2) := rfl

theorem detach_keeps (runs : Runs) :
    KeepsOwner (SupervisedSession.setNull runs) :=
  ⟨fun _ => rfl, fun _ => rfl, fun _ => rfl⟩

theorem Indexed.setProject (h : Indexed w.sessions) (p : Project) :
    Indexed (w.setProject p).sessions := by
  refine indexed_of_one (fun y hy z hz hrunning hrunning' hagent => ?_) ?_
  · have hy' : y ∈ w.sessions.map (SupervisedSession.setNull p.events.runs)
        (detach_keeps p.events.runs).sessionId := hy
    have hz' : z ∈ w.sessions.map (SupervisedSession.setNull p.events.runs)
        (detach_keeps p.events.runs).sessionId := hz
    obtain ⟨x, hx, rfl⟩ := Table.mem_map.mp hy'
    obtain ⟨x', hx', rfl⟩ := Table.mem_map.mp hz'
    rw [h.one hx hx' hagent hrunning hrunning']
  · have hcred : credentials (w.setProject p).sessions =
        credentials w.sessions := credentials_map (detach_keeps p.events.runs)
    rw [hcred]
    exact h.credential

theorem resetProject_ok {s t : Project} {now : String} {n : Nat × Nat}
    (h : Lifecycle.resetVolatileRuntimeStateForSession dates now s = (.ok n, t)) :
    (∀ r, t.tasks.slice r = resetSlice (s.tasks.slice r)) ∧
      Mutated Claim.active (sessionResetClaim now) s.events.runs t.events.runs ∧
      ∀ c, c ∈ s.events.runs → c.active = true → WellNamed c := by
  simp only [Lifecycle.resetVolatileRuntimeStateForSession, read_bind] at h
  rcases bind_cases h with ⟨e, -, he⟩ | ⟨⟨⟩, m, hx, h⟩
  · cases he
  rcases onTasks_cases hx with ⟨e, he, -⟩ | ⟨⟨⟩, ts, hts, -, rfl⟩
  · cases he
  rcases bind_cases h with ⟨e, -, he⟩ | ⟨⟨⟩, m, hx', h⟩
  · cases he
  rcases onEvents_cases hx' with ⟨e, he, -⟩ | ⟨⟨⟩, db, hdb, -, rfl⟩
  · cases he
  cases h
  have hnodup : ((mutateClaims s.claims Claim.active
      (sessionResetClaim now)).map Claim.runId).Nodup := by
    have hids := @map_runId_mutateClaims s.claims Claim.active
      (sessionResetClaim now) fun _ => rfl
    rw [hids]
    exact s.events.runs.nodup
  obtain ⟨-, hvalid, -⟩ := commitClaims_ok hnodup hdb
  refine ⟨reset_slices hts, commitMutated_claims hdb fun _ => rfl,
    fun c hc hactive => ?_⟩
  have hevent := hvalid (sessionResetEvent now c)
    (List.mem_map.mpr ⟨c, List.mem_filter.mpr ⟨hc, hactive⟩, rfl⟩)
  exact ((validEvent_runEvent (by decide)).mp hevent).2.1

theorem reset_ok {now sessionId : String} {prepared : PreparedSessionReset}
    (hindexed : Indexed w.sessions)
    (h : resetVolatileRuntimeStateForSession dates now sessionId w =
      (.ok prepared, w₁)) :
    prepared.snapshot = w.snapshot ∧
      (∃ n, Lifecycle.resetVolatileRuntimeStateForSession dates now w.project =
        (.ok n, w₁.project)) ∧
      w₁.sessions = (detach w.sessions w₁.project.events.runs).map
        (closing w.agents now) (closing_keeps w.agents now).sessionId := by
  simp only [resetVolatileRuntimeStateForSession, read_bind] at h
  rcases bind_cases h with ⟨e, -, he⟩ | ⟨n, m, hx, h⟩
  · cases he
  rw [onProject_apply] at hx
  obtain ⟨hok, rfl⟩ := Prod.mk.inj hx
  have hclose := closeSessions_eq (hindexed.setProject
    (Lifecycle.resetVolatileRuntimeStateForSession dates now w.project).2)
    now w.agents
  rcases bind_cases h with ⟨e, -, he⟩ | ⟨⟨⟩, m, hx, h⟩
  · cases he
  cases hclose.symm.trans hx
  rcases bind_cases h with ⟨e, -, he⟩ | ⟨⟨⟩, m, hx, h⟩
  · cases he
  cases hx
  cases h
  exact ⟨rfl, ⟨n, Prod.ext hok rfl⟩, rfl⟩

def Workspace.recommitted (w : Workspace) (ts : TaskStore) (db : EventsDb) :
    Workspace :=
  (w.setProject (w.project.setTasks ts)).setProject
    ((w.project.setTasks ts).setEvents db)

def resumeAgents (snapshot : SessionStateSnapshot) (now : String) : Work Unit := do
  onSessions (restoreProviderSessionsForAgents snapshot.agents now)
  writeAgents snapshot.agents

theorem resumeAgents_project {snapshot : SessionStateSnapshot} {now : String}
    {r : Except DomainError Unit}
    (h : resumeAgents snapshot now w = (r, w₁)) : w₁.project = w.project := by
  have hsessions : Keeps Workspace.project (onSessions
      (restoreProviderSessionsForAgents snapshot.agents now)) :=
    keeps_atomically fun _ _ _ _ => rfl
  have hagents : Keeps Workspace.project (writeAgents snapshot.agents) :=
    fun _ => rfl
  exact (hsessions.bind fun _ => hagents).snd h

/-- A rollback commits the tasks, then the claims, then the sessions. -/
theorem restore_cases {snapshot : SessionStateSnapshot} {now : String}
    {r : Except DomainError Unit}
    (h : restoreVolatileRuntimeStateFromSnapshot dates snapshot now w =
      (r, w₁)) :
    ((∃ e, restoreBacklogStatuses snapshot.backlog snapshot.claims now
        w.project.tasks = .error e) ∧ w₁.project = w.project) ∨
      ∃ ts, restoreBacklogStatuses snapshot.backlog snapshot.claims now
          w.project.tasks = .ok ((), ts) ∧
        ((∃ e, commitClaims dates snapshot.claims
            (snapshot.claims.flatMap (restoreEvent w.project now))
            w.project.events = .error e) ∧
            w₁.project = w.project.setTasks ts ∨
          ∃ db, commitClaims dates snapshot.claims
              (snapshot.claims.flatMap (restoreEvent w.project now))
              w.project.events = .ok ((), db) ∧
            resumeAgents snapshot now (w.recommitted ts db) = (r, w₁)) := by
  simp only [restoreVolatileRuntimeStateFromSnapshot, read_bind] at h
  cases hts : restoreBacklogStatuses snapshot.backlog snapshot.claims now
      w.project.tasks with
  | error e =>
      have htasks : onProject (onTasks (restoreBacklogStatuses snapshot.backlog
          snapshot.claims now)) w = (.error e, w.setProject w.project) := by
        rw [onProject_apply, onTasks, Effect.atomically, hts]
      rw [bind_apply, htasks] at h
      cases h
      exact .inl ⟨⟨e, rfl⟩, rfl⟩
  | ok p =>
      obtain ⟨⟨⟩, ts⟩ := p
      have htasks : onProject (onTasks (restoreBacklogStatuses snapshot.backlog
          snapshot.claims now)) w =
            (.ok (), w.setProject (w.project.setTasks ts)) := by
        rw [onProject_apply, onTasks, Effect.atomically, hts]
      refine .inr ⟨ts, rfl, ?_⟩
      rw [bind_of_ok htasks] at h
      cases hdb : commitClaims dates snapshot.claims
          (snapshot.claims.flatMap (restoreEvent w.project now))
          w.project.events with
      | error e =>
          have hclaims : onProject (onEvents (commitClaims dates snapshot.claims
              (snapshot.claims.flatMap (restoreEvent w.project now))))
              (w.setProject (w.project.setTasks ts)) =
                (.error e, (w.setProject (w.project.setTasks ts)).setProject
                  (w.project.setTasks ts)) := by
            rw [onProject_apply, onEvents, Effect.atomically]
            simp only [Workspace.setProject, Project.setTasks, hdb]
          rw [bind_apply, hclaims] at h
          cases h
          exact .inl ⟨⟨e, rfl⟩, rfl⟩
      | ok p =>
          obtain ⟨⟨⟩, db⟩ := p
          have hclaims : onProject (onEvents (commitClaims dates snapshot.claims
              (snapshot.claims.flatMap (restoreEvent w.project now))))
              (w.setProject (w.project.setTasks ts)) =
                (.ok (), w.recommitted ts db) := by
            rw [onProject_apply, onEvents, Effect.atomically]
            simp only [Workspace.setProject, Project.setTasks, hdb]
            rfl
          rw [bind_of_ok hclaims] at h
          exact .inr ⟨db, rfl, h⟩

/-! ## The claims -/

section

variable {s t : Project} {now : String}

theorem reset_inactive
    (hmut : Mutated Claim.active (sessionResetClaim now) s.events.runs
      t.events.runs) {c : Claim} (hc : c ∈ t.events.runs) : c.active = false := by
  obtain ⟨c₀, -, rfl⟩ := (hmut.mem c).mp hc
  cases hactive : c₀.active with
  | true => rfl
  | false => simpa using hactive

/-- The rollback reports the claims that were active, and no other. -/
theorem restoreEvent_reset
    (hmut : Mutated Claim.active (sessionResetClaim now) s.events.runs
      t.events.runs) {c : Claim} (hc : c ∈ s.events.runs) (later : String) :
    restoreEvent t later c =
      match c.state with
      | .claimed =>
          [runEvent later .claimCreated .human "human" c
            [("lease_expires_at", .str c.leaseExpiresAt),
             ("reason", .str "session_reset_rollback")]]
      | .inProgress =>
          [runEvent later .runStarted .human "human" c
            [("reason", .str "session_reset_rollback")]]
      | _ => [] := by
  have hstored : (t.findClaim c.runId).map Claim.state =
      some (if c.active then .failed else c.state) := by
    have hmem := (hmut.mem _).mpr ⟨c, hc, rfl⟩
    have hfind := Table.find?_of_mem hmem
    have hid : (if c.active then sessionResetClaim now c else c).runId =
        c.runId := by
      split <;> rfl
    rw [hid] at hfind
    rw [Project.findClaim, hfind, Option.map_some]
    split <;> rfl
  rw [restoreEvent, hstored]
  cases hstate : c.state <;> simp [Claim.active, ClaimState.active, hstate]

theorem restoreEvents_valid
    (hmut : Mutated Claim.active (sessionResetClaim now) s.events.runs
      t.events.runs)
    (hnamed : ∀ c, c ∈ s.events.runs → c.active = true → WellNamed c)
    (later : Int) :
    (∀ e ∈ s.claims.flatMap (restoreEvent t (dates.toISOString later)),
        ValidEvent dates e) ↔
      ∀ c, c ∈ s.events.runs → c.state = .claimed →
        (dates.parse c.leaseExpiresAt).isSome = true := by
  have hlease : ∀ c, c ∈ s.events.runs → c.state = .claimed →
      (ValidEvent dates (runEvent (dates.toISOString later) .claimCreated .human
          "human" c [("lease_expires_at", .str c.leaseExpiresAt),
            ("reason", .str "session_reset_rollback")]) ↔
        (dates.parse c.leaseExpiresAt).isSome = true) := by
    intro c hc hstate
    have hnames := hnamed c hc (by rw [Claim.active, hstate]; rfl)
    rw [validEvent_runEvent (by decide)]
    simp only [DateApi.isDateTime_toISOString, true_and, hnames]
    simp [validatePayload, runEvent, requirePayloadField, OrcEvent.field,
      complainIf_eq_nil]
  constructor
  · intro hvalid c hc hstate
    refine (hlease c hc hstate).mp (hvalid _ (List.mem_flatMap.mpr ⟨c, hc, ?_⟩))
    rw [restoreEvent_reset hmut hc, hstate]
    exact List.mem_singleton_self _
  · intro hparse e he
    obtain ⟨c, hc, he⟩ := List.mem_flatMap.mp he
    rw [restoreEvent_reset hmut hc] at he
    cases hstate : c.state with
    | claimed =>
        simp only [hstate, List.mem_singleton] at he
        rw [he]
        exact (hlease c hc hstate).mpr (hparse c hc hstate)
    | inProgress =>
        simp only [hstate, List.mem_singleton] at he
        have hnames := hnamed c hc (by rw [Claim.active, hstate]; rfl)
        rw [he, validEvent_runEvent (by decide)]
        exact ⟨dates.isDateTime_toISOString later, hnames, rfl⟩
    | _ => simp [hstate] at he

theorem restoreClaims_accepted (hagree : StoresAgree s)
    (hmut : Mutated Claim.active (sessionResetClaim now) s.events.runs
      t.events.runs) {events : List OrcEvent}
    (hevents : ∀ e ∈ events, ValidEvent dates e) :
    ∃ db, commitClaims dates s.claims events t.events = .ok ((), db) := by
  refine commitClaims_accepted (P := fun c => c ∈ s.events.runs)
    (fun c c' hc hc' ha ha' hsame => ?_) (fun _ hc => hc)
    (fun c hc ha => ?_) hevents
  · rw [hagree.unique c hc c' hc' ha ha' hsame]
  · rw [reset_inactive hmut hc] at ha
    cases ha

end

/-! ## When nothing has changed -/

/-- The claims, tasks and bindings agree, and the unique indexes hold. -/
structure Consistent (w : Workspace) : Prop where
  agree : StoresAgree w.project
  binding : OneBinding w.project.tasks
  sessions : Indexed w.sessions

def SupervisedSession.stance (x : SupervisedSession) :
    SessionState × Option String :=
  (x.state, x.stateReason)

/-- Every claim, task, binding, agent and session is what it was. -/
structure Restored (w w' : Workspace) : Prop where
  claims : ∀ c, c ∈ w'.project.events.runs ↔ c ∈ w.project.events.runs
  tasks : ∀ ref, w'.project.tasks.slice ref = w.project.tasks.slice ref
  agents : w'.agents = w.agents
  sessions : ∀ id, (w'.sessions.find? id).map SupervisedSession.stance =
    (w.sessions.find? id).map SupervisedSession.stance

def Resumed (agents : List Agent) (S : SupervisedSessions) : Prop :=
  ∀ x, x ∈ S →
    (handled agents x.agentId = true ∧ x.live = true ∨
      reopened S agents x.sessionId = true) →
    reopened S agents x.sessionId = true ∧
      x.stance = (.running, some "session closed")

/-- The states that a rolled-back reset gives back. -/
structure Reversible (dates : DateApi) (w : Workspace) : Prop where
  bindings : Paired w.project.tasks
  leases : ∀ c, c ∈ w.project.events.runs → c.state = .claimed →
    (dates.parse c.leaseExpiresAt).isSome = true
  sessions : Resumed w.agents w.sessions

theorem handled_of_reopened {S : SupervisedSessions} {agents : List Agent}
    {x : SupervisedSession} (hx : x ∈ S)
    (h : reopened S agents x.sessionId = true) :
    handled agents x.agentId = true := by
  obtain ⟨a, ha, hboth⟩ := List.any_eq_true.mp h
  simp only [Bool.and_eq_true, decide_eq_true_eq] at hboth
  have howner := latestId_owner hx hboth.2
  have hhandle := (Bool.and_eq_true_iff.mp hboth.1).1
  exact List.any_eq_true.mpr ⟨a, ha, by simp [howner, hhandle]⟩

theorem reopening_closing {S : SupervisedSessions} {agents : List Agent}
    {now stamp : String} {x : SupervisedSession} (hx : x ∈ S) :
    (reopening S agents stamp (closing agents now x)).stance = x.stance ↔
      ((handled agents x.agentId = true ∧ x.live = true ∨
          reopened S agents x.sessionId = true) →
        reopened S agents x.sessionId = true ∧
          x.stance = (.running, some "session closed")) := by
  have hid : (closing agents now x).sessionId = x.sessionId :=
    (closing_keeps agents now).sessionId x
  rw [reopening, hid]
  by_cases hreopened : reopened S agents x.sessionId = true
  · have hhandled := handled_of_reopened hx hreopened
    rw [if_pos hreopened]
    by_cases hlive : x.live = true
    · have hstance : ((closing agents now x).reactivate stamp).stance =
          (.running, some "session closed") := by
        rw [closing, if_pos ⟨hhandled, hlive⟩]
        rfl
      rw [hstance]
      exact ⟨fun h _ => ⟨hreopened, h.symm⟩,
        fun h => (h (.inr hreopened)).2.symm⟩
    · -- a dead session that is reopened was not running
      have hstate : x.state = .offline := by
        simpa [SupervisedSession.live] using hlive
      rw [closing, if_neg fun h => hlive h.2]
      refine iff_of_false (fun h => ?_) fun h => ?_
      · have hstate' : SessionState.running = x.state := congrArg Prod.fst h
        rw [hstate] at hstate'
        cases hstate'
      · have hstate' : x.state = SessionState.running :=
          congrArg Prod.fst (h (.inr hreopened)).2
        rw [hstate] at hstate'
        cases hstate'
  · rw [if_neg hreopened]
    by_cases hclosed : handled agents x.agentId = true ∧ x.live = true
    · rw [closing, if_pos hclosed]
      refine iff_of_false (fun h => ?_) fun h => hreopened (h (.inl hclosed)).1
      have hstate : SessionState.offline = x.state := congrArg Prod.fst h
      have hlive := hclosed.2
      rw [SupervisedSession.live, ← hstate] at hlive
      cases hlive
    · rw [closing, if_neg hclosed]
      exact iff_of_true rfl fun h => absurd (h.resolve_right hreopened) hclosed

theorem live_of_stance {x y : SupervisedSession} (h : x.stance = y.stance) :
    x.live = y.live := by
  have hstate : x.state = y.state := congrArg Prod.fst h
  rw [SupervisedSession.live, hstate, SupervisedSession.live]

theorem stance_closing {agents : List Agent} {now : String}
    {x y : SupervisedSession} (hagent : x.agentId = y.agentId)
    (hstance : x.stance = y.stance) :
    (closing agents now x).stance = (closing agents now y).stance := by
  unfold closing
  rw [hagent, live_of_stance hstance]
  split
  · rfl
  · exact hstance

theorem stance_reopening {S : SupervisedSessions} {agents : List Agent}
    {stamp : String} {x y : SupervisedSession}
    (hid : x.sessionId = y.sessionId) (hstance : x.stance = y.stance) :
    (reopening S agents stamp x).stance =
      (reopening S agents stamp y).stance := by
  unfold reopening
  rw [hid]
  split
  · have hreason : x.stateReason = y.stateReason := congrArg Prod.snd hstance
    exact Prod.ext rfl hreason
  · exact hstance

theorem restored_sessions {S U V : SupervisedSessions} {agents : List Agent}
    {now stamp : String} {f g : SupervisedSession → SupervisedSession}
    (hf : KeepsOwner f) (hg : KeepsOwner g)
    (hfstance : ∀ x, (f x).stance = x.stance)
    (hgstance : ∀ x, (g x).stance = x.stance)
    (hU : U = ((S.map f hf.sessionId).map (closing agents now)
      (closing_keeps agents now).sessionId).map g hg.sessionId)
    (hV : V = U.map (reopening U agents stamp)
      (reopening_keeps U agents stamp).sessionId) :
    (∀ id, (V.find? id).map SupervisedSession.stance =
      (S.find? id).map SupervisedSession.stance) ↔ Resumed agents S := by
  have hsame : reopening U agents stamp = reopening S agents stamp := by
    rw [hU, reopening_map hg, reopening_map (closing_keeps agents now),
      reopening_map hf]
  have hfind : ∀ id, (V.find? id).map SupervisedSession.stance =
      (S.find? id).map fun x =>
        (reopening S agents stamp (closing agents now x)).stance := by
    intro id
    rw [hV, Table.find?_map, hsame, hU, Table.find?_map, Table.find?_map,
      Table.find?_map]
    simp only [Option.map_map]
    refine congrArg (Option.map · (S.find? id)) (funext fun x => ?_)
    refine (stance_reopening (hg.sessionId _) (hgstance _)).trans
      (stance_reopening ?_ (stance_closing (hf.agentId x) (hfstance x)))
    exact (((closing_keeps agents now).sessionId (f x)).trans
      (hf.sessionId x)).trans ((closing_keeps agents now).sessionId x).symm
  constructor
  · intro h x hx
    have hx' := h x.sessionId
    rw [hfind, Table.find?_of_mem hx] at hx'
    exact (reopening_closing hx).mp (Option.some.inj hx')
  · intro h id
    rw [hfind]
    cases hx : S.find? id with
    | none => rfl
    | some x =>
        have hmem := Table.mem_of_find? hx
        exact congrArg some ((reopening_closing hmem).mpr (h x hmem))

theorem resumeAgents_ok {snapshot : SessionStateSnapshot} {now : String}
    {r : Except DomainError Unit}
    (hready : Reopenable snapshot.agents w.sessions)
    (h : resumeAgents snapshot now w = (r, w₁)) :
    w₁ = { w with
      agents := snapshot.agents
      sessions := w.sessions.map (reopening w.sessions snapshot.agents now)
        (reopening_keeps w.sessions snapshot.agents now).sessionId } := by
  have hdb : Reopenable snapshot.agents w.sessionDb.sessions := hready
  have hsessions := onSessions_ok (restoreProviderSessions_eq hdb now)
  unfold resumeAgents at h
  rw [bind_of_ok hsessions] at h
  cases h
  rfl

theorem Reopenable.map {agents : List Agent} {S : SupervisedSessions}
    (h : Reopenable agents S) {f : SupervisedSession → SupervisedSession}
    (hf : KeepsOwner f) (hstate : ∀ x, (f x).state = x.state) :
    Reopenable agents (S.map f hf.sessionId) := by
  refine ⟨indexed_of_one (fun y hy z hz hrunning hrunning' hagent => ?_) ?_,
    fun y hy hrunning a ha hattached hagent => ?_⟩
  · obtain ⟨x, hx, rfl⟩ := Table.mem_map.mp hy
    obtain ⟨x', hx', rfl⟩ := Table.mem_map.mp hz
    rw [hf.agentId, hf.agentId] at hagent
    rw [hstate] at hrunning hrunning'
    rw [h.indexed.one hx hx' hagent hrunning hrunning']
  · rw [credentials_map hf]
    exact h.indexed.credential
  · obtain ⟨x, hx, rfl⟩ := Table.mem_map.mp hy
    rw [hf.agentId] at hagent
    rw [hstate] at hrunning
    rw [latestId_map hf, hf.sessionId]
    exact h.latest x hx hrunning a ha hattached hagent

/-- The rollback after the reset, when the claims are accepted. -/
theorem reset_resume {now stamp : String} {ts : TaskStore} {db : EventsDb}
    {r : Except DomainError Unit} (hindexed : Indexed w.sessions)
    (hsessions : w₁.sessions =
      (detach w.sessions w₁.project.events.runs).map (closing w.agents now)
        (closing_keeps w.agents now).sessionId)
    (h : resumeAgents w.snapshot stamp (w₁.recommitted ts db) = (r, w₂)) :
    w₂.project = (w₁.project.setTasks ts).setEvents db ∧
      w₂.agents = w.agents ∧
      ((∀ id, (w₂.sessions.find? id).map SupervisedSession.stance =
          (w.sessions.find? id).map SupervisedSession.stance) ↔
        Resumed w.agents w.sessions) := by
  have hclosed : Reopenable w.agents w₁.sessions := by
    rw [hsessions]
    exact (hindexed.setProject w₁.project).reopenable w.agents now
  have htwice := (detach_keeps db.runs).comp
    (detach_keeps w₁.project.events.runs)
  have htable : (w₁.recommitted ts db).sessions =
      w₁.sessions.map (SupervisedSession.setNull db.runs ∘
        SupervisedSession.setNull w₁.project.events.runs) htwice.sessionId :=
    Table.ext (List.map_map ..)
  have hready : Reopenable w.agents (w₁.recommitted ts db).sessions := by
    rw [htable]
    exact hclosed.map htwice fun _ => rfl
  have hresumed := resumeAgents_ok hready h
  refine ⟨by rw [hresumed]; rfl, by rw [hresumed]; rfl, ?_⟩
  rw [hsessions] at htable
  exact restored_sessions (detach_keeps w₁.project.events.runs) htwice
    (fun _ => rfl) (fun _ => rfl) htable (congrArg Workspace.sessions hresumed)

/--
The reset and then the rollback of its snapshot give everything back just where
the bindings go with their tasks, the leases can be read, and the sessions they
touch had been reopened before.
-/
theorem reset_rollback_restores (dates : DateApi) {now sessionId : String}
    (later : Int) {prepared : PreparedSessionReset} (hw : Consistent w)
    (hreset : resetVolatileRuntimeStateForSession dates now sessionId w =
      (.ok prepared, w₁)) :
    Restored w (restoreVolatileRuntimeStateFromSnapshot dates prepared.snapshot
        (dates.toISOString later) w₁).2 ↔
      Reversible dates w := by
  obtain ⟨hsnapshot, ⟨n, hproject⟩, hsessions⟩ := reset_ok hw.sessions hreset
  obtain ⟨hslices, hmut, hnamed⟩ := resetProject_ok hproject
  rw [hsnapshot]
  generalize hrestore : restoreVolatileRuntimeStateFromSnapshot dates w.snapshot
    (dates.toISOString later) w₁ = p
  obtain ⟨r, w₂⟩ := p
  have hvalid := @restoreEvents_valid dates _ _ now hmut hnamed later
  obtain ⟨ts, hts⟩ := restoreBacklogStatuses_total hw.agree hw.binding hslices
    (dates.toISOString later)
  have htasks := restored_tasks hw.agree hw.binding hslices hts
  rcases restore_cases hrestore with
    ⟨⟨e, he⟩, -⟩ | ⟨ts', hts', ⟨⟨e, he⟩, hproject₂⟩ | ⟨db, hdb, hresume⟩⟩
  · cases hts.symm.trans he
  · -- an event was refused, so a claim whose lease cannot be read stays failed
    have hbad : ¬ ∀ c, c ∈ w.project.events.runs → c.state = .claimed →
        (dates.parse c.leaseExpiresAt).isSome = true := by
      intro hparse
      obtain ⟨db, hdb⟩ := restoreClaims_accepted hw.agree hmut
        (hvalid.mpr hparse)
      cases hdb.symm.trans he
    refine iff_of_false (fun hrestored => hbad fun c hc hstate => ?_)
      fun hrev => hbad hrev.leases
    have hthere := (hrestored.claims c).mpr hc
    rw [hproject₂] at hthere
    have hinactive := reset_inactive hmut hthere
    rw [Claim.active, hstate] at hinactive
    cases hinactive
  · cases hts.symm.trans hts'
    have hnodup : (w.project.claims.map Claim.runId).Nodup :=
      w.project.events.runs.nodup
    obtain ⟨hmem, hevents, -⟩ := commitClaims_ok hnodup hdb
    obtain ⟨hproject₂, hagents, hresumed⟩ :=
      reset_resume hw.sessions hsessions hresume
    constructor
    · intro h
      refine ⟨htasks.mp fun ref => ?_, hvalid.mp hevents,
        hresumed.mp h.sessions⟩
      have href := h.tasks ref
      rwa [hproject₂] at href
    · intro h
      refine ⟨fun c => ?_, fun ref => ?_, hagents, hresumed.mpr h.sessions⟩
      · rw [hproject₂]
        exact hmem c
      · rw [hproject₂]
        exact htasks.mpr h.bindings ref

/-! One task, run by an agent whose session carries a reason. -/

def introRow : ProjectTask where
  ref := "docs/intro"
  status := .inProgress
  definition := { title := "Intro" }

def introRun : TaskRun where
  runId := "run-1"
  taskRef := "docs/intro"
  specRevision := 1
  agentId := some "orc-1"
  state := .inProgress
  createdAt := DateApi.epoch.toISOString 1
  updatedAt := DateApi.epoch.toISOString 1

def introClaim : Claim where
  runId := "run-1"
  taskRef := "docs/intro"
  agentId := "orc-1"
  state := .inProgress
  claimedAt := DateApi.epoch.toISOString 1
  leaseExpiresAt := DateApi.epoch.toISOString 9

def introWork (reason : Option String) : Workspace where
  project :=
    { tasks :=
        { tasks := ⟨[introRow], by decide⟩
          taskRuns := ⟨[introRun], by decide⟩ }
      events := { runs := ⟨[introClaim], by decide⟩ } }
  sessions := ⟨[{ sessionRow with stateReason := reason }], by simp⟩
  agents := [workerAgent]

theorem introWork_consistent (reason : Option String) :
    Consistent (introWork reason) := by
  have hclaim : ∀ c, c ∈ (introWork reason).project.events.runs →
      c = introClaim := fun c hc => List.mem_singleton.mp hc
  have htask : ∀ task, task ∈ (introWork reason).project.tasks.tasks →
      task = introRow := fun task htask => List.mem_singleton.mp htask
  have hrun : ∀ run, run ∈ (introWork reason).project.tasks.taskRuns →
      run = introRun := fun run hrun => List.mem_singleton.mp hrun
  refine ⟨⟨?_, ?_, ?_⟩, ?_, ?_⟩
  · intro c hc c' hc' _ _ _
    rw [hclaim c hc, hclaim c' hc']
  · intro task hmem _
    rw [htask task hmem]
    refine ⟨introClaim, List.mem_singleton_self _, rfl, rfl, rfl,
      fun c hc _ _ => hclaim c hc, introRun, List.mem_singleton_self _, rfl,
      .inr rfl, rfl⟩
  · intro task hmem hfree
    rw [htask task hmem] at hfree
    rcases hfree with hfree | hfree | hfree <;> cases hfree
  · intro run hmem other hother _ _ _
    rw [hrun run hmem, hrun other hother]
  · refine indexed_of_one (fun x hx y hy _ _ _ => ?_) List.nodup_nil
    rw [List.mem_singleton.mp hx, List.mem_singleton.mp hy]

theorem introWork_reversible :
    Reversible .epoch (introWork (some "session closed")) := by
  refine ⟨fun task htask _ run hrun _ _ => ?_, fun c hc hstate => ?_,
    fun x hx _ => ?_⟩
  · rw [List.mem_singleton.mp htask, List.mem_singleton.mp hrun]
    rfl
  · rw [List.mem_singleton.mp hc] at hstate
    cases hstate
  · rw [List.mem_singleton.mp hx]
    decide

theorem introWork_reset (reason : Option String)
    (hok : (resetVolatileRuntimeStateForSession .epoch
      (DateApi.epoch.toISOString 2) "session-2" (introWork reason)).1.isOk = true) :
    ∃ prepared w₁, resetVolatileRuntimeStateForSession .epoch
      (DateApi.epoch.toISOString 2) "session-2" (introWork reason) =
        (.ok prepared, w₁) := by
  generalize resetVolatileRuntimeStateForSession .epoch
    (DateApi.epoch.toISOString 2) "session-2" (introWork reason) = p at hok ⊢
  obtain ⟨r, w₁⟩ := p
  cases r with
  | ok prepared => exact ⟨prepared, w₁, rfl⟩
  | error e => cases hok

theorem reset_rollback_restores_again :
    ∃ prepared w₁, resetVolatileRuntimeStateForSession .epoch
        (DateApi.epoch.toISOString 2) "session-2"
          (introWork (some "session closed")) = (.ok prepared, w₁) ∧
      Restored (introWork (some "session closed"))
        (restoreVolatileRuntimeStateFromSnapshot .epoch prepared.snapshot
          (DateApi.epoch.toISOString 3) w₁).2 := by
  obtain ⟨prepared, w₁, hreset⟩ := introWork_reset (some "session closed")
    (by decide +kernel)
  exact ⟨prepared, w₁, hreset, (reset_rollback_restores .epoch 3
    (introWork_consistent _) hreset).mpr introWork_reversible⟩

/-- A session that ran without a reason is left with that of its close. -/
theorem not_reset_rollback_restores :
    ∃ w prepared w₁, Consistent w ∧
      resetVolatileRuntimeStateForSession .epoch
        (DateApi.epoch.toISOString 2) "session-2" w = (.ok prepared, w₁) ∧
      ¬ Restored w (restoreVolatileRuntimeStateFromSnapshot .epoch
        prepared.snapshot (DateApi.epoch.toISOString 3) w₁).2 := by
  obtain ⟨prepared, w₁, hreset⟩ := introWork_reset none (by decide +kernel)
  refine ⟨introWork none, prepared, w₁, introWork_consistent none, hreset,
    fun hrestored => ?_⟩
  have hend : ((match resetVolatileRuntimeStateForSession .epoch
      (DateApi.epoch.toISOString 2) "session-2" (introWork none) with
      | (.ok prepared, w₁) => (restoreVolatileRuntimeStateFromSnapshot .epoch
          prepared.snapshot (DateApi.epoch.toISOString 3) w₁).2.sessions
      | (.error _, w₁) => w₁.sessions).find? "session-1").map
        SupervisedSession.stance = some (.running, some "session closed") := by
    decide +kernel
  have hbefore : ((introWork none).sessions.find? "session-1").map
      SupervisedSession.stance = some (.running, none) := rfl
  have hsame := hrestored.sessions "session-1"
  rw [hreset] at hend
  rw [hend, hbefore] at hsame
  cases hsame

end OrcState.Supervision
