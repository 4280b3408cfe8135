import OrcState.Lifecycle.History
import OrcState.Lifecycle.Ledger
import OrcState.Store.CommittedRows

/-!
# What keeps the attempts of a task

Only an ending that is held against a task changes its attempt count.  Every
other call writes the counts back as it read them, adds no run under a stored
id and revives none.
-/

namespace OrcState.Lifecycle

open OrcState.Contract OrcState.Foundation OrcState.Store
open OrcState.Foundation.Effect

variable {dates : DateApi} {registry : Registry}

/-! ## Stopping everything -/

def killAllClaim (now : String) (claim : Claim) : Claim :=
  { claim with
    state := .failed
    failureReason := some "kill_all"
    finishedAt := some now }

def killAllTask (task : Task) : Task :=
  if task.status.running then
    { task with status := .todo, blockedReason := none }
  else task

def killAllChanges (backlog : Backlog) : TaskStatusChanges :=
  (backlog.filter fun task => task.status.running).map fun task =>
    (task.ref,
      { cause := .operatorReset, actorId := some "human"
        reason := some "kill_all" })

def killAllEvents (now : String) (s : Project) : List OrcEvent :=
  { ts := now
    event := .coordinatorStopped
    actorType := .human
    actorId := "human"
    payload :=
      [("tasks_reset",
        .num (s.backlog.filter fun task => task.status.running).length),
      ("claims_cancelled", .num (s.claims.filter Claim.active).length)] } ::
    (s.claims.filter Claim.active).map fun claim =>
      runEvent now .runCancelled .human "human" claim
        [("reason", .str "kill_all")]

def killAll (dates : DateApi) (now : String) : Op Unit := do
  let s ← Effect.read
  commitBoth dates (mutateClaims s.claims Claim.active (killAllClaim now))
    (killAllEvents now s) (s.backlog.map killAllTask)
    (killAllChanges s.backlog) now

/-! ## Counts in the task store -/

def attemptsAt (ts : TaskStore) (ref : TaskRef) : Nat :=
  ((ts.getTask ref).map ProjectTask.attemptCount).getD 0

def attemptsIn (backlog : Backlog) (ref : TaskRef) : Nat :=
  ((findTask backlog ref).map Task.attemptCount).getD 0

theorem attemptsIn_backlog (s : Project) (ref : TaskRef) :
    attemptsIn s.backlog ref = attemptsAt s.tasks ref := by
  rw [attemptsIn, Project.backlog, findTask_readProjectBacklog, attemptsAt,
    Option.map_map]
  rfl

structure CountsKept (ts ts' : TaskStore) : Prop where
  bound : ∀ id, ts.Bound id → ts'.Bound id
  attempts : ∀ ref, attemptsAt ts' ref = attemptsAt ts ref

theorem CountsKept.trans {ts m ts' : TaskStore} (h : CountsKept ts m)
    (h' : CountsKept m ts') : CountsKept ts ts' :=
  ⟨fun id hid => h'.bound id (h.bound id hid),
    fun ref => (h'.attempts ref).trans (h.attempts ref)⟩

theorem bound_of_moves {grows : Bool} {ts ts' : TaskStore}
    (h : StoreMoves grows ts ts') (id : RunId) (hid : ts.Bound id) :
    ts'.Bound id := by
  obtain ⟨run, hrun, rfl⟩ := hid
  obtain ⟨run', hrun', hsame, -⟩ := h.runsKept run hrun
  exact ⟨run', hrun', hsame⟩

theorem countsKept_transition {ref : TaskRef} {input : TaskTransitionInput}
    {now : String} {ts ts' : TaskStore} {u : Unit}
    (h : applyTransition ref input now ts = .ok (u, ts')) :
    CountsKept ts ts' := by
  have hmoves : StoreMoves true ts ts' := applyTransition_moves h
  refine ⟨bound_of_moves hmoves, fun r => ?_⟩
  obtain ⟨task, -, ⟨-, rfl⟩ | ⟨-, -, -, rfl⟩⟩ := applyTransition_cases h
  · rfl
  simp only [attemptsAt, TaskStore.getTask, transitioned_tasks,
    Table.find?_update]
  split
  · rw [Option.map_map]
    rfl
  · rfl

theorem countsKept_claimTask {ref : TaskRef} {runId : RunId}
    {agentId : AgentId} {now : String} {pinned : ProjectTask}
    {ts ts' : TaskStore}
    (h : TaskStore.claimTask ref runId agentId now ts = .ok (pinned, ts')) :
    CountsKept ts ts' := by
  obtain ⟨task, -, -, htasks, -, -, hbound⟩ := claimTask_ok h
  refine ⟨fun id hid => (hbound id).mpr (.inl hid), fun r => ?_⟩
  simp only [attemptsAt, TaskStore.getTask, htasks, Table.find?_update]
  split
  · rw [Option.map_map]
    rfl
  · rfl

theorem countsKept_returnTask {ref : TaskRef} {runId : RunId}
    {agentId : AgentId} {now : String} {ts ts' : TaskStore} {u : Unit}
    (h : returnTask ref runId agentId now ts = .ok (u, ts')) :
    CountsKept ts ts' := by
  obtain ⟨-, hbound, -⟩ := returnTask_ok h
  refine ⟨fun id => (hbound id).mpr, fun r => ?_⟩
  simp only [returnTask, Txn.bind_ok, abandonRun, Txn.modify_ok] at h
  obtain ⟨_, m, hmove, rfl⟩ := h
  exact (countsKept_transition hmove).attempts r

theorem countsKept_createTask {input : TaskSpecInput} {now : String}
    {created : ProjectTask} {ts ts' : TaskStore}
    (h : createTask input now ts = .ok (created, ts')) : CountsKept ts ts' := by
  refine ⟨bound_of_moves (createTask_moves h), fun r => ?_⟩
  simp only [createTask, Txn.bind_ok, Txn.get_ok, Txn.orThrow_ok,
    Txn.throwIf_ok, Txn.set_ok, Txn.pure_ok] at h
  obtain ⟨spec, _, hspec, _, _, ⟨rfl, rfl⟩, _, _, ⟨-, rfl⟩, _, _, ⟨-, rfl⟩,
    _, _, htexts, tasks, _, ⟨htasks, rfl⟩, _, _, rfl, rfl, rfl⟩ := h
  cases (firstSpec_ok hspec).1
  cases checkTexts_ok htexts
  simp only [attemptsAt, TaskStore.getTask, Table.find?_insertOrdered? htasks]
  split
  · rename_i hr
    rw [hr, Table.fresh_of_insertOrdered? htasks]
    rfl
  · rfl

section Commit

variable {s : Project} {backlog : Backlog} {changes : TaskStatusChanges}
  {now : String} {ts : TaskStore} {u : Unit}

theorem bound_commitBacklog
    (h : commitBacklog backlog changes now s.tasks = .ok (u, ts)) (id : RunId)
    (hid : s.tasks.Bound id) : ts.Bound id := by
  have hmoves : StoreMoves true s.tasks ts :=
    Txn.forM_keeps (P := fun m => StoreMoves true s.tasks m)
      (fun _ _ _ _ hm hts => hts.trans (commitTask_moves hm)) h .refl
  exact bound_of_moves hmoves id hid

theorem getTask_commitBacklog
    (hrefs : backlog.map Task.ref = s.backlog.map Task.ref)
    (h : commitBacklog backlog changes now s.tasks = .ok (u, ts))
    {ref : TaskRef} {entry : Task} (hentry : findTask backlog ref = some entry) :
    CommittedRow changes now entry (s.tasks.record ref) (ts.record ref) := by
  have hnodup : (backlog.map Task.ref).Nodup :=
    hrefs ▸ nodup_readProjectBacklog s.tasks
  obtain ⟨hmem, rfl⟩ := findTask_eq_some hentry
  exact (commitBacklog_rows hnodup h).1 entry hmem

theorem attemptsAt_commitBacklog
    (hrefs : backlog.map Task.ref = s.backlog.map Task.ref)
    (h : commitBacklog backlog changes now s.tasks = .ok (u, ts))
    (ref : TaskRef) : attemptsAt ts ref = attemptsIn backlog ref := by
  unfold attemptsIn
  cases hentry : findTask backlog ref with
  | some entry =>
      obtain ⟨current, row, -, -, -, hafter⟩ :=
        getTask_commitBacklog hrefs h hentry
      have hrow : ts.getTask ref = some _ := hafter
      rw [attemptsAt, hrow]
      rfl
  | none =>
      have hnot : ref ∉ backlog.map Task.ref := by
        intro href
        obtain ⟨entry, hmem, rfl⟩ := List.mem_map.mp href
        have hself := List.find?_eq_none.mp hentry entry hmem
        simp at hself
      have hnodup : (backlog.map Task.ref).Nodup :=
        hrefs ▸ nodup_readProjectBacklog s.tasks
      have hsame := (commitBacklog_rows hnodup h).2 ref hnot
      have hget : ts.getTask ref = s.tasks.getTask ref := congrArg Prod.fst hsame
      have hbefore : s.tasks.getTask ref = none := by
        cases hrow : s.tasks.getTask ref with
        | none => rfl
        | some row =>
            have hfind : findTask s.backlog ref =
                some (projectTaskToBacklogTask row) := by
              rw [Project.backlog, findTask_readProjectBacklog, hrow]
              rfl
            obtain ⟨hmem, href⟩ := findTask_eq_some hfind
            rw [hrefs] at hnot
            exact absurd (List.mem_map.mpr ⟨_, hmem, href⟩) hnot
      rw [attemptsAt, hget, hbefore]
      rfl

def KeepsCount (g : Task → Task) : Prop :=
  ∀ task, (g task).ref = task.ref ∧ (g task).attemptCount = task.attemptCount

theorem countsKept_map {g : Task → Task} (hg : KeepsCount g)
    (h : commitBacklog (s.backlog.map g) changes now s.tasks = .ok (u, ts)) :
    CountsKept s.tasks ts := by
  have hrefs : (s.backlog.map g).map Task.ref = s.backlog.map Task.ref := by
    rw [List.map_map]
    exact List.map_congr_left fun task _ => (hg task).1
  refine ⟨bound_commitBacklog h, fun ref => ?_⟩
  rw [attemptsAt_commitBacklog hrefs h, ← attemptsIn_backlog, attemptsIn,
    attemptsIn, findTask, List.find?_map]
  have hcomp : (fun task => decide (task.ref = ref)) ∘ g =
      fun task => decide (task.ref = ref) := by
    funext task
    simp only [Function.comp, (hg task).1]
  rw [hcomp, Option.map_map]
  exact congrArg (Option.getD · 0)
    (Option.map_congr fun task _ => (hg task).2)

theorem countsKept_mutateTask {ref : TaskRef} {f : Task → Task}
    (hf : KeepsCount f)
    (h : commitBacklog (mutateTask s.backlog ref f) changes now s.tasks =
      .ok (u, ts)) : CountsKept s.tasks ts := by
  refine countsKept_map (fun task => ?_) h
  split
  · exact hf task
  · exact ⟨rfl, rfl⟩

end Commit

/-! ## What a call leaves of the runs -/

/-- Every stored claim names a run that the task store knows. -/
def AllBound (s : Project) : Prop :=
  ∀ c, c ∈ s.events.runs → s.tasks.Bound c.runId

/-- No run is added but under a fresh id, and none is revived. -/
structure Grounded (s t : Project) : Prop where
  one : OneActive s.events.runs → OneActive t.events.runs
  bound : ∀ id, s.tasks.Bound id → t.tasks.Bound id
  source : ∀ c, c ∈ t.events.runs →
    (∃ c₀, c₀ ∈ s.events.runs ∧ c₀.runId = c.runId ∧
      (c.active = true → c₀.active = true)) ∨
    t.tasks.Bound c.runId ∧ ¬ s.tasks.Bound c.runId

theorem Grounded.refl (s : Project) : Grounded s s where
  one := id
  bound _ := id
  source c hc := .inl ⟨c, hc, rfl, id⟩

theorem Grounded.trans (s m t : Project) (h : Grounded s m)
    (h' : Grounded m t) : Grounded s t := by
  refine ⟨fun hone => h'.one (h.one hone), fun id hid =>
    h'.bound id (h.bound id hid), fun c hc => ?_⟩
  rcases h'.source c hc with ⟨c', hc', hid', hlive'⟩ | ⟨hnew, hfresh⟩
  · rcases h.source c' hc' with ⟨c₀, hc₀, hid, hlive⟩ | ⟨hnew, hfresh⟩
    · exact .inl ⟨c₀, hc₀, hid.trans hid', fun ha => hlive (hlive' ha)⟩
    · rw [hid'] at hnew hfresh
      exact .inr ⟨h'.bound _ hnew, hfresh⟩
  · exact .inr ⟨hnew, fun hid => hfresh (h.bound _ hid)⟩

theorem Grounded.of_runs {s t : Project} (hruns : t.events.runs = s.events.runs)
    (hbound : ∀ id, s.tasks.Bound id → t.tasks.Bound id) : Grounded s t where
  one := by
    rw [hruns]
    exact id
  bound := hbound
  source c hc := .inl ⟨c, hruns ▸ hc, rfl, id⟩

theorem Grounded.allBound {s t : Project} (h : Grounded s t)
    (hs : AllBound s) : AllBound t := by
  intro c hc
  rcases h.source c hc with ⟨c₀, hc₀, hid, -⟩ | ⟨hnew, -⟩
  · rw [← hid]
    exact h.bound _ (hs c₀ hc₀)
  · exact hnew

/-- The run is known and has no active claim. -/
def Retired (s : Project) (runId : RunId) : Prop :=
  s.tasks.Bound runId ∧ s.live runId = false

theorem Grounded.retired {s t : Project} (h : Grounded s t) {runId : RunId}
    (hs : Retired s runId) : Retired t runId := by
  refine ⟨h.bound _ hs.1, Bool.eq_false_iff.mpr fun hlive => ?_⟩
  obtain ⟨c, hc, rfl, hactive⟩ := live_iff.mp hlive
  rcases h.source c hc with ⟨c₀, hc₀, hid, ha⟩ | ⟨-, hfresh⟩
  · have hold := live_iff.mpr ⟨c₀, hc₀, hid, ha hactive⟩
    rw [hs.2] at hold
    cases hold
  · exact hfresh hs.1

structure Steady (s t : Project) : Prop extends Grounded s t where
  attempts : ∀ ref, attemptsAt t.tasks ref = attemptsAt s.tasks ref

theorem Steady.refl (s : Project) : Steady s s := ⟨.refl s, fun _ => rfl⟩

theorem Steady.trans (s m t : Project) (h : Steady s m) (h' : Steady m t) :
    Steady s t :=
  ⟨Grounded.trans s m t h.toGrounded h'.toGrounded,
    fun ref => (h'.attempts ref).trans (h.attempts ref)⟩

/-! ## The commits of a call -/

def Subdues (p : Claim → Bool) (f : Claim → Claim) (claims : List Claim) :
    Prop :=
  ∀ c ∈ claims, p c = true →
    (f c).runId = c.runId ∧ ((f c).active = true → c.active = true)

theorem grounded_mutated {p : Claim → Bool} {f : Claim → Claim}
    {events : List OrcEvent} {s : Project} (hf : Subdues p f s.claims) :
    Ensures Grounded (onEvents (commitClaims dates (mutateClaims s.claims p f)
      events)) s := by
  refine ensures_atomically (.refl s) fun u db hdb => ?_
  obtain ⟨hsub, -, hone⟩ := commitClaims_sub hdb
  refine ⟨hone, fun _ hid => hid, fun c hc => ?_⟩
  obtain ⟨c₀, hc₀, rfl⟩ := List.mem_map.mp (hsub c hc)
  refine .inl ⟨c₀, hc₀, ?_⟩
  split
  · rename_i hp
    obtain ⟨hid, ha⟩ := hf c₀ hc₀ hp
    exact ⟨hid.symm, ha⟩
  · exact ⟨rfl, id⟩

theorem steady_mutated {p : Claim → Bool} {f : Claim → Claim}
    {events : List OrcEvent} {s : Project} (hf : Subdues p f s.claims) :
    Ensures Steady (onEvents (commitClaims dates (mutateClaims s.claims p f)
      events)) s := by
  refine ensures_of fun r t h => ⟨(grounded_mutated hf).snd h, fun ref => ?_⟩
  rcases onEvents_cases h with ⟨e, -, rfl⟩ | ⟨u, db, -, -, rfl⟩
  · rfl
  · rfl

theorem steady_append (event : OrcEvent) (s : Project) :
    Ensures Steady (onEvents (appendSequencedEvent dates event)) s := by
  refine ensures_atomically (.refl s) fun u db hdb => ?_
  obtain ⟨-, rfl⟩ := appendSequencedEvent_ok.mp hdb
  exact ⟨.of_runs rfl fun _ hid => hid, fun _ => rfl⟩

theorem steady_onTasks {α : Type} {x : Tasks α} {s : Project}
    (hx : ∀ a ts, x s.tasks = .ok (a, ts) → CountsKept s.tasks ts) :
    Ensures Steady (onTasks x) s :=
  ensures_atomically (.refl s) fun a ts h =>
    ⟨.of_runs rfl (hx a ts h).bound, (hx a ts h).attempts⟩

theorem steady_tasks {ref : TaskRef} {g : Task → Task}
    {changes : TaskStatusChanges} {now : String} {s : Project}
    (hg : KeepsCount g) :
    Ensures Steady (onTasks (commitBacklog (mutateTask s.backlog ref g) changes
      now)) s :=
  steady_onTasks fun _ _ h => countsKept_mutateTask hg h

theorem grounded_commitBoth {p : Claim → Bool} {f : Claim → Claim}
    {events : List OrcEvent} {backlog : Backlog} {changes : TaskStatusChanges}
    {now : String} {s : Project} (hf : Subdues p f s.claims) :
    Ensures Grounded (commitBoth dates (mutateClaims s.claims p f) events
      backlog changes now) s :=
  (grounded_mutated hf).bind Grounded.trans fun _ t _ =>
    ensures_atomically (.refl t) fun _ _ h =>
      .of_runs rfl (bound_commitBacklog h)

theorem steady_both {p : Claim → Bool} {f : Claim → Claim}
    {events : List OrcEvent} {g : Task → Task} {changes : TaskStatusChanges}
    {now : String} {s : Project} (hf : Subdues p f s.claims)
    (hg : KeepsCount g) :
    Ensures Steady (commitBoth dates (mutateClaims s.claims p f) events
      (s.backlog.map g) changes now) s := by
  refine (steady_mutated hf).bind Steady.trans fun _ t h => ?_
  rcases onEvents_cases h with ⟨e, he, -⟩ | ⟨u, db, -, -, rfl⟩
  · cases he
  · exact steady_onTasks fun _ _ hts => countsKept_map (s := s) hg hts

theorem steady_commitBoth {p : Claim → Bool} {f : Claim → Claim}
    {events : List OrcEvent} {ref : TaskRef} {g : Task → Task}
    {changes : TaskStatusChanges} {now : String} {s : Project}
    (hf : Subdues p f s.claims) (hg : KeepsCount g) :
    Ensures Steady (commitBoth dates (mutateClaims s.claims p f) events
      (mutateTask s.backlog ref g) changes now) s := by
  refine steady_both hf fun task => ?_
  split
  · exact hg task
  · exact ⟨rfl, rfl⟩

/-! ## Every call that ends no run of its task by a failure -/

theorem subdues_found {s : Project} {runId : RunId} {claim : Claim}
    {f : Claim → Claim} (hfind : s.findClaim runId = some claim)
    (hf : (f claim).runId = claim.runId ∧
      ((f claim).active = true → claim.active = true)) :
    Subdues (fun c => c.runId = claim.runId) f s.claims := by
  intro c hc hid
  rw [Table.eq_of_key hc (Table.mem_of_find? hfind) (of_decide_eq_true hid)]
  exact hf

theorem subdues_ended {p : Claim → Bool} {f : Claim → Claim}
    {claims : List Claim}
    (hf : ∀ c, (f c).runId = c.runId ∧ (f c).active = false) :
    Subdues p f claims := by
  intro c _ _
  refine ⟨(hf c).1, fun ha => ?_⟩
  rw [(hf c).2] at ha
  cases ha

theorem subdues_kept {p : Claim → Bool} {f : Claim → Claim}
    {claims : List Claim}
    (hf : ∀ c, (f c).runId = c.runId ∧ (f c).state = c.state) :
    Subdues p f claims := by
  intro c _ _
  refine ⟨(hf c).1, fun ha => ?_⟩
  rwa [Claim.active, (hf c).2] at ha

theorem steady_updateClaim {runId : RunId}
    {check : Claim → Except DomainError Unit} {f : Claim → Claim}
    {events : Claim → List OrcEvent}
    (hf : ∀ c, (f c).runId = c.runId ∧ (f c).state = c.state) (s : Project) :
    Ensures Steady (updateClaim dates runId check f events) s :=
  ensures_read (ensures_orThrow (.refl s) fun _ _ =>
    ensures_check (.refl s) fun _ _ =>
      (steady_mutated (subdues_kept hf)).result)

theorem steady_heartbeat {runId : RunId} {agentId : AgentId}
    {o : HeartbeatOptions} (s : Project) :
    Ensures Steady (heartbeat dates runId agentId o) s := by
  unfold heartbeat assertValidTimestamp
  refine ensures_read (ensures_check (.refl s) fun _ _ =>
    ensures_throwIf (.refl s) fun _ => ensures_throwIf (.refl s) fun _ =>
    ensures_throwIf (.refl s) fun _ => (steady_mutated ?_).result)
  exact subdues_kept fun _ => ⟨rfl, rfl⟩

theorem steady_renewLeaseOnly {runId : RunId} {lease now : Int} (s : Project) :
    Ensures Steady (renewLeaseOnly dates runId lease now) s := by
  unfold renewLeaseOnly
  refine ensures_read ?_
  split
  · exact ensures_pure (.refl s) ()
  · split
    · exact ensures_pure (.refl s) ()
    · exact steady_mutated (subdues_kept fun _ => ⟨rfl, rfl⟩)

theorem steady_startRun {runId : RunId} {agentId : AgentId} {o : StartOptions}
    {now : String} (s : Project) :
    Ensures Steady (startRun dates runId agentId o now) s := by
  unfold startRun assertValidTimestamp
  refine ensures_read (ensures_check (.refl s) fun claim hclaim => ?_)
  split
  · exact ensures_pure (.refl s) ()
  refine ensures_throwIf (.refl s) fun hstate =>
    ensures_throwIf (.refl s) fun _ => ?_
  have hf : Subdues (fun c => c.runId = claim.runId) (startClaim o.time)
      s.claims := by
    refine subdues_found (ownClaim_ok.mp hclaim).1 ⟨rfl, fun _ => ?_⟩
    rw [Claim.active, not_not.mp hstate]
    rfl
  unfold commitStart
  cases findTask s.backlog claim.taskRef with
  | none => exact steady_mutated hf
  | some task => exact steady_commitBoth hf fun _ => ⟨rfl, rfl⟩

theorem steady_expireRun {runId : RunId} {actorId : AgentId} {now : String}
    (s : Project) : Ensures Steady (expireRun dates runId actorId now) s := by
  unfold expireRun
  exact ensures_throwIf (.refl s) fun _ => ensures_read
    (ensures_orThrow (.refl s) fun _ _ => ensures_throwIf (.refl s) fun _ =>
    ensures_orThrow (.refl s) fun _ _ => ensures_throwIf (.refl s) fun _ =>
    steady_commitBoth (subdues_ended fun _ => ⟨rfl, rfl⟩) fun _ => ⟨rfl, rfl⟩)

theorem steady_cancelTask {ref : TaskRef} {reason : Option String}
    {actorId : AgentId} {now : String} (s : Project) :
    Ensures Steady (cancelTask dates registry ref reason actorId now) s := by
  unfold cancelTask requireActor requireRegistered requireTask
  refine ensures_throwIf (.refl s) fun _ => ensures_throwIf (.refl s) fun _ =>
    ensures_throwIf (.refl s) fun _ => ensures_read
    (ensures_orThrow (.refl s) fun task _ => ?_)
  split
  · exact ensures_pure (.refl s) _
  refine Ensures.result (Ensures.bind Steady.trans ?_ fun _ m h => ?_)
  · unfold cancelClaims
    split
    · exact ensures_pure (.refl s) ()
    · refine ensures_atomically (.refl s) fun u db hdb => ?_
      obtain ⟨hsub, -, hone⟩ := commitClaims_sub hdb
      refine ⟨⟨hone, fun _ hid => hid, fun c hc => ?_⟩, fun _ => rfl⟩
      exact .inl ⟨c, (List.mem_filter.mp (hsub c hc)).1, rfl, id⟩
  · have htasks : m.tasks = s.tasks := by
      rcases cancelClaims_cases h with ⟨-, rfl⟩ | ⟨-, htasks⟩
      · rfl
      · exact htasks.1
    refine Ensures.bind Steady.trans (steady_onTasks fun _ ts hts => ?_)
      fun _ t _ => steady_append _ t
    rw [htasks] at hts ⊢
    exact countsKept_mutateTask (f := cancelEntry) (fun _ => ⟨rfl, rfl⟩) hts

theorem steady_resetTask {ref : TaskRef} {actorId : AgentId} {now : String}
    (s : Project) : Ensures Steady (resetTask dates ref actorId now) s := by
  unfold resetTask requireActor requireTask
  exact ensures_throwIf (.refl s) fun _ => ensures_throwIf (.refl s) fun _ =>
    ensures_read (ensures_orThrow (.refl s) fun _ _ =>
    (steady_commitBoth (f := resetClaim now) (g := resetEntry)
      (subdues_ended fun _ => ⟨rfl, rfl⟩) fun _ => ⟨rfl, rfl⟩).result)

theorem steady_unblockTask {ref : TaskRef} {reason : Option String}
    {actorId : AgentId} {now : String} (s : Project) :
    Ensures Steady (unblockTask dates ref reason actorId now) s := by
  unfold unblockTask requireActor requireTask
  exact ensures_throwIf (.refl s) fun _ => ensures_throwIf (.refl s) fun _ =>
    ensures_read (ensures_orThrow (.refl s) fun _ _ =>
    ensures_throwIf (.refl s) fun _ =>
    (steady_tasks (g := unblockEntry) fun _ => ⟨rfl, rfl⟩).bind Steady.trans
      fun _ t _ => steady_append _ t)

theorem steady_delegateTask {args : DelegateArgs} {now : String} (s : Project) :
    Ensures Steady (delegateTask dates registry args now) s := by
  unfold delegateTask requireActor requireRegistered requireTask
  exact ensures_throwIf (.refl s) fun _ => ensures_throwIf (.refl s) fun _ =>
    ensures_throwIf (.refl s) fun _ => ensures_read
    (ensures_orThrow (.refl s) fun _ _ =>
    ensures_check (.refl s) fun target _ =>
    ((steady_tasks (g := delegatedTask args target) fun _ =>
      ⟨rfl, rfl⟩).bind Steady.trans fun _ t _ => steady_append _ t).result)

theorem steady_markTaskDoneRuntimeOnly {ref : TaskRef} {actorId : AgentId}
    {now : String} (s : Project) :
    Ensures Steady (markTaskDoneRuntimeOnly dates ref actorId now) s := by
  unfold markTaskDoneRuntimeOnly requireTask
  refine ensures_read (ensures_orThrow (.refl s) fun task _ =>
    ensures_throwIf (.refl s) fun _ => Ensures.bind Steady.trans ?_ fun _ t _ =>
    (steady_append _ t).result)
  unfold completeTask
  split
  · exact ensures_pure (.refl s) ()
  · exact steady_tasks (g := completeEntry) fun _ => ⟨rfl, rfl⟩

theorem steady_reconcileState {now : String} (s : Project) :
    Ensures Steady (reconcileState dates now) s := by
  unfold reconcileState
  refine ensures_read (Ensures.bind Steady.trans ?_ fun _ m h => ?_)
  · unfold commitRepairs
    split
    · exact ensures_pure (.refl s) ()
    · refine steady_onTasks fun _ _ hts => countsKept_map (fun task => ?_) hts
      cases inspectTask s.claims s.backlog task <;> exact ⟨rfl, rfl⟩
  · have hevents : m.events = s.events := by
      unfold commitRepairs at h
      split at h
      · cases h
        rfl
      · rcases onTasks_cases h with ⟨e, -, rfl⟩ | ⟨_, ts, -, -, rfl⟩ <;> rfl
    have hclaims : s.claims = m.claims := by
      rw [Project.claims, Project.claims, hevents]
    unfold commitFailures reconciledClaims
    split
    · exact ensures_pure (.refl m) ()
    · rw [hclaims]
      exact steady_mutated (subdues_ended fun _ => ⟨rfl, rfl⟩)

theorem steady_resetVolatileRuntimeStateForSession {now : String} (s : Project) :
    Ensures Steady (resetVolatileRuntimeStateForSession dates now) s := by
  unfold resetVolatileRuntimeStateForSession
  refine ensures_read (Ensures.bind Steady.trans ?_ fun _ m h =>
    Ensures.result ?_)
  · refine steady_onTasks fun _ _ hts => countsKept_map (fun task => ?_) hts
    unfold sessionResetTask
    split <;> exact ⟨rfl, rfl⟩
  · rcases onTasks_cases h with ⟨e, he, -⟩ | ⟨_, ts, -, -, rfl⟩
    · cases he
    · exact steady_mutated (s := s.setTasks ts)
        (subdues_ended fun _ => ⟨rfl, rfl⟩)

theorem steady_killAll {now : String} (s : Project) :
    Ensures Steady (killAll dates now) s := by
  unfold killAll
  refine ensures_read (steady_both (subdues_ended fun _ => ⟨rfl, rfl⟩)
    fun task => ?_)
  unfold killAllTask
  split <;> exact ⟨rfl, rfl⟩

theorem steady_createTask {input : TaskSpecInput} {now : String} (s : Project) :
    Ensures Steady (onTasks (createTask input now)) s :=
  steady_onTasks fun _ _ h => countsKept_createTask h

theorem steady_claimTask {ref : TaskRef} {agentId : AgentId} {lease : Int}
    {runId : RunId} {snapshot : Except DomainError Unit} {now : Int}
    {s : Project} (hbound : AllBound s) :
    Ensures Steady (claimTask dates ref agentId lease runId snapshot now) s := by
  refine ensures_of fun r t h => ?_
  rcases claimTask_cases hbound h with
    rfl | ⟨-, pinned, ts, hclaim, ⟨htasks, hadded⟩ | ⟨-, hevents, htasks⟩⟩
  · exact .refl _
  · have hkept := countsKept_claimTask hclaim
    obtain ⟨-, -, -, -, hnew, -, hids⟩ := claimTask_ok hclaim
    refine ⟨⟨hadded.one, ?_, fun c hc => ?_⟩, ?_⟩
    · rw [htasks]
      exact hkept.bound
    · rcases (hadded.mem c).mp hc with hold | rfl
      · exact .inl ⟨c, hold, rfl, id⟩
      · rw [htasks]
        exact .inr ⟨(hids runId).mpr (.inr rfl), hnew⟩
    · rw [htasks]
      exact hkept.attempts
  · have hkept : CountsKept s.tasks t.tasks := by
      rcases htasks with htasks | ⟨u, hreturn⟩
      · rw [htasks]
        exact countsKept_claimTask hclaim
      · exact (countsKept_claimTask hclaim).trans (countsKept_returnTask hreturn)
    exact ⟨.of_runs (by rw [hevents]) hkept.bound, hkept.attempts⟩

end OrcState.Lifecycle
