import OrcState.Lifecycle.Agreement
import OrcState.Store.ClaimRows

/-!
# A claim over two databases and a file

`claimTask` holds the task in one database, writes the body of the pinned
revision to a file of the run, and commits the claim with its event in the other
database.  When a later part fails the task is returned: what was held is
released, and only the record of both transitions, the closed binding and the
file stay behind.
-/

namespace OrcState.Lifecycle

open OrcState.Contract OrcState.Foundation OrcState.Store
open OrcState.Foundation.Effect

/-! ## The state directory -/

structure TaskSpecSnapshot where
  sourcePath : String
  snapshotPath : String
  sha256 : String
  taskRevision : Nat
  deriving DecidableEq, Repr

structure StateDir where
  project : Project := {}
  runSpecs : List (RunId × String) := []
  snapshots : List (RunId × TaskSpecSnapshot) := []
  deriving DecidableEq

abbrev DirOp (α : Type) := Effect StateDir DomainError α

def inProject {α : Type} (x : Op α) : DirOp α := fun w =>
  ((x w.project).1, { w with project := (x w.project).2 })

theorem inProject_cases {α : Type} {x : Op α} {w w' : StateDir}
    {r : Except DomainError α} (h : inProject x w = (r, w')) :
    ∃ t, x w.project = (r, t) ∧ w' = { w with project := t } := by
  cases h
  exact ⟨_, rfl, rfl⟩

theorem inProject_of_eq {α : Type} {x : Op α} {w : StateDir} {t : Project}
    {r : Except DomainError α} (h : x w.project = (r, t)) :
    inProject x w = (r, { w with project := t }) := by
  rw [inProject, h]

structure SpecHost where
  stateDir : String
  bodyMarkdown : TaskRef → Nat → String
  scanForInjection : String → List String
  documentHash : String → String

/--
What fails from outside: the file, with what is left of it, and the commit.
-/
structure Faults where
  file : Option (Option String × DomainError) := none
  commit : Option DomainError := none
  deriving DecidableEq, Repr

def injectionScanError (findings : List String) : DomainError :=
  plainError ("Injection scan blocked dispatch: " ++
    "; ".intercalate findings)

def specPath (host : SpecHost) (runId : RunId) : String :=
  host.stateDir ++ "/run-specs/" ++ runId ++ ".md"

def StateDir.addSpec (w : StateDir) (runId : RunId) (text : String) :
    StateDir :=
  { w with runSpecs := w.runSpecs ++ [(runId, text)] }

def writeSpec (fault : Option (Option String × DomainError)) (runId : RunId)
    (text : String) : DirOp Unit := fun w =>
  match fault with
  | none => (.ok (), w.addSpec runId text)
  | some (none, e) => (.error e, w)
  | some (some left, e) => (.error e, w.addSpec runId left)

def taskSpecSnapshot (host : SpecHost) (runId : RunId)
    (revision : ProjectTask) : TaskSpecSnapshot where
  sourcePath := "project-task:" ++ revision.ref ++ "@" ++
    toString revision.revision
  snapshotPath := specPath host runId
  sha256 := host.documentHash
    (host.bodyMarkdown revision.ref revision.revision)
  taskRevision := revision.revision

def writeRunRevisionSnapshot (host : SpecHost) (faults : Faults)
    (runId : RunId) (revision : ProjectTask) : DirOp TaskSpecSnapshot := do
  let body := host.bodyMarkdown revision.ref revision.revision
  let findings := host.scanForInjection body
  Effect.throwIf (findings ≠ []) (injectionScanError findings)
  let w ← Effect.read
  Effect.throwIf ((w.runSpecs.lookup runId).isSome = true)
    (plainError ("EEXIST: file already exists, open '" ++
      specPath host runId ++ "'"))
  writeSpec faults.file runId body
  pure (taskSpecSnapshot host runId revision)

/-! ## claimTask -/

variable (dates : DateApi)

def holdTask (ref : TaskRef) (agentId : AgentId) (runId : RunId)
    (claimedAt : String) : Op ProjectTask := do
  let s ← Effect.read
  let task ← Effect.orThrow (findTask s.backlog ref)
    (notFoundError ("Task not found: " ++ ref))
  Effect.throwIf (task.status ≠ .todo)
    (conflictError ("Task not claimable (status: " ++ task.status.text ++
      "): " ++ ref))
  Effect.throwIf (truthy task.owner = true ∧ task.owner ≠ some agentId)
    (conflictError ("Task " ++ ref ++ " is reserved for agent \"" ++
      task.owner.getD "" ++ "\" - claiming agent \"" ++ agentId ++
      "\" is not the owner"))
  Effect.ofExcept (unclaimed s ref)
  onTasks (TaskStore.claimTask ref runId agentId claimedAt)

def recordSnapshot (runId : RunId) (snapshot : TaskSpecSnapshot) :
    DirOp Unit := fun w =>
  (.ok (), { w with snapshots := w.snapshots ++ [(runId, snapshot)] })

def commitSnapshotClaim (host : SpecHost) (faults : Faults) (claim : Claim)
    (revision : ProjectTask) : DirOp Unit := do
  let snapshot ← writeRunRevisionSnapshot host faults claim.runId revision
  inProject (commitNewClaim dates claim
    (match faults.commit with
    | some e => .error e
    | none => .ok ()))
  recordSnapshot claim.runId snapshot

def StateDir.claimTask (host : SpecHost) (ref : TaskRef) (agentId : AgentId)
    (leaseDurationMs : Int) (runId : RunId) (faults : Faults) (now : Int) :
    DirOp (RunId × String) := do
  let claimedAt := dates.toISOString now
  let leaseExpiresAt := dates.toISOString (now + leaseDurationMs)
  let claim := newClaim runId ref agentId claimedAt leaseExpiresAt
  let revision ← inProject (holdTask ref agentId runId claimedAt)
  Effect.catching (commitSnapshotClaim dates host faults claim revision)
    fun error => do
      inProject (onTasks (returnTask ref runId agentId claimedAt))
      Effect.ofExcept (.error error)
  pure (runId, leaseExpiresAt)

/-! ## The task is held -/

variable {dates}

structure Holdable (s : Project) (task : ProjectTask) (agentId : AgentId)
    (runId : RunId) : Prop where
  claimable : s.tasks.Claimable task agentId
  free : ∀ c, c ∈ s.events.runs → c.active = true → c.taskRef ≠ task.ref
  new : ¬ s.tasks.Bound runId

theorem unclaimed_of_free {s : Project} {ref : TaskRef}
    (h : ∀ c, c ∈ s.events.runs → c.active = true → c.taskRef ≠ ref) :
    unclaimed s ref = .ok () := by
  unfold unclaimed
  have hnone : (s.claims.find? fun c => c.taskRef = ref && c.active) = none := by
    refine List.find?_eq_none.mpr fun c hc hfound => ?_
    rw [Bool.and_eq_true, decide_eq_true_eq] at hfound
    exact h c hc hfound.2 hfound.1
  rw [hnone]

theorem owner_entry {task : ProjectTask} {agentId : AgentId} :
    (truthy (projectTaskToBacklogTask task).owner = true ∧
      (projectTaskToBacklogTask task).owner ≠ some agentId) ↔
      (truthy task.dispatch.owner = true ∧
        task.dispatch.owner ≠ some agentId) := by
  simp only [projectTaskToBacklogTask, nonEmpty]
  cases task.dispatch.owner with
  | none => simp
  | some owner =>
      by_cases howner : owner = ""
      · simp [howner, truthy, Option.filter]
      · simp [howner, truthy, Option.filter]

/-- The call is refused, or the task is one that may be held and now is. -/
theorem holdTask_cases {ref : TaskRef} {agentId : AgentId} {runId : RunId}
    {now : String} {s t : Project} {r : Except DomainError ProjectTask}
    (h : holdTask ref agentId runId now s = (r, t)) :
    Refused s r t ∨ ∃ task, task.ref = ref ∧ Holdable s task agentId runId ∧
      r = .ok (ProjectTask.moved .claimed none now task) ∧
      t.events = s.events ∧
      (s.tasks.Idle ref →
        ClaimWritten s.tasks t.tasks task runId agentId now) := by
  simp only [holdTask, read_bind] at h
  rcases orThrow_cases h with hno | ⟨entry, -, h⟩
  · exact .inl hno
  rcases throwIf_cases h with hno | ⟨-, h⟩
  · exact .inl hno
  rcases throwIf_cases h with hno | ⟨-, h⟩
  · exact .inl hno
  rcases ofExcept_cases h with hno | ⟨⟨⟩, hfree, h⟩
  · exact .inl hno
  rcases onTasks_cases h with ⟨e, rfl, rfl⟩ | ⟨pinned, ts, hclaim, rfl, rfl⟩
  · exact .inl ⟨⟨e, rfl⟩, rfl⟩
  obtain ⟨task, rfl, hclaimable, rfl, hnew, hwritten⟩ :=
    claimTask_claimable hclaim
  exact .inr ⟨task, rfl, ⟨hclaimable, unclaimed_ok hfree, hnew⟩, rfl, rfl,
    hwritten⟩

theorem Holdable.hold {s : Project} {task : ProjectTask} {agentId : AgentId}
    {runId : RunId} (h : Holdable s task agentId runId) (now : String) :
    ∃ t, holdTask task.ref agentId runId now s =
      (.ok (ProjectTask.moved .claimed none now task), t) := by
  obtain ⟨ts, hclaim⟩ := h.claimable.claimTask h.new now
  have hfound : findTask s.backlog task.ref =
      some (projectTaskToBacklogTask task) := by
    rw [Project.backlog, findTask_readProjectBacklog, h.claimable.stored]
    rfl
  refine ⟨s.setTasks ts, ?_⟩
  simp only [holdTask, read_bind, orThrow_bind, throwIf_bind, ofExcept_bind,
    hfound, unclaimed_of_free h.free]
  rw [if_neg (by simp [projectTaskToBacklogTask, h.claimable.todo]),
    if_neg (fun howner => h.claimable.owner (owner_entry.mp howner))]
  simp only [onTasks, atomically, hclaim]

/-! ## The snapshot and the commit -/

structure Committable (dates : DateApi) (host : SpecHost) (faults : Faults)
    (w : StateDir) (claim : Claim) (revision : ProjectTask) : Prop where
  safe : host.scanForInjection
    (host.bodyMarkdown revision.ref revision.revision) = []
  file : w.runSpecs.lookup claim.runId = none
  written : faults.file = none
  committed : faults.commit = none
  valid : ValidEvent dates
    (runEvent claim.claimedAt .claimCreated .agent claim.agentId claim
      [("lease_expires_at", .str claim.leaseExpiresAt)])

def StateDir.committed (host : SpecHost) (claim : Claim)
    (revision : ProjectTask) (w : StateDir) : StateDir where
  project := w.project.setEvents
    (({ w.project.events with
        runs := w.project.events.runs.upsert claim } : EventsDb).logged
      (runEvent claim.claimedAt .claimCreated .agent claim.agentId claim
        [("lease_expires_at", .str claim.leaseExpiresAt)]))
  runSpecs := w.runSpecs ++ [(claim.runId,
    host.bodyMarkdown revision.ref revision.revision)]
  snapshots := w.snapshots ++
    [(claim.runId, taskSpecSnapshot host claim.runId revision)]

/-- All that a failed second half may leave is a file of the run. -/
structure OnlyFile (w w' : StateDir) (runId : RunId) : Prop where
  project : w'.project = w.project
  snapshots : w'.snapshots = w.snapshots
  runSpecs : w'.runSpecs = w.runSpecs ∨
    ∃ text, w'.runSpecs = w.runSpecs ++ [(runId, text)]

theorem OnlyFile.refl (w : StateDir) (runId : RunId) : OnlyFile w w runId :=
  ⟨rfl, rfl, .inl rfl⟩

theorem writeSpec_cases {fault : Option (Option String × DomainError)}
    {runId : RunId} {text : String} {w w' : StateDir}
    {r : Except DomainError Unit} (h : writeSpec fault runId text w = (r, w')) :
    (∃ e, r = .error e) ∧ OnlyFile w w' runId ∨
      r = .ok () ∧ fault = none ∧ w' = w.addSpec runId text := by
  unfold writeSpec at h
  split at h
  · cases h
    exact .inr ⟨rfl, rfl, rfl⟩
  · cases h
    exact .inl ⟨⟨_, rfl⟩, .refl w runId⟩
  · cases h
    exact .inl ⟨⟨_, rfl⟩, rfl, rfl, .inr ⟨_, rfl⟩⟩

theorem writeRunRevisionSnapshot_cases {host : SpecHost} {faults : Faults}
    {runId : RunId} {revision : ProjectTask} {w w' : StateDir}
    {r : Except DomainError TaskSpecSnapshot}
    (h : writeRunRevisionSnapshot host faults runId revision w = (r, w')) :
    (∃ e, r = .error e) ∧ OnlyFile w w' runId ∨
      r = .ok (taskSpecSnapshot host runId revision) ∧
        host.scanForInjection
          (host.bodyMarkdown revision.ref revision.revision) = [] ∧
        w.runSpecs.lookup runId = none ∧ faults.file = none ∧
        w' = w.addSpec runId
          (host.bodyMarkdown revision.ref revision.revision) := by
  unfold writeRunRevisionSnapshot at h
  rcases throwIf_cases h with ⟨he, rfl⟩ | ⟨hsafe, h⟩
  · exact .inl ⟨he, .refl w' runId⟩
  rw [read_bind] at h
  rcases throwIf_cases h with ⟨he, rfl⟩ | ⟨hfile, h⟩
  · exact .inl ⟨he, .refl w' runId⟩
  rcases bind_cases h with ⟨e, hwrite, rfl⟩ | ⟨⟨⟩, m, hwrite, h⟩
  · rcases writeSpec_cases hwrite with ⟨-, honly⟩ | ⟨he, -⟩
    · exact .inl ⟨⟨e, rfl⟩, honly⟩
    · cases he
  rcases writeSpec_cases hwrite with ⟨⟨e, he⟩, -⟩ | ⟨-, hfault, rfl⟩
  · cases he
  cases h
  exact .inr ⟨rfl, not_not.mp hsafe, Option.not_isSome_iff_eq_none.mp hfile,
    hfault, rfl⟩

theorem commitNewClaim_stored {claim : Claim} {fault : Except DomainError Unit}
    {s t : Project} {r : Except DomainError Unit}
    (hkeys : s.events.Referenced) (hone : OneActive s.events.runs)
    (hfree : ∀ c, c ∈ s.events.runs → c.active = true →
      c.taskRef ≠ claim.taskRef)
    (h : commitNewClaim dates claim fault s = (r, t)) :
    Refused s r t ∨ r = .ok () ∧ fault = .ok () ∧
      ValidEvent dates
        (runEvent claim.claimedAt .claimCreated .agent claim.agentId claim
          [("lease_expires_at", .str claim.leaseExpiresAt)]) ∧
      t = s.setEvents
        (({ s.events with runs := s.events.runs.upsert claim } :
          EventsDb).logged
          (runEvent claim.claimedAt .claimCreated .agent claim.agentId claim
            [("lease_expires_at", .str claim.leaseExpiresAt)])) := by
  rcases ofExcept_cases h with hno | ⟨⟨⟩, hfault, h⟩
  · exact .inl hno
  rw [read_bind] at h
  rcases onEvents_cases h with ⟨e, rfl, rfl⟩ | ⟨⟨⟩, db, hdb, rfl, rfl⟩
  · exact .inl ⟨⟨e, rfl⟩, rfl⟩
  have hvalid := (commitClaims_sub hdb).2.1 _ (List.mem_singleton.mpr rfl)
  have hwritten := commitClaims_new hkeys hone hfree hvalid
  cases hdb.symm.trans hwritten
  exact .inr ⟨rfl, hfault, hvalid, rfl⟩

theorem commitSnapshotClaim_cases {host : SpecHost} {faults : Faults}
    {claim : Claim} {revision : ProjectTask} {w w' : StateDir}
    {r : Except DomainError Unit} (hkeys : w.project.events.Referenced)
    (hone : OneActive w.project.events.runs)
    (hfree : ∀ c, c ∈ w.project.events.runs → c.active = true →
      c.taskRef ≠ claim.taskRef)
    (h : commitSnapshotClaim dates host faults claim revision w = (r, w')) :
    (∃ e, r = .error e) ∧ OnlyFile w w' claim.runId ∨
      r = .ok () ∧ Committable dates host faults w claim revision ∧
        w' = w.committed host claim revision := by
  rcases bind_cases h with ⟨e, hsnap, rfl⟩ | ⟨snapshot, m, hsnap, h⟩
  · rcases writeRunRevisionSnapshot_cases hsnap with ⟨-, honly⟩ | ⟨he, -⟩
    · exact .inl ⟨⟨e, rfl⟩, honly⟩
    · cases he
  rcases writeRunRevisionSnapshot_cases hsnap with
    ⟨⟨e, he⟩, -⟩ | ⟨hr, hsafe, hfile, hwritten, rfl⟩
  · cases he
  cases hr
  rcases bind_cases h with ⟨e, hcommit, rfl⟩ | ⟨⟨⟩, n, hcommit, h⟩
  · obtain ⟨t, hnew, rfl⟩ := inProject_cases hcommit
    rcases commitNewClaim_stored hkeys hone hfree hnew with
      ⟨-, rfl⟩ | ⟨he, -⟩
    · exact .inl ⟨⟨e, rfl⟩, rfl, rfl, .inr ⟨_, rfl⟩⟩
    · cases he
  · obtain ⟨t, hnew, rfl⟩ := inProject_cases hcommit
    rcases commitNewClaim_stored hkeys hone hfree hnew with
      ⟨⟨e, he⟩, -⟩ | ⟨-, hfault, hvalid, rfl⟩
    · cases he
    · cases h
      have hcommitted : faults.commit = none := by
        split at hfault
        · cases hfault
        · assumption
      exact .inr ⟨rfl, ⟨hsafe, hfile, hwritten, hcommitted, hvalid⟩, rfl⟩

theorem Committable.commit {host : SpecHost} {faults : Faults} {w : StateDir}
    {claim : Claim} {revision : ProjectTask}
    (h : Committable dates host faults w claim revision)
    (hkeys : w.project.events.Referenced)
    (hone : OneActive w.project.events.runs)
    (hfree : ∀ c, c ∈ w.project.events.runs → c.active = true →
      c.taskRef ≠ claim.taskRef) :
    commitSnapshotClaim dates host faults claim revision w =
      (.ok (), w.committed host claim revision) := by
  have hrows := commitClaims_new hkeys hone hfree h.valid
  have hcommit : commitNewClaim dates claim (.ok ()) w.project =
      (.ok (), (w.committed host claim revision).project) := by
    simp only [commitNewClaim, ofExcept_bind, read_bind, onEvents, atomically,
      Project.claims, hrows]
    rfl
  have hsnap : writeRunRevisionSnapshot host faults claim.runId revision w =
      (.ok (taskSpecSnapshot host claim.runId revision), w.addSpec claim.runId
        (host.bodyMarkdown revision.ref revision.revision)) := by
    simp only [writeRunRevisionSnapshot, throwIf_bind, read_bind]
    rw [if_neg (not_not.mpr h.safe), if_neg (by simp [h.file])]
    rw [bind_of_ok (t := w.addSpec claim.runId
      (host.bodyMarkdown revision.ref revision.revision)) (a := ())]
    · rfl
    · simp only [writeSpec, h.written]
  unfold commitSnapshotClaim
  rw [bind_of_ok hsnap]
  simp only [bind_apply, inProject, StateDir.addSpec, h.committed, hcommit]
  rfl

/-! ## The whole call -/

structure NewRun (s : Project) (runId : RunId) : Prop where
  claims : ∀ c, c ∈ s.events.runs → c.runId ≠ runId
  bindings : ¬ s.tasks.Bound runId

def ProjectTask.core (task : ProjectTask) : ProjectTask :=
  { task with blockedReason := none, updatedAt := "" }

def SameCore (ts ts' : TaskStore) : Prop :=
  ∀ r, (ts'.getTask r).map ProjectTask.core =
    (ts.getTask r).map ProjectTask.core

/-- The claim, its event and its rows, its file and its snapshot, and no more. -/
structure FullyClaimed (host : SpecHost) (claim : Claim) (task : ProjectTask)
    (w w' : StateDir) : Prop where
  stored : w.project.tasks.getTask task.ref = some task
  todo : task.status = .todo
  runs : w'.project.claims = w.project.claims ++ [claim]
  events : w'.project.events.events = w.project.events.events ++
    [{ runEvent claim.claimedAt .claimCreated .agent claim.agentId claim
        [("lease_expires_at", .str claim.leaseExpiresAt)] with
      seq := w.project.events.lastSeq + 1 }]
  lastSeq : w'.project.events.lastSeq = w.project.events.lastSeq + 1
  sessions : w'.project.events.sessions = w.project.events.sessions
  commands : w'.project.events.commands = w.project.events.commands
  tasks : ClaimWritten w.project.tasks w'.project.tasks task claim.runId
    claim.agentId claim.claimedAt
  runSpecs : w'.runSpecs = w.runSpecs ++
    [(claim.runId, host.bodyMarkdown task.ref task.revision)]
  newSpec : w.runSpecs.lookup claim.runId = none
  snapshots : w'.snapshots = w.snapshots ++
    [(claim.runId, taskSpecSnapshot host claim.runId task)]

/-- What a call that threw leaves of the two databases. -/
structure TakenBack (w w' : StateDir) (runId : RunId) : Prop where
  events : w'.project.events = w.project.events
  snapshots : w'.snapshots = w.snapshots
  tasks : SameCore w.project.tasks w'.project.tasks
  bindings : ∀ r, w'.project.tasks.runsAt r = w.project.tasks.runsAt r
  closed : ∀ run, run ∈ w'.project.tasks.taskRuns → run.runId = runId →
    run.active = false
  bound : ∀ id, w.project.tasks.Bound id → w'.project.tasks.Bound id
  files : ∀ id, ¬ w'.project.tasks.Bound id →
    w'.runSpecs.lookup id = w.runSpecs.lookup id

theorem TakenBack.refl {w : StateDir} {runId : RunId}
    (hnew : NewRun w.project runId) : TakenBack w w runId where
  events := rfl
  snapshots := rfl
  tasks _ := rfl
  bindings _ := rfl
  closed run hrun hid := absurd ⟨run, hrun, hid⟩ hnew.bindings
  bound _ := id
  files _ _ := rfl

theorem lookup_append_of_ne {l : List (RunId × String)} {id id' : RunId}
    {text : String} (h : id' ≠ id) :
    (l ++ [(id, text)]).lookup id' = l.lookup id' := by
  have hne : (id' == id) = false := beq_eq_false_iff_ne.mpr h
  rw [List.lookup_append, List.lookup_cons, hne]
  exact Option.or_none

theorem OnlyFile.lookup {w w' : StateDir} {runId id : RunId}
    (h : OnlyFile w w' runId) (hne : id ≠ runId) :
    w'.runSpecs.lookup id = w.runSpecs.lookup id := by
  rcases h.runSpecs with hsame | ⟨text, hsame⟩
  · rw [hsame]
  · rw [hsame, lookup_append_of_ne hne]

theorem mem_rows_append {ts ts' : TaskStore} {run : TaskRun}
    (h : ts'.taskRuns.rows = ts.taskRuns.rows ++ [run]) (x : TaskRun) :
    x ∈ ts'.taskRuns ↔ x ∈ ts.taskRuns ∨ x = run := by
  rw [Table.mem_rows, h, List.mem_append, List.mem_singleton]
  rfl

theorem runsAt_of_closed {ts ts' : TaskStore} {run : TaskRun}
    (h : ts'.taskRuns.rows = ts.taskRuns.rows ++ [run])
    (hclosed : run.active = false) (r : TaskRef) :
    ts'.runsAt r = ts.runsAt r := by
  ext id
  constructor
  · rintro ⟨x, hx, hactive, href, hid⟩
    rcases (mem_rows_append h x).mp hx with hold | rfl
    · exact ⟨x, hold, hactive, href, hid⟩
    · rw [hclosed] at hactive
      cases hactive
  · rintro ⟨x, hx, hactive, href, hid⟩
    exact ⟨x, (mem_rows_append h x).mpr (.inl hx), hactive, href, hid⟩

theorem TakenBack.of_returned {w m w' : StateDir} {ts : TaskStore}
    {task : ProjectTask} {runId : RunId} {agentId : AgentId} {now : String}
    (h : ClaimReturned w.project.tasks ts task runId agentId now)
    (hnew : NewRun w.project runId)
    (hstored : w.project.tasks.getTask task.ref = some task)
    (htodo : task.status = .todo) (hevents : m.project.events = w.project.events)
    (hfiles : m.runSpecs = w.runSpecs) (hsnapshots : m.snapshots = w.snapshots)
    (honly : OnlyFile m w' runId) :
    TakenBack w { w' with project := w'.project.setTasks ts } runId := by
  have hmem := mem_rows_append h.taskRuns
  refine ⟨?_, honly.snapshots.trans hsnapshots, fun r => ?_,
    runsAt_of_closed h.taskRuns rfl, fun run hrun hid => ?_,
    fun id hid => ?_, fun id hid => ?_⟩
  · rw [setTasks_events, honly.project, hevents]
  · simp only [setTasks_tasks, TaskStore.getTask, h.tasks, Table.find?_update]
    split
    · rename_i hr
      subst hr
      change Option.map _ (Option.map _ (w.project.tasks.getTask task.ref)) =
        Option.map _ (w.project.tasks.getTask task.ref)
      rw [hstored]
      simp [ProjectTask.moved, ProjectTask.core, htodo]
    · rfl
  · rcases (hmem run).mp hrun with hold | rfl
    · exact absurd ⟨run, hold, hid⟩ hnew.bindings
    · rfl
  · obtain ⟨run, hrun, hrunid⟩ := hid
    exact ⟨run, (hmem run).mpr (.inl hrun), hrunid⟩
  · have hne : id ≠ runId := by
      rintro rfl
      exact hid ⟨_, (hmem _).mpr (.inr rfl), rfl⟩
    rw [← hfiles]
    exact honly.lookup hne

theorem FullyClaimed.of_committed {host : SpecHost} {w : StateDir}
    {t : Project} {claim : Claim} {task : ProjectTask}
    (hclaimable : w.project.tasks.Claimable task claim.agentId)
    (hnew : NewRun w.project claim.runId)
    (hfile : w.runSpecs.lookup claim.runId = none)
    (hevents : t.events = w.project.events)
    (hrows : ClaimWritten w.project.tasks t.tasks task claim.runId
      claim.agentId claim.claimedAt) :
    FullyClaimed host claim task w
      ({ w with project := t }.committed host claim
        (ProjectTask.moved .claimed none claim.claimedAt task)) where
  stored := hclaimable.stored
  todo := hclaimable.todo
  runs := by
    change (t.events.runs.upsert claim).rows = w.project.events.runs.rows ++ _
    rw [hevents]
    exact Table.rows_upsert_of_fresh hnew.claims
  events := by
    rw [← hevents]
    rfl
  lastSeq := by
    change t.events.lastSeq + 1 = _
    rw [hevents]
  sessions := by
    change t.events.sessions = _
    rw [hevents]
  commands := by
    change t.events.commands = _
    rw [hevents]
  tasks := hrows
  runSpecs := rfl
  newSpec := hfile
  snapshots := rfl

structure ClaimReady (s : Project) : Prop where
  one : OneActive s.events.runs
  keys : s.events.Referenced
  idle : ∀ task, s.tasks.getTask task.ref = some task →
    task.status = .todo → s.tasks.Idle task.ref

theorem StoresAgree.claimReady {s : Project} (h : StoresAgree s)
    (hkeys : s.events.Referenced) : ClaimReady s where
  one c hc c' hc' ha ha' href :=
    congrArg Claim.runId (h.unique c hc c' hc' ha ha' href)
  keys := hkeys
  idle task hstored htodo :=
    (h.free task (Table.mem_of_find? hstored) (.inl htodo)).2

/-! ## After a claim that is made -/

theorem ClaimReady.logged {s : Project} (h : ClaimReady s) (e : OrcEvent) :
    ClaimReady (s.setEvents (s.events.logged e)) :=
  ⟨h.one, ⟨h.keys.sessions, h.keys.commands⟩, h.idle⟩

theorem FullyClaimed.getTask {host : SpecHost} {w w' : StateDir}
    {claim : Claim} {task : ProjectTask}
    (h : FullyClaimed host claim task w w') (r : TaskRef) :
    w'.project.tasks.getTask r =
      if r = task.ref then
        some (ProjectTask.moved .claimed none claim.claimedAt task)
      else w.project.tasks.getTask r := by
  rw [TaskStore.getTask, h.tasks.tasks]
  by_cases hr : r = task.ref
  · subst hr
    rw [if_pos rfl]
    exact Table.find?_update_self h.stored
  · rw [if_neg hr, Table.find?_update]
    simp [hr, TaskStore.getTask]

theorem FullyClaimed.mem_runs {host : SpecHost} {w w' : StateDir}
    {claim : Claim} {task : ProjectTask}
    (h : FullyClaimed host claim task w w') (c : Claim) :
    c ∈ w'.project.events.runs ↔ c ∈ w.project.events.runs ∨ c = claim := by
  rw [Table.mem_rows, Table.mem_rows]
  have hruns : w'.project.events.runs.rows =
      w.project.events.runs.rows ++ [claim] := h.runs
  rw [hruns, List.mem_append, List.mem_singleton]

theorem FullyClaimed.claimReady {host : SpecHost} {w w' : StateDir}
    {claim : Claim} {task : ProjectTask}
    (h : FullyClaimed host claim task w w') (href : claim.taskRef = task.ref)
    (hw : ClaimReady w.project)
    (hfree : ∀ c, c ∈ w.project.events.runs → c.active = true →
      c.taskRef ≠ task.ref) : ClaimReady w'.project where
  one c hc c' hc' ha ha' hsame := by
    rcases (h.mem_runs c).mp hc with hold | rfl
    · rcases (h.mem_runs c').mp hc' with hold' | rfl
      · exact hw.one c hold c' hold' ha ha' hsame
      · exact absurd (hsame.trans href) (hfree c hold ha)
    · rcases (h.mem_runs c').mp hc' with hold' | rfl
      · exact absurd (hsame.symm.trans href) (hfree c' hold' ha')
      · rfl
  keys := by
    have hfound : ∀ id, (w.project.events.runs.find? id).isSome = true →
        (w'.project.events.runs.find? id).isSome = true := by
      intro id hid
      obtain ⟨c, hc⟩ := Option.isSome_iff_exists.mp hid
      obtain ⟨hmem, rfl⟩ := Table.find?_eq_some.mp hc
      rw [Table.find?_of_mem ((h.mem_runs c).mpr (.inl hmem))]
      rfl
    refine ⟨fun s hs id hid => hfound id ?_, fun c hc => hfound _ ?_⟩
    · exact hw.keys.sessions s (h.sessions ▸ hs) id hid
    · exact hw.keys.commands c (h.commands ▸ hc)
  idle task' hstored htodo := by
    rw [h.getTask] at hstored
    split at hstored
    · cases hstored
      cases htodo
    · rename_i hne
      intro run hrun hrunref
      rcases (mem_rows_append h.tasks.taskRuns run).mp hrun with hold | rfl
      · exact hw.idle task' hstored htodo run hold hrunref
      · exact absurd hrunref.symm hne

def callClaim (dates : DateApi) (runId : RunId) (ref : TaskRef)
    (agentId : AgentId) (lease now : Int) : Claim :=
  newClaim runId ref agentId (dates.toISOString now)
    (dates.toISOString (now + lease))

theorem claimTask_outcome {host : SpecHost} {ref : TaskRef} {agentId : AgentId}
    {lease : Int} {runId : RunId} {faults : Faults} {now : Int}
    {w w' : StateDir} {r : Except DomainError (RunId × String)}
    (hw : ClaimReady w.project) (hnew : NewRun w.project runId)
    (h : StateDir.claimTask dates host ref agentId lease runId faults now w =
      (r, w')) :
    ((∃ e, r = .error e) ∧ TakenBack w w' runId ∧
      ∀ id, w'.project.tasks.Bound id →
        w.project.tasks.Bound id ∨ id = runId) ∨
      ∃ task, task.ref = ref ∧ Holdable w.project task agentId runId ∧
        Committable dates host faults w
          (callClaim dates runId ref agentId lease now) task ∧
        r = .ok (runId, dates.toISOString (now + lease)) ∧
        FullyClaimed host (callClaim dates runId ref agentId lease now) task
          w w' := by
  unfold StateDir.claimTask at h
  rcases bind_cases h with ⟨e, hhold, rfl⟩ | ⟨revision, m, hhold, h⟩
  · obtain ⟨t, hheld, rfl⟩ := inProject_cases hhold
    refine .inl ⟨⟨e, rfl⟩, ?_⟩
    rcases holdTask_cases hheld with ⟨-, rfl⟩ | ⟨_, -, -, he, -⟩
    · exact ⟨.refl hnew, fun _ hbound => .inl hbound⟩
    · cases he
  obtain ⟨t, hheld, rfl⟩ := inProject_cases hhold
  rcases holdTask_cases hheld with
    ⟨⟨e, he⟩, -⟩ | ⟨task, rfl, hholdable, hrev, hevents, hwritten⟩
  · cases he
  cases hrev
  have hidle := hw.idle task hholdable.claimable.stored
    hholdable.claimable.todo
  have hrows := hwritten hidle
  have hkeys : t.events.Referenced := hevents ▸ hw.keys
  have hone : OneActive t.events.runs := hevents ▸ hw.one
  have hfree : ∀ c, c ∈ t.events.runs → c.active = true →
      c.taskRef ≠ task.ref := hevents ▸ hholdable.free
  rcases bind_cases h with ⟨e, hx, rfl⟩ | ⟨⟨⟩, k, hx, hend⟩
  · refine .inl ⟨⟨e, rfl⟩, ?_⟩
    unfold catching at hx
    split at hx
    · cases hx
    · rename_i e' n hcommit
      rcases commitSnapshotClaim_cases hkeys hone hfree hcommit with
        ⟨-, honly⟩ | ⟨he, -⟩
      · obtain ⟨ts, hreturn, hreturned⟩ :=
          hrows.returned hholdable.claimable hholdable.new hidle
        have hback := TakenBack.of_returned (m := { w with project := t })
          hreturned hnew hholdable.claimable.stored hholdable.claimable.todo
          hevents rfl rfl honly
        have htasks : onTasks (returnTask task.ref runId agentId
            (dates.toISOString now)) n.project =
            (.ok (), n.project.setTasks ts) := by
          have hdone : returnTask task.ref runId agentId
              (dates.toISOString now) n.project.tasks = .ok ((), ts) := by
            rw [honly.project]
            exact hreturn
          simp only [onTasks, atomically, hdone]
        cases (bind_of_ok (inProject_of_eq htasks)).symm.trans hx
        refine ⟨hback, fun id hbound => ?_⟩
        obtain ⟨run, hrun, hid⟩ := hbound
        rcases (mem_rows_append hreturned.taskRuns run).mp hrun with hold | rfl
        · exact .inl ⟨run, hold, hid⟩
        · exact .inr hid.symm
      · cases he
  · cases hend
    unfold catching at hx
    split at hx
    · rename_i n hcommit
      cases hx
      rcases commitSnapshotClaim_cases hkeys hone hfree hcommit with
        ⟨⟨e, he⟩, -⟩ | ⟨-, hcommittable, rfl⟩
      · cases he
      refine .inr ⟨task, rfl, hholdable, ⟨hcommittable.safe,
        hcommittable.file, hcommittable.written, hcommittable.committed,
        hcommittable.valid⟩, rfl, ?_⟩
      exact .of_committed hholdable.claimable hnew hcommittable.file hevents
        hrows
    · rename_i e n hcommit
      rcases bind_cases hx with ⟨e', -, he⟩ | ⟨u, k', -, hthrow⟩
      · cases he
      · cases hthrow

theorem claimTask_ends {host : SpecHost} {ref : TaskRef} {agentId : AgentId}
    {lease : Int} {runId : RunId} {faults : Faults} {now : Int}
    {w w' : StateDir} {r : Except DomainError (RunId × String)}
    (hw : ClaimReady w.project) (hnew : NewRun w.project runId)
    (h : StateDir.claimTask dates host ref agentId lease runId faults now w =
      (r, w')) :
    (∃ e, r = .error e) ∧ TakenBack w w' runId ∨
      ∃ task, task.ref = ref ∧ Holdable w.project task agentId runId ∧
        Committable dates host faults w
          (callClaim dates runId ref agentId lease now) task ∧
        r = .ok (runId, dates.toISOString (now + lease)) ∧
        FullyClaimed host (callClaim dates runId ref agentId lease now) task
          w w' := by
  rcases claimTask_outcome hw hnew h with ⟨herror, hback, -⟩ | hdone
  · exact .inl ⟨herror, hback⟩
  · exact .inr hdone

/-! ## Claimed again -/

/-- The call would return. -/
def Claims (dates : DateApi) (host : SpecHost) (ref : TaskRef)
    (agentId : AgentId) (lease : Int) (runId : RunId) (faults : Faults)
    (now : Int) (w : StateDir) : Prop :=
  ∃ p, (StateDir.claimTask dates host ref agentId lease runId faults now w).1 =
    .ok p

theorem claims_iff {host : SpecHost} {ref : TaskRef} {agentId : AgentId}
    {lease : Int} {runId : RunId} {faults : Faults} {now : Int} {w : StateDir}
    (hw : ClaimReady w.project) (hnew : NewRun w.project runId) :
    Claims dates host ref agentId lease runId faults now w ↔
      ∃ task, task.ref = ref ∧ Holdable w.project task agentId runId ∧
        Committable dates host faults w
          (callClaim dates runId ref agentId lease now) task := by
  constructor
  · rintro ⟨p, hp⟩
    rcases claimTask_ends hw hnew (Prod.ext hp rfl) with
      ⟨⟨e, he⟩, -⟩ | ⟨task, href, hhold, hcommit, -⟩
    · cases he
    · exact ⟨task, href, hhold, hcommit⟩
  · rintro ⟨task, rfl, hhold, hcommit⟩
    obtain ⟨t, hheld⟩ := hhold.hold (dates.toISOString now)
    rcases holdTask_cases hheld with ⟨⟨e, he⟩, -⟩ | ⟨_, -, -, -, hevents, -⟩
    · cases he
    have hdone : Committable dates host faults { w with project := t }
        (callClaim dates runId task.ref agentId lease now)
        (ProjectTask.moved .claimed none (dates.toISOString now) task) :=
      ⟨hcommit.safe, hcommit.file, hcommit.written, hcommit.committed,
        hcommit.valid⟩
    have hrun := hdone.commit (hevents ▸ hw.keys) (hevents ▸ hw.one)
      (hevents ▸ hhold.free)
    have hcaught := fun handler : DomainError → DirOp Unit =>
      catching_of_ok (f := handler) hrun
    refine ⟨(runId, dates.toISOString (now + lease)), ?_⟩
    unfold StateDir.claimTask
    rw [bind_of_ok (inProject_of_eq hheld)]
    exact congrArg Prod.fst (bind_of_ok (hcaught _))

theorem core_fields {task task' : ProjectTask}
    (h : ProjectTask.core task' = ProjectTask.core task) :
    task'.ref = task.ref ∧ task'.status = task.status ∧
      task'.revision = task.revision ∧ task'.dispatch = task.dispatch ∧
      task'.definition = task.definition := by
  unfold ProjectTask.core at h
  injection h with href hstatus _ _ hrevision _ _ hdispatch _ _ hdefinition
  exact ⟨href, hstatus, hrevision, hdispatch, hdefinition⟩

theorem SameCore.symm {ts ts' : TaskStore} (h : SameCore ts ts') :
    SameCore ts' ts := fun r => (h r).symm

theorem SameCore.getTask {ts ts' : TaskStore} (h : SameCore ts ts')
    {r : TaskRef} {task : ProjectTask} (htask : ts.getTask r = some task) :
    ∃ task', ts'.getTask r = some task' ∧
      ProjectTask.core task' = ProjectTask.core task := by
  have hr := h r
  rw [htask, Option.map_some] at hr
  exact Option.map_eq_some_iff.mp hr

theorem SameCore.merged {ts ts' : TaskStore} (h : SameCore ts ts')
    (r : TaskRef) :
    ((ts'.getTask r).any fun t => t.status.merged) =
      (ts.getTask r).any fun t => t.status.merged := by
  have hcore : ∀ o : Option ProjectTask,
      (o.any fun t => t.status.merged) =
        (o.map ProjectTask.core).any fun t => t.status.merged := by
    intro o
    cases o <;> rfl
  rw [hcore, h r, ← hcore]

theorem SameCore.claimable {ts ts' : TaskStore} (h : SameCore ts ts')
    {task : ProjectTask} {agentId : AgentId}
    (hc : ts.Claimable task agentId) :
    ∃ task', ProjectTask.core task' = ProjectTask.core task ∧
      ts'.Claimable task' agentId := by
  obtain ⟨task', hstored, hcore⟩ := h.getTask hc.stored
  obtain ⟨href, hstatus, -, hdispatch, hdefinition⟩ := core_fields hcore
  refine ⟨task', hcore, href ▸ hstored, hstatus.trans hc.todo, ?_, ?_⟩
  · rw [hdispatch]
    exact hc.owner
  · rw [← hc.ready]
    unfold TaskStore.waiting
    rw [hdefinition]
    exact List.filter_congr fun d _ => congrArg (!·) (h.merged d)

theorem Committable.of_core {host : SpecHost} {faults : Faults}
    {w w' : StateDir} {claim : Claim} {task task' : ProjectTask}
    (h : Committable dates host faults w claim task)
    (hcore : ProjectTask.core task' = ProjectTask.core task)
    (hfile : w'.runSpecs.lookup claim.runId = w.runSpecs.lookup claim.runId) :
    Committable dates host faults w' claim task' := by
  obtain ⟨href, -, hrev, -⟩ := core_fields hcore
  exact ⟨by rw [href, hrev]; exact h.safe, hfile.trans h.file, h.written,
    h.committed, h.valid⟩

theorem TakenBack.claimReady {w w' : StateDir} {runId : RunId}
    (h : TakenBack w w' runId) (hw : ClaimReady w.project) :
    ClaimReady w'.project where
  one := h.events ▸ hw.one
  keys := h.events ▸ hw.keys
  idle task' hstored htodo := by
    obtain ⟨task, hfound, hcore⟩ := h.tasks.symm.getTask hstored
    obtain ⟨href, hstatus, -⟩ := core_fields hcore
    have hidle := hw.idle task (href ▸ hfound) (hstatus.trans htodo)
    intro run hrun hrunref
    refine Bool.eq_false_iff.mpr fun hactive => ?_
    have hmem : run.runId ∈ w'.project.tasks.runsAt task'.ref :=
      ⟨run, hrun, hactive, hrunref, rfl⟩
    rw [h.bindings] at hmem
    obtain ⟨x, hx, hxactive, hxref, -⟩ := hmem
    rw [hidle x hx (hxref.trans href.symm)] at hxactive
    cases hxactive

theorem TakenBack.claims {w w' : StateDir} {runId : RunId}
    (h : TakenBack w w' runId) (hw : ClaimReady w.project) {host : SpecHost}
    {ref : TaskRef} {agentId : AgentId} {lease : Int} {next : RunId}
    {faults : Faults} {now : Int} (hnext : NewRun w'.project next) :
    Claims dates host ref agentId lease next faults now w' ↔
      Claims dates host ref agentId lease next faults now w := by
  have hfresh : NewRun w.project next :=
    ⟨h.events ▸ hnext.claims, fun hbound => hnext.bindings (h.bound next hbound)⟩
  rw [claims_iff (h.claimReady hw) hnext, claims_iff hw hfresh]
  have hfile := h.files next hnext.bindings
  constructor
  · rintro ⟨task', rfl, hhold, hcommit⟩
    obtain ⟨task, hcore, hclaimable⟩ :=
      h.tasks.symm.claimable hhold.claimable
    have href := (core_fields hcore).1
    exact ⟨task, href, ⟨hclaimable, href ▸ h.events ▸ hhold.free,
      hfresh.bindings⟩, hcommit.of_core hcore hfile.symm⟩
  · rintro ⟨task, rfl, hhold, hcommit⟩
    obtain ⟨task', hcore, hclaimable⟩ :=
      h.tasks.claimable hhold.claimable
    have href := (core_fields hcore).1
    exact ⟨task', href, ⟨hclaimable, href ▸ h.events ▸ hhold.free,
      hnext.bindings⟩, hcommit.of_core hcore hfile⟩

/-! ## The call within the project -/

/-- On the project the call does what `y` does. -/
def Projects {α : Type} (x : DirOp α) (y : Op α) (w : StateDir) : Prop :=
  (x w).1 = (y w.project).1 ∧ (x w).2.project = (y w.project).2

theorem projects_inProject {α : Type} (x : Op α) (w : StateDir) :
    Projects (inProject x) x w := ⟨rfl, rfl⟩

theorem Projects.bind {α β : Type} {x : DirOp α} {y : Op α}
    {f : α → DirOp β} {g : α → Op β} {w : StateDir} (h : Projects x y w)
    (hf : ∀ a w', x w = (.ok a, w') → Projects (f a) (g a) w') :
    Projects (x >>= f) (y >>= g) w := by
  unfold Projects at h ⊢
  rw [bind_apply, bind_apply]
  cases hx : x w with
  | mk r w' =>
      cases hy : y w.project with
      | mk r' t =>
          rw [hx, hy] at h
          obtain ⟨rfl, rfl⟩ := h
          cases r with
          | ok a => exact hf a w' hx
          | error e => exact ⟨rfl, rfl⟩

theorem Projects.tail {x : DirOp Unit} {y : Op Unit} {f : Unit → DirOp Unit}
    {w : StateDir} (h : Projects x y w)
    (hf : ∀ w', (f () w').1 = .ok () ∧ (f () w').2.project = w'.project) :
    Projects (x >>= f) y w := by
  unfold Projects at h ⊢
  rw [bind_apply]
  cases hx : x w with
  | mk r w' =>
      rw [hx] at h
      cases r with
      | ok a => exact ⟨(hf w').1.trans h.1, (hf w').2.trans h.2⟩
      | error e => exact h

theorem Projects.catching {α : Type} {x : DirOp α} {y : Op α}
    {f : DomainError → DirOp α} {g : DomainError → Op α} {w : StateDir}
    (h : Projects x y w)
    (hf : ∀ e w', x w = (.error e, w') → Projects (f e) (g e) w') :
    Projects (Effect.catching x f) (Effect.catching y g) w := by
  unfold Projects Effect.catching at *
  cases hx : x w with
  | mk r w' =>
      cases hy : y w.project with
      | mk r' t =>
          rw [hx, hy] at h
          obtain ⟨rfl, rfl⟩ := h
          cases r with
          | ok a => exact ⟨rfl, rfl⟩
          | error e => exact hf e w' hx

def snapshotOutcome (host : SpecHost) (faults : Faults) (runId : RunId)
    (revision : ProjectTask) (w : StateDir) : Except DomainError Unit := do
  let _ ← (writeRunRevisionSnapshot host faults runId revision w).1
  match faults.commit with
  | some e => .error e
  | none => .ok ()

theorem projects_commit (host : SpecHost) (faults : Faults) (claim : Claim)
    (revision : ProjectTask) (w : StateDir) :
    Projects (commitSnapshotClaim dates host faults claim revision)
      (commitNewClaim dates claim
        (snapshotOutcome host faults claim.runId revision w)) w := by
  unfold Projects commitSnapshotClaim snapshotOutcome
  rw [bind_apply]
  cases hsnap : writeRunRevisionSnapshot host faults claim.runId revision w with
  | mk r w' =>
      rcases writeRunRevisionSnapshot_cases hsnap with
        ⟨⟨e, rfl⟩, honly⟩ | ⟨rfl, -, -, -, rfl⟩
      · exact ⟨rfl, honly.project⟩
      · exact Projects.tail (projects_inProject _ _) fun _ => ⟨rfl, rfl⟩

/-- The call is the call of the project, told how file and commit ended. -/
theorem claimTask_project (host : SpecHost) (ref : TaskRef)
    (agentId : AgentId) (lease : Int) (runId : RunId) (faults : Faults)
    (now : Int) (w : StateDir) :
    ∃ snapshot, Projects
      (StateDir.claimTask dates host ref agentId lease runId faults now)
      (claimTask dates ref agentId lease runId snapshot now) w := by
  have hsame : ∀ snapshot, claimTask dates ref agentId lease runId snapshot
      now = (do
        let _ ← holdTask ref agentId runId (dates.toISOString now)
        Effect.catching (commitNewClaim dates
          (callClaim dates runId ref agentId lease now) snapshot) fun error => do
            onTasks (returnTask ref runId agentId (dates.toISOString now))
            Effect.ofExcept (.error error)
        pure (runId, dates.toISOString (now + lease))) := by
    intro snapshot
    funext s
    unfold claimTask holdTask
    rw [bind_apply (Effect.read >>= _) _ s]
    simp only [read_bind, orThrow_bind, throwIf_bind, ofExcept_bind]
    cases findTask s.backlog ref with
    | none => rfl
    | some task =>
        dsimp only
        split_ifs
        · rfl
        · rfl
        · cases unclaimed s ref <;> rfl
  cases hhold : inProject
      (holdTask ref agentId runId (dates.toISOString now)) w with
  | mk r w' =>
      refine ⟨r.toOption.elim (.ok ()) fun revision =>
        snapshotOutcome host faults runId revision w', ?_⟩
      rw [hsame]
      refine (projects_inProject _ w).bind fun revision m hm => ?_
      cases hhold.symm.trans hm
      refine Projects.bind (Projects.catching
        (projects_commit host faults
          (callClaim dates runId ref agentId lease now) _ _)
        fun e n _ => ?_) fun _ _ _ => ⟨rfl, rfl⟩
      exact (projects_inProject _ n).bind fun _ _ _ => ⟨rfl, rfl⟩

/-! ## Completely or not at all -/

/--
A claim that returns leaves its rows, its event, its file and its snapshot and
nothing else.  A claim that throws leaves the event store alone and the tasks as
they were, with their active bindings and no other, and the next claim of any
task is made or refused as it would have been before.
-/
theorem claimTask_allOrNothing (dates : DateApi) (host : SpecHost)
    {w : StateDir} (hagree : StoresAgree w.project)
    (hkeys : w.project.events.Referenced) {runId : RunId}
    (hnew : NewRun w.project runId) (ref : TaskRef) (agentId : AgentId)
    (lease : Int) (faults : Faults) (now : Int) :
    (∀ p w', StateDir.claimTask dates host ref agentId lease runId faults now
        w = (.ok p, w') →
      p = (runId, dates.toISOString (now + lease)) ∧
        ∃ task, task.ref = ref ∧
          FullyClaimed host (callClaim dates runId ref agentId lease now) task
            w w') ∧
      ∀ e w', StateDir.claimTask dates host ref agentId lease runId faults now
          w = (.error e, w') →
        TakenBack w w' runId ∧
          ∀ ref' agentId' lease' next faults' now', NewRun w'.project next →
            (Claims dates host ref' agentId' lease' next faults' now' w' ↔
              Claims dates host ref' agentId' lease' next faults' now' w) := by
  have hw := hagree.claimReady hkeys
  constructor
  · intro p w' hcall
    rcases claimTask_ends hw hnew hcall with
      ⟨⟨e, he⟩, -⟩ | ⟨task, href, -, -, hp, hfull⟩
    · cases he
    · exact ⟨Except.ok.inj hp, task, href, hfull⟩
  · intro e w' hcall
    rcases claimTask_ends hw hnew hcall with ⟨-, hback⟩ | ⟨_, -, -, -, hp, -⟩
    · exact ⟨hback, fun _ _ _ _ _ _ hnext => hback.claims hw hnext⟩
    · cases hp

/-! ## A commit that fails -/

def introHost : SpecHost where
  stateDir := "state"
  bodyMarkdown _ _ := "Write the introduction."
  scanForInjection _ := []
  documentHash _ :=
    "9c0640efcdcd4ced170416297ea334457a0022a5ec3dbeaff15dbcce1e49ca45"

def introDir : StateDir where
  project := oneTask

def lockedClaim : DirOp (RunId × String) :=
  StateDir.claimTask .epoch introHost "docs/intro" "worker" 3 "run-1"
    { commit := some (plainError "database is locked") } 1

theorem newRun_oneTask (id : RunId) : NewRun oneTask id :=
  ⟨fun _ hc => absurd hc List.not_mem_nil,
    fun ⟨_, hrun, _⟩ => absurd hrun List.not_mem_nil⟩

/-- After a commit that failed the next run claims the task. -/
theorem claimTask_allOrNothing_again :
    (lockedClaim introDir).1 = .error (plainError "database is locked") ∧
      (lockedClaim introDir).2.project.events = oneTask.events ∧
      Claims .epoch introHost "docs/intro" "worker" 3 "run-2" {} 2
        (lockedClaim introDir).2 := by
  have hagree : StoresAgree introDir.project :=
    stores_agree .epoch soloRegistry (.initial fresh_oneTask)
  have hkeys : introDir.project.events.Referenced :=
    ⟨fun _ hs => absurd hs List.not_mem_nil,
      fun _ hc => absurd hc List.not_mem_nil⟩
  have hfailed : (lockedClaim introDir).1 =
      .error (plainError "database is locked") := by decide +kernel
  obtain ⟨hback, hagain⟩ := (claimTask_allOrNothing .epoch introHost hagree
    hkeys (newRun_oneTask "run-1") "docs/intro" "worker" 3
    { commit := some (plainError "database is locked") } 1).2 _ _
    (Prod.ext hfailed rfl)
  refine ⟨hfailed, hback.events, ?_⟩
  have hbound : (lockedClaim introDir).2.project.tasks.taskRuns.rows.map
      TaskRun.runId = ["run-1"] := by decide +kernel
  refine (hagain "docs/intro" "worker" 3 "run-2" {} 2
    ⟨hback.events ▸ (newRun_oneTask "run-2").claims, ?_⟩).mpr ?_
  · rintro ⟨run, hrun, hid⟩
    have hmem := hbound ▸ List.mem_map_of_mem (f := TaskRun.runId) hrun
    rw [hid] at hmem
    exact absurd hmem (by decide)
  · exact ⟨("run-2", DateApi.epoch.toISOString 5), by decide +kernel⟩

/-! ## A task that runs -/

/--
A call for a task whose run is under way throws, and the binding of that run
stays active: the call does not end the run of another.
-/
theorem not_unbound_after_throw :
    ¬ ∀ (dates : DateApi) (host : SpecHost) (w : StateDir) (runId : RunId)
      (ref : TaskRef) (agentId : AgentId) (lease : Int) (faults : Faults)
      (now : Int), StoresAgree w.project → w.project.events.Referenced →
      NewRun w.project runId →
      ∀ e w', StateDir.claimTask dates host ref agentId lease runId faults now
          w = (.error e, w') →
        ∀ run, run ∈ w'.project.tasks.taskRuns → run.taskRef = ref →
          run.active = false := by
  intro hall
  let claimAgain : StateDir → Except DomainError (RunId × String) × StateDir :=
    StateDir.claimTask .epoch introHost "docs/intro" "worker" 3 "run-2" {} 3
  obtain ⟨s, hs, hview⟩ :=
    (lifecycleSystem .epoch soloRegistry).exists_run_of_map
      (f := fun s => ((s.events.runs.rows.map Claim.runId,
          s.tasks.taskRuns.rows.map TaskRun.runId),
        s.events.sessions.rows.length + s.events.commands.rows.length,
        (claimAgain { project := s }).1.isOk,
        (claimAgain { project := s }).2.project.tasks.taskRuns.rows.map
          fun run => (run.taskRef, run.active)))
      (by decide +kernel : ((lifecycleSystem .epoch soloRegistry).run oneTask
        claimAndStart).map _ =
          some ((["run-1"], ["run-1"]), 0, false, [("docs/intro", true)]))
  simp only [Prod.mk.injEq, Nat.add_eq_zero_iff, List.length_eq_zero_iff]
    at hview
  obtain ⟨⟨hclaims, hruns⟩, ⟨hsessions, hcommands⟩, hthrows, hactive⟩ := hview
  have hagree := stores_agree .epoch soloRegistry
    ((System.ReachableUnder.initial fresh_oneTask).run (by decide) hs)
  have hkeys : s.events.Referenced := by
    refine ⟨fun x hx => ?_, fun x hx => ?_⟩
    · rw [Table.mem_rows, hsessions] at hx
      cases hx
    · rw [Table.mem_rows, hcommands] at hx
      cases hx
  have hnew : NewRun s "run-2" := by
    refine ⟨fun c hc hid => ?_, ?_⟩
    · have hmem := hclaims ▸ List.mem_map_of_mem (f := Claim.runId) hc
      rw [hid] at hmem
      exact absurd hmem (by decide)
    · rintro ⟨run, hrun, hid⟩
      have hmem := hruns ▸ List.mem_map_of_mem (f := TaskRun.runId) hrun
      rw [hid] at hmem
      exact absurd hmem (by decide)
  have hrow : ("docs/intro", true) ∈
      (claimAgain { project := s }).2.project.tasks.taskRuns.rows.map
        fun run => (run.taskRef, run.active) := by
    rw [hactive]
    exact List.mem_singleton.mpr rfl
  obtain ⟨run, hrun, hfields⟩ := List.mem_map.mp hrow
  obtain ⟨href, hopen⟩ := Prod.mk.inj hfields
  cases hcall : claimAgain { project := s } with
  | mk r w' =>
      cases r with
      | ok p =>
          rw [hcall] at hthrows
          cases hthrows
      | error e =>
          rw [hcall] at hrun
          have hclosed := hall .epoch introHost { project := s } "run-2"
            "docs/intro" "worker" 3 {} 3 hagree hkeys hnew e w' hcall run hrun
            href
          rw [hopen] at hclosed
          cases hclosed

end OrcState.Lifecycle
