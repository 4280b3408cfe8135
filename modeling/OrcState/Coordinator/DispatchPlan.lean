import OrcState.Contract.Agent
import OrcState.Contract.Spec
import OrcState.Foundation.Ranking
import OrcState.Lifecycle.Agreement
import OrcState.Store.ClaimRows

/-!
# Which task runs next

The scan for a task to spawn a worker for, the scan of one agent for its next
task, the readiness contract and the checks of the claim each read owners, states,
dependencies and times for themselves.  They are stated here as they stand, and
then compared with one reading of the task rows.  The type of a task leaves out
the task types that both scans skip as unknown.
-/

namespace OrcState.Coordinator

open OrcState.Contract OrcState.Foundation OrcState.Store OrcState.Lifecycle

/-! ## Routing -/

structure AgentLike where
  agentId : Option AgentId := none
  role : Option AgentRole := none
  provider : Option TaskProvider := none
  capabilities : List String := []
  deriving DecidableEq, Repr

def addReason (reasons : List String) (reason : String) : List String :=
  if reasons.contains reason then reasons else reasons ++ [reason]

def routingReasons (task : Task) (agent : AgentLike) : List String :=
  let role := agent.role.getD .worker
  let reasons := if role = .master ∨ role = .scout then
      addReason [] ("role_ineligible:" ++ role.text)
    else []
  let reasons := if truthy task.owner = true ∧ task.owner ≠ agent.agentId then
      addReason reasons ("reserved_owner_conflict:" ++ task.owner.getD "")
    else reasons
  let reasons := task.definition.requiredProvider.elim reasons fun provider =>
    if some provider ≠ agent.provider then
      addReason reasons ("provider_mismatch:" ++ provider.text)
    else reasons
  task.definition.requiredCapabilities.foldl (fun reasons capability =>
    if agent.capabilities.contains capability then reasons
    else addReason reasons ("missing_capability:" ++ capability)) reasons

def canAgentExecuteTask (task : Task) (agent : AgentLike) : Bool :=
  routingReasons task agent = []

/-! ## The two scans -/

def taskPriorityRank : TaskPriority → Nat
  | .low => 0
  | .normal => 1
  | .high => 2
  | .critical => 3

def taskRank (task : Task) : Nat := taskPriorityRank task.definition.priority

def doneSet (backlog : Backlog) : List TaskRef :=
  (backlog.filter fun task => task.status.merged).map Task.ref

variable (dates : DateApi)

/-- An unreadable time is later than no time. -/
def backingOff (now : Int) (task : Task) : Bool :=
  truthy task.requeueEligibleAfter &&
    (task.requeueEligibleAfter.bind dates.parse).any fun after => now < after

def unplanned (task : Task) : Bool :=
  task.planningState.any fun state => state ≠ .readyForDispatch

structure EligibleTask where
  ref : TaskRef
  requiredProvider : Option TaskProvider
  rank : Nat
  index : Nat
  deriving DecidableEq, Repr

/-- What the loop over the backlog pushes; `index` counts what was pushed. -/
def eligibleTasks (eligible : Task → Bool) (backlog : Backlog) :
    List EligibleTask :=
  (backlog.filter eligible).zipIdx.map fun entry =>
    { ref := entry.1.ref
      requiredProvider := entry.1.definition.requiredProvider
      rank := taskRank entry.1
      index := entry.2 }

/-- `eligible.sort((a, b) => b.rank - a.rank || a.index - b.index)[0]`. -/
def firstEligible (eligible : Task → Bool) (backlog : Backlog) :
    Option EligibleTask :=
  ((eligibleTasks eligible backlog).insertionSort
    (Ahead EligibleTask.rank EligibleTask.index)).head?

def spawnable (backlog : Backlog) (excludeTaskRefs : List TaskRef) (now : Int)
    (task : Task) : Bool :=
  task.status = .todo && !backingOff dates now task &&
    !excludeTaskRefs.contains task.ref && !unplanned task &&
    !truthy task.owner &&
    task.definition.dependsOn.all fun d => (doneSet backlog).contains d

structure SpawnItem where
  ref : TaskRef
  requiredProvider : Option TaskProvider
  deriving DecidableEq, Repr

def nextSpawnableTask (backlog : Backlog) (excludeTaskRefs : List TaskRef)
    (now : Int) : Option SpawnItem :=
  (firstEligible (spawnable dates backlog excludeTaskRefs now) backlog).map
    fun task => ⟨task.ref, task.requiredProvider⟩

/-- The argument `agentOrId`. -/
inductive AgentOrId where
  | nobody
  | byId (agentId : AgentId)
  | agent (found : AgentLike)
  deriving DecidableEq, Repr

def AgentOrId.agentId : AgentOrId → Option AgentId
  | .nobody => none
  | .byId agentId => some agentId
  | .agent found => found.agentId

def AgentOrId.asAgent : AgentOrId → AgentLike
  | .nobody => { agentId := some "", role := some .worker, provider := some .codex }
  | .byId agentId =>
      { agentId := some agentId, role := some .worker, provider := some .codex }
  | .agent found => found

def executable (backlog : Backlog) (agentOrId : AgentOrId)
    (excludeTaskRefs : List TaskRef) (now : Int) (task : Task) : Bool :=
  task.status = .todo && !backingOff dates now task &&
    !excludeTaskRefs.contains task.ref && !unplanned task &&
    !(truthy task.owner && truthy agentOrId.agentId &&
      decide (task.owner ≠ agentOrId.agentId)) &&
    !(truthy task.owner && !truthy agentOrId.agentId) &&
    canAgentExecuteTask task agentOrId.asAgent &&
    task.definition.dependsOn.all fun d => (doneSet backlog).contains d

def nextEligibleTaskFromBacklog (backlog : Backlog) (agentOrId : AgentOrId)
    (excludeTaskRefs : List TaskRef) (now : Int) : Option TaskRef :=
  (firstEligible (executable dates backlog agentOrId excludeTaskRefs now)
    backlog).map EligibleTask.ref

/-! ## Readiness -/

inductive ReadinessKind where
  | ready | waitingForDependencies | statusNotTodo
  deriving DecidableEq, Repr

structure DependencyReadiness where
  kind : ReadinessKind
  waitingOn : List TaskRef
  deriving DecidableEq, Repr

def deriveDependencyReadiness (status : TaskStatus) (dependsOn : List TaskRef)
    (statusByRef : TaskRef → Option TaskStatus) : DependencyReadiness :=
  if status ≠ .todo then ⟨.statusNotTodo, []⟩
  else
    let waitingOn := dependsOn.eraseDups.filter fun ref =>
      statusByRef ref ≠ some .done && statusByRef ref ≠ some .released
    if waitingOn = [] then ⟨.ready, waitingOn⟩
    else ⟨.waitingForDependencies, waitingOn⟩

/-! ## The plan -/

def reservedTaskRefs (claims : List Claim) : List TaskRef :=
  (claims.filter Claim.active).map Claim.taskRef

def dispatchItems (backlog : Backlog) (claims : List Claim) (now : Int)
    (capacity : Nat) : List SpawnItem :=
  collect (fun taken => nextSpawnableTask dates backlog
    (reservedTaskRefs claims ++ taken) now) SpawnItem.ref capacity []

/-! ## One reading of the rows -/

/-- Todo, unowned, ready, past its backoff, and with nothing to wait for. -/
structure Dispatchable (ts : TaskStore) (now : Int) (row : ProjectTask) :
    Prop where
  stored : row ∈ ts.tasks
  todo : row.status = .todo
  unowned : truthy row.dispatch.owner = false
  ready : row.dispatch.planningState = none ∨
    row.dispatch.planningState = some .readyForDispatch
  elapsed : ∀ text after, row.dispatch.requeueEligibleAfter = some text →
    text ≠ "" → dates.parse text = some after → after ≤ now
  released : ∀ ref ∈ row.definition.dependsOn, ∃ dep, dep ∈ ts.tasks ∧
    dep.ref = ref ∧ (dep.status = .done ∨ dep.status = .released)

variable {dates} {ts : TaskStore} {row : ProjectTask} {now : Int}

theorem merged_iff {status : TaskStatus} :
    status.merged = true ↔ status = .done ∨ status = .released := by
  cases status <;> simp [TaskStatus.merged]

theorem mem_doneSet {ref : TaskRef} :
    ref ∈ doneSet (readProjectBacklog ts) ↔ ∃ dep, dep ∈ ts.tasks ∧
      dep.ref = ref ∧ (dep.status = .done ∨ dep.status = .released) := by
  simp only [doneSet, List.mem_map, List.mem_filter, mem_readProjectBacklog]
  constructor
  · rintro ⟨_, ⟨⟨dep, hdep, rfl⟩, hmerged⟩, rfl⟩
    exact ⟨dep, hdep, rfl, merged_iff.mp hmerged⟩
  · rintro ⟨dep, hdep, rfl, hmerged⟩
    exact ⟨_, ⟨⟨dep, hdep, rfl⟩, merged_iff.mpr hmerged⟩, rfl⟩

theorem nonEmpty_cases (value : Option String) :
    truthy value = false ∧ nonEmpty value = none ∨
      ∃ text, text ≠ "" ∧ value = some text ∧ truthy value = true ∧
        nonEmpty value = some text := by
  cases value with
  | none => exact .inl ⟨rfl, rfl⟩
  | some text =>
      by_cases h : text = ""
      · subst h
        exact .inl ⟨rfl, rfl⟩
      · exact .inr ⟨text, h, rfl, by simp [truthy, h],
          by simp [nonEmpty, Option.filter, h]⟩

theorem truthy_nonEmpty (value : Option String) :
    truthy (nonEmpty value) = truthy value := by
  rcases nonEmpty_cases value with ⟨hfalse, hnone⟩ | ⟨text, -, rfl, -, hsame⟩
  · rw [hnone, hfalse, truthy_none]
  · rw [hsame]

theorem backingOff_row :
    backingOff dates now (projectTaskToBacklogTask row) = false ↔
      ∀ text after, row.dispatch.requeueEligibleAfter = some text →
        text ≠ "" → dates.parse text = some after → after ≤ now := by
  change (truthy (nonEmpty row.dispatch.requeueEligibleAfter) &&
    ((nonEmpty row.dispatch.requeueEligibleAfter).bind dates.parse).any
      fun after => now < after) = false ↔ _
  rcases nonEmpty_cases row.dispatch.requeueEligibleAfter with
    ⟨hfalse, hnone⟩ | ⟨text, hne, hsome, htruthy, hsame⟩
  · rw [hnone]
    refine ⟨fun _ text _ hsome hne => ?_, fun _ => rfl⟩
    simp [hsome, truthy, hne] at hfalse
  · rw [hsame, ← hsome, htruthy, hsome, Option.bind_some, Bool.true_and]
    constructor
    · rintro hnever _ after ⟨⟩ - hparse
      rw [hparse] at hnever
      simpa using hnever
    · intro helapsed
      cases hparse : dates.parse text with
      | none => rfl
      | some after => simpa using helapsed text after rfl hne hparse

theorem unplanned_row : unplanned (projectTaskToBacklogTask row) = false ↔
    row.dispatch.planningState = none ∨
      row.dispatch.planningState = some .readyForDispatch := by
  change (row.dispatch.planningState.any _) = false ↔ _
  rcases row.dispatch.planningState with - | - | - <;> simp

theorem dependencies_row : (projectTaskToBacklogTask row).definition.dependsOn.all
      (fun d => (doneSet (readProjectBacklog ts)).contains d) = true ↔
    ∀ ref ∈ row.definition.dependsOn, ∃ dep, dep ∈ ts.tasks ∧
      dep.ref = ref ∧ (dep.status = .done ∨ dep.status = .released) := by
  simp only [projectTaskToBacklogTask, List.all_eq_true, List.contains_iff_mem,
    mem_doneSet]

theorem spawnable_row {excludeTaskRefs : List TaskRef} (hrow : row ∈ ts.tasks) :
    spawnable dates (readProjectBacklog ts) excludeTaskRefs now
        (projectTaskToBacklogTask row) = true ↔
      Dispatchable dates ts now row ∧ row.ref ∉ excludeTaskRefs := by
  simp only [spawnable, Bool.and_eq_true, Bool.not_eq_true', decide_eq_true_eq,
    backingOff_row, unplanned_row, dependencies_row]
  constructor
  · rintro ⟨⟨⟨⟨⟨htodo, helapsed⟩, hfree⟩, hready⟩, hunowned⟩, hdone⟩
    refine ⟨⟨hrow, htodo, ?_, hready, helapsed, hdone⟩, ?_⟩
    · exact (truthy_nonEmpty row.dispatch.owner).symm.trans hunowned
    · simpa [projectTaskToBacklogTask] using hfree
  · rintro ⟨h, hfree⟩
    refine ⟨⟨⟨⟨⟨h.todo, h.elapsed⟩, ?_⟩, h.ready⟩, ?_⟩, h.released⟩
    · simpa [projectTaskToBacklogTask] using hfree
    · exact (truthy_nonEmpty row.dispatch.owner).trans h.unowned

/-! ## The first of the eligible tasks -/

theorem eligibleTasks_index (eligible : Task → Bool) (backlog : Backlog) :
    (eligibleTasks eligible backlog).Pairwise
      fun a b => a.index ≤ b.index := by
  have hrange : ((backlog.filter eligible).zipIdx.map Prod.snd).Pairwise
      (· ≤ ·) := by
    rw [List.zipIdx_map_snd]
    exact (List.pairwise_lt_range' 1).imp Nat.le_of_lt
  rw [eligibleTasks, List.pairwise_map]
  exact List.pairwise_map.mp hrange

/-- The numbers of the loop change nothing: the sort is by rank and stable. -/
theorem firstEligible_map {β : Type} {eligible : Task → Bool}
    {backlog : Backlog} {f : EligibleTask → β} {g : Task → β}
    (h : ∀ task index, f ⟨task.ref, task.definition.requiredProvider,
      taskRank task, index⟩ = g task) :
    (firstEligible eligible backlog).map f =
      (byRank taskRank (backlog.filter eligible)).head?.map g := by
  have hfst : byRank taskRank (backlog.filter eligible) =
      (byRank (taskRank ∘ Prod.fst) (backlog.filter eligible).zipIdx).map
        Prod.fst := by
    rw [← byRank_map, List.zipIdx_map_fst]
  rw [firstEligible, insertionSort_ahead (eligibleTasks_index _ _),
    eligibleTasks, byRank_map, hfst, List.head?_map, List.head?_map,
    Option.map_map, Option.map_map]
  congr 1
  funext entry
  exact h entry.1 entry.2

def SpawnItem.ofTask (task : Task) : SpawnItem :=
  ⟨task.ref, task.definition.requiredProvider⟩

theorem nextSpawnableTask_eq (backlog : Backlog)
    (excludeTaskRefs : List TaskRef) (now : Int) :
    nextSpawnableTask dates backlog excludeTaskRefs now =
      (byRank taskRank (backlog.filter
        (spawnable dates backlog excludeTaskRefs now))).head?.map
          SpawnItem.ofTask :=
  firstEligible_map fun _ _ => rfl

theorem nextEligibleTaskFromBacklog_eq (backlog : Backlog)
    (agentOrId : AgentOrId) (excludeTaskRefs : List TaskRef) (now : Int) :
    nextEligibleTaskFromBacklog dates backlog agentOrId excludeTaskRefs now =
      (byRank taskRank (backlog.filter (executable dates backlog agentOrId
        excludeTaskRefs now))).head?.map Task.ref :=
  firstEligible_map fun _ _ => rfl

theorem precedes_of_byRank {backlog rest : Backlog} {p : Task → Bool}
    {task other : Task}
    (h : byRank taskRank (backlog.filter p) = task :: rest)
    (hother : other ∈ backlog) (hp : p other = true) (hne : other ≠ task) :
    Precedes taskRank backlog task other := by
  have hmem : other ∈ task :: rest := by
    rw [← h, mem_byRank]
    exact List.mem_filter.mpr ⟨hother, hp⟩
  have hpair : (byRank taskRank (backlog.filter p)).Pairwise
      (Precedes taskRank (backlog.filter p)) := pairwise_byRank _
  rw [h] at hpair
  have hrest := (List.mem_cons.mp hmem).resolve_left hne
  exact ((List.pairwise_cons.mp hpair).1 other hrest).mono
    List.filter_sublist

/-! ## The agent's scan -/

/-- A task that no one owns is skipped by the agent only if it cannot run it. -/
theorem executable_of_spawnable {backlog : Backlog} {agentOrId : AgentOrId}
    {excludeTaskRefs : List TaskRef} {task : Task}
    (h : spawnable dates backlog excludeTaskRefs now task = true)
    (hable : truthy task.owner = false →
      canAgentExecuteTask task agentOrId.asAgent = true) :
    executable dates backlog agentOrId excludeTaskRefs now task = true := by
  simp only [spawnable, Bool.and_eq_true, Bool.not_eq_true'] at h
  obtain ⟨⟨⟨⟨⟨htodo, helapsed⟩, hfree⟩, hready⟩, hunowned⟩, hdone⟩ := h
  simp only [executable, htodo, helapsed, hfree, hready, hunowned, hdone,
    hable hunowned, Bool.false_and, Bool.not_false, Bool.and_true]

theorem owner_of_executable {backlog : Backlog} {agentOrId : AgentOrId}
    {excludeTaskRefs : List TaskRef} {task : Task}
    (h : executable dates backlog agentOrId excludeTaskRefs now task = true)
    (hno : spawnable dates backlog excludeTaskRefs now task = false) :
    truthy task.owner = true ∧ task.owner = agentOrId.agentId := by
  simp only [executable, Bool.and_eq_true, Bool.not_eq_true'] at h
  obtain ⟨⟨⟨⟨⟨⟨⟨htodo, helapsed⟩, hfree⟩, hready⟩, hother⟩, hnobody⟩, -⟩,
    hdone⟩ := h
  have howned : truthy task.owner = true := by
    refine Bool.eq_true_of_not_eq_false fun hunowned => ?_
    simp only [spawnable, htodo, helapsed, hfree, hready, hunowned, hdone,
      Bool.not_false, Bool.and_true, Bool.true_eq_false] at hno
  rw [howned, Bool.true_and, Bool.not_eq_false'] at hnobody
  rw [howned, hnobody, Bool.true_and, Bool.true_and, decide_eq_false_iff_not,
    not_not] at hother
  exact ⟨howned, hother⟩

theorem agent_scan {backlog rest : Backlog} {agentOrId : AgentOrId}
    {excludeTaskRefs : List TaskRef} {task : Task}
    (hable : ∀ t ∈ backlog, truthy t.owner = false →
      canAgentExecuteTask t agentOrId.asAgent = true)
    (h : byRank taskRank (backlog.filter
      (spawnable dates backlog excludeTaskRefs now)) = task :: rest) :
    nextEligibleTaskFromBacklog dates backlog agentOrId excludeTaskRefs now =
        some task.ref ∨
      ∃ own ∈ backlog, truthy own.owner = true ∧
        own.owner = agentOrId.agentId ∧
        Precedes taskRank backlog own task ∧
        nextEligibleTaskFromBacklog dates backlog agentOrId excludeTaskRefs
          now = some own.ref := by
  have hsub : backlog.filter (spawnable dates backlog excludeTaskRefs now) =
      (backlog.filter (executable dates backlog agentOrId excludeTaskRefs
        now)).filter (spawnable dates backlog excludeTaskRefs now) := by
    rw [List.filter_filter]
    refine List.filter_congr fun t ht => ?_
    cases hs : spawnable dates backlog excludeTaskRefs now t with
    | false => rfl
    | true => simp [executable_of_spawnable hs (hable t ht)]
  rw [hsub, ← filter_byRank] at h
  rw [nextEligibleTaskFromBacklog_eq]
  have htask : task ∈ byRank taskRank (backlog.filter
      (executable dates backlog agentOrId excludeTaskRefs now)) :=
    List.mem_of_mem_filter (h ▸ List.mem_cons_self)
  cases hall : byRank taskRank (backlog.filter
      (executable dates backlog agentOrId excludeTaskRefs now)) with
  | nil =>
      rw [hall] at htask
      cases htask
  | cons own others =>
      rw [hall] at h
      cases hs : spawnable dates backlog excludeTaskRefs now own with
      | true =>
          rw [List.filter_cons_of_pos hs] at h
          cases h
          exact .inl rfl
      | false =>
          have hown : own ∈ backlog.filter (executable dates backlog agentOrId
              excludeTaskRefs now) :=
            mem_byRank.mp (hall ▸ List.mem_cons_self)
          obtain ⟨hmem, hexec⟩ := List.mem_filter.mp hown
          obtain ⟨howned, howner⟩ := owner_of_executable hexec hs
          obtain ⟨hback, hrun⟩ := List.mem_filter.mp (mem_byRank.mp htask)
          have hne : task ≠ own := by
            rintro rfl
            have hpos : task ∈ List.filter
                (spawnable dates backlog excludeTaskRefs now) (task :: others) :=
              h ▸ List.mem_cons_self
            rw [(List.mem_filter.mp hpos).2] at hs
            cases hs
          exact .inr ⟨own, hmem, howned, howner,
            precedes_of_byRank hall hback hrun hne, rfl⟩

/-! ## The whole plan -/

theorem spawnable_append {backlog : Backlog} {excludeTaskRefs taken : List TaskRef}
    (task : Task) :
    spawnable dates backlog (excludeTaskRefs ++ taken) now task =
      (decide (task.ref ∉ taken) &&
        spawnable dates backlog excludeTaskRefs now task) := by
  have hsplit : (!(excludeTaskRefs ++ taken).contains task.ref) =
      (!excludeTaskRefs.contains task.ref && decide (task.ref ∉ taken)) := by
    rw [Bool.eq_iff_iff]
    simp
  rw [spawnable, spawnable, hsplit]
  cases decide (task.ref ∉ taken) <;> simp

/-- The picks are the first of the tasks the scan keeps, in their order. -/
theorem dispatchItems_eq {ts : TaskStore} (claims : List Claim)
    (capacity : Nat) :
    dispatchItems dates (readProjectBacklog ts) claims now capacity =
      ((byRank taskRank ((readProjectBacklog ts).filter
        (spawnable dates (readProjectBacklog ts) (reservedTaskRefs claims)
          now))).take capacity).map SpawnItem.ofTask := by
  rw [List.map_take, dispatchItems]
  refine collect_eq_take ?_ (fun taken => ?_) capacity
  · rw [List.map_map]
    refine ((perm_byRank _).map Task.ref).nodup_iff.mpr ?_
    exact (nodup_readProjectBacklog ts).sublist
      (List.filter_sublist.map Task.ref)
  · rw [nextSpawnableTask_eq, List.filter_map, List.head?_map, filter_byRank,
      List.filter_filter]
    congr 3
    exact List.filter_congr fun task _ => spawnable_append task

def Runnable (dates : DateApi) (ts : TaskStore) (claims : List Claim) (now : Int)
    (row : ProjectTask) : Prop :=
  Dispatchable dates ts now row ∧ row.ref ∉ reservedTaskRefs claims

theorem mem_filter_spawnable {claims : List Claim} {task : Task} :
    task ∈ (readProjectBacklog ts).filter (spawnable dates
        (readProjectBacklog ts) (reservedTaskRefs claims) now) ↔
      ∃ row, Runnable dates ts claims now row ∧
        projectTaskToBacklogTask row = task := by
  rw [List.mem_filter, mem_readProjectBacklog]
  constructor
  · rintro ⟨⟨row, hrow, rfl⟩, hspawn⟩
    exact ⟨row, (spawnable_row hrow).mp hspawn, rfl⟩
  · rintro ⟨row, hopen, rfl⟩
    exact ⟨⟨row, hopen.1.stored, rfl⟩, (spawnable_row hopen.1.stored).mpr hopen⟩

theorem Dispatchable.claimable (h : Dispatchable dates ts now row)
    (agentId : AgentId) : ts.Claimable row agentId where
  stored := Table.find?_of_mem h.stored
  todo := h.todo
  owner := fun howned => by
    rw [h.unowned] at howned
    cases howned.1
  ready := by
    refine List.filter_eq_nil_iff.mpr fun ref href => ?_
    obtain ⟨dep, hdep, rfl, hdone⟩ := h.released ref href
    rw [TaskStore.getTask, Table.find?_of_mem hdep]
    simpa using merged_iff.mpr hdone

theorem Dispatchable.readiness (h : Dispatchable dates ts now row) :
    deriveDependencyReadiness row.status row.definition.dependsOn
        (fun ref => (ts.getTask ref).map ProjectTask.status) =
      ⟨.ready, []⟩ := by
  have hnone : row.definition.dependsOn.eraseDups.filter (fun ref =>
      (ts.getTask ref).map ProjectTask.status ≠ some .done &&
        (ts.getTask ref).map ProjectTask.status ≠ some .released) = [] := by
    refine List.filter_eq_nil_iff.mpr fun ref href => ?_
    obtain ⟨dep, hdep, rfl, hdone⟩ :=
      h.released ref (List.mem_eraseDups.mp href)
    rw [TaskStore.getTask, Table.find?_of_mem hdep]
    rcases hdone with hdone | hdone <;> simp [hdone]
  simp only [deriveDependencyReadiness, h.todo, ne_eq, not_true_eq_false,
    if_false]
  rw [if_pos hnone, hnone]

structure Chosen (dates : DateApi) (ts : TaskStore) (claims : List Claim)
    (now : Int) (row : ProjectTask) : Prop where
  may : Runnable dates ts claims now row
  first : ∀ other, Runnable dates ts claims now other → other ≠ row →
    Precedes taskRank (readProjectBacklog ts) (projectTaskToBacklogTask row)
      (projectTaskToBacklogTask other)
  claimed : ∀ runId agentId at', ¬ ts.Bound runId →
    ∃ pinned ts', TaskStore.claimTask row.ref runId agentId at' ts =
      .ok (pinned, ts')
  ready : (deriveDependencyReadiness row.status row.definition.dependsOn
    (fun ref => (ts.getTask ref).map ProjectTask.status)).kind = .ready
  agents : ∀ agentOrId : AgentOrId,
    (∀ task ∈ readProjectBacklog ts, truthy task.owner = false →
      canAgentExecuteTask task agentOrId.asAgent = true) →
    nextEligibleTaskFromBacklog dates (readProjectBacklog ts) agentOrId
        (reservedTaskRefs claims) now = some row.ref ∨
      ∃ own ∈ readProjectBacklog ts, truthy own.owner = true ∧
        own.owner = agentOrId.agentId ∧
        Precedes taskRank (readProjectBacklog ts) own
          (projectTaskToBacklogTask row) ∧
        nextEligibleTaskFromBacklog dates (readProjectBacklog ts) agentOrId
          (reservedTaskRefs claims) now = some own.ref

structure PlanAgrees (dates : DateApi) (s : Project) (claims : List Claim)
    (now : Int) : Prop where
  found : (∃ item, nextSpawnableTask dates s.backlog (reservedTaskRefs claims)
      now = some item) ↔ ∃ row, Runnable dates s.tasks claims now row
  chosen : ∀ item, nextSpawnableTask dates s.backlog (reservedTaskRefs claims)
      now = some item →
    ∃ row, item = SpawnItem.ofTask (projectTaskToBacklogTask row) ∧
      Chosen dates s.tasks claims now row
  inOrder : ∃ order : List Task, (order.map Task.ref).Nodup ∧
    (∀ task, task ∈ order ↔ ∃ row, Runnable dates s.tasks claims now row ∧
      projectTaskToBacklogTask row = task) ∧
    order.Pairwise (Precedes taskRank s.backlog) ∧
    ∀ capacity, dispatchItems dates s.backlog claims now capacity =
      (order.take capacity).map SpawnItem.ofTask
  plain : StoresAgree s → ∀ row, Dispatchable dates s.tasks now row →
    row.ref ∉ reservedTaskRefs s.claims

/-- The tasks that may run, first come first served within a priority. -/
theorem dispatch_plan_agrees (dates : DateApi) (s : Project)
    (claims : List Claim) (now : Int) : PlanAgrees dates s claims now := by
  have hkept : ∀ task, task ∈ byRank taskRank (s.backlog.filter (spawnable
      dates s.backlog (reservedTaskRefs claims) now)) ↔
      ∃ row, Runnable dates s.tasks claims now row ∧
        projectTaskToBacklogTask row = task := fun task => by
    rw [mem_byRank]
    exact mem_filter_spawnable
  refine ⟨?_, ?_, ?_, ?_⟩
  · rw [nextSpawnableTask_eq]
    constructor
    · rintro ⟨item, hitem⟩
      obtain ⟨task, htask, -⟩ := Option.map_eq_some_iff.mp hitem
      obtain ⟨row, hopen, -⟩ := (hkept task).mp (List.mem_of_head? htask)
      exact ⟨row, hopen⟩
    · rintro ⟨row, hopen⟩
      have hmem := (hkept _).mpr ⟨row, hopen, rfl⟩
      cases hall : byRank taskRank (s.backlog.filter (spawnable dates s.backlog
          (reservedTaskRefs claims) now)) with
      | nil =>
          rw [hall] at hmem
          cases hmem
      | cons task rest => exact ⟨_, rfl⟩
  · intro item hitem
    rw [nextSpawnableTask_eq] at hitem
    obtain ⟨task, htask, rfl⟩ := Option.map_eq_some_iff.mp hitem
    obtain ⟨rest, hall⟩ := List.head?_eq_some_iff.mp htask
    obtain ⟨row, hopen, rfl⟩ := (hkept task).mp (hall ▸ List.mem_cons_self)
    refine ⟨row, rfl, hopen, fun other hother hne => ?_,
      fun runId agentId now' hnew => ?_, ?_, fun agentOrId hable => ?_⟩
    · have hmem : projectTaskToBacklogTask other ∈ s.backlog :=
        mem_readProjectBacklog.mpr ⟨other, hother.1.stored, rfl⟩
      refine precedes_of_byRank hall hmem
        ((spawnable_row hother.1.stored).mpr hother) fun heq => hne ?_
      exact Table.eq_of_key hother.1.stored hopen.1.stored
        (congrArg Task.ref heq)
    · obtain ⟨ts', hclaim⟩ := (hopen.1.claimable agentId).claimTask hnew now'
      exact ⟨_, ts', hclaim⟩
    · rw [hopen.1.readiness]
    · exact agent_scan hable hall
  · refine ⟨byRank taskRank (s.backlog.filter (spawnable dates s.backlog
      (reservedTaskRefs claims) now)), ?_, hkept, ?_, dispatchItems_eq claims⟩
    · refine ((perm_byRank _).map Task.ref).nodup_iff.mpr ?_
      exact (nodup_readProjectBacklog s.tasks).sublist
        (List.filter_sublist.map Task.ref)
    · exact (pairwise_byRank _).imp fun h => h.mono List.filter_sublist
  · intro hagree row hrow hmem
    obtain ⟨c, hc, href⟩ := List.mem_map.mp hmem
    obtain ⟨hstored, hactive⟩ := List.mem_filter.mp hc
    have hfree := (hagree.free row hrow.stored (.inl hrow.todo)).1 c hstored href
    rw [hactive] at hfree
    cases hfree

end OrcState.Coordinator
