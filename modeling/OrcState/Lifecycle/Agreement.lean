import OrcState.Lifecycle.Coherence

/-!
# The stores agree

Phases read back as facts about the rows: one active claim a task, a claim and a
binding for a task that runs, none for a task that waits.
-/

namespace OrcState.Lifecycle

open OrcState.Contract OrcState.Foundation OrcState.Store
open OrcState.Foundation.Effect

variable {dates : DateApi} {registry : Registry}

/-! ## Every call keeps the phases -/

def finishedRun : Action → Option (RunId × FinishOptions)
  | .finishRun runId _ o _ => some (runId, o)
  | _ => none

def CalledAsAllowed (s : Project) (a : Action) : Prop :=
  ∀ q ∈ finishedRun a, FinishAllowed s q.1 q.2

/-- The call returns or throws before its first write. -/
def Undisturbed (dates : DateApi) (registry : Registry) (s : Project)
    (a : Action) : Prop :=
  AllOrNothing (perform dates registry a) s ∧ CalledAsAllowed s a

instance (s : Project) (a : Action) :
    Decidable (Undisturbed dates registry s a) :=
  inferInstanceAs (Decidable
    (AllOrNothing (perform dates registry a) s ∧
      ∀ q ∈ finishedRun a, FinishAllowed s q.1 q.2))

theorem Coherent.applyLifecycle {request : LifecycleRequest} {time : String}
    {s t : Project} {r : Except DomainError Unit} (hs : Coherent s)
    (hsound : Sound s) (h : applyLifecycle dates request time s = (r, t))
    (hall : ∀ e, r = .error e → t = s) : Coherent t := by
  cases applyLifecycle_outcome h with
  | quiet hruns htasks =>
      exact hs.of_views fun ref => .inl
        (view_eq (by rw [htasks]) (by rw [hruns]) (by rw [htasks]))
  | lease f runId hf hmut htasks => exact hs.lease hf hmut htasks
  | start runId agentId o h => exact hs.startRun h hall
  | finish runId agentId o hallowed h =>
      exact hs.finishRun hsound h hallowed hall

theorem Coherent.perform {a : Action} {s t : Project}
    {r : Except DomainError Unit} (hs : Coherent s) (hsound : Sound s)
    (h : perform dates registry a s = (r, t)) (hcalled : CalledAsAllowed s a)
    (hall : ∀ e, r = .error e → t = s) : Coherent t := by
  cases a with
  | claimTask ref agentId lease runId snapshot now =>
      obtain ⟨r', hx, hr⟩ := result_cases h
      exact hs.claimTask hsound hx fun e he => hall e ((hr e).mpr he)
  | startRun runId agentId o now => exact hs.startRun h hall
  | heartbeat runId agentId o =>
      obtain ⟨r', hx, -⟩ := result_cases h
      rcases heartbeat_cases hx with rfl | ⟨f, hf, hmut, htasks⟩
      · exact hs
      · exact hs.lease hf hmut htasks
  | renewLeaseOnly runId lease now =>
      rcases renewLeaseOnly_cases h with rfl | ⟨f, hf, hmut, htasks⟩
      · exact hs
      · exact hs.lease hf hmut htasks
  | finishRun runId agentId o now => exact hs.finishRun hsound h (hcalled _ rfl) hall
  | markTaskEnvelopeSent runId agentId o =>
      obtain ⟨r', hx, -⟩ := result_cases h
      rcases markTaskEnvelopeSent_cases hx with rfl | hx
      · exact hs
      · exact hs.updateClaim hx fun _ => ⟨rfl, rfl, rfl⟩
  | setRunSessionStartRetryState runId agentId count nextRetryAt lastError =>
      obtain ⟨r', hx, -⟩ := result_cases h
      exact hs.updateClaim hx fun _ => ⟨rfl, rfl, rfl⟩
  | setRunFinalizationState runId agentId u =>
      obtain ⟨r', hx, -⟩ := result_cases h
      exact hs.updateClaim hx fun _ => ⟨rfl, rfl, rfl⟩
  | setRunInputState runId agentId inputState requestedAt now =>
      obtain ⟨r', hx, -⟩ := result_cases h
      exact hs.updateClaim hx fun _ => ⟨rfl, rfl, rfl⟩
  | setPrRef runId prRef =>
      obtain ⟨r', hx, -⟩ := result_cases h
      exact hs.updateClaim hx fun _ => ⟨rfl, rfl, rfl⟩
  | setPrCreatedAt runId createdAt seq =>
      obtain ⟨r', hx, -⟩ := result_cases h
      exact hs.updateClaim hx fun _ => ⟨rfl, rfl, rfl⟩
  | expireStaleLeases policy actorId now =>
      obtain ⟨r', hx, hr⟩ := result_cases h
      exact hs.expireStaleLeases hsound hx fun e he => hall e ((hr e).mpr he)
  | delegateTask args now =>
      obtain ⟨r', hx, -⟩ := result_cases h
      exact hs.delegateTask hx
  | cancelTask ref reason actorId now =>
      obtain ⟨r', hx, hr⟩ := result_cases h
      exact hs.cancelTask hx fun e he => hall e ((hr e).mpr he)
  | resetTask ref actorId now =>
      obtain ⟨r', hx, hr⟩ := result_cases h
      exact hs.resetTask hx fun e he => hall e ((hr e).mpr he)
  | unblockTask ref reason actorId now => exact hs.unblockTask h
  | expireRun runId actorId now => exact hs.expireRun hsound h hall
  | markTaskDoneRuntimeOnly ref actorId now =>
      obtain ⟨r', hx, -⟩ := result_cases h
      exact hs.markTaskDoneRuntimeOnly hx
  | reconcileState now =>
      cases (hs.reconcileState hsound).symm.trans h
      exact hs
  | applyLifecycle request time => exact hs.applyLifecycle hsound h hall

theorem Coherent.fresh {s : Project} (h : Fresh s) : Coherent s := by
  refine ⟨fun ref => ?_⟩
  have hclaims : (s.view ref).claims = ∅ := by
    refine activeAt_eq_empty fun c hc => ?_
    rw [Table.mem_rows, h.runs] at hc
    cases hc
  have hruns : (s.view ref).runs = ∅ := by
    refine Set.eq_empty_iff_forall_notMem.mpr ?_
    rintro id ⟨run, hrun, -⟩
    rw [Table.mem_rows, h.taskRuns] at hrun
    cases hrun
  cases hget : s.tasks.getTask ref with
  | none =>
      refine ⟨.absent, View.ext ?_ hclaims hruns⟩
      change statusAt s.tasks ref = none
      rw [statusAt, hget]
      rfl
  | some task =>
      refine Phase.idle_of ?_ (h.idle task (Table.mem_of_find? hget)) hclaims
        hruns
      change statusAt s.tasks ref = some task.status
      rw [statusAt, hget]
      rfl

theorem Coherent.reachable {s : Project}
    (hs : (lifecycleSystem dates registry).ReachableUnder
      (Undisturbed dates registry) s) : Coherent s := by
  refine hs.invariant (fun _ h => .fresh h) fun s a t hreach hs hok ht => ?_
  cases ht
  exact hs.perform (Sound.reachable hreach) (Prod.eta _).symm hok.2 hok.1

/-! ## What the phases say of the rows -/

structure StoresAgree (s : Project) : Prop where
  unique : ∀ c, c ∈ s.events.runs → ∀ c', c' ∈ s.events.runs →
    c.active = true → c'.active = true → c.taskRef = c'.taskRef → c = c'
  held : ∀ task, task ∈ s.tasks.tasks →
    task.status = .claimed ∨ task.status = .inProgress →
    ∃ c, c ∈ s.events.runs ∧ c.active = true ∧ c.taskRef = task.ref ∧
      c.state.text = task.status.text ∧
      (∀ c', c' ∈ s.events.runs → c'.active = true →
        c'.taskRef = task.ref → c' = c) ∧
      ∃ run, run ∈ s.tasks.taskRuns ∧ run.taskRef = task.ref ∧
        (run.state = .claimed ∨ run.state = .inProgress) ∧
        run.runId = c.runId
  free : ∀ task, task ∈ s.tasks.tasks →
    task.status = .todo ∨ task.status = .blocked ∨
      task.status = .cancelled →
    (∀ c, c ∈ s.events.runs → c.taskRef = task.ref → c.active = false) ∧
      ∀ run, run ∈ s.tasks.taskRuns → run.taskRef = task.ref →
        run.active = false

theorem statusAt_of_mem {ts : TaskStore} {task : ProjectTask}
    (h : task ∈ ts.tasks) : statusAt ts task.ref = some task.status := by
  rw [statusAt, TaskStore.getTask, Table.find?_of_mem h]
  rfl

theorem Coherent.unique {s : Project} (hs : Coherent s) {c c' : Claim}
    (hc : c ∈ s.events.runs) (hc' : c' ∈ s.events.runs)
    (ha : c.active = true) (ha' : c'.active = true)
    (href : c.taskRef = c'.taskRef) : c = c' := by
  obtain ⟨started, -, hphase⟩ := hs.of_claim hc ha
  have hmem : (c'.runId, c'.state) ∈ (s.view c.taskRef).claims :=
    ⟨c', hc', ha', href.symm, rfl⟩
  have hid : c'.runId = c.runId := by
    rcases hphase with hp | ⟨status, hmerged, hp⟩
    · rw [hp] at hmem
      exact (Prod.mk.inj (Set.mem_singleton_iff.mp hmem)).1
    · rw [hp] at hmem
      exact (Prod.mk.inj (Set.mem_singleton_iff.mp hmem)).1
  exact (Table.eq_of_key hc' hc hid).symm

theorem Coherent.agree {s : Project} (hs : Coherent s) (hsound : Sound s) :
    StoresAgree s := by
  refine ⟨fun c hc c' hc' => hs.unique hc hc', fun task htask hst => ?_,
    fun task htask hst => ?_⟩
  · have hrunning : task.status.running = true := by
      rcases hst with h | h
      · rw [h]
        rfl
      · rw [h]
        rfl
    obtain ⟨id, started, hstatus, hp⟩ :=
      hs.of_running (statusAt_of_mem htask) hrunning
    have hclaim : (id, claimStateOf started) ∈ (s.view task.ref).claims := by
      rw [hp]
      exact Set.mem_singleton _
    have hbinding : id ∈ (s.view task.ref).runs := by
      rw [hp]
      exact Set.mem_singleton _
    obtain ⟨c, hc, ha, href, hq⟩ := hclaim
    obtain ⟨rfl, hstate⟩ := Prod.mk.inj hq
    obtain ⟨run, hrun, hactive, hrunref, hid⟩ := hbinding
    refine ⟨c, hc, ha, href, ?_, fun c' hc' ha' href' => ?_, run, hrun,
      hrunref, ?_, hid⟩
    · rw [hstate, hstatus]
      cases started <;> rfl
    · exact hs.unique hc' hc ha' ha (href'.trans href.symm)
    · cases hrs : run.state with
      | claimed => exact .inl rfl
      | inProgress => exact .inr rfl
      | workComplete => exact absurd hrs (hsound.tasks.settled run hrun)
      | finished | failed | cancelled =>
          rw [TaskRun.active, hrs] at hactive
          cases hactive
  · have hidle : task.status.running = false ∧
        task.status.merged = false := by
      rcases hst with h | h | h <;> rw [h] <;> exact ⟨rfl, rfl⟩
    have hstatus := statusAt_of_mem htask
    have hclaims := hs.claims_idle hstatus hidle.1 hidle.2
    have hruns := hs.runs_idle hstatus hidle.1
    refine ⟨fun c hc href => ?_, fun run hrun href => ?_⟩
    · refine Bool.eq_false_iff.mpr fun ha => ?_
      have hmem : (c.runId, c.state) ∈ activeAt s.events.runs task.ref :=
        ⟨c, hc, ha, href, rfl⟩
      rw [hclaims] at hmem
      exact Set.notMem_empty _ hmem
    · refine Bool.eq_false_iff.mpr fun ha => ?_
      have hmem : run.runId ∈ s.tasks.runsAt task.ref :=
        ⟨run, hrun, ha, href, rfl⟩
      rw [hruns] at hmem
      exact Set.notMem_empty _ hmem

/--
In every run whose calls return or throw before their first write, claims, task
rows and run bindings agree.
-/
theorem stores_agree (dates : DateApi) (registry : Registry) {s : Project}
    (hs : (lifecycleSystem dates registry).ReachableUnder
      (Undisturbed dates registry) s) : StoresAgree s :=
  (Coherent.reachable hs).agree (Sound.reachable hs)

/-! ## A run that starts -/

def soloRegistry : Registry where
  agents := ["worker"]
  reasons _ _ := []
  formatRoutingReasons reasons := reasons
  selectAutoTarget _ _ _ := none

def oneTask : Project where
  tasks :=
    { tasks := ⟨[{ ref := "docs/intro", definition := { title := "Intro" } }],
        by simp⟩ }

theorem fresh_oneTask : Fresh oneTask where
  runs := rfl
  taskRuns := rfl
  idle task htask := by
    cases List.mem_singleton.mp htask
    rfl
  refs task htask := by
    cases List.mem_singleton.mp htask
    decide
  tidy task htask := by
    cases List.mem_singleton.mp htask
    exact fun _ => rfl

def claimAndStart : List Action :=
  [.claimTask "docs/intro" "worker" 3 "run-1" (.ok ()) 1,
   .startRun "run-1" "worker" { time := DateApi.epoch.toISOString 2 }
    (DateApi.epoch.toISOString 2)]

theorem stores_agree_started :
    ∃ t, (lifecycleSystem .epoch soloRegistry).run oneTask claimAndStart =
        some t ∧
      statusAt t.tasks "docs/intro" = some .inProgress ∧ StoresAgree t := by
  obtain ⟨t, ht, hstatus⟩ :=
    (lifecycleSystem .epoch soloRegistry).exists_run_of_map
      (f := fun t => statusAt t.tasks "docs/intro")
      (by decide : ((lifecycleSystem .epoch soloRegistry).run oneTask
        claimAndStart).map (fun t => statusAt t.tasks "docs/intro") =
          some (some .inProgress))
  refine ⟨t, ht, hstatus, stores_agree .epoch soloRegistry ?_⟩
  exact (System.ReachableUnder.initial fresh_oneTask).run (by decide) ht

end OrcState.Lifecycle
