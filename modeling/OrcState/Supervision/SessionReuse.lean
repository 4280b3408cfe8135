import OrcState.Supervision.Rollback

/-!
# The rollback of a reused session

A session that reuses the coordinator takes a snapshot and resets nothing, so workers
and operators go on until the start fails and the snapshot is written back.  The
rollback replaces the claims whole.  It loses nothing exactly while no call in between
creates a run or ends one.
-/

namespace OrcState.Supervision

open OrcState.Contract OrcState.Foundation OrcState.Store OrcState.Lifecycle
open OrcState.Foundation.Effect

variable {dates : DateApi} {registry : Registry} {w w₁ w₂ : Workspace}

/-! ## The calls in between -/

def workSystem (dates : DateApi) (registry : Registry) : System Workspace Action where
  initial w := Fresh w.project
  step w a := some (onProject (perform dates registry a) w).2

def holding (s : Project) (runId : RunId) : Option (TaskRef × Bool) :=
  (s.findClaim runId).map fun c => (c.taskRef, c.active)

/-- The call returns or throws before its first write. -/
def Orderly (dates : DateApi) (registry : Registry) (w : Workspace)
    (a : Action) : Prop :=
  Undisturbed dates registry w.project a

instance (w : Workspace) (a : Action) : Decidable (Orderly dates registry w a) :=
  inferInstanceAs (Decidable (Undisturbed dates registry w.project a))

/-- An orderly call that neither creates a run nor ends one. -/
def Settled (dates : DateApi) (registry : Registry) (w : Workspace)
    (a : Action) : Prop :=
  Orderly dates registry w a ∧ ∀ runId,
    holding (perform dates registry a w.project).2 runId = holding w.project runId

/-- The project goes through the states of the lifecycle alone. -/
theorem workSystem_project
    (h : (workSystem dates registry).ReachableUnder (Orderly dates registry) w) :
    (lifecycleSystem dates registry).ReachableUnder (Undisturbed dates registry)
      w.project := by
  induction h with
  | initial hfresh => exact .initial hfresh
  | step hs hok hstep ih =>
      cases hstep
      exact ih.step hok rfl

theorem workSystem_agree
    (h : (workSystem dates registry).ReachableUnder (Orderly dates registry) w) :
    StoresAgree w.project :=
  stores_agree dates registry (workSystem_project h)

/-- What the runs hold is the same after any settled calls. -/
theorem holding_of_run {actions : List Action}
    (hsettled : (workSystem dates registry).Along (Settled dates registry) w actions)
    (hrun : (workSystem dates registry).run w actions = some w₁) :
    ∀ runId, holding w₁.project runId = holding w.project runId := by
  refine System.along_preserves (I := fun _ => True)
    (P := fun v => ∀ runId, holding v.project runId = holding w.project runId)
    (fun _ _ _ h _ => h) ?_ trivial (fun _ => rfl) hsettled hrun
  intro v a v' _ hv hok hstep runId
  cases hstep
  exact (hok.2 runId).trans (hv runId)

theorem reachable_of_run {actions : List Action}
    (hreach : (workSystem dates registry).ReachableUnder (Orderly dates registry) w)
    (hsettled : (workSystem dates registry).Along (Settled dates registry) w actions)
    (hrun : (workSystem dates registry).run w actions = some w₁) :
    (workSystem dates registry).ReachableUnder (Orderly dates registry) w₁ :=
  System.along_preserves (I := fun _ => True) (fun _ _ _ h _ => h)
    (fun _ _ _ _ hv hok hstep => hv.step hok.1 hstep) trivial hreach hsettled hrun

/-! ## Stores that agree on who is active -/

structure ActiveAgree (s : Project) : Prop where
  unique : ∀ c, c ∈ s.events.runs → ∀ c', c' ∈ s.events.runs →
    c.active = true → c'.active = true → c.taskRef = c'.taskRef → c = c'
  held : ∀ task, task ∈ s.tasks.tasks →
    task.status = .claimed ∨ task.status = .inProgress →
    ∃ c, c ∈ s.events.runs ∧ c.active = true ∧ c.taskRef = task.ref ∧
      ∃ run, run ∈ s.tasks.taskRuns ∧ run.taskRef = task.ref ∧
        (run.state = .claimed ∨ run.state = .inProgress) ∧ run.runId = c.runId
  free : ∀ task, task ∈ s.tasks.tasks →
    task.status = .todo ∨ task.status = .blocked ∨ task.status = .cancelled →
    (∀ c, c ∈ s.events.runs → c.taskRef = task.ref → c.active = false) ∧
      ∀ run, run ∈ s.tasks.taskRuns → run.taskRef = task.ref → run.active = false

section Holdings

variable {s t : Project}

theorem holding_eq_some {runId : RunId} {ref : TaskRef} {active : Bool} :
    holding s runId = some (ref, active) ↔ ∃ c, c ∈ s.events.runs ∧
      c.runId = runId ∧ c.taskRef = ref ∧ c.active = active := by
  simp only [holding, Option.map_eq_some_iff, Prod.mk.injEq, Project.findClaim,
    Table.find?_eq_some, and_assoc]

theorem holding_of_mem {c : Claim} (hc : c ∈ s.events.runs) :
    holding s c.runId = some (c.taskRef, c.active) :=
  holding_eq_some.mpr ⟨c, hc, rfl, rfl, rfl⟩

theorem holding_counterpart (h : ∀ runId, holding t runId = holding s runId)
    {c : Claim} (hc : c ∈ s.events.runs) : ∃ c', c' ∈ t.events.runs ∧
      c'.runId = c.runId ∧ c'.taskRef = c.taskRef ∧ c'.active = c.active :=
  holding_eq_some.mp ((h c.runId).trans (holding_of_mem hc))

theorem activeAgree_of_stores (h : StoresAgree s) : ActiveAgree s where
  unique := h.unique
  held task htask hstatus := by
    obtain ⟨c, hc, hactive, href, -, -, hrun⟩ := h.held task htask hstatus
    exact ⟨c, hc, hactive, href, hrun⟩
  free := h.free

theorem ActiveAgree.of_holding (hs : ActiveAgree s) (htasks : t.tasks = s.tasks)
    (h : ∀ runId, holding t runId = holding s runId) : ActiveAgree t where
  unique c hc c' hc' hactive hactive' href := by
    have hback : ∀ runId, holding s runId = holding t runId :=
      fun runId => (h runId).symm
    obtain ⟨d, hd, hid, hdref, hdactive⟩ := holding_counterpart hback hc
    obtain ⟨d', hd', hid', hdref', hdactive'⟩ := holding_counterpart hback hc'
    have hsame := hs.unique d hd d' hd' (hdactive.trans hactive)
      (hdactive'.trans hactive') (hdref.trans (href.trans hdref'.symm))
    exact Table.eq_of_key hc hc' (hid.symm.trans ((congrArg Claim.runId hsame).trans
      hid'))
  held task htask hstatus := by
    rw [htasks] at htask
    obtain ⟨c, hc, hactive, href, run, hrun, hrunRef, hstate, hid⟩ :=
      hs.held task htask hstatus
    obtain ⟨c', hc', hid', href', hactive'⟩ := holding_counterpart h hc
    exact ⟨c', hc', hactive'.trans hactive, href'.trans href, run, htasks ▸ hrun,
      hrunRef, hstate, hid.trans hid'.symm⟩
  free task htask hstatus := by
    rw [htasks] at htask
    obtain ⟨hclaims, hruns⟩ := hs.free task htask hstatus
    refine ⟨fun c hc href => ?_, htasks ▸ hruns⟩
    obtain ⟨d, hd, -, hdref, hdactive⟩ :=
      holding_counterpart (fun runId => (h runId).symm) hc
    rw [← hdactive]
    exact hclaims d hd (hdref.trans href)

theorem ActiveAgree.stores (h : ActiveAgree s)
    (htext : ∀ task, task ∈ s.tasks.tasks →
      task.status = .claimed ∨ task.status = .inProgress →
      ∀ c, c ∈ s.events.runs → c.active = true → c.taskRef = task.ref →
        c.state.text = task.status.text) : StoresAgree s where
  unique := h.unique
  held task htask hstatus := by
    obtain ⟨c, hc, hactive, href, hrun⟩ := h.held task htask hstatus
    refine ⟨c, hc, hactive, href, htext task htask hstatus c hc hactive href,
      fun c' hc' hactive' href' => ?_, hrun⟩
    exact h.unique c' hc' c hc hactive' hactive (href'.trans href.symm)
  free := h.free

theorem storesAgree_of_states (hs : StoresAgree s) (ht : ActiveAgree t)
    (htasks : t.tasks = s.tasks)
    (h : ∀ runId, (t.findClaim runId).map (fun c => (c.taskRef, c.state)) =
      (s.findClaim runId).map fun c => (c.taskRef, c.state)) : StoresAgree t := by
  apply ht.stores
  intro task htask hstatus c hc hactive href
  rw [htasks] at htask
  have hfind : t.findClaim c.runId = some c := Table.find?_of_mem hc
  have hstored := h c.runId
  rw [hfind, Option.map_some] at hstored
  obtain ⟨d, hd, hpair⟩ := Option.map_eq_some_iff.mp hstored.symm
  rw [Prod.mk.injEq] at hpair
  have hdactive : d.active = true := by
    rw [Claim.active, hpair.2]
    exact hactive
  obtain ⟨holder, hholder, -, -, htext, honly, -⟩ := hs.held task htask hstatus
  have hsame := honly d (Table.mem_of_find? hd) hdactive (hpair.1.trans href)
  rw [← hpair.2, hsame]
  exact htext

end Holdings

/-! ## What the rollback leaves -/

/--
Every run still exists with its task, no run that had ended is active again, and the
stores agree.
-/
structure LosesNothing (s t : Project) : Prop where
  runs : ∀ c, c ∈ s.events.runs → ∃ c', c' ∈ t.events.runs ∧ c'.runId = c.runId ∧
    c'.taskRef = c.taskRef
  ended : ∀ c, c ∈ s.events.runs → c.active = false →
    ∀ c', c' ∈ t.events.runs → c'.runId = c.runId → c'.active = false
  agree : ActiveAgree t

theorem LosesNothing.of_holding {s t : Project} (hs : ActiveAgree s)
    (htasks : t.tasks = s.tasks)
    (h : ∀ runId, holding t runId = holding s runId) : LosesNothing s t where
  runs c hc := by
    obtain ⟨c', hc', hid, href, -⟩ := holding_counterpart h hc
    exact ⟨c', hc', hid, href⟩
  ended c hc hactive c' hc' hid := by
    have hstored := h c.runId
    rw [holding_of_mem hc, ← hid, holding_of_mem hc', Option.some.injEq,
      Prod.mk.injEq] at hstored
    exact hstored.2.trans hactive
  agree := hs.of_holding htasks h

theorem restoreTask_idle {claims : List Claim} {now : String} {task : Task}
    {ts : TaskStore}
    (h : ¬ (task.status.running = true ∧ statusAt ts task.ref = some .todo)) :
    restoreTask claims now task ts = .ok ((), ts) := by
  unfold restoreTask
  rw [Txn.get_bind, if_neg h]
  rfl

theorem restoreBacklogStatuses_idle {s t : Project} (hs : StoresAgree s)
    (ht : StoresAgree t) (h : ∀ runId, holding t runId = holding s runId)
    (now : String) :
    restoreBacklogStatuses s.backlog s.claims now t.tasks = .ok ((), t.tasks) := by
  refine Txn.forM_idle fun task htask => restoreTask_idle ?_
  rintro ⟨hrunning, htodo⟩
  obtain ⟨row, hrow, rfl⟩ := mem_readProjectBacklog.mp htask
  have hheld : row.status = .claimed ∨ row.status = .inProgress := by
    have hstatus : row.status.running = true := hrunning
    cases hrs : row.status with
    | claimed => exact .inl rfl
    | inProgress => exact .inr rfl
    | _ =>
        rw [hrs] at hstatus
        cases hstatus
  obtain ⟨c, hc, hactive, href, -⟩ := hs.held row hrow hheld
  obtain ⟨c', hc', -, href', hactive'⟩ := holding_counterpart h hc
  obtain ⟨row', hrow', hstatus'⟩ := Option.map_eq_some_iff.mp htodo
  have hkey : row'.ref = row.ref := Table.key_of_find? hrow'
  have hfree := (ht.free row' (Table.mem_of_find? hrow') (.inl hstatus')).1 c' hc'
    (href'.trans (href.trans hkey.symm))
  rw [hactive'.trans hactive] at hfree
  cases hfree

/--
In every run whose calls after the snapshot are settled, the rollback loses nothing;
and if no run has been started either, the stores agree in full.
-/
theorem reuse_rollback_loses_nothing {sessionId now : String}
    {prepared : PreparedSessionReset} {actions : List Action} {w₀ : Workspace}
    {r : Except DomainError Unit}
    (hreach : (workSystem dates registry).ReachableUnder (Orderly dates registry) w₀)
    (hprepare : prepareSessionReuse sessionId w₀ = (.ok prepared, w))
    (hsettled : (workSystem dates registry).Along (Settled dates registry) w actions)
    (hrun : (workSystem dates registry).run w actions = some w₁)
    (hrestore : restoreVolatileRuntimeStateFromSnapshot dates prepared.snapshot now
      w₁ = (r, w₂)) :
    LosesNothing w₁.project w₂.project ∧
      ((∀ runId, (w₁.project.findClaim runId).map (fun c => (c.taskRef, c.state)) =
          (w.project.findClaim runId).map fun c => (c.taskRef, c.state)) →
        StoresAgree w₂.project) := by
  cases hprepare
  have hagree := workSystem_agree hreach
  have hagree₁ := workSystem_agree (reachable_of_run hreach hsettled hrun)
  have hactive₁ := activeAgree_of_stores hagree₁
  have hheld := holding_of_run hsettled hrun
  have hidle := restoreBacklogStatuses_idle hagree hagree₁ hheld now
  have hkept : w₂.project = w₁.project → LosesNothing w₁.project w₂.project ∧
      StoresAgree w₂.project := by
    intro hsame
    rw [hsame]
    exact ⟨.of_holding hactive₁ rfl fun _ => rfl, hagree₁⟩
  rcases restore_cases hrestore with
    ⟨-, hsame⟩ | ⟨ts, hts, ⟨-, hsame⟩ | ⟨db, hdb, hresume⟩⟩
  · exact ⟨(hkept hsame).1, fun _ => (hkept hsame).2⟩
  · cases hidle.symm.trans hts
    exact ⟨(hkept hsame).1, fun _ => (hkept hsame).2⟩
  · cases hidle.symm.trans hts
    have hnodup : (w.project.claims.map Claim.runId).Nodup :=
      w.project.events.runs.nodup
    obtain ⟨hmem, -, -⟩ := commitClaims_ok hnodup hdb
    have hproject := resumeAgents_project hresume
    have htasks : w₂.project.tasks = w₁.project.tasks := by
      rw [hproject]
      rfl
    have hfind : ∀ runId, w₂.project.findClaim runId = w.project.findClaim runId := by
      intro runId
      rw [hproject]
      exact Table.find?_of_members hmem runId
    have hheld₂ : ∀ runId, holding w₂.project runId = holding w₁.project runId := by
      intro runId
      rw [hheld, holding, hfind]
      rfl
    have hlost := LosesNothing.of_holding hactive₁ htasks hheld₂
    refine ⟨hlost, fun hstates =>
      storesAgree_of_states hagree₁ hlost.agree htasks fun runId => ?_⟩
    rw [hfind, hstates]

/-! ## A claim that is lost, and a renewal that is not -/

def idleWork : Workspace where
  project := oneTask

theorem idleWork_reachable (dates : DateApi) (registry : Registry) :
    (workSystem dates registry).ReachableUnder (Orderly dates registry) idleWork :=
  .initial fresh_oneTask

def claimIntro : Action :=
  .claimTask "docs/intro" "worker" 3 "run-1" (.ok ()) 1

def runsAround (snapshot : SessionStateSnapshot) (w : Workspace) :
    List RunId × List RunId :=
  (w.project.claims.map Claim.runId,
    (restoreVolatileRuntimeStateFromSnapshot .epoch snapshot
      (DateApi.epoch.toISOString 4) w).2.project.claims.map Claim.runId)

/-- A task claimed after the snapshot loses its run, and stays claimed by it. -/
theorem not_reuse_rollback_loses_nothing : ¬ ∀ (w₀ w w₁ w₂ : Workspace)
    (prepared : PreparedSessionReset) (actions : List Action)
    (r : Except DomainError Unit),
    (workSystem .epoch soloRegistry).ReachableUnder (Orderly .epoch soloRegistry) w₀ →
    prepareSessionReuse "session-1" w₀ = (.ok prepared, w) →
    (workSystem .epoch soloRegistry).Along (Orderly .epoch soloRegistry) w actions →
    (workSystem .epoch soloRegistry).run w actions = some w₁ →
    restoreVolatileRuntimeStateFromSnapshot .epoch prepared.snapshot
      (DateApi.epoch.toISOString 4) w₁ = (r, w₂) →
    LosesNothing w₁.project w₂.project := by
  intro hall
  obtain ⟨w₁, hrun, hruns⟩ := (workSystem .epoch soloRegistry).exists_run_of_map
    (by decide +kernel : ((workSystem .epoch soloRegistry).run idleWork
      [claimIntro]).map (runsAround idleWork.snapshot) = some (["run-1"], []))
  unfold runsAround at hruns
  generalize hrestore : restoreVolatileRuntimeStateFromSnapshot .epoch
    idleWork.snapshot (DateApi.epoch.toISOString 4) w₁ = after at hruns
  obtain ⟨r, w₂⟩ := after
  rw [Prod.mk.injEq] at hruns
  have hsafe := hall idleWork idleWork w₁ w₂ _ [claimIntro] r
    (idleWork_reachable .epoch soloRegistry) rfl (by decide +kernel) hrun hrestore
  have hmem : "run-1" ∈ w₁.project.claims.map Claim.runId := by
    rw [hruns.1]
    exact List.mem_cons_self
  obtain ⟨c, hc, -⟩ := List.mem_map.mp hmem
  obtain ⟨c', hc', -, -⟩ := hsafe.runs c hc
  have hnone : c'.runId ∈ w₂.project.claims.map Claim.runId :=
    List.mem_map_of_mem hc'
  rw [hruns.2] at hnone
  cases hnone

theorem holding_of_rows {s t : Project}
    (h : t.claims.map (fun c => (c.runId, c.taskRef, c.active)) =
      s.claims.map fun c => (c.runId, c.taskRef, c.active)) (runId : RunId) :
    holding t runId = holding s runId := by
  have hread : ∀ p : Project, holding p runId =
      ((p.claims.map fun c => (c.runId, c.taskRef, c.active)).find?
        fun row => row.1 = runId).map Prod.snd := by
    intro p
    rw [List.find?_map, Option.map_map]
    rfl
  rw [hread, hread, h]

def renewIntro : Action := .renewLeaseOnly "run-1" 5 2

/-- A renewal in between: the rollback takes back the lease and loses no run. -/
theorem reuse_rollback_loses_nothing_renewed :
    ∃ w₀ w w₁ w₂ prepared r,
      (workSystem .epoch soloRegistry).run idleWork [claimIntro] = some w₀ ∧
      prepareSessionReuse "session-1" w₀ = (.ok prepared, w) ∧
      (workSystem .epoch soloRegistry).run w [renewIntro] = some w₁ ∧
      restoreVolatileRuntimeStateFromSnapshot .epoch prepared.snapshot
        (DateApi.epoch.toISOString 4) w₁ = (r, w₂) ∧
      w₁.project.claims.map Claim.active = [true] ∧
      LosesNothing w₁.project w₂.project ∧
        ((∀ runId, (w₁.project.findClaim runId).map (fun c => (c.taskRef, c.state)) =
            (w.project.findClaim runId).map fun c => (c.taskRef, c.state)) →
          StoresAgree w₂.project) := by
  obtain ⟨w₀, hrun₀, hw₀⟩ := (workSystem .epoch soloRegistry).exists_run_of_map
    (f := fun w => (decide (Orderly .epoch soloRegistry w renewIntro),
      decide (((perform .epoch soloRegistry renewIntro w.project).2.claims.map
        fun c => (c.runId, c.taskRef, c.active)) =
          w.project.claims.map fun c => (c.runId, c.taskRef, c.active)),
      (perform .epoch soloRegistry renewIntro w.project).2.claims.map Claim.active))
    (by decide +kernel : ((workSystem .epoch soloRegistry).run idleWork
      [claimIntro]).map _ = some (true, true, [true]))
  simp only [Prod.mk.injEq, decide_eq_true_eq] at hw₀
  obtain ⟨horderly, hrows, hactive⟩ := hw₀
  have hreach : (workSystem .epoch soloRegistry).ReachableUnder
      (Orderly .epoch soloRegistry) w₀ :=
    (idleWork_reachable .epoch soloRegistry).run (by decide +kernel) hrun₀
  have hsettled : (workSystem .epoch soloRegistry).Along
      (Settled .epoch soloRegistry) w₀ [renewIntro] :=
    ⟨⟨horderly, holding_of_rows hrows⟩, trivial⟩
  exact ⟨w₀, w₀, _, _, _, _, hrun₀, rfl, rfl, rfl, hactive,
    reuse_rollback_loses_nothing hreach rfl hsettled rfl rfl⟩

end OrcState.Supervision
