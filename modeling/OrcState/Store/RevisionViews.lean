import OrcState.Store.RevisionSafety

/-!
# The tables and the store over them

The store that the lifecycle is stated over is a view of the tables: a lifecycle
operation on the tables is that operation on the view, and authoring adds a task
or changes its definition, never a status.  So what the operations of the store
keep of a task's history holds of the tables that authors and workers share.
-/

namespace OrcState.Store

open OrcState.Contract OrcState.Foundation

variable {s s' : SpecStore} {now : String} {u : Unit}

/-! ## Lifecycle operations -/

theorem content_ref (task : ProjectTask) :
    (ProjectTask.content task).ref = task.ref := rfl

theorem refs_of_contents {ts ts' : TaskStore} (h : ts'.contents = ts.contents) :
    ts'.tasks.rows.map ProjectTask.ref = ts.tasks.rows.map ProjectTask.ref := by
  have hrefs : ∀ ts : TaskStore, ts.contents.map ProjectTask.ref =
      ts.tasks.rows.map ProjectTask.ref := by
    intro ts
    rw [TaskStore.contents, List.map_map]
    rfl
  rw [← hrefs, ← hrefs, h]

theorem join_settle {ts : TaskStore} (h : ts.contents = s.view.contents)
    {row : TaskRow} (hrow : row ∈ s.rows) :
    (s.withRuntime ts).join (SpecStore.settle ts row) =
      (s.join row).bind fun task => ts.getTask task.ref := by
  have hsame : (s.withRuntime ts).join (SpecStore.settle ts row) =
      (s.latestRevision row.ref).map fun latest => SpecStore.joined
        (SpecStore.settle ts row) latest (s.dependenciesOf row.ref) := by
    rw [← SpecStore.settle_ref ts row]
    rfl
  rw [hsame, SpecStore.join]
  cases hlatest : s.latestRevision row.ref with
  | none => rfl
  | some latest =>
      let old := SpecStore.joined row latest (s.dependenciesOf row.ref)
      have hold : old ∈ s.view.tasks.rows :=
        List.mem_filterMap.mpr ⟨row, hrow, by rw [SpecStore.join, hlatest]; rfl⟩
      have hmem : ProjectTask.content old ∈ ts.contents :=
        h ▸ List.mem_map_of_mem hold
      obtain ⟨task, htask, hcontent⟩ := List.mem_map.mp hmem
      have href : task.ref = row.ref := by
        rw [← content_ref, hcontent]
        rfl
      have hget : ts.getTask row.ref = some task :=
        href ▸ Table.find?_of_mem htask
      change some (SpecStore.joined (SpecStore.settle ts row) latest _) =
        ts.getTask row.ref
      rw [hget, SpecStore.settle, hget]
      simp only [ProjectTask.content, ProjectTask.mk.injEq, old,
        SpecStore.joined] at hcontent
      obtain ⟨-, -, -, -, hrevision, hcreated, -, -, hfeature, htype, hdef⟩ :=
        hcontent
      simp only [SpecStore.joined, SpecStore.runtimeOf]
      rw [← hdef, ← hrevision, ← hcreated, ← hfeature, ← htype, ← href]

theorem view_withRuntime {ts : TaskStore} (h : ts.contents = s.view.contents) :
    (s.withRuntime ts).view = ts := by
  have hrows : (s.withRuntime ts).view.tasks.rows = ts.tasks.rows := by
    change (s.rows.rows.map (SpecStore.settle ts)).filterMap
      (s.withRuntime ts).join = _
    have hjoin : s.rows.rows.filterMap
        ((s.withRuntime ts).join ∘ SpecStore.settle ts) =
        s.view.tasks.rows.filterMap fun task => ts.getTask task.ref := by
      change _ = (s.rows.rows.filterMap s.join).filterMap _
      rw [List.filterMap_filterMap]
      exact List.filterMap_congr fun row hrow => join_settle h hrow
    have hself : ts.tasks.rows.filterMap (fun task => ts.getTask task.ref) =
        ts.tasks.rows := by
      refine (List.filterMap_congr fun task htask => ?_).trans
        (List.filterMap_some)
      exact Table.find?_of_mem htask
    have hrefs : ∀ l : List ProjectTask,
        l.filterMap (fun task => ts.getTask task.ref) =
          (l.map ProjectTask.ref).filterMap ts.getTask := by
      intro l
      rw [List.filterMap_map]
      rfl
    rw [List.filterMap_map, hjoin, hrefs, ← refs_of_contents h, ← hrefs, hself]
  have htasks : (s.withRuntime ts).view.tasks = ts.tasks := Table.ext hrows
  cases ts
  simp only [SpecStore.view, SpecStore.withRuntime, TaskStore.mk.injEq] at htasks ⊢
  exact ⟨htasks, trivial, trivial⟩

/-- A lifecycle operation on the tables is the operation on their view. -/
theorem lifecycle_view {op : StoreOp} (hop : op.lifecycle = true)
    (h : (SpecOp.lifecycle op).perform now s = .ok (u, s')) :
    op.perform now s.view = .ok (u, s'.view) := by
  obtain ⟨ts, hperform, rfl⟩ := onRuntime_ok h
  have hmoves : StoreMoves false s.view ts :=
    StoreOp.perform_moves op (fun hno => by rw [hop] at hno; cases hno) hperform
  rw [view_withRuntime hmoves.contents]
  exact hperform

theorem claimTask_view {ref : TaskRef} {runId : RunId} {agentId : AgentId}
    {pinned : ProjectTask}
    (h : SpecStore.claimTask ref runId agentId now s = .ok (pinned, s')) :
    TaskStore.claimTask ref runId agentId now s.view = .ok (pinned, s'.view) := by
  obtain ⟨ts, hclaim, rfl⟩ := onRuntime_ok h
  have hmoves : StoreMoves false s.view ts := claimTask_moves hclaim
  rw [view_withRuntime hmoves.contents]
  exact hclaim

/-! ## Authoring -/

theorem getTask_view_eq (s : SpecStore) (ref : TaskRef) :
    s.view.getTask ref = (s.rows.find? ref).bind s.join := by
  cases hfind : s.rows.find? ref with
  | none =>
      refine Table.find?_eq_none.mpr fun task htask => ?_
      obtain ⟨row, hrow, hjoin⟩ := List.mem_filterMap.mp htask
      rw [SpecStore.join_ref hjoin]
      exact Table.find?_eq_none.mp hfind row hrow
  | some row =>
      obtain ⟨hrow, rfl⟩ := Table.find?_eq_some.mp hfind
      change _ = s.join row
      cases hjoin : s.join row with
      | none =>
          refine Table.find?_eq_none.mpr fun task htask href => ?_
          obtain ⟨other, hother, hjoined⟩ := List.mem_filterMap.mp htask
          rw [SpecStore.join_ref hjoined] at href
          rw [Table.eq_of_key hother hrow href, hjoin] at hjoined
          cases hjoined
      | some task =>
          exact Table.find?_eq_some.mpr
            ⟨List.mem_filterMap.mpr ⟨row, hrow, hjoin⟩, SpecStore.join_ref hjoin⟩

theorem join_authored_of_ne {rows : Table TaskRef TaskRow TaskRow.ref}
    {ref : TaskRef} {revision : Nat} {spec : TaskSpec} {row : TaskRow}
    (hne : row.ref ≠ ref) :
    (authored s rows ref revision spec now).join row = s.join row := by
  rw [SpecStore.join, SpecStore.join, dependenciesOf_authored, if_neg hne]
  unfold SpecStore.latestRevision
  rw [revisionsOf_authored, if_neg (Ne.symm hne)]

theorem Historied.authored (h : Historied s.view) {ref : TaskRef}
    {revision : Nat} {spec : TaskSpec} {row : TaskRow}
    {rows : Table TaskRef TaskRow TaskRow.ref}
    (hs : Consistent (Store.authored s rows ref revision spec now))
    (hrows : ∀ r, rows.find? r = if r = ref then some row else s.rows.find? r)
    (hrow : s.view.getTask ref = none ∧ row.runtime.status = .todo ∧
        row.runtime.blockedReason = none ∨
      ∃ old, s.view.getTask ref = some old ∧ old.status = row.runtime.status ∧
        old.blockedReason = row.runtime.blockedReason) :
    Historied (Store.authored s rows ref revision spec now).view := by
  have href : row.ref = ref := by
    have hself := hrows ref
    rw [if_pos rfl] at hself
    exact Table.key_of_find? hself
  have hget : ∀ r, (Store.authored s rows ref revision spec now).view.getTask r =
      if r = ref then some (SpecStore.joined row
        (SpecStore.pinned ref revision spec now)
        ((Store.authored s rows ref revision spec now).dependenciesOf ref))
      else s.view.getTask r := by
    intro r
    have hfind : (Store.authored s rows ref revision spec now).rows.find? r = _ :=
      hrows r
    rw [getTask_view_eq, hfind]
    split
    · change SpecStore.join _ row = _
      rw [SpecStore.join, href, latestRevision_authored hs]
      rfl
    · rename_i hne
      rw [getTask_view_eq]
      cases hold : s.rows.find? r with
      | none => rfl
      | some old =>
          have hkey : old.ref ≠ ref := by
            rw [Table.key_of_find? hold]
            exact hne
          exact join_authored_of_ne hkey
  rcases hrow with ⟨hfresh, hstatus, hreason⟩ | ⟨old, hold, hstatus, hreason⟩
  · generalize htask : SpecStore.joined row _ _ = task at hget
    have hkey : task.ref = ref := by
      rw [← htask]
      exact href
    have hadded : ∀ r, (Store.authored s rows ref revision spec
        now).view.getTask r =
          if r = task.ref then some task else s.view.getTask r := by
      rw [hkey]
      exact hget
    rw [← hkey] at hfresh
    exact h.created hfresh (htask ▸ hstatus) (htask ▸ hreason) hadded rfl
  · refine h.sameStatus (fun r => ?_) (fun r task htask => ?_) rfl
    · rw [hget]
      split
      · rename_i hr
        rw [hr, hold]
        rfl
      · rfl
    · rw [hget] at htask
      split at htask
      · rename_i hr
        cases htask
        exact ⟨old, hr ▸ hold, hstatus.symm, hreason.symm⟩
      · exact ⟨task, htask, rfl, rfl⟩

theorem Historied.written (h : Historied s.view) (hs : Consistent s)
    {op : SpecOp} (hop : op.enabled = true)
    (hok : op.perform now s = .ok (u, s')) : Historied s'.view := by
  cases op with
  | createTask input =>
      obtain ⟨spec, rows, -, -, hfresh, hnodup, hrows, rfl⟩ :=
        createTask_authored hok
      have hfind := Table.find?_insertOrdered? hrows
      refine h.authored (hs.authored hfind ⟨rfl, rfl, rfl, rfl⟩
        (by rw [hs.fresh hfresh]; rfl) hnodup) hfind (.inl ⟨?_, rfl, rfl⟩)
      rw [getTask_view_eq, hfresh]
      rfl
  | reviseTask ref e changes =>
      obtain ⟨changed, hok⟩ := Txn.discard_ok.mp hok
      obtain ⟨current, spec, hcurrent, -, ⟨-, -, rfl⟩ |
        ⟨-, -, -, hnodup, rfl⟩⟩ := reviseTask_authored hok
      · exact h
      · have hrow := (getTask_eq_some.mp hcurrent).1
        obtain ⟨-, hlatest, -⟩ := getTask_eq_some.mp hcurrent
        have href : current.row.ref = ref := Table.key_of_find? hrow
        refine h.authored (hs.revisedState hcurrent hnodup)
          (find?_revised spec now hcurrent) (.inr ?_)
        refine ⟨SpecStore.joined current.row current.latest
          (s.dependenciesOf current.row.ref), ?_, rfl, rfl⟩
        rw [getTask_view_eq, hrow]
        change s.join current.row = _
        rw [SpecStore.join, href, hlatest]
        rfl
  | claimTask ref runId agentId =>
      obtain ⟨pinned, hok⟩ := Txn.discard_ok.mp hok
      exact h.moves (claimTask_moves (claimTask_view hok) :
        StoreMoves true s.view s'.view)
  | lifecycle op =>
      exact h.moves (StoreOp.perform_moves op (fun _ => rfl)
        (lifecycle_view hop hok) : StoreMoves true s.view s'.view)

/-- Whatever authors and workers do, each task's status ends its history. -/
theorem tables_historied (h : specSystem.Reachable s) : Historied s.view := by
  refine System.ReachableUnder.invariant (I := fun s => Historied s.view) ?_ ?_ h
  · rintro _ rfl
    exact Historied.empty
  · intro s op s' hreach hs _ hstep
    simp only [specSystem] at hstep
    split at hstep
    · rename_i hop
      cases hstep
      rcases Txn.commit_cases (op.2.perform op.1) s with ⟨_, hok⟩ | hsame
      · exact hs.written (Consistent.reachable hreach) hop hok
      · rw [hsame]
        exact hs
    · cases hstep

end OrcState.Store
