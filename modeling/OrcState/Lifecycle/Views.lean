import OrcState.Lifecycle.Project
import OrcState.Store.TaskRows

/-!
# What one task sees of the two stores

The view of a task is its status, its active claims and its active bindings.  A
phase is a view that the lifecycle means: no run, a run that holds the task, or
a run whose merge is recorded and whose finish is outstanding.  A project is
coherent when every task is in a phase.
-/

namespace OrcState.Lifecycle

open OrcState.Contract OrcState.Foundation OrcState.Store

/-! ## Views -/

@[ext] structure View where
  status : Option TaskStatus
  claims : Set (RunId × ClaimState)
  runs : Set RunId

def activeAt (runs : Runs) (ref : TaskRef) : Set (RunId × ClaimState) :=
  {q | ∃ c, c ∈ runs ∧ c.active = true ∧ c.taskRef = ref ∧
    (c.runId, c.state) = q}

def statusAt (ts : TaskStore) (ref : TaskRef) : Option TaskStatus :=
  (ts.getTask ref).map ProjectTask.status

def Project.view (s : Project) (ref : TaskRef) : View where
  status := statusAt s.tasks ref
  claims := activeAt s.events.runs ref
  runs := s.tasks.runsAt ref

/-! ## Phases -/

inductive Phase where
  | absent
  | idle (status : TaskStatus) (h : status.running = false)
  | bound (run : RunId) (started : Bool)
  | merged (run : RunId) (started : Bool) (status : TaskStatus)
      (h : status.merged = true)

def claimStateOf (started : Bool) : ClaimState :=
  if started then .inProgress else .claimed

def statusOf (started : Bool) : TaskStatus :=
  if started then .inProgress else .claimed

def Phase.view : Phase → View
  | .absent => ⟨none, ∅, ∅⟩
  | .idle status _ => ⟨some status, ∅, ∅⟩
  | .bound run started =>
      ⟨some (statusOf started), {(run, claimStateOf started)}, {run}⟩
  | .merged run started status _ =>
      ⟨some status, {(run, claimStateOf started)}, ∅⟩

structure Coherent (s : Project) : Prop where
  phase : ∀ ref, ∃ p : Phase, s.view ref = p.view

theorem Phase.idle_of {v : View} {status : TaskStatus}
    (hstatus : v.status = some status) (h : status.running = false)
    (hclaims : v.claims = ∅) (hruns : v.runs = ∅) :
    ∃ p : Phase, v = p.view :=
  ⟨.idle status h, View.ext hstatus hclaims hruns⟩

theorem Coherent.of_claim {s : Project} (hs : Coherent s) {c : Claim}
    (hc : c ∈ s.events.runs) (hactive : c.active = true) :
    ∃ started, claimStateOf started = c.state ∧
      (s.view c.taskRef = (Phase.bound c.runId started).view ∨
        ∃ status h, s.view c.taskRef =
          (Phase.merged c.runId started status h).view) := by
  obtain ⟨p, hp⟩ := hs.phase c.taskRef
  have hmem : (c.runId, c.state) ∈ (s.view c.taskRef).claims :=
    ⟨c, hc, hactive, rfl, rfl⟩
  rw [hp] at hmem
  cases p with
  | absent => exact absurd hmem (Set.notMem_empty _)
  | idle status h => exact absurd hmem (Set.notMem_empty _)
  | bound run started =>
      obtain ⟨rfl, hstate⟩ := Prod.mk.inj (Set.mem_singleton_iff.mp hmem)
      exact ⟨started, hstate.symm, .inl hp⟩
  | merged run started status h =>
      obtain ⟨rfl, hstate⟩ := Prod.mk.inj (Set.mem_singleton_iff.mp hmem)
      exact ⟨started, hstate.symm, .inr ⟨status, h, hp⟩⟩

theorem Coherent.of_running {s : Project} (hs : Coherent s) {ref : TaskRef}
    {status : TaskStatus} (h : statusAt s.tasks ref = some status)
    (hrunning : status.running = true) :
    ∃ run started, status = statusOf started ∧
      s.view ref = (Phase.bound run started).view := by
  obtain ⟨p, hp⟩ := hs.phase ref
  have hstatus : (s.view ref).status = some status := h
  rw [hp] at hstatus
  cases p with
  | absent => cases hstatus
  | idle st hidle =>
      cases hstatus
      rw [hidle] at hrunning
      cases hrunning
  | bound run started =>
      cases hstatus
      exact ⟨run, started, rfl, hp⟩
  | merged run started st hmerged =>
      cases hstatus
      rw [TaskStatus.not_running_of_merged hmerged] at hrunning
      cases hrunning

/-! ## Claims after a commit -/

theorem map_runId_mutateClaims {claims : List Claim} {p : Claim → Bool}
    {f : Claim → Claim} (hf : ∀ c, (f c).runId = c.runId) :
    (mutateClaims claims p f).map Claim.runId = claims.map Claim.runId := by
  rw [mutateClaims, List.map_map]
  refine List.map_congr_left fun c _ => ?_
  simp only [Function.comp]
  split
  · exact hf c
  · rfl

structure Mutated (p : Claim → Bool) (f : Claim → Claim)
    (runs runs' : Runs) : Prop where
  mem : ∀ c, c ∈ runs' ↔
    ∃ c₀, c₀ ∈ runs ∧ (if p c₀ then f c₀ else c₀) = c
  one : OneActive runs → OneActive runs'

theorem commitMutated_claims {dates : DateApi} {s : Project}
    {p : Claim → Bool} {f : Claim → Claim} {events : List OrcEvent}
    {db : EventsDb} {u : Unit}
    (h : commitClaims dates (mutateClaims s.claims p f) events s.events =
      .ok (u, db)) (hf : ∀ c, (f c).runId = c.runId) : Mutated p f s.events.runs db.runs := by
  have hnodup : ((mutateClaims s.claims p f).map Claim.runId).Nodup := by
    rw [map_runId_mutateClaims hf]
    exact s.events.runs.nodup
  obtain ⟨hmem, -, hone⟩ := commitClaims_ok hnodup h
  refine ⟨fun c => ?_, hone⟩
  rw [hmem c]
  simp [mutateClaims, Project.claims, Table.mem_rows]

theorem commitMutated_total {dates : DateApi} {s : Project}
    (hone : OneActive s.events.runs) {p : Claim → Bool} {f : Claim → Claim}
    {events : List OrcEvent}
    (hid : ∀ c, (f c).runId = c.runId ∧ (f c).taskRef = c.taskRef)
    (hactive : ∀ c, c ∈ s.events.runs → p c = true → (f c).active = true →
      c.active = true)
    (hevents : ∀ e ∈ events, ValidEvent dates e) :
    ∃ db, commitClaims dates (mutateClaims s.claims p f) events s.events =
      .ok ((), db) := by
  refine commitClaims_total hone (f := fun c => if p c then f c else c)
    (fun _ hc => hc) (fun c => ?_) (fun c => ?_) (fun c hc ha => ?_) hevents
  · split
    · exact (hid c).1
    · rfl
  · split
    · exact (hid c).2
    · rfl
  · split at ha
    · rename_i hp
      exact hactive c hc hp ha
    · exact ha

section Mutated

variable {runs runs' : Runs} {p : Claim → Bool} {f : Claim → Claim}
  {ref : TaskRef}

theorem Mutated.source (h : Mutated p f runs runs') {c : Claim}
    (hc : c ∈ runs') :
    ∃ c₀, c₀ ∈ runs ∧ ((p c₀ = true ∧ f c₀ = c) ∨ (p c₀ = false ∧ c₀ = c)) := by
  obtain ⟨c₀, hc₀, rfl⟩ := (h.mem c).mp hc
  refine ⟨c₀, hc₀, ?_⟩
  cases hp : p c₀ with
  | true => exact .inl ⟨rfl, rfl⟩
  | false => exact .inr ⟨rfl, rfl⟩

theorem Mutated.activeAt_kept (h : Mutated p f runs runs')
    (hid : ∀ c, (f c).runId = c.runId) (href : ∀ c, (f c).taskRef = c.taskRef)
    (hstate : ∀ c, p c = true → (f c).state = c.state) :
    activeAt runs' ref = activeAt runs ref := by
  have hsame : ∀ c, (if p c then f c else c).runId = c.runId ∧
      (if p c then f c else c).taskRef = c.taskRef ∧
      (if p c then f c else c).state = c.state := by
    intro c
    split
    · rename_i hp
      exact ⟨hid c, href c, hstate c hp⟩
    · exact ⟨rfl, rfl, rfl⟩
  ext q
  simp only [activeAt, Set.mem_ofPred_eq, h.mem, Claim.active]
  constructor
  · rintro ⟨_, ⟨c, hc, rfl⟩, hactive, hr, hq⟩
    obtain ⟨h1, h2, h3⟩ := hsame c
    rw [h3] at hactive
    rw [h2] at hr
    rw [h1, h3] at hq
    exact ⟨c, hc, hactive, hr, hq⟩
  · rintro ⟨c, hc, hactive, hr, hq⟩
    obtain ⟨h1, h2, h3⟩ := hsame c
    exact ⟨_, ⟨c, hc, rfl⟩, by rwa [h3], by rwa [h2], by rwa [h1, h3]⟩

theorem Mutated.activeAt_untouched (h : Mutated p f runs runs')
    (hnew : ∀ c, c ∈ runs → p c = true → (f c).active = true →
      (f c).taskRef ≠ ref)
    (hold : ∀ c, c ∈ runs → c.active = true → c.taskRef = ref →
      p c = false) :
    activeAt runs' ref = activeAt runs ref := by
  ext q
  simp only [activeAt, Set.mem_ofPred_eq]
  constructor
  · rintro ⟨c, hc, hactive, hr, hq⟩
    obtain ⟨c₀, hc₀, ⟨hp, rfl⟩ | ⟨-, rfl⟩⟩ := h.source hc
    · exact absurd hr (hnew c₀ hc₀ hp hactive)
    · exact ⟨c₀, hc₀, hactive, hr, hq⟩
  · rintro ⟨c, hc, hactive, hr, hq⟩
    have hp := hold c hc hactive hr
    exact ⟨c, (h.mem c).mpr ⟨c, hc, by simp [hp]⟩, hactive, hr, hq⟩

end Mutated

theorem Mutated.activeAt_other {runs runs' : Runs} {f : Claim → Claim}
    {claim : Claim} {ref : TaskRef}
    (h : Mutated (fun c => c.runId = claim.runId) f runs runs')
    (hclaim : claim ∈ runs) (href : ∀ c, (f c).taskRef = c.taskRef)
    (hne : ref ≠ claim.taskRef) : activeAt runs' ref = activeAt runs ref := by
  have hself : ∀ c, c ∈ runs → decide (c.runId = claim.runId) = true →
      c = claim := by
    intro c hc hp
    exact Table.eq_of_key hc hclaim (of_decide_eq_true hp)
  refine h.activeAt_untouched (fun c hc hp _ => ?_) fun c hc _ hr => ?_
  · rw [href, hself c hc hp]
    exact hne.symm
  · refine decide_eq_false fun hid => hne ?_
    rw [← hr, hself c hc (decide_eq_true hid)]

theorem Mutated.activeAt_moved {runs runs' : Runs} {f : Claim → Claim}
    {claim : Claim}
    (h : Mutated (fun c => c.runId = claim.runId) f runs runs')
    (hclaim : claim ∈ runs) (hid : (f claim).runId = claim.runId)
    (href : (f claim).taskRef = claim.taskRef)
    (hactive : (f claim).active = true)
    (hone : activeAt runs claim.taskRef = {(claim.runId, claim.state)}) :
    activeAt runs' claim.taskRef = {(claim.runId, (f claim).state)} := by
  ext q
  rw [Set.mem_singleton_iff]
  constructor
  · rintro ⟨c, hc, ha, hr, rfl⟩
    obtain ⟨c₀, hc₀, ⟨hp, rfl⟩ | ⟨hp, rfl⟩⟩ := h.source hc
    · rw [Table.eq_of_key hc₀ hclaim (of_decide_eq_true hp), hid]
    · have hmem : (c₀.runId, c₀.state) ∈ activeAt runs claim.taskRef :=
        ⟨c₀, hc₀, ha, hr, rfl⟩
      rw [hone] at hmem
      exact absurd (Prod.mk.inj (Set.mem_singleton_iff.mp hmem)).1
        (of_decide_eq_false hp)
  · rintro rfl
    exact ⟨f claim, (h.mem _).mpr ⟨claim, hclaim, by simp⟩, hactive, href,
      by rw [hid]⟩

/-! ## Tasks after a commit -/

theorem view_of_commit {changes : TaskStatusChanges} {entry : Task}
    {ts ts' : TaskStore} {current row : ProjectTask}
    (hat : CommitAt changes entry ts ts' current row) :
    statusAt ts' entry.ref = some entry.status ∧
      ((entry.status = current.status ∧
          ts'.runsAt entry.ref = ts.runsAt entry.ref) ∨
        entry.status ≠ current.status ∧
        ∃ change, changes.lookup entry.ref = some change ∧
          TaskTransitionCause.allows change.cause current.status
            entry.status = true ∧
          ts'.runsAt entry.ref =
            if TaskTransitionCause.closes change.cause current.status = true
            then ∅ else ts.runsAt entry.ref) := by
  refine ⟨?_, ?_⟩
  · rw [statusAt, hat.after, Option.map_some, hat.status]
  · rcases hat.runs with h | ⟨hne, change, hchange, hallows, -, hruns⟩
    · exact .inl h
    · exact .inr ⟨hne, change, hchange, hallows, hruns⟩

structure Committed (changes : TaskStatusChanges) (ref : TaskRef)
    (f : Task → Task) (ts ts' : TaskStore) : Prop where
  other : ∀ r, r ≠ ref →
    statusAt ts' r = statusAt ts r ∧ ts'.runsAt r = ts.runsAt r
  bound : ∀ id, ts'.Bound id ↔ ts.Bound id
  wellFormed : ts.WellFormed → ts'.WellFormed
  here : ∀ task, findTask (readProjectBacklog ts) ref = some task →
    statusAt ts' ref = some (f task).status ∧
      (((f task).status = task.status ∧ ts'.runsAt ref = ts.runsAt ref) ∨
        (f task).status ≠ task.status ∧
        ∃ change, changes.lookup ref = some change ∧
          TaskTransitionCause.allows change.cause task.status
            (f task).status = true ∧
          ts'.runsAt ref =
            if TaskTransitionCause.closes change.cause task.status = true
            then ∅ else ts.runsAt ref)

theorem commitMutated_tasks {changes : TaskStatusChanges} {ref : TaskRef}
    {f : Task → Task} {now : String} {ts ts' : TaskStore} {u : Unit}
    (hord : ∀ p ∈ changes, TaskStatusChange.Ordinary p.2)
    (hf : ∀ task, task.ref = ref → (f task).ref = ref)
    (h : commitBacklog (mutateTask (readProjectBacklog ts) ref f) changes now
      ts = .ok (u, ts')) : Committed changes ref f ts ts' := by
  have hrefs : (mutateTask (readProjectBacklog ts) ref f).map Task.ref =
      (readProjectBacklog ts).map Task.ref := refs_mutateTask hf
  have hnodup := nodup_readProjectBacklog ts
  rw [← hrefs] at hnodup
  refine ⟨fun r hr => ?_, (commitBacklog_ok hord hnodup h).2.2,
    commitBacklog_wellFormed hord h, fun task htask => ?_⟩
  · rcases commitBacklog_at hord hrefs h r with
      ⟨hget, hget', hruns⟩ | ⟨entry, current, row, hfind, rfl, hat⟩
    · exact ⟨by rw [statusAt, statusAt, hget, hget'], hruns⟩
    · rw [findTask_mutateTask hf, if_neg hr, findTask_readProjectBacklog,
        hat.before] at hfind
      cases hfind
      obtain ⟨hstatus, ⟨-, hruns⟩ | ⟨hne, -⟩⟩ := view_of_commit hat
      · refine ⟨hstatus.trans ?_, hruns⟩
        rw [statusAt, hat.before]
        rfl
      · exact absurd rfl hne
  · rcases commitBacklog_at hord hrefs h ref with
      ⟨hget, -, -⟩ | ⟨entry, current, row, hfind, href, hat⟩
    · rw [findTask_readProjectBacklog, hget] at htask
      cases htask
    · rw [findTask_mutateTask hf, if_pos rfl, htask] at hfind
      cases hfind
      have hbefore := hat.before
      rw [href] at hbefore
      rw [findTask_readProjectBacklog, hbefore] at htask
      cases htask
      have hview := view_of_commit hat
      rwa [href] at hview

/-! ## Both commits -/

inductive BothOutcome (p : Claim → Bool) (f : Claim → Claim)
    (changes : TaskStatusChanges) (ref : TaskRef) (g : Task → Task)
    (s : Project) : Except DomainError Unit → Project → Prop
  | refused (e : DomainError) : BothOutcome p f changes ref g s (.error e) s
  | torn (e : DomainError) (t : Project)
      (claims : Mutated p f s.events.runs t.events.runs)
      (tasks : t.tasks = s.tasks) : BothOutcome p f changes ref g s (.error e) t
  | done (t : Project) (claims : Mutated p f s.events.runs t.events.runs)
      (tasks : Committed changes ref g s.tasks t.tasks) :
      BothOutcome p f changes ref g s (.ok ()) t

theorem commitBoth_outcome {dates : DateApi} {s t : Project}
    {p : Claim → Bool} {f : Claim → Claim} {events : List OrcEvent}
    {ref : TaskRef} {g : Task → Task} {changes : TaskStatusChanges}
    {now : String} {r : Except DomainError Unit}
    (h : commitBoth dates (mutateClaims s.claims p f) events
      (mutateTask s.backlog ref g) changes now s = (r, t))
    (hid : ∀ c, (f c).runId = c.runId)
    (hord : ∀ p ∈ changes, TaskStatusChange.Ordinary p.2)
    (hg : ∀ task, task.ref = ref → (g task).ref = ref) :
    BothOutcome p f changes ref g s r t := by
  rcases commitBoth_cases h with ⟨e, rfl, rfl⟩ | ⟨db, hdb, hrest⟩
  · exact .refused e
  have hclaims := commitMutated_claims hdb hid
  rcases hrest with ⟨e, rfl, -, rfl⟩ | ⟨ts, hts, rfl, rfl⟩
  · exact .torn e _ hclaims rfl
  · exact .done _ hclaims (commitMutated_tasks hord hg hts)

theorem commitMutated_cases {dates : DateApi} {s t : Project}
    {p : Claim → Bool} {f : Claim → Claim} {events : List OrcEvent}
    {r : Except DomainError Unit}
    (h : onEvents (commitClaims dates (mutateClaims s.claims p f) events) s =
      (r, t)) (hid : ∀ c, (f c).runId = c.runId) :
    ((∃ e, r = .error e) ∧ t = s) ∨
      r = .ok () ∧ Mutated p f s.events.runs t.events.runs ∧
        t.tasks = s.tasks := by
  rcases onEvents_cases h with ⟨e, rfl, rfl⟩ | ⟨⟨⟩, db, hdb, rfl, rfl⟩
  · exact .inl ⟨⟨e, rfl⟩, rfl⟩
  · exact .inr ⟨rfl, commitMutated_claims hdb hid, rfl⟩

end OrcState.Lifecycle
