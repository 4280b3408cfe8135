import OrcState.Authoring.Definition

/-!
# An import applies whole or not at all

Every authoring call is sound: inside a batch it tells nothing, and however it ends
the tables of the store agree.  An import that throws is rolled back to the state it
began in; one that returns has given each task of the batch the definition of its
spec, has recorded each spec once, has left every other task and all runtime columns
alone, and has told of what it wrote after the commit.
-/

namespace OrcState.Authoring

open OrcState.Contract OrcState.Foundation OrcState.Store
open OrcState.Markdown (ParsedTaskMarkdown)

variable {dates : DateApi} {now : Int} {s t : AuthoringState}

/-! ## Rows that are rewritten -/

theorem consistent_of_rows {s : SpecStore} (h : Consistent s)
    {rows : Table TaskRef TaskRow TaskRow.ref}
    (hrows : ∀ r, Option.Rel (fun old row : TaskRow => row.title = old.title ∧
      row.priority = old.priority ∧ row.requiredProvider = old.requiredProvider)
        (s.rows.find? r) (rows.find? r)) :
    Consistent { s with rows := rows } := by
  refine ⟨fun r hr => ?_, h.numbered, fun r row hrow => ?_, h.distinct⟩
  · change (rows.find? r.taskRef).isSome = true
    obtain ⟨old, hold⟩ := Option.isSome_iff_exists.mp (h.known r hr)
    have hrel := hrows r.taskRef
    rw [hold] at hrel
    cases hfind : rows.find? r.taskRef with
    | none =>
        rw [hfind] at hrel
        cases hrel
    | some row => rfl
  · change rows.find? r = some row at hrow
    have hrel := hrows r
    rw [hrow] at hrel
    cases hfind : s.rows.find? r with
    | none =>
        rw [hfind] at hrel
        cases hrel
    | some old =>
        rw [hfind] at hrel
        cases hrel with
        | some hsame =>
            obtain ⟨htitle, hpriority, hprovider⟩ := hsame
            obtain ⟨latest, hlatest, hlength, hd⟩ := h.described r old hfind
            refine ⟨latest, hlatest, hlength, hd.title.trans htitle.symm,
              hpriority ▸ hd.priority, hprovider ▸ hd.requiredProvider, ?_⟩
            obtain ⟨refs, hrefs, hmem⟩ := hd.dependsOn
            have hkey : old.ref = r := Table.key_of_find? hfind
            have hkey' : row.ref = r := Table.key_of_find? hrow
            refine ⟨refs, hrefs, fun d => ?_⟩
            rw [hmem, hkey, hkey']
            rfl

theorem redispatch_ref (owner : Option AgentId) (actorId : AgentId)
    (row : TaskRow) : (redispatch owner actorId row).ref = row.ref := rfl

def redispatched (s : SpecStore) (ref : TaskRef) (owner : Option AgentId)
    (actorId : AgentId) : SpecStore :=
  { s with
    rows := s.rows.update ref (redispatch owner actorId)
      (redispatch_ref owner actorId) }

theorem find?_redispatched {s : SpecStore} (ref r : TaskRef)
    (owner : Option AgentId) (actorId : AgentId) :
    (redispatched s ref owner actorId).rows.find? r =
      (s.rows.find? r).map fun row =>
        if r = ref then redispatch owner actorId row else row := by
  have hfind := Table.find?_update s.rows ref (redispatch owner actorId)
    (redispatch_ref owner actorId) r
  refine hfind.trans ?_
  split
  · rfl
  · exact Option.map_id'.symm

theorem redispatched_consistent {s : SpecStore} (h : Consistent s) (ref : TaskRef)
    (owner : Option AgentId) (actorId : AgentId) :
    Consistent (redispatched s ref owner actorId) := by
  apply consistent_of_rows h
  intro r
  change Option.Rel _ _ ((redispatched s ref owner actorId).rows.find? r)
  rw [find?_redispatched]
  cases s.rows.find? r with
  | none => exact .none
  | some row =>
      change Option.Rel _ _ (some (if r = ref then _ else row))
      split
      · exact .some ⟨rfl, rfl, rfl⟩
      · exact .some ⟨rfl, rfl, rfl⟩

/-! ## Reading a task after a write -/

theorem latestRevision_authored_ne {s : SpecStore}
    {rows : Table TaskRef TaskRow TaskRow.ref} {ref r : TaskRef} {revision : Nat}
    {content : TaskSpec} {stamp : String} (hr : r ≠ ref) :
    (authored s rows ref revision content stamp).latestRevision r =
      s.latestRevision r := by
  unfold SpecStore.latestRevision
  rw [revisionsOf_authored, if_neg (Ne.symm hr)]

theorem getTask_authored_ne {s : SpecStore}
    {rows : Table TaskRef TaskRow TaskRow.ref} {ref r : TaskRef} {revision : Nat}
    {content : TaskSpec} {stamp : String} (hr : r ≠ ref)
    (hrows : rows.find? r = s.rows.find? r) :
    (authored s rows ref revision content stamp).getTask r = s.getTask r := by
  unfold SpecStore.getTask
  rw [latestRevision_authored_ne hr, dependenciesOf_authored, if_neg hr]
  change (rows.find? r >>= _) = _
  rw [hrows]

theorem getTask_authored {s : SpecStore}
    {rows : Table TaskRef TaskRow TaskRow.ref} {ref : TaskRef} {revision : Nat}
    {content : TaskSpec} {stamp : String} {row : TaskRow}
    (h : Consistent (authored s rows ref revision content stamp))
    (hrow : rows.find? ref = some row) :
    (authored s rows ref revision content stamp).getTask ref =
      some ⟨row, SpecStore.pinned ref revision content stamp,
        content.dependsOn.insertionSort (· ≤ ·)⟩ := by
  apply getTask_eq_some.mpr
  refine ⟨hrow, latestRevision_authored h, ?_⟩
  rw [dependenciesOf_authored, if_pos rfl]

theorem getTask_redispatched {s : SpecStore} (ref r : TaskRef)
    (owner : Option AgentId) (actorId : AgentId) :
    (redispatched s ref owner actorId).getTask r =
      (s.getTask r).map fun task =>
        { task with
          row := if r = ref then redispatch owner actorId task.row else task.row } := by
  unfold SpecStore.getTask
  rw [find?_redispatched]
  cases s.rows.find? r with
  | none => rfl
  | some row =>
      change (s.latestRevision r >>= _) = Option.map _ (s.latestRevision r >>= _)
      cases s.latestRevision r <;> rfl

/-! ## What the writes of a call do -/

theorem currentTask_ok {s t : SpecStore} {ref : TaskRef}
    {task : SpecStore.CurrentTask} :
    currentTask ref s = .ok (task, t) ↔ s.getTask ref = some task ∧ s = t := by
  simp only [currentTask, Txn.bind_ok, Txn.get_ok, Txn.orThrow_ok]
  constructor
  · rintro ⟨_, _, ⟨rfl, rfl⟩, htask, rfl⟩
    exact ⟨htask, rfl⟩
  · rintro ⟨htask, rfl⟩
    exact ⟨s, s, ⟨rfl, rfl⟩, htask, rfl⟩

theorem insertTask_ok {s t : SpecStore} {spec : TaskSpecInput}
    {owner : Option AgentId} {actorId : AgentId} {task : SpecStore.CurrentTask}
    (h : insertTask dates now spec owner actorId s = .ok (task, t)) :
    ∃ content rows, firstSpec spec s = .ok (content, s) ∧
      s.rows.find? spec.ref = none ∧ content.dependsOn.Nodup ∧
      s.rows.insertOrdered? SpecStore.rowBefore (SpecStore.newRow spec.ref content
        (spec.createdAt.getD (dates.toISOString now))) = some rows ∧
      t = redispatched (authored s rows spec.ref 1 content
        (spec.createdAt.getD (dates.toISOString now))) spec.ref owner actorId ∧
      t.getTask spec.ref = some task := by
  simp only [insertTask, setDispatchState, Txn.bind_ok, Txn.modify_ok,
    currentTask_ok] at h
  obtain ⟨_, m, hcreate, _, _, rfl, htask, rfl⟩ := h
  obtain ⟨content, rows, hfirst, hfresh, hnodup, hrows, rfl⟩ :=
    createTask_first hcreate
  exact ⟨content, rows, hfirst, hfresh, hnodup, hrows, rfl, htask⟩

theorem insertTask_consistent {s t : SpecStore} {spec : TaskSpecInput}
    {owner : Option AgentId} {actorId : AgentId} {task : SpecStore.CurrentTask}
    (h : insertTask dates now spec owner actorId s = .ok (task, t))
    (hs : Consistent s) : Consistent t := by
  obtain ⟨content, rows, -, hfresh, hnodup, hrows, rfl, -⟩ := insertTask_ok h
  apply redispatched_consistent
  exact hs.authored (Table.find?_insertOrdered? hrows) ⟨rfl, rfl, rfl, rfl⟩
    (by rw [hs.fresh hfresh]; rfl) hnodup

theorem reviseStored_ok {s t : SpecStore} {ref : TaskRef} {e : Int}
    {changes : TaskSpecChanges} {result : SpecStore.CurrentTask × Bool}
    (h : reviseStored dates now ref e changes s = .ok (result, t)) :
    SpecStore.reviseTask ref e changes (dates.toISOString now) s =
      .ok (result.2, t) ∧ t.getTask ref = some result.1 := by
  simp only [reviseStored, Txn.bind_ok, currentTask_ok, Txn.pure_ok] at h
  obtain ⟨changed, m, hrevise, task, _, ⟨htask, rfl⟩, rfl, rfl⟩ := h
  exact ⟨hrevise, htask⟩

theorem reviseStored_consistent {s t : SpecStore} {ref : TaskRef} {e : Int}
    {changes : TaskSpecChanges} {result : SpecStore.CurrentTask × Bool}
    (h : reviseStored dates now ref e changes s = .ok (result, t))
    (hs : Consistent s) : Consistent t := by
  obtain ⟨current, content, hcurrent, -, ⟨-, -, rfl⟩ | ⟨-, -, -, hnodup, rfl⟩⟩ :=
    reviseTask_authored (reviseStored_ok h).1
  · exact hs
  · exact hs.revisedState hcurrent hnodup

theorem recordImport_ok {ref : TaskRef} {revision : Nat}
    {sourcePath fileSha256 : String} {u : Unit}
    (h : recordImport dates now ref revision sourcePath fileSha256 s =
      (.ok u, t)) :
    t = { s with
      runtime := s.runtime.withImport {
        taskRef := ref
        revision := revision
        sourcePath := sourcePath
        fileSha256 := fileSha256
        importedAt := dates.toISOString now } } := by
  unfold recordImport Effect.atomically at h
  split at h
  · rename_i db hdb
    cases h
    simp only [Txn.bind_ok, Txn.get_ok, Txn.throwIf_ok, Txn.set_ok] at hdb
    obtain ⟨_, _, ⟨rfl, rfl⟩, _, _, ⟨-, rfl⟩, _, _, ⟨-, rfl⟩, rfl⟩ := hdb
    rfl
  · cases h

/-! ## Sound calls -/

/--
Inside a batch nothing is told, and the tables agree however the call ends.
-/
structure Sound (s t : AuthoringState) : Prop where
  deferred : s.pendingNotifications.isSome = true →
    t.pendingNotifications.isSome = true ∧ t.events = s.events
  consistent : Consistent s.specs → Consistent t.specs

theorem Sound.refl (s : AuthoringState) : Sound s s :=
  ⟨fun h => ⟨h, rfl⟩, id⟩

theorem Sound.trans (s m t : AuthoringState) (hs : Sound s m) (ht : Sound m t) :
    Sound s t := by
  refine ⟨fun h => ?_, fun h => ht.consistent (hs.consistent h)⟩
  obtain ⟨hpending, hevents⟩ := hs.deferred h
  obtain ⟨hpending', hevents'⟩ := ht.deferred hpending
  exact ⟨hpending', hevents'.trans hevents⟩

theorem transaction_sound {α : Type} {x : Call α} (h : Effect.Ensures Sound x s) :
    Effect.Ensures Sound (transaction x) s := by
  unfold Effect.Ensures transaction at *
  cases hx : x s with
  | mk r t =>
      rw [hx] at h
      cases r with
      | ok a => exact h
      | error e => exact ⟨h.deferred, id⟩

theorem onSpecs_sound {α : Type} {x : Specs α}
    (h : ∀ specs a specs', x specs = .ok (a, specs') → Consistent specs →
      Consistent specs') : Effect.Ensures Sound (onSpecs x) s := by
  apply Effect.ensures_atomically (Sound.refl s)
  intro a specs hx
  exact ⟨fun hp => ⟨hp, rfl⟩, h _ _ _ hx⟩

theorem emit_keeps (event : OrcEvent) :
    Effect.Keeps AuthoringState.runtime (emit dates event) :=
  Effect.keeps_atomically fun _ _ _ _ => rfl

theorem notify_sound (event : OrcEvent) :
    Effect.Ensures Sound (notify dates event) s := by
  unfold Effect.Ensures notify
  split
  · exact ⟨fun _ => ⟨rfl, rfl⟩, id⟩
  · rename_i hnone
    refine ⟨fun hp => ?_, fun hs => ?_⟩
    · rw [hnone] at hp
      cases hp
    · unfold AuthoringState.specs
      rw [emit_keeps event s]
      exact hs

theorem createProjectTask_sound (input : TaskAuthoringInput) (actorId : AgentId) :
    Effect.Ensures Sound (createProjectTask dates now input actorId) s := by
  refine Effect.ensures_read (Effect.ensures_check (Sound.refl s)
    fun prepared _ => ?_)
  refine Effect.Ensures.bind Sound.trans ?_ fun task m _ => ?_
  · exact transaction_sound (onSpecs_sound fun _ _ _ => insertTask_consistent)
  · exact (notify_sound _).result

theorem reviseProjectTask_sound (ref : TaskRef) (expectedRevision : Int)
    (input : TaskAuthoringInput) (actorId : AgentId) :
    Effect.Ensures Sound
      (reviseProjectTask dates now ref expectedRevision input actorId) s := by
  refine Effect.ensures_check (Sound.refl s) fun _ _ => ?_
  refine Effect.ensures_throwIf (Sound.refl s) fun _ => ?_
  refine Effect.ensures_read (Effect.ensures_orThrow (Sound.refl s)
    fun current _ => ?_)
  refine Effect.ensures_check (Sound.refl s) fun changes _ => ?_
  refine Effect.Ensures.bind Sound.trans ?_ fun result m _ => ?_
  · exact transaction_sound (onSpecs_sound fun _ _ _ => reviseStored_consistent)
  · split
    · exact (notify_sound _).result
    · exact Effect.ensures_pure (Sound.refl m) _

theorem recordImport_sound (ref : TaskRef) (revision : Nat)
    (sourcePath fileSha256 : String) :
    Effect.Ensures Sound
      (recordImport dates now ref revision sourcePath fileSha256) s := by
  apply Effect.ensures_of
  intro r t h
  cases r with
  | ok u =>
      rw [recordImport_ok h]
      exact ⟨fun hp => ⟨hp, rfl⟩, id⟩
  | error e =>
      unfold recordImport Effect.atomically at h
      split at h
      · cases h
      · cases h
        exact Sound.refl s

theorem importSpec_sound (actorId : AgentId) (spec : ParsedTaskMarkdown) :
    Effect.Ensures Sound (importSpec dates now actorId spec) s := by
  refine Effect.Ensures.bind Sound.trans ?_ fun applied m _ => ?_
  · apply Effect.ensures_read
    split
    · exact (createProjectTask_sound _ _).result
    · exact (reviseProjectTask_sound _ _ _ _).result
  · exact (recordImport_sound _ _ _ _).result

theorem importSpecs_sound (actorId : AgentId) (specs : List ParsedTaskMarkdown) :
    Effect.Ensures Sound (importSpecs dates now actorId specs) s := by
  induction specs generalizing s with
  | nil => exact Effect.ensures_pure (Sound.refl s) _
  | cons spec rest ih =>
      refine Effect.Ensures.bind Sound.trans (importSpec_sound actorId spec)
        fun result m _ => ?_
      exact ih.result

/-! ## Batches -/

def batched (s : AuthoringState) : AuthoringState :=
  { s with pendingNotifications := some [] }

/-- A batch throws and is rolled back, or its events follow its commit. -/
theorem withTaskAuthoringBatch_cases {α : Type} {operation : Call α}
    (hsound : Effect.Ensures Sound operation (batched s)) {r : Except DomainError α}
    (h : withTaskAuthoringBatch dates operation s = (r, t)) :
    Effect.Refused s r t ∨ ∃ a m, operation (batched s) = (.ok a, m) ∧
      s.pendingNotifications = none ∧
      (emitAll dates (m.pendingNotifications.getD []) >>= fun _ => pure a)
        { m with pendingNotifications := none } = (r, t) := by
  unfold withTaskAuthoringBatch at h
  split at h
  · cases h
    exact .inl ⟨⟨_, rfl⟩, rfl⟩
  · rename_i hpending
    have hnone : s.pendingNotifications = none := by
      simpa using hpending
    unfold transaction at h
    cases hx : operation (batched s) with
    | mk result m =>
        have hm := hsound.snd hx
        unfold batched at hx
        rw [hx] at h
        cases result with
        | ok a => exact .inr ⟨a, m, rfl, hnone, h⟩
        | error e =>
            cases h
            refine .inl ⟨⟨e, rfl⟩, ?_⟩
            obtain ⟨-, hevents⟩ := hm.deferred rfl
            cases s
            cases hnone
            cases hevents
            rfl

theorem emitAll_ok {events : List OrcEvent} (h : ∀ event ∈ events,
    validateEventObject dates { event with seq := 1 } = []) (s : AuthoringState) :
    emitAll dates events s =
      (.ok (), { s with events := events.foldl EventsDb.logged s.events }) := by
  induction events generalizing s with
  | nil => rfl
  | cons event rest ih =>
      have hvalid : appendSequencedEvent dates event s.events =
          .ok ((), s.events.logged event) :=
        appendSequencedEvent_ok.mpr ⟨h event List.mem_cons_self, rfl⟩
      have hemit : emit dates event s =
          (.ok (), { s with events := s.events.logged event }) := by
        unfold emit Effect.atomically
        rw [hvalid]
      change (emit dates event >>= fun _ => emitAll dates rest) s = _
      rw [Effect.bind_of_ok hemit, ih fun e he => h e (List.mem_cons_of_mem _ he)]
      rfl

/-! ## What an import writes -/

/-- One source of the import: its spec, and the task it leaves. -/
structure Entry where
  spec : ParsedTaskMarkdown
  action : ImportAction
  task : SpecStore.CurrentTask

namespace Entry

def ref (entry : Entry) : TaskRef := entry.spec.ref

def result (entry : Entry) : TaskImportResult where
  path := entry.spec.sourcePath
  ref := entry.spec.ref
  action := entry.action
  revision := entry.task.latest.revision
  ignoredFields := entry.spec.ignoredFields

def importRow (stamp : String) (entry : Entry) : TaskImport where
  taskRef := entry.spec.ref
  revision := entry.task.latest.revision
  sourcePath := entry.spec.sourcePath
  fileSha256 := entry.spec.fileSha256
  importedAt := stamp

def revisions (entry : Entry) : List TaskSpecRevision :=
  match entry.action with
  | .unchanged => []
  | _ => [entry.task.latest]

def notices (actorId : AgentId) (entry : Entry) : List OrcEvent :=
  match entry.action with
  | .created => [taskAdded entry.task actorId]
  | .revised =>
      [taskUpdated entry.task ((entry.task.latest.revision : Int) - 1) actorId]
  | .unchanged => []

end Entry

/-- The keys that no spec determines and no column holds. -/
def keptKey (key : String) : Prop :=
  key ∉ statedKeys ∧ key ≠ "body_source" ∧ indexedKey key = false

/--
What the import makes of a task: it has the definition of its spec, and what no spec
states is what it was, or for a new task its feature alone.
-/
inductive Applied (stamp : String) (actorId : AgentId) :
    Option SpecStore.CurrentTask → Entry → Prop
  | created {spec : ParsedTaskMarkdown} {task : SpecStore.CurrentTask}
      (hstated : Stated spec (contentOf task))
      (hkept : ∀ key, keptKey key → task.latest.metadata.get key =
        if key = "feature" then some (.text spec.feature) else none)
      (hrevision : task.latest.revision = 1) (hcreated : task.row.createdAt = stamp)
      (hruntime : task.row.runtime = {
        updatedAt := stamp
        dispatch := {
          planningState := some .readyForDispatch
          delegatedBy := some actorId
          owner := none } }) :
      Applied stamp actorId none ⟨spec, .created, task⟩
  | revised {spec : ParsedTaskMarkdown} {current task : SpecStore.CurrentTask}
      (hstated : Stated spec (contentOf task))
      (hkept : ∀ key, keptKey key →
        task.latest.metadata.get key = current.latest.metadata.get key)
      (hrevision : task.latest.revision = current.latest.revision + 1)
      (hbase : ∀ r, spec.baseRevision = some r → r = current.latest.revision)
      (hruntime : task.row.runtime = { current.row.runtime with updatedAt := stamp }) :
      Applied stamp actorId (some current) ⟨spec, .revised, task⟩
  | unchanged {spec : ParsedTaskMarkdown} {current : SpecStore.CurrentTask}
      (hstated : Stated spec (contentOf current)) :
      Applied stamp actorId (some current) ⟨spec, .unchanged, current⟩

structure RuntimeKept (s t : SpecStore) : Prop where
  rows : ∀ ref row, s.rows.find? ref = some row → ∃ row',
    t.rows.find? ref = some row' ∧
      row'.runtime = { row.runtime with updatedAt := row'.runtime.updatedAt }
  transitions : t.transitions = s.transitions
  taskRuns : t.taskRuns = s.taskRuns

theorem RuntimeKept.refl (s : SpecStore) : RuntimeKept s s :=
  ⟨fun _ row hrow => ⟨row, hrow, rfl⟩, rfl, rfl⟩

theorem RuntimeKept.trans {s m t : SpecStore} (hs : RuntimeKept s m)
    (ht : RuntimeKept m t) : RuntimeKept s t := by
  refine ⟨fun ref row hrow => ?_, ht.transitions.trans hs.transitions,
    ht.taskRuns.trans hs.taskRuns⟩
  obtain ⟨row', hrow', hsame⟩ := hs.rows ref row hrow
  obtain ⟨row'', hrow'', hsame'⟩ := ht.rows ref row' hrow'
  refine ⟨row'', hrow'', ?_⟩
  rw [hsame', hsame]

/-- What the entries of a batch wrote, one after the other. -/
structure Wrote (stamp : String) (actorId : AgentId) (s t : AuthoringState)
    (entries : List Entry) : Prop where
  applied : ∀ entry ∈ entries,
    Applied stamp actorId (s.specs.getTask entry.ref) entry ∧
      t.specs.getTask entry.ref = some entry.task
  others : ∀ ref, ref ∉ entries.map Entry.ref →
    t.specs.getTask ref = s.specs.getTask ref
  revisions : t.specs.revisions =
    s.specs.revisions ++ entries.flatMap Entry.revisions
  runtime : RuntimeKept s.specs t.specs
  imports : t.runtime.imports =
    s.runtime.imports ++ entries.map (Entry.importRow stamp)
  pending : t.pendingNotifications = s.pendingNotifications.map
    (· ++ entries.flatMap (Entry.notices actorId))
  events : t.events = s.events

theorem Wrote.nil (stamp : String) (actorId : AgentId) (s : AuthoringState) :
    Wrote stamp actorId s s [] where
  applied entry hentry := absurd hentry List.not_mem_nil
  others _ _ := rfl
  revisions := (List.append_nil _).symm
  runtime := .refl _
  imports := (List.append_nil _).symm
  pending := by
    cases s.pendingNotifications with
    | none => rfl
    | some emits => exact congrArg some (List.append_nil emits).symm
  events := rfl

theorem Wrote.cons {stamp : String} {actorId : AgentId} {s m t : AuthoringState}
    {entry : Entry} {rest : List Entry} (hs : Wrote stamp actorId s m [entry])
    (ht : Wrote stamp actorId m t rest) (hfresh : entry.ref ∉ rest.map Entry.ref) :
    Wrote stamp actorId s t (entry :: rest) where
  applied e he := by
    rcases List.mem_cons.mp he with rfl | hrest
    · obtain ⟨happlied, htask⟩ := hs.applied e List.mem_cons_self
      exact ⟨happlied, (ht.others _ hfresh).trans htask⟩
    · obtain ⟨happlied, htask⟩ := ht.applied e hrest
      have hne : e.ref ∉ [entry].map Entry.ref := by
        intro hmem
        rw [List.map_singleton, List.mem_singleton] at hmem
        exact hfresh (hmem ▸ List.mem_map_of_mem hrest)
      exact ⟨hs.others _ hne ▸ happlied, htask⟩
  others ref href := by
    rw [List.map_cons, List.mem_cons, not_or] at href
    have hne : ref ∉ [entry].map Entry.ref := by
      rw [List.map_singleton, List.mem_singleton]
      exact href.1
    exact (ht.others ref href.2).trans (hs.others ref hne)
  revisions := by
    rw [ht.revisions, hs.revisions, List.append_assoc]
    simp
  runtime := hs.runtime.trans ht.runtime
  imports := by
    rw [ht.imports, hs.imports, List.append_assoc]
    rfl
  pending := by
    rw [ht.pending, hs.pending, Option.map_map]
    congr 1
    funext emits
    simp
  events := ht.events.trans hs.events

/-! ## One task in the store -/

structure Rewrote (s t : SpecStore) (entry : Entry) : Prop where
  task : t.getTask entry.ref = some entry.task
  others : ∀ r, r ≠ entry.ref → t.getTask r = s.getTask r
  revisions : t.revisions = s.revisions ++ entry.revisions
  runtime : RuntimeKept s t

/-- A new task is the spec's, and nobody else's row is touched. -/
theorem insertTask_rewrote {s t : SpecStore} {spec : ParsedTaskMarkdown}
    {input : TaskSpecInput} {actorId : AgentId} {task : SpecStore.CurrentTask}
    (hs : Consistent s) (hspec : Parsed spec) (hinput : Prepared spec input)
    (h : insertTask dates now input none actorId s = .ok (task, t)) :
    Applied (dates.toISOString now) actorId none ⟨spec, .created, task⟩ ∧
      Rewrote s t ⟨spec, .created, task⟩ := by
  obtain ⟨content, rows, hfirst, hfresh, hnodup, hrows, rfl, htask⟩ :=
    insertTask_ok h
  have hstated := hinput.stated hspec hfirst
  have hmetadata := (firstSpec_ok hfirst).2.1
  rw [hinput.createdAt, Option.getD_none] at hrows htask ⊢
  rw [hinput.ref] at hrows hfresh htask ⊢
  have hfind := Table.find?_insertOrdered? hrows
  have hnew : rows.find? spec.ref = some (SpecStore.newRow spec.ref content
      (dates.toISOString now)) := (hfind spec.ref).trans (if_pos rfl)
  have hold : ∀ r, r ≠ spec.ref → rows.find? r = s.rows.find? r :=
    fun r hr => (hfind r).trans (if_neg hr)
  have hconsistent : Consistent
      (authored s rows spec.ref 1 content (dates.toISOString now)) :=
    hs.authored hfind ⟨rfl, rfl, rfl, rfl⟩ (by rw [hs.fresh hfresh]; rfl) hnodup
  -- The task is the row that was inserted, with its dispatch columns.
  rw [getTask_redispatched, getTask_authored hconsistent hnew] at htask
  have hread := htask
  simp only [Option.map_some, if_true, Option.some.injEq] at hread
  subst hread
  refine ⟨.created ?_ ?_ rfl rfl rfl, ?_, fun r hr => ?_, rfl, ?_⟩
  · exact hstated.stored ⟨rfl, rfl, rfl⟩
  · rintro key ⟨hkey, hbody, hindexed⟩
    change (revisionMetadata content).get key = _
    rw [get_revisionMetadata content hindexed, hmetadata]
    exact hinput.others hkey hbody
  · change (redispatched _ spec.ref none actorId).getTask spec.ref = _
    rw [getTask_redispatched, getTask_authored hconsistent hnew]
    exact htask
  · have hne : r ≠ spec.ref := hr
    rw [getTask_redispatched, getTask_authored_ne hne (hold r hne)]
    simp only [if_neg hne]
    exact Option.map_id'
  · refine ⟨fun r row hrow => ⟨row, ?_, rfl⟩, rfl, rfl⟩
    have hr : r ≠ spec.ref := by
      rintro rfl
      rw [hfresh] at hrow
      cases hrow
    rw [find?_redispatched]
    change (rows.find? r).map _ = _
    rw [hold r hr, hrow, Option.map_some, if_neg hr]

theorem reviseStored_rewrote {s t : SpecStore} {spec : ParsedTaskMarkdown}
    {current : SpecStore.CurrentTask} {changes : TaskSpecChanges}
    {result : SpecStore.CurrentTask × Bool}
    (hs : Consistent s) (hcurrent : s.getTask spec.ref = some current)
    (hchanges : Changes spec current changes) (actorId : AgentId)
    (h : reviseStored dates now spec.ref
      (spec.baseRevision.getD current.latest.revision) changes s =
        .ok (result, t)) :
    (result.2 = true → spec.baseRevision.getD current.latest.revision =
        current.latest.revision) ∧
      Applied (dates.toISOString now) actorId (some current)
        ⟨spec, if result.2 then .revised else .unchanged, result.1⟩ ∧
      Rewrote s t ⟨spec, if result.2 then .revised else .unchanged, result.1⟩ := by
  obtain ⟨hrevise, htask⟩ := reviseStored_ok h
  obtain ⟨found, content, hfound, hrevised, hcases⟩ := reviseTask_authored hrevise
  rw [hcurrent] at hfound
  cases hfound
  have hstated := hchanges.stated hrevised
  obtain ⟨hrow, hlatest, hdeps⟩ := getTask_eq_some.mp hcurrent
  have hkey : current.row.ref = spec.ref := Table.key_of_find? hrow
  rcases hcases with ⟨hunchanged, hfalse, rfl⟩ |
    ⟨-, htrue, hbase, hnodup, rfl⟩
  · obtain ⟨latest, hsame, -, hdescribed⟩ := hs.described _ _ hrow
    rw [hlatest] at hsame
    cases hsame
    rw [hcurrent] at htask
    cases htask
    rw [hfalse]
    refine ⟨fun h => absurd h Bool.false_ne_true, .unchanged ?_, hcurrent, fun _ _ => rfl, ?_,
      .refl _⟩
    · exact hstated.of_unchanged hunchanged hdescribed (hkey ▸ hdeps)
    · exact (List.append_nil _).symm
  · have hconsistent : Consistent (revisedState s spec.ref
        (current.latest.revision + 1) content (dates.toISOString now)) :=
      hs.revisedState hcurrent hnodup
    have hfind := find?_revised content (dates.toISOString now) hcurrent
    have hnew := (hfind spec.ref).trans (if_pos rfl)
    rw [revisedState, getTask_authored hconsistent hnew] at htask
    have hread := htask
    rw [Option.some.injEq] at hread
    rw [htrue, ← hread]
    have hbase' : spec.baseRevision.getD current.latest.revision =
        current.latest.revision := by
      exact_mod_cast hbase.symm
    refine ⟨fun _ => hbase', .revised ?_ ?_ rfl ?_ rfl, ?_, fun r hr => ?_, rfl, ?_⟩
    · exact hstated.stored ⟨rfl, rfl, rfl⟩
    · rintro key ⟨hkey, hbody, hindexed⟩
      change (revisionMetadata content).get key = _
      rw [get_revisionMetadata content hindexed]
      exact hchanges.others hrevised hkey hbody hindexed
    · intro r hr
      rw [hr] at hbase'
      exact hbase'
    · exact getTask_authored hconsistent hnew
    · exact getTask_authored_ne hr ((hfind r).trans (if_neg hr))
    · refine ⟨fun r row hr => ?_, rfl, rfl⟩
      by_cases href : r = spec.ref
      · subst href
        rw [hrow] at hr
        cases hr
        exact ⟨_, hnew, rfl⟩
      · exact ⟨row, ((hfind r).trans (if_neg href)).trans hr, rfl⟩

/-! ## One source of a batch -/

theorem transaction_onSpecs_ok {α : Type} {x : Specs α} {a : α}
    (h : transaction (onSpecs x) s = (.ok a, t)) :
    ∃ specs, x s.specs = .ok (a, specs) ∧ t = s.withSpecs specs := by
  unfold transaction onSpecs Effect.atomically at h
  cases hx : x s.specs with
  | error e =>
      rw [hx] at h
      cases h
  | ok p =>
      rw [hx] at h
      cases h
      exact ⟨p.2, rfl, rfl⟩

theorem notify_pending {s : AuthoringState} {emits : List OrcEvent}
    (h : s.pendingNotifications = some emits) (dates : DateApi)
    (event : OrcEvent) :
    notify dates event s =
      (.ok (), { s with pendingNotifications := some (emits ++ [event]) }) := by
  unfold notify
  rw [h]

theorem createProjectTask_ok {input : TaskAuthoringInput} {actorId : AgentId}
    {task : SpecStore.CurrentTask} {emits : List OrcEvent}
    (hpending : s.pendingNotifications = some emits)
    (h : createProjectTask dates now input actorId s = (.ok task, t)) :
    ∃ prepared specs,
      prepareProjectTask (fun ref => (s.specs.getTask ref).isSome) input actorId =
        .ok prepared ∧
      insertTask dates now prepared.1 prepared.2 actorId s.specs =
        .ok (task, specs) ∧
      t = { s.withSpecs specs with
        pendingNotifications := some (emits ++ [taskAdded task actorId]) } := by
  unfold createProjectTask at h
  rw [Effect.read_bind] at h
  rcases Effect.ofExcept_cases h with ⟨⟨e, he⟩, -⟩ | ⟨prepared, hprepared, h⟩
  · cases he
  rcases Effect.bind_cases h with ⟨e, -, he⟩ | ⟨created, m, hinsert, h⟩
  · cases he
  obtain ⟨specs, hspecs, rfl⟩ := transaction_onSpecs_ok hinsert
  have hnotify := notify_pending (s := s.withSpecs specs) hpending dates
    (taskAdded created actorId)
  rw [Effect.bind_of_ok hnotify] at h
  cases h
  exact ⟨prepared, specs, hprepared, hspecs, rfl⟩

theorem reviseProjectTask_ok {ref : TaskRef} {expectedRevision : Int}
    {input : TaskAuthoringInput} {actorId : AgentId}
    {result : SpecStore.CurrentTask × Bool} {emits : List OrcEvent}
    (hpending : s.pendingNotifications = some emits)
    (h : reviseProjectTask dates now ref expectedRevision input actorId s =
      (.ok result, t)) :
    ∃ current changes specs, s.specs.getTask ref = some current ∧
      prepareRevision input current = .ok changes ∧
      reviseStored dates now ref expectedRevision changes s.specs =
        .ok (result, specs) ∧
      t = { s.withSpecs specs with
        pendingNotifications := some (emits ++
          if result.2 then [taskUpdated result.1 expectedRevision actorId]
          else []) } := by
  unfold reviseProjectTask at h
  rcases Effect.ofExcept_cases h with ⟨⟨e, he⟩, -⟩ | ⟨_, -, h⟩
  · cases he
  rcases Effect.throwIf_cases h with ⟨⟨e, he⟩, -⟩ | ⟨-, h⟩
  · cases he
  rw [Effect.read_bind] at h
  rcases Effect.orThrow_cases h with ⟨⟨e, he⟩, -⟩ | ⟨current, hcurrent, h⟩
  · cases he
  rcases Effect.ofExcept_cases h with ⟨⟨e, he⟩, -⟩ | ⟨changes, hchanges, h⟩
  · cases he
  rcases Effect.bind_cases h with ⟨e, -, he⟩ | ⟨stored, m, hrevise, h⟩
  · cases he
  obtain ⟨specs, hspecs, rfl⟩ := transaction_onSpecs_ok hrevise
  refine ⟨current, changes, specs, hcurrent, hchanges, ?_⟩
  cases hchanged : stored.2 with
  | true =>
      have hnotify := notify_pending (s := s.withSpecs specs) hpending dates
        (taskUpdated stored.1 expectedRevision actorId)
      rw [hchanged, if_pos rfl, Effect.bind_of_ok hnotify] at h
      cases h
      rw [hchanged]
      exact ⟨hspecs, rfl⟩
  | false =>
      rw [hchanged, if_neg Bool.false_ne_true] at h
      cases h
      rw [hchanged]
      refine ⟨hspecs, ?_⟩
      have hsame : (s.withSpecs specs).pendingNotifications =
          some (emits ++ []) := by
        rw [List.append_nil]
        exact hpending
      rw [if_neg Bool.false_ne_true, ← hsame]

theorem Rewrote.wrote {stamp : String} {actorId : AgentId} {specs : SpecStore}
    {entry : Entry} {emits : List OrcEvent}
    (hpending : s.pendingNotifications = some emits)
    (happlied : Applied stamp actorId (s.specs.getTask entry.ref) entry)
    (h : Rewrote s.specs specs entry) :
    Wrote stamp actorId s { s.withSpecs specs with
      runtime := (s.withSpecs specs).runtime.withImport (entry.importRow stamp)
      pendingNotifications := some (emits ++ entry.notices actorId) } [entry] where
  applied e he := by
    cases List.mem_singleton.mp he
    exact ⟨happlied, h.task⟩
  others ref href := by
    rw [List.map_singleton, List.mem_singleton] at href
    exact h.others ref href
  revisions := by
    rw [List.flatMap_singleton]
    exact h.revisions
  runtime := h.runtime
  imports := rfl
  pending := by
    rw [hpending, List.flatMap_singleton]
    rfl
  events := rfl

theorem importSpec_wrote {actorId : AgentId} {spec : ParsedTaskMarkdown}
    {result : TaskImportResult} {emits : List OrcEvent} (hspec : Parsed spec)
    (hs : Consistent s.specs) (hpending : s.pendingNotifications = some emits)
    (h : importSpec dates now actorId spec s = (.ok result, t)) :
    ∃ entry : Entry, entry.spec = spec ∧ result = entry.result ∧
      Wrote (dates.toISOString now) actorId s t [entry] := by
  rcases Effect.bind_cases h with ⟨e, -, he⟩ | ⟨applied, m, happly, h⟩
  · cases he
  rcases Effect.bind_cases h with ⟨e, -, he⟩ | ⟨_, n, hrecord, h⟩
  · cases he
  cases h
  unfold applySpec at happly
  rw [Effect.read_bind] at happly
  cases hcurrent : s.specs.getTask spec.ref with
  | none =>
      rw [hcurrent] at happly
      rcases Effect.bind_cases happly with ⟨e, -, he⟩ | ⟨task, m', hcreate, happly⟩
      · cases he
      cases happly
      obtain ⟨⟨input, owner⟩, specs, hprepared, hinsert, rfl⟩ :=
        createProjectTask_ok hpending hcreate
      obtain ⟨hinput, howner⟩ := prepareProjectTask_ok hspec hprepared
      cases howner
      obtain ⟨happlied, hrewrote⟩ := insertTask_rewrote hs hspec hinput hinsert
      rw [← hcurrent] at happlied
      refine ⟨⟨spec, .created, task⟩, rfl, rfl, ?_⟩
      rw [recordImport_ok hrecord]
      exact hrewrote.wrote hpending happlied
  | some current =>
      rw [hcurrent] at happly
      rcases Effect.bind_cases happly with ⟨e, -, he⟩ | ⟨stored, m', hrevise, happly⟩
      · cases he
      cases happly
      obtain ⟨found, changes, specs, hfound, hprepared, hstored, rfl⟩ :=
        reviseProjectTask_ok hpending hrevise
      rw [hcurrent] at hfound
      cases hfound
      obtain ⟨hbase, happlied, hrewrote⟩ := reviseStored_rewrote hs hcurrent
        (prepareRevision_ok hprepared) actorId hstored
      have hnext := happlied
      rw [← hcurrent] at happlied
      refine ⟨⟨spec, if stored.2 then .revised else .unchanged, stored.1⟩, rfl, rfl,
        ?_⟩
      rw [recordImport_ok hrecord]
      have hwrote := hrewrote.wrote hpending happlied
      cases hchanged : stored.2 with
      | false =>
          rw [hchanged] at hwrote
          exact hwrote
      | true =>
          rw [hchanged] at hwrote hnext
          have hexpected : ((spec.baseRevision.getD current.latest.revision : Nat) :
              Int) = (stored.1.latest.revision : Int) - 1 := by
            rw [hbase hchanged]
            cases hnext with
            | revised _ _ hrevision _ _ =>
                rw [hrevision]
                omega
          rw [hexpected]
          exact hwrote

theorem importSpecs_wrote {actorId : AgentId} {specs : List ParsedTaskMarkdown}
    {results : List TaskImportResult} {emits : List OrcEvent}
    (hspecs : ∀ spec ∈ specs, Parsed spec) (hs : Consistent s.specs)
    (hpending : s.pendingNotifications = some emits)
    (hdistinct : (specs.map ParsedTaskMarkdown.ref).Nodup)
    (h : importSpecs dates now actorId specs s = (.ok results, t)) :
    ∃ entries : List Entry, entries.map Entry.spec = specs ∧
      results = entries.map Entry.result ∧
      Wrote (dates.toISOString now) actorId s t entries := by
  induction specs generalizing s emits results with
  | nil =>
      cases h
      exact ⟨[], rfl, rfl, .nil _ _ _⟩
  | cons spec rest ih =>
      rcases Effect.bind_cases h with ⟨e, -, he⟩ | ⟨result, m, hfirst, h⟩
      · cases he
      rcases Effect.bind_cases h with ⟨e, -, he⟩ | ⟨others, n, hrest, h⟩
      · cases he
      cases h
      obtain ⟨entry, rfl, rfl, hwrote⟩ :=
        importSpec_wrote (hspecs spec List.mem_cons_self) hs hpending hfirst
      have hm := ((importSpec_sound actorId entry.spec).snd hfirst).consistent hs
      have hpending' := hwrote.pending
      rw [hpending] at hpending'
      rw [List.map_cons, List.nodup_cons] at hdistinct
      obtain ⟨entries, rfl, rfl, hwrote'⟩ := ih
        (fun spec hspec => hspecs spec (List.mem_cons_of_mem _ hspec)) hm hpending'
        hdistinct.2 hrest
      refine ⟨entry :: entries, rfl, rfl, hwrote.cons hwrote' ?_⟩
      rw [List.map_map] at hdistinct
      exact hdistinct.1

/-! ## The events of a batch -/

theorem taskAdded_valid {task : SpecStore.CurrentTask} (actorId : AgentId)
    (hts : dates.isDateTime task.row.createdAt = true)
    (href : taskRefRe task.row.ref = true) :
    validateEventObject dates { taskAdded task actorId with seq := 1 } = [] := by
  simp [validateEventObject, validateSchema, validateCoreEventInvariants,
    validatePayload, taskAdded, complainIf, requireTaskRef, taskEvents,
    runLifecycleEvents, workerRunEvents, commandEvents, agentEvents, hts, href]

theorem taskUpdated_valid {task : SpecStore.CurrentTask} (e : Int)
    (actorId : AgentId)
    (hts : dates.isDateTime task.row.runtime.updatedAt = true)
    (href : taskRefRe task.row.ref = true) :
    validateEventObject dates { taskUpdated task e actorId with seq := 1 } = [] := by
  have hstatus : task.row.runtime.status.text ≠ "" := by
    cases task.row.runtime.status <;> decide
  simp [validateEventObject, validateSchema, validateCoreEventInvariants,
    validatePayload, taskUpdated, complainIf, requireTaskRef, taskEvents,
    runLifecycleEvents, workerRunEvents, commandEvents, agentEvents,
    requireNonEmptyString, requirePayloadField, isNonEmptyString, OrcEvent.field,
    hts, href, hstatus]

theorem Wrote.notices_valid {actorId : AgentId} {m : AuthoringState}
    {entries : List Entry} (h : Wrote (dates.toISOString now) actorId s m entries)
    (hparsed : ∀ entry ∈ entries, Parsed entry.spec) :
    ∀ event ∈ entries.flatMap (Entry.notices actorId),
      validateEventObject dates { event with seq := 1 } = [] := by
  intro event hevent
  obtain ⟨entry, hentry, hnotice⟩ := List.mem_flatMap.mp hevent
  obtain ⟨happlied, htask⟩ := h.applied entry hentry
  have hkey : entry.task.row.ref = entry.ref :=
    Table.key_of_find? (getTask_eq_some.mp htask).1
  have href : taskRefRe entry.task.row.ref = true :=
    hkey ▸ (hparsed entry hentry).ref
  generalize hbefore : s.specs.getTask entry.ref = before at happlied
  cases happlied with
  | created hstated hkept hrevision hcreated hruntime =>
      cases List.mem_singleton.mp hnotice
      exact taskAdded_valid actorId
        (by rw [hcreated]; exact dates.isDateTime_toISOString now) href
  | revised hstated hkept hrevision hbase hruntime =>
      cases List.mem_singleton.mp hnotice
      exact taskUpdated_valid _ actorId
        (by rw [hruntime]; exact dates.isDateTime_toISOString now) href
  | unchanged hstated => cases hnotice

/-! ## The import -/

theorem checkRefs_ok {exists? : TaskRef → Bool} {passed : List TaskRef}
    {specs : List ParsedTaskMarkdown} {u : Unit}
    (h : checkRefs exists? passed specs = .ok u) :
    (specs.map ParsedTaskMarkdown.ref).Nodup ∧
      ∀ ref ∈ passed, ref ∉ specs.map ParsedTaskMarkdown.ref := by
  induction specs generalizing passed with
  | nil => exact ⟨List.nodup_nil, fun _ _ => List.not_mem_nil⟩
  | cons spec rest ih =>
      obtain ⟨_, hfresh, h⟩ := Checks.bind_ok.mp h
      obtain ⟨_, -, h⟩ := Checks.bind_ok.mp h
      obtain ⟨hnodup, hpassed⟩ := ih h
      have hnew : spec.ref ∉ passed := by
        have hcheck := checkThat_ok.mp hfresh
        simpa using hcheck
      refine ⟨List.nodup_cons.mpr ⟨hpassed _ List.mem_cons_self, hnodup⟩, ?_⟩
      intro ref href hmem
      rcases List.mem_cons.mp hmem with rfl | hlater
      · exact hnew href
      · exact hpassed ref (List.mem_cons_of_mem _ href) hlater

/-- An import that returned: every source is applied, and nothing else happened. -/
structure Imported (dates : DateApi) (now : Int) (actorId : AgentId)
    (s t : AuthoringState) (specs : List ParsedTaskMarkdown)
    (entries : List Entry) : Prop where
  read : entries.map Entry.spec = specs
  distinct : (entries.map Entry.ref).Nodup
  applied : ∀ entry ∈ entries,
    Applied (dates.toISOString now) actorId (s.specs.getTask entry.ref) entry ∧
      t.specs.getTask entry.ref = some entry.task
  others : ∀ ref, ref ∉ entries.map Entry.ref →
    t.specs.getTask ref = s.specs.getTask ref
  revisions : t.specs.revisions =
    s.specs.revisions ++ entries.flatMap Entry.revisions
  runtime : RuntimeKept s.specs t.specs
  imports : t.runtime.imports = s.runtime.imports ++
    entries.map (Entry.importRow (dates.toISOString now))
  events : t.events =
    (entries.flatMap (Entry.notices actorId)).foldl EventsDb.logged s.events
  -- While the batch is not committed, nothing is told of it.
  deferred : ∀ r m, importSpecs dates now actorId specs (batched s) = (r, m) →
    m.events = s.events
  stale : ∀ entry ∈ entries, ∀ current r,
    s.specs.getTask entry.ref = some current → entry.spec.baseRevision = some r →
      r < current.latest.revision →
        entry.action = .unchanged ∧ Stated entry.spec (contentOf current)

theorem Applied.stale {stamp : String} {actorId : AgentId}
    {before : Option SpecStore.CurrentTask} {entry : Entry}
    (h : Applied stamp actorId before entry) {current : SpecStore.CurrentTask}
    {r : Nat} (hbefore : before = some current)
    (hr : entry.spec.baseRevision = some r) (hlt : r < current.latest.revision) :
    entry.action = .unchanged ∧ Stated entry.spec (contentOf current) := by
  cases h with
  | created hstated hkept hrevision hcreated hruntime => cases hbefore
  | revised hstated hkept hrevision hbase hruntime =>
      cases hbefore
      have heq := hbase r hr
      omega
  | unchanged hstated =>
      cases hbefore
      exact ⟨rfl, hstated⟩

theorem import_cases {sha256 : Json.Units → String}
    {sources : List TaskMarkdownSource} {strict : Bool} {actorId : AgentId}
    {r : Except DomainError (List TaskImportResult)} (hs : Consistent s.specs)
    (h : importTaskMarkdownSources dates now sha256 sources strict actorId s =
      (r, t)) :
    Effect.Refused s r t ∨ Consistent t.specs ∧ ∃ specs entries,
      readSpecs sha256 strict sources = .ok specs ∧
        r = .ok (entries.map Entry.result) ∧
          Imported dates now actorId s t specs entries := by
  rcases Effect.ofExcept_cases h with hrefused | ⟨specs, hread, h⟩
  · exact .inl hrefused
  rw [Effect.read_bind] at h
  rcases Effect.ofExcept_cases h with hrefused | ⟨_, hrefs, h⟩
  · exact .inl hrefused
  have hsound : Effect.Ensures Sound (importSpecs dates now actorId specs)
      (batched s) := importSpecs_sound actorId specs
  rcases withTaskAuthoringBatch_cases hsound h with hrefused |
    ⟨results, m, hrun, -, htold⟩
  · exact .inl hrefused
  have hparsed := readSpecs_parsed hread
  have hdistinct := (checkRefs_ok hrefs).1
  obtain ⟨entries, hspecs, rfl, hwrote⟩ :=
    importSpecs_wrote (s := batched s) hparsed hs rfl hdistinct hrun
  have hentries : ∀ entry ∈ entries, Parsed entry.spec := fun entry hentry =>
    hparsed _ (hspecs ▸ List.mem_map_of_mem hentry)
  have hpending : m.pendingNotifications =
      some (entries.flatMap (Entry.notices actorId)) := hwrote.pending
  rw [hpending, Option.getD_some,
    Effect.bind_of_ok (emitAll_ok (hwrote.notices_valid hentries) _)] at htold
  cases htold
  refine .inr ⟨(hsound.snd hrun).consistent hs, specs, entries, hread, rfl, ?_⟩
  refine ⟨hspecs, ?_, hwrote.applied, hwrote.others, hwrote.revisions,
    hwrote.runtime, hwrote.imports, ?_, fun r m' hrun' => ?_, ?_⟩
  · rw [← hspecs, List.map_map] at hdistinct
    exact hdistinct
  · change (entries.flatMap _).foldl EventsDb.logged m.events = _
    rw [hwrote.events]
    rfl
  · exact ((hsound.snd hrun').deferred rfl).2
  · intro entry hentry current r hcurrent hr hlt
    exact (hwrote.applied entry hentry).1.stale hcurrent hr hlt

/-! ## Every project store -/

inductive AuthoringOp where
  | store (op : SpecOp)
  | create (input : TaskAuthoringInput) (actorId : AgentId)
  | revise (ref : TaskRef) (expectedRevision : Int) (input : TaskAuthoringInput)
      (actorId : AgentId)
  | importSources (sources : List TaskMarkdownSource) (strict : Bool)
      (actorId : AgentId)
  | tell (event : OrcEvent)

section System

variable (dates : DateApi) (sha256 : Json.Units → String)

def AuthoringOp.after (now : Int) (s : AuthoringState) : AuthoringOp → AuthoringState
  | .store op => (onSpecs (op.perform (dates.toISOString now)) s).2
  | .create input actorId => (createProjectTask dates now input actorId s).2
  | .revise ref expectedRevision input actorId =>
      (reviseProjectTask dates now ref expectedRevision input actorId s).2
  | .importSources sources strict actorId =>
      (importTaskMarkdownSources dates now sha256 sources strict actorId s).2
  | .tell event => (emit dates event s).2

def AuthoringOp.enabled : AuthoringOp → Bool
  | .store op => op.enabled
  | _ => true

def authoringSystem : System AuthoringState (Int × AuthoringOp) where
  initial s := s = {}
  step s op := if op.2.enabled then some (op.2.after dates sha256 op.1 s) else none

variable {dates} {sha256}

theorem authoring_consistent (h : (authoringSystem dates sha256).Reachable s) :
    Consistent s.specs := by
  refine System.Reachable.invariant (I := fun s => Consistent s.specs) ?_ ?_ h
  · rintro _ rfl
    exact Consistent.empty
  · rintro s ⟨now, op⟩ t hs hstep
    simp only [authoringSystem] at hstep
    split at hstep
    · rename_i henabled
      cases hstep
      cases op with
      | store op =>
          refine (onSpecs_sound fun specs u specs' hok hspecs => ?_).consistent hs
          rcases written op henabled hok with rfl | hw
          · exact hspecs
          · exact hspecs.written hw
      | create input actorId =>
          exact (createProjectTask_sound input actorId).consistent hs
      | revise ref e input actorId =>
          exact (reviseProjectTask_sound ref e input actorId).consistent hs
      | importSources sources strict actorId =>
          have hafter : ∀ r t, importTaskMarkdownSources dates now sha256 sources
              strict actorId s = (r, t) → Consistent t.specs := by
            intro r t hrun
            rcases import_cases hs hrun with ⟨-, rfl⟩ | ⟨ht, -⟩
            · exact hs
            · exact ht
          exact hafter _ _ rfl
      | tell event =>
          change Consistent (AuthoringState.specs (emit dates event s).2)
          unfold AuthoringState.specs
          rw [emit_keeps event s]
          exact hs
    · cases hstep

/--
Whatever editors, the runtime and earlier imports have done: an import throws and
leaves everything as it was, or it has applied every source and nothing else.
-/
theorem import_all_or_nothing {sources : List TaskMarkdownSource} {strict : Bool}
    {actorId : AgentId} {r : Except DomainError (List TaskImportResult)}
    (h : (authoringSystem dates sha256).Reachable s)
    (hrun : importTaskMarkdownSources dates now sha256 sources strict actorId s =
      (r, t)) :
    ((∃ e, r = .error e) ∧ t = s) ∨ ∃ specs entries,
      readSpecs sha256 strict sources = .ok specs ∧
        r = .ok (entries.map Entry.result) ∧
          Imported dates now actorId s t specs entries := by
  rcases import_cases (authoring_consistent h) hrun with hrefused | ⟨-, himported⟩
  · exact .inl hrefused
  · exact .inr himported

end System

/-! ## A file cannot clear a description -/

def digestText (_ : Json.Units) : String := String.ofList (List.replicate 64 'a')

def createIntro : AuthoringOp :=
  .create {
    feature := .value "docs"
    ref := .value "intro"
    title := .value "Intro"
    bodyMarkdown := .value "# Intro\n"
    description := .value "Why" } "human"

def editedIntro : TaskMarkdownSource where
  path := "intro.md"
  text := Markdown.units
    "---\nref: docs/intro\ntitle: Intro\npriority: high\n---\n# Intro\n"

def editedOutcome (s : AuthoringState) :
    Option (List (TaskRef × ImportAction)) × Option String :=
  let after := importTaskMarkdownSources DateApi.epoch 2 digestText [editedIntro]
    false "human" s
  (after.1.toOption.map fun results => results.map fun r => (r.ref, r.action),
    (after.2.specs.getTask "docs/intro").bind fun task =>
      task.latest.metadata.textOf "description")

theorem editedOutcome_run :
    ((authoringSystem DateApi.epoch digestText).run {} [(1, createIntro)]).map
      editedOutcome = some (some [("docs/intro", .revised)], some "Why") := by
  decide +kernel

theorem exists_edited : ∃ s t results,
    (authoringSystem DateApi.epoch digestText).Reachable s ∧
      importTaskMarkdownSources DateApi.epoch 2 digestText [editedIntro] false
        "human" s = (.ok results, t) ∧
      results.map (fun r => (r.ref, r.action)) = [("docs/intro", .revised)] ∧
      ∃ task, t.specs.getTask "docs/intro" = some task ∧
        task.latest.metadata.textOf "description" = some "Why" := by
  obtain ⟨s, hrun, hs⟩ :=
    (authoringSystem DateApi.epoch digestText).exists_run_of_map editedOutcome_run
  have hreach := (System.Reachable.initial (M := authoringSystem DateApi.epoch
    digestText) rfl).run hrun
  unfold editedOutcome at hs
  generalize himport : importTaskMarkdownSources DateApi.epoch 2 digestText
    [editedIntro] false "human" s = after at hs
  obtain ⟨r, t⟩ := after
  simp only [Prod.mk.injEq, Option.map_eq_some_iff, Option.bind_eq_some_iff] at hs
  obtain ⟨⟨results, hok, hresults⟩, htask⟩ := hs
  cases r with
  | error e => cases hok
  | ok found =>
      cases hok
      exact ⟨s, t, results, hreach, himport, hresults, htask⟩

theorem import_all_or_nothing_edited :
    ∃ s t results, (authoringSystem DateApi.epoch digestText).Reachable s ∧
      importTaskMarkdownSources DateApi.epoch 2 digestText [editedIntro] false
        "human" s = (.ok results, t) ∧
      (((∃ e, (.ok results : Except DomainError (List TaskImportResult)) =
          .error e) ∧ t = s) ∨ ∃ specs entries,
        readSpecs digestText false [editedIntro] = .ok specs ∧
          (.ok results : Except DomainError (List TaskImportResult)) =
            .ok (entries.map Entry.result) ∧
          Imported DateApi.epoch 2 "human" s t specs entries) := by
  obtain ⟨s, t, results, hreach, himport, -, -⟩ := exists_edited
  exact ⟨s, t, results, hreach, himport, import_all_or_nothing hreach himport⟩

/--
No file states a description, so every file omits it; the task keeps the one it has.
-/
theorem import_keeps_description : ¬ ∀ (s t : AuthoringState)
    (sources : List TaskMarkdownSource) (results : List TaskImportResult),
    (authoringSystem DateApi.epoch digestText).Reachable s →
    importTaskMarkdownSources DateApi.epoch 2 digestText sources false "human" s =
      (.ok results, t) →
    ∀ result ∈ results, ∀ task, t.specs.getTask result.ref = some task →
      task.latest.metadata.textOf "description" = none := by
  intro hall
  obtain ⟨s, t, results, hreach, himport, hresults, task, htask, hdescription⟩ :=
    exists_edited
  have hmem : (("docs/intro", .revised) : TaskRef × ImportAction) ∈
      results.map fun r => (r.ref, r.action) := by
    rw [hresults]
    exact List.mem_cons_self
  obtain ⟨result, hresult, hpair⟩ := List.mem_map.mp hmem
  rw [Prod.mk.injEq] at hpair
  rw [← hpair.1] at htask
  rw [hall s t _ _ hreach himport result hresult task htask] at hdescription
  cases hdescription

end OrcState.Authoring
