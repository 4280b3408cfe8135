import OrcState.Store.Revisions
import OrcState.Store.TransitionHistory
import Mathlib.Data.List.TakeWhile
import Mathlib.Data.String.Basic

/-!
# Revisions lose no edit

Whatever editors and workers do, the revisions of a task are numbered in order,
none is rewritten, an accepted change names the latest one, and a run keeps the
revision it was bound to.  An edit equal to the current content is recognised by
the text of its metadata, so it is left out only where equal metadata has equal
text: the condition under which no edit that changes nothing makes a revision.
-/

namespace OrcState.Store

open OrcState.Contract OrcState.Foundation

variable {s s' : SpecStore} {now : String} {u : Unit}

/-! ## The metadata of a revision -/

theorem get_assign (metadata : Metadata) (key : String) (value : MetadataValue)
    (k : String) :
    (metadata.assign key value).get k =
      if k = key then some value else metadata.get k := by
  rw [Metadata.get, Metadata.assign, Table.find?_upsert]
  split <;> rfl

theorem get_priority (spec : TaskSpec) :
    (revisionMetadata spec).get "priority" = some (.text spec.priority.text) := by
  simp [revisionMetadata, get_assign]

theorem get_requiredProvider (spec : TaskSpec) :
    (revisionMetadata spec).get "required_provider" =
      some (providerValue spec.requiredProvider) := by
  simp [revisionMetadata, get_assign]

theorem get_dependsOn (spec : TaskSpec) :
    (revisionMetadata spec).get "depends_on" =
      some (.texts spec.dependsOn) := by
  simp [revisionMetadata, get_assign]

theorem get_revisionMetadata (content : TaskSpec) {key : String}
    (h : indexedKey key = false) :
    (revisionMetadata content).get key = content.metadata.get key := by
  have hne : ∀ k ∈ indexedMetadataKeys, key ≠ k := by
    rintro k hk rfl
    rw [indexedKey, List.contains_iff_mem.mpr hk] at h
    cases h
  rw [revisionMetadata, get_assign, if_neg (hne _ (by decide)), get_assign,
    if_neg (hne _ (by decide)), get_assign, if_neg (hne _ (by decide))]

theorem priority_text_injective : Function.Injective TaskPriority.text := by
  intro a b h
  cases a <;> cases b <;> first | rfl | exact absurd h (by decide)

theorem providerValue_injective : Function.Injective providerValue := by
  rintro (_ | a) (_ | b) h
  · rfl
  · cases h
  · cases h
  · cases a <;> cases b <;>
      first | rfl | exact absurd (MetadataValue.text.inj h) (by decide)

def indexedFields (priority : TaskPriority)
    (requiredProvider : Option TaskProvider) (dependsOn : List TaskRef) :
    List MetadataField :=
  [("priority", .text priority.text),
    ("required_provider", providerValue requiredProvider),
    ("depends_on", .texts dependsOn)]

/--
The indexed fields that the metadata names stand last, in the order of the keys:
they then keep their places when a revision overwrites them.
-/
def IndexedLast (metadata : Metadata) : Prop :=
  (metadata.rows.dropWhile fun field => !indexedKey field.1).map Prod.fst <+:
    indexedMetadataKeys

instance (metadata : Metadata) : Decidable (IndexedLast metadata) :=
  inferInstanceAs (Decidable (_ <+: _))

def assigned (fields : List MetadataField) (field : MetadataField) :
    List MetadataField :=
  if field.1 ∈ fields.map Prod.fst then
    fields.map fun old => if old.1 = field.1 then field else old
  else fields ++ [field]

theorem rows_assign (metadata : Metadata) (key : String)
    (value : MetadataValue) :
    (metadata.assign key value).rows = assigned metadata.rows (key, value) := rfl

theorem assigned_append {front back : List MetadataField} {field : MetadataField}
    (h : field.1 ∉ front.map Prod.fst) :
    assigned (front ++ back) field = front ++ assigned back field := by
  have hfront : front.map (fun old => if old.1 = field.1 then field else old) =
      front := by
    refine (List.map_congr_left fun old hold => ?_).trans (List.map_id front)
    have hne : old.1 ≠ field.1 := by
      intro heq
      exact h (heq ▸ List.mem_map_of_mem hold)
    rw [if_neg hne]
    rfl
  have hmem : field.1 ∈ (front ++ back).map Prod.fst ↔
      field.1 ∈ back.map Prod.fst := by
    rw [List.map_append, List.mem_append, or_iff_right h]
  unfold assigned
  by_cases hback : field.1 ∈ back.map Prod.fst
  · rw [if_pos (hmem.mpr hback), if_pos hback, List.map_append, hfront]
  · rw [if_neg fun hin => hback (hmem.mp hin), if_neg hback, List.append_assoc]

theorem revisionMetadata_rows {spec : TaskSpec}
    (h : IndexedLast spec.metadata) :
    (revisionMetadata spec).rows = spec.metadata.base.rows ++
      indexedFields spec.priority spec.requiredProvider spec.dependsOn := by
  let plain : MetadataField → Bool := fun field => !indexedKey field.1
  have hsplit : spec.metadata.rows = spec.metadata.rows.takeWhile plain ++
      spec.metadata.rows.dropWhile plain := List.takeWhile_append_dropWhile.symm
  have hfront : ∀ field ∈ spec.metadata.rows.takeWhile plain,
      plain field = true := List.all_eq_true.mp List.all_takeWhile
  change (spec.metadata.rows.dropWhile plain).map Prod.fst <+: _ at h
  have hbase : spec.metadata.base.rows =
      spec.metadata.rows.filter plain := rfl
  generalize spec.metadata.rows.takeWhile plain = front at hsplit hfront
  generalize spec.metadata.rows.dropWhile plain = back at hsplit h
  have hkey : ∀ key, indexedKey key = true → key ∉ front.map Prod.fst := by
    intro key hindexed hmem
    obtain ⟨field, hfield, rfl⟩ := List.mem_map.mp hmem
    have hplain := hfront field hfield
    simp only [plain, hindexed] at hplain
    cases hplain
  -- What is left after the front is a first part of the indexed keys.
  have hcases : back.filter plain = [] ∧
      assigned (assigned (assigned back ("priority", .text spec.priority.text))
        ("required_provider", providerValue spec.requiredProvider))
        ("depends_on", .texts spec.dependsOn) =
      indexedFields spec.priority spec.requiredProvider spec.dependsOn := by
    rcases back with _ | ⟨⟨a, x⟩, _ | ⟨⟨b, y⟩, _ | ⟨⟨c, z⟩, _ | ⟨d, rest⟩⟩⟩⟩
    · exact ⟨rfl, rfl⟩
    · simp [indexedMetadataKeys] at h
      subst h
      exact ⟨rfl, rfl⟩
    · simp [indexedMetadataKeys] at h
      obtain ⟨rfl, rfl⟩ := h
      exact ⟨rfl, rfl⟩
    · simp [indexedMetadataKeys] at h
      obtain ⟨rfl, rfl, rfl⟩ := h
      exact ⟨rfl, rfl⟩
    · have hlength := h.length_le
      simp only [indexedMetadataKeys, List.length_map, List.length_cons,
        List.length_nil] at hlength
      omega
  rw [hbase, hsplit, List.filter_append, hcases.1, List.append_nil,
    List.filter_eq_self.mpr hfront, revisionMetadata, rows_assign, rows_assign,
    rows_assign, hsplit, assigned_append (hkey _ rfl),
    assigned_append (hkey _ rfl), assigned_append (hkey _ rfl), hcases.2]

theorem base_revisionMetadata {spec : TaskSpec}
    (h : IndexedLast spec.metadata) :
    (revisionMetadata spec).base = spec.metadata.base := by
  refine Table.ext ?_
  have hfilter : (revisionMetadata spec).base.rows =
      (revisionMetadata spec).rows.filter fun field => !indexedKey field.1 := rfl
  have hindexed : (indexedFields spec.priority spec.requiredProvider
      spec.dependsOn).filter (fun field => !indexedKey field.1) = [] := rfl
  rw [hfilter, revisionMetadata_rows h, List.filter_append, hindexed,
    List.append_nil]
  exact List.filter_eq_self.mpr fun field hfield =>
    (List.mem_filter.mp hfield).2

theorem base_base (metadata : Metadata) : metadata.base.base = metadata.base := by
  refine Table.ext (List.filter_eq_self.mpr fun field hfield => ?_)
  exact (List.mem_filter.mp hfield).2

theorem indexedLast_base (metadata : Metadata) : IndexedLast metadata.base := by
  have hnone : metadata.base.rows.dropWhile (fun field => !indexedKey field.1) =
      [] := by
    rw [List.dropWhile_eq_nil_iff]
    exact fun field hfield => (List.mem_filter.mp hfield).2
  rw [IndexedLast, hnone]
  exact List.nil_prefix

/-! ## What an accepted operation does -/

def authored (s : SpecStore) (rows : Table TaskRef TaskRow TaskRow.ref)
    (ref : TaskRef) (revision : Nat) (spec : TaskSpec) (now : String) :
    SpecStore :=
  { s with
    rows := rows
    revisions := s.revisions ++ [SpecStore.pinned ref revision spec now]
    dependencies := (s.dependencies.filter fun d => d.taskRef ≠ ref) ++
      spec.dependsOn.map (TaskDependency.mk ref) }

theorem insertRow_ok {row : TaskRow} (h : SpecStore.insertRow row s =
    .ok (u, s')) : ∃ rows, s.rows.insertOrdered? SpecStore.rowBefore row =
      some rows ∧ s' = { s with rows := rows } := by
  simp only [SpecStore.insertRow, Txn.bind_ok, Txn.get_ok, Txn.orThrow_ok,
    Txn.throwIf_ok, Txn.set_ok] at h
  obtain ⟨_, _, ⟨rfl, rfl⟩, _, _, ⟨-, rfl⟩, _, _, ⟨-, rfl⟩, rows, _,
    ⟨hrows, rfl⟩, rfl⟩ := h
  exact ⟨rows, hrows, rfl⟩

theorem insertRevision_ok {ref : TaskRef} {revision : Nat} {spec : TaskSpec}
    (h : SpecStore.insertRevision ref revision spec now s = .ok (u, s')) :
    s' = { s with
      revisions := s.revisions ++ [SpecStore.pinned ref revision spec now] } := by
  simp only [SpecStore.insertRevision, Txn.bind_ok, Txn.get_ok, Txn.throwIf_ok,
    Txn.set_ok] at h
  obtain ⟨_, _, ⟨rfl, rfl⟩, _, _, ⟨-, rfl⟩, _, _, ⟨-, rfl⟩, rfl⟩ := h
  rfl

theorem replaceDependencies_ok {ref : TaskRef} {dependsOn : List TaskRef}
    (h : SpecStore.replaceDependencies ref dependsOn s = .ok (u, s')) :
    dependsOn.Nodup ∧ s' = { s with
      dependencies := (s.dependencies.filter fun d => d.taskRef ≠ ref) ++
        dependsOn.map (TaskDependency.mk ref) } := by
  simp only [SpecStore.replaceDependencies, Txn.bind_ok, Txn.throwIf_ok,
    Txn.modify_ok] at h
  obtain ⟨_, _, ⟨-, rfl⟩, _, _, ⟨-, rfl⟩, _, _, ⟨hnodup, rfl⟩, rfl⟩ := h
  exact ⟨not_not.mp hnodup, rfl⟩

theorem createTask_first {input : TaskSpecInput}
    (h : SpecStore.createTask input now s = .ok (u, s')) :
    ∃ spec rows, firstSpec input s = .ok (spec, s) ∧
      s.rows.find? input.ref = none ∧ spec.dependsOn.Nodup ∧
      s.rows.insertOrdered? SpecStore.rowBefore (SpecStore.newRow input.ref spec
        (input.createdAt.getD now)) = some rows ∧
      s' = authored s rows input.ref 1 spec (input.createdAt.getD now) := by
  simp only [SpecStore.createTask, Txn.bind_ok, Txn.get_ok, Txn.throwIf_ok] at h
  obtain ⟨spec, _, hspec, _, _, ⟨rfl, rfl⟩, _, _, ⟨hfresh, rfl⟩, _, m, hrow, _,
    n, hrevision, hdeps⟩ := h
  cases (firstSpec_ok hspec).1
  obtain ⟨rows, hrows, rfl⟩ := insertRow_ok hrow
  cases insertRevision_ok hrevision
  obtain ⟨hnodup, rfl⟩ := replaceDependencies_ok hdeps
  exact ⟨spec, rows, hspec, by simpa using hfresh, hnodup, hrows, rfl⟩

theorem createTask_authored {input : TaskSpecInput}
    (h : SpecStore.createTask input now s = .ok (u, s')) :
    ∃ spec rows, spec.metadata = input.metadata ∧
      spec.dependsOn = (input.dependsOn.eraseDups.insertionSort
        fun a b => jsLe a b = true) ∧
      s.rows.find? input.ref = none ∧ spec.dependsOn.Nodup ∧
      s.rows.insertOrdered? SpecStore.rowBefore (SpecStore.newRow input.ref spec
        (input.createdAt.getD now)) = some rows ∧
      s' = authored s rows input.ref 1 spec (input.createdAt.getD now) := by
  obtain ⟨spec, rows, hspec, hrest⟩ := createTask_first h
  obtain ⟨-, hmetadata, hdependsOn⟩ := firstSpec_ok hspec
  exact ⟨spec, rows, hmetadata, hdependsOn, hrest⟩

theorem revised_ok {σ : Type} {changes : TaskSpecChanges}
    {current : SpecStore.CurrentTask} {spec : TaskSpec} {t t' : σ}
    (h : SpecStore.revised changes current t = .ok (spec, t')) :
    t' = t ∧ spec.metadata =
        changes.metadata.getD current.latest.metadata.base ∧
      spec.dependsOn = (changes.dependsOn.map fun dependsOn =>
        dependsOn.eraseDups.insertionSort fun a b => jsLe a b = true).getD
          current.dependsOn := by
  simp only [SpecStore.revised, Txn.bind_ok, Txn.throwIf_ok, Txn.pure_ok] at h
  obtain ⟨_, _, ⟨-, rfl⟩, dependsOn, _, hdeps, rfl, rfl⟩ := h
  unfold SpecStore.revisedDependencies at hdeps
  cases hgiven : changes.dependsOn with
  | none =>
      rw [hgiven] at hdeps
      obtain ⟨rfl, rfl⟩ := Txn.pure_ok.mp hdeps
      exact ⟨rfl, rfl, rfl⟩
  | some given =>
      rw [hgiven] at hdeps
      obtain ⟨rfl, rfl⟩ := normalizeDependencies_ok hdeps
      exact ⟨rfl, rfl, rfl⟩

def revisedState (s : SpecStore) (ref : TaskRef) (revision : Nat)
    (spec : TaskSpec) (now : String) : SpecStore :=
  authored s (s.rows.update ref (SpecStore.reviseRow spec now)
    (SpecStore.reviseRow_ref spec now)) ref revision spec now

theorem reviseTask_authored {ref : TaskRef} {expectedRevision : Int}
    {changes : TaskSpecChanges} {changed : Bool}
    (h : SpecStore.reviseTask ref expectedRevision changes now s =
      .ok (changed, s')) :
    ∃ current spec, s.getTask ref = some current ∧
      SpecStore.revised changes current s = .ok (spec, s) ∧
      (SpecStore.unchanged spec current = true ∧ changed = false ∧ s' = s ∨
        SpecStore.unchanged spec current = false ∧ changed = true ∧
        (current.latest.revision : Int) = expectedRevision ∧
        spec.dependsOn.Nodup ∧
        s' = revisedState s ref (current.latest.revision + 1) spec now) := by
  simp only [SpecStore.reviseTask, Txn.bind_ok, Txn.get_ok, Txn.throwIf_ok,
    Txn.orThrow_ok] at h
  obtain ⟨_, _, ⟨-, rfl⟩, _, _, ⟨rfl, rfl⟩, current, _, ⟨hcurrent, rfl⟩, spec,
    _, hspec, h⟩ := h
  cases (revised_ok hspec).1
  refine ⟨current, spec, hcurrent, hspec, ?_⟩
  split at h
  · rename_i hunchanged
    obtain ⟨rfl, rfl⟩ := Txn.pure_ok.mp h
    exact .inl ⟨hunchanged, rfl, rfl⟩
  · rename_i hchanged
    simp only [Txn.bind_ok, Txn.throwIf_ok, SpecStore.updateRow, Txn.modify_ok,
      Txn.pure_ok] at h
    obtain ⟨_, _, ⟨hbase, rfl⟩, _, m, hrevision, _, _, rfl, _, n, hdeps, rfl,
      rfl⟩ := h
    cases insertRevision_ok hrevision
    obtain ⟨hnodup, rfl⟩ := replaceDependencies_ok hdeps
    exact .inr ⟨by simpa using hchanged, rfl, not_not.mp hbase, hnodup, rfl⟩

theorem onRuntime_ok {α : Type} {x : Tasks α} {a : α}
    (h : SpecStore.onRuntime x s = .ok (a, s')) :
    ∃ ts, x s.view = .ok (a, ts) ∧ s' = s.withRuntime ts := by
  unfold SpecStore.onRuntime at h
  split at h
  · rename_i b ts hx
    cases h
    exact ⟨ts, hx, rfl⟩
  · cases h

/-! ## The tables agree -/

/-- The row and the dependencies are those the revision's metadata records. -/
structure Described (s : SpecStore) (row : TaskRow) (latest : TaskSpecRevision) :
    Prop where
  title : latest.title = row.title
  priority : latest.metadata.get "priority" = some (.text row.priority.text)
  requiredProvider : latest.metadata.get "required_provider" =
    some (providerValue row.requiredProvider)
  dependsOn : ∃ refs, latest.metadata.get "depends_on" = some (.texts refs) ∧
    ∀ d, d ∈ refs ↔ d ∈ s.dependenciesOf row.ref

structure Consistent (s : SpecStore) : Prop where
  known : ∀ r ∈ s.revisions, (s.rows.find? r.taskRef).isSome = true
  numbered : ∀ ref, Numbered TaskSpecRevision.revision (s.revisionsOf ref)
  described : ∀ ref row, s.rows.find? ref = some row →
    ∃ latest, s.latestRevision ref = some latest ∧
      latest.revision = (s.revisionsOf ref).length ∧ Described s row latest
  distinct : ∀ ref, (s.dependenciesOf ref).Nodup

theorem Consistent.empty : Consistent {} where
  known r hr := absurd hr List.not_mem_nil
  numbered ref := Numbered.nil
  described ref row hrow := by cases hrow
  distinct ref := List.nodup_nil

theorem Consistent.latest_eq (h : Consistent s) (ref : TaskRef) :
    s.latestRevision ref = (s.revisionsOf ref).getLast? :=
  (h.numbered ref).find?_greatest

theorem Consistent.fresh (h : Consistent s) {ref : TaskRef}
    (hfresh : s.rows.find? ref = none) : s.revisionsOf ref = [] := by
  refine List.filter_eq_nil_iff.mpr fun r hr => ?_
  have hknown := h.known r hr
  simp only [decide_eq_true_eq]
  rintro rfl
  rw [hfresh] at hknown
  cases hknown

theorem revisionsOf_authored (s : SpecStore)
    (rows : Table TaskRef TaskRow TaskRow.ref) (ref : TaskRef) (revision : Nat)
    (spec : TaskSpec) (now : String) (r : TaskRef) :
    (authored s rows ref revision spec now).revisionsOf r =
      if ref = r then
        s.revisionsOf r ++ [SpecStore.pinned ref revision spec now]
      else s.revisionsOf r := by
  have hrow : (SpecStore.pinned ref revision spec now).taskRef = ref := rfl
  rw [SpecStore.revisionsOf, authored, List.filter_append]
  split
  · rename_i h
    subst h
    simp [SpecStore.revisionsOf, hrow]
  · rename_i h
    simp [SpecStore.revisionsOf, hrow, h]

theorem dependenciesOf_authored (s : SpecStore)
    (rows : Table TaskRef TaskRow TaskRow.ref) (ref : TaskRef) (revision : Nat)
    (spec : TaskSpec) (now : String) (r : TaskRef) :
    (authored s rows ref revision spec now).dependenciesOf r =
      if r = ref then spec.dependsOn.insertionSort (· ≤ ·)
      else s.dependenciesOf r := by
  have hnew : ∀ d ∈ spec.dependsOn.map (TaskDependency.mk ref),
      d.taskRef = ref := by
    intro d hd
    obtain ⟨_, -, rfl⟩ := List.mem_map.mp hd
    rfl
  unfold SpecStore.dependenciesOf authored
  rw [List.filter_append, List.filter_filter]
  split
  · rename_i hr
    subst hr
    have hold : (s.dependencies.filter fun d =>
        decide (d.taskRef = r) && decide (d.taskRef ≠ r)) = [] := by
      rw [List.filter_eq_nil_iff]
      intro d _ hd
      simp at hd
    have hkept : (spec.dependsOn.map (TaskDependency.mk r)).filter
        (fun d => d.taskRef = r) = spec.dependsOn.map (TaskDependency.mk r) :=
      List.filter_eq_self.mpr fun d hd => by simpa using hnew d hd
    rw [hold, hkept, List.nil_append, List.map_map]
    congr 1
    exact List.map_id _
  · rename_i hr
    have hold : (s.dependencies.filter fun d =>
        decide (d.taskRef = r) && decide (d.taskRef ≠ ref)) =
        s.dependencies.filter fun d => d.taskRef = r := by
      refine List.filter_congr fun d _ => ?_
      by_cases hd : d.taskRef = r
      · simp [hd, hr]
      · simp [hd]
    have hnone : (spec.dependsOn.map (TaskDependency.mk ref)).filter
        (fun d => d.taskRef = r) = [] := by
      rw [List.filter_eq_nil_iff]
      intro d hd
      rw [hnew d hd]
      simpa using Ne.symm hr
    rw [hold, hnone, List.append_nil]

theorem latestRevision_authored {rows : Table TaskRef TaskRow TaskRow.ref}
    {ref : TaskRef} {revision : Nat} {spec : TaskSpec}
    (h : Consistent (authored s rows ref revision spec now)) :
    (authored s rows ref revision spec now).latestRevision ref =
      some (SpecStore.pinned ref revision spec now) := by
  rw [h.latest_eq, revisionsOf_authored, if_pos rfl, List.getLast?_concat]

theorem Consistent.authored (h : Consistent s)
    {rows : Table TaskRef TaskRow TaskRow.ref} {ref : TaskRef} {revision : Nat}
    {spec : TaskSpec} {row : TaskRow}
    (hrows : ∀ r, rows.find? r = if r = ref then some row else s.rows.find? r)
    (hrow : row.title = spec.title ∧ row.priority = spec.priority ∧
      row.requiredProvider = spec.requiredProvider ∧ row.ref = ref)
    (hnumber : revision = (s.revisionsOf ref).length + 1)
    (hnodup : spec.dependsOn.Nodup) :
    Consistent (authored s rows ref revision spec now) := by
  have hnumbered : ∀ r, Numbered TaskSpecRevision.revision
      ((Store.authored s rows ref revision spec now).revisionsOf r) := by
    intro r
    rw [revisionsOf_authored]
    split
    · rename_i hr
      subst hr
      exact (h.numbered _).snoc hnumber
    · exact h.numbered r
  refine ⟨fun r hr => ?_, hnumbered, fun r row' hrow' => ?_, fun r => ?_⟩
  · change (rows.find? r.taskRef).isSome = true
    rw [hrows]
    split
    · rfl
    · rename_i hne
      rcases List.mem_append.mp hr with hold | hnew
      · exact h.known r hold
      · cases List.mem_singleton.mp hnew
        exact absurd rfl hne
  · change rows.find? r = some row' at hrow'
    rw [hrows] at hrow'
    have hlatest : (Store.authored s rows ref revision spec now).latestRevision
        r = _ := (hnumbered r).find?_greatest
    rw [hlatest, revisionsOf_authored]
    by_cases hr : r = ref
    · subst hr
      rw [if_pos rfl] at hrow' ⊢
      cases hrow'
      obtain ⟨htitle, hpriority, hprovider, hkey⟩ := hrow
      refine ⟨_, List.getLast?_concat, ?_, htitle.symm, ?_, ?_, ?_⟩
      · rw [List.length_append, List.length_singleton]
        exact hnumber
      · rw [hpriority]
        exact get_priority spec
      · rw [hprovider]
        exact get_requiredProvider spec
      · refine ⟨spec.dependsOn, get_dependsOn spec, fun d => ?_⟩
        rw [hkey, dependenciesOf_authored, if_pos rfl]
        exact (List.mem_insertionSort _).symm
    · rw [if_neg hr] at hrow'
      rw [if_neg (Ne.symm hr)]
      obtain ⟨latest, hlast, hlength, htitle, hpriority, hprovider, refs, hrefs,
        hmem⟩ := h.described r row' hrow'
      refine ⟨latest, h.latest_eq r ▸ hlast, hlength, htitle, hpriority,
        hprovider, refs, hrefs, fun d => ?_⟩
      have hkey : row'.ref = r := Table.key_of_find? hrow'
      rw [hmem, hkey, dependenciesOf_authored, if_neg hr]
  · rw [dependenciesOf_authored]
    split
    · exact (List.perm_insertionSort _ _).nodup_iff.mpr hnodup
    · exact h.distinct r

theorem getTask_eq_some {ref : TaskRef} {current : SpecStore.CurrentTask} :
    s.getTask ref = some current ↔ s.rows.find? ref = some current.row ∧
      s.latestRevision ref = some current.latest ∧
      s.dependenciesOf ref = current.dependsOn := by
  simp only [SpecStore.getTask, Option.bind_eq_bind, Option.bind_eq_some_iff,
    Option.pure_def, Option.some.injEq]
  constructor
  · rintro ⟨row, hrow, latest, hlatest, rfl⟩
    exact ⟨hrow, hlatest, rfl⟩
  · rintro ⟨hrow, hlatest, hdeps⟩
    exact ⟨_, hrow, _, hlatest, by rw [hdeps]⟩

theorem Consistent.current (h : Consistent s) {ref : TaskRef}
    {current : SpecStore.CurrentTask} (hcurrent : s.getTask ref = some current) :
    current.latest.revision = (s.revisionsOf ref).length := by
  obtain ⟨hrow, hlatest, -⟩ := getTask_eq_some.mp hcurrent
  obtain ⟨latest, hlast, hlength, -⟩ := h.described ref _ hrow
  rw [hlatest] at hlast
  cases hlast
  exact hlength

theorem find?_revised {ref : TaskRef} {current : SpecStore.CurrentTask}
    (spec : TaskSpec) (now : String) (hcurrent : s.getTask ref = some current)
    (r : TaskRef) :
    (s.rows.update ref (SpecStore.reviseRow spec now)
      (SpecStore.reviseRow_ref spec now)).find? r =
      if r = ref then some (SpecStore.reviseRow spec now current.row)
      else s.rows.find? r := by
  rw [Table.find?_update]
  split
  · rename_i hr
    rw [hr, (getTask_eq_some.mp hcurrent).1]
    rfl
  · rfl

theorem Consistent.revisedState (h : Consistent s) {ref : TaskRef}
    {current : SpecStore.CurrentTask} {spec : TaskSpec}
    (hcurrent : s.getTask ref = some current) (hnodup : spec.dependsOn.Nodup) :
    Consistent (revisedState s ref (current.latest.revision + 1) spec now) := by
  have href : current.row.ref = ref :=
    Table.key_of_find? (getTask_eq_some.mp hcurrent).1
  exact h.authored (find?_revised spec now hcurrent) ⟨rfl, rfl, rfl, href⟩
    (by rw [h.current hcurrent]) hnodup

theorem find?_withRuntime (ts : TaskStore) (ref : TaskRef) :
    (s.withRuntime ts).rows.find? ref =
      (s.rows.find? ref).map (SpecStore.settle ts) :=
  Table.find?_map _ _ (SpecStore.settle_ref ts) ref

theorem settle_content (ts : TaskStore) (row : TaskRow) :
    (SpecStore.settle ts row).title = row.title ∧
      (SpecStore.settle ts row).priority = row.priority ∧
      (SpecStore.settle ts row).requiredProvider = row.requiredProvider := by
  unfold SpecStore.settle
  split <;> exact ⟨rfl, rfl, rfl⟩

theorem Consistent.withRuntime (h : Consistent s) (ts : TaskStore) :
    Consistent (s.withRuntime ts) := by
  refine ⟨fun r hr => ?_, h.numbered, fun ref row hrow => ?_, h.distinct⟩
  · rw [find?_withRuntime, Option.isSome_map]
    exact h.known r hr
  · rw [find?_withRuntime] at hrow
    obtain ⟨old, hold, rfl⟩ := Option.map_eq_some_iff.mp hrow
    obtain ⟨latest, hlast, hlength, htitle, hpriority, hprovider, refs, hrefs,
      hmem⟩ := h.described ref old hold
    obtain ⟨hsame, hsame', hsame''⟩ := settle_content ts old
    refine ⟨latest, hlast, hlength, htitle.trans hsame.symm, hsame' ▸ hpriority,
      hsame'' ▸ hprovider, refs, hrefs, fun d => ?_⟩
    rw [hmem, SpecStore.settle_ref]
    rfl

/-! ## Every accepted operation -/

inductive Written (s s' : SpecStore) (now : String) : SpecOp → Prop
  | created {input : TaskSpecInput} {spec : TaskSpec}
      {rows : Table TaskRef TaskRow TaskRow.ref}
      (hmetadata : spec.metadata = input.metadata)
      (hdependsOn : spec.dependsOn = input.dependsOn.eraseDups.insertionSort
        fun a b => jsLe a b = true)
      (hfresh : s.rows.find? input.ref = none) (hnodup : spec.dependsOn.Nodup)
      (hrows : s.rows.insertOrdered? SpecStore.rowBefore (SpecStore.newRow
        input.ref spec (input.createdAt.getD now)) = some rows)
      (hs : s' = authored s rows input.ref 1 spec (input.createdAt.getD now)) :
      Written s s' now (.createTask input)
  | revised {ref : TaskRef} {e : Int} {changes : TaskSpecChanges}
      {current : SpecStore.CurrentTask} {spec : TaskSpec}
      (hcurrent : s.getTask ref = some current)
      (hspec : SpecStore.revised changes current s = .ok (spec, s))
      (hchanged : SpecStore.unchanged spec current = false)
      (hbase : (current.latest.revision : Int) = e)
      (hnodup : spec.dependsOn.Nodup)
      (hs : s' = revisedState s ref (current.latest.revision + 1) spec now) :
      Written s s' now (.reviseTask ref e changes)
  | settled {op : SpecOp} {ts : TaskStore} (hruns : RunsKept s.view ts)
      (hs : s' = s.withRuntime ts) : Written s s' now op

theorem written (op : SpecOp) (hop : op.enabled = true)
    (h : op.perform now s = .ok (u, s')) : s' = s ∨ Written s s' now op := by
  cases op with
  | createTask input =>
      obtain ⟨spec, rows, hmetadata, hdependsOn, hfresh, hnodup, hrows, hs⟩ :=
        createTask_authored h
      exact .inr (.created hmetadata hdependsOn hfresh hnodup hrows hs)
  | reviseTask ref e changes =>
      obtain ⟨changed, h⟩ := Txn.discard_ok.mp h
      obtain ⟨current, spec, hcurrent, hspec, ⟨-, -, hs⟩ |
        ⟨hchanged, -, hbase, hnodup, hs⟩⟩ := reviseTask_authored h
      · exact .inl hs
      · exact .inr (.revised hcurrent hspec hchanged hbase hnodup hs)
  | claimTask ref runId agentId =>
      obtain ⟨pinned, h⟩ := Txn.discard_ok.mp h
      obtain ⟨ts, hclaim, hs⟩ := onRuntime_ok h
      have hmoves : StoreMoves true s.view ts := claimTask_moves hclaim
      exact .inr (.settled hmoves.runsKept hs)
  | lifecycle op =>
      obtain ⟨ts, hperform, hs⟩ := onRuntime_ok h
      have hmoves : StoreMoves true s.view ts :=
        StoreOp.perform_moves op (fun _ => rfl) hperform
      exact .inr (.settled hmoves.runsKept hs)

theorem Consistent.written (h : Consistent s) {op : SpecOp}
    (hw : Written s s' now op) : Consistent s' := by
  cases hw with
  | created _ _ hfresh hnodup hrows hs =>
      subst hs
      exact h.authored (Table.find?_insertOrdered? hrows) ⟨rfl, rfl, rfl, rfl⟩
        (by rw [h.fresh hfresh]; rfl) hnodup
  | revised hcurrent _ _ _ hnodup hs =>
      subst hs
      exact h.revisedState hcurrent hnodup
  | settled _ hs =>
      subst hs
      exact h.withRuntime _

/-- A step is an accepted operation, or the store is as it was. -/
theorem specStep_cases {op : String × SpecOp}
    (h : specSystem.step s op = some s') :
    s' = s ∨ Written s s' op.1 op.2 ∧ op.2.perform op.1 s = .ok ((), s') := by
  simp only [specSystem] at h
  split at h
  · rename_i hop
    cases h
    rcases Txn.commit_cases (op.2.perform op.1) s with ⟨_, hok⟩ | hsame
    · rcases written op.2 hop hok with hs | hw
      · exact .inl hs
      · exact .inr ⟨hw, hok⟩
    · exact .inl hsame
  · cases h

theorem Consistent.reachable (h : specSystem.Reachable s) : Consistent s := by
  refine h.invariant (fun _ hinit => hinit ▸ Consistent.empty) ?_
  intro s op s' hs hstep
  rcases specStep_cases hstep with rfl | ⟨hw, -⟩
  · exact hs
  · exact hs.written hw

/-! ## Run bindings -/

theorem Consistent.getRevision (h : Consistent s) {ref : TaskRef}
    {latest : TaskSpecRevision} (hlatest : s.latestRevision ref = some latest) :
    s.getRevision ref latest.revision = some latest := by
  have hmem : latest ∈ s.revisionsOf ref := List.mem_of_find?_eq_some hlatest
  obtain ⟨hin, href⟩ := List.mem_filter.mp hmem
  obtain ⟨found, hfound⟩ : ∃ found, s.getRevision ref latest.revision =
      some found := by
    refine Option.isSome_iff_exists.mp (List.find?_isSome.mpr ⟨latest, hin, ?_⟩)
    simpa using href
  have hwhere := List.find?_some hfound
  simp only [Bool.and_eq_true, decide_eq_true_eq] at hwhere
  have hfmem : found ∈ s.revisionsOf ref := List.mem_filter.mpr
    ⟨List.mem_of_find?_eq_some hfound, by simpa using hwhere.1⟩
  rw [hfound, (h.numbered ref).unique hfmem hmem hwhere.2]

theorem getTask_view {ref : TaskRef} {task : ProjectTask}
    (h : s.view.getTask ref = some task) : ∃ latest,
      s.latestRevision ref = some latest ∧ task.revision = latest.revision := by
  obtain ⟨hmem, rfl⟩ := Table.find?_eq_some.mp h
  obtain ⟨row, -, hjoin⟩ := List.mem_filterMap.mp hmem
  have href := SpecStore.join_ref hjoin
  obtain ⟨latest, hlatest, hjoined⟩ := Option.map_eq_some_iff.mp hjoin
  exact ⟨latest, href ▸ hlatest, by rw [← hjoined]; rfl⟩

theorem claimTask_binds {ts ts' : TaskStore} {ref : TaskRef} {runId : RunId}
    {agentId : AgentId} {pinned : ProjectTask}
    (h : TaskStore.claimTask ref runId agentId now ts = .ok (pinned, ts')) :
    ∃ task run, ts.getTask ref = some task ∧ run ∈ ts'.taskRuns ∧
      run.runId = runId ∧ run.taskRef = ref ∧
      run.specRevision = task.revision := by
  simp only [TaskStore.claimTask, Txn.bind_ok, Txn.get_ok, Txn.orThrow_ok,
    Txn.throwIf_ok] at h
  obtain ⟨_, _, ⟨rfl, rfl⟩, task, _, ⟨htask, rfl⟩, _, _, ⟨-, rfl⟩, _, _,
    ⟨-, rfl⟩, _, _, ⟨-, rfl⟩, _, m, hmove, hbind⟩ := h
  obtain ⟨task', htask', -, -, rfl⟩ := applyTransition_ok rfl hmove
  rw [htask] at htask'
  cases htask'
  simp only [bindRun, Txn.bind_ok, Txn.get_ok, Txn.orThrow_ok, Txn.set_ok,
    Txn.pure_ok] at hbind
  obtain ⟨_, _, ⟨rfl, rfl⟩, found, _, ⟨hfound, rfl⟩, _, _, rfl, _, _, hinsert,
    -, rfl⟩ := hbind
  obtain ⟨-, -, hmem⟩ := insertTaskRun_ok hinsert
  refine ⟨task, _, htask, (hmem _).mpr (.inr rfl), rfl, rfl, ?_⟩
  have href : task.ref = ref := Table.key_of_find? htask
  rw [TaskStore.getTask, transitioned_tasks, href,
    Table.find?_update_self htask] at hfound
  cases hfound
  rfl

theorem getRunSpec_authored {rows : Table TaskRef TaskRow TaskRow.ref}
    {ref : TaskRef} {revision : Nat} {spec : TaskSpec} {runId : RunId}
    {r : TaskSpecRevision} (h : s.getRunSpec runId = some r) :
    (authored s rows ref revision spec now).getRunSpec runId = some r := by
  simp only [SpecStore.getRunSpec, SpecStore.getRevision,
    Option.bind_eq_bind, Option.bind_eq_some_iff] at h ⊢
  obtain ⟨run, hrun, hfind⟩ := h
  refine ⟨run, hrun, ?_⟩
  rw [authored, List.find?_append, hfind]
  rfl

theorem getRunSpec_settled {ts : TaskStore} {runId : RunId}
    {r : TaskSpecRevision} (hruns : RunsKept s.view ts)
    (h : s.getRunSpec runId = some r) :
    (s.withRuntime ts).getRunSpec runId = some r := by
  simp only [SpecStore.getRunSpec, Option.bind_eq_bind,
    Option.bind_eq_some_iff] at h ⊢
  obtain ⟨run, hrun, hfind⟩ := h
  obtain ⟨hmem, hid⟩ := Table.find?_eq_some.mp hrun
  obtain ⟨run', hrun', hid', href, hspec⟩ := hruns run hmem
  refine ⟨run', Table.find?_eq_some.mpr ⟨hrun', hid'.trans hid⟩, ?_⟩
  rw [href, hspec]
  exact hfind

/-! ## Content -/

section Content

-- When two JSON texts denote one value, besides being the same.
variable (sameJson : String → String → Prop)

def SameValue : MetadataValue → MetadataValue → Prop
  | .json a, .json b => a = b ∨ sameJson a b
  | a, b => a = b

/-- The fields besides the indexed ones have the same values, in any order. -/
def SameMetadata (a b : Metadata) : Prop :=
  ∀ key, indexedKey key = false →
    Option.Rel (SameValue sameJson) (a.get key) (b.get key)

structure SameContent (spec : TaskSpec) (current : SpecStore.CurrentTask) :
    Prop where
  title : spec.title = current.row.title
  bodyMarkdown : spec.bodyMarkdown = current.latest.bodyMarkdown
  priority : spec.priority = current.row.priority
  requiredProvider : spec.requiredProvider = current.row.requiredProvider
  dependsOn : ∀ d, d ∈ spec.dependsOn ↔ d ∈ current.dependsOn
  metadata : SameMetadata sameJson spec.metadata current.latest.metadata

theorem fields_of_unchanged {spec : TaskSpec} {current : SpecStore.CurrentTask}
    (hunchanged : SpecStore.unchanged spec current = true)
    (hdescribed : Described s current.row current.latest)
    (hdeps : s.dependenciesOf current.row.ref = current.dependsOn) :
    spec.title = current.row.title ∧
      spec.bodyMarkdown = current.latest.bodyMarkdown ∧
      spec.priority = current.row.priority ∧
      spec.requiredProvider = current.row.requiredProvider ∧
      (∀ d, d ∈ spec.dependsOn ↔ d ∈ current.dependsOn) ∧
      ∀ key, indexedKey key = false →
        spec.metadata.get key = current.latest.metadata.get key := by
  simp only [SpecStore.unchanged, Bool.and_eq_true, decide_eq_true_eq]
    at hunchanged
  obtain ⟨⟨hmetadata, htitle⟩, hbody⟩ := hunchanged
  have hpriority := hdescribed.priority
  have hprovider := hdescribed.requiredProvider
  obtain ⟨refs, hrefs, hmem⟩ := hdescribed.dependsOn
  rw [← hmetadata, get_priority, Option.some.injEq, MetadataValue.text.injEq]
    at hpriority
  rw [← hmetadata, get_requiredProvider, Option.some.injEq] at hprovider
  rw [← hmetadata, get_dependsOn, Option.some.injEq, MetadataValue.texts.injEq]
    at hrefs
  refine ⟨htitle, hbody, priority_text_injective hpriority,
    providerValue_injective hprovider, fun d => ?_, fun key hkey => ?_⟩
  · rw [hrefs, hmem, hdeps]
  · rw [← hmetadata, get_revisionMetadata spec hkey]

theorem SameValue.refl : ∀ value, SameValue sameJson value value
  | .json _ => .inl rfl
  | .text _ => rfl
  | .texts _ => rfl

theorem sameMetadata_of_get {a b : Metadata}
    (h : ∀ key, indexedKey key = false → a.get key = b.get key) :
    SameMetadata sameJson a b := by
  intro key hkey
  rw [h key hkey]
  cases b.get key with
  | none => exact .none
  | some value => exact .some (SameValue.refl sameJson value)

theorem sameContent_of_unchanged (h : Consistent s) {ref : TaskRef}
    {spec : TaskSpec} {current : SpecStore.CurrentTask}
    (hcurrent : s.getTask ref = some current)
    (hunchanged : SpecStore.unchanged spec current = true) :
    SameContent sameJson spec current := by
  obtain ⟨hrow, hlatest, hdeps⟩ := getTask_eq_some.mp hcurrent
  obtain ⟨latest, hlast, -, hdescribed⟩ := h.described ref current.row hrow
  rw [hlatest] at hlast
  cases hlast
  obtain rfl : current.row.ref = ref := Table.key_of_find? hrow
  obtain ⟨htitle, hbody, hpriority, hprovider, hrefs, hmetadata⟩ :=
    fields_of_unchanged hunchanged hdescribed hdeps
  exact ⟨htitle, hbody, hpriority, hprovider, hrefs,
    sameMetadata_of_get sameJson hmetadata⟩

def SortsAlike (dependsOn : List TaskRef) : Prop :=
  (dependsOn.eraseDups.insertionSort fun a b => jsLe a b = true) =
    dependsOn.eraseDups.insertionSort (· ≤ ·)

/--
Equal metadata has equal text: indexed fields a caller names stand last, an edit
lists metadata equal to the current as the current lists it, and dependencies
sort as the table orders them.
-/
def Orderly (s : SpecStore) (op : String × SpecOp) : Prop :=
  match op.2 with
  | .createTask input =>
      IndexedLast input.metadata ∧ SortsAlike input.dependsOn
  | .reviseTask ref _ changes =>
      (∀ dependsOn, changes.dependsOn = some dependsOn →
        SortsAlike dependsOn) ∧
      ∀ metadata, changes.metadata = some metadata → IndexedLast metadata ∧
        ∀ current, s.getTask ref = some current →
          SameMetadata sameJson metadata current.latest.metadata →
          metadata.base = current.latest.metadata.base
  | _ => True

/-- What a step does to the revisions and to what the runs are bound to. -/
structure LosesNoEdit (s s' : SpecStore) (now : String) (op : SpecOp) :
    Prop where
  kept : s.revisions <+: s'.revisions
  bound : ∀ runId r, s.getRunSpec runId = some r →
    s'.getRunSpec runId = some r
  authors : (∀ input, op ≠ .createTask input) →
    (∀ ref e changes, op ≠ .reviseTask ref e changes) →
    s'.revisions = s.revisions
  creates : ∀ input u t, op = .createTask input →
    SpecStore.createTask input now s = .ok (u, t) →
      s.revisionsOf input.ref = [] ∧ ∃ spec added,
        firstSpec input s = .ok (spec, s) ∧ added = SpecStore.pinned input.ref 1
          spec (input.createdAt.getD now) ∧
        s'.revisions = s.revisions ++ [added] ∧
        s'.latestRevision input.ref = some added
  edits : ∀ ref e changes changed t, op = .reviseTask ref e changes →
    SpecStore.reviseTask ref e changes now s = .ok (changed, t) →
      ∃ current spec, s.getTask ref = some current ∧
        SpecStore.revised changes current s = .ok (spec, s) ∧
        (¬ SameContent sameJson spec current → changed = true) ∧
        (changed = true → ∃ added, (current.latest.revision : Int) = e ∧
          added = SpecStore.pinned ref (current.latest.revision + 1) spec now ∧
          s'.revisions = s.revisions ++ [added] ∧
          s'.latestRevision ref = some added) ∧
        (changed = false → s' = s)
  refuses : ∀ error, op.perform now s = .error error → s' = s
  quiet : ∀ ref e changes current spec t, op = .reviseTask ref e changes →
    s.getTask ref = some current →
    SpecStore.revised changes current s = .ok (spec, t) →
    SameContent sameJson spec current →
    s' = s ∧ (1 ≤ e → SpecStore.reviseTask ref e changes now s = .ok (false, s))
  claims : ∀ ref runId agentId, op = .claimTask ref runId agentId →
    ∀ pinned t, SpecStore.claimTask ref runId agentId now s = .ok (pinned, t) →
      ∃ latest, s.latestRevision ref = some latest ∧
        s'.getRunSpec runId = some latest

/-! ## Equal metadata has equal text -/

def Canonical (s : SpecStore) : Prop :=
  ∀ ref current, s.getTask ref = some current →
    current.latest.metadata.rows = current.latest.metadata.base.rows ++
      indexedFields current.row.priority current.row.requiredProvider
        current.dependsOn

theorem Canonical.authored (h : Canonical s)
    {rows : Table TaskRef TaskRow TaskRow.ref} {ref : TaskRef} {revision : Nat}
    {spec : TaskSpec} {row : TaskRow}
    (hs : Consistent (Store.authored s rows ref revision spec now))
    (hold : Consistent s)
    (hrows : ∀ r, rows.find? r = if r = ref then some row else s.rows.find? r)
    (hrow : row.priority = spec.priority ∧
      row.requiredProvider = spec.requiredProvider)
    (hindexed : IndexedLast spec.metadata)
    (hsorted : spec.dependsOn.insertionSort (· ≤ ·) = spec.dependsOn) :
    Canonical (Store.authored s rows ref revision spec now) := by
  rintro r ⟨row', latest, dependsOn⟩ hcurrent
  obtain ⟨hfind, hlatest, hdeps⟩ := getTask_eq_some.mp hcurrent
  change rows.find? r = some row' at hfind
  rw [hrows] at hfind
  rw [dependenciesOf_authored] at hdeps
  by_cases hr : r = ref
  · subst hr
    rw [if_pos rfl] at hfind hdeps
    rw [latestRevision_authored hs] at hlatest
    cases hlatest
    cases hfind
    change (revisionMetadata spec).rows = (revisionMetadata spec).base.rows ++
      indexedFields row.priority row.requiredProvider dependsOn
    have hlisted : spec.dependsOn = dependsOn := hsorted ▸ hdeps
    rw [← hlisted, hrow.1, hrow.2, base_revisionMetadata hindexed]
    exact revisionMetadata_rows hindexed
  · rw [if_neg hr] at hfind hdeps
    rw [hs.latest_eq, revisionsOf_authored, if_neg (Ne.symm hr),
      ← hold.latest_eq] at hlatest
    exact h r ⟨row', latest, dependsOn⟩
      (getTask_eq_some.mpr ⟨hfind, hlatest, hdeps⟩)

theorem Canonical.withRuntime (h : Canonical s) (ts : TaskStore) :
    Canonical (s.withRuntime ts) := by
  intro ref current hcurrent
  obtain ⟨hfind, hlatest, hdeps⟩ := getTask_eq_some.mp hcurrent
  rw [find?_withRuntime] at hfind
  obtain ⟨row, hrow, hsettled⟩ := Option.map_eq_some_iff.mp hfind
  have hold := h ref ⟨row, current.latest, current.dependsOn⟩
    (getTask_eq_some.mpr ⟨hrow, hlatest, hdeps⟩)
  obtain ⟨-, hpriority, hprovider⟩ := settle_content ts row
  rw [← hsettled, hpriority, hprovider]
  exact hold

theorem insertionSort_eraseDups (dependsOn : List TaskRef) :
    (dependsOn.eraseDups.insertionSort (· ≤ ·)).Pairwise (· ≤ ·) :=
  List.pairwise_insertionSort (· ≤ ·) _

theorem revised_sorted {σ : Type} {changes : TaskSpecChanges} {ref : TaskRef}
    {current : SpecStore.CurrentTask} {spec : TaskSpec} {t t' : σ}
    (hcurrent : s.getTask ref = some current)
    (hspec : SpecStore.revised changes current t = .ok (spec, t'))
    (hsorts : ∀ dependsOn, changes.dependsOn = some dependsOn →
      SortsAlike dependsOn) : spec.dependsOn.Pairwise (· ≤ ·) := by
  obtain ⟨-, -, hdeps⟩ := revised_ok hspec
  rw [hdeps]
  cases hgiven : changes.dependsOn with
  | none =>
      change current.dependsOn.Pairwise (· ≤ ·)
      rw [← (getTask_eq_some.mp hcurrent).2.2]
      exact List.pairwise_insertionSort (· ≤ ·) _
  | some given =>
      change (given.eraseDups.insertionSort _).Pairwise (· ≤ ·)
      rw [hsorts given hgiven]
      exact insertionSort_eraseDups given

theorem revised_nodup {σ : Type} {changes : TaskSpecChanges}
    {current : SpecStore.CurrentTask} {spec : TaskSpec} {t t' : σ}
    (hspec : SpecStore.revised changes current t = .ok (spec, t'))
    (hcurrent : current.dependsOn.Nodup) : spec.dependsOn.Nodup := by
  obtain ⟨-, -, hdeps⟩ := revised_ok hspec
  rw [hdeps]
  cases changes.dependsOn with
  | none => exact hcurrent
  | some given =>
      exact (List.perm_insertionSort _ _).nodup_iff.mpr (nodup_eraseDups given)

theorem revised_indexedLast {σ : Type} {changes : TaskSpecChanges}
    {current : SpecStore.CurrentTask} {spec : TaskSpec} {t t' : σ}
    (hspec : SpecStore.revised changes current t = .ok (spec, t'))
    (hgiven : ∀ metadata, changes.metadata = some metadata →
      IndexedLast metadata) : IndexedLast spec.metadata := by
  obtain ⟨-, hmetadata, -⟩ := revised_ok hspec
  rw [hmetadata]
  cases hchanged : changes.metadata with
  | none => exact indexedLast_base _
  | some metadata => exact hgiven metadata hchanged

theorem Canonical.written (h : Canonical s) (hs : Consistent s) {op : SpecOp}
    (hw : Written s s' now op) (hop : Orderly sameJson s (now, op)) :
    Canonical s' := by
  have hs' := hs.written hw
  cases hw with
  | created hmetadata hdependsOn hfresh hnodup hrows heq =>
      subst heq
      obtain ⟨hindexed, hsorts⟩ := hop
      refine h.authored hs' hs (Table.find?_insertOrdered? hrows) ⟨rfl, rfl⟩
        (hmetadata ▸ hindexed) ?_
      rw [hdependsOn, hsorts]
      exact (insertionSort_eraseDups _).insertionSort_eq
  | @revised ref e changes current spec hcurrent hspec _ _ hnodup heq =>
      subst heq
      obtain ⟨hsorts, hgiven⟩ := hop
      exact h.authored hs' hs (find?_revised spec now hcurrent) ⟨rfl, rfl⟩
        (revised_indexedLast hspec fun metadata hm => (hgiven metadata hm).1)
        (revised_sorted hcurrent hspec hsorts).insertionSort_eq
  | settled _ heq =>
      subst heq
      exact h.withRuntime _

theorem Canonical.reachable
    (h : specSystem.ReachableUnder (Orderly sameJson) s) : Canonical s := by
  refine h.invariant ?_ ?_
  · rintro _ rfl ref current hcurrent
    cases hcurrent
  · intro s op s' hs hcanonical hop hstep
    rcases specStep_cases hstep with rfl | ⟨hw, -⟩
    · exact hcanonical
    · exact hcanonical.written sameJson
        (Consistent.reachable (hs.mono fun _ _ _ => trivial)) hw hop

theorem unchanged_of_sameContent (hs : Consistent s) (hcanonical : Canonical s)
    {ref : TaskRef} {e : Int} {changes : TaskSpecChanges}
    {current : SpecStore.CurrentTask} {spec : TaskSpec} {t : SpecStore}
    (hop : Orderly sameJson s (now, .reviseTask ref e changes))
    (hcurrent : s.getTask ref = some current)
    (hspec : SpecStore.revised changes current s = .ok (spec, t))
    (hsame : SameContent sameJson spec current) :
    SpecStore.unchanged spec current = true := by
  obtain ⟨hsorts, hgiven⟩ := hop
  obtain ⟨-, hmetadata, -⟩ := revised_ok hspec
  have hindexed := revised_indexedLast hspec
    fun metadata hm => (hgiven metadata hm).1
  have hbase : spec.metadata.base = current.latest.metadata.base := by
    cases hchanged : changes.metadata with
    | none =>
        rw [hmetadata, hchanged]
        exact base_base _
    | some metadata =>
        have heq : spec.metadata = metadata := by
          rw [hmetadata, hchanged]
          rfl
        rw [heq]
        exact (hgiven metadata hchanged).2 current hcurrent
          (heq ▸ hsame.metadata)
  -- The same dependencies in the same order are the same list.
  have hdeps : spec.dependsOn = current.dependsOn := by
    have hsorted := revised_sorted hcurrent hspec hsorts
    have hread := (getTask_eq_some.mp hcurrent).2.2
    have hcurrentSorted : current.dependsOn.Pairwise (· ≤ ·) := by
      rw [← hread]
      exact List.pairwise_insertionSort (· ≤ ·) _
    have hdistinct : current.dependsOn.Nodup := hread ▸ hs.distinct ref
    have hperm := (List.perm_ext_iff_of_nodup
      (revised_nodup hspec hdistinct) hdistinct).mpr hsame.dependsOn
    exact hperm.eq_of_pairwise' hsorted hcurrentSorted
  have htext : revisionMetadata spec = current.latest.metadata := by
    refine Table.ext ?_
    rw [revisionMetadata_rows hindexed, hcanonical ref current hcurrent, hbase,
      hsame.priority, hsame.requiredProvider, hdeps]
  simp [SpecStore.unchanged, htext, hsame.title, hsame.bodyMarkdown]

/-! ## No edit is lost -/

theorem reviseTask_quiet {ref : TaskRef} {e : Int} {changes : TaskSpecChanges}
    {current : SpecStore.CurrentTask} {spec : TaskSpec} {t : SpecStore}
    (hcurrent : s.getTask ref = some current)
    (hspec : SpecStore.revised changes current s = .ok (spec, t))
    (hunchanged : SpecStore.unchanged spec current = true) (he : 1 ≤ e) :
    SpecStore.reviseTask ref e changes now s = .ok (false, s) := by
  cases (revised_ok hspec).1
  simp only [SpecStore.reviseTask, Txn.bind_ok, Txn.throwIf_ok, Txn.get_ok,
    Txn.orThrow_ok]
  refine ⟨(), s, ⟨by omega, rfl⟩, s, s, ⟨rfl, rfl⟩, current, s, ⟨hcurrent, rfl⟩,
    spec, s, hspec, ?_⟩
  rw [if_pos hunchanged]
  rfl

theorem perform_claimTask {ref : TaskRef} {runId : RunId} {agentId : AgentId}
    {pinned : ProjectTask} {t : SpecStore}
    (h : SpecStore.claimTask ref runId agentId now s = .ok (pinned, t)) :
    (SpecOp.claimTask ref runId agentId).perform now s = .ok ((), t) :=
  Txn.discard_ok.mpr ⟨pinned, h⟩

theorem Consistent.claimed (h : Consistent s) {ref : TaskRef} {runId : RunId}
    {agentId : AgentId} {pinned : ProjectTask}
    (hclaim : SpecStore.claimTask ref runId agentId now s = .ok (pinned, s')) :
    ∃ latest, s.latestRevision ref = some latest ∧
      s'.getRunSpec runId = some latest := by
  obtain ⟨ts, hok, rfl⟩ := onRuntime_ok hclaim
  obtain ⟨task, run, htask, hrun, hid, href, hspec⟩ := claimTask_binds hok
  obtain ⟨latest, hlatest, hrevision⟩ := getTask_view htask
  refine ⟨latest, hlatest, ?_⟩
  have hfind : ts.taskRuns.find? runId = some run :=
    Table.find?_eq_some.mpr ⟨hrun, hid⟩
  simp only [SpecStore.getRunSpec, Option.bind_eq_bind,
    Option.bind_eq_some_iff]
  refine ⟨run, hfind, ?_⟩
  rw [href, hspec, hrevision]
  exact h.getRevision hlatest

theorem Written.kept {op : SpecOp} (hw : Written s s' now op) :
    s.revisions <+: s'.revisions ∧
      ∀ runId r, s.getRunSpec runId = some r →
        s'.getRunSpec runId = some r := by
  cases hw with
  | created _ _ _ _ _ heq =>
      subst heq
      exact ⟨List.prefix_append _ _, fun _ _ => getRunSpec_authored⟩
  | revised _ _ _ _ _ heq =>
      subst heq
      exact ⟨List.prefix_append _ _, fun _ _ => getRunSpec_authored⟩
  | settled hruns heq =>
      subst heq
      exact ⟨List.prefix_rfl, fun _ _ => getRunSpec_settled hruns⟩

theorem step_of_ok {op : SpecOp} (hop : op.enabled = true)
    (hok : op.perform now s = .ok (u, s')) {t : SpecStore}
    (hstep : specSystem.step s (now, op) = some t) : t = s' := by
  simp only [specSystem, hop, if_true, Option.some.injEq] at hstep
  rw [← hstep]
  exact Txn.commit_of_ok hok

theorem perform_reviseTask {ref : TaskRef} {e : Int} {changes : TaskSpecChanges}
    {changed : Bool} {t : SpecStore}
    (h : SpecStore.reviseTask ref e changes now s = .ok (changed, t)) :
    (SpecOp.reviseTask ref e changes).perform now s = .ok ((), t) :=
  Txn.discard_ok.mpr ⟨changed, h⟩

/-- An accepted edit of other content writes the next revision, and only that. -/
theorem Consistent.edited (h : Consistent s) {ref : TaskRef} {e : Int}
    {changes : TaskSpecChanges} {changed : Bool}
    (hok : SpecStore.reviseTask ref e changes now s = .ok (changed, s')) :
    ∃ current spec, s.getTask ref = some current ∧
      SpecStore.revised changes current s = .ok (spec, s) ∧
      (¬ SameContent sameJson spec current → changed = true) ∧
      (changed = true → ∃ added, (current.latest.revision : Int) = e ∧
        added = SpecStore.pinned ref (current.latest.revision + 1) spec now ∧
        s'.revisions = s.revisions ++ [added] ∧
        s'.latestRevision ref = some added) ∧
      (changed = false → s' = s) := by
  obtain ⟨current, spec, hcurrent, hspec, ⟨hunchanged, rfl, rfl⟩ |
    ⟨-, rfl, hbase, hnodup, rfl⟩⟩ := reviseTask_authored hok
  · refine ⟨current, spec, hcurrent, hspec, fun hother => ?_, fun hno => ?_,
      fun _ => rfl⟩
    · exact absurd (sameContent_of_unchanged sameJson h hcurrent hunchanged) hother
    · cases hno
  · refine ⟨current, spec, hcurrent, hspec, fun _ => rfl, fun _ =>
      ⟨_, hbase, rfl, rfl, latestRevision_authored (h.revisedState hcurrent hnodup)⟩,
      fun hno => ?_⟩
    cases hno

theorem Consistent.created (h : Consistent s) {input : TaskSpecInput}
    (hok : SpecStore.createTask input now s = .ok (u, s')) :
    s.revisionsOf input.ref = [] ∧ ∃ spec added,
      firstSpec input s = .ok (spec, s) ∧ added = SpecStore.pinned input.ref 1
        spec (input.createdAt.getD now) ∧
      s'.revisions = s.revisions ++ [added] ∧
      s'.latestRevision input.ref = some added := by
  obtain ⟨spec, rows, hspec, hfresh, hnodup, hrows, rfl⟩ := createTask_first hok
  have hnone := h.fresh hfresh
  have hfirst : 1 = (s.revisionsOf input.ref).length + 1 := by
    rw [hnone]
    rfl
  have hafter : Consistent (Store.authored s rows input.ref 1 spec
      (input.createdAt.getD now)) :=
    h.authored (Table.find?_insertOrdered? hrows) ⟨rfl, rfl, rfl, rfl⟩ hfirst
      hnodup
  exact ⟨hnone, spec, _, hspec, rfl, rfl, latestRevision_authored hafter⟩

theorem losesNoEdit_of_quiet (h : Consistent s) {op : SpecOp}
    (hstep : specSystem.step s (now, op) = some s')
    (hquiet : ∀ ref e changes current spec t, op = .reviseTask ref e changes →
      s.getTask ref = some current →
      SpecStore.revised changes current s = .ok (spec, t) →
      SameContent sameJson spec current →
      SpecStore.unchanged spec current = true) :
    LosesNoEdit sameJson s s' now op := by
  constructor
  case kept =>
    rcases specStep_cases hstep with rfl | ⟨hw, -⟩
    · exact List.prefix_rfl
    · exact hw.kept.1
  case bound =>
    rcases specStep_cases hstep with rfl | ⟨hw, -⟩
    · exact fun _ _ hr => hr
    · exact hw.kept.2
  case authors =>
    intro hcreate hrevise
    rcases specStep_cases hstep with rfl | ⟨hw, -⟩
    · rfl
    · cases hw with
      | created _ _ _ _ _ _ => exact absurd rfl (hcreate _)
      | revised _ _ _ _ _ _ => exact absurd rfl (hrevise _ _ _)
      | settled _ heq =>
          subst heq
          rfl
  case creates =>
    rintro input u t rfl hok
    have hop : (SpecOp.createTask input).enabled = true := rfl
    have hstored := step_of_ok hop hok hstep
    exact hstored ▸ h.created hok
  case edits =>
    rintro ref e changes changed t rfl hok
    rw [step_of_ok rfl (perform_reviseTask hok) hstep]
    exact h.edited sameJson hok
  case refuses =>
    intro error herror
    rcases specStep_cases hstep with rfl | ⟨-, hok⟩
    · rfl
    · rw [herror] at hok
      cases hok
  case quiet =>
    rintro ref e changes current spec t rfl hcurrent hspec hsame
    have hok (he : 1 ≤ e) :
        SpecStore.reviseTask ref e changes now s = .ok (false, s) :=
      reviseTask_quiet hcurrent hspec
        (hquiet ref e changes current spec t rfl hcurrent hspec hsame) he
    refine ⟨?_, hok⟩
    rcases specStep_cases hstep with rfl | ⟨-, haccepted⟩
    · rfl
    · obtain ⟨changed, haccepted⟩ := Txn.discard_ok.mp haccepted
      have he : 1 ≤ e := by
        simp only [SpecStore.reviseTask, Txn.bind_ok, Txn.throwIf_ok]
          at haccepted
        obtain ⟨_, _, ⟨hpositive, -⟩, -⟩ := haccepted
        omega
      rw [hok he] at haccepted
      cases haccepted
      rfl
  case claims =>
    rintro ref runId agentId rfl pinned t hclaim
    rw [step_of_ok rfl (perform_claimTask hclaim) hstep]
    exact h.claimed hclaim

/--
In every run of orderly operations the tables agree in every state, and every
next orderly operation loses no edit.
-/
theorem revisions_lose_no_edit
    (h : specSystem.ReachableUnder (Orderly sameJson) s) :
    Consistent s ∧ ∀ now op s', Orderly sameJson s (now, op) →
      specSystem.step s (now, op) = some s' →
      LosesNoEdit sameJson s s' now op := by
  have hs := Consistent.reachable (h.mono fun _ _ _ => trivial)
  refine ⟨hs, fun now op s' hop hstep => ?_⟩
  refine losesNoEdit_of_quiet sameJson hs hstep ?_
  rintro ref e changes current spec t rfl hcurrent hspec hsame
  exact unchanged_of_sameContent sameJson hs (Canonical.reachable sameJson h) hop
    hcurrent hspec hsame

end Content

/-! ## The condition is needed -/

theorem get_base {metadata : Metadata} {key : String}
    (hkey : indexedKey key = false) : metadata.base.get key = metadata.get key := by
  rw [Metadata.get, Metadata.get]
  refine congrArg _ (Table.find?_filter fun field hfield => ?_)
  rw [hfield]
  simpa using hkey

theorem sameContent_empty (sameJson : String → String → Prop)
    {current : SpecStore.CurrentTask} {spec : TaskSpec} {t : SpecStore}
    (hspec : SpecStore.revised {} current s = .ok (spec, t)) :
    SameContent sameJson spec current := by
  simp only [SpecStore.revised, SpecStore.revisedDependencies, Txn.bind_ok,
    Txn.throwIf_ok, Txn.pure_ok] at hspec
  obtain ⟨_, _, ⟨-, rfl⟩, _, _, ⟨rfl, rfl⟩, rfl, rfl⟩ := hspec
  exact ⟨rfl, rfl, rfl, rfl, fun _ => Iff.rfl,
    sameMetadata_of_get sameJson fun _ => get_base⟩

def priorityFirst : Metadata :=
  ⟨[("priority", .text "low"), ("kind", .text "note")], by decide⟩

/-- The empty edit of that task makes a second revision of the same content. -/
theorem not_losesNoEdit : ¬ ∀ s now op s', specSystem.Reachable s →
    specSystem.step s (now, op) = some s' →
    LosesNoEdit (· = ·) s s' now op := by
  intro hall
  obtain ⟨s, hrun, hs⟩ := specSystem.exists_run_of_map
    (f := fun s => (s.revisions.length, (specSystem.step s
      ("t2", .reviseTask "docs/intro" 1 {})).map (·.revisions.length)))
    (by decide : (specSystem.run {} [("t1", .createTask
      { ref := "docs/intro", title := some "Intro"
        metadata := priorityFirst })]).map _ = some (1, some 2))
  simp only [Prod.mk.injEq, Option.map_eq_some_iff] at hs
  obtain ⟨hbefore, s', hstep, hafter⟩ := hs
  have hsafe := hall s _ _ s' (.run (.initial rfl) hrun) hstep
  rcases specStep_cases hstep with rfl | ⟨-, hok⟩
  · rw [hbefore] at hafter
    cases hafter
  · obtain ⟨changed, hok⟩ := Txn.discard_ok.mp hok
    obtain ⟨current, spec, hcurrent, hspec, -⟩ := reviseTask_authored hok
    obtain ⟨rfl, -⟩ := hsafe.quiet _ _ _ current spec s rfl hcurrent hspec
      (sameContent_empty _ hspec)
    rw [hbefore] at hafter
    cases hafter

/-- Two editors of one task: the second edit names the revision it did not see. -/
theorem revisions_lose_no_edit_race :
    ∃ s s', specSystem.ReachableUnder (Orderly (· = ·)) s ∧ Consistent s ∧
      (s.revisionsOf "docs/intro").length = 2 ∧
      specSystem.step s ("t4", .reviseTask "docs/intro" 1 {}) = some s' ∧
      LosesNoEdit (· = ·) s s' "t4" (.reviseTask "docs/intro" 1 {}) := by
  obtain ⟨s, hrun, hs⟩ := specSystem.exists_run_of_map
    (f := fun s => (s.revisionsOf "docs/intro").length)
    (by decide : (specSystem.run {}
      [("t1", .createTask { ref := "docs/intro", title := some "Intro" }),
        ("t2", .reviseTask "docs/intro" 1 { title := some "First" }),
        ("t3", .reviseTask "docs/intro" 1 { title := some "Second" })]).map _ =
      some 2)
  have hquiet : ∀ s now ref e title, Orderly (· = ·) s
      (now, .reviseTask ref e { title := title }) := by
    intro s now ref e title
    refine ⟨fun dependsOn h => ?_, fun metadata h => ?_⟩
    · cases h
    · cases h
  have hreach : specSystem.ReachableUnder (Orderly (· = ·)) s := by
    refine (System.ReachableUnder.initial rfl).run
      (System.along_of_run (fun op hop s => ?_) hrun) hrun
    simp only [List.mem_cons, List.not_mem_nil, or_false] at hop
    rcases hop with rfl | rfl | rfl
    · exact ⟨by decide, rfl⟩
    · exact hquiet _ _ _ _ _
    · exact hquiet _ _ _ _ _
  obtain ⟨hconsistent, hsafe⟩ := revisions_lose_no_edit (· = ·) hreach
  exact ⟨s, _, hreach, hconsistent, hs, rfl, hsafe _ _ _ (hquiet _ _ _ _ _) rfl⟩

end OrcState.Store
