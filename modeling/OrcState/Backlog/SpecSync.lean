import OrcState.Contract.Types
import OrcState.Foundation.Groups
import OrcState.Foundation.JsonString

/-!
# Task specs and the backlog

`syncBacklogFromSpecsLoaded` takes the specs one by one and changes the backlog in
place: it creates the spec's feature, adds the task or moves it there, and brings the
task's fields up to the spec's.  Over it, a sync is what it does to the entry of each
task ref by itself.
-/

namespace OrcState.SpecSync

open OrcState.Contract OrcState.Foundation
open OrcState.Foundation.Json (Units)

/-! ## The backlog and the specs -/

structure Task where
  ref : Units
  title : Units
  status : TaskStatus
  taskType : Option Units := none
  dependsOn : Option (List Units) := none
  reviewLevel : Option Units := none
  mergeStrategy : Option Units := none
  owner : Option Units := none
  attemptCount : Option Nat := none
  blockedReason : Option Units := none
  /-- The other fields, none of which a spec sets. -/
  others : List (Units × Units) := []
  deriving DecidableEq

structure FeatureHead where
  ref : Units
  title : Units
  others : List (Units × Units) := []
  deriving DecidableEq

abbrev Feature := Group FeatureHead Task

structure Backlog where
  features : List Feature := []

/-- `VALID_SPEC_STATUSES` -/
inductive SpecStatus where
  | todo | blocked | done | released | cancelled
  deriving DecidableEq

def SpecStatus.toTask : SpecStatus → TaskStatus
  | .todo => .todo
  | .blocked => .blocked
  | .done => .done
  | .released => .released
  | .cancelled => .cancelled

structure SpecEntry where
  ref : Units
  feature : Units
  status : SpecStatus
  title : Units
  reviewLevel : Option Units := none
  mergeStrategy : Option Units := none
  dependsOn : List Units := []
  deriving DecidableEq

structure SyncResult where
  updated : Bool
  addedTasks : Nat
  updatedTasks : Nat
  addedFeatures : Nat
  skippedSpecs : List (Units × SpecStatus)
  deriving DecidableEq

def ACTIVE_STATUSES : List TaskStatus := [.claimed, .inProgress]

def TERMINAL_STATUSES : List TaskStatus := [.done, .released]

/-! ## One spec -/

variable (toUpperCase : Units → Units)

def humanizeSlug (slug : Units) : Units :=
  [0x20].intercalate (((slug.splitOn 0x2D).filter (· ≠ [])).map fun part =>
    toUpperCase (part.take 1) ++ part.drop 1)

variable {toUpperCase}

def findTaskEntry (backlog : Backlog) (taskRef : Units) : Option (Feature × Task) :=
  Groups.findEntry Task.ref backlog.features taskRef

def removeTaskFromFeature (backlog : Backlog) (taskRef : Units) : Backlog where
  features := Groups.remove Task.ref taskRef backlog.features

def appendTask (backlog : Backlog) (featureRef : Units) (task : Task) : Backlog where
  features := Groups.append FeatureHead.ref featureRef task backlog.features

def replaceTask (backlog : Backlog) (task : Task) : Backlog where
  features := Groups.replace Task.ref task.ref task backlog.features

def hasFeature (backlog : Backlog) (featureRef : Units) : Bool :=
  backlog.features.any (·.head.ref = featureRef)

variable (toUpperCase) in
def ensureFeature (backlog : Backlog) (featureRef : Units) : Backlog where
  features := Groups.ensure FeatureHead.ref featureRef
    { ref := featureRef, title := humanizeSlug toUpperCase featureRef } backlog.features

def newTask (spec : SpecEntry) : Task where
  ref := spec.ref
  title := spec.title
  status := spec.status.toTask
  taskType := some [0x69, 0x6D, 0x70, 0x6C, 0x65, 0x6D, 0x65, 0x6E, 0x74, 0x61, 0x74, 0x69,
    0x6F, 0x6E]
  dependsOn := (some spec.dependsOn).filter (· ≠ [])
  reviewLevel := spec.reviewLevel
  mergeStrategy := spec.mergeStrategy

abbrev Merging := Task × Bool

def mergeTitle (spec : SpecEntry) (m : Merging) : Merging :=
  if m.1.title ≠ spec.title then ({ m.1 with title := spec.title }, true) else m

def mergeDependencies (spec : SpecEntry) (m : Merging) : Merging :=
  if m.1.status ∉ ACTIVE_STATUSES ∧ m.1.dependsOn.getD [] ≠ spec.dependsOn then
    ({ m.1 with dependsOn := (some spec.dependsOn).filter (· ≠ []) }, true)
  else m

/-- The retired mirror may set the status, but never of work that is under way, done
or cancelled. -/
def mirrors (mirrorStatus : Bool) (spec : SpecEntry) (status : TaskStatus) : Prop :=
  mirrorStatus = true ∧ spec.status ≠ .todo ∧ status ∉ ACTIVE_STATUSES ∧
    status ∉ TERMINAL_STATUSES ∧ status ≠ .cancelled ∧ status ≠ spec.status.toTask

instance (mirrorStatus : Bool) (spec : SpecEntry) (status : TaskStatus) :
    Decidable (mirrors mirrorStatus spec status) :=
  inferInstanceAs (Decidable (_ ∧ _))

def mergeStatus (mirrorStatus : Bool) (spec : SpecEntry) (m : Merging) : Merging :=
  if mirrors mirrorStatus spec m.1.status then
    ({ m.1 with status := spec.status.toTask }, true)
  else m

def mergeReviewLevel (spec : SpecEntry) (m : Merging) : Merging :=
  if m.1.reviewLevel ≠ spec.reviewLevel then
    ({ m.1 with reviewLevel := spec.reviewLevel }, true)
  else m

def mergeMergeStrategy (spec : SpecEntry) (m : Merging) : Merging :=
  if m.1.mergeStrategy ≠ spec.mergeStrategy then
    ({ m.1 with mergeStrategy := spec.mergeStrategy }, true)
  else m

def mergeSpec (mirrorStatus : Bool) (spec : SpecEntry) (task : Task) : Merging :=
  mergeMergeStrategy spec (mergeReviewLevel spec (mergeStatus mirrorStatus spec
    (mergeDependencies spec (mergeTitle spec (task, false)))))

/-! ## All specs -/

structure Syncing where
  backlog : Backlog
  changed : Bool := false
  skipped : List (Units × SpecStatus) := []
  addedTasks : Nat := 0
  updatedTasks : Nat := 0
  addedFeatures : Nat := 0

/-- A finished, blocked or cancelled spec does not become new work. -/
def skips (mirrorStatus : Bool) (spec : SpecEntry) (backlog : Backlog) : Prop :=
  mirrorStatus = false ∧ spec.status ≠ .todo ∧ findTaskEntry backlog spec.ref = none

instance (mirrorStatus : Bool) (spec : SpecEntry) (backlog : Backlog) :
    Decidable (skips mirrorStatus spec backlog) :=
  inferInstanceAs (Decidable (_ ∧ _))

def addTask (s : Syncing) (spec : SpecEntry) : Syncing :=
  { s with
    backlog := appendTask s.backlog spec.feature (newTask spec)
    changed := true
    addedTasks := s.addedTasks + 1 }

def updateTask (mirrorStatus : Bool) (s : Syncing) (spec : SpecEntry) (feature : Feature)
    (task : Task) : Syncing :=
  let merged := mergeSpec mirrorStatus spec task
  let moves := decide (feature.head.ref ≠ spec.feature)
  { s with
    backlog :=
      if moves then
        appendTask (removeTaskFromFeature s.backlog spec.ref) spec.feature merged.1
      else replaceTask s.backlog merged.1
    changed := s.changed || moves || merged.2
    updatedTasks := s.updatedTasks + if merged.2 then 1 else 0 }

variable (toUpperCase)

def ensured (s : Syncing) (featureRef : Units) : Syncing :=
  { s with
    backlog := ensureFeature toUpperCase s.backlog featureRef
    changed := s.changed || !hasFeature s.backlog featureRef
    addedFeatures := s.addedFeatures + if hasFeature s.backlog featureRef then 0 else 1 }

def syncSpec (mirrorStatus : Bool) (s : Syncing) (spec : SpecEntry) : Syncing :=
  if skips mirrorStatus spec s.backlog then
    { s with skipped := s.skipped ++ [(spec.ref, spec.status)] }
  else
    let s := ensured toUpperCase s spec.feature
    match findTaskEntry s.backlog spec.ref with
    | none => addTask s spec
    | some (feature, task) => updateTask mirrorStatus s spec feature task

def syncSpecs (mirrorStatus : Bool) (s : Syncing) (specs : List SpecEntry) : Syncing :=
  specs.foldl (syncSpec toUpperCase mirrorStatus) s

def Syncing.result (s : Syncing) : SyncResult where
  updated := s.changed
  addedTasks := s.addedTasks
  updatedTasks := s.updatedTasks
  addedFeatures := s.addedFeatures
  skippedSpecs := s.skipped

def syncBacklogFromSpecsLoaded (backlog : Backlog) (specs : List SpecEntry)
    (mirrorStatus : Bool) : Backlog × SyncResult :=
  let s := syncSpecs toUpperCase mirrorStatus { backlog := backlog } specs
  (s.backlog, s.result)

/-! ## One task -/

variable {toUpperCase} {mirrorStatus : Bool} {spec : SpecEntry} {task : Task}
  {backlog : Backlog} {m : Merging}

theorem mergeTitle_eq : mergeTitle spec m =
    ({ m.1 with title := spec.title }, m.2 || decide (m.1.title ≠ spec.title)) := by
  rw [mergeTitle]
  split
  · rename_i h
    simp [h]
  · rename_i h
    rw [not_not] at h
    simp [← h]

def mergedDependencies (spec : SpecEntry) (task : Task) : Option (List Units) :=
  if task.status ∉ ACTIVE_STATUSES ∧ task.dependsOn.getD [] ≠ spec.dependsOn then
    (some spec.dependsOn).filter (· ≠ [])
  else task.dependsOn

theorem mergeDependencies_eq : mergeDependencies spec m =
    ({ m.1 with dependsOn := mergedDependencies spec m.1 }, m.2 ||
      decide (m.1.status ∉ ACTIVE_STATUSES ∧ m.1.dependsOn.getD [] ≠ spec.dependsOn)) := by
  rw [mergeDependencies, mergedDependencies]
  split
  · rename_i h
    simp [h]
  · rename_i h
    simp [h]

def mergedStatus (mirrorStatus : Bool) (spec : SpecEntry) (status : TaskStatus) :
    TaskStatus :=
  if mirrors mirrorStatus spec status then spec.status.toTask else status

theorem mergeStatus_eq : mergeStatus mirrorStatus spec m =
    ({ m.1 with status := mergedStatus mirrorStatus spec m.1.status },
      m.2 || decide (mirrors mirrorStatus spec m.1.status)) := by
  rw [mergeStatus, mergedStatus]
  split
  · rename_i h
    simp [h]
  · rename_i h
    simp [h]

theorem mergeReviewLevel_eq : mergeReviewLevel spec m =
    ({ m.1 with reviewLevel := spec.reviewLevel },
      m.2 || decide (m.1.reviewLevel ≠ spec.reviewLevel)) := by
  rw [mergeReviewLevel]
  split
  · rename_i h
    simp [h]
  · rename_i h
    rw [not_not] at h
    simp [← h]

theorem mergeMergeStrategy_eq : mergeMergeStrategy spec m =
    ({ m.1 with mergeStrategy := spec.mergeStrategy },
      m.2 || decide (m.1.mergeStrategy ≠ spec.mergeStrategy)) := by
  rw [mergeMergeStrategy]
  split
  · rename_i h
    simp [h]
  · rename_i h
    rw [not_not] at h
    simp [← h]

def merged (mirrorStatus : Bool) (spec : SpecEntry) (task : Task) : Task :=
  { task with
    title := spec.title
    dependsOn := mergedDependencies spec task
    status := mergedStatus mirrorStatus spec task.status
    reviewLevel := spec.reviewLevel
    mergeStrategy := spec.mergeStrategy }

theorem mergeSpec_fst : (mergeSpec mirrorStatus spec task).1 =
    merged mirrorStatus spec task := by
  simp only [mergeSpec, mergeTitle_eq, mergeDependencies_eq, mergeStatus_eq,
    mergeReviewLevel_eq, mergeMergeStrategy_eq, merged]
  rfl

structure UpToDate (mirrorStatus : Bool) (spec : SpecEntry) (task : Task) : Prop where
  title : task.title = spec.title
  dependencies : task.status ∉ ACTIVE_STATUSES → task.dependsOn.getD [] = spec.dependsOn
  status : ¬ mirrors mirrorStatus spec task.status
  reviewLevel : task.reviewLevel = spec.reviewLevel
  mergeStrategy : task.mergeStrategy = spec.mergeStrategy

theorem mergeSpec_snd : (mergeSpec mirrorStatus spec task).2 = false ↔
    UpToDate mirrorStatus spec task := by
  simp only [mergeSpec, mergeTitle_eq, mergeDependencies_eq, mergeStatus_eq,
    mergeReviewLevel_eq, mergeMergeStrategy_eq, Bool.false_or, Bool.or_eq_false_iff,
    decide_eq_false_iff_not, not_not, not_and]
  constructor
  · rintro ⟨⟨⟨⟨htitle, hdependencies⟩, hstatus⟩, hreview⟩, hmerge⟩
    exact ⟨htitle, hdependencies, hstatus, hreview, hmerge⟩
  · rintro ⟨htitle, hdependencies, hstatus, hreview, hmerge⟩
    exact ⟨⟨⟨⟨htitle, hdependencies⟩, hstatus⟩, hreview⟩, hmerge⟩

theorem UpToDate.merged_eq (h : UpToDate mirrorStatus spec task) :
    merged mirrorStatus spec task = task := by
  have hdependencies : mergedDependencies spec task = task.dependsOn :=
    if_neg fun hnot => hnot.2 (h.dependencies hnot.1)
  have hstatus : mergedStatus mirrorStatus spec task.status = task.status :=
    if_neg h.status
  rw [merged, hdependencies, hstatus, ← h.title, ← h.reviewLevel, ← h.mergeStrategy]

theorem upToDate_newTask : UpToDate mirrorStatus spec (newTask spec) := by
  refine ⟨rfl, fun _ => ?_, fun h => h.2.2.2.2.2 rfl, rfl, rfl⟩
  rw [newTask]
  cases hspec : spec.dependsOn with
  | nil => rfl
  | cons d rest => rfl

theorem mergedDependencies_getD (h : task.status ∉ ACTIVE_STATUSES) :
    (mergedDependencies spec task).getD [] = spec.dependsOn := by
  rw [mergedDependencies]
  split
  · cases hspec : spec.dependsOn with
    | nil => rfl
    | cons d rest => rfl
  · rename_i hnot
    by_contra hne
    exact hnot ⟨h, hne⟩

theorem upToDate_merged : UpToDate mirrorStatus spec (merged mirrorStatus spec task) := by
  by_cases hmirrors : mirrors mirrorStatus spec task.status
  · have hstatus : mergedStatus mirrorStatus spec task.status = spec.status.toTask :=
      if_pos hmirrors
    refine ⟨rfl, fun _ => mergedDependencies_getD hmirrors.2.2.1, fun h => ?_, rfl, rfl⟩
    exact h.2.2.2.2.2 hstatus
  · have hstatus : mergedStatus mirrorStatus spec task.status = task.status :=
      if_neg hmirrors
    refine ⟨rfl, fun h => mergedDependencies_getD ?_, fun h => hmirrors ?_, rfl, rfl⟩
    · rw [← hstatus]
      exact h
    · rw [← hstatus]
      exact h

/-! ## The entry of a task -/

abbrev Entry := Units × Task

def entry (backlog : Backlog) (ref : Units) : Option Entry :=
  Groups.lookup FeatureHead.ref Task.ref backlog.features ref

def DistinctTasks (backlog : Backlog) : Prop :=
  Groups.Distinct FeatureHead.ref Task.ref backlog.features

theorem entry_eq_some {backlog : Backlog} {ref : Units} {e : Entry}
    (hd : DistinctTasks backlog) : entry backlog ref = some e ↔
      (∃ g ∈ backlog.features, g.head.ref = e.1 ∧ e.2 ∈ g.items) ∧ e.2.ref = ref := by
  refine (Groups.lookup_eq_some hd).trans (and_congr_left fun _ => ?_)
  rw [Groups.entries, List.mem_flatMap]
  refine exists_congr fun g => and_congr_right fun _ => ?_
  rw [List.mem_map]
  constructor
  · rintro ⟨task, htask, rfl⟩
    exact ⟨rfl, htask⟩
  · rintro ⟨hname, htask⟩
    exact ⟨e.2, htask, Prod.ext hname rfl⟩

/-- What a spec makes of its task's entry. -/
def follow (mirrorStatus : Bool) (spec : SpecEntry) : Option Entry → Option Entry
  | some e => some (spec.feature, merged mirrorStatus spec e.2)
  | none =>
      if mirrorStatus = false ∧ spec.status ≠ .todo then none
      else some (spec.feature, newTask spec)

theorem findTaskEntry_eq_none {ref : Units} :
    findTaskEntry backlog ref = none ↔ entry backlog ref = none := by
  rw [entry, Groups.lookup, Option.map_eq_none_iff]
  rfl

theorem entry_of_find {ref : Units} {feature : Feature}
    (h : findTaskEntry backlog ref = some (feature, task)) :
    entry backlog ref = some (feature.head.ref, task) := by
  rw [findTaskEntry] at h
  rw [entry, Groups.lookup, h]
  rfl

theorem ref_of_entry {ref : Units} {e : Entry} (hd : DistinctTasks backlog)
    (h : entry backlog ref = some e) : e.2.ref = ref :=
  ((entry_eq_some hd).mp h).2

theorem hasFeature_iff {featureRef : Units} : hasFeature backlog featureRef = true ↔
    ∃ g ∈ backlog.features, decide (g.head.ref = featureRef) = true := by
  simp [hasFeature]

theorem entry_ensured {s : Syncing} {featureRef ref : Units} :
    entry (ensured toUpperCase s featureRef).backlog ref = entry s.backlog ref :=
  Groups.lookup_ensure

variable (toUpperCase) in
theorem named_ensured (s : Syncing) (featureRef : Units) :
    ∃ g ∈ (ensured toUpperCase s featureRef).backlog.features,
      decide (g.head.ref = featureRef) = true :=
  Groups.exists_named_ensure rfl

variable (toUpperCase) in
theorem DistinctTasks.ensured {s : Syncing} (h : DistinctTasks s.backlog)
    (featureRef : Units) : DistinctTasks (ensured toUpperCase s featureRef).backlog :=
  Groups.Distinct.ensure h

theorem entry_addTask {s : Syncing} (hnew : entry s.backlog spec.ref = none)
    (hnamed : ∃ g ∈ s.backlog.features, decide (g.head.ref = spec.feature) = true)
    (ref : Units) :
    entry (addTask s spec).backlog ref =
      if ref = spec.ref then some (spec.feature, newTask spec) else entry s.backlog ref :=
  Groups.lookup_append hnamed hnew

theorem DistinctTasks.addTask {s : Syncing} (h : DistinctTasks s.backlog)
    (hnew : entry s.backlog spec.ref = none)
    (hnamed : ∃ g ∈ s.backlog.features, decide (g.head.ref = spec.feature) = true) :
    DistinctTasks (addTask s spec).backlog :=
  Groups.Distinct.append h hnamed hnew

theorem named_removed {ref featureRef : Units}
    (h : ∃ g ∈ backlog.features, decide (g.head.ref = featureRef) = true) :
    ∃ g ∈ (removeTaskFromFeature backlog ref).features,
      decide (g.head.ref = featureRef) = true := by
  obtain ⟨g, hg, hname⟩ := h
  have hheads : (removeTaskFromFeature backlog ref).features.map Group.head =
      backlog.features.map Group.head := Groups.heads_remove
  have hmem : g.head ∈ (removeTaskFromFeature backlog ref).features.map Group.head := by
    rw [hheads]
    exact List.mem_map_of_mem hg
  obtain ⟨g', hg', heq⟩ := List.mem_map.mp hmem
  exact ⟨g', hg', by rw [heq, hname]⟩

theorem entry_updateTask {s : Syncing} (hd : DistinctTasks s.backlog)
    {feature : Feature} (hfind : findTaskEntry s.backlog spec.ref = some (feature, task))
    (hnamed : ∃ g ∈ s.backlog.features, decide (g.head.ref = spec.feature) = true) :
    DistinctTasks (updateTask mirrorStatus s spec feature task).backlog ∧
      ∀ ref, entry (updateTask mirrorStatus s spec feature task).backlog ref =
        if ref = spec.ref then some (spec.feature, merged mirrorStatus spec task)
        else entry s.backlog ref := by
  have hentry := entry_of_find hfind
  have href : (merged mirrorStatus spec task).ref = spec.ref := ref_of_entry hd hentry
  by_cases hmoves : feature.head.ref = spec.feature
  · have hself : (updateTask mirrorStatus s spec feature task).backlog =
        replaceTask s.backlog (merged mirrorStatus spec task) := by
      simp [updateTask, hmoves, mergeSpec_fst]
    rw [hself]
    refine ⟨Groups.Distinct.replace hd rfl, fun ref => ?_⟩
    have hread := Groups.lookup_replace hd (a := merged mirrorStatus spec task) rfl ref
    refine hread.trans ?_
    rw [href]
    split
    · change (entry s.backlog spec.ref).map _ = _
      rw [hentry, ← hmoves]
      rfl
    · rfl
  · have hself : (updateTask mirrorStatus s spec feature task).backlog =
        appendTask (removeTaskFromFeature s.backlog spec.ref) spec.feature
          (merged mirrorStatus spec task) := by
      simp [updateTask, hmoves, mergeSpec_fst]
    have hremoved : ∀ ref, entry (removeTaskFromFeature s.backlog spec.ref) ref =
        if ref = spec.ref then none else entry s.backlog ref :=
      Groups.lookup_remove hd
    have hgone : entry (removeTaskFromFeature s.backlog spec.ref)
        (merged mirrorStatus spec task).ref = none := by
      rw [hremoved, if_pos href]
    have hremain : DistinctTasks (removeTaskFromFeature s.backlog spec.ref) :=
      Groups.Distinct.remove hd
    rw [hself]
    refine ⟨Groups.Distinct.append hremain (named_removed hnamed) hgone, fun ref => ?_⟩
    refine (Groups.lookup_append (named_removed hnamed) hgone).trans ?_
    rw [href]
    split
    · rfl
    · rename_i hne
      exact (hremoved ref).trans (if_neg hne)

/-! ## One spec, every entry -/

theorem skips_iff {b : Backlog} : skips mirrorStatus spec b ↔
    mirrorStatus = false ∧ spec.status ≠ .todo ∧ entry b spec.ref = none := by
  rw [skips, findTaskEntry_eq_none]

variable (toUpperCase mirrorStatus spec) in
theorem syncSpec_cases (s : Syncing) :
    (skips mirrorStatus spec s.backlog ∧
      syncSpec toUpperCase mirrorStatus s spec =
        { s with skipped := s.skipped ++ [(spec.ref, spec.status)] }) ∨
    (¬ skips mirrorStatus spec s.backlog ∧ entry s.backlog spec.ref = none ∧
      syncSpec toUpperCase mirrorStatus s spec =
        addTask (ensured toUpperCase s spec.feature) spec) ∨
    ∃ feature task, findTaskEntry (ensured toUpperCase s spec.feature).backlog spec.ref =
        some (feature, task) ∧ entry s.backlog spec.ref = some (feature.head.ref, task) ∧
      syncSpec toUpperCase mirrorStatus s spec =
        updateTask mirrorStatus (ensured toUpperCase s spec.feature) spec feature task := by
  by_cases hskips : skips mirrorStatus spec s.backlog
  · exact .inl ⟨hskips, if_pos hskips⟩
  · have hensured : entry (ensured toUpperCase s spec.feature).backlog spec.ref =
        entry s.backlog spec.ref := entry_ensured
    refine .inr ?_
    rw [syncSpec, if_neg hskips, ← hensured]
    cases hfind : findTaskEntry (ensured toUpperCase s spec.feature).backlog spec.ref with
    | none => exact .inl ⟨hskips, findTaskEntry_eq_none.mp hfind, by simp only [hfind]⟩
    | some found =>
        exact .inr ⟨found.1, found.2, rfl, entry_of_find hfind, by simp only [hfind]⟩

variable (toUpperCase mirrorStatus spec) in
/-- A sync of one spec is `follow` at its own ref and nothing elsewhere. -/
theorem entry_syncSpec {s : Syncing} (hd : DistinctTasks s.backlog) :
    DistinctTasks (syncSpec toUpperCase mirrorStatus s spec).backlog ∧
      ∀ ref, entry (syncSpec toUpperCase mirrorStatus s spec).backlog ref =
        if ref = spec.ref then follow mirrorStatus spec (entry s.backlog spec.ref)
        else entry s.backlog ref := by
  have hensured : ∀ ref, entry (ensured toUpperCase s spec.feature).backlog ref =
      entry s.backlog ref := fun ref => entry_ensured
  have hdistinct := hd.ensured toUpperCase spec.feature
  have hnamed := named_ensured toUpperCase s spec.feature
  obtain ⟨hskips, hstep⟩ | ⟨hskips, hnone, hstep⟩ | ⟨feature, task, hfind, hsome, hstep⟩ :=
    syncSpec_cases toUpperCase mirrorStatus spec s
  · rw [hstep]
    refine ⟨hd, fun ref => ?_⟩
    obtain ⟨hmirror, hstatus, hnone⟩ := skips_iff.mp hskips
    split
    · rename_i href
      rw [href, hnone, follow, if_pos ⟨hmirror, hstatus⟩]
    · rfl
  · rw [hstep]
    have hnew : entry (ensured toUpperCase s spec.feature).backlog spec.ref = none :=
      (hensured spec.ref).trans hnone
    refine ⟨hdistinct.addTask hnew hnamed, fun ref => ?_⟩
    have hmay : ¬ (mirrorStatus = false ∧ spec.status ≠ .todo) :=
      fun hboth => hskips (skips_iff.mpr ⟨hboth.1, hboth.2, hnone⟩)
    rw [entry_addTask hnew hnamed, hnone, follow, hensured, if_neg hmay]
  · rw [hstep]
    obtain ⟨hupdated, hentry⟩ := entry_updateTask hdistinct hfind hnamed
    refine ⟨hupdated, fun ref => ?_⟩
    rw [hentry, hsome, follow, hensured]

/-! ## All specs, every entry -/

def followAll (mirrorStatus : Bool) (specs : List SpecEntry) (backlog : Backlog)
    (ref : Units) : Option Entry :=
  match specs.find? (·.ref = ref) with
  | some spec => follow mirrorStatus spec (entry backlog ref)
  | none => entry backlog ref

variable (toUpperCase mirrorStatus) in
theorem entry_syncSpecs {s : Syncing} {specs : List SpecEntry}
    (hd : DistinctTasks s.backlog) (hspecs : (specs.map SpecEntry.ref).Nodup) :
    DistinctTasks (syncSpecs toUpperCase mirrorStatus s specs).backlog ∧
      ∀ ref, entry (syncSpecs toUpperCase mirrorStatus s specs).backlog ref =
        followAll mirrorStatus specs s.backlog ref := by
  induction specs generalizing s with
  | nil => exact ⟨hd, fun _ => rfl⟩
  | cons spec specs ih =>
      rw [List.map_cons, List.nodup_cons] at hspecs
      obtain ⟨hd', hentry⟩ := entry_syncSpec toUpperCase mirrorStatus spec hd
      obtain ⟨hdistinct, hrest⟩ := ih hd' hspecs.2
      refine ⟨hdistinct, fun ref => (hrest ref).trans ?_⟩
      rw [followAll, followAll, hentry, List.find?_cons]
      by_cases href : spec.ref = ref
      · subst href
        have hnone : specs.find? (·.ref = spec.ref) = none := by
          refine List.find?_eq_none.mpr fun other hother => ?_
          have hne : other.ref ≠ spec.ref :=
            fun heq => hspecs.1 (heq ▸ List.mem_map_of_mem hother)
          simpa using hne
        simp [hnone]
      · simp [href, Ne.symm href]

/-! ## What changes -/

def Settled (mirrorStatus : Bool) (spec : SpecEntry) (backlog : Backlog) : Prop :=
  skips mirrorStatus spec backlog ∨
    (hasFeature backlog spec.feature = true ∧ ∃ task,
      entry backlog spec.ref = some (spec.feature, task) ∧
        UpToDate mirrorStatus spec task)

theorem ensured_of_hasFeature {s : Syncing} {featureRef : Units}
    (h : hasFeature s.backlog featureRef = true) :
    ensured toUpperCase s featureRef = s := by
  have hsame : ensureFeature toUpperCase s.backlog featureRef = s.backlog := by
    rw [ensureFeature, Groups.ensure]
    exact congrArg Backlog.mk (if_pos h)
  rw [ensured, hsame, h]
  simp

variable (toUpperCase) in
theorem Settled.syncSpec {s : Syncing} (hd : DistinctTasks s.backlog)
    (h : Settled mirrorStatus spec s.backlog) :
    (syncSpec toUpperCase mirrorStatus s spec).backlog = s.backlog ∧
      (syncSpec toUpperCase mirrorStatus s spec).changed = s.changed := by
  obtain hskips | ⟨hfeature, task, hentry, hupToDate⟩ := h
  · rw [SpecSync.syncSpec, if_pos hskips]
    exact ⟨rfl, rfl⟩
  · obtain ⟨hskips, -⟩ | ⟨-, hnone, -⟩ | ⟨feature, found, -, hsome, hstep⟩ :=
      syncSpec_cases toUpperCase mirrorStatus spec s
    · rw [(skips_iff.mp hskips).2.2] at hentry
      cases hentry
    · rw [hnone] at hentry
      cases hentry
    · rw [hsome] at hentry
      simp only [Option.some.injEq, Prod.mk.injEq] at hentry
      obtain ⟨hname, rfl⟩ := hentry
      have hmerged := hupToDate.merged_eq
      have hflag := mergeSpec_snd.mpr hupToDate
      have href : found.ref = spec.ref := ref_of_entry hd hsome
      have hlookup : Groups.lookup FeatureHead.ref Task.ref s.backlog.features found.ref =
          some (feature.head.ref, found) := by
        rw [href]
        exact hsome
      have hsame : replaceTask s.backlog found = s.backlog :=
        congrArg Backlog.mk (Groups.replace_self hd hlookup)
      rw [hstep, ensured_of_hasFeature hfeature]
      simp [updateTask, hname, mergeSpec_fst, hmerged, hflag, hsame]

theorem changed_mono {s : Syncing} (h : s.changed = true) :
    (syncSpec toUpperCase mirrorStatus s spec).changed = true := by
  obtain ⟨-, hstep⟩ | ⟨-, -, hstep⟩ | ⟨feature, task, -, -, hstep⟩ :=
    syncSpec_cases toUpperCase mirrorStatus spec s
  · rw [hstep]
    exact h
  · rw [hstep]
    rfl
  · rw [hstep]
    simp [updateTask, ensured, h]

theorem settled_of_unchanged {s : Syncing}
    (h : (syncSpec toUpperCase mirrorStatus s spec).changed = false) :
    Settled mirrorStatus spec s.backlog := by
  obtain ⟨hskips, -⟩ | ⟨-, -, hstep⟩ | ⟨feature, task, -, hsome, hstep⟩ :=
    syncSpec_cases toUpperCase mirrorStatus spec s
  · exact .inl hskips
  · rw [hstep] at h
    cases h
  · rw [hstep] at h
    simp only [updateTask, ensured, Bool.or_eq_false_iff, Bool.not_eq_false',
      decide_eq_false_iff_not, not_not] at h
    obtain ⟨⟨⟨-, hfeature⟩, hname⟩, hflag⟩ := h
    exact .inr ⟨hfeature, task, hname ▸ hsome, mergeSpec_snd.mp hflag⟩

theorem hasFeature_of_heads {b b' : Backlog} {featureRef : Units}
    (h : ∀ head ∈ b.features.map Group.head, head ∈ b'.features.map Group.head)
    (hfeature : hasFeature b featureRef = true) : hasFeature b' featureRef = true := by
  obtain ⟨g, hg, hname⟩ := hasFeature_iff.mp hfeature
  obtain ⟨g', hg', heq⟩ := List.mem_map.mp (h g.head (List.mem_map_of_mem hg))
  exact hasFeature_iff.mpr ⟨g', hg', by rw [heq]; exact hname⟩

variable (toUpperCase) in
theorem heads_ensured (s : Syncing) (featureRef : Units) :
    ∀ head ∈ s.backlog.features.map Group.head,
      head ∈ (ensured toUpperCase s featureRef).backlog.features.map Group.head := by
  intro head hhead
  simp only [ensured, ensureFeature, Groups.ensure]
  split
  · exact hhead
  · rw [List.map_append]
    exact List.mem_append_left _ hhead

theorem heads_updateTask (s : Syncing) (feature : Feature) (task : Task) :
    (updateTask mirrorStatus s spec feature task).backlog.features.map Group.head =
      s.backlog.features.map Group.head := by
  simp only [updateTask]
  split
  · exact Groups.heads_append.trans Groups.heads_remove
  · exact Groups.heads_replace

theorem heads_of_not_skips {s : Syncing} (h : ¬ skips mirrorStatus spec s.backlog) :
    (syncSpec toUpperCase mirrorStatus s spec).backlog.features.map Group.head =
      (ensured toUpperCase s spec.feature).backlog.features.map Group.head := by
  obtain ⟨hskips, -⟩ | ⟨-, -, hstep⟩ | ⟨feature, task, -, -, hstep⟩ :=
    syncSpec_cases toUpperCase mirrorStatus spec s
  · exact absurd hskips h
  · rw [hstep]
    exact Groups.heads_append
  · rw [hstep]
    exact heads_updateTask _ feature task

theorem heads_syncSpec (s : Syncing) :
    ∀ head ∈ s.backlog.features.map Group.head,
      head ∈ (syncSpec toUpperCase mirrorStatus s spec).backlog.features.map
        Group.head := by
  intro head hhead
  by_cases hskips : skips mirrorStatus spec s.backlog
  · rw [syncSpec, if_pos hskips]
    exact hhead
  · rw [heads_of_not_skips hskips]
    exact heads_ensured toUpperCase s spec.feature head hhead

theorem hasFeature_syncSpec {s : Syncing} {featureRef : Units}
    (h : hasFeature s.backlog featureRef = true) :
    hasFeature (syncSpec toUpperCase mirrorStatus s spec).backlog featureRef = true :=
  hasFeature_of_heads (heads_syncSpec s) h

variable (toUpperCase) in
theorem hasFeature_ensured (s : Syncing) (featureRef : Units) :
    hasFeature (ensured toUpperCase s featureRef).backlog featureRef = true :=
  hasFeature_iff.mpr (named_ensured toUpperCase s featureRef)

theorem settled_syncSpec {s : Syncing} (hd : DistinctTasks s.backlog) :
    Settled mirrorStatus spec (syncSpec toUpperCase mirrorStatus s spec).backlog := by
  have hentry := (entry_syncSpec toUpperCase mirrorStatus spec hd).2 spec.ref
  rw [if_pos rfl] at hentry
  by_cases hskips : skips mirrorStatus spec s.backlog
  · have hsame : (syncSpec toUpperCase mirrorStatus s spec).backlog = s.backlog := by
      rw [syncSpec, if_pos hskips]
    rw [hsame]
    exact .inl hskips
  · have hfeature : hasFeature (syncSpec toUpperCase mirrorStatus s spec).backlog
        spec.feature = true := by
      refine hasFeature_of_heads (fun head hhead => ?_)
        (hasFeature_ensured toUpperCase s spec.feature)
      rw [heads_of_not_skips hskips]
      exact hhead
    refine .inr ⟨hfeature, ?_⟩
    cases hold : entry s.backlog spec.ref with
    | some e =>
        rw [hold, follow] at hentry
        exact ⟨_, hentry, upToDate_merged⟩
    | none =>
        have hmay : ¬ (mirrorStatus = false ∧ spec.status ≠ .todo) :=
          fun hboth => hskips (skips_iff.mpr ⟨hboth.1, hboth.2, hold⟩)
        rw [hold, follow, if_neg hmay] at hentry
        exact ⟨_, hentry, upToDate_newTask⟩

theorem Settled.other {s : Syncing} {other : SpecEntry} (hd : DistinctTasks s.backlog)
    (h : Settled mirrorStatus other s.backlog) (hne : other.ref ≠ spec.ref) :
    Settled mirrorStatus other (SpecSync.syncSpec toUpperCase mirrorStatus s spec).backlog := by
  have hentry := (entry_syncSpec toUpperCase mirrorStatus spec hd).2 other.ref
  rw [if_neg hne] at hentry
  obtain hskips | ⟨hfeature, task, hself, hupToDate⟩ := h
  · obtain ⟨hmirror, hstatus, hnone⟩ := skips_iff.mp hskips
    exact .inl (skips_iff.mpr ⟨hmirror, hstatus, hentry.trans hnone⟩)
  · exact .inr ⟨hasFeature_syncSpec hfeature, task, hentry.trans hself, hupToDate⟩

/-! ## The whole sync -/

variable (toUpperCase mirrorStatus) in
theorem changed_syncSpecs {s : Syncing} (specs : List SpecEntry) (h : s.changed = true) :
    (syncSpecs toUpperCase mirrorStatus s specs).changed = true := by
  induction specs generalizing s with
  | nil => exact h
  | cons spec specs ih => exact ih (changed_mono h)

variable (toUpperCase mirrorStatus) in
theorem syncSpecs_settled {s : Syncing} {specs : List SpecEntry}
    (hd : DistinctTasks s.backlog)
    (h : ∀ spec ∈ specs, Settled mirrorStatus spec s.backlog) :
    (syncSpecs toUpperCase mirrorStatus s specs).backlog = s.backlog ∧
      (syncSpecs toUpperCase mirrorStatus s specs).changed = s.changed := by
  induction specs generalizing s with
  | nil => exact ⟨rfl, rfl⟩
  | cons spec specs ih =>
      obtain ⟨hbacklog, hchanged⟩ :=
        (h spec List.mem_cons_self).syncSpec toUpperCase hd
      obtain ⟨hrest, hflag⟩ := ih (s := syncSpec toUpperCase mirrorStatus s spec)
        (by rw [hbacklog]; exact hd)
        (by rw [hbacklog]; exact fun other hother => h other (List.mem_cons_of_mem _ hother))
      exact ⟨hrest.trans hbacklog, hflag.trans hchanged⟩

variable (toUpperCase mirrorStatus) in
theorem settled_of_syncSpecs {s : Syncing} {specs : List SpecEntry}
    (hd : DistinctTasks s.backlog)
    (h : (syncSpecs toUpperCase mirrorStatus s specs).changed = false) :
    ∀ spec ∈ specs, Settled mirrorStatus spec s.backlog := by
  induction specs generalizing s with
  | nil => exact fun spec hspec => absurd hspec List.not_mem_nil
  | cons spec specs ih =>
      have hfirst : (syncSpec toUpperCase mirrorStatus s spec).changed = false := by
        rw [Bool.eq_false_iff]
        intro hchanged
        have hlast := changed_syncSpecs toUpperCase mirrorStatus specs hchanged
        rw [syncSpecs, List.foldl_cons] at h
        rw [syncSpecs, h] at hlast
        cases hlast
      have hsettled := settled_of_unchanged hfirst
      have hsame := (hsettled.syncSpec toUpperCase hd).1
      have hrest := ih (s := syncSpec toUpperCase mirrorStatus s spec)
        (by rw [hsame]; exact hd) h
      rw [hsame] at hrest
      intro other hother
      obtain rfl | hother := List.mem_cons.mp hother
      · exact hsettled
      · exact hrest other hother

variable (toUpperCase mirrorStatus) in
/-- What a sync has followed stays settled until its end. -/
theorem settled_syncSpecs {s : Syncing} {specs : List SpecEntry}
    (hd : DistinctTasks s.backlog) (hspecs : (specs.map SpecEntry.ref).Nodup) :
    ∀ spec ∈ specs,
      Settled mirrorStatus spec (syncSpecs toUpperCase mirrorStatus s specs).backlog := by
  have hkept : ∀ (specs : List SpecEntry) (s : Syncing) (other : SpecEntry),
      DistinctTasks s.backlog → Settled mirrorStatus other s.backlog →
        other.ref ∉ specs.map SpecEntry.ref →
          Settled mirrorStatus other
            (syncSpecs toUpperCase mirrorStatus s specs).backlog := by
    intro specs
    induction specs with
    | nil => exact fun s other _ h _ => h
    | cons spec specs ih =>
        intro s other hd h hnot
        rw [List.map_cons, List.mem_cons, not_or] at hnot
        exact ih _ other (entry_syncSpec toUpperCase mirrorStatus spec hd).1
          (h.other hd hnot.1) hnot.2
  induction specs generalizing s with
  | nil => exact fun spec hspec => absurd hspec List.not_mem_nil
  | cons spec specs ih =>
      rw [List.map_cons, List.nodup_cons] at hspecs
      have hnext := (entry_syncSpec toUpperCase mirrorStatus spec hd).1
      intro other hother
      obtain rfl | hother := List.mem_cons.mp hother
      · exact hkept specs _ other hnext (settled_syncSpec hd) hspecs.1
      · exact ih hnext hspecs.2 other hother

variable (toUpperCase mirrorStatus) in
theorem heads_syncSpecs (s : Syncing) (specs : List SpecEntry) :
    ∀ head ∈ s.backlog.features.map Group.head,
      head ∈ (syncSpecs toUpperCase mirrorStatus s specs).backlog.features.map
        Group.head := by
  induction specs generalizing s with
  | nil => exact fun head hhead => hhead
  | cons spec specs ih => exact fun head hhead => ih _ head (heads_syncSpec s head hhead)

/-- From `todo`, or from `blocked`, to what is dispatched less readily. -/
def LessDispatchable (status old : TaskStatus) : Prop :=
  (old = .todo ∧ status ∈ [.blocked, .done, .released, .cancelled]) ∨
    (old = .blocked ∧ status ∈ [.done, .released, .cancelled])

theorem lessDispatchable_of_mirrors {status : TaskStatus}
    (h : mirrors mirrorStatus spec status) :
    LessDispatchable spec.status.toTask status := by
  obtain ⟨-, htodo, hactive, hterminal, hcancelled, hdiffers⟩ := h
  cases hspec : spec.status <;> cases status <;>
    simp_all [LessDispatchable, ACTIVE_STATUSES, TERMINAL_STATUSES, SpecStatus.toTask]

structure SameOwn (task task' : Task) : Prop where
  ref : task'.ref = task.ref
  taskType : task'.taskType = task.taskType
  owner : task'.owner = task.owner
  attemptCount : task'.attemptCount = task.attemptCount
  blockedReason : task'.blockedReason = task.blockedReason
  others : task'.others = task.others

theorem SameOwn.refl (task : Task) : SameOwn task task := ⟨rfl, rfl, rfl, rfl, rfl, rfl⟩

theorem sameOwn_merged : SameOwn task (merged mirrorStatus spec task) :=
  ⟨rfl, rfl, rfl, rfl, rfl, rfl⟩

/-- What a sync does to a backlog, entry by entry. -/
structure LosesNothing (mirrorStatus : Bool) (specs : List SpecEntry)
    (before after : Backlog) : Prop where
  features : ∀ head ∈ before.features.map Group.head,
    head ∈ after.features.map Group.head
  distinct : DistinctTasks after
  kept : ∀ ref e, entry before ref = some e → ∃ e', entry after ref = some e' ∧
    SameOwn e.2 e'.2 ∧
    (e'.1 = e.1 ∨ ∃ spec ∈ specs, spec.ref = ref ∧ e'.1 = spec.feature)
  followed : ∀ spec ∈ specs, ∀ e e', entry before spec.ref = some e →
    entry after spec.ref = some e' →
      e'.1 = spec.feature ∧ UpToDate mirrorStatus spec e'.2
  added : ∀ ref e, entry before ref = none → (entry after ref = some e ↔
    ∃ spec ∈ specs, spec.ref = ref ∧ (mirrorStatus = true ∨ spec.status = .todo) ∧
      e = (spec.feature, newTask spec))
  unmirrored : mirrorStatus = false →
    (∀ ref e e', entry before ref = some e → entry after ref = some e' →
      e'.2.status = e.2.status) ∧
    ∀ ref e, entry before ref = none → entry after ref = some e → e.2.status = .todo
  mirrored : ∀ ref e e', entry before ref = some e → entry after ref = some e' →
    e'.2.status ≠ e.2.status →
      mirrorStatus = true ∧ LessDispatchable e'.2.status e.2.status
  active : ∀ ref e e', entry before ref = some e → entry after ref = some e' →
    e.2.status ∈ ACTIVE_STATUSES →
      e'.2.status = e.2.status ∧ e'.2.dependsOn = e.2.dependsOn
  unspecified : ∀ ref, ref ∉ specs.map SpecEntry.ref → entry after ref = entry before ref

theorem followAll_some {specs : List SpecEntry} {ref : Units} {e e' : Entry}
    (h : entry backlog ref = some e)
    (h' : followAll mirrorStatus specs backlog ref = some e') :
    e' = e ∨ ∃ spec ∈ specs, spec.ref = ref ∧
      e' = (spec.feature, merged mirrorStatus spec e.2) := by
  rw [followAll, h] at h'
  cases hfind : specs.find? (·.ref = ref) with
  | none =>
      rw [hfind] at h'
      exact .inl (Option.some.inj h').symm
  | some spec =>
      rw [hfind] at h'
      have href : spec.ref = ref := by simpa using List.find?_some hfind
      exact .inr ⟨spec, List.mem_of_find?_eq_some hfind, href,
        (Option.some.inj h').symm⟩

theorem followAll_none {specs : List SpecEntry} {ref : Units} {e : Entry}
    (hspecs : (specs.map SpecEntry.ref).Nodup) (h : entry backlog ref = none) :
    followAll mirrorStatus specs backlog ref = some e ↔
      ∃ spec ∈ specs, spec.ref = ref ∧ (mirrorStatus = true ∨ spec.status = .todo) ∧
        e = (spec.feature, newTask spec) := by
  have hmay : ∀ spec, follow mirrorStatus spec none = some e ↔
      (mirrorStatus = true ∨ spec.status = .todo) ∧ e = (spec.feature, newTask spec) := by
    intro spec
    rw [follow]
    cases mirrorStatus <;> by_cases hstatus : spec.status = .todo <;>
      simp [hstatus, eq_comm]
  rw [followAll, h]
  cases hfind : specs.find? (·.ref = ref) with
  | none =>
      simp only [reduceCtorEq, false_iff]
      rintro ⟨spec, hspec, rfl, -⟩
      have hne := List.find?_eq_none.mp hfind spec hspec
      simp at hne
  | some spec =>
      have hspec := List.mem_of_find?_eq_some hfind
      have href : spec.ref = ref := by simpa using List.find?_some hfind
      refine (hmay spec).trans ⟨fun hadd => ⟨spec, hspec, href, hadd⟩, ?_⟩
      rintro ⟨other, hother, hotherRef, hadd⟩
      rw [List.inj_on_of_nodup_map hspecs hspec hother (href.trans hotherRef.symm)]
      exact hadd

theorem find_spec {specs : List SpecEntry} (hspecs : (specs.map SpecEntry.ref).Nodup)
    (hspec : spec ∈ specs) : specs.find? (·.ref = spec.ref) = some spec := by
  cases hfind : specs.find? (·.ref = spec.ref) with
  | none => simpa using List.find?_eq_none.mp hfind spec hspec
  | some other =>
      have href : other.ref = spec.ref := by simpa using List.find?_some hfind
      rw [List.inj_on_of_nodup_map hspecs (List.mem_of_find?_eq_some hfind) hspec href]

theorem losesNothing_of_entries {specs : List SpecEntry} {after : Backlog}
    (hspecs : (specs.map SpecEntry.ref).Nodup)
    (hheads : ∀ head ∈ backlog.features.map Group.head,
      head ∈ after.features.map Group.head) (hd : DistinctTasks after)
    (hentry : ∀ ref, entry after ref = followAll mirrorStatus specs backlog ref) :
    LosesNothing mirrorStatus specs backlog after := by
  have hsome : ∀ ref e e', entry backlog ref = some e → entry after ref = some e' →
      e' = e ∨ ∃ spec ∈ specs, spec.ref = ref ∧
        e' = (spec.feature, merged mirrorStatus spec e.2) :=
    fun ref e e' h h' => followAll_some h ((hentry ref).symm.trans h')
  have hstatus : ∀ spec task, (merged mirrorStatus spec task).status = task.status ∨
      mirrors mirrorStatus spec task.status := by
    intro spec task
    by_cases hmirrors : mirrors mirrorStatus spec task.status
    · exact .inr hmirrors
    · exact .inl (if_neg hmirrors)
  have hadded : ∀ ref e, entry backlog ref = none → (entry after ref = some e ↔
      ∃ spec ∈ specs, spec.ref = ref ∧ (mirrorStatus = true ∨ spec.status = .todo) ∧
        e = (spec.feature, newTask spec)) := by
    intro ref e hnone
    rw [hentry, followAll_none hspecs hnone]
  constructor
  case features => exact hheads
  case distinct => exact hd
  case added => exact hadded
  case kept =>
    intro ref e h
    rw [hentry, followAll, h]
    cases hfind : specs.find? (·.ref = ref) with
    | none => exact ⟨e, rfl, .refl e.2, .inl rfl⟩
    | some spec =>
        have href : spec.ref = ref := by simpa using List.find?_some hfind
        exact ⟨_, rfl, sameOwn_merged,
          .inr ⟨spec, List.mem_of_find?_eq_some hfind, href, rfl⟩⟩
  case followed =>
    intro spec hspec e e' h h'
    rw [hentry, followAll, h, find_spec hspecs hspec] at h'
    obtain rfl := Option.some.inj h'
    exact ⟨rfl, upToDate_merged⟩
  case unmirrored =>
    intro hmirror
    refine ⟨fun ref e e' h h' => ?_, fun ref e h h' => ?_⟩
    · obtain rfl | ⟨spec, -, -, rfl⟩ := hsome ref e e' h h'
      · rfl
      · obtain hsame | hmirrors := hstatus spec e.2
        · exact hsame
        · rw [hmirror] at hmirrors
          cases hmirrors.1
    · obtain ⟨spec, -, -, hmay, rfl⟩ := (hadded ref e h).mp h'
      obtain htrue | htodo := hmay
      · rw [hmirror] at htrue
        cases htrue
      · change spec.status.toTask = .todo
        rw [htodo]
        rfl
  case mirrored =>
    intro ref e e' h h' hne
    obtain rfl | ⟨spec, -, -, rfl⟩ := hsome ref e e' h h'
    · exact absurd rfl hne
    · obtain hsame | hmirrors := hstatus spec e.2
      · exact absurd hsame hne
      · have hstatus : (merged mirrorStatus spec e.2).status = spec.status.toTask :=
          if_pos hmirrors
        refine ⟨hmirrors.1, ?_⟩
        rw [hstatus]
        exact lessDispatchable_of_mirrors hmirrors
  case active =>
    intro ref e e' h h' hactive
    obtain rfl | ⟨spec, -, -, rfl⟩ := hsome ref e e' h h'
    · exact ⟨rfl, rfl⟩
    · have hdependencies : (merged mirrorStatus spec e.2).dependsOn = e.2.dependsOn :=
        if_neg fun hnot => hnot.1 hactive
      obtain hsame | hmirrors := hstatus spec e.2
      · exact ⟨hsame, hdependencies⟩
      · exact absurd hactive hmirrors.2.2.1
  case unspecified =>
    intro ref hnot
    have hnone : specs.find? (·.ref = ref) = none := by
      refine List.find?_eq_none.mpr fun spec hspec heq => hnot ?_
      exact of_decide_eq_true heq ▸ List.mem_map_of_mem hspec
    rw [hentry, followAll, hnone]

variable (toUpperCase mirrorStatus) in
/--
A sync with distinct specs keeps each task of a backlog once, adds the missing specs it
may add, moves a status only as it is allowed to, and leaves alone what has no spec; it
reports no update exactly when it leaves the backlog as it was, which a second sync with
the same specs does.
-/
theorem sync_loses_nothing {specs : List SpecEntry} (hd : DistinctTasks backlog)
    (hspecs : (specs.map SpecEntry.ref).Nodup) :
    LosesNothing mirrorStatus specs backlog
        (syncBacklogFromSpecsLoaded toUpperCase backlog specs mirrorStatus).1 ∧
      ((syncBacklogFromSpecsLoaded toUpperCase backlog specs mirrorStatus).2.updated =
          false ↔
        (syncBacklogFromSpecsLoaded toUpperCase backlog specs mirrorStatus).1 =
          backlog) ∧
      (syncBacklogFromSpecsLoaded toUpperCase
          (syncBacklogFromSpecsLoaded toUpperCase backlog specs mirrorStatus).1 specs
          mirrorStatus).1 =
        (syncBacklogFromSpecsLoaded toUpperCase backlog specs mirrorStatus).1 ∧
      (syncBacklogFromSpecsLoaded toUpperCase
          (syncBacklogFromSpecsLoaded toUpperCase backlog specs mirrorStatus).1 specs
          mirrorStatus).2.updated = false := by
  have hfirst : DistinctTasks ({ backlog := backlog } : Syncing).backlog := hd
  obtain ⟨hdistinct, hentry⟩ := entry_syncSpecs toUpperCase mirrorStatus hfirst hspecs
  have hsettled := settled_syncSpecs toUpperCase mirrorStatus hfirst hspecs
  have hheads := heads_syncSpecs toUpperCase mirrorStatus { backlog := backlog } specs
  obtain ⟨hagain, hunchanged⟩ := syncSpecs_settled toUpperCase mirrorStatus
    (s := { backlog := (syncSpecs toUpperCase mirrorStatus { backlog := backlog }
      specs).backlog }) hdistinct hsettled
  refine ⟨losesNothing_of_entries hspecs hheads hdistinct hentry,
    ⟨fun h => ?_, fun h => ?_⟩, hagain, hunchanged⟩
  · have hstill := settled_of_syncSpecs toUpperCase mirrorStatus hfirst h
    exact (syncSpecs_settled toUpperCase mirrorStatus hfirst hstill).1
  · have hstill : ∀ spec ∈ specs, Settled mirrorStatus spec backlog := by
      intro spec hspec
      have hend := hsettled spec hspec
      change (syncSpecs toUpperCase mirrorStatus { backlog := backlog } specs).backlog =
        backlog at h
      rw [h] at hend
      exact hend
    exact (syncSpecs_settled toUpperCase mirrorStatus hfirst hstill).2

/-! ## A task moved, one added, one skipped -/

instance (backlog : Backlog) : Decidable (DistinctTasks backlog) :=
  inferInstanceAs (Decidable (List.Nodup _))

def twoFeatures : Backlog where
  features :=
    [⟨{ ref := [0x66], title := [0x46] },
        [{ ref := [0x61], title := [0x41], status := .blocked }]⟩,
      ⟨{ ref := [0x67], title := [0x47] },
        [{ ref := [0x62], title := [0x42], status := .inProgress,
           dependsOn := some [[0x61]] }]⟩]

def fourSpecs : List SpecEntry :=
  [{ ref := [0x61], feature := [0x67], status := .todo, title := [0x41] },
    { ref := [0x62], feature := [0x67], status := .done, title := [0x42] },
    { ref := [0x63], feature := [0x68], status := .todo, title := [0x43],
      dependsOn := [[0x61]] },
    { ref := [0x64], feature := [0x68], status := .done, title := [0x44] }]

theorem sync_loses_nothing_four :
    LosesNothing false fourSpecs twoFeatures
        (syncBacklogFromSpecsLoaded id twoFeatures fourSpecs false).1 ∧
      ((syncBacklogFromSpecsLoaded id twoFeatures fourSpecs false).2.updated = false ↔
        (syncBacklogFromSpecsLoaded id twoFeatures fourSpecs false).1 = twoFeatures) ∧
      (syncBacklogFromSpecsLoaded id
          (syncBacklogFromSpecsLoaded id twoFeatures fourSpecs false).1 fourSpecs false).1 =
        (syncBacklogFromSpecsLoaded id twoFeatures fourSpecs false).1 ∧
      (syncBacklogFromSpecsLoaded id
          (syncBacklogFromSpecsLoaded id twoFeatures fourSpecs false).1 fourSpecs
          false).2.updated = false :=
  sync_loses_nothing id false (by decide +kernel) (by decide +kernel)

example : (syncBacklogFromSpecsLoaded id twoFeatures fourSpecs false).2 =
    { updated := true, addedTasks := 1, updatedTasks := 0, addedFeatures := 1,
      skippedSpecs := [([0x64], .done)] } := by
  decide +kernel

end OrcState.SpecSync
