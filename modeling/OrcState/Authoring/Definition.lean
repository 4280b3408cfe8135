import OrcState.Authoring.Import
import OrcState.Foundation.Checks
import OrcState.Markdown.Titles
import OrcState.Store.RevisionSafety

/-!
# The definition that a spec gives a task

A spec states the title, the body, the indexed fields and six keys of the metadata;
what it omits has the value of a new task.  A task created from a spec has that
definition and nothing else besides its feature, and a task revised to it has that
definition and keeps the keys that no spec states.
-/

namespace OrcState.Authoring

open OrcState.Contract OrcState.Foundation OrcState.Store
open OrcState.Markdown (ParsedTaskMarkdown SpecFields)

/-! ## Checks -/

theorem checkThat_ok {c : Bool} {message : String} {u : Unit} :
    Markdown.checkThat c message = .ok u ↔ c = true := by
  unfold Markdown.checkThat
  split
  · rename_i hc
    exact iff_of_true rfl hc
  · rename_i hc
    constructor
    · intro h
      cases h
    · intro h
      exact absurd h hc

theorem optionalChoice_ok {value : Given String} {field : String}
    {choices : List String} {choice : Option String}
    (h : optionalChoice value field choices = .ok choice) :
    choice = value.toOption ∧ ∀ c, choice = some c → c ∈ choices := by
  unfold optionalChoice at h
  split at h
  · rename_i given
    split at h
    · rename_i hgiven
      cases h
      refine ⟨rfl, fun c hc => ?_⟩
      cases hc
      exact List.contains_iff_mem.mp hgiven
    · cases h
  · rename_i hvalue
    cases h
    cases value with
    | absent => exact ⟨rfl, fun c hc => by cases hc⟩
    | null => exact ⟨rfl, fun c hc => by cases hc⟩
    | value given => exact absurd rfl (hvalue given)

theorem checkProvider_ok {value : Given String} {provider : Option TaskProvider}
    (h : checkProvider value = .ok provider) :
    value.toOption.map providerOf = provider.map some := by
  unfold checkProvider at h
  split at h
  · rename_i name
    split at h
    · rename_i known hknown
      cases h
      exact congrArg some hknown
    · cases h
  · rename_i hvalue
    cases h
    cases value with
    | absent => rfl
    | null => rfl
    | value given => exact absurd rfl (hvalue given)

theorem priorityOf_of_mem {text : String} (h : text ∈ taskPriorities) :
    ∃ priority, priorityOf text = some priority := by
  simp only [taskPriorities, List.mem_cons, List.not_mem_nil, or_false] at h
  rcases h with rfl | rfl | rfl | rfl
  · exact ⟨.low, rfl⟩
  · exact ⟨.normal, rfl⟩
  · exact ⟨.high, rfl⟩
  · exact ⟨.critical, rfl⟩

/-! ## Setting metadata -/

theorem get_remove (metadata : Metadata) (key k : String) :
    (remove metadata key).get k = if k = key then none else metadata.get k := by
  unfold Metadata.get
  by_cases hk : k = key
  · rw [if_pos hk, Option.map_eq_none_iff]
    refine Table.find?_eq_none.mpr fun field hfield => ?_
    have hne := (Table.mem_filter.mp hfield).2
    rw [hk]
    simpa using hne
  · rw [if_neg hk]
    refine congrArg _ (Table.find?_filter fun field hkey => ?_)
    rw [hkey]
    simpa using hk

/-- What `setField` makes of the value that the field has. -/
def settle (value : Given MetadataValue) (old : Option MetadataValue) :
    Option MetadataValue :=
  match value with
  | .absent => old
  | .null => none
  | .value v => if v = .texts [] then none else some v

theorem get_setField (metadata : Metadata) (key : String)
    (value : Given MetadataValue) (k : String) :
    (setField metadata key value).get k =
      if k = key then settle value (metadata.get key) else metadata.get k := by
  cases value with
  | absent =>
      change metadata.get k = if k = key then metadata.get key else metadata.get k
      split
      · rename_i hk
        rw [hk]
      · rfl
  | null => exact get_remove metadata key k
  | value v =>
      unfold setField settle
      by_cases hv : v = .texts []
      · simp only [if_pos hv]
        exact get_remove metadata key k
      · simp only [if_neg hv]
        exact get_assign metadata key v k

theorem chosen_toOption (value : Given String) :
    chosen value value.toOption = value.map .text := by
  cases value <;> rfl

def givenFields (input : TaskAuthoringInput) (criteria : Given MetadataValue) :
    List (String × Given MetadataValue) := [
  ("task_type", unlessNull .text input.taskType),
  ("description", input.description.map .text),
  ("required_capabilities", unlessNull .texts input.requiredCapabilities),
  ("model", input.model.map .text),
  ("review_level", input.reviewLevel.map .text),
  ("merge_strategy", input.mergeStrategy.map .text),
  ("acceptance_criteria", criteria)]

def setFields (metadata : Metadata)
    (fields : List (String × Given MetadataValue)) : Metadata :=
  fields.foldl (fun metadata field => setField metadata field.1 field.2) metadata

theorem get_setFields_of_not_mem {fields : List (String × Given MetadataValue)}
    {k : String} (h : k ∉ fields.map Prod.fst) (metadata : Metadata) :
    (setFields metadata fields).get k = metadata.get k := by
  induction fields generalizing metadata with
  | nil => rfl
  | cons field rest ih =>
      rw [List.map_cons, List.mem_cons, not_or] at h
      change (setFields (setField metadata field.1 field.2) rest).get k = _
      rw [ih h.2, get_setField, if_neg h.1]

theorem get_setFields {fields : List (String × Given MetadataValue)}
    (hnodup : (fields.map Prod.fst).Nodup) {field : String × Given MetadataValue}
    (h : field ∈ fields) (metadata : Metadata) :
    (setFields metadata fields).get field.1 =
      settle field.2 (metadata.get field.1) := by
  induction fields generalizing metadata with
  | nil => cases h
  | cons first rest ih =>
      rw [List.map_cons, List.nodup_cons] at hnodup
      change (setFields (setField metadata first.1 first.2) rest).get field.1 = _
      rcases List.mem_cons.mp h with rfl | hrest
      · rw [get_setFields_of_not_mem hnodup.1, get_setField, if_pos rfl]
      · have hne : field.1 ≠ first.1 := by
          intro heq
          exact hnodup.1 (heq ▸ List.mem_map_of_mem hrest)
        rw [ih hnodup.2 hrest, get_setField, if_neg hne]

theorem definitionMetadata_ok {input : TaskAuthoringInput} {base m : Metadata}
    {body : String} (h : definitionMetadata input base body = .ok m)
    (hcriteria : input.acceptanceCriteria = .absent)
    (hbody : input.bodyMarkdown.isAbsent = false) :
    m = setFields base (givenFields input
      (.value (.texts (parseBodyAcceptanceCriteria body)))) := by
  unfold definitionMetadata at h
  obtain ⟨taskType, htype, h⟩ := Checks.bind_ok.mp h
  obtain ⟨reviewLevel, hreview, h⟩ := Checks.bind_ok.mp h
  obtain ⟨mergeStrategy, hmerge, h⟩ := Checks.bind_ok.mp h
  obtain ⟨rfl, -⟩ := optionalChoice_ok htype
  obtain ⟨rfl, -⟩ := optionalChoice_ok hreview
  obtain ⟨rfl, -⟩ := optionalChoice_ok hmerge
  rw [hcriteria, hbody, chosen_toOption, chosen_toOption] at h
  exact (Checks.pure_ok.mp h).symm

/-! ## What a spec states -/

def listed (items : List String) : Option MetadataValue :=
  if items = [] then none else some (.texts items)

def statedMetadata (spec : ParsedTaskMarkdown) :
    List (String × Option MetadataValue) := [
  ("task_type", some (.text (spec.fields.taskType.getD "implementation"))),
  ("required_capabilities", listed (spec.fields.requiredCapabilities.getD [])),
  ("model", spec.fields.model.map .text),
  ("review_level", spec.fields.reviewLevel.map .text),
  ("merge_strategy", spec.fields.mergeStrategy.map .text),
  ("acceptance_criteria", listed (parseBodyAcceptanceCriteria spec.bodyMarkdown))]

def statedKeys : List String :=
  ["task_type", "required_capabilities", "model", "review_level",
    "merge_strategy", "acceptance_criteria"]

theorem stated_ne_bodySource {spec : ParsedTaskMarkdown}
    {field : String × Option MetadataValue} (h : field ∈ statedMetadata spec) :
    field.1 ≠ "body_source" := by
  intro heq
  have hin : field.1 ∈ statedKeys := List.mem_map_of_mem h
  rw [heq] at hin
  revert hin
  decide

structure Stated (spec : ParsedTaskMarkdown) (content : TaskSpec) : Prop where
  title : content.title = spec.title
  bodyMarkdown : content.bodyMarkdown = spec.bodyMarkdown
  priority : priorityOf (spec.fields.priority.getD "normal") =
    some content.priority
  requiredProvider : spec.fields.requiredProvider.map providerOf =
    content.requiredProvider.map some
  dependsOn : ∀ d, d ∈ content.dependsOn ↔ d ∈ spec.fields.dependsOn.getD []
  metadata : ∀ field ∈ statedMetadata spec,
    content.metadata.get field.1 = field.2

def contentOf (task : SpecStore.CurrentTask) : TaskSpec where
  title := task.row.title
  bodyMarkdown := task.latest.bodyMarkdown
  metadata := task.latest.metadata
  priority := task.row.priority
  requiredProvider := task.row.requiredProvider
  dependsOn := task.dependsOn

/-! ## What a parsed spec is -/

structure Parsed (spec : ParsedTaskMarkdown) : Prop where
  ref : taskRefRe spec.ref = true
  feature : Markdown.featureOf spec.ref = spec.feature
  title : spec.title = "" → parseBodyTitle spec.bodyMarkdown = none

theorem parseSpec_parsed {sha256 : Json.Units → String} {text body : Json.Units}
    {source : String} {strict : Bool} {frontmatter : Markdown.Frontmatter}
    {ref : TaskRef} {spec : ParsedTaskMarkdown}
    (h : Markdown.parseSpec sha256 text source strict frontmatter body ref =
      .ok spec) : Parsed spec := by
  unfold Markdown.parseSpec at h
  obtain ⟨_, href, h⟩ := Checks.bind_ok.mp h
  obtain ⟨_, hfeature, h⟩ := Checks.bind_ok.mp h
  obtain ⟨_, -, h⟩ := Checks.bind_ok.mp h
  obtain ⟨_, -, h⟩ := Checks.bind_ok.mp h
  obtain ⟨fields, -, h⟩ := Checks.bind_ok.mp h
  obtain ⟨baseRevision, -, h⟩ := Checks.bind_ok.mp h
  cases Checks.pure_ok.mp h
  refine ⟨checkThat_ok.mp href, of_decide_eq_true (checkThat_ok.mp hfeature), ?_⟩
  intro htitle
  cases hstated : (frontmatter.scalar "title").filter
      fun title => !Contract.blank title with
  | none =>
      simp only [hstated, Option.getD_none] at htitle
      exact Markdown.parseBodyTitle_of_titleFromBody htitle
  | some title =>
      simp only [hstated, Option.getD_some] at htitle
      have hblank := (Option.filter_eq_some_iff.mp hstated).2
      rw [htitle] at hblank
      cases hblank

theorem readSpecs_parsed {sha256 : Json.Units → String} {strict : Bool}
    {sources : List TaskMarkdownSource} {specs : List ParsedTaskMarkdown}
    (h : readSpecs sha256 strict sources = .ok specs) :
    ∀ spec ∈ specs, Parsed spec := by
  induction sources generalizing specs with
  | nil =>
      cases h
      exact fun spec hspec => absurd hspec List.not_mem_nil
  | cons source rest ih =>
      obtain ⟨found, hparse, h⟩ := Checks.bind_ok.mp h
      cases found with
      | none => cases h
      | some first =>
          obtain ⟨others, hrest, h⟩ := Checks.bind_ok.mp h
          cases Checks.pure_ok.mp h
          intro spec hspec
          rcases List.mem_cons.mp hspec with rfl | hlater
          · unfold Markdown.parseTaskMarkdown at hparse
            split at hparse
            · cases hparse
            · cases hparse
            · split at hparse
              · cases hparse
              · obtain ⟨_, hspec, hsome⟩ := Checks.map_ok.mp hparse
                cases hsome
                exact parseSpec_parsed hspec
          · exact ih hrest spec hlater

/-! ## A task created from a spec -/

structure Prepared (spec : ParsedTaskMarkdown) (input : TaskSpecInput) : Prop where
  ref : input.ref = spec.ref
  title : input.title = (some spec.title).filter (· ≠ "")
  bodyMarkdown : input.bodyMarkdown = spec.bodyMarkdown
  priority : priorityOf (spec.fields.priority.getD "normal") =
    some (input.priority.getD .normal)
  requiredProvider : spec.fields.requiredProvider.map providerOf =
    input.requiredProvider.map some
  dependsOn : input.dependsOn = spec.fields.dependsOn.getD []
  createdAt : input.createdAt = none
  metadata : ∀ key, key ≠ "body_source" → input.metadata.get key =
    (setFields (newMetadata spec.feature) (givenFields (newTaskInput spec)
      (.value (.texts (parseBodyAcceptanceCriteria spec.bodyMarkdown))))).get key

theorem prepareProjectTask_ok {spec : ParsedTaskMarkdown} (hspec : Parsed spec)
    {exists? : TaskRef → Bool} {actorId : AgentId}
    {prepared : TaskSpecInput × Option AgentId}
    (h : prepareProjectTask exists? (newTaskInput spec) actorId = .ok prepared) :
    Prepared spec prepared.1 ∧ prepared.2 = none := by
  have hfeature : (((newTaskInput spec).feature.toOption.map fun text =>
      jsTrim text.toList).filter (· ≠ "")).getD "general" = spec.feature := by
    obtain ⟨htrim, hne⟩ := Markdown.jsTrim_featureOf hspec.ref
    rw [hspec.feature] at htrim hne
    change ((some (jsTrim spec.feature.toList)).filter (· ≠ "")).getD "general" = _
    rw [htrim, Option.filter_some_pos (by simpa using hne)]
    rfl
  have href : spec.feature ++ "/" ++ Markdown.slugOf spec.ref = spec.ref := by
    rw [← hspec.feature]
    exact (Markdown.featureOf_slugOf hspec.ref).1
  unfold prepareProjectTask at h
  rw [hfeature] at h
  obtain ⟨_, -, h⟩ := Checks.bind_ok.mp h
  obtain ⟨_, -, h⟩ := Checks.bind_ok.mp h
  obtain ⟨_, -, h⟩ := Checks.bind_ok.mp h
  obtain ⟨_, -, h⟩ := Checks.bind_ok.mp h
  obtain ⟨priority, hpriority, h⟩ := Checks.bind_ok.mp h
  obtain ⟨provider, hprovider, h⟩ := Checks.bind_ok.mp h
  obtain ⟨_, -, h⟩ := Checks.bind_ok.mp h
  split at h
  · cases h
  · obtain ⟨metadata, hmetadata, h⟩ := Checks.bind_ok.mp h
    cases Checks.pure_ok.mp h
    have hset := definitionMetadata_ok hmetadata rfl rfl
    refine ⟨⟨href, rfl, rfl, ?_, ?_, ?_, rfl, ?_⟩, rfl⟩
    · obtain ⟨rfl, hmem⟩ := optionalChoice_ok hpriority
      change priorityOf _ = some (((((spec.fields.priority.map Given.value).getD
        .absent).toOption).bind priorityOf).getD .normal)
      cases hp : spec.fields.priority with
      | none => rfl
      | some text =>
          have hin := hmem text (by
            change ((spec.fields.priority.map Given.value).getD .absent).toOption = _
            rw [hp]
            rfl)
          obtain ⟨known, hknown⟩ := priorityOf_of_mem hin
          change priorityOf text = some ((priorityOf text).getD .normal)
          rw [hknown]
          rfl
    · have hgiven := checkProvider_ok hprovider
      rw [← hgiven]
      change _ = ((spec.fields.requiredProvider.map Given.value).getD
        .absent).toOption.map providerOf
      cases spec.fields.requiredProvider <;> rfl
    · change (((spec.fields.dependsOn.map Given.value).getD
        .absent).toOption).getD [] = _
      cases spec.fields.dependsOn <;> rfl
    · intro key hkey
      change Metadata.get (if _ then metadata else _) key = _
      split
      · rw [hset]
        rfl
      · rw [get_assign, if_neg hkey, hset]
        rfl

/-! ## The keys that a spec sets -/

theorem givenFields_nodup (input : TaskAuthoringInput)
    (criteria : Given MetadataValue) :
    ((givenFields input criteria).map Prod.fst).Nodup := by
  change ["task_type", "description", "required_capabilities", "model",
    "review_level", "merge_strategy", "acceptance_criteria"].Nodup
  decide

theorem get_given {input : TaskAuthoringInput} {criteria v : Given MetadataValue}
    {key : String} (h : (key, v) ∈ givenFields input criteria)
    (base : Metadata) :
    (setFields base (givenFields input criteria)).get key =
      settle v (base.get key) :=
  get_setFields (givenFields_nodup input criteria) h base

theorem get_other {input : TaskAuthoringInput} {criteria : Given MetadataValue}
    {key : String} (hdescription : input.description = .absent)
    (hkey : key ∉ statedKeys) (base : Metadata) :
    (setFields base (givenFields input criteria)).get key = base.get key := by
  by_cases hk : key = "description"
  · subst hk
    rw [get_given (.tail _ (.head _)), hdescription]
    rfl
  · apply get_setFields_of_not_mem
    simp only [statedKeys, List.mem_cons, List.not_mem_nil, or_false] at hkey
    simp only [givenFields, List.map_cons, List.map_nil, List.mem_cons,
      List.not_mem_nil, or_false]
    tauto

theorem settle_texts (items : List String) (old : Option MetadataValue) :
    settle (.value (.texts items)) old = listed items := by
  simp [settle, listed]

structure Omitting (start : TaskAuthoringInput) (base : Metadata) : Prop where
  taskType : settle (unlessNull .text start.taskType) (base.get "task_type") =
    some (.text "implementation")
  requiredCapabilities : settle (unlessNull .texts start.requiredCapabilities)
    (base.get "required_capabilities") = none
  model : settle (start.model.map .text) (base.get "model") = none
  reviewLevel : settle (start.reviewLevel.map .text) (base.get "review_level") =
    none
  mergeStrategy : settle (start.mergeStrategy.map .text)
    (base.get "merge_strategy") = none

theorem settle_spread {given : Option String} {start : Given String}
    {old : Option MetadataValue} (h : settle (start.map .text) old = none) :
    settle (((given.map Given.value).getD start).map .text) old =
      given.map .text := by
  cases given with
  | none => exact h
  | some text => rfl

theorem statedMetadata_spread {spec : ParsedTaskMarkdown}
    {start : TaskAuthoringInput} {base : Metadata} (h : Omitting start base) :
    ∀ field ∈ statedMetadata spec,
      (setFields base (givenFields (spread start spec.fields)
        (.value (.texts (parseBodyAcceptanceCriteria spec.bodyMarkdown))))).get
          field.1 = field.2 := by
  intro field hfield
  simp only [statedMetadata, List.mem_cons, List.not_mem_nil, or_false] at hfield
  rcases hfield with rfl | rfl | rfl | rfl | rfl | rfl
  · rw [get_given (.head _)]
    change settle (unlessNull .text ((spec.fields.taskType.map Given.value).getD
      start.taskType)) _ = _
    cases spec.fields.taskType with
    | none => exact h.taskType
    | some text => rfl
  · rw [get_given (.tail _ (.tail _ (.head _)))]
    change settle (unlessNull .texts ((spec.fields.requiredCapabilities.map
      Given.value).getD start.requiredCapabilities)) _ = _
    cases spec.fields.requiredCapabilities with
    | none => exact h.requiredCapabilities
    | some items => exact settle_texts items _
  · rw [get_given (.tail _ (.tail _ (.tail _ (.head _))))]
    exact settle_spread h.model
  · rw [get_given (.tail _ (.tail _ (.tail _ (.tail _ (.head _)))))]
    exact settle_spread h.reviewLevel
  · rw [get_given (.tail _ (.tail _ (.tail _ (.tail _ (.tail _ (.head _))))))]
    exact settle_spread h.mergeStrategy
  · rw [get_given
      (.tail _ (.tail _ (.tail _ (.tail _ (.tail _ (.tail _ (.head _)))))))]
    exact settle_texts _ _

theorem get_newMetadata (feature key : String) :
    (newMetadata feature).get key =
      if key = "task_type" then some (.text "implementation")
      else if key = "feature" then some (.text feature) else none := by
  rw [newMetadata, get_assign, get_assign]
  rfl

theorem statedMetadata_new (spec : ParsedTaskMarkdown) :
    ∀ field ∈ statedMetadata spec,
      (setFields (newMetadata spec.feature) (givenFields (newTaskInput spec)
        (.value (.texts (parseBodyAcceptanceCriteria spec.bodyMarkdown))))).get
          field.1 = field.2 := by
  apply statedMetadata_spread
  constructor
  all_goals
    rw [get_newMetadata]
    rfl

theorem statedMetadata_revision (spec : ParsedTaskMarkdown) (base : Metadata) :
    ∀ field ∈ statedMetadata spec,
      (setFields base (givenFields (revisionInput spec)
        (.value (.texts (parseBodyAcceptanceCriteria spec.bodyMarkdown))))).get
          field.1 = field.2 :=
  statedMetadata_spread ⟨rfl, settle_texts [] _, rfl, rfl, rfl⟩

/-! ## The content of a created task -/

theorem firstSpec_content {σ : Type} {input : TaskSpecInput} {content : TaskSpec}
    {s t : σ} (h : firstSpec input s = .ok (content, t)) :
    (input.title.or (parseBodyTitle input.bodyMarkdown)).filter
        (fun title => !blank title) = some content.title ∧
      content.bodyMarkdown = input.bodyMarkdown ∧
      content.priority = input.priority.getD .normal ∧
      content.requiredProvider = input.requiredProvider := by
  simp only [firstSpec, Txn.bind_ok, Txn.orThrow_ok, Txn.throwIf_ok,
    Txn.pure_ok] at h
  obtain ⟨title, _, ⟨htitle, rfl⟩, _, _, -, dependsOn, _, -, rfl, -⟩ := h
  exact ⟨htitle, rfl, rfl, rfl⟩

theorem mem_normalized {dependsOn : List TaskRef} {d : TaskRef} :
    d ∈ (dependsOn.eraseDups.insertionSort fun a b => jsLe a b = true) ↔
      d ∈ dependsOn := by
  rw [List.mem_insertionSort, List.mem_eraseDups]

theorem Prepared.stated {spec : ParsedTaskMarkdown} {input : TaskSpecInput}
    (h : Prepared spec input) (hspec : Parsed spec) {σ : Type}
    {content : TaskSpec} {s t : σ}
    (hfirst : firstSpec input s = .ok (content, t)) : Stated spec content := by
  obtain ⟨htitle, hbody, hpriority, hprovider⟩ := firstSpec_content hfirst
  obtain ⟨-, hmetadata, hdeps⟩ := firstSpec_ok hfirst
  refine ⟨?_, hbody.trans h.bodyMarkdown, ?_, ?_, fun d => ?_, ?_⟩
  · rw [h.title, h.bodyMarkdown] at htitle
    by_cases hempty : spec.title = ""
    · rw [hspec.title hempty, hempty] at htitle
      cases htitle
    · rw [Option.filter_some_pos (by simpa using hempty)] at htitle
      exact (Option.some.inj (Option.filter_eq_some_iff.mp htitle).1).symm
  · rw [hpriority]
    exact h.priority
  · rw [hprovider]
    exact h.requiredProvider
  · rw [hdeps, mem_normalized, h.dependsOn]
  · intro field hfield
    have hkey := stated_ne_bodySource hfield
    rw [hmetadata, h.metadata _ hkey]
    exact statedMetadata_new spec field hfield

theorem Prepared.others {spec : ParsedTaskMarkdown} {input : TaskSpecInput}
    (h : Prepared spec input) {key : String} (hkey : key ∉ statedKeys)
    (hbody : key ≠ "body_source") :
    input.metadata.get key =
      if key = "feature" then some (.text spec.feature) else none := by
  rw [h.metadata key hbody, get_other rfl hkey, get_newMetadata, if_neg]
  intro heq
  rw [heq] at hkey
  exact hkey (by decide)

/-! ## The content of a revised task -/

theorem revised_content {σ : Type} {changes : TaskSpecChanges}
    {current : SpecStore.CurrentTask} {content : TaskSpec} {t t' : σ}
    (h : SpecStore.revised changes current t = .ok (content, t')) :
    content.title = SpecStore.revisedTitle changes current ∧
      content.bodyMarkdown =
        changes.bodyMarkdown.getD current.latest.bodyMarkdown ∧
      content.priority = changes.priority.getD current.row.priority ∧
      content.requiredProvider =
        changes.requiredProvider.getD current.row.requiredProvider := by
  simp only [SpecStore.revised, Txn.bind_ok, Txn.throwIf_ok, Txn.pure_ok] at h
  obtain ⟨_, _, -, dependsOn, _, -, rfl, -⟩ := h
  exact ⟨rfl, rfl, rfl, rfl⟩

structure Changes (spec : ParsedTaskMarkdown) (current : SpecStore.CurrentTask)
    (changes : TaskSpecChanges) : Prop where
  title : changes.title = some spec.title
  bodyMarkdown : changes.bodyMarkdown = some spec.bodyMarkdown
  priority : ∃ priority, changes.priority = some priority ∧
    priorityOf (spec.fields.priority.getD "normal") = some priority
  requiredProvider : ∃ provider, changes.requiredProvider = some provider ∧
    spec.fields.requiredProvider.map providerOf = provider.map some
  dependsOn : changes.dependsOn = some (spec.fields.dependsOn.getD [])
  metadata : ∃ metadata, changes.metadata = some metadata ∧
    ∀ key, key ≠ "body_source" → metadata.get key =
      (setFields current.latest.metadata.base (givenFields (revisionInput spec)
        (.value (.texts (parseBodyAcceptanceCriteria spec.bodyMarkdown))))).get key

theorem prepareRevision_ok {spec : ParsedTaskMarkdown}
    {current : SpecStore.CurrentTask} {changes : TaskSpecChanges}
    (h : prepareRevision (revisionInput spec) current = .ok changes) :
    Changes spec current changes := by
  unfold prepareRevision at h
  obtain ⟨_, -, h⟩ := Checks.bind_ok.mp h
  obtain ⟨priority, hpriority, h⟩ := Checks.bind_ok.mp h
  obtain ⟨provider, hprovider, h⟩ := Checks.bind_ok.mp h
  obtain ⟨metadata, hmetadata, h⟩ := Checks.bind_ok.mp h
  cases Checks.pure_ok.mp h
  have hset := definitionMetadata_ok hmetadata rfl rfl
  refine ⟨rfl, rfl, ?_, ?_, ?_, _, rfl, ?_⟩
  · obtain ⟨rfl, hmem⟩ := optionalChoice_ok hpriority
    have hgiven : (revisionInput spec).priority.toOption =
        some (spec.fields.priority.getD "normal") := by
      change ((spec.fields.priority.map Given.value).getD _).toOption = _
      cases spec.fields.priority <;> rfl
    obtain ⟨known, hknown⟩ := priorityOf_of_mem (hmem _ hgiven)
    exact ⟨known, by rw [hgiven]; exact hknown, hknown⟩
  · have hgiven := checkProvider_ok hprovider
    refine ⟨provider, ?_, ?_⟩
    · change (if Given.isAbsent ((spec.fields.requiredProvider.map
        Given.value).getD .null) = true then none else some provider) = _
      cases spec.fields.requiredProvider <;> rfl
    · rw [← hgiven]
      change _ = ((spec.fields.requiredProvider.map Given.value).getD
        .null).toOption.map providerOf
      cases spec.fields.requiredProvider <;> rfl
  · change (if Given.isNull ((spec.fields.dependsOn.map Given.value).getD
      (.value [])) = true then some []
        else ((spec.fields.dependsOn.map Given.value).getD
          (.value [])).toOption) = _
    cases spec.fields.dependsOn <;> rfl
  · intro key hkey
    unfold revisedMetadata
    split
    · rw [get_remove, if_neg hkey, hset]
      rfl
    · rw [hset]
      rfl

theorem Changes.stated {spec : ParsedTaskMarkdown}
    {current : SpecStore.CurrentTask} {changes : TaskSpecChanges}
    (h : Changes spec current changes) {σ : Type} {content : TaskSpec} {t t' : σ}
    (hrevised : SpecStore.revised changes current t = .ok (content, t')) :
    Stated spec content := by
  obtain ⟨htitle, hbody, hpriority, hprovider⟩ := revised_content hrevised
  obtain ⟨-, hmetadata, hdeps⟩ := revised_ok hrevised
  refine ⟨?_, ?_, ?_, ?_, fun d => ?_, fun field hfield => ?_⟩
  · rw [htitle, SpecStore.revisedTitle, h.title]
    rfl
  · rw [hbody, h.bodyMarkdown]
    rfl
  · obtain ⟨priority, hgiven, hknown⟩ := h.priority
    rw [hpriority, hgiven]
    exact hknown
  · obtain ⟨provider, hgiven, hknown⟩ := h.requiredProvider
    rw [hprovider, hgiven]
    exact hknown
  · rw [hdeps, h.dependsOn]
    exact mem_normalized
  · have hkey := stated_ne_bodySource hfield
    obtain ⟨metadata, hgiven, hget⟩ := h.metadata
    rw [hmetadata, hgiven]
    exact (hget _ hkey).trans (statedMetadata_revision spec _ field hfield)

theorem Changes.others {spec : ParsedTaskMarkdown}
    {current : SpecStore.CurrentTask} {changes : TaskSpecChanges}
    (h : Changes spec current changes) {σ : Type} {content : TaskSpec} {t t' : σ}
    (hrevised : SpecStore.revised changes current t = .ok (content, t'))
    {key : String} (hkey : key ∉ statedKeys) (hbody : key ≠ "body_source")
    (hindexed : indexedKey key = false) :
    content.metadata.get key = current.latest.metadata.get key := by
  obtain ⟨-, hmetadata, -⟩ := revised_ok hrevised
  obtain ⟨metadata, hgiven, hget⟩ := h.metadata
  rw [hmetadata, hgiven]
  change metadata.get key = _
  rw [hget key hbody, get_other rfl hkey, get_base hindexed]

/-! ## The content as it is stored -/

theorem stated_not_indexed {spec : ParsedTaskMarkdown}
    {field : String × Option MetadataValue} (h : field ∈ statedMetadata spec) :
    indexedKey field.1 = false := by
  have hin : field.1 ∈ statedKeys := List.mem_map_of_mem h
  have hall : ∀ key ∈ statedKeys, indexedKey key = false := by decide
  exact hall _ hin

theorem Stated.congr {spec : ParsedTaskMarkdown} {a b : TaskSpec}
    (h : Stated spec a) (htitle : b.title = a.title)
    (hbody : b.bodyMarkdown = a.bodyMarkdown) (hpriority : b.priority = a.priority)
    (hprovider : b.requiredProvider = a.requiredProvider)
    (hdeps : ∀ d, d ∈ b.dependsOn ↔ d ∈ a.dependsOn)
    (hmetadata : ∀ key, indexedKey key = false →
      b.metadata.get key = a.metadata.get key) : Stated spec b where
  title := htitle.trans h.title
  bodyMarkdown := hbody.trans h.bodyMarkdown
  priority := hpriority ▸ h.priority
  requiredProvider := hprovider ▸ h.requiredProvider
  dependsOn d := (hdeps d).trans (h.dependsOn d)
  metadata field hfield :=
    (hmetadata _ (stated_not_indexed hfield)).trans (h.metadata field hfield)

theorem Stated.of_unchanged {spec : ParsedTaskMarkdown} {content : TaskSpec}
    {current : SpecStore.CurrentTask} {s : SpecStore} (h : Stated spec content)
    (hunchanged : SpecStore.unchanged content current = true)
    (hdescribed : Described s current.row current.latest)
    (hdeps : s.dependenciesOf current.row.ref = current.dependsOn) :
    Stated spec (contentOf current) := by
  obtain ⟨htitle, hbody, hpriority, hprovider, hrefs, hmetadata⟩ :=
    fields_of_unchanged hunchanged hdescribed hdeps
  exact h.congr htitle.symm hbody.symm hpriority.symm hprovider.symm
    (fun d => (hrefs d).symm) fun key hkey => (hmetadata key hkey).symm

theorem Stated.stored {spec : ParsedTaskMarkdown} {content : TaskSpec}
    (h : Stated spec content) {ref : TaskRef} {revision : Nat} {now : String}
    {row : TaskRow} (hrow : row.title = content.title ∧
      row.priority = content.priority ∧
      row.requiredProvider = content.requiredProvider) :
    Stated spec (contentOf ⟨row, SpecStore.pinned ref revision content now,
      content.dependsOn.insertionSort (· ≤ ·)⟩) :=
  h.congr hrow.1 rfl hrow.2.1 hrow.2.2
    (fun _ => List.mem_insertionSort (· ≤ ·))
    fun _ hkey => get_revisionMetadata content hkey

end OrcState.Authoring
