import OrcState.Foundation.Effect
import OrcState.Markdown.TaskMarkdown
import OrcState.Store.EventsDb
import OrcState.Store.Revisions

/-!
# Authoring

How a task is created and edited: the input is checked and turned into a spec or into
the changes of a revision, one transaction of `runtime.db` writes it, and an event in
`events.db` tells of it.  Inside a batch the transaction is the batch's and the event
waits for its commit.  An argument is given, null, or absent; its type is the one the
check of the source asks for.
-/

namespace OrcState.Authoring

open OrcState.Contract OrcState.Foundation OrcState.Store

/-! ## Arguments -/

/-- A value of an argument object: `undefined`, `null`, or given. -/
inductive Given (α : Type) where
  | absent
  | null
  | value (a : α)
  deriving DecidableEq, Repr

namespace Given

variable {α β : Type}

/-- `value ?? undefined`. -/
def toOption : Given α → Option α
  | .value a => some a
  | _ => none

def ofOption : Option α → Given α
  | some a => .value a
  | none => .absent

def map (f : α → β) : Given α → Given β
  | .absent => .absent
  | .null => .null
  | .value a => .value (f a)

def isAbsent : Given α → Bool
  | .absent => true
  | _ => false

def isNull : Given α → Bool
  | .null => true
  | _ => false

end Given

structure TaskAuthoringInput where
  feature : Given String := .absent
  ref : Given String := .absent
  title : Given String := .absent
  bodyMarkdown : Given String := .absent
  taskType : Given String := .absent
  priority : Given String := .absent
  description : Given String := .absent
  acceptanceCriteria : Given (List String) := .absent
  dependsOn : Given (List String) := .absent
  requiredCapabilities : Given (List String) := .absent
  requiredProvider : Given String := .absent
  model : Given String := .absent
  reviewLevel : Given String := .absent
  mergeStrategy : Given String := .absent
  owner : Given String := .absent
  deriving DecidableEq, Repr

def taskTypes : List String := ["implementation", "refactor"]

def taskPriorities : List String := ["low", "normal", "high", "critical"]

def priorityOf : String → Option TaskPriority
  | "low" => some .low
  | "normal" => some .normal
  | "high" => some .high
  | "critical" => some .critical
  | _ => none

/-- `isSupportedProvider`, with the provider it supports. -/
def providerOf : String → Option TaskProvider
  | "codex" => some .codex
  | "claude" => some .claude
  | "gemini" => some .gemini
  | _ => none

def jsonText (value : String) : String :=
  Markdown.ofUnits (Json.stringify (Markdown.units value))

def optionalChoice (value : Given String) (field : String)
    (choices : List String) : Except DomainError (Option String) :=
  match value with
  | .value choice =>
      if choices.contains choice then .ok (some choice)
      else .error (inputError ("Invalid " ++ field ++ ": " ++ jsonText choice))
  | _ => .ok none

def validateDependencyRefs (dependsOn : Option (List String)) :
    Except DomainError Unit :=
  match (dependsOn.getD []).find? fun dependency => !taskRefRe dependency with
  | some dependency =>
      .error (inputError ("Invalid depends_on ref: " ++ dependency))
  | none => .ok ()

/-- `null` is no provider; any other value must name one. -/
def checkProvider (requiredProvider : Given String) :
    Except DomainError (Option TaskProvider) :=
  match requiredProvider with
  | .value name =>
      match providerOf name with
      | some provider => .ok (some provider)
      | none => .error (inputError ("Invalid required_provider: " ++
          jsonText name ++ ". Must be codex, claude, or gemini."))
  | _ => .ok none

def assertActor (actorId : AgentId) : Except DomainError Unit :=
  Markdown.checkThat (agentIdRe actorId)
    ("Invalid actor-id: " ++ actorId ++ ". Must match ^[a-z0-9][a-z0-9-]*$.")

/-! ## Bodies -/

/-- `toLowerCase`, as far as what it makes is a letter or digit of ASCII. -/
def lowerCase (c : Char) : List Char :=
  if c.toNat = 0x212A then ['k']
  else if c.toNat = 0x130 then ['i', Char.ofNat 0x307]
  else [c.toLower]

/-- `replace(/[^a-z0-9]+/g, '-')`; the flag says that a run has its dash. -/
def dashRuns : Bool → List Char → List Char
  | _, [] => []
  | inRun, c :: rest =>
      if alnum c then c :: dashRuns false rest
      else if inRun then dashRuns true rest
      else '-' :: dashRuns true rest

def slugify (text : String) : String :=
  let dashed := dashRuns false (text.toList.flatMap lowerCase)
  String.ofList ((((dashed.dropWhile (· = '-')).reverse.dropWhile
    (· = '-')).reverse).take 48)

def renderTaskBody (title : String) (description : Option String)
    (acceptanceCriteria : List String) : String :=
  let described := jsTrim (description.getD "").toList
  "\n\n".intercalate
    (["# " ++ title] ++ (if described = "" then [] else [described]) ++
      if acceptanceCriteria = [] then []
      else ["## Acceptance criteria\n\n" ++
        "\n".intercalate (acceptanceCriteria.map ("- [ ] " ++ ·))]) ++ "\n"

/-- `#{1,6}`, and what is behind it. -/
def afterHashes (line : List Char) : Option (List Char) :=
  if line.head? = some '#' ∧ (line.takeWhile (· = '#')).length ≤ 6 then
    some (line.dropWhile (· = '#'))
  else none

/-- `/^#{1,6}\s+acceptance criteria\s*$/i` of a trimmed line. -/
def criteriaHeading (line : List Char) : Bool :=
  ((afterHashes (jsTrim line).toList).bind Markdown.afterSpaces).any fun title =>
    title.map Char.toLower = "acceptance criteria".toList

/-- `/^#{1,6}\s/`. -/
def headingLine (line : List Char) : Bool :=
  (afterHashes line).any fun rest => rest.head?.any jsSpace

/-- `\s+(.+?)\s*$`: its group, as in `Markdown.restOfLine` but without `m`. -/
def restOfText (text : List Char) : Option (List Char) :=
  (Markdown.afterSpaces text).bind fun rest =>
    if rest = [] then
      ((text.drop 1).reverse.find? fun c => !lineTerminator c).map ([·])
    else
      ((rest.reverse.dropWhile jsSpace).reverse |> fun item =>
        if item.any lineTerminator then none else some item)

/-- `\[[ xX]\]`, and what is behind it. -/
def afterCheckbox (text : List Char) : Option (List Char) :=
  match text with
  | '[' :: mark :: ']' :: rest =>
      if mark = ' ' || mark = 'x' || mark = 'X' then some rest else none
  | _ => none

/-- `/^\s*[-*]\s+(?:\[[ xX]\]\s+)?(.+?)\s*$/`: its group. -/
def criterion (line : List Char) : Option (List Char) :=
  match line.dropWhile jsSpace with
  | c :: rest =>
      if c = '-' || c = '*' then
        (((Markdown.afterSpaces rest).bind afterCheckbox).bind restOfText).or
          (restOfText rest)
      else none
  | [] => none

def parseBodyAcceptanceCriteria (body : String) : List String :=
  match (body.toList.splitOn '\n').dropWhile fun line => !criteriaHeading line with
  | [] => []
  | _ :: lines =>
      (((lines.takeWhile fun line => !headingLine line).filterMap criterion).map
        String.ofList)

/-- `split('\n').find((line) => line.startsWith('# '))?.slice(2)`. -/
def headingSlug (body : String) : Option String :=
  ((body.toList.splitOn '\n').find? fun line => "# ".toList.isPrefixOf line).map
    fun line => String.ofList (line.drop 2)

/-! ## Metadata -/

def remove (metadata : Metadata) (key : String) : Metadata :=
  metadata.filter fun field => field.1 ≠ key

/-- `set`: null clears a field, and so does an empty list. -/
def setField (metadata : Metadata) (key : String) (value : Given MetadataValue) :
    Metadata :=
  match value with
  | .absent => metadata
  | .null => remove metadata key
  | .value v => if v = .texts [] then remove metadata key else metadata.assign key v

/-- `optionalString(value)` as a value to set: null is absent. -/
def unlessNull {α : Type} (f : α → MetadataValue) (value : Given α) :
    Given MetadataValue :=
  .ofOption (value.toOption.map f)

/-- `value === null ? null : optionalChoice(…)`. -/
def chosen (value : Given String) (choice : Option String) : Given MetadataValue :=
  if value.isNull then .null else .ofOption (choice.map .text)

def definitionMetadata (input : TaskAuthoringInput) (base : Metadata)
    (bodyMarkdown : String) : Except DomainError Metadata := do
  let taskType ← optionalChoice input.taskType "task_type" taskTypes
  let reviewLevel ← optionalChoice input.reviewLevel "review_level"
    ["none", "light", "full"]
  let mergeStrategy ← optionalChoice input.mergeStrategy "merge_strategy"
    ["direct", "pr"]
  let metadata := setField base "task_type" (.ofOption (taskType.map .text))
  let metadata := setField metadata "description" (input.description.map .text)
  let metadata := setField metadata "acceptance_criteria"
    (unlessNull .texts input.acceptanceCriteria)
  let metadata := setField metadata "required_capabilities"
    (unlessNull .texts input.requiredCapabilities)
  let metadata := setField metadata "model" (input.model.map .text)
  let metadata := setField metadata "review_level"
    (chosen input.reviewLevel reviewLevel)
  let metadata := setField metadata "merge_strategy"
    (chosen input.mergeStrategy mergeStrategy)
  -- Parsed from the body when the caller does not state them explicitly.
  if input.acceptanceCriteria.isAbsent && !input.bodyMarkdown.isAbsent then
    return setField metadata "acceptance_criteria"
      (.value (.texts (parseBodyAcceptanceCriteria bodyMarkdown)))
  else return metadata

/-! ## A new task -/

def newMetadata (feature : String) : Metadata :=
  Metadata.assign (Metadata.assign Table.empty "feature" (.text feature))
    "task_type" (.text "implementation")

/--
Validate the input and build the spec of the first revision, writing nothing;
`exists?` says whether the store has a task.
-/
def prepareProjectTask (exists? : TaskRef → Bool) (input : TaskAuthoringInput)
    (actorId : AgentId) : Except DomainError (TaskSpecInput × Option AgentId) := do
  assertActor actorId
  let feature := ((input.feature.toOption.map fun text => jsTrim text.toList).filter
    (· ≠ "")).getD "general"
  let explicitTitle := input.title.toOption
  let explicitBody := input.bodyMarkdown.toOption
  Markdown.checkThat (truthy explicitTitle || truthy explicitBody)
    "title or body_markdown is required"
  let bodyMarkdown := explicitBody.getD (renderTaskBody (explicitTitle.getD "")
    input.description.toOption (input.acceptanceCriteria.toOption.getD []))
  let slug := input.ref.toOption.getD
    (slugify ((explicitTitle.or (headingSlug bodyMarkdown)).getD ""))
  let ref := feature ++ "/" ++ slug
  Markdown.checkThat (slug ≠ "" && taskRefRe ref) ("Invalid task ref: " ++ ref)
  let dependsOn := input.dependsOn.toOption
  validateDependencyRefs dependsOn
  let priority ← optionalChoice input.priority "priority" taskPriorities
  let requiredProvider ← checkProvider input.requiredProvider
  Markdown.checkThat ((input.owner.toOption).all agentIdRe)
    ("Invalid owner: " ++ input.owner.toOption.getD "" ++
      ". Must match ^[a-z0-9][a-z0-9-]*$.")
  if exists? ref then .error (conflictError ("Task already exists: " ++ ref))
  else do
    let metadata ← definitionMetadata input (newMetadata feature) bodyMarkdown
    return ({
      ref := ref
      title := explicitTitle.filter (· ≠ "")
      bodyMarkdown := bodyMarkdown
      -- A body rendered from fields is re-rendered when those fields are edited.
      metadata := if truthy explicitBody then metadata
        else metadata.assign "body_source" (.text "rendered")
      priority := priority.bind priorityOf
      requiredProvider := requiredProvider
      dependsOn := dependsOn.getD [] }, input.owner.toOption)

/-! ## An edit -/

def rejectedFields (input : TaskAuthoringInput) : List String :=
  (if input.feature.isAbsent then [] else ["feature"]) ++
    (if input.ref.isAbsent then [] else ["ref"]) ++
      if input.owner.isAbsent then [] else ["owner"]

/-- `body_source` goes when the body is given anew. -/
def revisedMetadata (metadata : Metadata) (bodyMarkdown : Option String)
    (current : SpecStore.CurrentTask) : Metadata :=
  if bodyMarkdown.any (· ≠ current.latest.bodyMarkdown) then
    remove metadata "body_source"
  else metadata

def revisedBody (metadata : Metadata) (bodyMarkdown title : Option String)
    (current : SpecStore.CurrentTask) : Option String :=
  match bodyMarkdown with
  | some body => some body
  | none =>
      if metadata.textOf "body_source" = some "rendered" then
        some (renderTaskBody (title.getD current.row.title)
          (metadata.textOf "description") (metadata.textsOf "acceptance_criteria"))
      else none

def prepareRevision (input : TaskAuthoringInput) (current : SpecStore.CurrentTask) :
    Except DomainError TaskSpecChanges := do
  let bodyMarkdown := input.bodyMarkdown.toOption
  let dependsOn := if input.dependsOn.isNull then some []
    else input.dependsOn.toOption
  validateDependencyRefs dependsOn
  let priority ← optionalChoice input.priority "priority" taskPriorities
  let requiredProvider ← checkProvider input.requiredProvider
  let metadata ← definitionMetadata input current.latest.metadata.base
    (bodyMarkdown.getD current.latest.bodyMarkdown)
  let title := input.title.toOption
  return {
    title := title
    bodyMarkdown := revisedBody metadata bodyMarkdown title current
    priority := priority.bind priorityOf
    requiredProvider := if input.requiredProvider.isAbsent then none
      else some requiredProvider
    metadata := some (revisedMetadata metadata bodyMarkdown current)
    dependsOn := dependsOn }

/-! ## The stores -/

structure TaskImport where
  taskRef : TaskRef
  revision : Nat
  sourcePath : String
  fileSha256 : String
  importedAt : String
  deriving DecidableEq

structure RuntimeDb where
  specs : SpecStore := {}
  imports : List TaskImport := []
  deriving DecidableEq

structure AuthoringState where
  runtime : RuntimeDb := {}
  events : EventsDb := {}
  pendingNotifications : Option (List OrcEvent) := none
  deriving DecidableEq

abbrev Call (α : Type) := Effect AuthoringState DomainError α

def AuthoringState.specs (s : AuthoringState) : SpecStore := s.runtime.specs

def AuthoringState.withSpecs (s : AuthoringState) (specs : SpecStore) :
    AuthoringState :=
  { s with runtime := { s.runtime with specs := specs } }

def onSpecs {α : Type} (x : Specs α) : Call α :=
  Effect.atomically AuthoringState.specs AuthoringState.withSpecs x

/-- A transaction of `runtime.db`, or a savepoint of the one it is called in. -/
def transaction {α : Type} (x : Call α) : Call α := fun s =>
  match x s with
  | (.ok a, t) => (.ok a, t)
  | (.error e, t) => (.error e, { t with runtime := s.runtime })

/-! ## Events -/

section Calls

variable (dates : DateApi) (now : Int)

def emit (event : OrcEvent) : Call Unit :=
  Effect.atomically AuthoringState.events
    (fun s events => { s with events := events }) (appendSequencedEvent dates event)

def emitAll : List OrcEvent → Call Unit
  | [] => pure ()
  | event :: rest => do
      emit dates event
      emitAll rest

def notify (event : OrcEvent) : Call Unit := fun s =>
  match s.pendingNotifications with
  | some emits =>
      (.ok (), { s with pendingNotifications := some (emits ++ [event]) })
  | none => emit dates event s

/--
Run several authoring calls as one transaction: either every task change commits
or none does, and events are emitted only after the commit.
-/
def withTaskAuthoringBatch {α : Type} (operation : Call α) : Call α :=
  fun s =>
    if s.pendingNotifications.isSome then
      (.error (plainError "Task authoring batches cannot be nested"), s)
    else
      match transaction operation { s with pendingNotifications := some [] } with
      | (.error e, t) => (.error e, { t with pendingNotifications := none })
      | (.ok a, t) =>
          (do
            emitAll dates (t.pendingNotifications.getD [])
            return a) { t with pendingNotifications := none }

/-! ## Authoring calls -/

def actorTypeOf (actorId : AgentId) : ActorType :=
  if actorId = "human" then .human else .agent

def taskAdded (task : SpecStore.CurrentTask) (actorId : AgentId) : OrcEvent where
  ts := task.row.createdAt
  event := .taskAdded
  actorType := actorTypeOf actorId
  actorId := actorId
  taskRef := some task.row.ref
  payload := [
    ("title", .str task.row.title),
    ("task_type", .str ((task.latest.metadata.textOf "task_type").getD "")),
    ("feature_ref", .str ((task.latest.metadata.textOf "feature").getD "")),
    ("spec_revision", .num task.latest.revision)]

def taskUpdated (task : SpecStore.CurrentTask) (expectedRevision : Int)
    (actorId : AgentId) : OrcEvent where
  ts := task.row.runtime.updatedAt
  event := .taskUpdated
  actorType := actorTypeOf actorId
  actorId := actorId
  taskRef := some task.row.ref
  payload := [
    ("status", .str task.row.runtime.status.text),
    ("fields", .other),
    ("spec_revision", .num task.latest.revision),
    ("previous_revision", .num expectedRevision)]

/-- `getTask(ref)!`. -/
def currentTask (ref : TaskRef) : Specs SpecStore.CurrentTask := do
  let s ← get
  Txn.orThrow (s.getTask ref) (plainError ("Task not found: " ++ ref))

def redispatch (owner : Option AgentId) (actorId : AgentId) (row : TaskRow) :
    TaskRow :=
  { row with
    runtime := { row.runtime with
      dispatch := { row.runtime.dispatch with
        planningState := some .readyForDispatch
        delegatedBy := some actorId
        owner := owner } } }

/-- `setDispatchState` with the three columns that creation gives. -/
def setDispatchState (ref : TaskRef) (owner : Option AgentId) (actorId : AgentId) :
    Specs Unit :=
  modify fun s =>
    { s with rows := s.rows.update ref (redispatch owner actorId) fun _ => rfl }

/-- The writes of `createProjectTask`: the task, then its dispatch columns. -/
def insertTask (spec : TaskSpecInput) (owner : Option AgentId) (actorId : AgentId) :
    Specs SpecStore.CurrentTask := do
  SpecStore.createTask spec (dates.toISOString now)
  setDispatchState spec.ref owner actorId
  currentTask spec.ref

def createProjectTask (input : TaskAuthoringInput) (actorId : AgentId) :
    Call SpecStore.CurrentTask := do
  let s ← Effect.read
  let prepared ← Effect.ofExcept
    (prepareProjectTask (fun ref => (s.specs.getTask ref).isSome) input actorId)
  let task ← transaction (onSpecs (insertTask dates now prepared.1 prepared.2 actorId))
  notify dates (taskAdded task actorId)
  return task

/-- `reviseTask` of the store, with the task it leaves. -/
def reviseStored (ref : TaskRef) (expectedRevision : Int)
    (changes : TaskSpecChanges) : Specs (SpecStore.CurrentTask × Bool) := do
  let changed ← SpecStore.reviseTask ref expectedRevision changes
    (dates.toISOString now)
  let task ← currentTask ref
  return (task, changed)

/-- Save an edit as a new revision, failing if `expectedRevision` is stale. -/
def reviseProjectTask (ref : TaskRef) (expectedRevision : Int)
    (input : TaskAuthoringInput) (actorId : AgentId) :
    Call (SpecStore.CurrentTask × Bool) := do
  Effect.ofExcept (assertActor actorId)
  Effect.throwIf (rejectedFields input ≠ [])
    (inputError ("Task edits cannot change: " ++
      ", ".intercalate (rejectedFields input)))
  let s ← Effect.read
  let current ← Effect.orThrow (s.specs.getTask ref)
    (notFoundError ("Task not found: " ++ ref))
  let changes ← Effect.ofExcept (prepareRevision input current)
  let result ← transaction (onSpecs (reviseStored dates now ref expectedRevision changes))
  if result.2 then do
    notify dates (taskUpdated result.1 expectedRevision actorId)
    return result
  else return result

end Calls

end OrcState.Authoring
