import OrcState.Authoring.ProjectTasks

/-!
# Importing task specs

`importTaskMarkdownSources` reads every source before it writes anything, refuses a
batch that names a task twice or brings a finished task in as new, and then applies
the specs one by one in one batch.  For a task that exists the file is the whole
definition: the edit names every field that a file can state.
-/

namespace OrcState.Authoring

open OrcState.Contract OrcState.Foundation OrcState.Store
open OrcState.Markdown (ParsedTaskMarkdown SpecFields)

/-! ## Sources -/

structure TaskMarkdownSource where
  path : String
  text : Json.Units
  deriving DecidableEq

def readSpecs (sha256 : Json.Units → String) (strict : Bool) :
    List TaskMarkdownSource → Except DomainError (List ParsedTaskMarkdown)
  | [] => .ok []
  | source :: rest => do
      match ← Markdown.parseTaskMarkdown sha256 source.text source.path strict with
      | none => .error (inputError
          (source.path ++ " is not a task spec: missing ref frontmatter"))
      | some spec => do
          let specs ← readSpecs sha256 strict rest
          return spec :: specs

/-- A new task starts as todo, so a spec with another status cannot bring one in. -/
def startsOtherwise (exists? : TaskRef → Bool) (spec : ParsedTaskMarkdown) : Bool :=
  !exists? spec.ref && spec.legacyStatus.any fun status =>
    status ≠ "" && status ≠ "todo"

def checkRefs (exists? : TaskRef → Bool) :
    List TaskRef → List ParsedTaskMarkdown → Except DomainError Unit
  | _, [] => .ok ()
  | refs, spec :: rest => do
      Markdown.checkThat (!refs.contains spec.ref)
        ("Duplicate task ref in import: " ++ spec.ref)
      Markdown.checkThat (!startsOtherwise exists? spec)
        (spec.sourcePath ++ ": new task " ++ spec.ref ++ " has status " ++
          spec.legacyStatus.getD "" ++
          "; an ordinary import would start it as todo. Remove the status field " ++
          "to import it as new work, or migrate the installation to carry its " ++
          "runtime status.")
      checkRefs exists? (spec.ref :: refs) rest

/-! ## Specs as arguments -/

def spread (input : TaskAuthoringInput) (fields : SpecFields) : TaskAuthoringInput :=
  { input with
    priority := (fields.priority.map .value).getD input.priority
    requiredProvider :=
      (fields.requiredProvider.map .value).getD input.requiredProvider
    reviewLevel := (fields.reviewLevel.map .value).getD input.reviewLevel
    mergeStrategy := (fields.mergeStrategy.map .value).getD input.mergeStrategy
    taskType := (fields.taskType.map .value).getD input.taskType
    model := (fields.model.map .value).getD input.model
    dependsOn := (fields.dependsOn.map .value).getD input.dependsOn
    requiredCapabilities :=
      (fields.requiredCapabilities.map .value).getD input.requiredCapabilities }

def newTaskInput (spec : ParsedTaskMarkdown) : TaskAuthoringInput :=
  spread
    { feature := .value spec.feature
      ref := .value (Markdown.slugOf spec.ref)
      title := .value spec.title
      bodyMarkdown := .value spec.bodyMarkdown } spec.fields

/-- The file is the whole definition: a field it omits is cleared, not kept. -/
def revisionInput (spec : ParsedTaskMarkdown) : TaskAuthoringInput :=
  spread
    { title := .value spec.title
      bodyMarkdown := .value spec.bodyMarkdown
      priority := .value "normal"
      requiredProvider := .null
      reviewLevel := .null
      mergeStrategy := .null
      model := .null
      taskType := .value "implementation"
      dependsOn := .value []
      requiredCapabilities := .value [] } spec.fields

/-! ## The import -/

inductive ImportAction where
  | created | revised | unchanged
  deriving DecidableEq, Repr

structure TaskImportResult where
  path : String
  ref : TaskRef
  action : ImportAction
  revision : Nat
  ignoredFields : List String
  deriving DecidableEq, Repr

def RuntimeDb.withImport (db : RuntimeDb) (row : TaskImport) : RuntimeDb :=
  { db with imports := db.imports ++ [row] }

section Calls

variable (dates : DateApi) (now : Int)

def recordImport (ref : TaskRef) (revision : Nat) (sourcePath fileSha256 : String) :
    Call Unit :=
  Effect.atomically AuthoringState.runtime (fun s db => { s with runtime := db }) do
    let db ← get
    Txn.throwIf (fileSha256.length ≠ 64)
      (plainError "CHECK constraint failed: length(file_sha256) = 64")
    Txn.throwIf ((db.specs.getRevision ref revision).isNone = true)
      (plainError "FOREIGN KEY constraint failed")
    set (db.withImport {
      taskRef := ref
      revision := revision
      sourcePath := sourcePath
      fileSha256 := fileSha256
      importedAt := dates.toISOString now })

def applySpec (actorId : AgentId) (spec : ParsedTaskMarkdown) :
    Call (SpecStore.CurrentTask × ImportAction) := do
  let s ← Effect.read
  match s.specs.getTask spec.ref with
  | none => do
      let task ← createProjectTask dates now (newTaskInput spec) actorId
      return (task, .created)
  | some current => do
      let result ← reviseProjectTask dates now spec.ref
        (spec.baseRevision.getD current.latest.revision) (revisionInput spec) actorId
      return (result.1, if result.2 then .revised else .unchanged)

def importSpec (actorId : AgentId) (spec : ParsedTaskMarkdown) :
    Call TaskImportResult := do
  let applied ← applySpec dates now actorId spec
  recordImport dates now spec.ref applied.1.latest.revision spec.sourcePath
    spec.fileSha256
  return {
    path := spec.sourcePath
    ref := spec.ref
    action := applied.2
    revision := applied.1.latest.revision
    ignoredFields := spec.ignoredFields }

def importSpecs (actorId : AgentId) :
    List ParsedTaskMarkdown → Call (List TaskImportResult)
  | [] => return []
  | spec :: rest => do
      let result ← importSpec dates now actorId spec
      let results ← importSpecs actorId rest
      return result :: results

def importTaskMarkdownSources (sha256 : Json.Units → String)
    (sources : List TaskMarkdownSource) (strict : Bool) (actorId : AgentId) :
    Call (List TaskImportResult) := do
  let specs ← Effect.ofExcept (readSpecs sha256 strict sources)
  let s ← Effect.read
  Effect.ofExcept (checkRefs (fun ref => (s.specs.getTask ref).isSome) [] specs)
  -- One transaction: a failure in any file leaves the project unchanged.
  withTaskAuthoringBatch dates (importSpecs dates now actorId specs)

end Calls

end OrcState.Authoring
