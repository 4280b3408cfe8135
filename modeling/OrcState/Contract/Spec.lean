import OrcState.Contract.Task
import OrcState.Foundation.Table

/-!
# Task specs

What an author gives and a revision pins: title, Markdown body, metadata,
priority, provider and dependencies.  Metadata is a JSON object, kept as its
fields in the order that `JSON.stringify` lists them, so two objects have one
text exactly when they are the same list.  The title of a body is what the two
regular expressions of the source find in it.
-/

namespace OrcState.Contract

open OrcState.Foundation

/-! ## Metadata -/

/-- A JSON value; `json` is the text of one that is no string or list of strings. -/
inductive MetadataValue where
  | text (value : String)
  | texts (values : List String)
  | json (value : String)
  deriving DecidableEq, Repr

abbrev MetadataField := String × MetadataValue

/-- `Record<string, unknown>`; a field that is `undefined` is not there. -/
abbrev Metadata := Table String MetadataField Prod.fst

def Metadata.get (metadata : Metadata) (key : String) : Option MetadataValue :=
  (metadata.find? key).map Prod.snd

/-- `{ ...metadata, key: value }`: a field that is there keeps its place. -/
def Metadata.assign (metadata : Metadata) (key : String)
    (value : MetadataValue) : Metadata :=
  metadata.upsert (key, value)

/-- `INDEXED_METADATA_KEYS`: fields that have their own columns. -/
def indexedMetadataKeys : List String :=
  ["priority", "required_provider", "depends_on"]

def indexedKey (key : String) : Bool := indexedMetadataKeys.contains key

def Metadata.base (metadata : Metadata) : Metadata :=
  metadata.filter fun field => !indexedKey field.1

def TaskPriority.text : TaskPriority → String
  | .low => "low"
  | .normal => "normal"
  | .high => "high"
  | .critical => "critical"

def TaskProvider.text : TaskProvider → String
  | .codex => "codex"
  | .claude => "claude"
  | .gemini => "gemini"

def providerValue : Option TaskProvider → MetadataValue
  | none => .json "null"
  | some provider => .text provider.text

/-! ## Specs -/

structure TaskSpecInput where
  ref : TaskRef
  title : Option String := none
  bodyMarkdown : String := ""
  priority : Option TaskPriority := none
  requiredProvider : Option TaskProvider := none
  metadata : Metadata := Table.empty
  dependsOn : List TaskRef := []
  createdAt : Option String := none
  deriving DecidableEq

/-- The fields an edit names; `requiredProvider` may be named as null. -/
structure TaskSpecChanges where
  title : Option String := none
  bodyMarkdown : Option String := none
  priority : Option TaskPriority := none
  requiredProvider : Option (Option TaskProvider) := none
  metadata : Option Metadata := none
  dependsOn : Option (List TaskRef) := none
  deriving DecidableEq

structure TaskSpec where
  title : String
  bodyMarkdown : String
  metadata : Metadata
  priority : TaskPriority
  requiredProvider : Option TaskProvider
  dependsOn : List TaskRef
  deriving DecidableEq

/-- Indexed fields are copied into the metadata, each revision describing itself. -/
def revisionMetadata (spec : TaskSpec) : Metadata :=
  ((spec.metadata.assign "priority" (.text spec.priority.text)).assign
    "required_provider" (providerValue spec.requiredProvider)).assign
      "depends_on" (.texts spec.dependsOn)

def Metadata.textOf (metadata : Metadata) (key : String) : Option String :=
  match metadata.get key with
  | some (.text value) => some value
  | _ => none

def Metadata.textsOf (metadata : Metadata) (key : String) : List String :=
  match metadata.get key with
  | some (.texts values) => values
  | _ => []

def taskTypeOf (metadata : Metadata) : Option TaskType :=
  match metadata.textOf "task_type" with
  | some "implementation" => some .implementation
  | some "refactor" => some .refactor
  | _ => none

def reviewLevelOf (metadata : Metadata) : Option ReviewLevel :=
  match metadata.textOf "review_level" with
  | some "none" => some .none
  | some "light" => some .light
  | some "full" => some .full
  | _ => none

def mergeStrategyOf (metadata : Metadata) : Option MergeStrategy :=
  match metadata.textOf "merge_strategy" with
  | some "direct" => some .direct
  | some "pr" => some .pr
  | _ => none

def definitionOf (title : String) (priority : TaskPriority)
    (requiredProvider : Option TaskProvider) (dependsOn : List TaskRef)
    (metadata : Metadata) : TaskDefinition where
  title := title
  priority := priority
  requiredProvider := requiredProvider
  dependsOn := dependsOn
  description := metadata.textOf "description"
  acceptanceCriteria := metadata.textsOf "acceptance_criteria"
  reviewLevel := reviewLevelOf metadata
  mergeStrategy := mergeStrategyOf metadata
  requiredCapabilities := metadata.textsOf "required_capabilities"
  model := metadata.textOf "model"

structure TaskSpecRevision where
  taskRef : TaskRef
  revision : Nat
  title : String
  bodyMarkdown : String
  metadata : Metadata
  createdAt : String
  deriving DecidableEq

/-! ## The title of a body -/

/-- What `^` and `$` stop at in a multiline expression, and `.` does not match. -/
def lineTerminator (c : Char) : Bool :=
  c = '\n' || c = '\r' || c.toNat = 0x2028 || c.toNat = 0x2029

/-- `\s*\n`: what can follow it, the longest match first. -/
def afterNewlines : List Char → List (List Char)
  | [] => []
  | c :: rest =>
      if jsSpace c then
        afterNewlines rest ++ (if c = '\n' then [rest] else [])
      else []

/-- `\n---\s*(?:\n|$)`: what follows it. -/
def afterFence : List Char → Option (List Char)
  | '\n' :: '-' :: '-' :: '-' :: rest =>
      if rest.all jsSpace then some [] else (afterNewlines rest).head?
  | _ => none

/-- `[\s\S]*?` before the closing fence: the first place it stands. -/
def afterFrontmatter : List Char → Option (List Char)
  | [] => none
  | c :: rest => (afterFence (c :: rest)).or (afterFrontmatter rest)

/-- `body.replace(/^---\s*\n[\s\S]*?\n---\s*(?:\n|$)/, '')`. -/
def withoutFrontmatter (text : List Char) : List Char :=
  match text with
  | '-' :: '-' :: '-' :: rest =>
      ((afterNewlines rest).findSome? afterFrontmatter).getD text
  | _ => text

/-- `\s*#*\s*$` matches the rest of a line. -/
def closesHeading (rest : List Char) : Bool :=
  ((rest.dropWhile jsSpace).dropWhile (· = '#')).all jsSpace

/-- `(.+?)` before it: the shortest text that leaves a match. -/
def headingText : List Char → List Char
  | [] => []
  | c :: rest => if closesHeading rest then [c] else c :: headingText rest

/-- `#\s+(.+?)\s*#*\s*$` at the head of a line: its group. -/
def headingAt : List Char → Option (List Char)
  | '#' :: c :: rest =>
      if !jsSpace c then none
      else
        match rest.dropWhile jsSpace with
        | [] =>
            (rest.reverse.find? fun c => !lineTerminator c).map fun c => [c]
        | text => some (headingText (text.takeWhile fun c => !lineTerminator c))
  | _ => none

def firstHeading : Bool → List Char → Option (List Char)
  | _, [] => none
  | lineStart, c :: rest =>
      (if lineStart then headingAt (c :: rest) else none).or
        (firstHeading (lineTerminator c) rest)

def jsTrim (text : List Char) : String :=
  String.ofList
    ((text.dropWhile jsSpace).reverse.dropWhile jsSpace).reverse

def parseBodyTitle (body : String) : Option String :=
  (firstHeading true (withoutFrontmatter body.toList)).map jsTrim

end OrcState.Contract
