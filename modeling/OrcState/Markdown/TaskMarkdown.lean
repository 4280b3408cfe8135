import OrcState.Contract.Event
import OrcState.Contract.Spec
import OrcState.Markdown.Frontmatter

/-!
# Task specs in Markdown

What `parseTaskMarkdown` reads from a file: the reference of the task, its title and
body, the definition fields its frontmatter states, and the revision an exported file
was based on.  A field that is not in the frontmatter is `none` here; the import
decides what that means.
-/

namespace OrcState.Markdown

open OrcState.Contract OrcState.Foundation OrcState.Foundation.Json

/-! ## Code units as text -/

def unitChar (u : Nat) : Char :=
  if isHigh u || isLow u then Char.ofNat 0xFFFD else Char.ofNat u

def pairChar (high low : Nat) : Char :=
  Char.ofNat (0x10000 + (high - 0xD800) * 0x400 + (low - 0xDC00))

def charsOf : Units → List Char
  | [] => []
  | [u] => [unitChar u]
  | u :: v :: rest =>
      if isHigh u && isLow v then pairChar u v :: charsOf rest
      else unitChar u :: charsOf (v :: rest)

def ofUnits (text : Units) : String := String.ofList (charsOf text)

/-! ## References -/

/-- `ref.split('/')[0]`. -/
def featureOf (ref : TaskRef) : String :=
  String.ofList (ref.toList.takeWhile (· ≠ '/'))

/-- `ref.split('/')[1] ?? ref`, of a reference with at most one slash. -/
def slugOf (ref : TaskRef) : String :=
  match ref.toList.dropWhile (· ≠ '/') with
  | _ :: slug => String.ofList slug
  | [] => ref

/-! ## Titles -/

/-- `/^…/m`: the first line where the expression matches, with its group. -/
def firstLine (match? : List Char → Option (List Char)) :
    Bool → List Char → Option (List Char)
  | _, [] => none
  | lineStart, c :: rest =>
      (if lineStart then match? (c :: rest) else none).or
        (firstLine match? (Contract.lineTerminator c) rest)

def afterSpaces (text : List Char) : Option (List Char) :=
  match text with
  | [] => none
  | c :: rest => if jsSpace c then some (rest.dropWhile jsSpace) else none

/--
`\s+(.+?)\s*$` with `m`: its group.  Where nothing but spaces follow, the group is the
last of them that `.` matches, and one must stand before it.
-/
def restOfLine (text : List Char) : Option (List Char) :=
  (afterSpaces text).bind fun rest =>
    if rest = [] then
      ((text.drop 1).reverse.find? fun c => !Contract.lineTerminator c).map ([·])
    else
      some ((rest.takeWhile fun c => !Contract.lineTerminator c).reverse.dropWhile
        jsSpace).reverse

def afterDigits (text : List Char) : Option (List Char) :=
  if text.head?.any Char.isDigit then some (text.dropWhile Char.isDigit) else none

/-- `#\s+Task\s+\d+\s+[—-]\s+(.+?)\s*$` at the head of a line: its group. -/
def legacyHeadingAt (text : List Char) : Option (List Char) :=
  match text with
  | '#' :: rest =>
      match afterSpaces rest with
      | some ('T' :: 'a' :: 's' :: 'k' :: rest) =>
          match ((afterSpaces rest).bind afterDigits).bind afterSpaces with
          | some (c :: rest) =>
              if c = '—' || c = '-' then restOfLine rest else none
          | _ => none
      | _ => none
  | _ => none

/-- `part[0].toUpperCase() + part.slice(1)`, of lowercase letters and digits. -/
def capitalize (part : List Char) : List Char := part.modifyHead Char.toUpper

def humanize (slug : String) : String :=
  String.ofList ([' '].intercalate
    (((slug.toList.splitOn '-').filter (· ≠ [])).map capitalize))

def titleFromBody (body : String) (ref : TaskRef) : String :=
  match firstLine legacyHeadingAt true body.toList with
  | some title => String.ofList title
  | none =>
      match firstHeading true body.toList with
      | some title => String.ofList title
      | none => humanize (slugOf ref)

/-! ## Fields -/

def lifecycleFields : List String :=
  ["status", "attempt_count", "blocked_reason", "requeue_eligible_after", "owner",
    "planning_state", "delegated_by"]

def exportOnlyFields : List String := ["spec_revision", "content_hash", "exported_at"]

def scalarFields : List String :=
  ["ref", "feature", "epic", "title", "priority", "required_provider", "review_level",
    "merge_strategy", "task_type", "model"]

def listFields : List String := ["depends_on", "required_capabilities"]

def knownFields : List String :=
  scalarFields ++ listFields ++ exportOnlyFields ++ lifecycleFields

def Frontmatter.get (frontmatter : Frontmatter) (key : String) : Option FieldValue :=
  (frontmatter.find? (units key)).map Field.value

def Frontmatter.scalar (frontmatter : Frontmatter) (key : String) : Option String :=
  match frontmatter.get key with
  | some (.scalar value) => some (ofUnits value)
  | _ => none

structure SpecFields where
  priority : Option String := none
  requiredProvider : Option String := none
  reviewLevel : Option String := none
  mergeStrategy : Option String := none
  taskType : Option String := none
  model : Option String := none
  dependsOn : Option (List String) := none
  requiredCapabilities : Option (List String) := none
  deriving DecidableEq, Repr

structure ParsedTaskMarkdown where
  sourcePath : String
  fileSha256 : String
  ref : TaskRef
  feature : String
  title : String
  bodyMarkdown : String
  fields : SpecFields
  baseRevision : Option Nat := none
  ignoredFields : List String := []
  legacyStatus : Option String := none
  deriving DecidableEq, Repr

section Parse

variable (source : String) (frontmatter : Frontmatter)

def scalarField (key : String) : Except DomainError (Option String) :=
  match frontmatter.get key with
  | none => .ok none
  | some (.scalar value) => .ok (some (ofUnits value))
  | some (.list _) => .error (inputError (source ++ ": " ++ key ++ " must be a scalar"))

def listField (key : String) : Except DomainError (Option (List String)) :=
  match frontmatter.get key with
  | none => .ok none
  | some (.list items) => .ok (some (items.map ofUnits))
  | some (.scalar _) => .error (inputError (source ++ ": " ++ key ++ " must be a list"))

/-- A task type that the runtime never read is not imported. -/
def legacyTaskType : Bool :=
  (frontmatter.scalar "task_type").any fun value =>
    !(["implementation", "refactor"].contains value)

def parseFields : Except DomainError SpecFields := do
  let priority ← scalarField source frontmatter "priority"
  let requiredProvider ← scalarField source frontmatter "required_provider"
  let reviewLevel ← scalarField source frontmatter "review_level"
  let mergeStrategy ← scalarField source frontmatter "merge_strategy"
  let taskType ← if legacyTaskType frontmatter then .ok none
    else scalarField source frontmatter "task_type"
  let model ← scalarField source frontmatter "model"
  let dependsOn ← listField source frontmatter "depends_on"
  let requiredCapabilities ← listField source frontmatter "required_capabilities"
  return {
    priority := priority
    requiredProvider := requiredProvider
    reviewLevel := reviewLevel
    mergeStrategy := mergeStrategy
    taskType := taskType
    model := model
    dependsOn := dependsOn
    requiredCapabilities := requiredCapabilities }

/-- `/^[1-9]\d*$/` and `Number`. -/
def positiveInteger (text : List Char) : Option Nat :=
  if text.head?.any (fun c => c.isDigit && c ≠ '0') && text.all Char.isDigit then
    some (text.foldl (fun n c => n * 10 + (c.toNat - '0'.toNat)) 0)
  else none

def parseBaseRevision : Except DomainError (Option Nat) :=
  match frontmatter.get "spec_revision" with
  | none => .ok none
  | some value =>
      match value with
      | .scalar text =>
          match positiveInteger (ofUnits text).toList with
          | some revision => .ok (some revision)
          | none => .error
              (inputError (source ++ ": spec_revision must be a positive integer"))
      | .list _ => .error
          (inputError (source ++ ": spec_revision must be a positive integer"))

end Parse

def checkThat (c : Bool) (message : String) : Except DomainError Unit :=
  if c then .ok () else .error (inputError message)

/-- `frontmatter.feature`, else the older `epic`, else what the reference says. -/
def statedFeature (frontmatter : Frontmatter) (ref : TaskRef) : String :=
  ((frontmatter.scalar "feature").or (frontmatter.scalar "epic")).getD (featureOf ref)

def unknownFields (frontmatter : Frontmatter) : List String :=
  (frontmatter.rows.map fun field => ofUnits field.key).filter fun key =>
    !knownFields.contains key

def ignoredLifecycle (frontmatter : Frontmatter) : List String :=
  lifecycleFields.filter fun key => (frontmatter.get key).isSome

def parseSpec (sha256 : Units → String) (text : Units) (source : String)
    (strict : Bool) (frontmatter : Frontmatter) (body : Units) (ref : TaskRef) :
    Except DomainError ParsedTaskMarkdown := do
  checkThat (taskRefRe ref) (source ++ ": invalid task ref: " ++ ref)
  let feature := statedFeature frontmatter ref
  checkThat (featureOf ref = feature)
    (source ++ ": ref " ++ ref ++ " does not belong to feature " ++ feature)
  checkThat (unknownFields frontmatter).isEmpty
    (source ++ ": unsupported frontmatter field(s): " ++
      ", ".intercalate (unknownFields frontmatter))
  let ignored := ignoredLifecycle frontmatter
  checkThat (!strict || ignored.isEmpty)
    (source ++ ": lifecycle field(s) " ++ ", ".intercalate ignored ++
      " cannot be imported; runtime status is owned by project SQLite")
  let fields ← parseFields source frontmatter
  let baseRevision ← parseBaseRevision source frontmatter
  return {
    sourcePath := source
    fileSha256 := sha256 text
    ref := ref
    feature := feature
    title := ((frontmatter.scalar "title").filter fun title => !Contract.blank title).getD
      (titleFromBody (ofUnits body) ref)
    bodyMarkdown := ofUnits body
    fields := fields
    baseRevision := baseRevision
    ignoredFields :=
      ignored ++ if legacyTaskType frontmatter then ["task_type"] else []
    legacyStatus := frontmatter.scalar "status" }

def parseTaskMarkdown (sha256 : Units → String) (text : Units) (source : String)
    (strict : Bool) : Except DomainError (Option ParsedTaskMarkdown) :=
  match parseFrontmatter text (units source) with
  | .error message => .error (inputError (ofUnits message))
  | .ok none => .ok none
  | .ok (some (frontmatter, body)) =>
      match frontmatter.scalar "ref" with
      | none => .ok none
      | some ref =>
          (parseSpec sha256 text source strict frontmatter body ref).map some

end OrcState.Markdown
