import OrcState.Contract.Types
import OrcState.Foundation.JsonString
import OrcState.Foundation.Table

/-!
# The frontmatter of task specs

The small subset of YAML in which tasks are exported and imported: `key: value`,
`key: []`, and `key:` followed by `  - item` lines.  Texts are lists of UTF-16 code
units.  Each regular expression of the source is a function here, and its docstring
says which one; where an expression can match in several ways the function takes
the match that the language finds first.
-/

namespace OrcState.Markdown

open OrcState.Foundation OrcState.Foundation.Json

/-! ## Units -/

def units (text : String) : Units := text.toList.flatMap Contract.utf16

/-- `\s`, which is also what `trim` removes. -/
def space (u : Nat) : Bool :=
  u = 0x20 || (0x09 ≤ u && u ≤ 0x0D) ||
  [0xA0, 0x1680, 0x2028, 0x2029, 0x202F, 0x205F, 0x3000, 0xFEFF].contains u ||
  (0x2000 ≤ u && u ≤ 0x200A)

def lineTerminator (u : Nat) : Bool :=
  u = 0x0A || u = 0x0D || u = 0x2028 || u = 0x2029

def trimEnd (text : Units) : Units := (text.reverse.dropWhile space).reverse

def trim (text : Units) : Units := trimEnd (text.dropWhile space)

/-! ## Scalars -/

/-- `/\s#/`. -/
def spaceHash : Units → Bool
  | u :: v :: rest => (space u && v = 0x23) || spaceHash (v :: rest)
  | _ => false

def quoteOrSpace (u : Nat) : Bool := u = 0x27 || u = 0x22 || space u

/--
The expression of `formatScalar`: a quote or a space at either end, nothing at all,
`[` or `#` at the beginning, or `#` behind a space.
-/
def mustQuote (value : Units) : Bool :=
  value.head?.any quoteOrSpace || value.getLast?.any quoteOrSpace ||
    value.isEmpty || value.head? = some 0x5B || spaceHash value ||
    value.head? = some 0x23

def formatScalar (value : Units) : Units :=
  if mustQuote value then stringify value else value

/-- Between two marks of one kind, with nothing that `.` does not match. -/
def enclosed (mark : Nat) (value : Units) : Bool :=
  value.head? = some mark && value.getLast? = some mark &&
    2 ≤ value.length && !value.any lineTerminator

/-- `slice(1, -1)`. -/
def inner (value : Units) : Units := (value.drop 1).dropLast

def parseScalar (value : Units) : Units :=
  if enclosed 0x22 value then (parse value).getD (inner value)
  else if enclosed 0x27 value then inner value
  else value

/-! ## Lines -/

/-- `split(/\r?\n/)`. -/
def splitLines : Units → List Units
  | [] => [[]]
  | 0x0D :: 0x0A :: rest => [] :: splitLines rest
  | 0x0A :: rest => [] :: splitLines rest
  | u :: rest => (splitLines rest).modifyHead (u :: ·)

/--
`/^\s+-\s+(.+?)\s*$/`.  Where only spaces follow the dash, the last of them that
`.` matches is the item, and one must stand before it.
-/
def listItem (raw : Units) : Option Units :=
  if !raw.head?.any space then none
  else
    match raw.dropWhile space with
    | 0x2D :: after =>
        if !after.head?.any space then none
        else if after.dropWhile space = [] then
          ((after.drop 1).reverse.find? fun u => !lineTerminator u).map ([·])
        else if (trim after).any lineTerminator then none
        else some (trim after)
    | _ => none

def keyStart (u : Nat) : Bool :=
  ('A'.toNat ≤ u && u ≤ 'Z'.toNat) || ('a'.toNat ≤ u && u ≤ 'z'.toNat) ||
    u = 0x5F

/-- `[\w-]`. -/
def keyUnit (u : Nat) : Bool :=
  keyStart u || ('0'.toNat ≤ u && u ≤ '9'.toNat) || u = 0x2D

/-- `/^([A-Za-z_][\w-]*)\s*:\s*(.*?)\s*$/`. -/
def fieldLine (raw : Units) : Option (Units × Units) :=
  if !raw.head?.any keyStart then none
  else
    match (raw.dropWhile keyUnit).dropWhile space with
    | 0x3A :: after =>
        if (trim after).any lineTerminator then none
        else some (raw.takeWhile keyUnit, trim after)
    | _ => none

/-! ## Fields -/

inductive FieldValue where
  | scalar (value : Units)
  | list (items : List Units)
  deriving DecidableEq, Repr

def FieldValue.push (value : FieldValue) (item : Units) : FieldValue :=
  match value with
  | .scalar v => .scalar v
  | .list items => .list (items ++ [item])

structure Field where
  key : Units
  value : FieldValue
  deriving DecidableEq, Repr

abbrev Frontmatter := Table Units Field Field.key

def Frontmatter.change (frontmatter : Frontmatter) (key : Units)
    (f : FieldValue → FieldValue) : Frontmatter :=
  frontmatter.update key (fun field => { field with value := f field.value })
    fun _ => rfl

/-- What every object answers to with `in`. -/
def objectPrototype : List Units :=
  ["constructor", "__defineGetter__", "__defineSetter__", "hasOwnProperty",
    "__lookupGetter__", "__lookupSetter__", "isPrototypeOf",
    "propertyIsEnumerable", "toString", "valueOf", "__proto__",
    "toLocaleString"].map units

structure Reading where
  frontmatter : Frontmatter := Table.empty
  listKey : Option Units := none
  deriving DecidableEq

/-- `frontmatter[key] = value`, unless the key is there already. -/
def Reading.assign (r : Reading) (source : Units) (key : Units)
    (value : FieldValue) (listKey : Option Units) : Except Units Reading :=
  if objectPrototype.contains key then
    .error (source ++ units ": duplicate frontmatter field: " ++ key)
  else
    match r.frontmatter.insert? ⟨key, value⟩ with
    | none => .error (source ++ units ": duplicate frontmatter field: " ++ key)
    | some frontmatter => .ok { frontmatter := frontmatter, listKey := listKey }

def Reading.push (r : Reading) (source raw item : Units) : Except Units Reading :=
  match r.listKey with
  | none =>
      .error (source ++ units ": list item outside a list field: " ++ trim raw)
  | some key =>
      .ok { r with frontmatter := r.frontmatter.change key (·.push item) }

def parseLine (source : Units) (r : Reading) (raw : Units) :
    Except Units Reading :=
  if trim raw = [] || (trim raw).head? = some 0x23 then .ok r
  else
    match listItem raw with
    | some item => r.push source raw (parseScalar item)
    | none =>
        match fieldLine raw with
        | none =>
            .error (source ++ units ": unsupported frontmatter line: " ++ trim raw)
        | some (key, value) =>
            if value = [] then r.assign source key (.list []) (some key)
            else if value = units "[]" then r.assign source key (.list []) none
            else r.assign source key (.scalar (parseScalar value)) none

def parseLines (source : Units) (r : Reading) (lines : List Units) :
    Except Units Reading :=
  lines.foldlM (parseLine source) r

/-! ## The block -/

/-- `/\r?\n/` at the beginning, and what is behind it. -/
def newline : Units → Option Units
  | 0x0D :: 0x0A :: rest => some rest
  | 0x0A :: rest => some rest
  | _ => none

def dashes : Units → Option Units
  | 0x2D :: 0x2D :: 0x2D :: rest =>
      some (rest.dropWhile fun u => u = 0x20 || u = 0x09)
  | _ => none

/-- `/(?:\r?\n|$)/` at the beginning, and what is behind it. -/
def lineEnd (text : Units) : Option Units :=
  if text = [] then some [] else newline text

/-- `/\r?\n---[ \t]*(?:\r?\n|$)/` at the beginning. -/
def closing (text : Units) : Option Units :=
  ((newline text).bind dashes).bind lineEnd

/-- `([\s\S]*?)` up to the first place where the closing stands. -/
def upToClosing : Units → Option (Units × Units)
  | [] => none
  | u :: text =>
      match closing (u :: text) with
      | some rest => some ([], rest)
      | none => (upToClosing text).map fun found => (u :: found.1, found.2)

def parseFrontmatter (text source : Units) :
    Except Units (Option (Frontmatter × Units)) :=
  match ((dashes text).bind newline).bind upToClosing with
  | none => .ok none
  | some (block, rest) =>
      (parseLines source {} (splitLines block)).map fun r =>
        some (r.frontmatter, (newline rest).getD rest)

/-! ## Writing -/

/-- `key: value`, as `renderTaskMarkdown` writes a scalar. -/
def scalarLine (key value : Units) : Units := key ++ units ": " ++ formatScalar value

/-- The line of one item, as `yamlList` writes it. -/
def itemLine (value : Units) : Units := units "  - " ++ formatScalar value

def yamlList (key : Units) (values : List Units) : List Units :=
  if values = [] then [key ++ units ": []"]
  else (key ++ units ":") :: values.map itemLine

end OrcState.Markdown
