import OrcState.Foundation.JsonValue
import Mathlib.Data.List.Perm.Basic
import Mathlib.Logic.Function.Basic

/-!
# Schema statements of a relational store

The part of a relational database that a schema migration moves: the layouts of
its tables and indexes, the rows of each table, and the user version.  A
statement is refused for the reasons the database itself has, and a script is a
list of statements of which the first refusal is the outcome.  What a statement
does to the layouts never depends on the rows.
-/

namespace OrcState.Foundation.Relational

inductive Cell where
  | null
  | int (n : Int)
  | text (s : String)
  deriving DecidableEq, Repr

abbrev Row := List Cell

/-- A CHECK on one column; a null passes every check. -/
inductive ColumnCheck where
  | oneOf (values : List Cell)
  | atLeast (bound : Int)
  | json
  deriving DecidableEq, Repr

def ColumnCheck.holds : ColumnCheck → Cell → Bool
  | _, .null => true
  | .oneOf values, cell => cell ∈ values
  | .atLeast bound, .int n => bound ≤ n
  | .atLeast _, .text _ => true
  | .json, .int _ => true
  | .json, .text s => Json.valid s

structure Reference where
  table : String
  column : String
  deriving DecidableEq, Repr

structure Column where
  name : String
  notNull : Bool := false
  default : Cell := .null
  check : Option ColumnCheck := none
  references : Option Reference := none
  deriving DecidableEq, Repr

def Column.admits (column : Column) (cell : Cell) : Bool :=
  (!column.notNull || cell ≠ .null) &&
    column.check.all fun check => check.holds cell

structure Layout where
  name : String
  columns : List Column
  uniques : List (List String)
  deriving DecidableEq, Repr

/-- The rows a partial index covers. -/
inductive Filter where
  | all
  | isIn (column : String) (values : List Cell)
  | isNotNull (column : String)
  deriving DecidableEq, Repr

structure Index where
  name : String
  table : String
  columns : List String
  unique : Bool := false
  filter : Filter := .all
  deriving DecidableEq, Repr

structure Schema where
  tables : List Layout := []
  indexes : List Index := []
  deriving DecidableEq, Repr

structure Database where
  version : Nat := 0
  schema : Schema := {}
  rows : String → List Row := fun _ => []

inductive Refusal where
  | tableExists (table : String)
  | noSuchTable (table : String)
  | duplicateColumn (column : String)
  | badDefault (column : String)
  | indexExists (index : String)
  | noSuchColumn (column : String)
  | constraint (table : String)
  deriving DecidableEq, Repr

inductive Statement where
  | createTable (layout : Layout)
  | createTableIfNotExists (layout : Layout)
  | addColumn (table : String) (column : Column)
  | createIndex (index : Index)
  | insert (table : String) (row : Row)
  | insertSelect (target source : String) (columns : List String)
  | dropTable (table : String)
  | renameTable (table name : String)
  deriving DecidableEq, Repr

/-! ## Reading rows -/

/-- The cell under a column's name; a missing column reads as null. -/
def cellAt : List Column → Row → String → Cell
  | column :: columns, cell :: row, name =>
      if column.name = name then cell else cellAt columns row name
  | _, _, _ => .null

def Layout.cell (layout : Layout) (row : Row) (name : String) : Cell :=
  cellAt layout.columns row name

def Layout.project (layout : Layout) (names : List String) (row : Row) : Row :=
  names.map (layout.cell row)

def Layout.clash (layout : Layout) (key : List String) (a b : Row) : Bool :=
  layout.project key a = layout.project key b && .null ∉ layout.project key a

def Filter.covers (filter : Filter) (layout : Layout) (row : Row) : Bool :=
  match filter with
  | .all => true
  | .isIn column values => layout.cell row column ∈ values
  | .isNotNull column => layout.cell row column ≠ .null

def Schema.table (schema : Schema) (name : String) : Option Layout :=
  schema.tables.find? (·.name = name)

def Index.holds (index : Index) (layout : Layout) (rows : List Row) : Prop :=
  index.unique = true →
    (rows.filter (index.filter.covers layout)).Pairwise fun a b =>
      layout.clash index.columns a b = false

instance (index : Index) (layout : Layout) (rows : List Row) :
    Decidable (index.holds layout rows) :=
  inferInstanceAs (Decidable (_ → _))

/-! ## What a statement does to the layouts -/

/-- Renaming a table also renames it in the references to it. -/
def Layout.renamed (layout : Layout) (table name : String) : Layout where
  name := if layout.name = table then name else layout.name
  columns := layout.columns.map fun column =>
    { column with
      references := column.references.map fun reference =>
        if reference.table = table then { reference with table := name }
        else reference }
  uniques := layout.uniques

def Statement.alter (statement : Statement) (schema : Schema) :
    Except Refusal Schema :=
  match statement with
  | .createTable layout =>
      if (schema.table layout.name).isSome then .error (.tableExists layout.name)
      else .ok { schema with tables := schema.tables ++ [layout] }
  | .createTableIfNotExists layout =>
      if (schema.table layout.name).isSome then .ok schema
      else .ok { schema with tables := schema.tables ++ [layout] }
  | .addColumn table column =>
      match schema.table table with
      | none => .error (.noSuchTable table)
      | some layout =>
          if layout.columns.any (·.name = column.name) then
            .error (.duplicateColumn column.name)
          else if column.admits column.default = false ∨
              (column.references.isSome = true ∧ column.default ≠ .null) then
            .error (.badDefault column.name)
          else .ok { schema with
            tables := schema.tables.map fun other =>
              if other.name = table then
                { other with columns := other.columns ++ [column] }
              else other }
  | .createIndex index =>
      match schema.table index.table with
      | none => .error (.noSuchTable index.table)
      | some layout =>
          if schema.indexes.any (·.name = index.name) then
            .error (.indexExists index.name)
          else
            match index.columns.find? fun name =>
                !layout.columns.any (·.name = name) with
            | some name => .error (.noSuchColumn name)
            | none => .ok { schema with indexes := schema.indexes ++ [index] }
  | .insert table _ =>
      match schema.table table with
      | none => .error (.noSuchTable table)
      | some _ => .ok schema
  | .insertSelect target source columns =>
      match schema.table target, schema.table source with
      | none, _ => .error (.noSuchTable target)
      | _, none => .error (.noSuchTable source)
      | some into, some layout =>
          match columns.find? fun name =>
              !layout.columns.any (·.name = name) ||
                !into.columns.any (·.name = name) with
          | some name => .error (.noSuchColumn name)
          | none => .ok schema
  | .dropTable table =>
      match schema.table table with
      | none => .error (.noSuchTable table)
      | some _ => .ok {
          tables := schema.tables.filter (·.name ≠ table)
          indexes := schema.indexes.filter (·.table ≠ table) }
  | .renameTable table name =>
      match schema.table table with
      | none => .error (.noSuchTable table)
      | some _ =>
          if (schema.table name).isSome then .error (.tableExists name)
          else .ok {
            tables := schema.tables.map fun other => other.renamed table name
            indexes := schema.indexes.map fun index =>
              if index.table = table then { index with table := name }
              else index }

/-! ## What it does to the rows -/

def Schema.Admits (schema : Schema) (layout : Layout) (rows : List Row) : Prop :=
  (∀ row ∈ rows, List.Forall₂ (fun column cell => column.admits cell = true)
      layout.columns row) ∧
    (∀ key ∈ layout.uniques,
      rows.Pairwise fun a b => layout.clash key a b = false) ∧
    ∀ index ∈ schema.indexes, index.table = layout.name →
      index.holds layout rows

instance (schema : Schema) (layout : Layout) (rows : List Row) :
    Decidable (schema.Admits layout rows) :=
  inferInstanceAs (Decidable (_ ∧ _ ∧ _))

def Layout.copied (target source : Layout) (columns : List String) (row : Row) :
    Row :=
  target.columns.map fun column =>
    if column.name ∈ columns then source.cell row column.name
    else column.default

def Statement.move (statement : Statement) (schema : Schema)
    (rows : String → List Row) : Except Refusal (String → List Row) :=
  match statement with
  | .createTable layout => .ok (Function.update rows layout.name [])
  | .createTableIfNotExists layout =>
      .ok (if (schema.table layout.name).isSome then rows
        else Function.update rows layout.name [])
  | .addColumn table column =>
      .ok (Function.update rows table
        ((rows table).map (· ++ [column.default])))
  | .createIndex index =>
      match schema.table index.table with
      | none => .error (.noSuchTable index.table)
      | some layout =>
          if index.holds layout (rows index.table) then .ok rows
          else .error (.constraint index.table)
  | .insert table row =>
      match schema.table table with
      | none => .error (.noSuchTable table)
      | some layout =>
          if schema.Admits layout (rows table ++ [row]) then
            .ok (Function.update rows table (rows table ++ [row]))
          else .error (.constraint table)
  | .insertSelect target source columns =>
      match schema.table target, schema.table source with
      | some into, some layout =>
          let filled := rows target ++
            (rows source).map (into.copied layout columns)
          if schema.Admits into filled then
            .ok (Function.update rows target filled)
          else .error (.constraint target)
      | _, _ => .error (.noSuchTable target)
  | .dropTable table => .ok (Function.update rows table [])
  | .renameTable table name =>
      .ok (Function.update (Function.update rows name (rows table)) table [])

def Statement.exec (statement : Statement) (db : Database) : Except Refusal Database :=
  match statement.alter db.schema, statement.move db.schema db.rows with
  | .error e, _ => .error e
  | .ok _, .error e => .error e
  | .ok schema, .ok rows => .ok { db with schema, rows }

def exec : List Statement → Database → Except Refusal Database
  | [], db => .ok db
  | statement :: rest, db =>
      match statement.exec db with
      | .error e => .error e
      | .ok db => exec rest db

/-! ## Foreign keys -/

def Database.present (db : Database) (reference : Reference) (cell : Cell) : Bool :=
  (db.schema.table reference.table).any fun parent =>
    (db.rows reference.table).any fun row =>
      parent.cell row reference.column = cell

def Database.dangling (db : Database) (layout : Layout) (row : Row) : List Column :=
  layout.columns.filter fun column =>
    column.references.any fun reference =>
      layout.cell row column.name ≠ .null &&
        !db.present reference (layout.cell row column.name)

def Database.foreignKeyCheck (db : Database) : List (String × Row × Column) :=
  db.schema.tables.flatMap fun layout =>
    (db.rows layout.name).flatMap fun row =>
      (db.dangling layout row).map fun column => (layout.name, row, column)

/-! ## Sound databases -/

def Filter.reads : Filter → List String
  | .all => []
  | .isIn column _ | .isNotNull column => [column]

def Layout.names (layout : Layout) : List String :=
  layout.columns.map Column.name

structure Schema.WellFormed (schema : Schema) : Prop where
  tables : (schema.tables.map Layout.name).Nodup
  columns : ∀ layout ∈ schema.tables, layout.names.Nodup
  uniques : ∀ layout ∈ schema.tables, ∀ key ∈ layout.uniques,
    key ⊆ layout.names
  indexes : ∀ layout ∈ schema.tables, ∀ index ∈ schema.indexes,
    index.table = layout.name →
      index.columns ⊆ layout.names ∧ index.filter.reads ⊆ layout.names
  indexed : ∀ index ∈ schema.indexes, ∃ layout ∈ schema.tables,
    layout.name = index.table
  references : ∀ layout ∈ schema.tables, ∀ column ∈ layout.columns,
    ∀ reference ∈ column.references, ∃ parent ∈ schema.tables,
      parent.name = reference.table ∧ reference.column ∈ parent.names

instance (schema : Schema) : Decidable schema.WellFormed :=
  decidable_of_iff (_ ∧ _ ∧ _ ∧ _ ∧ _ ∧ _)
    ⟨fun ⟨a, b, c, d, e, f⟩ => ⟨a, b, c, d, e, f⟩,
      fun ⟨a, b, c, d, e, f⟩ => ⟨a, b, c, d, e, f⟩⟩

/-- Every table may hold its rows, and every reference has its row. -/
structure Database.Sound (db : Database) : Prop where
  admitted : ∀ layout ∈ db.schema.tables,
    db.schema.Admits layout (db.rows layout.name)
  referenced : ∀ layout ∈ db.schema.tables, ∀ row ∈ db.rows layout.name,
    ∀ column ∈ layout.columns, ∀ reference ∈ column.references,
      layout.cell row column.name ≠ .null →
        db.present reference (layout.cell row column.name) = true

instance (db : Database) : Decidable db.Sound :=
  decidable_of_iff (_ ∧ _) ⟨fun ⟨a, b⟩ => ⟨a, b⟩, fun ⟨a, b⟩ => ⟨a, b⟩⟩

/--
Read through its old columns, every table of the first database is in the second
what it was, but for the tables in `except`.
-/
def Kept (except : List String) (db db' : Database) : Prop :=
  ∀ layout ∈ db.schema.tables, layout.name ∉ except →
    ∃ layout' ∈ db'.schema.tables, layout'.name = layout.name ∧
      layout.names ⊆ layout'.names ∧
      (db'.rows layout.name).map (layout'.project layout.names) =
        (db.rows layout.name).map (layout.project layout.names)

/-! ## Running a script -/

theorem Statement.exec_ok {statement : Statement} {db db' : Database} :
    statement.exec db = .ok db' ↔
      ∃ schema rows, statement.alter db.schema = .ok schema ∧
        statement.move db.schema db.rows = .ok rows ∧
        db' = { db with schema, rows } := by
  unfold Statement.exec
  cases statement.alter db.schema with
  | error e => simp
  | ok schema =>
      cases statement.move db.schema db.rows with
      | error e => simp
      | ok rows =>
          constructor
          · intro h
            cases h
            exact ⟨schema, rows, rfl, rfl, rfl⟩
          · rintro ⟨_, _, h1, h2, rfl⟩
            cases h1
            cases h2
            rfl

theorem exec_cons_ok {statement : Statement} {rest : List Statement}
    {db db' : Database} :
    exec (statement :: rest) db = .ok db' ↔
      ∃ m, statement.exec db = .ok m ∧ exec rest m = .ok db' := by
  simp only [exec]
  cases statement.exec db with
  | error e => simp
  | ok m => simp

theorem exec_append_ok {first second : List Statement} {db db' : Database} :
    exec (first ++ second) db = .ok db' ↔
      ∃ m, exec first db = .ok m ∧ exec second m = .ok db' := by
  induction first generalizing db with
  | nil => simp [exec]
  | cons statement rest ih =>
      rw [List.cons_append, exec_cons_ok]
      simp only [ih, exec_cons_ok]
      constructor
      · rintro ⟨m, hm, n, hn, h⟩
        exact ⟨n, ⟨m, hm, hn⟩, h⟩
      · rintro ⟨n, ⟨m, hm, hn⟩, h⟩
        exact ⟨m, hm, n, hn, h⟩

def alter : List Statement → Schema → Except Refusal Schema
  | [], schema => .ok schema
  | statement :: rest, schema =>
      match statement.alter schema with
      | .error e => .error e
      | .ok schema => alter rest schema

def reached (script : List Statement) (schema : Schema) : Schema :=
  match alter script schema with
  | .ok schema => schema
  | .error _ => {}

theorem exec_alter {script : List Statement} {db db' : Database}
    (h : exec script db = .ok db') :
    alter script db.schema = .ok db'.schema ∧ db'.version = db.version := by
  induction script generalizing db with
  | nil =>
      cases h
      exact ⟨rfl, rfl⟩
  | cons statement rest ih =>
      obtain ⟨m, hm, hrest⟩ := exec_cons_ok.mp h
      obtain ⟨schema, rows, halter, -, rfl⟩ := Statement.exec_ok.mp hm
      obtain ⟨hschema, hversion⟩ := ih hrest
      refine ⟨?_, hversion⟩
      simpa only [alter, halter] using hschema

theorem exec_reached {script : List Statement} {db db' : Database}
    (h : exec script db = .ok db') : db'.schema = reached script db.schema := by
  unfold reached
  rw [(exec_alter h).1]

/-! ## Cells of a longer row -/

theorem cellAt_append_of_mem {columns more : List Column} {row pad : Row}
    {name : String} (hwidth : row.length = columns.length)
    (hname : name ∈ columns.map Column.name) :
    cellAt (columns ++ more) (row ++ pad) name = cellAt columns row name := by
  induction columns generalizing row with
  | nil => cases hname
  | cons column columns ih =>
      cases row with
      | nil => cases hwidth
      | cons cell row =>
          simp only [List.cons_append, cellAt]
          split
          · rfl
          · rename_i hne
            apply ih (by simpa using hwidth)
            simpa [Ne.symm hne] using hname

theorem cellAt_append_of_not_mem {columns more : List Column} {row pad : Row}
    {name : String} (hwidth : row.length = columns.length)
    (hname : name ∉ columns.map Column.name) :
    cellAt (columns ++ more) (row ++ pad) name = cellAt more pad name := by
  induction columns generalizing row with
  | nil =>
      rw [List.length_eq_zero_iff.mp hwidth]
      rfl
  | cons column columns ih =>
      cases row with
      | nil => cases hwidth
      | cons cell row =>
          simp only [List.map_cons, List.mem_cons, not_or] at hname
          simp only [List.cons_append, cellAt, Ne.symm hname.1, if_false]
          exact ih (by simpa using hwidth) hname.2

theorem cellAt_map {columns : List Column} {f : Column → Cell}
    (hnames : (columns.map Column.name).Nodup) {column : Column}
    (hcolumn : column ∈ columns) :
    cellAt columns (columns.map f) column.name = f column := by
  induction columns with
  | nil => cases hcolumn
  | cons first rest ih =>
      rw [List.map_cons, List.nodup_cons] at hnames
      simp only [List.map_cons, cellAt]
      rcases List.mem_cons.mp hcolumn with rfl | hrest
      · simp
      · have hne : first.name ≠ column.name := fun heq =>
          hnames.1 (heq ▸ List.mem_map_of_mem hrest)
        rw [if_neg hne]
        exact ih hnames.2 hrest

theorem Schema.mem_of_table {schema : Schema} {name : String} {layout : Layout}
    (h : schema.table name = some layout) :
    layout ∈ schema.tables ∧ layout.name = name := by
  have hmem := List.mem_of_find?_eq_some h
  have hname := List.find?_some h
  exact ⟨hmem, by simpa using hname⟩

theorem Schema.WellFormed.table_of_mem {schema : Schema} (h : schema.WellFormed)
    {layout : Layout} (hmem : layout ∈ schema.tables) :
    schema.table layout.name = some layout := by
  have hnodup := h.tables
  unfold Schema.table
  generalize schema.tables = tables at hmem hnodup
  induction tables with
  | nil => cases hmem
  | cons first rest ih =>
      rw [List.map_cons, List.nodup_cons] at hnodup
      rcases List.mem_cons.mp hmem with rfl | hrest
      · simp
      · have hne : first.name ≠ layout.name := fun heq =>
          hnodup.1 (heq ▸ List.mem_map_of_mem hrest)
        rw [List.find?_cons_of_neg (by simpa using hne)]
        exact ih hrest hnodup.2

end OrcState.Foundation.Relational
