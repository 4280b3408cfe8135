import OrcState.Foundation.RelationalSound

/-!
# Rebuilding a table

A table gets a new layout by four statements: a temporary table is created, filled
from the old one, and renamed in its place once the old one is dropped.  Between
the last two nothing answers to the references to the table; after them they all
find their rows again, and the rows are what they were.
-/

namespace OrcState.Foundation.Relational

variable {schema : Schema} {layout : Layout} {db db' : Database}

theorem Layout.renamed_eq {table name : String}
    (hrefs : ∀ column ∈ layout.columns, ∀ reference ∈ column.references,
      reference.table ≠ table) :
    layout.renamed table name =
      { layout with name := if layout.name = table then name else layout.name } := by
  have hcolumns : ∀ column ∈ layout.columns, { column with
      references := column.references.map fun reference =>
        if reference.table = table then { reference with table := name }
        else reference } = column := by
    intro column hcolumn
    have href : column.references.map (fun reference =>
        if reference.table = table then { reference with table := name }
        else reference) = column.references := by
      cases hcase : column.references with
      | none => rfl
      | some reference =>
          simp [hrefs column hcolumn reference hcase]
    rw [href]
  simp only [Layout.renamed]
  rw [List.map_congr_left hcolumns, List.map_id']

theorem Schema.table_append (schema : Schema) (temp : Layout) (name : String) :
    Schema.table { schema with tables := schema.tables ++ [temp] } name =
      (schema.table name).or (if temp.name = name then some temp else none) := by
  simp only [Schema.table, List.find?_append, List.find?_singleton,
    decide_eq_true_eq]

theorem renamed_tables {temp : Layout} {name : String} {tables : List Layout}
    (hne : temp.name ≠ name)
    (hother : ∀ other ∈ tables, other.renamed temp.name name = other)
    (hself : temp.renamed temp.name name = { temp with name }) :
    ((tables ++ [temp]).filter (·.name ≠ name)).map (·.renamed temp.name name) =
      tables.filter (·.name ≠ name) ++ [{ temp with name }] := by
  have hmap : (tables.filter (·.name ≠ name)).map (·.renamed temp.name name) =
      tables.filter (·.name ≠ name) := by
    rw [List.map_congr_left fun other h =>
      hother other (List.mem_of_mem_filter h), List.map_id']
  rw [List.filter_append, List.map_append, hmap]
  simp [hne, hself]

theorem renamed_indexes {table name : String} {indexes : List Index}
    (h : ∀ index ∈ indexes, index.table ≠ table) :
    (indexes.filter (·.table ≠ name)).map (fun index =>
      if index.table = table then { index with table := name } else index) =
        indexes.filter (·.table ≠ name) := by
  have hindex : ∀ index ∈ indexes.filter (·.table ≠ name),
      (if index.table = table then { index with table := name } else index) =
        index := by
    intro index hindex
    rw [if_neg (h index (List.mem_of_mem_filter hindex))]
  rw [List.map_congr_left hindex, List.map_id']

/-- The four statements that give a table a new layout, copying its rows. -/
def rebuild (temp : Layout) (table : String) (columns : List String) :
    List Statement :=
  [.createTable temp, .insertSelect temp.name table columns, .dropTable table,
    .renameTable temp.name table]

def Database.rebuilt (db : Database) (temp layout : Layout)
    (columns : List String) : Database :=
  { db with
    schema :=
      { tables := db.schema.tables.filter (·.name ≠ layout.name) ++
          [{ temp with name := layout.name }]
        indexes := db.schema.indexes.filter (·.table ≠ layout.name) }
    rows := Function.update (Function.update db.rows layout.name
      ((db.rows layout.name).map (temp.copied layout columns))) temp.name [] }

theorem rebuild_ok {temp : Layout} {columns : List String}
    (hwf : db.schema.WellFormed) (hlayout : layout ∈ db.schema.tables)
    (hrefs : ∀ column ∈ temp.columns, ∀ reference ∈ column.references,
      ∃ parent ∈ db.schema.tables, parent.name = reference.table)
    (h : exec (rebuild temp layout.name columns) db = .ok db') :
    temp.name ∉ db.schema.tables.map Layout.name ∧ columns ⊆ temp.names ∧
      Schema.Admits { db.schema with tables := db.schema.tables ++ [temp] } temp
        ((db.rows layout.name).map (temp.copied layout columns)) ∧
      db' = db.rebuilt temp layout columns := by
  have htable := hwf.table_of_mem hlayout
  obtain ⟨m1, h1, h⟩ := exec_cons_ok.mp h
  obtain ⟨m2, h2, h⟩ := exec_cons_ok.mp h
  obtain ⟨m3, h3, h⟩ := exec_cons_ok.mp h
  obtain ⟨m4, h4, h⟩ := exec_cons_ok.mp h
  cases h
  obtain ⟨schema1, rows1, halter1, hmove1, rfl⟩ := Statement.exec_ok.mp h1
  obtain ⟨schema2, rows2, halter2, hmove2, rfl⟩ := Statement.exec_ok.mp h2
  obtain ⟨schema3, rows3, halter3, hmove3, rfl⟩ := Statement.exec_ok.mp h3
  obtain ⟨schema4, rows4, halter4, hmove4, rfl⟩ := Statement.exec_ok.mp h4
  simp only [Statement.alter] at halter1
  split at halter1
  · cases halter1
  rename_i hfresh
  cases halter1
  cases hmove1
  have hnone : db.schema.table temp.name = none := by simpa using hfresh
  have hnotin : temp.name ∉ db.schema.tables.map Layout.name := by
    intro hin
    obtain ⟨other, hother, heq⟩ := List.mem_map.mp hin
    rw [← heq, hwf.table_of_mem hother] at hnone
    cases hnone
  have hne : ∀ other ∈ db.schema.tables, other.name ≠ temp.name :=
    fun other hother heq => hnotin (heq ▸ List.mem_map_of_mem hother)
  have htemp : Schema.table
      { db.schema with tables := db.schema.tables ++ [temp] } temp.name =
        some temp := by
    rw [Schema.table_append, hnone, if_pos rfl]
    rfl
  have hold : Schema.table
      { db.schema with tables := db.schema.tables ++ [temp] } layout.name =
        some layout := by
    rw [Schema.table_append, htable]
    rfl
  simp only [Statement.alter, htemp, hold] at halter2
  split at halter2
  · cases halter2
  rename_i hcolumns
  cases halter2
  simp only [Statement.move, htemp, hold] at hmove2
  split at hmove2
  · rename_i hadmits
    cases hmove2
    rw [Function.update_self, List.nil_append,
      Function.update_of_ne (hne layout hlayout)] at hadmits
    simp only [Statement.alter, hold] at halter3
    cases halter3
    cases hmove3
    simp only [Statement.alter] at halter4
    split at halter4
    · cases halter4
    split at halter4
    · cases halter4
    cases halter4
    cases hmove4
    refine ⟨hnotin, ?_, hadmits, ?_⟩
    · intro name hname
      have hfound := List.find?_eq_none.mp hcolumns name hname
      simp only [Bool.not_eq_true, Bool.or_eq_false_iff, Bool.not_eq_false',
        List.any_eq_true, decide_eq_true_eq] at hfound
      obtain ⟨column, hcolumn, rfl⟩ := hfound.2
      exact List.mem_map_of_mem hcolumn
    have hother : ∀ other ∈ db.schema.tables,
        other.renamed temp.name layout.name = other := by
      intro other hother
      rw [Layout.renamed_eq, if_neg (hne other hother)]
      intro column hcolumn reference href heq
      obtain ⟨parent, hparent, hname, -⟩ :=
        hwf.references other hother column hcolumn reference href
      exact hne parent hparent (hname.trans heq)
    have hself : temp.renamed temp.name layout.name =
        { temp with name := layout.name } := by
      rw [Layout.renamed_eq, if_pos rfl]
      intro column hcolumn reference href heq
      obtain ⟨parent, hparent, hname⟩ := hrefs column hcolumn reference href
      exact hne parent hparent (hname.trans heq)
    have htables := renamed_tables (Ne.symm (hne layout hlayout)) hother hself
    have hindexes : ∀ index ∈ db.schema.indexes, index.table ≠ temp.name := by
      intro index hindex
      obtain ⟨parent, hparent, hname⟩ := hwf.indexed index hindex
      rw [← hname]
      exact hne parent hparent
    rw [htables, renamed_indexes hindexes]
    simp only [Database.rebuilt, Database.mk.injEq, true_and]
    funext name
    by_cases h1 : name = temp.name
    · simp [h1, Function.update]
    · by_cases h2 : name = layout.name
      · simp [h2, Function.update, Ne.symm (hne layout hlayout),
          hne layout hlayout]
      · simp [h1, h2, Function.update]
  · cases hmove2

theorem Layout.copied_cell {temp : Layout} {columns : List String} {row : Row}
    (hnames : temp.names.Nodup) {column : Column} (hcolumn : column ∈ temp.columns) :
    temp.cell (temp.copied layout columns row) column.name =
      if column.name ∈ columns then layout.cell row column.name
      else column.default :=
  cellAt_map hnames hcolumn

theorem Widened.rebuilt {temp : Layout} {columns : List String}
    (hne : layout.name ≠ temp.name) (hnames : temp.names.Nodup)
    (hcopied : layout.names ⊆ columns) (hcolumns : columns ⊆ temp.names)
    (hrefs : ∀ column' ∈ temp.columns, column'.references ≠ none →
      ∃ column ∈ layout.columns, column.name = column'.name ∧
        column.references = column'.references) :
    Widened db (db.rebuilt temp layout columns) layout
      { temp with name := layout.name } (temp.copied layout columns) where
  name := rfl
  rows := by
    change Function.update (Function.update db.rows layout.name _) temp.name []
      layout.name = _
    rw [Function.update_of_ne hne, Function.update_self]
  names := fun _ h => hcolumns (hcopied h)
  cells := by
    intro row _ name hname
    obtain ⟨column, hcolumn, rfl⟩ := List.mem_map.mp (hcolumns (hcopied hname))
    refine (Layout.copied_cell hnames hcolumn).trans ?_
    rw [if_pos (hcopied hname)]
  columns := by
    intro column' hcolumn'
    cases hcase : column'.references with
    | none =>
        refine .inr fun _ _ reference href => ?_
        cases href
    | some reference =>
        obtain ⟨column, hcolumn, hname, hsame⟩ :=
          hrefs column' hcolumn' (by simp [hcase])
        exact .inl ⟨column, hcolumn, hname, hsame.trans hcase⟩

/--
The rebuild keeps every row and every reference to it, as long as the columns it
copies are all the columns there were.
-/
theorem Database.Sound.rebuild {temp : Layout} {columns : List String}
    (hs : db.Sound) (hwf : db.schema.WellFormed)
    (hwf' : db'.schema.WellFormed) (hlayout : layout ∈ db.schema.tables)
    (hcopied : layout.names ⊆ columns)
    (hrefs : ∀ column' ∈ temp.columns, column'.references ≠ none →
      ∃ column ∈ layout.columns, column.name = column'.name ∧
        column.references = column'.references)
    (h : exec (rebuild temp layout.name columns) db = .ok db') :
    db'.Sound ∧ Widens db db' := by
  have hparents : ∀ column' ∈ temp.columns, ∀ reference ∈ column'.references,
      ∃ parent ∈ db.schema.tables, parent.name = reference.table := by
    intro column' hcolumn' reference href
    obtain ⟨column, hcolumn, -, hsame⟩ := hrefs column' hcolumn'
      (by rw [Option.mem_def.mp href]; simp)
    obtain ⟨parent, hparent, hname, -⟩ := hwf.references layout hlayout column
      hcolumn reference (hsame ▸ href)
    exact ⟨parent, hparent, hname⟩
  obtain ⟨hfresh, hcolumns, hadmits, rfl⟩ := rebuild_ok hwf hlayout hparents h
  have hne : ∀ other ∈ db.schema.tables, other.name ≠ temp.name :=
    fun other hother heq => hfresh (heq ▸ List.mem_map_of_mem hother)
  have hnew : { temp with name := layout.name } ∈
      (db.rebuilt temp layout columns).schema.tables :=
    List.mem_append_right _ (List.mem_singleton.mpr rfl)
  have hself : Widened db (db.rebuilt temp layout columns) layout
      { temp with name := layout.name } (temp.copied layout columns) :=
    .rebuilt (hne layout hlayout)
      (hwf'.columns { temp with name := layout.name } hnew) hcopied hcolumns hrefs
  have hothers : ∀ other ∈ db.schema.tables, other.name ≠ layout.name →
      Widened db (db.rebuilt temp layout columns) other other id := by
    intro other hother hname
    apply Widened.same
    change Function.update (Function.update db.rows layout.name _) temp.name []
      other.name = _
    rw [Function.update_of_ne (hne other hother), Function.update_of_ne hname]
  have hwidens : Widens db (db.rebuilt temp layout columns) := by
    intro other hother
    by_cases hname : other.name = layout.name
    · have hfind := hwf.table_of_mem hother
      rw [hname, hwf.table_of_mem hlayout] at hfind
      cases hfind
      exact ⟨_, hnew, _, hself⟩
    · refine ⟨other, ?_, id, hothers other hother hname⟩
      exact List.mem_append_left _ (List.mem_filter.mpr ⟨hother, by simpa using hname⟩)
  have htables : ∀ other ∈ (db.rebuilt temp layout columns).schema.tables,
      other = { temp with name := layout.name } ∨
        other ∈ db.schema.tables ∧ other.name ≠ layout.name := by
    intro other hother
    rcases List.mem_append.mp hother with hold | hlast
    · have hfilter := List.mem_filter.mp hold
      exact .inr ⟨hfilter.1, by simpa using hfilter.2⟩
    · exact .inl (List.mem_singleton.mp hlast)
  refine ⟨⟨?_, ?_⟩, hwidens⟩
  · intro other hother
    rcases htables other hother with rfl | ⟨hold, hname⟩
    · refine ⟨?_, ?_, ?_⟩
      · rw [hself.rows]
        exact hadmits.1
      · rw [hself.rows]
        exact hadmits.2.1
      · intro index hindex hindexed
        have hkept := (List.mem_filter.mp hindex).2
        simp only [decide_eq_true_eq] at hkept
        exact absurd hindexed hkept
    · exact (hothers other hold hname).admits hwf hold (hs.admitted other hold)
        (hs.admitted other hold).1 rfl fun index hindex _ =>
          List.mem_of_mem_filter hindex
  · refine hs.referenced_of_widening hwf hwf' hwidens ?_
    intro other hother
    rcases htables other hother with rfl | ⟨hold, hname⟩
    · exact .inr ⟨layout, hlayout, _, hself⟩
    · exact .inr ⟨other, hold, id, hothers other hold hname⟩

def Layout.relaxes (temp layout : Layout) : Prop :=
  temp.uniques = layout.uniques ∧
    List.Forall₂ (fun column' column => column'.name = column.name ∧
      (column'.notNull = true → column.notNull = true) ∧
      (column'.check = none ∨ column'.check = column.check))
        temp.columns layout.columns

theorem Layout.relaxes.names {temp : Layout} (h : temp.relaxes layout) :
    temp.names = layout.names := by
  have hcolumns := h.2
  unfold Layout.names
  generalize temp.columns = columns' at hcolumns
  generalize layout.columns = columns at hcolumns
  induction hcolumns with
  | nil => rfl
  | cons hhead _ ih => rw [List.map_cons, List.map_cons, hhead.1, ih]

theorem Layout.relaxes.admits {temp : Layout} (h : temp.relaxes layout)
    {row : Row}
    (hrow : List.Forall₂ (fun column cell => column.admits cell = true)
      layout.columns row) :
    List.Forall₂ (fun column cell => column.admits cell = true)
      temp.columns row := by
  have hcolumns := h.2
  generalize temp.columns = columns' at hcolumns
  generalize layout.columns = columns at hcolumns hrow
  induction hcolumns generalizing row with
  | nil => exact hrow
  | cons hhead _ ih =>
      cases hrow with
      | cons hcell hrest =>
          refine .cons ?_ (ih hrest)
          simp only [Column.admits, Bool.and_eq_true, Bool.or_eq_true] at hcell ⊢
          obtain ⟨-, hnull, hcheck⟩ := hhead
          refine ⟨?_, ?_⟩
          · rcases hcell.1 with hfree | hcell
            · left
              simp only [Bool.not_eq_true', Bool.eq_false_iff] at hfree ⊢
              exact fun hn => hfree (hnull hn)
            · exact .inr hcell
          · rcases hcheck with hnone | hsame
            · simp [hnone]
            · rw [hsame]
              exact hcell.2

end OrcState.Foundation.Relational
