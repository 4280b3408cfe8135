import Mathlib.Data.List.Forall2
import OrcState.Foundation.Relational

/-!
# Statements that keep a database sound

A table that is widened holds under its old columns what it held, so its keys
still differ and a reference to one of its rows still finds it.  A new table, a
new column and a new index widen the tables they find; an inserted row was checked
by the database itself.
-/

namespace OrcState.Foundation.Relational

variable {schema schema' : Schema} {layout layout' : Layout} {db db' : Database}
  {rows : List Row}

/-! ## Widened tables -/

/-- The table in the second database is the one of the first, row by row. -/
structure Widened (db db' : Database) (layout layout' : Layout) (grow : Row → Row) :
    Prop where
  name : layout'.name = layout.name
  rows : db'.rows layout.name = (db.rows layout.name).map grow
  names : layout.names ⊆ layout'.names
  cells : ∀ row ∈ db.rows layout.name, ∀ name ∈ layout.names,
    layout'.cell (grow row) name = layout.cell row name
  columns : ∀ column' ∈ layout'.columns,
    (∃ column ∈ layout.columns, column.name = column'.name ∧
        column.references = column'.references) ∨
      ∀ row ∈ db.rows layout.name, ∀ reference ∈ column'.references,
        layout'.cell (grow row) column'.name = .null

theorem Widened.refl (db : Database) (layout : Layout) :
    Widened db db layout layout id where
  name := rfl
  rows := (List.map_id _).symm
  names := fun _ h => h
  cells := fun _ _ _ _ => rfl
  columns := fun column h => .inl ⟨column, h, rfl, rfl⟩

theorem Widened.same (h : db'.rows layout.name = db.rows layout.name) :
    Widened db db' layout layout id where
  name := rfl
  rows := by simpa using h
  names := fun _ h => h
  cells := fun _ _ _ _ => rfl
  columns := fun column h => .inl ⟨column, h, rfl, rfl⟩

theorem Widened.project {grow : Row → Row} {names : List String} {row : Row}
    (h : Widened db db' layout layout' grow) (hrow : row ∈ db.rows layout.name)
    (hnames : names ⊆ layout.names) :
    layout'.project names (grow row) = layout.project names row :=
  List.map_congr_left fun name hname => h.cells row hrow name (hnames hname)

theorem Widened.clash {grow : Row → Row} {key : List String} {a b : Row}
    (h : Widened db db' layout layout' grow) (ha : a ∈ db.rows layout.name)
    (hb : b ∈ db.rows layout.name) (hkey : key ⊆ layout.names) :
    layout'.clash key (grow a) (grow b) = layout.clash key a b := by
  simp only [Layout.clash, h.project ha hkey, h.project hb hkey]

theorem Widened.covers {grow : Row → Row} {filter : Filter} {row : Row}
    (h : Widened db db' layout layout' grow) (hrow : row ∈ db.rows layout.name)
    (hreads : filter.reads ⊆ layout.names) :
    filter.covers layout' (grow row) = filter.covers layout row := by
  cases filter with
  | all => rfl
  | isIn column values =>
      simp only [Filter.covers, h.cells row hrow column (hreads (by simp [Filter.reads]))]
  | isNotNull column =>
      simp only [Filter.covers, h.cells row hrow column (hreads (by simp [Filter.reads]))]

theorem Widened.pairwise {grow : Row → Row} {key : List String}
    {rows : List Row} (h : Widened db db' layout layout' grow)
    (hrows : rows ⊆ db.rows layout.name) (hkey : key ⊆ layout.names)
    (hp : rows.Pairwise fun a b => layout.clash key a b = false) :
    (rows.map grow).Pairwise fun a b => layout'.clash key a b = false := by
  rw [List.pairwise_map]
  apply hp.imp_of_mem
  intro a b ha hb hab
  rw [h.clash (hrows ha) (hrows hb) hkey]
  exact hab

theorem Widened.index {grow : Row → Row} {index : Index}
    (h : Widened db db' layout layout' grow)
    (hcolumns : index.columns ⊆ layout.names)
    (hreads : index.filter.reads ⊆ layout.names) :
    index.holds layout' (db'.rows layout.name) ↔
      index.holds layout (db.rows layout.name) := by
  have hfilter : ((db.rows layout.name).map grow).filter
      (index.filter.covers layout') =
        ((db.rows layout.name).filter (index.filter.covers layout)).map grow := by
    rw [List.filter_map]
    congr 1
    apply List.filter_congr
    intro row hrow
    exact h.covers hrow hreads
  unfold Index.holds
  rw [h.rows, hfilter, List.pairwise_map]
  apply imp_congr_right
  intro _
  constructor
  · intro hp
    apply hp.imp_of_mem
    intro a b ha hb hab
    rwa [h.clash (List.mem_of_mem_filter ha) (List.mem_of_mem_filter hb) hcolumns]
      at hab
  · intro hp
    apply hp.imp_of_mem
    intro a b ha hb hab
    rwa [h.clash (List.mem_of_mem_filter ha) (List.mem_of_mem_filter hb) hcolumns]

def Widens (db db' : Database) : Prop :=
  ∀ layout ∈ db.schema.tables, ∃ layout' ∈ db'.schema.tables,
    ∃ grow, Widened db db' layout layout' grow

def Widening (db db' : Database) : Prop :=
  ∀ layout' ∈ db'.schema.tables, db'.rows layout'.name = [] ∨
    ∃ layout ∈ db.schema.tables, ∃ grow, Widened db db' layout layout' grow

theorem Widened.trans {db'' : Database} {layout'' : Layout} {grow grow' : Row → Row}
    (h : Widened db db' layout layout' grow)
    (h' : Widened db' db'' layout' layout'' grow') :
    Widened db db'' layout layout'' (grow' ∘ grow) where
  name := h'.name.trans h.name
  rows := by
    rw [← h.name, h'.rows, h.name, h.rows, List.map_map]
  names := fun _ hname => h'.names (h.names hname)
  cells := by
    intro row hrow name hname
    have hgrown : grow row ∈ db'.rows layout'.name := by
      rw [h.name, h.rows]
      exact List.mem_map_of_mem hrow
    exact (h'.cells _ hgrown name (h.names hname)).trans
      (h.cells row hrow name hname)
  columns := by
    intro column'' hcolumn''
    have hgrown : ∀ row ∈ db.rows layout.name,
        grow row ∈ db'.rows layout'.name := by
      intro row hrow
      rw [h.name, h.rows]
      exact List.mem_map_of_mem hrow
    rcases h'.columns column'' hcolumn'' with
      ⟨column', hcolumn', hname', hsame'⟩ | hnull
    · rcases h.columns column' hcolumn' with ⟨column, hcolumn, hname, hsame⟩ | hnull
      · exact .inl ⟨column, hcolumn, hname.trans hname', hsame.trans hsame'⟩
      · refine .inr fun row hrow reference href => ?_
        have hcell := h'.cells _ (hgrown row hrow) column'.name
          (List.mem_map_of_mem hcolumn')
        rw [← hname']
        exact hcell.trans (hnull row hrow reference (hsame' ▸ href))
    · exact .inr fun row hrow => hnull _ (hgrown row hrow)

theorem Widens.refl (db : Database) : Widens db db :=
  fun layout hlayout => ⟨layout, hlayout, id, .refl db layout⟩

theorem Widens.trans {db'' : Database} (h : Widens db db') (h' : Widens db' db'') :
    Widens db db'' := by
  intro layout hlayout
  obtain ⟨layout', hlayout', grow, hw⟩ := h layout hlayout
  obtain ⟨layout'', hlayout'', grow', hw'⟩ := h' layout' hlayout'
  exact ⟨layout'', hlayout'', _, hw.trans hw'⟩

theorem Widens.kept (h : Widens db db') : Kept [] db db' := by
  intro layout hlayout _
  obtain ⟨layout', hlayout', grow, hw⟩ := h layout hlayout
  refine ⟨layout', hlayout', hw.name, hw.names, ?_⟩
  rw [hw.rows, List.map_map]
  apply List.map_congr_left
  intro row hrow
  exact hw.project hrow fun _ h => h

theorem Kept.mono {except except' : List String} (h : Kept except db db')
    (hsub : except ⊆ except') : Kept except' db db' :=
  fun layout hlayout hname => h layout hlayout fun hin => hname (hsub hin)

theorem map_eq_of_map {α β γ δ : Type} {f : α → γ} {f' : β → γ}
    {fine : α → δ} {fine' : β → δ} {l : List α} {l' : List β}
    (h : l'.map fine' = l.map fine)
    (hcoarse : ∀ a b, fine' b = fine a → f' b = f a) :
    l'.map f' = l.map f := by
  induction l generalizing l' with
  | nil =>
      rw [List.map_nil, List.map_eq_nil_iff] at h
      rw [h]
      rfl
  | cons a l ih =>
      cases l' with
      | nil => cases h
      | cons b l' =>
          obtain ⟨hhead, hrest⟩ := List.cons.inj h
          rw [List.map_cons, List.map_cons, hcoarse a b hhead, ih hrest]

theorem Kept.trans {db'' : Database} {except : List String}
    (h : Kept except db db') (h' : Kept except db' db'') :
    Kept except db db'' := by
  intro layout hlayout hname
  obtain ⟨layout', hlayout', heq, hnames, hrows⟩ := h layout hlayout hname
  obtain ⟨layout'', hlayout'', heq', hnames', hrows'⟩ :=
    h' layout' hlayout' (heq ▸ hname)
  refine ⟨layout'', hlayout'', heq'.trans heq, fun _ hn => hnames' (hnames hn), ?_⟩
  rw [← hrows, ← heq]
  apply map_eq_of_map hrows'
  intro row' row'' hsame
  apply List.map_inj_left.mpr
  intro name hn
  exact List.map_inj_left.mp hsame name (hnames hn)

theorem Widens.present {reference : Reference} {cell : Cell}
    (h : Widens db db') (hwf : db.schema.WellFormed)
    (hnodup : db'.schema.WellFormed)
    (hcolumn : ∃ parent ∈ db.schema.tables,
      parent.name = reference.table ∧ reference.column ∈ parent.names)
    (hpresent : db.present reference cell = true) :
    db'.present reference cell = true := by
  obtain ⟨parent, hparent, hname, hnames⟩ := hcolumn
  have htable := hwf.table_of_mem hparent
  obtain ⟨parent', hparent', grow, hw⟩ := h parent hparent
  have htable' := hnodup.table_of_mem hparent'
  rw [hw.name, hname] at htable'
  rw [hname] at htable
  simp only [Database.present, htable, Option.any_some, List.any_eq_true,
    decide_eq_true_eq] at hpresent
  obtain ⟨row, hrow, hcell⟩ := hpresent
  rw [← hname] at hrow
  simp only [Database.present, htable', Option.any_some, List.any_eq_true,
    decide_eq_true_eq]
  refine ⟨grow row, ?_, ?_⟩
  · rw [← hname, hw.rows]
    exact List.mem_map_of_mem hrow
  · rw [hw.cells row hrow _ hnames]
    exact hcell

theorem Database.Sound.referenced_of_widening (hs : db.Sound)
    (hwf : db.schema.WellFormed) (hwf' : db'.schema.WellFormed)
    (h : Widens db db') (hback : Widening db db') :
    ∀ layout ∈ db'.schema.tables, ∀ row ∈ db'.rows layout.name,
      ∀ column ∈ layout.columns, ∀ reference ∈ column.references,
        layout.cell row column.name ≠ .null →
          db'.present reference (layout.cell row column.name) = true := by
  intro layout' hlayout' row' hrow' column' hcolumn' reference href hcell
  rcases hback layout' hlayout' with hempty | ⟨layout, hlayout, grow, hw⟩
  · rw [hempty] at hrow'
    cases hrow'
  rw [hw.name, hw.rows] at hrow'
  obtain ⟨row, hrow, rfl⟩ := List.mem_map.mp hrow'
  rcases hw.columns column' hcolumn' with
    ⟨column, hcolumn, hname, hreferences⟩ | hnull
  · rw [← hname, hw.cells row hrow column.name
      (List.mem_map_of_mem hcolumn)] at hcell ⊢
    rw [← hreferences] at href
    exact h.present hwf hwf' (hwf.references layout hlayout column hcolumn
      reference href) (hs.referenced layout hlayout row hrow column hcolumn
        reference href hcell)
  · exact absurd (hnull row hrow reference href) hcell

theorem Schema.Admits.width (h : schema.Admits layout rows) {row : Row}
    (hrow : row ∈ rows) : row.length = layout.columns.length :=
  (h.1 row hrow).length_eq.symm

theorem Schema.Admits.nil : schema.Admits layout [] := by
  refine ⟨by simp, by simp, ?_⟩
  intro index _ _ _
  simp

theorem Widened.admits {grow : Row → Row}
    (h : Widened db db' layout layout' grow)
    (hwf : db.schema.WellFormed) (hlayout : layout ∈ db.schema.tables)
    (ha : db.schema.Admits layout (db.rows layout.name))
    (hcells : ∀ row ∈ db.rows layout.name,
      List.Forall₂ (fun column cell => column.admits cell = true)
        layout'.columns (grow row))
    (huniques : layout'.uniques = layout.uniques)
    (hindexes : ∀ index ∈ db'.schema.indexes, index.table = layout.name →
      index ∈ db.schema.indexes) :
    db'.schema.Admits layout' (db'.rows layout'.name) := by
  rw [h.name]
  refine ⟨?_, ?_, ?_⟩
  · rw [h.rows]
    intro row' hrow'
    obtain ⟨row, hrow, rfl⟩ := List.mem_map.mp hrow'
    exact hcells row hrow
  · rw [huniques, h.rows]
    intro key hkey
    exact h.pairwise (fun _ hr => hr) (hwf.uniques layout hlayout key hkey)
      (ha.2.1 key hkey)
  · intro index hindex htable
    rw [h.name] at htable
    have hold := hindexes index hindex htable
    have hnames := hwf.indexes layout hlayout index hold htable
    exact (h.index hnames.1 hnames.2).mpr (ha.2.2 index hold htable)

/-! ## Statement by statement -/

theorem Database.Sound.createTable (hs : db.Sound) (hwf : db.schema.WellFormed)
    (hwf' : db'.schema.WellFormed)
    (h : (Statement.createTable layout).exec db = .ok db') :
    db'.Sound ∧ Widens db db' := by
  obtain ⟨schema, rows, halter, hmove, rfl⟩ := Statement.exec_ok.mp h
  cases hmove
  simp only [Statement.alter] at halter
  split at halter
  · cases halter
  rename_i hfresh
  cases halter
  have hne : ∀ other ∈ db.schema.tables, other.name ≠ layout.name := by
    intro other hother heq
    apply hfresh
    rw [← heq, hwf.table_of_mem hother]
    rfl
  have hsame : ∀ other ∈ db.schema.tables,
      Function.update db.rows layout.name [] other.name =
        db.rows other.name := fun other hother =>
    Function.update_of_ne (hne other hother) _ _
  have hwidens : Widens db { db with
      schema := { db.schema with tables := db.schema.tables ++ [layout] }
      rows := Function.update db.rows layout.name [] } := by
    intro other hother
    exact ⟨other, List.mem_append_left _ hother, id,
      .same (hsame other hother)⟩
  refine ⟨⟨?_, ?_⟩, hwidens⟩
  · intro other hother
    rcases List.mem_append.mp hother with hold | hnew
    · change Schema.Admits _ other
        (Function.update db.rows layout.name [] other.name)
      rw [hsame other hold]
      exact hs.admitted other hold
    · cases List.mem_singleton.mp hnew
      change Schema.Admits _ layout
        (Function.update db.rows layout.name [] layout.name)
      rw [Function.update_self]
      exact .nil
  · refine hs.referenced_of_widening hwf hwf' hwidens ?_
    intro other hother
    rcases List.mem_append.mp hother with hold | hnew
    · exact .inr ⟨other, hold, id, .same (hsame other hold)⟩
    · cases List.mem_singleton.mp hnew
      exact .inl (Function.update_self _ _ _)

def Layout.extended (layout : Layout) (column : Column) : Layout :=
  { layout with columns := layout.columns ++ [column] }

def Database.addColumn (db : Database) (table : String) (column : Column) : Database :=
  { db with
    schema := { db.schema with
      tables := db.schema.tables.map fun other =>
        if other.name = table then other.extended column else other }
    rows := Function.update db.rows table
      ((db.rows table).map (· ++ [column.default])) }

theorem addColumn_ok {table : String} {column : Column}
    (h : (Statement.addColumn table column).exec db = .ok db') :
    ∃ layout, db.schema.table table = some layout ∧
      column.name ∉ layout.names ∧ column.admits column.default = true ∧
      (column.references.isSome = true → column.default = .null) ∧
      db' = db.addColumn table column := by
  obtain ⟨schema, rows, halter, hmove, rfl⟩ := Statement.exec_ok.mp h
  cases hmove
  simp only [Statement.alter] at halter
  cases htable : db.schema.table table with
  | none => simp [htable] at halter
  | some layout =>
      simp only [htable] at halter
      split at halter
      · cases halter
      rename_i hfresh
      split at halter
      · cases halter
      rename_i hdefault
      cases halter
      refine ⟨layout, rfl, ?_, ?_, ?_, rfl⟩
      · simpa [Layout.names] using hfresh
      · simp only [not_or, Bool.not_eq_false] at hdefault
        exact hdefault.1
      · intro href
        simp only [not_or, not_and, not_not] at hdefault
        exact hdefault.2 href

theorem Layout.extended_cell {column : Column} {row : Row} {name : String}
    (hwidth : row.length = layout.columns.length) :
    (layout.extended column).cell (row ++ [column.default]) name =
      if name ∈ layout.names then layout.cell row name
      else if column.name = name then column.default else .null := by
  split
  · rename_i hname
    exact cellAt_append_of_mem hwidth hname
  · rename_i hname
    exact cellAt_append_of_not_mem hwidth hname

theorem Widened.addColumn {column : Column} (hs : db.Sound)
    (hlayout : layout ∈ db.schema.tables) (hfresh : column.name ∉ layout.names)
    (hdefault : column.references.isSome = true → column.default = .null) :
    Widened db (db.addColumn layout.name column) layout
      (layout.extended column) (· ++ [column.default]) where
  name := rfl
  rows := Function.update_self _ _ _
  names := by
    intro name hname
    simp only [Layout.names, Layout.extended, List.map_append, List.mem_append]
    exact .inl hname
  cells := by
    intro row hrow name hname
    rw [Layout.extended_cell ((hs.admitted layout hlayout).width hrow),
      if_pos hname]
  columns := by
    intro column' hcolumn'
    rcases List.mem_append.mp hcolumn' with hin | hnew
    · exact .inl ⟨column', hin, rfl, rfl⟩
    · cases List.mem_singleton.mp hnew
      refine .inr fun row hrow reference href => ?_
      rw [Layout.extended_cell ((hs.admitted layout hlayout).width hrow),
        if_neg hfresh, if_pos rfl]
      exact hdefault (by rw [Option.mem_def.mp href]; rfl)

theorem Database.addColumn_table {column : Column} {other : Layout}
    (hwf : db.schema.WellFormed) (hlayout : layout ∈ db.schema.tables)
    (hother : other ∈ (db.addColumn layout.name column).schema.tables) :
    other = layout.extended column ∨
      other ∈ db.schema.tables ∧ other.name ≠ layout.name := by
  obtain ⟨old, hold, rfl⟩ := List.mem_map.mp hother
  split
  · rename_i heq
    have hfind := hwf.table_of_mem hold
    rw [heq, hwf.table_of_mem hlayout] at hfind
    cases hfind
    exact .inl rfl
  · rename_i hne
    exact .inr ⟨hold, hne⟩

theorem Database.Sound.addColumn {table : String} {column : Column} (hs : db.Sound)
    (hwf : db.schema.WellFormed) (hwf' : db'.schema.WellFormed)
    (h : (Statement.addColumn table column).exec db = .ok db') :
    db'.Sound ∧ Widens db db' := by
  obtain ⟨layout, htable, hfresh, hadmits, hdefault, rfl⟩ := addColumn_ok h
  obtain ⟨hlayout, rfl⟩ := Schema.mem_of_table htable
  have hgrown := hs.admitted layout hlayout
  have hself := Widened.addColumn hs hlayout hfresh hdefault
  have hothers : ∀ other ∈ db.schema.tables, other.name ≠ layout.name →
      Widened db (db.addColumn layout.name column) other other id :=
    fun other _ hne => .same (Function.update_of_ne hne _ _)
  have hwidens : Widens db (db.addColumn layout.name column) := by
    intro other hother
    by_cases hname : other.name = layout.name
    · have hfind := hwf.table_of_mem hother
      rw [hname, htable] at hfind
      cases hfind
      refine ⟨layout.extended column, ?_, _, hself⟩
      exact List.mem_map.mpr ⟨layout, hlayout, if_pos rfl⟩
    · refine ⟨other, ?_, id, hothers other hother hname⟩
      exact List.mem_map.mpr ⟨other, hother, if_neg hname⟩
  refine ⟨⟨?_, ?_⟩, hwidens⟩
  · intro other hother
    rcases Database.addColumn_table hwf hlayout hother with rfl | ⟨hold, hne⟩
    · refine hself.admits hwf hlayout hgrown ?_ rfl fun index hindex _ => hindex
      intro row hrow
      exact List.rel_append (hgrown.1 row hrow) (.cons hadmits .nil)
    · have hsame := hothers other hold hne
      refine hsame.admits hwf hold (hs.admitted other hold) ?_ rfl
        fun index hindex _ => hindex
      exact (hs.admitted other hold).1
  · refine hs.referenced_of_widening hwf hwf' hwidens ?_
    intro other hother
    rcases Database.addColumn_table hwf hlayout hother with rfl | ⟨hold, hne⟩
    · exact .inr ⟨layout, hlayout, _, hself⟩
    · exact .inr ⟨other, hold, id, hothers other hold hne⟩

theorem createIndex_ok {index : Index}
    (h : (Statement.createIndex index).exec db = .ok db') :
    ∃ layout, db.schema.table index.table = some layout ∧
      index.holds layout (db.rows index.table) ∧
      db' = { db with
        schema := { db.schema with indexes := db.schema.indexes ++ [index] } } := by
  obtain ⟨schema, rows, halter, hmove, rfl⟩ := Statement.exec_ok.mp h
  simp only [Statement.alter] at halter
  simp only [Statement.move] at hmove
  cases htable : db.schema.table index.table with
  | none => simp [htable] at halter
  | some layout =>
      simp only [htable] at halter hmove
      split at hmove
      · rename_i hholds
        cases hmove
        split at halter
        · cases halter
        split at halter
        · cases halter
        cases halter
        exact ⟨layout, rfl, hholds, rfl⟩
      · cases hmove

theorem Database.Sound.createIndex {index : Index} (hs : db.Sound)
    (hwf : db.schema.WellFormed) (hwf' : db'.schema.WellFormed)
    (h : (Statement.createIndex index).exec db = .ok db') :
    db'.Sound ∧ Widens db db' := by
  obtain ⟨layout, htable, hholds, rfl⟩ := createIndex_ok h
  have hwidens : Widens db { db with
      schema := { db.schema with indexes := db.schema.indexes ++ [index] } } :=
    fun other hother => ⟨other, hother, id, .same rfl⟩
  refine ⟨⟨?_, ?_⟩, hwidens⟩
  · intro other hother
    obtain ⟨hcells, huniques, hindexes⟩ := hs.admitted other hother
    refine ⟨hcells, huniques, ?_⟩
    intro index' hindex' hname
    rcases List.mem_append.mp hindex' with hold | hnew
    · exact hindexes index' hold hname
    · cases List.mem_singleton.mp hnew
      rw [hname, hwf.table_of_mem hother] at htable
      cases htable
      rw [hname] at hholds
      exact hholds
  · exact hs.referenced_of_widening hwf hwf' hwidens fun other hother =>
      .inr ⟨other, hother, id, .same rfl⟩

theorem insert_ok {table : String} {row : Row}
    (h : (Statement.insert table row).exec db = .ok db') :
    ∃ layout, db.schema.table table = some layout ∧
      db.schema.Admits layout (db.rows table ++ [row]) ∧
      db' = { db with
        rows := Function.update db.rows table (db.rows table ++ [row]) } := by
  obtain ⟨schema, rows, halter, hmove, rfl⟩ := Statement.exec_ok.mp h
  simp only [Statement.alter] at halter
  simp only [Statement.move] at hmove
  cases htable : db.schema.table table with
  | none => simp [htable] at halter
  | some layout =>
      simp only [htable] at halter hmove
      cases halter
      split at hmove
      · rename_i hadmits
        cases hmove
        exact ⟨layout, rfl, hadmits, rfl⟩
      · cases hmove

theorem Database.Sound.insert {table : String} {row : Row} (hs : db.Sound)
    (hwf : db.schema.WellFormed)
    (hfree : ∀ layout ∈ db.schema.tables, layout.name = table →
      ∀ column ∈ layout.columns, column.references = none)
    (h : (Statement.insert table row).exec db = .ok db') :
    db'.Sound ∧ Kept [table] db db' := by
  obtain ⟨layout, htable, hadmits, rfl⟩ := insert_ok h
  obtain ⟨hlayout, rfl⟩ := Schema.mem_of_table htable
  have hrows : ∀ name row', row' ∈ db.rows name → row' ∈
      Function.update db.rows layout.name (db.rows layout.name ++ [row]) name := by
    intro name row' hrow'
    by_cases hname : name = layout.name
    · subst hname
      rw [Function.update_self]
      exact List.mem_append_left _ hrow'
    · rwa [Function.update_of_ne hname]
  refine ⟨⟨?_, ?_⟩, ?_⟩
  · intro other hother
    by_cases hname : other.name = layout.name
    · have hfind := hwf.table_of_mem hother
      rw [hname, htable] at hfind
      cases hfind
      change db.schema.Admits layout (Function.update db.rows layout.name
        (db.rows layout.name ++ [row]) layout.name)
      rw [Function.update_self]
      exact hadmits
    · change db.schema.Admits other (Function.update db.rows layout.name
        (db.rows layout.name ++ [row]) other.name)
      rw [Function.update_of_ne hname]
      exact hs.admitted other hother
  · intro other hother row' hrow' column hcolumn reference href hcell
    by_cases hname : other.name = layout.name
    · rw [hfree other hother hname column hcolumn] at href
      cases href
    · change row' ∈ Function.update db.rows layout.name
        (db.rows layout.name ++ [row]) other.name at hrow'
      rw [Function.update_of_ne hname] at hrow'
      have hpresent := hs.referenced other hother row' hrow' column hcolumn
        reference href hcell
      unfold Database.present at hpresent ⊢
      cases hparent : db.schema.table reference.table with
      | none => simp [hparent] at hpresent
      | some parent =>
          simp only [hparent, Option.any_some, List.any_eq_true] at hpresent ⊢
          obtain ⟨row'', hrow'', hfound⟩ := hpresent
          exact ⟨row'', hrows _ _ hrow'', hfound⟩
  · intro other hother hname
    refine ⟨other, hother, rfl, fun _ h => h, ?_⟩
    change (Function.update db.rows layout.name _ other.name).map _ = _
    rw [Function.update_of_ne (by simpa using hname)]

end OrcState.Foundation.Relational
