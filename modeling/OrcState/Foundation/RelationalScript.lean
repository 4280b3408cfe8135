import OrcState.Foundation.RelationalSound

/-!
# Scripts that keep a database sound

A script of statements that widen keeps a sound database sound and every row
readable.  Whether it succeeds is decided by the layouts alone, but for the unique
indexes it creates.
-/

namespace OrcState.Foundation.Relational

variable {schema schema' : Schema} {layout layout' : Layout} {db db' : Database}
  {rows : List Row}

def Statement.widening : Statement → Bool
  | .createTable _ | .createTableIfNotExists _ | .addColumn _ _
  | .createIndex _ => true
  | .insert _ _ | .insertSelect _ _ _ | .dropTable _ | .renameTable _ _ => false

def Statement.free : Statement → Bool
  | .createIndex index => !index.unique
  | statement => statement.widening

def fits : List Statement → Schema → Bool
  | [], schema => decide schema.WellFormed
  | statement :: rest, schema =>
      decide schema.WellFormed &&
        match statement.alter schema with
        | .error _ => false
        | .ok schema => fits rest schema

theorem fits_cons {statement : Statement} {rest : List Statement}
    (h : fits (statement :: rest) schema = true) :
    schema.WellFormed ∧ ∃ schema', statement.alter schema = .ok schema' ∧
      fits rest schema' = true := by
  simp only [fits, Bool.and_eq_true, decide_eq_true_eq] at h
  refine ⟨h.1, ?_⟩
  cases halter : statement.alter schema with
  | error e => simp [halter] at h
  | ok schema' =>
      simp only [halter] at h
      exact ⟨schema', rfl, h.2⟩

theorem fits_wellFormed {script : List Statement} (h : fits script schema = true) :
    schema.WellFormed := by
  cases script with
  | nil => simpa [fits] using h
  | cons statement rest => exact (fits_cons h).1

theorem Database.Sound.createTableIfNotExists (hs : db.Sound)
    (hwf : db.schema.WellFormed) (hwf' : db'.schema.WellFormed)
    (h : (Statement.createTableIfNotExists layout).exec db = .ok db') :
    db'.Sound ∧ Widens db db' := by
  by_cases hthere : (db.schema.table layout.name).isSome
  · obtain ⟨schema, rows, halter, hmove, rfl⟩ := Statement.exec_ok.mp h
    simp only [Statement.alter, if_pos hthere] at halter
    simp only [Statement.move, if_pos hthere] at hmove
    cases halter
    cases hmove
    exact ⟨hs, .refl db⟩
  · have hcreate : (Statement.createTable layout).exec db = .ok db' := by
      obtain ⟨schema, rows, halter, hmove, rfl⟩ := Statement.exec_ok.mp h
      simp only [Statement.alter, if_neg hthere] at halter
      simp only [Statement.move, if_neg hthere] at hmove
      cases halter
      cases hmove
      simp [Statement.exec, Statement.alter, Statement.move, hthere]
    exact hs.createTable hwf hwf' hcreate

/-- A script that only widens keeps the database sound and its tables widened. -/
theorem Database.Sound.script {script : List Statement} (hs : db.Sound)
    (hwidening : ∀ statement ∈ script, statement.widening = true)
    (hfits : fits script db.schema = true) (h : exec script db = .ok db') :
    db'.Sound ∧ Widens db db' := by
  induction script generalizing db with
  | nil =>
      cases h
      exact ⟨hs, .refl _⟩
  | cons statement rest ih =>
      obtain ⟨m, hm, hrest⟩ := exec_cons_ok.mp h
      obtain ⟨hwf, schema', halter, hfits'⟩ := fits_cons hfits
      obtain ⟨schema, rows, halter', -, hmid⟩ := Statement.exec_ok.mp hm
      rw [halter] at halter'
      cases halter'
      have hschema : m.schema = schema' := by rw [hmid]
      rw [← hschema] at hfits'
      have hwf' := fits_wellFormed hfits'
      have hstep : m.Sound ∧ Widens db m := by
        have hw := hwidening statement List.mem_cons_self
        cases statement with
        | createTable layout => exact hs.createTable hwf hwf' hm
        | createTableIfNotExists layout =>
            exact hs.createTableIfNotExists hwf hwf' hm
        | addColumn table column => exact hs.addColumn hwf hwf' hm
        | createIndex index => exact hs.createIndex hwf hwf' hm
        | insert table row => cases hw
        | insertSelect target source columns => cases hw
        | dropTable table => cases hw
        | renameTable table name => cases hw
      obtain ⟨hsound, hwidens⟩ := ih hstep.1
        (fun other hother => hwidening other (List.mem_cons_of_mem _ hother))
        hfits' hrest
      exact ⟨hsound, hstep.2.trans hwidens⟩

def Statement.touched : Statement → List String
  | .createTable layout | .createTableIfNotExists layout => [layout.name]
  | .addColumn table _ | .insert table _ | .dropTable table => [table]
  | .createIndex _ => []
  | .insertSelect target _ _ => [target]
  | .renameTable table name => [table, name]

theorem exec_rows_of_untouched {script : List Statement} {table : String}
    (huntouched : ∀ statement ∈ script, table ∉ statement.touched)
    (h : exec script db = .ok db') : db'.rows table = db.rows table := by
  induction script generalizing db with
  | nil =>
      cases h
      rfl
  | cons statement rest ih =>
      obtain ⟨m, hm, hrest⟩ := exec_cons_ok.mp h
      rw [ih (fun other hother => huntouched other (List.mem_cons_of_mem _ hother))
        hrest]
      have hstatement := huntouched statement List.mem_cons_self
      cases statement with
      | createTable layout =>
          obtain ⟨schema, rows, -, hmove, rfl⟩ := Statement.exec_ok.mp hm
          cases hmove
          exact Function.update_of_ne (by simpa [Statement.touched] using hstatement)
            _ _
      | createTableIfNotExists layout =>
          obtain ⟨schema, rows, -, hmove, rfl⟩ := Statement.exec_ok.mp hm
          cases hmove
          dsimp only
          split
          · rfl
          · exact Function.update_of_ne
              (by simpa [Statement.touched] using hstatement) _ _
      | addColumn target column =>
          obtain ⟨schema, rows, -, hmove, rfl⟩ := Statement.exec_ok.mp hm
          cases hmove
          exact Function.update_of_ne (by simpa [Statement.touched] using hstatement)
            _ _
      | createIndex index =>
          obtain ⟨layout, -, -, rfl⟩ := createIndex_ok hm
          rfl
      | insert target row =>
          obtain ⟨layout, -, -, rfl⟩ := insert_ok hm
          exact Function.update_of_ne (by simpa [Statement.touched] using hstatement)
            _ _
      | insertSelect target source columns =>
          obtain ⟨schema, rows, -, hmove, rfl⟩ := Statement.exec_ok.mp hm
          simp only [Statement.move] at hmove
          split at hmove
          · split at hmove
            · cases hmove
              exact Function.update_of_ne
                (by simpa [Statement.touched] using hstatement) _ _
            · cases hmove
          · cases hmove
      | dropTable target =>
          obtain ⟨schema, rows, -, hmove, rfl⟩ := Statement.exec_ok.mp hm
          cases hmove
          exact Function.update_of_ne (by simpa [Statement.touched] using hstatement)
            _ _
      | renameTable target name =>
          obtain ⟨schema, rows, -, hmove, rfl⟩ := Statement.exec_ok.mp hm
          cases hmove
          simp only [Statement.touched, List.mem_cons, List.not_mem_nil, or_false,
            not_or] at hstatement
          dsimp only
          rw [Function.update_of_ne hstatement.1, Function.update_of_ne hstatement.2]

theorem Widens.index {index : Index} (h : Widens db db')
    (hwf' : db'.schema.WellFormed)
    (hlayout : layout ∈ db.schema.tables) (htable : layout.name = index.table)
    (hcolumns : index.columns ⊆ layout.names)
    (hreads : index.filter.reads ⊆ layout.names)
    (hlayout' : db'.schema.table index.table = some layout') :
    index.holds layout' (db'.rows index.table) ↔
      index.holds layout (db.rows index.table) := by
  obtain ⟨layout'', hmem, grow, hw⟩ := h layout hlayout
  have hfind := hwf'.table_of_mem hmem
  rw [hw.name, htable, hlayout'] at hfind
  cases hfind
  rw [← htable]
  exact hw.index hcolumns hreads

theorem Schema.Admits.snoc {row : Row} (h : schema.Admits layout rows)
    (hcells : List.Forall₂ (fun column cell => column.admits cell = true)
      layout.columns row)
    (hkeys : ∀ key ∈ layout.uniques, ∀ old ∈ rows,
      layout.clash key old row = false)
    (hindexes : ∀ index ∈ schema.indexes, index.table = layout.name →
      index.unique = false) : schema.Admits layout (rows ++ [row]) := by
  refine ⟨?_, ?_, ?_⟩
  · intro other hother
    rcases List.mem_append.mp hother with hold | hnew
    · exact h.1 other hold
    · cases List.mem_singleton.mp hnew
      exact hcells
  · intro key hkey
    rw [List.pairwise_append]
    refine ⟨h.2.1 key hkey, List.pairwise_singleton _ _, ?_⟩
    intro old hold new hnew
    cases List.mem_singleton.mp hnew
    exact hkeys key hkey old hold
  · intro index hindex htable hunique
    rw [hindexes index hindex htable] at hunique
    cases hunique

end OrcState.Foundation.Relational
