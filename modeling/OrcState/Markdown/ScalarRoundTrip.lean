import OrcState.Markdown.Block
import OrcState.Markdown.ScalarLines

/-!
# Scalars come back from frontmatter

A line that is read as one assignment, or as one more item, changes nothing else in
what the block says: with another scalar in its place the same text gives the same
fields, but for that one value.  The lines behind it never touch what is there,
except to add items to the list that is open.
-/

namespace OrcState.Markdown

open OrcState.Foundation OrcState.Foundation.Json

/-! ## What later lines keep -/

def Held (key : Units) (P : FieldValue → Prop) (r : Reading) : Prop :=
  ∃ field, field ∈ r.frontmatter ∧ field.key = key ∧ P field.value

theorem mem_change {frontmatter : Frontmatter} {key : Units}
    {f : FieldValue → FieldValue} {field : Field} :
    field ∈ frontmatter.change key f ↔
      (∃ field₀, field₀ ∈ frontmatter ∧ field₀.key = key ∧
        { field₀ with value := f field₀.value } = field) ∨
      (field ∈ frontmatter ∧ field.key ≠ key) := Table.mem_update

theorem assign_ok {source key : Units} {r r' : Reading} {value : FieldValue}
    {listKey : Option Units}
    (h : r.assign source key value listKey = .ok r') :
    objectPrototype.contains key = false ∧
      r.frontmatter.insert? ⟨key, value⟩ = some r'.frontmatter ∧
        r'.listKey = listKey := by
  unfold Reading.assign at h
  split at h
  · cases h
  · next hproto =>
      split at h
      · cases h
      · next frontmatter hinsert =>
          cases h
          exact ⟨Bool.eq_false_of_not_eq_true hproto, hinsert, rfl⟩

theorem push_ok {source raw item : Units} {r r' : Reading}
    (h : r.push source raw item = .ok r') : ∃ key, r.listKey = some key ∧
      r' = { r with frontmatter := r.frontmatter.change key (·.push item) } := by
  unfold Reading.push at h
  split at h
  · cases h
  · next key hkey =>
      cases h
      exact ⟨key, hkey, rfl⟩

theorem parseLine_ok {source raw : Units} {r r' : Reading}
    (h : parseLine source r raw = .ok r') :
    r' = r ∨ (∃ key value listKey, r.assign source key value listKey = .ok r' ∧
        ∀ k ∈ listKey, k = key ∧ value = .list []) ∨
      ∃ item, r.push source raw item = .ok r' := by
  unfold parseLine at h
  split at h
  · cases h
    exact .inl rfl
  · split at h
    · exact .inr (.inr ⟨_, h⟩)
    · split at h
      · cases h
      · next key value _ =>
          refine .inr (.inl ?_)
          split at h
          · exact ⟨key, _, _, h, fun k hk => ⟨(Option.some.inj hk).symm, rfl⟩⟩
          · split at h
            · exact ⟨key, _, _, h, fun k hk => nomatch hk⟩
            · exact ⟨key, _, _, h, fun k hk => nomatch hk⟩

theorem Held.push {key : Units} {P : FieldValue → Prop} {r r' : Reading}
    {source raw item : Units} (h : Held key P r)
    (hP : ∀ w, P w → P (w.push item))
    (hpush : r.push source raw item = .ok r') : Held key P r' := by
  obtain ⟨k, -, rfl⟩ := push_ok hpush
  obtain ⟨field, hmem, hkey, hvalue⟩ := h
  by_cases hk : field.key = k
  · exact ⟨_, mem_change.mpr (.inl ⟨field, hmem, hk, rfl⟩), hkey,
      hP field.value hvalue⟩
  · exact ⟨field, mem_change.mpr (.inr ⟨hmem, hk⟩), hkey, hvalue⟩

theorem Held.assign {key k : Units} {P : FieldValue → Prop} {r r' : Reading}
    {source : Units} {value : FieldValue} {listKey : Option Units}
    (h : Held key P r) (hassign : r.assign source k value listKey = .ok r') :
    Held key P r' := by
  obtain ⟨-, hinsert, -⟩ := assign_ok hassign
  obtain ⟨field, hmem, hkey, hvalue⟩ := h
  exact ⟨field, (Table.mem_insert? hinsert).mpr (.inl hmem), hkey, hvalue⟩

theorem Held.parseLine {key : Units} {P : FieldValue → Prop} {r r' : Reading}
    {source raw : Units} (h : Held key P r) (hP : ∀ w item, P w → P (w.push item))
    (hline : parseLine source r raw = .ok r') : Held key P r' := by
  rcases parseLine_ok hline with rfl | ⟨k, value, listKey, hassign, -⟩ | ⟨item, hpush⟩
  · exact h
  · exact h.assign hassign
  · exact h.push (fun w => hP w item) hpush

theorem parseLines_cons (source : Units) (r : Reading) (raw : Units)
    (lines : List Units) : parseLines source r (raw :: lines) =
      (parseLine source r raw).bind fun r => parseLines source r lines := rfl

theorem parseLines_append (source : Units) (r : Reading) (lines rest : List Units) :
    parseLines source r (lines ++ rest) =
      (parseLines source r lines).bind fun r => parseLines source r rest :=
  List.foldlM_append

theorem Held.parseLines {key : Units} {P : FieldValue → Prop} {r r' : Reading}
    {source : Units} {lines : List Units} (h : Held key P r)
    (hP : ∀ w item, P w → P (w.push item))
    (hlines : parseLines source r lines = .ok r') : Held key P r' := by
  induction lines generalizing r with
  | nil =>
      cases hlines
      exact h
  | cons raw lines ih =>
      rw [parseLines_cons] at hlines
      cases hline : Markdown.parseLine source r raw with
      | error e =>
          rw [hline] at hlines
          cases hlines
      | ok m =>
          rw [hline] at hlines
          exact ih (h.parseLine hP hline) hlines

/-! ## Another value in the same place -/

def Reading.change (r : Reading) (key : Units) (f : FieldValue → FieldValue) :
    Reading :=
  { r with frontmatter := r.frontmatter.change key f }

theorem change_comm {key k : Units} (hne : k ≠ key) (frontmatter : Frontmatter)
    (f g : FieldValue → FieldValue) :
    (frontmatter.change key f).change k g =
      (frontmatter.change k g).change key f := by
  refine Table.ext ?_
  simp only [Frontmatter.change, Table.update, Table.map, List.map_map]
  refine List.map_congr_left fun field _ => ?_
  simp only [Function.comp]
  by_cases hkey : field.key = key
  · have hk : field.key ≠ k := fun heq => hne (heq.symm.trans hkey)
    simp only [if_pos hkey, if_neg hk]
  · by_cases hk : field.key = k
    · simp only [if_neg hkey, if_pos hk]
    · simp only [if_neg hkey, if_neg hk]

theorem change_id (frontmatter : Frontmatter) (key : Units) :
    frontmatter.change key id = frontmatter := by
  refine Table.ext ((List.map_congr_left fun field _ => ?_).trans (List.map_id _))
  split <;> rfl

theorem change_change {key : Units} {P : FieldValue → Prop} {r : Reading}
    (h : Held key P r) {f g f' g' : FieldValue → FieldValue}
    (heq : ∀ w, P w → g (f w) = g' (f' w)) :
    (r.frontmatter.change key f).change key g =
      (r.frontmatter.change key f').change key g' := by
  obtain ⟨field, hmem, rfl, hP⟩ := h
  simp only [Frontmatter.change, Table.update_update]
  refine Table.update_congr hmem ?_
  simp only [Function.comp, heq field.value hP]

theorem insert?_change {key : Units} {frontmatter : Frontmatter}
    (hheld : ∃ field, field ∈ frontmatter ∧ field.key = key) (new : Field)
    (f : FieldValue → FieldValue) :
    (frontmatter.change key f).insert? new =
      (frontmatter.insert? new).map fun t => Frontmatter.change t key f := by
  have hkeys : (frontmatter.change key f).rows.map Field.key =
      frontmatter.rows.map Field.key := by
    simp only [Frontmatter.change, Table.update, Table.map, List.map_map]
    refine List.map_congr_left fun field _ => ?_
    simp only [Function.comp]
    split <;> rfl
  unfold Table.insert?
  simp only [hkeys]
  split
  · rfl
  · next hnot =>
      have hnew : new.key ≠ key := by
        rintro rfl
        obtain ⟨field, hmem, hkey⟩ := hheld
        exact hnot (List.mem_map.mpr ⟨field, hmem, hkey⟩)
      refine congrArg some (Table.ext ?_)
      simp only [Frontmatter.change, Table.update, Table.map, List.map_append,
        List.map_cons, List.map_nil, if_neg hnew]

theorem assign_change {key k : Units} {P : FieldValue → Prop} {r : Reading}
    (h : Held key P r) (source : Units) (value : FieldValue)
    (listKey : Option Units) (f : FieldValue → FieldValue) :
    (r.change key f).assign source k value listKey =
      (r.assign source k value listKey).map (·.change key f) := by
  obtain ⟨field, hmem, hkey, -⟩ := h
  unfold Reading.assign
  split
  · rfl
  · simp only [Reading.change, insert?_change ⟨field, hmem, hkey⟩]
    cases r.frontmatter.insert? ⟨k, value⟩ <;> rfl

theorem push_change {key : Units} {P : FieldValue → Prop} {r : Reading}
    (h : Held key P r) (source raw item : Units) {f : FieldValue → FieldValue}
    (hf : ∀ w, P w → f (w.push item) = (f w).push item) :
    (r.change key f).push source raw item =
      (r.push source raw item).map (·.change key f) := by
  unfold Reading.push
  simp only [Reading.change]
  cases r.listKey with
  | none => rfl
  | some k =>
      refine congrArg Except.ok ?_
      by_cases hk : k = key
      · subst hk
        have heq : (r.frontmatter.change k f).change k (·.push item) =
            (r.frontmatter.change k (·.push item)).change k f :=
          change_change h fun w hw => (hf w hw).symm
        simp only [heq]
      · simp only [change_comm hk]

theorem parseLine_change {key : Units} {P : FieldValue → Prop} {r : Reading}
    (h : Held key P r) (source raw : Units) {f : FieldValue → FieldValue}
    (hf : ∀ w item, P w → f (w.push item) = (f w).push item) :
    parseLine source (r.change key f) raw =
      (parseLine source r raw).map (·.change key f) := by
  unfold parseLine
  split
  · rfl
  · split
    · exact push_change h source raw _ fun w hw => hf w _ hw
    · split
      · rfl
      · split
        · exact assign_change h source _ _ f
        · split
          · exact assign_change h source _ _ f
          · exact assign_change h source _ _ f

/-- A value that is in its place does not decide what the lines behind it say. -/
theorem parseLines_change {key : Units} {P : FieldValue → Prop} {r : Reading}
    (h : Held key P r) (hP : ∀ w item, P w → P (w.push item)) (source : Units)
    (lines : List Units) {f : FieldValue → FieldValue}
    (hf : ∀ w item, P w → f (w.push item) = (f w).push item) :
    parseLines source (r.change key f) lines =
      (parseLines source r lines).map (·.change key f) := by
  induction lines generalizing r with
  | nil => rfl
  | cons raw lines ih =>
      rw [parseLines_cons, parseLines_cons, parseLine_change h source raw hf]
      cases hline : parseLine source r raw with
      | error e => rfl
      | ok m => exact ih (h.parseLine hP hline)

/-! ## The open list -/

def IsList (value : FieldValue) : Prop := ∃ items, value = .list items

def Opened (r : Reading) : Prop := ∀ key, r.listKey = some key → Held key IsList r

theorem IsList.push {value : FieldValue} (item : Units) (h : IsList value) :
    IsList (value.push item) := by
  obtain ⟨items, rfl⟩ := h
  exact ⟨items ++ [item], rfl⟩

theorem Opened.parseLine {source raw : Units} {r r' : Reading} (h : Opened r)
    (hline : Markdown.parseLine source r raw = .ok r') : Opened r' := by
  intro key hkey
  rcases parseLine_ok hline with rfl | ⟨k, value, listKey, hassign, hlist⟩ |
    ⟨item, hpush⟩
  · exact h key hkey
  · obtain ⟨-, hinsert, hopen⟩ := assign_ok hassign
    obtain ⟨rfl, rfl⟩ := hlist key (hopen.symm.trans hkey)
    exact ⟨⟨key, .list []⟩, (Table.mem_insert? hinsert).mpr (.inr rfl), rfl,
      [], rfl⟩
  · obtain ⟨k, hk, rfl⟩ := push_ok hpush
    exact (h key hkey).push (fun w => IsList.push item) hpush

theorem Opened.parseLines {source : Units} {lines : List Units} {r r' : Reading}
    (h : Opened r) (hlines : parseLines source r lines = .ok r') : Opened r' := by
  induction lines generalizing r with
  | nil =>
      cases hlines
      exact h
  | cons raw lines ih =>
      rw [parseLines_cons] at hlines
      cases hline : Markdown.parseLine source r raw with
      | error e =>
          rw [hline] at hlines
          cases hlines
      | ok m =>
          rw [hline] at hlines
          exact ih (h.parseLine hline) hlines

theorem Opened.empty : Opened {} := fun _ h => nomatch h

/-! ## The written lines stand inside a block -/

theorem inside_of_ends {text : Units} {u v : Nat} (hhead : text.head? = some u)
    (hu : u ≠ 0x2D) (hlast : text.getLast? = some v) (hv : space v = false)
    (hsingle : ∀ x ∈ text, x ≠ 0x0A) : Inside text where
  single := hsingle
  unreturned := by
    rw [hlast]
    intro heq
    rw [Option.some.inj heq] at hv
    cases hv
  notClosing := by
    intro hcloses
    unfold closes at hcloses
    rw [dashes.eq_def] at hcloses
    split at hcloses
    · exact hu (Option.some.inj hhead).symm
    · cases hcloses

theorem single_formatScalar {value : Units}
    (h : (formatScalar value).any lineTerminator = false) :
    ∀ u ∈ formatScalar value, u ≠ 0x0A := by
  rintro u hu rfl
  exact List.any_eq_false.mp h _ hu (by decide)

theorem inside_scalarLine {key value : Units} (hkey : IsKey key)
    (hsingle : ∀ u ∈ formatScalar value, u ≠ 0x0A) :
    Inside (scalarLine key value) := by
  have hw := written_formatScalar value
  obtain ⟨u, hu, hstart⟩ := hkey.head
  obtain ⟨v, hv, hspace⟩ := hw.last
  have hbounds := keyStart_bounds hstart
  have hhead : (scalarLine key value).head? = some u := by
    rw [scalarLine, List.append_assoc, List.head?_append, hu]
    rfl
  refine inside_of_ends hhead (by omega)
    ((getLast?_append_written hw _).trans hv) hspace ?_
  rintro x hx rfl
  rw [scalarLine, units_colon, List.append_assoc] at hx
  rcases List.mem_append.mp hx with hx | hx
  · exact absurd (hkey.all _ hx) (by decide)
  · rcases List.mem_append.mp hx with hx | hx
    · exact absurd hx (by decide)
    · exact hsingle _ hx rfl

theorem inside_itemLine {value : Units}
    (hsingle : ∀ u ∈ formatScalar value, u ≠ 0x0A) : Inside (itemLine value) := by
  have hw := written_formatScalar value
  obtain ⟨v, hv, hspace⟩ := hw.last
  have hhead : (itemLine value).head? = some 0x20 := by
    rw [itemLine, units_item]
    rfl
  refine inside_of_ends hhead (by decide)
    ((getLast?_append_written hw _).trans hv) hspace ?_
  rintro x hx rfl
  rw [itemLine, units_item] at hx
  rcases List.mem_append.mp hx with hx | hx
  · exact absurd hx (by decide)
  · exact hsingle _ hx rfl

/-! ## One field -/

def reference : Units := units "x"

theorem readable_reference : Readable reference := by decide

theorem single_of_readable {value : Units} (h : Readable value) :
    ∀ u ∈ formatScalar value, u ≠ 0x0A :=
  single_formatScalar (readable_iff.mp h)

theorem insert?_value (frontmatter : Frontmatter) (key : Units)
    (value value' : FieldValue) :
    frontmatter.insert? ⟨key, value⟩ = (frontmatter.insert? ⟨key, value'⟩).map
      fun t => Frontmatter.change t key fun _ => value := by
  unfold Table.insert?
  dsimp only
  split
  · rfl
  · next hnot =>
      refine congrArg some (Table.ext ?_)
      simp only [Frontmatter.change, Table.update, Table.map, List.map_append,
        List.map_cons, List.map_nil, if_true]
      refine congrArg (· ++ [_]) ?_
      refine ((List.map_congr_left fun field hmem => ?_).trans
        (List.map_id _)).symm
      have hne : field.key ≠ key := fun heq =>
        hnot (List.mem_map.mpr ⟨field, hmem, heq⟩)
      rw [if_neg hne]
      rfl

theorem assign_value (r : Reading) (source key : Units) (value value' : FieldValue)
    (listKey : Option Units) :
    r.assign source key value listKey =
      (r.assign source key value' listKey).map (·.change key fun _ => value) := by
  unfold Reading.assign
  split
  · rfl
  · rw [insert?_value r.frontmatter key value value']
    cases r.frontmatter.insert? ⟨key, value'⟩ <;> rfl

/--
Whatever stands around it, the line of `value` gives the fields that the line of
the reference gives, with `value` under the key.
-/
def FieldReads (value : Units) : Prop :=
  ∀ (s : Surroundings) (source key : Units), IsKey key →
    s.outcome source (scalarLine key value) =
      (s.outcome source (scalarLine key reference)).map (fun read =>
        (Frontmatter.change read.1 key fun _ => .scalar value, read.2)) ∧
    ∀ read ∈ s.outcome source (scalarLine key value),
      read.1.find? key = some ⟨key, .scalar value⟩

theorem held_assign {source key : Units} {r r' : Reading} {value : FieldValue}
    {listKey : Option Units} (h : r.assign source key value listKey = .ok r') :
    Held key (· = value) r' := by
  obtain ⟨-, hinsert, -⟩ := assign_ok h
  exact ⟨⟨key, value⟩, (Table.mem_insert? hinsert).mpr (.inr rfl), rfl, rfl⟩

theorem Held.change {key : Units} {P Q : FieldValue → Prop} {r : Reading}
    (h : Held key P r) {f : FieldValue → FieldValue}
    (hf : ∀ w, P w → Q (f w)) : Held key Q (r.change key f) := by
  obtain ⟨field, hmem, hkey, hP⟩ := h
  exact ⟨_, mem_change.mpr (.inl ⟨field, hmem, hkey, rfl⟩), hkey, hf _ hP⟩

theorem Held.find? {key : Units} {P : FieldValue → Prop} {r : Reading}
    (h : Held key P r) :
    ∃ value, r.frontmatter.find? key = some ⟨key, value⟩ ∧ P value := by
  obtain ⟨field, hmem, rfl, hP⟩ := h
  exact ⟨field.value, Table.find?_of_mem hmem, hP⟩

theorem fieldReads_of_readable {value : Units} (hvalue : Readable value) :
    FieldReads value := by
  intro s source key hkey
  rw [outcome_eq s source (inside_scalarLine hkey (single_of_readable hvalue)),
    outcome_eq s source
      (inside_scalarLine hkey (single_of_readable readable_reference))]
  simp only [parseLines_append, parseLines_cons,
    parseLine_scalar source _ hkey hvalue,
    parseLine_scalar source _ hkey readable_reference]
  cases hbefore : parseLines source {} (s.before.map BlockLine.text) with
  | error e => exact ⟨rfl, by rintro _ ⟨⟩⟩
  | ok r =>
      simp only [Except.bind,
        assign_value r source key (.scalar value) (.scalar reference) none]
      cases hassign : r.assign source key (.scalar reference) none with
      | error e => exact ⟨rfl, by rintro _ ⟨⟩⟩
      | ok m =>
          have hscalar : ∀ (u : Units) (w : FieldValue) (item : Units),
              w = .scalar u → w.push item = .scalar u := by
            rintro u w item rfl
            rfl
          have hheld := held_assign hassign
          have hchanged : Held key (· = .scalar value)
              (m.change key fun _ => .scalar value) := hheld.change fun _ _ => rfl
          have hafter := parseLines_change hheld (hscalar reference) source
            (s.after.map BlockLine.text) (f := fun _ => .scalar value)
            fun _ _ _ => rfl
          simp only [Except.map]
          constructor
          · rw [hafter]
            cases parseLines source m (s.after.map BlockLine.text) <;> rfl
          · intro read hread
            cases hlines : parseLines source (m.change key fun _ => .scalar value)
                (s.after.map BlockLine.text) with
            | error e =>
                rw [hlines] at hread
                cases hread
            | ok r' =>
                rw [hlines] at hread
                cases hread
                obtain ⟨w, hfind, rfl⟩ :=
                  (hchanged.parseLines (hscalar value) hlines).find?
                exact hfind

/-! ## One item -/

def FieldValue.count : FieldValue → Nat
  | .scalar _ => 0
  | .list items => items.length

def FieldValue.setItem (n : Nat) (item : Units) : FieldValue → FieldValue
  | .scalar value => .scalar value
  | .list items => .list (items.set n item)

def Surroundings.openList (s : Surroundings) (source : Units) :
    Option (Units × Nat) :=
  (parseLines source {} (s.before.map BlockLine.text)).toOption.bind fun r =>
    r.listKey.bind fun key =>
      (r.frontmatter.find? key).map fun field => (key, field.value.count)

/--
Whatever stands around it, the line of the item gives the fields that the line of
the reference gives, with the item in its place in the list that is open.
-/
def ItemReads (item : Units) : Prop :=
  ∀ (s : Surroundings) (source : Units),
    s.outcome source (itemLine item) =
      (s.outcome source (itemLine reference)).map (fun read =>
        ((s.openList source).elim read.1 fun place =>
          Frontmatter.change read.1 place.1 (·.setItem place.2 item), read.2)) ∧
    ∀ read ∈ s.outcome source (itemLine item), ∃ key n items,
      s.openList source = some (key, n) ∧
        read.1.find? key = some ⟨key, .list items⟩ ∧ items[n]? = some item

def HasItem (n : Nat) (item : Units) (value : FieldValue) : Prop :=
  ∃ items, value = .list items ∧ items[n]? = some item

theorem HasItem.push {n : Nat} {item : Units} (value : FieldValue) (next : Units)
    (h : HasItem n item value) : HasItem n item (value.push next) := by
  obtain ⟨items, rfl, hitem⟩ := h
  obtain ⟨hlt, -⟩ := List.getElem?_eq_some_iff.mp hitem
  refine ⟨items ++ [next], rfl, ?_⟩
  rw [List.getElem?_append_left hlt, hitem]

theorem HasItem.setItem {n : Nat} {item item' : Units} (value : FieldValue)
    (h : HasItem n item value) : HasItem n item' (value.setItem n item') := by
  obtain ⟨items, rfl, hitem⟩ := h
  obtain ⟨hlt, -⟩ := List.getElem?_eq_some_iff.mp hitem
  refine ⟨items.set n item', rfl, ?_⟩
  rw [List.getElem?_set_self hlt]

theorem HasItem.setItem_push {n : Nat} {item item' : Units} (value : FieldValue)
    (next : Units) (h : HasItem n item value) :
    (value.push next).setItem n item' = (value.setItem n item').push next := by
  obtain ⟨items, rfl, hitem⟩ := h
  obtain ⟨hlt, -⟩ := List.getElem?_eq_some_iff.mp hitem
  simp only [FieldValue.push, FieldValue.setItem, List.set_append_left n _ hlt]

theorem push_setItem {r : Reading} {key : Units} {items : List Units}
    (hfind : r.frontmatter.find? key = some ⟨key, .list items⟩)
    (item item' : Units) :
    r.frontmatter.change key (·.push item') =
      (r.frontmatter.change key (·.push item)).change key
        (·.setItem items.length item') := by
  have hheld : Held key (· = .list items) r :=
    ⟨_, Table.mem_of_find? hfind, rfl, rfl⟩
  rw [← change_id (r.frontmatter.change key (·.push item')) key]
  refine change_change hheld ?_
  rintro w rfl
  simp [FieldValue.push, FieldValue.setItem]

theorem itemReads_of_readable {item : Units} (hitem : Readable item) :
    ItemReads item := by
  intro s source
  rw [outcome_eq s source (inside_itemLine (single_of_readable hitem)),
    outcome_eq s source (inside_itemLine (single_of_readable readable_reference))]
  simp only [parseLines_append, parseLines_cons, parseLine_item source _ hitem,
    parseLine_item source _ readable_reference, Surroundings.openList]
  cases hbefore : parseLines source {} (s.before.map BlockLine.text) with
  | error e => exact ⟨rfl, by rintro _ ⟨⟩⟩
  | ok r =>
      have hopened : Opened r := Opened.empty.parseLines hbefore
      simp only [Except.bind, Except.toOption, Option.bind_some]
      cases hlist : r.listKey with
      | none =>
          have hrefused : ∀ raw u, r.push source raw u = .error
              (source ++ units ": list item outside a list field: " ++ trim raw) := by
            intro raw u
            rw [Reading.push, hlist]
          rw [hrefused, hrefused]
          exact ⟨rfl, by rintro _ ⟨⟩⟩
      | some key =>
          obtain ⟨w, hfind, items, rfl⟩ := (hopened key hlist).find?
          have hpush : ∀ raw u, r.push source raw u = .ok
              { r with frontmatter := r.frontmatter.change key (·.push u) } := by
            intro raw u
            rw [Reading.push, hlist]
          have hheld : Held key (HasItem items.length reference)
              { r with
                frontmatter := r.frontmatter.change key (·.push reference) } := by
            refine ⟨_, mem_change.mpr (.inl ⟨_, Table.mem_of_find? hfind, rfl, rfl⟩),
              rfl, items ++ [reference], rfl, ?_⟩
            simp
          let m : Reading := { r with
            frontmatter := r.frontmatter.change key (·.push reference) }
          have hitemline : r.push source (itemLine item) item =
              .ok (m.change key (·.setItem items.length item)) := by
            rw [hpush, push_setItem hfind reference item]
            rfl
          have hchanged : Held key (HasItem items.length item)
              (m.change key (·.setItem items.length item)) :=
            hheld.change HasItem.setItem
          have hafter := parseLines_change hheld HasItem.push source
            (s.after.map BlockLine.text) (f := (·.setItem items.length item))
            HasItem.setItem_push
          rw [hpush (itemLine reference), hitemline]
          simp only [Option.bind_some, hfind, Option.map_some, FieldValue.count,
            Option.elim_some]
          constructor
          · rw [hafter]
            cases parseLines source m (s.after.map BlockLine.text) <;> rfl
          · intro read hread
            cases hlines : parseLines source
                (m.change key (·.setItem items.length item))
                (s.after.map BlockLine.text) with
            | error e =>
                rw [hlines] at hread
                cases hread
            | ok r' =>
                rw [hlines] at hread
                cases hread
                obtain ⟨w, hfind', items', rfl, hplace⟩ :=
                  (hchanged.parseLines HasItem.push hlines).find?
                exact ⟨key, items.length, items', rfl, hfind', hplace⟩

/-! ## A whole list -/

theorem change_const {key : Units} {w : FieldValue} {r : Reading}
    (h : Held key (· = w) r) {f : FieldValue → FieldValue} (v : FieldValue)
    (g : FieldValue → FieldValue) (heq : g (f w) = v) :
    (r.frontmatter.change key f).change key g =
      r.frontmatter.change key fun _ => v := by
  rw [← change_id (r.frontmatter.change key fun _ => v) key]
  refine change_change h ?_
  rintro _ rfl
  exact heq

/-- The item lines of readable items add them, in order, to the open list. -/
theorem parseLines_items {source key : Units} {values acc : List Units}
    (hvalues : ∀ value ∈ values, Readable value) {r : Reading}
    (hopen : r.listKey = some key) (h : Held key (· = .list acc) r) :
    parseLines source r (values.map itemLine) =
      .ok (r.change key fun _ => .list (acc ++ values)) := by
  induction values generalizing r acc with
  | nil =>
      have hsame : r.frontmatter.change key (fun _ => .list (acc ++ [])) =
          r.frontmatter := by
        rw [← change_const h (f := id) (.list (acc ++ [])) id
          (congrArg FieldValue.list (List.append_nil acc).symm), change_id, change_id]
      change Except.ok r = .ok { r with frontmatter := _ }
      rw [hsame]
  | cons value values ih =>
      have hpush : r.push source (itemLine value) value =
          .ok (r.change key (·.push value)) := by
        simp only [Reading.push, hopen, Reading.change]
      have hopen' : (r.change key (·.push value)).listKey = some key := hopen
      have hheld : Held key (· = .list (acc ++ [value]))
          (r.change key (·.push value)) := by
        refine h.change ?_
        rintro _ rfl
        rfl
      rw [List.map_cons, parseLines_cons,
        parseLine_item source r (hvalues value List.mem_cons_self), hpush]
      refine (ih (fun v hv => hvalues v (List.mem_cons_of_mem _ hv)) hopen'
        hheld).trans (congrArg Except.ok ?_)
      have hconst := change_const h (f := (·.push value))
        (.list (acc ++ value :: values))
        (fun _ => .list (acc ++ [value] ++ values)) (by simp)
      rw [Reading.change, Reading.change, Reading.change, hconst]

theorem parseLines_yamlList (source : Units) (r : Reading) {key : Units}
    (hkey : IsKey key) {values : List Units}
    (hvalues : ∀ value ∈ values, Readable value) :
    parseLines source r (yamlList key values) =
      r.assign source key (.list values)
        (if values = [] then none else some key) := by
  unfold yamlList
  split
  case isTrue hnil =>
    subst hnil
    have hfield : fieldLine (key ++ units ": []") = some (key, units "[]") := by
      have htrim : trim [0x20, 0x5B, 0x5D] = units "[]" := by decide
      rw [show units ": []" = 0x3A :: [0x20, 0x5B, 0x5D] by decide,
        fieldLine_colon hkey, htrim]
      rfl
    have hline := parseLine_field source r hkey hfield
    rw [if_neg (by decide), if_pos rfl] at hline
    rw [parseLines_cons, hline]
    cases r.assign source key (.list []) none <;> rfl
  case isFalse hne =>
    have hfield : fieldLine (key ++ units ":") = some (key, []) := by
      rw [show units ":" = 0x3A :: [] by decide, fieldLine_colon hkey]
      rfl
    have hline := parseLine_field source r hkey hfield
    rw [if_pos rfl] at hline
    rw [parseLines_cons, hline, assign_value r source key (.list values) (.list [])]
    cases hassign : r.assign source key (.list []) (some key) with
    | error e => rfl
    | ok m =>
        exact parseLines_items hvalues (assign_ok hassign).2.2 (held_assign hassign)

/-! ## A scalar that does not come back -/

def bare : Surroundings where
  blanks := []
  blank _ h := nomatch h
  openCrlf := false
  before := []
  after := []
  crlf := false
  close := units "---"
  closed := by decide

def titleKey : Units := units "title"

theorem isKey_title : IsKey titleKey :=
  ⟨⟨0x74, by decide, by decide⟩, by decide⟩

theorem split_first_break {value : Units} {u : Nat} (hhead : value.head? = some u)
    (hu : space u = false) (hbreak : 0x0A ∈ value) :
    ∃ first crlf rest, value = first ++ (ending crlf ++ rest) ∧
      first.head? = some u ∧ (∀ x ∈ first, x ≠ 0x0A) ∧
        (crlf = false → first.getLast? ≠ some 0x0D) := by
  obtain ⟨a, b, rfl, hnot⟩ := List.eq_append_cons_of_mem hbreak
  have hne : u ≠ 0x0A := by
    rintro rfl
    cases hu
  have hne' : u ≠ 0x0D := by
    rintro rfl
    cases hu
  by_cases hlast : a.getLast? = some 0x0D
  · obtain ⟨first, rfl⟩ := List.getLast?_eq_some_iff.mp hlast
    refine ⟨first, true, b, by simp [ending], ?_, ?_, fun h => nomatch h⟩
    · cases first with
      | nil => exact absurd (Option.some.inj hhead).symm hne'
      | cons v first => exact hhead
    · rintro x hx rfl
      exact hnot (List.mem_append_left _ hx)
  · refine ⟨a, false, b, by simp [ending], ?_, ?_, fun _ => hlast⟩
    · cases a with
      | nil => exact absurd (Option.some.inj hhead).symm hne
      | cons v a => exact hhead
    · rintro x hx rfl
      exact hnot hx

theorem parseLine_first {source : Units} {r r' : Reading} {key first : Units}
    {u : Nat} (hkey : IsKey key) (hhead : first.head? = some u)
    (hspace : space u = false) (hbracket : u ≠ 0x5B) (hsingle : u ≠ 0x27)
    (hdouble : u ≠ 0x22)
    (h : parseLine source r (key ++ units ": " ++ first) = .ok r') :
    r.assign source key (.scalar (trimEnd first)) none = .ok r' := by
  have hblank : ∀ x ∈ [0x20], space x = true := by decide
  have htrim : trim (0x20 :: first) = trimEnd first := by
    obtain ⟨rest, rfl⟩ := List.head?_eq_some_iff.mp hhead
    refine (trim_spaces hblank).trans ?_
    rw [trim, List.dropWhile_cons_of_neg (by simp [hspace])]
  have hvalue := head?_trimEnd hhead hspace
  have hne : trimEnd first ≠ [] := by
    intro hnil
    rw [hnil] at hvalue
    cases hvalue
  have hbrackets : trimEnd first ≠ units "[]" := by
    intro heq
    rw [heq] at hvalue
    exact hbracket (Option.some.inj (hvalue.symm.trans (by decide)))
  have hfield := fieldLine_eq hkey first
  rw [htrim, List.append_assoc] at hfield
  rw [List.append_assoc] at h
  cases hany : (trimEnd first).any lineTerminator with
  | true =>
      rw [hany, if_pos rfl] at hfield
      rw [parseLine_unsupported source r hkey hfield] at h
      cases h
  | false =>
      rw [hany, if_neg Bool.false_ne_true] at hfield
      rw [parseLine_field source r hkey hfield, if_neg hne, if_neg hbrackets,
        parseScalar_of_head hvalue hsingle hdouble] at h
      exact h

theorem broken_field {source value : Units} (hbreak : 0x0A ∈ formatScalar value)
    {read : Frontmatter × Units}
    (hread : read ∈ bare.outcome source (scalarLine titleKey value)) :
    read.1.find? titleKey ≠ some ⟨titleKey, .scalar value⟩ := by
  have hplain : mustQuote value = false := by
    cases hquote : mustQuote value with
    | false => rfl
    | true =>
        rw [formatScalar, hquote, if_pos rfl] at hbreak
        exact absurd (mem_stringify hbreak).1 (by decide)
  have hformat : formatScalar value = value := by
    rw [formatScalar, hplain]
    rfl
  rw [hformat] at hbreak
  obtain ⟨u, hu, hsingle, hdouble, hspace, hbracket⟩ :=
    (Unquoted.of_mustQuote hplain).head
  obtain ⟨first, crlf, rest, hvalue, hfirst, hunbroken, hreturn⟩ :=
    split_first_break hu hspace hbreak
  have hne : first ≠ [] := by
    rintro rfl
    cases hfirst
  have hline : ∀ x ∈ titleKey ++ units ": " ++ first, x ≠ 0x0A := by
    rintro x hx rfl
    rcases List.mem_append.mp hx with hx | hx
    · exact absurd hx (by decide)
    · exact hunbroken _ hx rfl
  have hlast : crlf = false →
      (titleKey ++ units ": " ++ first).getLast? ≠ some 0x0D := by
    intro hlf
    rw [List.getLast?_append_of_ne_nil _ hne]
    exact hreturn hlf
  have htext : bare.text (scalarLine titleKey value) =
      bare.opening ++ (titleKey ++ units ": " ++ first ++
        (ending crlf ++ (rest ++ (ending false ++ units "---")))) := by
    rw [scalarLine, hformat, hvalue]
    simp [Surroundings.text, bare]
  rw [Surroundings.outcome, parseFrontmatter, htext, opening_eq,
    Option.bind_some] at hread
  cases hblock : upToClosing (titleKey ++ units ": " ++ first ++
      (ending crlf ++ (rest ++ (ending false ++ units "---")))) with
  | none =>
      rw [hblock] at hread
      cases hread
  | some found =>
      obtain ⟨lines, hlines⟩ := first_line hline hlast hblock
      rw [hblock] at hread
      simp only [hlines, parseLines_cons] at hread
      cases hone : parseLine source {} (titleKey ++ units ": " ++ first) with
      | error e =>
          rw [hone] at hread
          cases hread
      | ok m =>
          have hheld := held_assign
            (parseLine_first isKey_title hfirst hspace hbracket hsingle hdouble hone)
          rw [hone] at hread
          cases hrest : parseLines source m lines with
          | error e =>
              simp only [Except.bind, hrest] at hread
              cases hread
          | ok r' =>
              simp only [Except.bind, hrest] at hread
              cases hread
              have hpush : ∀ (w : FieldValue) (item : Units),
                  w = .scalar (trimEnd first) → w.push item =
                    .scalar (trimEnd first) := by
                rintro w item rfl
                rfl
              obtain ⟨w, hfind, rfl⟩ := (hheld.parseLines hpush hrest).find?
              intro hfind'
              have heq : trimEnd first = value := by
                have := hfind.symm.trans hfind'
                simpa using this
              rw [← heq] at hbreak
              exact hunbroken _ ((beginning_trimEnd first).subset hbreak) rfl

theorem readable_of_fieldReads {value : Units} (h : FieldReads value) :
    Readable value := by
  by_contra hunreadable
  have hany : (formatScalar value).any lineTerminator = true :=
    Bool.eq_true_of_not_eq_false fun hfalse =>
      hunreadable (readable_iff.mpr hfalse)
  obtain ⟨hsame, hfind⟩ := h bare [] titleKey isKey_title
  obtain ⟨read, hread⟩ : ∃ read,
      bare.outcome [] (scalarLine titleKey reference) = some read :=
    Option.isSome_iff_exists.mp (by decide +kernel)
  rw [hread, Option.map_some] at hsame
  by_cases hbreak : 0x0A ∈ formatScalar value
  · exact broken_field hbreak hsame (hfind _ hsame)
  · have hsingle : ∀ u ∈ formatScalar value, u ≠ 0x0A := by
      rintro u hu rfl
      exact hbreak hu
    rw [outcome_eq bare [] (inside_scalarLine isKey_title hsingle)] at hsame
    simp only [bare, List.map_nil, List.nil_append, parseLines_cons,
      parseLine_scalarLine [] {} isKey_title, hany, if_true] at hsame
    cases hsame

/--
A scalar comes back, as a field and as an item, whatever stands around it, exactly
when its written form holds nothing that `.` does not match.
-/
theorem scalar_round_trip_iff (value : Units) :
    FieldReads value ∧ ItemReads value ↔ Readable value :=
  ⟨fun h => readable_of_fieldReads h.1,
    fun h => ⟨fieldReads_of_readable h, itemReads_of_readable h⟩⟩

def splitTitle : Units := units "Fix it\nmodel: opus"

/-- The title comes back as its first line, and a field is added. -/
theorem title_splits :
    trim splitTitle ≠ [] ∧
    (bare.outcome [] (scalarLine titleKey splitTitle)).map (fun read =>
        (read.1.find? titleKey, read.1.find? (units "model"))) =
      some (some ⟨titleKey, .scalar (units "Fix it")⟩,
        some ⟨units "model", .scalar (units "opus")⟩) ∧
    ¬ FieldReads splitTitle := by
  refine ⟨by decide +kernel, by decide +kernel, fun h => ?_⟩
  obtain ⟨read, hread⟩ : ∃ read,
      bare.outcome [] (scalarLine titleKey splitTitle) = some read :=
    Option.isSome_iff_exists.mp (by decide +kernel)
  have hfirst : (bare.outcome [] (scalarLine titleKey splitTitle)).map
      (fun read => read.1.find? titleKey) =
        some (some ⟨titleKey, .scalar (units "Fix it")⟩) := by decide +kernel
  have hfind := (h bare [] titleKey isKey_title).2 read hread
  rw [hread, Option.map_some, Option.some.injEq] at hfirst
  exact absurd (hfirst.symm.trans hfind) (by decide +kernel)

end OrcState.Markdown
