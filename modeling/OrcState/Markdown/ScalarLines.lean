import Mathlib.Data.List.TakeWhile
import OrcState.Markdown.Frontmatter

/-!
# Lines that hold one scalar

A written scalar has no space at its ends, so that trimming leaves it alone, and it
cannot be taken for an empty list.  Where it holds nothing that `.` does not match,
the line it stands on is read as the assignment, or the item, of exactly that scalar.
-/

namespace OrcState.Markdown

open OrcState.Foundation OrcState.Foundation.Json

/-! ## Trimming -/

theorem trimEnd_of_last {text : Units} {u : Nat} (hlast : text.getLast? = some u)
    (hu : space u = false) : trimEnd text = text := by
  obtain ⟨init, rfl⟩ := List.getLast?_eq_some_iff.mp hlast
  rw [trimEnd, List.reverse_append, List.reverse_singleton, List.singleton_append,
    List.dropWhile_cons_of_neg (by simp [hu]), List.reverse_cons,
    List.reverse_reverse]

theorem trim_of_ends {text : Units} {u v : Nat} (hhead : text.head? = some u)
    (hu : space u = false) (hlast : text.getLast? = some v)
    (hv : space v = false) : trim text = text := by
  obtain ⟨rest, rfl⟩ := List.head?_eq_some_iff.mp hhead
  rw [trim, List.dropWhile_cons_of_neg (by simp [hu]), trimEnd_of_last hlast hv]

theorem trim_spaces {spaces text : Units} (hspaces : ∀ u ∈ spaces, space u = true) :
    trim (spaces ++ text) = trim text := by
  rw [trim, List.dropWhile_append_of_pos hspaces, trim]

theorem beginning_trimEnd (text : Units) : trimEnd text <+: text := by
  have h : text.reverse.dropWhile space <:+ text.reverse := List.dropWhile_suffix _
  have h' := List.reverse_prefix.mpr h
  rwa [List.reverse_reverse] at h'

theorem head?_trimEnd {text : Units} {u : Nat} (hhead : text.head? = some u)
    (hu : space u = false) : (trimEnd text).head? = some u := by
  obtain ⟨behind, hsplit⟩ := beginning_trimEnd text
  cases hleft : trimEnd text with
  | nil =>
      have hall : text.reverse.dropWhile space = [] := List.reverse_eq_nil_iff.mp hleft
      have hspace := List.dropWhile_eq_nil_iff.mp hall u
        (List.mem_reverse.mpr (List.mem_of_head? hhead))
      rw [hspace] at hu
      cases hu
  | cons v rest =>
      rw [hleft] at hsplit
      rw [← hsplit] at hhead
      exact hhead

/-! ## What is written -/

structure Written (w : Units) : Prop where
  head : ∃ u, w.head? = some u ∧ space u = false ∧ u ≠ 0x5B
  last : ∃ u, w.getLast? = some u ∧ space u = false

theorem quoteOrSpace_eq_false {u : Nat} : quoteOrSpace u = false ↔
    u ≠ 0x27 ∧ u ≠ 0x22 ∧ space u = false := by
  simp [quoteOrSpace, and_assoc]

structure Unquoted (value : Units) : Prop where
  head : ∃ u, value.head? = some u ∧ u ≠ 0x27 ∧ u ≠ 0x22 ∧ space u = false ∧
    u ≠ 0x5B
  last : ∃ u, value.getLast? = some u ∧ space u = false

theorem Unquoted.of_mustQuote {value : Units} (h : mustQuote value = false) :
    Unquoted value := by
  simp only [mustQuote, Bool.or_eq_false_iff, decide_eq_false_iff_not] at h
  obtain ⟨⟨⟨⟨⟨hhead, hlast⟩, hempty⟩, hbracket⟩, -⟩, -⟩ := h
  have hne : value ≠ [] := by
    rintro rfl
    cases hempty
  obtain ⟨u, hu⟩ := Option.isSome_iff_exists.mp (List.isSome_head?.mpr hne)
  obtain ⟨v, hv⟩ := Option.isSome_iff_exists.mp (List.getLast?_isSome.mpr hne)
  rw [hu, Option.any_some, quoteOrSpace_eq_false] at hhead
  rw [hv, Option.any_some, quoteOrSpace_eq_false] at hlast
  rw [hu, Option.some.injEq] at hbracket
  exact ⟨⟨u, hu, hhead.1, hhead.2.1, hhead.2.2, hbracket⟩, ⟨v, hv, hlast.2.2⟩⟩

theorem Unquoted.written {value : Units} (h : Unquoted value) : Written value := by
  obtain ⟨u, hu, -, -, hspace, hbracket⟩ := h.head
  exact ⟨⟨u, hu, hspace, hbracket⟩, h.last⟩

theorem written_stringify (value : Units) : Written (stringify value) := by
  refine ⟨⟨0x22, rfl, rfl, by decide⟩, ⟨0x22, ?_, rfl⟩⟩
  rw [stringify]
  exact List.getLast?_concat

theorem written_formatScalar (value : Units) : Written (formatScalar value) := by
  unfold formatScalar
  split
  · exact written_stringify value
  · next h => exact (Unquoted.of_mustQuote (Bool.eq_false_of_not_eq_true h)).written

theorem Written.ne_nil {w : Units} (h : Written w) : w ≠ [] := by
  obtain ⟨u, hu, -⟩ := h.head
  rintro rfl
  cases hu

theorem Written.ne_brackets {w : Units} (h : Written w) : w ≠ units "[]" := by
  obtain ⟨u, hu, -, hbracket⟩ := h.head
  rintro rfl
  exact hbracket (Option.some.inj (hu.symm.trans (by decide)))

theorem Written.trim_eq {w : Units} (h : Written w) : trim w = w := by
  obtain ⟨u, hu, hspace, -⟩ := h.head
  obtain ⟨v, hv, hspace'⟩ := h.last
  exact trim_of_ends hu hspace hv hspace'

theorem Written.trim_cons {w : Units} (h : Written w) : trim (0x20 :: w) = w := by
  have hblank : ∀ u ∈ [0x20], space u = true := by decide
  exact (trim_spaces hblank).trans h.trim_eq

/-! ## When the written form can be read -/

/--
No line separator or paragraph separator, and without quotes no line break either.
-/
def Readable (value : Units) : Prop :=
  (∀ u ∈ value, u ≠ 0x2028 ∧ u ≠ 0x2029) ∧
    (mustQuote value = true ∨ ∀ u ∈ value, u ≠ 0x0A ∧ u ≠ 0x0D)

instance (value : Units) : Decidable (Readable value) :=
  inferInstanceAs (Decidable (_ ∧ _))

theorem lineTerminator_iff {u : Nat} : lineTerminator u = true ↔
    u = 0x0A ∨ u = 0x0D ∨ u = 0x2028 ∨ u = 0x2029 := by
  simp [lineTerminator, or_assoc]

theorem mem_stringify {value : Units} {u : Nat} (hu : u ∈ stringify value) :
    0x20 ≤ u ∧ (u ∈ value ∨ u < 0x80) := by
  simp only [stringify, List.cons_append, List.mem_cons, List.mem_append,
    List.not_mem_nil, or_false] at hu
  rcases hu with rfl | hu | rfl
  · exact ⟨by decide, .inr (by decide)⟩
  · exact mem_escape hu
  · exact ⟨by decide, .inr (by decide)⟩

/-- A scalar is readable just when its written form has nothing `.` stops at. -/
theorem readable_iff {value : Units} :
    Readable value ↔ (formatScalar value).any lineTerminator = false := by
  rw [List.any_eq_false]
  constructor
  case mp =>
    intro ⟨hseparators, hbreaks⟩ u hu
    rw [lineTerminator_iff]
    unfold formatScalar at hu
    split at hu
    · obtain ⟨hlow, hmem | hascii⟩ := mem_stringify hu
      · have := hseparators u hmem
        omega
      · omega
    · next hplain =>
        have := hseparators u hu
        have := hbreaks.resolve_left hplain u hu
        omega
  case mpr =>
    intro hnone
    have hmem : ∀ u, u ∈ value → 0x80 ≤ u → isHigh u = false → isLow u = false →
        u ∈ formatScalar value := by
      intro u hu hascii hhigh hlow
      unfold formatScalar
      split
      · exact List.mem_cons_of_mem _
          (List.mem_append_left _ (mem_escape_of_mem hu hascii hhigh hlow))
      · exact hu
    refine ⟨fun u hu => ⟨?_, ?_⟩, ?_⟩
    · rintro rfl
      exact hnone _ (hmem _ hu (by decide) (by decide) (by decide)) (by decide)
    · rintro rfl
      exact hnone _ (hmem _ hu (by decide) (by decide) (by decide)) (by decide)
    · cases hquote : mustQuote value with
      | true => exact .inl rfl
      | false =>
          have hplain : formatScalar value = value := by
            rw [formatScalar, hquote]
            rfl
          rw [hplain] at hnone
          refine .inr fun u hu => ⟨?_, ?_⟩
          · rintro rfl
            exact hnone _ hu (by decide)
          · rintro rfl
            exact hnone _ hu (by decide)

theorem parseScalar_of_head {value : Units} {u : Nat} (hu : value.head? = some u)
    (hsingle : u ≠ 0x27) (hdouble : u ≠ 0x22) : parseScalar value = value := by
  have hdouble' : enclosed 0x22 value = false := by simp [enclosed, hu, hdouble]
  have hsingle' : enclosed 0x27 value = false := by simp [enclosed, hu, hsingle]
  rw [parseScalar, hdouble', hsingle']
  rfl

theorem Unquoted.parseScalar_eq {value : Units} (h : Unquoted value) :
    parseScalar value = value := by
  obtain ⟨u, hu, hsingle, hdouble, -⟩ := h.head
  exact parseScalar_of_head hu hsingle hdouble

theorem parseScalar_formatScalar {value : Units} (h : Readable value) :
    parseScalar (formatScalar value) = value := by
  have hany := readable_iff.mp h
  unfold formatScalar at hany ⊢
  split
  case isTrue hquote =>
    rw [if_pos hquote] at hany
    have hlast : (stringify value).getLast? = some 0x22 := List.getLast?_concat
    have henclosed : enclosed 0x22 (stringify value) = true := by
      have hlength : 2 ≤ (stringify value).length := by simp [stringify]
      have hhead : (stringify value).head? = some 0x22 := rfl
      simp only [enclosed, hhead, hlast, hlength, hany, decide_true, Bool.not_false,
        Bool.and_self]
    rw [parseScalar, henclosed, if_pos rfl, parse_stringify]
    rfl
  case isFalse hquote =>
    exact (Unquoted.of_mustQuote (Bool.eq_false_of_not_eq_true hquote)).parseScalar_eq

/-! ## Reading the line -/

/-- `[A-Za-z_][\w-]*`. -/
structure IsKey (key : Units) : Prop where
  head : ∃ u, key.head? = some u ∧ keyStart u = true
  all : ∀ u ∈ key, keyUnit u = true

theorem keyStart_bounds {u : Nat} (h : keyStart u = true) :
    0x41 ≤ u ∧ u ≤ 0x7A := by
  simp only [keyStart, Bool.or_eq_true, Bool.and_eq_true, decide_eq_true_eq] at h
  have hA : 'A'.toNat = 0x41 := rfl
  have hZ : 'Z'.toNat = 0x5A := rfl
  have ha : 'a'.toNat = 0x61 := rfl
  have hz : 'z'.toNat = 0x7A := rfl
  omega

theorem space_bounds {u : Nat} (h : space u = true) : u ≤ 0x20 ∨ 0xA0 ≤ u := by
  simp [space] at h
  omega

theorem space_of_keyStart {u : Nat} (h : keyStart u = true) : space u = false := by
  have := keyStart_bounds h
  cases hs : space u with
  | false => rfl
  | true =>
      have := space_bounds hs
      omega

theorem units_colon : units ": " = [0x3A, 0x20] := by decide

theorem units_item : units "  - " = [0x20, 0x20, 0x2D, 0x20] := by decide

theorem fieldLine_colon {key : Units} (hkey : IsKey key) (text : Units) :
    fieldLine (key ++ 0x3A :: text) =
      if (trim text).any lineTerminator then none else some (key, trim text) := by
  obtain ⟨u, hu, hstart⟩ := hkey.head
  have hhead : (key ++ 0x3A :: text).head? = some u := by
    rw [List.head?_append, hu]
    rfl
  have hcolon : keyUnit 0x3A = false := by decide
  have hdrop : (key ++ 0x3A :: text).dropWhile keyUnit = 0x3A :: text := by
    rw [List.dropWhile_append_of_pos hkey.all,
      List.dropWhile_cons_of_neg (by simp [hcolon])]
  have htake : (key ++ 0x3A :: text).takeWhile keyUnit = key := by
    rw [List.takeWhile_append_of_pos hkey.all,
      List.takeWhile_cons_of_neg (by simp [hcolon]), List.append_nil]
  have hspace : (0x3A :: text).dropWhile space = 0x3A :: text :=
    List.dropWhile_cons_of_neg (by decide)
  rw [fieldLine, hhead, Option.any_some, hstart, hdrop, hspace, htake]
  rfl

theorem fieldLine_eq {key : Units} (hkey : IsKey key) (text : Units) :
    fieldLine (key ++ units ": " ++ text) =
      if (trim (0x20 :: text)).any lineTerminator then none
      else some (key, trim (0x20 :: text)) := by
  rw [units_colon, List.append_assoc]
  exact fieldLine_colon hkey (0x20 :: text)

theorem listItem_of_key {key : Units} (hkey : IsKey key) (text : Units) :
    listItem (key ++ text) = none := by
  obtain ⟨u, hu, hstart⟩ := hkey.head
  have hhead : (key ++ text).head? = some u := by
    rw [List.head?_append, hu]
    rfl
  rw [listItem, hhead, Option.any_some, space_of_keyStart hstart]
  rfl

theorem listItem_eq {w : Units} (hw : Written w) :
    listItem (units "  - " ++ w) =
      if w.any lineTerminator then none else some w := by
  have hdrop : (0x20 :: 0x20 :: 0x2D :: 0x20 :: w).dropWhile space =
      0x2D :: 0x20 :: w := by
    rw [List.dropWhile_cons_of_pos (by decide), List.dropWhile_cons_of_pos (by decide),
      List.dropWhile_cons_of_neg (by decide)]
  obtain ⟨u, hu, hspace, -⟩ := hw.head
  obtain ⟨rest, rfl⟩ := List.head?_eq_some_iff.mp hu
  have hafter : (0x20 :: u :: rest).dropWhile space = u :: rest := by
    rw [List.dropWhile_cons_of_pos (by decide),
      List.dropWhile_cons_of_neg (by simp [hspace])]
  have htrim : trim (0x20 :: u :: rest) = u :: rest := hw.trim_cons
  rw [units_item]
  simp only [listItem, List.cons_append, List.nil_append, List.head?_cons,
    Option.any_some, hdrop, hafter, htrim, reduceCtorEq, if_false]
  rfl

theorem not_skipped {raw : Units} {u : Nat} (hhead : raw.head? = some u)
    (hu : space u = false) (hhash : u ≠ 0x23) :
    (trim raw = [] || (trim raw).head? = some 0x23 : Bool) = false := by
  obtain ⟨rest, rfl⟩ := List.head?_eq_some_iff.mp hhead
  have htrim : (trim (u :: rest)).head? = some u := by
    rw [trim, List.dropWhile_cons_of_neg (by simp [hu])]
    exact head?_trimEnd rfl hu
  have hne : trim (u :: rest) ≠ [] := by
    intro hnil
    rw [hnil] at htrim
    cases htrim
  simp [htrim, hne, hhash]

theorem parseLine_field (source : Units) (r : Reading) {key text : Units}
    (hkey : IsKey key) {value : Units}
    (hfield : fieldLine (key ++ text) = some (key, value)) :
    parseLine source r (key ++ text) =
      if value = [] then r.assign source key (.list []) (some key)
      else if value = units "[]" then r.assign source key (.list []) none
      else r.assign source key (.scalar (parseScalar value)) none := by
  obtain ⟨u, hu, hstart⟩ := hkey.head
  have hbounds := keyStart_bounds hstart
  have hhead : (key ++ text).head? = some u := by
    rw [List.head?_append, hu]
    rfl
  rw [parseLine, not_skipped hhead (space_of_keyStart hstart) (by omega)]
  simp only [Bool.false_eq_true, if_false, listItem_of_key hkey, hfield]

theorem parseLine_unsupported (source : Units) (r : Reading) {key text : Units}
    (hkey : IsKey key) (hfield : fieldLine (key ++ text) = none) :
    parseLine source r (key ++ text) =
      .error (source ++ units ": unsupported frontmatter line: " ++
        trim (key ++ text)) := by
  obtain ⟨u, hu, hstart⟩ := hkey.head
  have hbounds := keyStart_bounds hstart
  have hhead : (key ++ text).head? = some u := by
    rw [List.head?_append, hu]
    rfl
  rw [parseLine, not_skipped hhead (space_of_keyStart hstart) (by omega)]
  simp only [Bool.false_eq_true, if_false, listItem_of_key hkey, hfield]

theorem getLast?_append_written {w : Units} (hw : Written w) (text : Units) :
    (text ++ w).getLast? = w.getLast? := by
  obtain ⟨v, hv, -⟩ := hw.last
  rw [List.getLast?_append, hv]
  rfl

theorem parseLine_scalarLine (source : Units) (r : Reading) {key : Units}
    (hkey : IsKey key) (value : Units) :
    parseLine source r (scalarLine key value) =
      if (formatScalar value).any lineTerminator then
        .error (source ++ units ": unsupported frontmatter line: " ++
          trim (scalarLine key value))
      else
        r.assign source key (.scalar (parseScalar (formatScalar value))) none := by
  have hw := written_formatScalar value
  have hfield := fieldLine_eq hkey (formatScalar value)
  rw [hw.trim_cons, List.append_assoc] at hfield
  rw [scalarLine, List.append_assoc]
  cases hany : (formatScalar value).any lineTerminator with
  | true =>
      rw [hany, if_pos rfl] at hfield
      rw [parseLine_unsupported source r hkey hfield, if_pos rfl]
  | false =>
      rw [hany, if_neg Bool.false_ne_true] at hfield
      rw [parseLine_field source r hkey hfield, if_neg hw.ne_nil,
        if_neg hw.ne_brackets, if_neg Bool.false_ne_true]

theorem parseLine_itemLine (source : Units) (r : Reading) (value : Units) :
    parseLine source r (itemLine value) =
      if (formatScalar value).any lineTerminator then
        .error (source ++ units ": unsupported frontmatter line: " ++
          trim (itemLine value))
      else
        r.push source (itemLine value) (parseScalar (formatScalar value)) := by
  have hw := written_formatScalar value
  obtain ⟨v, hv, hspace⟩ := hw.last
  have htrim : trim (itemLine value) = [0x2D, 0x20] ++ formatScalar value := by
    have hblanks : ∀ u ∈ [0x20, 0x20], space u = true := by decide
    have hlast : ([0x2D, 0x20] ++ formatScalar value).getLast? = some v :=
      (getLast?_append_written hw _).trans hv
    rw [itemLine, units_item]
    exact (trim_spaces hblanks).trans (trim_of_ends rfl rfl hlast hspace)
  have hfield : fieldLine (itemLine value) = none := by
    rw [itemLine, units_item]
    rfl
  have hskip : (trim (itemLine value) = [] ||
      (trim (itemLine value)).head? = some 0x23 : Bool) = false := by
    rw [htrim]
    rfl
  have hitem : listItem (itemLine value) = _ := listItem_eq hw
  rw [parseLine, hskip]
  cases hany : (formatScalar value).any lineTerminator with
  | true =>
      rw [hany, if_pos rfl] at hitem
      simp only [Bool.false_eq_true, if_false, hitem, hfield, if_true]
  | false =>
      rw [hany, if_neg Bool.false_ne_true] at hitem
      simp only [Bool.false_eq_true, if_false, hitem]

theorem parseLine_scalar (source : Units) (r : Reading) {key value : Units}
    (hkey : IsKey key) (hvalue : Readable value) :
    parseLine source r (scalarLine key value) =
      r.assign source key (.scalar value) none := by
  rw [parseLine_scalarLine source r hkey, readable_iff.mp hvalue,
    parseScalar_formatScalar hvalue]
  rfl

theorem parseLine_item (source : Units) (r : Reading) {value : Units}
    (hvalue : Readable value) : parseLine source r (itemLine value) =
      r.push source (itemLine value) value := by
  rw [parseLine_itemLine, readable_iff.mp hvalue, parseScalar_formatScalar hvalue]
  rfl

end OrcState.Markdown
