import OrcState.Foundation.JsonValue

/-!
# Arrays of strings as JSON

`stringifyAll` writes an array of strings the way the language does, and
`JSON.parse` reads back the strings that were written.
-/

namespace OrcState.Foundation.Json

def itemsText (items : List Units) : Units :=
  [0x2C].intercalate (items.map stringify)

/-- `JSON.stringify` of an array of strings. -/
def stringifyAll (items : List Units) : Units :=
  0x5B :: itemsText items ++ [0x5D]

theorem readString_of_readBody {text value : Units} (h : readBody text = some value)
    (rest : Units) : readString (text ++ rest) = some (value, rest) := by
  fun_induction readBody text generalizing value with
  | case1 => cases h
  | case2 =>
      cases h
      rw [List.cons_append, readString.eq_def]
      rfl
  | case3 => cases h
  | case4 => cases h
  | case5 a b c d tail _ ih =>
      obtain ⟨n, hquad, htail⟩ := Option.bind_eq_some_iff.mp h
      obtain ⟨body, hbody, rfl⟩ := Option.map_eq_some_iff.mp htail
      rw [readString.eq_def]
      simp [hquad, ih hbody]
  | case6 => cases h
  | case7 letter tail hletter _ ih =>
      obtain ⟨n, hunit, htail⟩ := Option.bind_eq_some_iff.mp h
      obtain ⟨body, hbody, rfl⟩ := Option.map_eq_some_iff.mp htail
      rw [readString.eq_def]
      simp [hletter, hunit, ih hbody]
  | case8 => cases h
  | case9 u tail hquote hslash hcontrol ih =>
      obtain ⟨body, hbody, rfl⟩ := Option.map_eq_some_iff.mp h
      rw [List.cons_append, readString.eq_def]
      simp only [if_neg hquote, if_neg hslash, if_neg hcontrol, ih hbody,
        Option.map_some]

theorem readValue_stringify (calls : Nat) (value rest : Units) :
    readValue (calls + 1) (stringify value ++ rest) = some (.string value, rest) := by
  have hread : readString (escape value ++ [0x22] ++ rest) = some (value, rest) :=
    readString_of_readBody (parse_stringify value) rest
  have htext : stringify value ++ rest = 0x22 :: (escape value ++ [0x22] ++ rest) := by
    simp [stringify]
  rw [htext, readValue.eq_def]
  simp only [hread, Option.map_some]

theorem itemsText_one (item : Units) : itemsText [item] = stringify item := by
  simp [itemsText]

theorem itemsText_cons (item next : Units) (items : List Units) :
    itemsText (item :: next :: items) =
      stringify item ++ 0x2C :: itemsText (next :: items) := by
  simp [itemsText, List.intercalate]

theorem itemsText_begins (item : Units) (items : List Units) :
    ∃ text, itemsText (item :: items) = 0x22 :: text := by
  cases items with
  | nil => exact ⟨_, itemsText_one item⟩
  | cons next items => exact ⟨_, itemsText_cons item next items⟩

theorem length_le_itemsText (items : List Units) :
    items.length ≤ (itemsText items).length := by
  induction items with
  | nil => simp
  | cons item items ih =>
      cases items with
      | nil => simp [itemsText_one, stringify]
      | cons next items =>
          rw [itemsText_cons]
          simp only [List.length_append, List.length_cons] at ih ⊢
          omega

theorem readItems_itemsText (item : Units) (items : List Units) (calls : Nat)
    (hcalls : items.length + 1 < calls) (rest : Units) :
    readItems calls (itemsText (item :: items) ++ 0x5D :: rest) =
      some ((item :: items).map .string, rest) := by
  induction items generalizing item calls with
  | nil =>
      obtain ⟨calls, rfl⟩ : ∃ c, calls = c + 2 := ⟨calls - 2, by
        simp at hcalls; omega⟩
      rw [readItems.eq_def, itemsText_one]
      simp [readValue_stringify, skipBlanks, blank]
  | cons next items ih =>
      simp only [List.length_cons] at hcalls
      obtain ⟨calls, rfl⟩ : ∃ c, calls = c + 2 := ⟨calls - 2, by omega⟩
      have htail := ih next (calls + 1) (by omega)
      obtain ⟨text, htext⟩ := itemsText_begins next items
      rw [readItems.eq_def, itemsText_cons, List.append_assoc, List.cons_append]
      rw [htext] at htail ⊢
      simp only [readValue_stringify, Option.bind_some]
      have hcomma : ∀ text, skipBlanks (0x2C :: text) = 0x2C :: text := fun _ => rfl
      have hquote : ∀ text, skipBlanks (0x22 :: text) = 0x22 :: text := fun _ => rfl
      simp only [List.cons_append] at htail
      simp only [hcomma, hquote, htail, List.cons_append, Option.map_some,
        List.map_cons]

/-- An array of strings is read back as it was written. -/
theorem parseText_stringifyAll (items : List Units) :
    parseText (stringifyAll items) = some (.array (items.map .string)) := by
  have hbracket : ∀ text, skipBlanks (0x5B :: text) = 0x5B :: text := fun _ => rfl
  have hquote : ∀ text, skipBlanks (0x22 :: text) = 0x22 :: text := fun _ => rfl
  cases items with
  | nil => rfl
  | cons item items =>
      rw [stringifyAll]
      have hlength := length_le_itemsText (item :: items)
      have hitems := readItems_itemsText item items
        (2 * (0x5B :: itemsText (item :: items) ++ [0x5D]).length + 1)
        (by simp at hlength ⊢; omega) []
      obtain ⟨text, htext⟩ := itemsText_begins item items
      rw [parseText, readValue.eq_def]
      rw [htext] at hitems ⊢
      simp only [List.cons_append, hbracket, hquote] at hitems ⊢
      rw [hitems]
      rfl

end OrcState.Foundation.Json
