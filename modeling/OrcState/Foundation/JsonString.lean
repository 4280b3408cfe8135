import Mathlib.Data.List.Basic

/-!
# String literals of JSON

A string of the language is the list of its UTF-16 code units, paired or not.
`stringify` writes one as a JSON literal the way the language does, with every
control character and every surrogate without a partner escaped; `parse` reads a
literal, and reads back what was written.
-/

namespace OrcState.Foundation.Json

abbrev Units := List Nat

/-! ## Writing -/

def hexDigit (n : Nat) : Nat := if n < 10 then 0x30 + n else 0x57 + n

def unicodeEscape (u : Nat) : Units :=
  [0x5C, 0x75, hexDigit (u / 4096 % 16), hexDigit (u / 256 % 16),
    hexDigit (u / 16 % 16), hexDigit (u % 16)]

def isHigh (u : Nat) : Bool := 0xD800 ≤ u && u ≤ 0xDBFF

def isLow (u : Nat) : Bool := 0xDC00 ≤ u && u ≤ 0xDFFF

def letterOf (u : Nat) : Option Nat :=
  if u = 0x08 then some 0x62
  else if u = 0x09 then some 0x74
  else if u = 0x0A then some 0x6E
  else if u = 0x0C then some 0x66
  else if u = 0x0D then some 0x72
  else if u = 0x22 then some 0x22
  else if u = 0x5C then some 0x5C
  else none

def escapeUnit (u : Nat) : Units :=
  match letterOf u with
  | some letter => [0x5C, letter]
  | none => if u < 0x20 || isHigh u || isLow u then unicodeEscape u else [u]

def escape : Units → Units
  | [] => []
  | [u] => escapeUnit u
  | u :: v :: rest =>
      if isHigh u && isLow v then u :: v :: escape rest
      else escapeUnit u ++ escape (v :: rest)

def stringify (value : Units) : Units := 0x22 :: escape value ++ [0x22]

/-! ## Reading -/

def hexValue (u : Nat) : Option Nat :=
  if 0x30 ≤ u ∧ u ≤ 0x39 then some (u - 0x30)
  else if 0x61 ≤ u ∧ u ≤ 0x66 then some (u - 0x57)
  else if 0x41 ≤ u ∧ u ≤ 0x46 then some (u - 0x37)
  else none

def hexQuad (a b c d : Nat) : Option Nat :=
  (hexValue a).bind fun a => (hexValue b).bind fun b =>
    (hexValue c).bind fun c => (hexValue d).map fun d =>
      ((a * 16 + b) * 16 + c) * 16 + d

def unitOf (letter : Nat) : Option Nat :=
  if letter = 0x62 then some 0x08
  else if letter = 0x74 then some 0x09
  else if letter = 0x6E then some 0x0A
  else if letter = 0x66 then some 0x0C
  else if letter = 0x72 then some 0x0D
  else if letter = 0x22 then some 0x22
  else if letter = 0x5C then some 0x5C
  else if letter = 0x2F then some 0x2F
  else none

def readBody : Units → Option Units
  | [] => none
  | u :: rest =>
      if u = 0x22 then (if rest = [] then some [] else none)
      else if u = 0x5C then
        match rest with
        | [] => none
        | letter :: rest =>
            if letter = 0x75 then
              match rest with
              | a :: b :: c :: d :: rest =>
                  (hexQuad a b c d).bind fun n => (readBody rest).map (n :: ·)
              | _ => none
            else
              (unitOf letter).bind fun n => (readBody rest).map (n :: ·)
      else if u < 0x20 then none
      else (readBody rest).map (u :: ·)

def parse : Units → Option Units
  | 0x22 :: rest => readBody rest
  | _ => none

/-! ## Reading what was written -/

theorem hexValue_hexDigit {n : Nat} (hn : n < 16) :
    hexValue (hexDigit n) = some n := by
  unfold hexDigit
  split
  · rw [hexValue, if_pos (by omega)]
    exact congrArg some (by omega)
  · rw [hexValue, if_neg (by omega), if_pos (by omega)]
    exact congrArg some (by omega)

theorem readBody_unicodeEscape {u : Nat} (hu : u < 65536) (rest : Units) :
    readBody (unicodeEscape u ++ rest) = (readBody rest).map (u :: ·) := by
  have hquad : hexQuad (hexDigit (u / 4096 % 16)) (hexDigit (u / 256 % 16))
      (hexDigit (u / 16 % 16)) (hexDigit (u % 16)) = some u := by
    simp only [hexQuad, hexValue_hexDigit (Nat.mod_lt _ (by decide : 0 < 16)),
      Option.bind_some, Option.map_some]
    exact congrArg some (by omega)
  simp only [unicodeEscape, List.cons_append, List.nil_append]
  have hslash : (0x5C : Nat) ≠ 0x22 := by decide
  rw [readBody.eq_def]
  simp only [if_neg hslash, if_true, hquad, Option.bind_some]

theorem letterOf_eq_some {u letter : Nat} (h : letterOf u = some letter) :
    unitOf letter = some u ∧ letter ≠ 0x75 := by
  unfold letterOf at h
  split at h
  · next hu => cases h; subst hu; decide
  · split at h
    · next hu => cases h; subst hu; decide
    · split at h
      · next hu => cases h; subst hu; decide
      · split at h
        · next hu => cases h; subst hu; decide
        · split at h
          · next hu => cases h; subst hu; decide
          · split at h
            · next hu => cases h; subst hu; decide
            · split at h
              · next hu => cases h; subst hu; decide
              · cases h

theorem readBody_verbatim {u : Nat} (hletter : letterOf u = none)
    (hu : 0x20 ≤ u) (rest : Units) :
    readBody (u :: rest) = (readBody rest).map (u :: ·) := by
  have hquote : u ≠ 0x22 := by rintro rfl; cases hletter
  have hslash : u ≠ 0x5C := by rintro rfl; cases hletter
  rw [readBody.eq_def]
  simp only [if_neg hquote, if_neg hslash, if_neg (Nat.not_lt.mpr hu)]

theorem letterOf_surrogate {u : Nat} (hu : 0xD800 ≤ u) : letterOf u = none := by
  simp only [letterOf]
  repeat rw [if_neg (by omega)]

theorem readBody_escapeUnit (u : Nat) (rest : Units) :
    readBody (escapeUnit u ++ rest) = (readBody rest).map (u :: ·) := by
  unfold escapeUnit
  cases hletter : letterOf u with
  | some letter =>
      obtain ⟨hunit, hne⟩ := letterOf_eq_some hletter
      simp only [List.cons_append, List.nil_append]
      rw [readBody.eq_def]
      have hslash : (0x5C : Nat) ≠ 0x22 := by decide
      simp only [if_neg hslash, if_true, if_neg hne, hunit, Option.bind_some]
  | none =>
      simp only
      split
      · next hescaped =>
          simp only [isHigh, isLow, Bool.or_eq_true, Bool.and_eq_true,
            decide_eq_true_eq] at hescaped
          exact readBody_unicodeEscape (by omega) rest
      · next hplain =>
          simp only [Bool.or_eq_true, decide_eq_true_eq, not_or] at hplain
          exact readBody_verbatim hletter (by omega) rest

theorem readBody_escape (value rest : Units) :
    readBody (escape value ++ rest) = (readBody rest).map (value ++ ·) := by
  fun_induction escape value with
  | case1 => simp
  | case2 u =>
      rw [readBody_escapeUnit]
      rfl
  | case3 u v tail hpair ih =>
      simp only [isHigh, isLow, Bool.and_eq_true, decide_eq_true_eq] at hpair
      rw [List.cons_append, List.cons_append,
        readBody_verbatim (letterOf_surrogate (by omega)) (by omega),
        readBody_verbatim (letterOf_surrogate (by omega)) (by omega), ih,
        Option.map_map, Option.map_map]
      rfl
  | case4 u v tail hpair ih =>
      rw [List.append_assoc, readBody_escapeUnit, ih, Option.map_map]
      rfl

/-- What was written as a literal is read back as it was, surrogates and all. -/
theorem parse_stringify (value : Units) : parse (stringify value) = some value := by
  have hend : readBody [0x22] = some [] := rfl
  change readBody (escape value ++ [0x22]) = some value
  rw [readBody_escape, hend, Option.map_some, List.append_nil]

/-! ## What a literal consists of -/

theorem mem_unicodeEscape {u x : Nat} (hx : x ∈ unicodeEscape u) :
    0x20 ≤ x ∧ x < 0x80 := by
  have hdigit : ∀ n, n < 16 → 0x20 ≤ hexDigit n ∧ hexDigit n < 0x80 := by
    intro n hn
    unfold hexDigit
    split <;> omega
  simp only [unicodeEscape, List.mem_cons, List.not_mem_nil, or_false] at hx
  rcases hx with rfl | rfl | rfl | rfl | rfl | rfl
  · decide
  · decide
  · exact hdigit _ (Nat.mod_lt _ (by decide))
  · exact hdigit _ (Nat.mod_lt _ (by decide))
  · exact hdigit _ (Nat.mod_lt _ (by decide))
  · exact hdigit _ (Nat.mod_lt _ (by decide))

theorem mem_escapeUnit {u x : Nat} (hx : x ∈ escapeUnit u) :
    0x20 ≤ x ∧ (x = u ∨ x < 0x80) := by
  unfold escapeUnit at hx
  cases hletter : letterOf u with
  | some letter =>
      have hascii : 0x20 ≤ letter ∧ letter < 0x80 := by
        obtain ⟨hunit, -⟩ := letterOf_eq_some hletter
        unfold unitOf at hunit
        refine ⟨?_, ?_⟩ <;> by_contra hout <;>
          (repeat rw [if_neg (by omega)] at hunit) <;> cases hunit
      simp only [hletter, List.mem_cons, List.not_mem_nil, or_false] at hx
      rcases hx with rfl | rfl
      · exact ⟨by decide, .inr (by decide)⟩
      · exact ⟨hascii.1, .inr hascii.2⟩
  | none =>
      simp only [hletter] at hx
      split at hx
      · exact ⟨(mem_unicodeEscape hx).1, .inr (mem_unicodeEscape hx).2⟩
      · next hplain =>
          simp only [Bool.or_eq_true, decide_eq_true_eq, not_or] at hplain
          rw [List.mem_singleton.mp hx]
          exact ⟨by omega, .inl rfl⟩

theorem mem_escape {value : Units} {x : Nat} (hx : x ∈ escape value) :
    0x20 ≤ x ∧ (x ∈ value ∨ x < 0x80) := by
  fun_induction escape value with
  | case1 => cases hx
  | case2 u =>
      obtain ⟨hlow, heq | hascii⟩ := mem_escapeUnit hx
      · exact ⟨hlow, .inl (heq ▸ List.mem_cons_self)⟩
      · exact ⟨hlow, .inr hascii⟩
  | case3 u v tail hpair ih =>
      simp only [isHigh, isLow, Bool.and_eq_true, decide_eq_true_eq] at hpair
      rcases List.mem_cons.mp hx with rfl | hx
      · exact ⟨by omega, .inl List.mem_cons_self⟩
      · rcases List.mem_cons.mp hx with rfl | hx
        · exact ⟨by omega, .inl (List.mem_cons_of_mem u List.mem_cons_self)⟩
        · obtain ⟨hlow, hmem⟩ := ih hx
          exact ⟨hlow, hmem.imp_left fun h =>
            List.mem_cons_of_mem u (List.mem_cons_of_mem v h)⟩
  | case4 u v tail hpair ih =>
      rcases List.mem_append.mp hx with hx | hx
      · obtain ⟨hlow, heq | hascii⟩ := mem_escapeUnit hx
        · exact ⟨hlow, .inl (heq ▸ List.mem_cons_self)⟩
        · exact ⟨hlow, .inr hascii⟩
      · obtain ⟨hlow, hmem⟩ := ih hx
        exact ⟨hlow, hmem.imp_left (List.mem_cons_of_mem u)⟩

theorem mem_escape_of_mem {value : Units} {x : Nat} (hx : x ∈ value)
    (hascii : 0x80 ≤ x) (hhigh : isHigh x = false) (hlow : isLow x = false) :
    x ∈ escape value := by
  have hunit : x ∈ escapeUnit x := by
    have hletter : letterOf x = none := by
      simp only [letterOf]
      repeat rw [if_neg (by omega)]
    have hcontrol : ¬ x < 0x20 := by omega
    simp [escapeUnit, hletter, hhigh, hlow, hcontrol]
  fun_induction escape value with
  | case1 => cases hx
  | case2 u => exact (List.mem_singleton.mp hx) ▸ hunit
  | case3 u v tail hpair ih =>
      rcases List.mem_cons.mp hx with rfl | hx
      · exact List.mem_cons_self
      · rcases List.mem_cons.mp hx with rfl | hx
        · exact List.mem_cons_of_mem u List.mem_cons_self
        · exact List.mem_cons_of_mem u (List.mem_cons_of_mem v (ih hx))
  | case4 u v tail hpair ih =>
      rcases List.mem_cons.mp hx with rfl | hx
      · exact List.mem_append_left _ hunit
      · exact List.mem_append_right _ (ih hx)

end OrcState.Foundation.Json
