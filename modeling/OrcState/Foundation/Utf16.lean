import OrcState.Foundation.JsonString
import OrcState.Foundation.Utf8

/-!
# UTF-16 texts

A text is its UTF-16 code units.  Half a surrogate pair is no character and is
encoded as U+FFFD, so the encoding of two parts is that of the whole as long as no
pair is cut between them.
-/

namespace OrcState.Foundation.Utf16

open OrcState.Foundation.Json

def scalar (u : Nat) : Char :=
  if isHigh u || isLow u then Utf8.replacement else Char.ofNat u

def scalars : Units → List Char
  | [] => []
  | [u] => [scalar u]
  | u :: v :: rest =>
      if isHigh u && isLow v then
        Char.ofNat (0x10000 + (u - 0xD800) * 0x400 + (v - 0xDC00)) :: scalars rest
      else scalar u :: scalars (v :: rest)

def wellFormed : Units → Bool
  | [] => true
  | [u] => !isHigh u && !isLow u
  | u :: v :: rest =>
      if isHigh u && isLow v then wellFormed rest
      else !isHigh u && !isLow u && wellFormed (v :: rest)

/-- `String.prototype.toWellFormed`: what the encoding reads back as. -/
def toWellFormed : Units → Units
  | [] => []
  | [u] => [if isHigh u || isLow u then 0xFFFD else u]
  | u :: v :: rest =>
      if isHigh u && isLow v then u :: v :: toWellFormed rest
      else (if isHigh u || isLow u then 0xFFFD else u) :: toWellFormed (v :: rest)

theorem toWellFormed_eq {text : Units} (h : wellFormed text = true) :
    toWellFormed text = text := by
  induction text using toWellFormed.induct with
  | case1 => rfl
  | case2 u =>
      rw [wellFormed, ← Bool.not_or, Bool.not_eq_true'] at h
      simp [toWellFormed, h]
  | case3 u v rest hpair ih =>
      rw [wellFormed, if_pos hpair] at h
      rw [toWellFormed, if_pos hpair, ih h]
  | case4 u v rest hpair ih =>
      rw [wellFormed, if_neg hpair, ← Bool.not_or, Bool.and_eq_true,
        Bool.not_eq_true'] at h
      obtain ⟨halone, hrest⟩ := h
      rw [toWellFormed, if_neg hpair, ih hrest, halone]
      rfl

def utf8 (text : Units) : List UInt8 := Utf8.encode (scalars text)

def SplitsPair (front back : Units) : Prop :=
  ∃ high low, front.getLast? = some high ∧ back.head? = some low ∧
    isHigh high = true ∧ isLow low = true

theorem scalars_append {front back : Units} (h : ¬ SplitsPair front back) :
    scalars (front ++ back) = scalars front ++ scalars back := by
  induction front using scalars.induct with
  | case1 => rfl
  | case2 u =>
      cases back with
      | nil => rfl
      | cons v back =>
          have hpair : (isHigh u && isLow v) = false := by
            rw [Bool.eq_false_iff]
            intro hboth
            rw [Bool.and_eq_true] at hboth
            exact h ⟨u, v, rfl, rfl, hboth.1, hboth.2⟩
          simp only [List.cons_append, List.nil_append, scalars, hpair,
            Bool.false_eq_true, if_false]
  | case3 u v rest hpair ih =>
      have hrest : ¬ SplitsPair rest back := by
        rintro ⟨high, low, hhigh, hrest⟩
        refine h ⟨high, low, ?_, hrest⟩
        rw [List.getLast?_cons_cons, List.getLast?_cons, hhigh]
        rfl
      simp only [List.cons_append, scalars, hpair, if_true, ih hrest]
  | case4 u v rest hpair ih =>
      have hrest : ¬ SplitsPair (v :: rest) back := by
        rintro ⟨high, low, hhigh, hrest⟩
        refine h ⟨high, low, ?_, hrest⟩
        rw [List.getLast?_cons_cons, hhigh]
      have hfalse : (isHigh u && isLow v) = false := by simpa using hpair
      have htail := ih hrest
      rw [List.cons_append] at htail
      simp only [List.cons_append, scalars, hfalse, Bool.false_eq_true, if_false, htail]

theorem utf8_flatten {pieces : List Units}
    (h : ∀ before after, pieces = before ++ after →
      ¬ SplitsPair before.flatten after.flatten) :
    pieces.flatMap utf8 = utf8 pieces.flatten := by
  induction pieces with
  | nil => rfl
  | cons piece pieces ih =>
      have hfirst := h [piece] pieces rfl
      rw [List.flatten_singleton] at hfirst
      have hothers := ih fun before after heq hsplit => by
        obtain ⟨high, low, hhigh, hlow⟩ := hsplit
        refine h (piece :: before) after (by rw [heq, List.cons_append])
          ⟨high, low, ?_, hlow⟩
        rw [List.flatten_cons, List.getLast?_append, hhigh]
        rfl
      rw [List.flatMap_cons, List.flatten_cons, hothers, utf8, utf8, utf8,
        scalars_append hfirst, Utf8.encode_append]

end OrcState.Foundation.Utf16
