import Mathlib.Data.List.Basic

/-!
# Reading bytes as UTF-8

The decoder of the WHATWG encoding standard, which never fails: a byte that
cannot stand where it stands, and a character that is cut off, are read as U+FFFD.
On the encoding of a text it returns the text, and what it reads after the end of a
character does not depend on what came before.
-/

namespace OrcState.Foundation.Utf8

/-! ## The decoder -/

structure Unfinished where
  codePoint : Nat
  missing : Nat
  lower : Nat
  upper : Nat
  deriving DecidableEq, Repr

def replacement : Char := '\uFFFD'

def lead (b : Nat) : List Char × Option Unfinished :=
  if b ≤ 0x7F then ([Char.ofNat b], none)
  else if 0xC2 ≤ b ∧ b ≤ 0xDF then ([], some ⟨b - 0xC0, 1, 0x80, 0xBF⟩)
  else if 0xE0 ≤ b ∧ b ≤ 0xEF then
    ([], some ⟨b - 0xE0, 2, if b = 0xE0 then 0xA0 else 0x80,
      if b = 0xED then 0x9F else 0xBF⟩)
  else if 0xF0 ≤ b ∧ b ≤ 0xF4 then
    ([], some ⟨b - 0xF0, 3, if b = 0xF0 then 0x90 else 0x80,
      if b = 0xF4 then 0x8F else 0xBF⟩)
  else ([replacement], none)

/-- A byte within a character; one that does not belong there is read anew. -/
def Unfinished.continue (p : Unfinished) (b : Nat) :
    List Char × Option Unfinished :=
  if p.lower ≤ b ∧ b ≤ p.upper then
    let codePoint := p.codePoint * 64 + (b - 0x80)
    if p.missing = 1 then ([Char.ofNat codePoint], none)
    else ([], some ⟨codePoint, p.missing - 1, 0x80, 0xBF⟩)
  else (replacement :: (lead b).1, (lead b).2)

def decodeByte (p : Option Unfinished) (b : UInt8) :
    List Char × Option Unfinished :=
  match p with
  | none => lead b.toNat
  | some p => p.continue b.toNat

def decodeFrom : Option Unfinished → List UInt8 → List Char
  | none, [] => []
  | some _, [] => [replacement]
  | p, b :: rest =>
      (decodeByte p b).1 ++ decodeFrom (decodeByte p b).2 rest

def decode (bytes : List UInt8) : List Char := decodeFrom none bytes

/-! ## Decoding an encoded text -/

def encode (text : List Char) : List UInt8 := text.flatMap String.utf8EncodeChar

@[simp] theorem encode_append (a b : List Char) :
    encode (a ++ b) = encode a ++ encode b := List.flatMap_append

theorem decodeFrom_cons (p : Option Unfinished) (b : UInt8) (rest : List UInt8) :
    decodeFrom p (b :: rest) =
      (decodeByte p b).1 ++ decodeFrom (decodeByte p b).2 rest := by
  cases p <;> rfl

theorem decodeByte_ofNat {p : Option Unfinished} {n : Nat} (hn : n < 256) :
    decodeByte p (UInt8.ofNat n) = p.elim (lead n) fun p => p.continue n := by
  have hto : (UInt8.ofNat n).toNat = n := UInt8.toNat_ofNat_of_lt' hn
  cases p <;> simp only [decodeByte, hto, Option.elim_none, Option.elim_some]

theorem decodeFrom_first {n : Nat} (hn : n < 256) {p : Unfinished}
    (hlead : lead n = ([], some p)) (rest : List UInt8) :
    decodeFrom none (UInt8.ofNat n :: rest) = decodeFrom (some p) rest := by
  rw [decodeFrom_cons, decodeByte_ofNat hn, Option.elim_none, hlead,
    List.nil_append]

theorem decodeFrom_more {p : Unfinished} {m : Nat} (hm : m < 64)
    (hlower : p.lower ≤ m + 0x80) (hupper : m + 0x80 ≤ p.upper)
    (hmissing : p.missing ≠ 1) (rest : List UInt8) :
    decodeFrom (some p) (UInt8.ofNat (m + 0x80) :: rest) =
      decodeFrom (some ⟨p.codePoint * 64 + m, p.missing - 1, 0x80, 0xBF⟩)
        rest := by
  rw [decodeFrom_cons, decodeByte_ofNat (by omega)]
  simp only [Option.elim_some, Unfinished.continue, hlower, hupper, and_self,
    if_true, hmissing, if_false, Nat.add_sub_cancel, List.nil_append]

theorem decodeFrom_last {p : Unfinished} {m : Nat} (hm : m < 64)
    (hlower : p.lower ≤ m + 0x80) (hupper : m + 0x80 ≤ p.upper)
    (hmissing : p.missing = 1) (rest : List UInt8) :
    decodeFrom (some p) (UInt8.ofNat (m + 0x80) :: rest) =
      Char.ofNat (p.codePoint * 64 + m) :: decodeFrom none rest := by
  rw [decodeFrom_cons, decodeByte_ofNat (by omega)]
  simp only [Option.elim_some, Unfinished.continue, hlower, hupper, and_self,
    if_true, hmissing, Nat.add_sub_cancel, List.singleton_append]

theorem decodeFrom_two {n : Nat} (hlow : 0x7F < n) (hhigh : n ≤ 0x7FF)
    (rest : List UInt8) :
    decodeFrom none (UInt8.ofNat (n / 64 % 0x20 + 0xC0) ::
        UInt8.ofNat (n % 0x40 + 0x80) :: rest) =
      Char.ofNat n :: decodeFrom none rest := by
  have hlead : lead (n / 64 % 0x20 + 0xC0) =
      ([], some ⟨n / 64, 1, 0x80, 0xBF⟩) := by
    rw [lead, if_neg (by omega), if_pos (by omega)]
    simp only [show n / 64 % 0x20 + 0xC0 - 0xC0 = n / 64 by omega]
  rw [decodeFrom_first (by omega) hlead,
    decodeFrom_last (by omega) (by dsimp only; omega) (by dsimp only; omega) rfl]
  rw [show n / 64 * 64 + n % 0x40 = n by omega]

theorem decodeFrom_three {n : Nat} (hlow : 0x7FF < n) (hhigh : n ≤ 0xFFFF)
    (hvalid : n < 0xD800 ∨ 0xDFFF < n) (rest : List UInt8) :
    decodeFrom none (UInt8.ofNat (n / 4096 % 0x10 + 0xE0) ::
        UInt8.ofNat (n / 64 % 0x40 + 0x80) ::
        UInt8.ofNat (n % 0x40 + 0x80) :: rest) =
      Char.ofNat n :: decodeFrom none rest := by
  have hlead : lead (n / 4096 % 0x10 + 0xE0) =
      ([], some ⟨n / 4096, 2, if n / 4096 = 0 then 0xA0 else 0x80,
        if n / 4096 = 0xD then 0x9F else 0xBF⟩) := by
    rw [lead, if_neg (by omega), if_neg (by omega), if_pos (by omega)]
    simp only [show n / 4096 % 0x10 + 0xE0 - 0xE0 = n / 4096 by omega,
      show n / 4096 % 0x10 + 0xE0 = 0xE0 ↔ n / 4096 = 0 by omega,
      show n / 4096 % 0x10 + 0xE0 = 0xED ↔ n / 4096 = 0xD by omega]
  rw [decodeFrom_first (by omega) hlead,
    decodeFrom_more (by omega) (by dsimp only; split <;> omega)
      (by dsimp only; split <;> omega) (by dsimp only; omega),
    decodeFrom_last (by omega) (by dsimp only; omega) (by dsimp only; omega) rfl]
  rw [show (n / 4096 * 64 + n / 64 % 0x40) * 64 + n % 0x40 = n by omega]

theorem decodeFrom_four {n : Nat} (hlow : 0xFFFF < n) (hhigh : n < 0x110000)
    (rest : List UInt8) :
    decodeFrom none (UInt8.ofNat (n / 262144 % 0x08 + 0xF0) ::
        UInt8.ofNat (n / 4096 % 0x40 + 0x80) ::
        UInt8.ofNat (n / 64 % 0x40 + 0x80) ::
        UInt8.ofNat (n % 0x40 + 0x80) :: rest) =
      Char.ofNat n :: decodeFrom none rest := by
  have hlead : lead (n / 262144 % 0x08 + 0xF0) =
      ([], some ⟨n / 262144, 3, if n / 262144 = 0 then 0x90 else 0x80,
        if n / 262144 = 4 then 0x8F else 0xBF⟩) := by
    rw [lead, if_neg (by omega), if_neg (by omega), if_neg (by omega),
      if_pos (by omega)]
    simp only [show n / 262144 % 0x08 + 0xF0 - 0xF0 = n / 262144 by omega,
      show n / 262144 % 0x08 + 0xF0 = 0xF0 ↔ n / 262144 = 0 by omega,
      show n / 262144 % 0x08 + 0xF0 = 0xF4 ↔ n / 262144 = 4 by omega]
  rw [decodeFrom_first (by omega) hlead,
    decodeFrom_more (by omega) (by dsimp only; split <;> omega)
      (by dsimp only; split <;> omega) (by dsimp only; omega),
    decodeFrom_more (by omega) (by dsimp only; omega) (by dsimp only; omega)
      (by dsimp only; omega),
    decodeFrom_last (by omega) (by dsimp only; omega) (by dsimp only; omega) rfl]
  rw [show ((n / 262144 * 64 + n / 4096 % 0x40) * 64 + n / 64 % 0x40) * 64 +
    n % 0x40 = n by omega]

theorem decodeFrom_encodeChar (c : Char) (rest : List UInt8) :
    decodeFrom none (String.utf8EncodeChar c ++ rest) =
      c :: decodeFrom none rest := by
  have hvalid : c.toNat < 0xD800 ∨ 0xDFFF < c.toNat ∧ c.toNat < 0x110000 := c.valid
  have hdef : String.utf8EncodeChar c =
      (if c.toNat ≤ 0x7f then [UInt8.ofNat c.toNat]
      else if c.toNat ≤ 0x7ff then
        [UInt8.ofNat (c.toNat / 64 % 0x20 + 0xc0),
         UInt8.ofNat (c.toNat % 0x40 + 0x80)]
      else if c.toNat ≤ 0xffff then
        [UInt8.ofNat (c.toNat / 4096 % 0x10 + 0xe0),
         UInt8.ofNat (c.toNat / 64 % 0x40 + 0x80),
         UInt8.ofNat (c.toNat % 0x40 + 0x80)]
      else
        [UInt8.ofNat (c.toNat / 262144 % 0x08 + 0xf0),
         UInt8.ofNat (c.toNat / 4096 % 0x40 + 0x80),
         UInt8.ofNat (c.toNat / 64 % 0x40 + 0x80),
         UInt8.ofNat (c.toNat % 0x40 + 0x80)]) := rfl
  rw [hdef]
  split
  case isTrue hone =>
    rw [List.singleton_append, decodeFrom_cons, decodeByte_ofNat (by omega)]
    simp only [Option.elim_none, lead, hone, if_true, Char.ofNat_toNat,
      List.singleton_append]
  case isFalse hone =>
    split
    case isTrue htwo =>
      exact (decodeFrom_two (by omega) htwo rest).trans (by rw [Char.ofNat_toNat])
    case isFalse htwo =>
      split
      case isTrue hthree =>
        exact (decodeFrom_three (by omega) hthree (by omega) rest).trans
          (by rw [Char.ofNat_toNat])
      case isFalse hthree =>
        exact (decodeFrom_four (by omega) (by omega) rest).trans
          (by rw [Char.ofNat_toNat])

/-- After a whole text the decoder stands between characters again. -/
theorem decode_encode_append (text : List Char) (rest : List UInt8) :
    decode (encode text ++ rest) = text ++ decode rest := by
  induction text with
  | nil => rfl
  | cons c text ih =>
      change decodeFrom none
        ((String.utf8EncodeChar c ++ encode text) ++ rest) = _
      rw [List.append_assoc, decodeFrom_encodeChar]
      exact congrArg (c :: ·) ih

theorem decode_encode (text : List Char) : decode (encode text) = text := by
  have h := decode_encode_append text []
  rwa [List.append_nil, show decode [] = [] from rfl, List.append_nil] at h

theorem encode_injective {a b : List Char} (h : encode a = encode b) : a = b := by
  rw [← decode_encode a, h, decode_encode b]

/-- A text whose bytes come first in another's comes first in it. -/
theorem isPrefix_of_encode {a b : List Char} (h : encode a <+: encode b) :
    a <+: b := by
  obtain ⟨rest, hrest⟩ := h
  refine ⟨decode rest, ?_⟩
  rw [← decode_encode_append, hrest, decode_encode]

theorem encode_decode_of_append {a b : List Char} {bytes : List UInt8}
    (h : encode a ++ bytes = encode b) : b = a ++ decode bytes := by
  rw [← decode_encode b, ← h, decode_encode_append]

end OrcState.Foundation.Utf8
