import OrcState.Foundation.JsonString

/-!
# JSON texts

`JSON.parse` of a text given by its UTF-16 code units.  A number is kept as it is
written, and of two fields with one name the later one counts.  A value takes no
more calls than twice the units it is written with, which is what the readers are
given.
-/

namespace OrcState.Foundation.Json

inductive Value where
  | null
  | bool (b : Bool)
  | number (text : Units)
  | string (text : Units)
  | array (items : List Value)
  | object (fields : List (Units × Value))

def blank (u : Nat) : Bool := u = 0x20 || u = 0x09 || u = 0x0A || u = 0x0D

def skipBlanks (text : Units) : Units := text.dropWhile blank

/-! ## Strings and numbers -/

def readString : Units → Option (Units × Units)
  | [] => none
  | u :: rest =>
      if u = 0x22 then some ([], rest)
      else if u = 0x5C then
        match rest with
        | [] => none
        | letter :: rest =>
            if letter = 0x75 then
              match rest with
              | a :: b :: c :: d :: rest =>
                  (hexQuad a b c d).bind fun n =>
                    (readString rest).map fun r => (n :: r.1, r.2)
              | _ => none
            else
              (unitOf letter).bind fun n =>
                (readString rest).map fun r => (n :: r.1, r.2)
      else if u < 0x20 then none
      else (readString rest).map fun r => (u :: r.1, r.2)

def digit (u : Nat) : Bool := 0x30 ≤ u && u ≤ 0x39

def readDigits (text : Units) : Option (Units × Units) :=
  if text.head?.any digit then some (text.takeWhile digit, text.dropWhile digit)
  else none

def readInteger : Units → Option (Units × Units)
  | 0x30 :: rest => some ([0x30], rest)
  | text => readDigits text

def readFraction : Units → Option (Units × Units)
  | 0x2E :: rest => (readDigits rest).map fun r => (0x2E :: r.1, r.2)
  | text => some ([], text)

def readSign : Units → Units × Units
  | 0x2B :: rest => ([0x2B], rest)
  | 0x2D :: rest => ([0x2D], rest)
  | text => ([], text)

def readExponent (text : Units) : Option (Units × Units) :=
  match text with
  | [] => some ([], [])
  | u :: rest =>
      if u = 0x65 ∨ u = 0x45 then
        (readDigits (readSign rest).2).map fun r =>
          (u :: (readSign rest).1 ++ r.1, r.2)
      else some ([], text)

def readUnsigned (text : Units) : Option (Units × Units) :=
  (readInteger text).bind fun whole =>
    (readFraction whole.2).bind fun fraction =>
      (readExponent fraction.2).map fun exponent =>
        (whole.1 ++ fraction.1 ++ exponent.1, exponent.2)

def readNumber : Units → Option (Units × Units)
  | 0x2D :: rest => (readUnsigned rest).map fun r => (0x2D :: r.1, r.2)
  | text => readUnsigned text

/-! ## Values -/

def setField (fields : List (Units × Value)) (key : Units) (value : Value) :
    List (Units × Value) :=
  if key ∈ fields.map Prod.fst then
    fields.map fun field => if field.1 = key then (key, value) else field
  else fields ++ [(key, value)]

mutual

def readValue : Nat → Units → Option (Value × Units)
  | 0, _ => none
  | calls + 1, text =>
      match text with
      | 0x6E :: 0x75 :: 0x6C :: 0x6C :: rest => some (.null, rest)
      | 0x74 :: 0x72 :: 0x75 :: 0x65 :: rest => some (.bool true, rest)
      | 0x66 :: 0x61 :: 0x6C :: 0x73 :: 0x65 :: rest => some (.bool false, rest)
      | 0x22 :: rest => (readString rest).map fun r => (.string r.1, r.2)
      | 0x5B :: rest =>
          match skipBlanks rest with
          | 0x5D :: rest => some (.array [], rest)
          | rest => (readItems calls rest).map fun r => (.array r.1, r.2)
      | 0x7B :: rest =>
          match skipBlanks rest with
          | 0x7D :: rest => some (.object [], rest)
          | rest => (readFields calls [] rest).map fun r => (.object r.1, r.2)
      | text => (readNumber text).map fun r => (.number r.1, r.2)

def readItems : Nat → Units → Option (List Value × Units)
  | 0, _ => none
  | calls + 1, text =>
      (readValue calls text).bind fun item =>
        match skipBlanks item.2 with
        | 0x5D :: rest => some ([item.1], rest)
        | 0x2C :: rest =>
            (readItems calls (skipBlanks rest)).map fun r => (item.1 :: r.1, r.2)
        | _ => none

def readFields : Nat → List (Units × Value) → Units →
    Option (List (Units × Value) × Units)
  | 0, _, _ => none
  | calls + 1, fields, text =>
      match text with
      | 0x22 :: rest =>
          (readString rest).bind fun key =>
            match skipBlanks key.2 with
            | 0x3A :: rest =>
                (readValue calls (skipBlanks rest)).bind fun value =>
                  match skipBlanks value.2 with
                  | 0x7D :: rest => some (setField fields key.1 value.1, rest)
                  | 0x2C :: rest =>
                      readFields calls (setField fields key.1 value.1)
                        (skipBlanks rest)
                  | _ => none
            | _ => none
      | _ => none

end

def parseText (text : Units) : Option Value :=
  match readValue (2 * text.length + 2) (skipBlanks text) with
  | some (value, rest) => if skipBlanks rest = [] then some value else none
  | none => none

def valid (text : String) : Bool :=
  (parseText (text.toList.map Char.toNat)).isSome

end OrcState.Foundation.Json
