import OrcState.Foundation.Utf16
import OrcState.Markdown.Frontmatter
import Mathlib.Data.List.TakeWhile

/-!
# Terminal input

`terminalInputTokens` cuts what was typed or pasted at control characters and
escape sequences, and turns the pieces that tmux has a key name for into keys.  Each
token is sent by itself, so a cut between the halves of a surrogate pair loses the
character, and so does a piece that `special` answers for by inheritance.
-/

namespace OrcState.Terminal.Input

open OrcState.Foundation OrcState.Foundation.Json OrcState.Foundation.Utf16
open OrcState.Markdown (units lineTerminator objectPrototype)

/-! ## Cutting -/

/-- `[\x00-\x1f\x7f]` -/
def control (u : Nat) : Bool := u < 0x20 || u = 0x7F

def parameter (u : Nat) : Bool := (0x30 ≤ u && u ≤ 0x39) || u = 0x3B || u = 0x3F

def intermediate (u : Nat) : Bool := 0x20 ≤ u && u ≤ 0x2F

def final (u : Nat) : Bool := 0x40 ≤ u && u ≤ 0x7E

def letter (u : Nat) : Bool := (0x41 ≤ u && u ≤ 0x5A) || (0x61 ≤ u && u ≤ 0x7A)

/-- A bracket, parameters, intermediates and a final unit.  No unit is in two of the
classes, so there is one way to match. -/
def bracketed : Units → Option (Units × Units)
  | [] => none
  | u :: rest =>
      if u = 0x5B then
        match (rest.dropWhile parameter).dropWhile intermediate with
        | [] => none
        | last :: behind =>
            if final last then
              some (u :: (rest.takeWhile parameter ++
                (rest.dropWhile parameter).takeWhile intermediate ++ [last]), behind)
            else none
      else none

/-- `O[A-Za-z]` -/
def shifted : Units → Option (Units × Units)
  | u :: v :: rest => if u = 0x4F ∧ letter v then some ([u, v], rest) else none
  | _ => none

/-- `.` -/
def anyUnit : Units → Option (Units × Units)
  | [] => none
  | u :: rest => if lineTerminator u then none else some ([u], rest)

def matchControl : Units → Option (Units × Units)
  | [] => none
  | u :: rest =>
      if u = 0x1B then
        match (bracketed rest <|> shifted rest <|> anyUnit rest) with
        | some (body, behind) => some (u :: body, behind)
        | none => some ([u], rest)
      else if control u then some ([u], rest)
      else none

/-- `split`, which keeps what it captures; at most `length` times. -/
def splitControls : Nat → Units → List Units
  | 0, text => [text]
  | cuts + 1, text =>
      match matchControl (text.dropWhile (!control ·)) with
      | none => [text]
      | some (sequence, rest) =>
          text.takeWhile (!control ·) :: sequence :: splitControls cuts rest

def parts (data : Units) : List Units :=
  (splitControls data.length data).filter (· ≠ [])

/-! ## Keys -/

inductive Key where
  | named (name : String)
  | inherited (property : Units)
  deriving DecidableEq

inductive Token where
  | key (key : Key)
  | text (text : Units)
  deriving DecidableEq

def special : List (Units × String) :=
  [("\r", "Enter"), ("\n", "Enter"), ("\t", "Tab"), ("\x1b", "Escape"),
    ("\x7f", "BSpace"),
    ("\x1b[A", "Up"), ("\x1b[B", "Down"), ("\x1b[C", "Right"), ("\x1b[D", "Left"),
    ("\x1b[H", "Home"), ("\x1b[F", "End"), ("\x1b[2~", "Insert"),
    ("\x1b[3~", "Delete"), ("\x1b[5~", "PageUp"), ("\x1b[6~", "PageDown"),
    ("\x1bOP", "F1"), ("\x1bOQ", "F2"), ("\x1bOR", "F3"), ("\x1bOS", "F4"),
    ("\x1b[15~", "F5"), ("\x1b[17~", "F6"), ("\x1b[18~", "F7"), ("\x1b[19~", "F8"),
    ("\x1b[20~", "F9"), ("\x1b[21~", "F10"), ("\x1b[23~", "F11"),
    ("\x1b[24~", "F12")].map fun entry => (units entry.1, entry.2)

/-- `special[part]` -/
def ownOrInherited (part : Units) : Option Key :=
  match special.find? (·.1 = part) with
  | some entry => some (.named entry.2)
  | none => if objectPrototype.contains part then some (.inherited part) else none

def controlName (code : Nat) : Option String :=
  if 1 ≤ code ∧ code ≤ 26 then some ("C-" ++ String.singleton (Char.ofNat (96 + code)))
  else if code = 0 then some "C-Space"
  else if code = 28 then some "C-\\"
  else if code = 29 then some "C-]"
  else if code = 30 then some "C-^"
  else if code = 31 then some "C-_"
  else none

def controlKey : Units → Option Key
  | [code] => (controlName code).map .named
  | _ => none

def keyOf (part : Units) : Option Key := (ownOrInherited part).or (controlKey part)

def tokenOf (part : Units) : Token :=
  match keyOf part with
  | some key => .key key
  | none => .text part

def terminalInputTokens (data : Units) : List Token := (parts data).map tokenOf

/-! ## What is sent -/

def keyTable : List (Units × String) :=
  special ++ (List.range 32).filterMap fun code =>
    (controlName code).map fun name => ([code], name)

def Key.characters : Key → Option Units
  | .named name => (keyTable.find? (·.2 = name)).map Prod.fst
  | .inherited _ => none

def Token.characters : Token → Option Units
  | .key k => k.characters
  | .text stretch => some stretch

def identified (text : Units) : Units :=
  text.map fun u => if u = 0x0A then 0x0D else u

def EscapeSequence (text : Units) : Prop :=
  text.head? = some 0x1B ∧ ∃ rest, matchControl (text ++ rest) = some (text, rest)

/-- The pieces are what the tokens stand for, one by one. -/
structure Lossless (data : Units) (pieces : List Units) : Prop where
  spelled : List.Forall₂ (fun token piece => token.characters = some piece)
    (terminalInputTokens data) pieces
  whole : pieces.flatten = identified data
  nonempty : ∀ piece ∈ pieces, piece ≠ []
  texts : ∀ text, .text text ∈ terminalInputTokens data →
    (∀ u ∈ text, control u = false) ∨ (EscapeSequence text ∧ keyOf text = none)
  unbroken : ∀ before after, pieces = before ++ after →
    ¬ SplitsPair before.flatten after.flatten
  bytes : pieces.flatMap utf8 = utf8 (identified data)

/-! ## The condition -/

def escapes (text : Units) : Nat := (text.reverse.takeWhile (· = 0x1B)).length

/-- At the beginning, or behind a control character or an escape sequence, whose
escape is not itself the second unit of one. -/
def Opens (before rest : Units) : Prop :=
  before = [] ∨ ∃ front sequence, before = front ++ sequence ∧
    matchControl (sequence ++ rest) = some (sequence, rest) ∧
    (sequence.head? = some 0x1B → escapes front % 2 = 0)

def InheritedName (data : Units) : Prop :=
  ∃ before name after, data = before ++ (name ++ after) ∧ name ∈ objectPrototype ∧
    Opens before (name ++ after) ∧ ∀ u ∈ after.head?, control u = true

def PairAfterEscape (data : Units) : Prop :=
  ∃ before high low after, data = before ++ 0x1B :: high :: low :: after ∧
    escapes before % 2 = 0 ∧ isHigh high = true ∧ isLow low = true

/-! ## One cut -/

def Plain (part : Units) : Prop := part ≠ [] ∧ ∀ u ∈ part, control u = false

def Controlled (rest : Units) : Prop := ∀ u ∈ rest.head?, control u = true

theorem bracketed_spec {text body rest : Units} (h : bracketed text = some (body, rest)) :
    text = body ++ rest ∧ Plain body ∧ ∀ u ∈ body.getLast?, isHigh u = false := by
  cases text with
  | nil => cases h
  | cons u tail =>
      rw [bracketed] at h
      by_cases hu : u = 0x5B
      · rw [if_pos hu] at h
        have hsplit : tail = tail.takeWhile parameter ++
            ((tail.dropWhile parameter).takeWhile intermediate ++
              (tail.dropWhile parameter).dropWhile intermediate) := by
          rw [List.takeWhile_append_dropWhile, List.takeWhile_append_dropWhile]
        cases hbehind : (tail.dropWhile parameter).dropWhile intermediate with
        | nil =>
            rw [hbehind] at h
            cases h
        | cons last behind =>
            rw [hbehind] at h hsplit
            simp only at h
            by_cases hlast : final last = true
            · rw [if_pos hlast] at h
              simp only [Option.some.injEq, Prod.mk.injEq] at h
              obtain ⟨rfl, rfl⟩ := h
              refine ⟨?_, ⟨List.cons_ne_nil _ _, ?_⟩, ?_⟩
              · conv_lhs => rw [hsplit]
                simp
              · intro v hv
                simp only [List.mem_cons, List.mem_append, List.not_mem_nil,
                  or_false] at hv
                obtain rfl | (hv | hv) | rfl := hv
                · subst hu
                  rfl
                · have hparam := List.mem_takeWhile_imp hv
                  simp only [parameter, control] at hparam ⊢
                  grind
                · have hinter := List.mem_takeWhile_imp hv
                  simp only [intermediate, control] at hinter ⊢
                  grind
                · simp only [final, control] at hlast ⊢
                  grind
              · intro v hv
                rw [← List.cons_append, List.getLast?_concat] at hv
                obtain rfl := Option.some.inj hv
                simp only [final, isHigh] at hlast ⊢
                grind
            · rw [if_neg hlast] at h
              cases h
      · rw [if_neg hu] at h
        cases h

theorem shifted_spec {text body rest : Units} (h : shifted text = some (body, rest)) :
    text = body ++ rest ∧ Plain body ∧ ∀ u ∈ body.getLast?, isHigh u = false := by
  match text with
  | [] => cases h
  | [_] => cases h
  | u :: v :: tail =>
      rw [shifted] at h
      by_cases huv : u = 0x4F ∧ letter v = true
      · rw [if_pos huv] at h
        simp only [Option.some.injEq, Prod.mk.injEq] at h
        obtain ⟨rfl, rfl⟩ := h
        obtain ⟨rfl, hv⟩ := huv
        refine ⟨rfl, ⟨List.cons_ne_nil _ _, ?_⟩, ?_⟩
        · intro w hw
          simp only [List.mem_cons, List.not_mem_nil, or_false] at hw
          obtain rfl | rfl := hw
          · rfl
          · simp only [letter, control] at hv ⊢
            grind
        · intro w hw
          obtain rfl := Option.some.inj hw
          simp only [letter, isHigh] at hv ⊢
          grind
      · rw [if_neg huv] at h
        cases h

/-- What an escape takes with it: nothing with a control character in it, or with half
a pair at its end, unless that is all it takes. -/
inductive Body : Units → Units → Prop
  | plain {body rest : Units} (h : Plain body)
      (hlast : (∀ u ∈ body.getLast?, isHigh u = false) ∨ ∃ u, body = [u]) :
      Body body rest
  | single {u : Nat} {rest : Units} (hu : control u = true)
      (hdot : lineTerminator u = false) : Body [u] rest
  | alone {rest : Units} (h : ∀ u ∈ rest.head?, lineTerminator u = true) : Body [] rest

theorem matchControl_escape (text : Units) :
    ∃ body rest, text = body ++ rest ∧ Body body rest ∧
      matchControl (0x1B :: text) = some (0x1B :: body, rest) := by
  rw [matchControl, if_pos rfl]
  cases hbracketed : bracketed text with
  | some matched =>
      obtain ⟨body, rest⟩ := matched
      obtain ⟨htext, hplain, hlast⟩ := bracketed_spec hbracketed
      exact ⟨body, rest, htext, .plain hplain (.inl hlast), rfl⟩
  | none =>
  cases hshifted : shifted text with
  | some matched =>
      obtain ⟨body, rest⟩ := matched
      obtain ⟨htext, hplain, hlast⟩ := shifted_spec hshifted
      exact ⟨body, rest, htext, .plain hplain (.inl hlast), rfl⟩
  | none =>
  cases text with
  | nil => exact ⟨[], [], rfl, .alone (by simp), rfl⟩
  | cons u rest =>
      by_cases hdot : lineTerminator u = true
      · refine ⟨[], u :: rest, rfl, .alone (by simpa using hdot), ?_⟩
        simp [anyUnit, hdot]
      · refine ⟨[u], rest, rfl, ?_, by simp [anyUnit, hdot]⟩
        by_cases hu : control u = true
        · exact .single hu (by simpa using hdot)
        · exact .plain ⟨List.cons_ne_nil _ _, by simpa using hu⟩ (.inr ⟨u, rfl⟩)

theorem matchControl_other {u : Nat} (hescape : u ≠ 0x1B) (rest : Units) :
    matchControl (u :: rest) = if control u then some ([u], rest) else none := by
  rw [matchControl, if_neg hescape]

inductive Sequence : Units → Units → Prop
  | escape {body rest : Units} (h : Body body rest) : Sequence (0x1B :: body) rest
  | control {u : Nat} {rest : Units} (hu : control u = true) (hescape : u ≠ 0x1B) :
      Sequence [u] rest

theorem matchControl_spec {text sequence rest : Units}
    (h : matchControl text = some (sequence, rest)) :
    text = sequence ++ rest ∧ Sequence sequence rest := by
  cases text with
  | nil => cases h
  | cons u tail =>
      by_cases hescape : u = 0x1B
      · subst hescape
        obtain ⟨body, behind, rfl, hbody, hmatch⟩ := matchControl_escape tail
        rw [hmatch] at h
        simp only [Option.some.injEq, Prod.mk.injEq] at h
        obtain ⟨rfl, rfl⟩ := h
        exact ⟨rfl, .escape hbody⟩
      · rw [matchControl_other hescape] at h
        by_cases hu : control u = true
        · rw [if_pos hu] at h
          simp only [Option.some.injEq, Prod.mk.injEq] at h
          obtain ⟨rfl, rfl⟩ := h
          exact ⟨rfl, .control hu hescape⟩
        · rw [if_neg hu] at h
          cases h

theorem matchControl_eq_none {text : Units} :
    matchControl text = none ↔ ∀ u ∈ text.head?, control u = false := by
  cases text with
  | nil => simp [matchControl]
  | cons u tail =>
      by_cases hescape : u = 0x1B
      · subst hescape
        obtain ⟨body, behind, -, -, hmatch⟩ := matchControl_escape tail
        simp [hmatch, control]
      · rw [matchControl_other hescape]
        cases hu : control u <;> simp [hu]

theorem Sequence.ne_nil {sequence rest : Units} (h : Sequence sequence rest) :
    sequence ≠ [] := by
  cases h <;> exact List.cons_ne_nil _ _

/-! ## All cuts -/

theorem head_dropWhile (text : Units) : Controlled (text.dropWhile (!control ·)) := by
  intro u hu
  have hdropped := List.head?_dropWhile_not (!control ·) text
  rw [Option.mem_def.mp hu] at hdropped
  simpa using hdropped

theorem length_matchControl {text sequence rest : Units}
    (h : matchControl (text.dropWhile (!control ·)) = some (sequence, rest)) :
    rest.length < text.length := by
  obtain ⟨hdrop, hsequence⟩ := matchControl_spec h
  have hle := List.length_dropWhile_le (!control ·) text
  have hpos := List.length_pos_iff.mpr hsequence.ne_nil
  rw [hdrop, List.length_append] at hle
  omega

theorem splitControls_enough {n m : Nat} {text : Units} (hn : text.length ≤ n)
    (hm : text.length ≤ m) : splitControls n text = splitControls m text := by
  induction n generalizing m text with
  | zero =>
      obtain rfl := List.eq_nil_of_length_eq_zero (Nat.le_zero.mp hn)
      cases m <;> rfl
  | succ n ih =>
      cases m with
      | zero =>
          obtain rfl := List.eq_nil_of_length_eq_zero (Nat.le_zero.mp hm)
          rfl
      | succ m =>
          simp only [splitControls]
          cases hmatch : matchControl (text.dropWhile (!control ·)) with
          | none => rfl
          | some matched =>
              obtain ⟨sequence, rest⟩ := matched
              have hshorter := length_matchControl hmatch
              have hrest : splitControls n rest = splitControls m rest :=
                ih (by omega) (by omega)
              simp only [hrest]

theorem parts_nil : parts [] = [] := rfl

theorem parts_cut {text sequence rest : Units}
    (h : matchControl (text.dropWhile (!control ·)) = some (sequence, rest)) :
    parts text =
      [text.takeWhile (!control ·)].filter (· ≠ []) ++ sequence :: parts rest := by
  have hshorter := length_matchControl h
  have hne := (matchControl_spec h).2.ne_nil
  cases text with
  | nil => cases h
  | cons u tail =>
      have hrest : splitControls tail.length rest = splitControls rest.length rest := by
        refine splitControls_enough ?_ (Nat.le_refl _)
        simpa [Nat.lt_succ_iff] using hshorter
      simp only [parts, List.length_cons, splitControls, h, hrest]
      rw [List.filter_cons, List.filter_cons, List.filter_cons]
      by_cases hstretch : (u :: tail).takeWhile (!control ·) = [] <;>
        simp [hstretch, hne]

theorem parts_sequence {sequence rest : Units}
    (h : matchControl (sequence ++ rest) = some (sequence, rest)) :
    parts (sequence ++ rest) = sequence :: parts rest := by
  have hhead : Controlled (sequence ++ rest) := by
    intro u hu
    by_contra hplain
    have hnone : matchControl (sequence ++ rest) = none := by
      refine matchControl_eq_none.mpr fun v hv => ?_
      rw [Option.mem_unique hv hu]
      simpa using hplain
    rw [hnone] at h
    cases h
  cases htext : sequence ++ rest with
  | nil =>
      rw [htext] at h
      cases h
  | cons u tail =>
      rw [htext] at h hhead
      have hu : control u = true := hhead u rfl
      have hdrop : (u :: tail).dropWhile (!control ·) = u :: tail := by simp [hu]
      have htake : (u :: tail).takeWhile (!control ·) = [] := by simp [hu]
      rw [parts_cut (hdrop ▸ h), htake]
      rfl

theorem parts_plain {part rest : Units} (h : Plain part) (hrest : Controlled rest) :
    parts (part ++ rest) = part :: parts rest := by
  have hpart : ∀ u ∈ part, (!control u) = true := fun u hu => by simp [h.2 u hu]
  cases rest with
  | nil =>
      have hdrop : part.dropWhile (!control ·) = [] :=
        List.dropWhile_eq_nil_iff.mpr hpart
      cases part with
      | nil => exact absurd rfl h.1
      | cons u tail =>
          rw [List.append_nil, parts_nil, parts, List.length_cons, splitControls, hdrop]
          rfl
  | cons u tail =>
      have hu : control u = true := hrest u rfl
      have hdrop : (part ++ u :: tail).dropWhile (!control ·) = u :: tail := by
        rw [List.dropWhile_append_of_pos hpart]
        simp [hu]
      have htake : (part ++ u :: tail).takeWhile (!control ·) = part := by
        rw [List.takeWhile_append_of_pos hpart]
        simp [hu]
      cases hmatch : matchControl (u :: tail) with
      | none =>
          have hplain := matchControl_eq_none.mp hmatch u rfl
          rw [hu] at hplain
          cases hplain
      | some matched =>
          obtain ⟨sequence, behind⟩ := matched
          obtain ⟨htail, -⟩ := matchControl_spec hmatch
          have hself : parts (u :: tail) = sequence :: parts behind := by
            rw [htail]
            exact parts_sequence (htail ▸ hmatch)
          rw [parts_cut (hdrop ▸ hmatch), htake, hself]
          simp [h.1]

inductive Part (part rest : Units) : Prop
  | plain (h : Plain part) (hrest : Controlled rest)
  | sequence (h : matchControl (part ++ rest) = some (part, rest))

theorem Part.parts {part rest : Units} (h : Part part rest) :
    parts (part ++ rest) = part :: parts rest := by
  cases h with
  | plain h hrest => exact parts_plain h hrest
  | sequence h => exact parts_sequence h

theorem Part.ne_nil {part rest : Units} (h : Part part rest) : part ≠ [] := by
  cases h with
  | plain h _ => exact h.1
  | sequence h => exact (matchControl_spec h).2.ne_nil

theorem exists_part {data : Units} (h : data ≠ []) :
    ∃ part rest, data = part ++ rest ∧ Part part rest := by
  have hsplit : data = data.takeWhile (!control ·) ++ data.dropWhile (!control ·) :=
    List.takeWhile_append_dropWhile.symm
  by_cases hstretch : data.takeWhile (!control ·) = []
  · rw [hstretch, List.nil_append] at hsplit
    cases hmatch : matchControl data with
    | none =>
        have hplain := matchControl_eq_none.mp hmatch
        have hhead := head_dropWhile data
        rw [← hsplit] at hhead
        cases data with
        | nil => exact absurd rfl h
        | cons u tail =>
            have hu := hplain u rfl
            rw [hhead u rfl] at hu
            cases hu
    | some matched =>
        obtain ⟨sequence, rest⟩ := matched
        obtain ⟨hdata, -⟩ := matchControl_spec hmatch
        exact ⟨sequence, rest, hdata, .sequence (hdata ▸ hmatch)⟩
  · refine ⟨_, _, hsplit, .plain ⟨hstretch, fun u hu => ?_⟩ (head_dropWhile data)⟩
    simpa using List.mem_takeWhile_imp hu

theorem parts_induction {motive : Units → Prop} (nil : motive [])
    (cut : ∀ part rest, Part part rest → motive rest → motive (part ++ rest))
    (data : Units) : motive data := by
  induction hlength : data.length using Nat.strong_induction_on generalizing data with
  | _ n ih =>
      by_cases hdata : data = []
      · rw [hdata]
        exact nil
      · obtain ⟨part, rest, rfl, hpart⟩ := exists_part hdata
        have hpos := List.length_pos_iff.mpr hpart.ne_nil
        rw [List.length_append] at hlength
        exact cut part rest hpart (ih rest.length (by omega) rest rfl)

theorem parts_flatten (data : Units) : (parts data).flatten = data := by
  induction data using parts_induction with
  | nil => rfl
  | cut part rest hpart ih => rw [hpart.parts, List.flatten_cons, ih]

theorem parts_ne_nil {data part : Units} (h : part ∈ parts data) : part ≠ [] := by
  have hmem := List.of_mem_filter h
  simpa using hmem

theorem exists_part_of_parts {data part : Units} {others : List Units}
    (h : parts data = part :: others) :
    data = part ++ others.flatten ∧ parts others.flatten = others ∧
      Part part others.flatten := by
  have hdata : data ≠ [] := by
    rintro rfl
    rw [parts_nil] at h
    cases h
  obtain ⟨first, rest, rfl, hpart⟩ := exists_part hdata
  rw [hpart.parts] at h
  obtain ⟨rfl, rfl⟩ := List.cons.inj h
  rw [parts_flatten]
  exact ⟨rfl, rfl, hpart⟩

/-! ## Runs of escapes -/

theorem escapes_append (front back : Units) :
    escapes (front ++ back) =
      if ∀ u ∈ back, u = 0x1B then escapes front + back.length else escapes back := by
  rw [escapes, escapes, escapes, List.reverse_append, List.takeWhile_append]
  by_cases hall : ∀ u ∈ back, u = 0x1B
  · have htake : back.reverse.takeWhile (fun u => decide (u = 0x1B)) = back.reverse := by
      rw [List.takeWhile_eq_self_iff]
      simpa using hall
    rw [if_pos hall, htake, if_pos rfl, List.length_append, List.length_reverse]
    omega
  · rw [if_neg hall, if_neg]
    intro hlength
    refine hall fun u hu => ?_
    have hprefixed := List.takeWhile_prefix (l := back.reverse) (fun u => decide (u = 0x1B))
    have hwhole := hprefixed.eq_of_length hlength
    simpa using List.takeWhile_eq_self_iff.mp hwhole u (List.mem_reverse.mpr hu)

theorem escapes_snoc {u : Nat} (hu : u ≠ 0x1B) (front : Units) :
    escapes (front ++ [u]) = 0 := by
  rw [escapes_append, if_neg (by simpa using hu)]
  simp [escapes, hu]

theorem escapes_plain {part : Units} (h : Plain part) (front : Units) :
    escapes (front ++ part) = 0 := by
  have hlast := List.dropLast_append_getLast h.1
  rw [← hlast, ← List.append_assoc]
  refine escapes_snoc (fun hescape => ?_) _
  have hplain := h.2 _ (List.getLast_mem h.1)
  rw [hescape] at hplain
  cases hplain

theorem Part.even {part rest : Units} (h : Part part rest)
    (hrest : rest.head? = some 0x1B) : escapes part % 2 = 0 := by
  cases h with
  | plain h _ => simpa using congrArg (· % 2) (escapes_plain h [])
  | sequence h =>
      cases (matchControl_spec h).2 with
      | control _ hescape => simpa using congrArg (· % 2) (escapes_snoc hescape [])
      | @escape body _ hbody =>
          cases hbody with
          | plain hplain _ => exact congrArg (· % 2) (escapes_plain hplain [0x1B])
          | alone hend =>
              have hterminator := hend _ hrest
              cases hterminator
          | @single u _ hu _ =>
              by_cases hescape : u = 0x1B
              · subst hescape
                rfl
              · exact congrArg (· % 2) (escapes_snoc hescape [0x1B])

theorem Part.parity {part rest : Units} (h : Part part rest) {done : Units}
    (hdone : (part ++ rest).head? = some 0x1B → escapes done % 2 = 0)
    (hrest : rest.head? = some 0x1B) : escapes (done ++ part) % 2 = 0 := by
  have heven := h.even hrest
  rw [escapes_append]
  by_cases hall : ∀ u ∈ part, u = 0x1B
  · have hself := escapes_append [] part
    rw [if_pos hall, List.nil_append] at hself
    have hzero : escapes [] = 0 := rfl
    have hhead : (part ++ rest).head? = some 0x1B := by
      cases part with
      | nil => exact absurd rfl h.ne_nil
      | cons u tail => simpa using hall u List.mem_cons_self
    have hbefore := hdone hhead
    rw [if_pos hall]
    omega
  · rw [if_neg hall]
    exact heven

theorem Part.eq_of_control {part rest : Units} (h : Part part rest) {u : Nat}
    (hu : control u = true) (hmem : u ∈ part.tail) : part = [0x1B, u] := by
  have hno : ∀ {body : Units}, Plain body → u ∉ body := by
    intro body hplain hbody
    rw [hplain.2 u hbody] at hu
    cases hu
  cases h with
  | plain h _ => exact absurd (List.mem_of_mem_tail hmem) (hno h)
  | sequence h =>
      cases (matchControl_spec h).2 with
      | control _ _ => cases hmem
      | @escape body _ hbody =>
          cases hbody with
          | plain hplain _ => exact absurd hmem (hno hplain)
          | alone _ => cases hmem
          | single _ _ =>
              rw [List.mem_singleton.mp hmem]

/-- Where the list of parts is divided, the run behind is even. -/
theorem parts_split {done data : Units} {before after : List Units}
    (h : parts data = before ++ after)
    (hdone : data.head? = some 0x1B → escapes done % 2 = 0) :
    parts after.flatten = after ∧
      (after.flatten.head? = some 0x1B →
        escapes (done ++ before.flatten) % 2 = 0) := by
  induction before generalizing done data with
  | nil =>
      have hdata : after.flatten = data := by
        rw [← parts_flatten data, h, List.nil_append]
      rw [List.flatten_nil, List.append_nil, hdata]
      exact ⟨h, hdone⟩
  | cons part before ih =>
      obtain ⟨rfl, hothers, hpart⟩ := exists_part_of_parts h
      rw [List.flatten_cons, ← List.append_assoc]
      exact ih hothers (hpart.parity hdone)

theorem parts_split_data {data : Units} {before after : List Units}
    (h : parts data = before ++ after) :
    parts after.flatten = after ∧
      (after.flatten.head? = some 0x1B → escapes before.flatten % 2 = 0) := by
  have hnone : escapes [] % 2 = 0 := rfl
  exact parts_split h fun _ => hnone

theorem reach {front rest : Units} {u : Nat} (hhead : rest.head? = some u)
    (hu : control u = true) (heven : escapes front % 2 = 0) :
    ∃ before, parts (front ++ rest) = before ++ parts rest ∧
      before.flatten = front := by
  induction hlength : front.length using Nat.strong_induction_on
    generalizing front with
  | _ n ih =>
      by_cases hfront : front = []
      · subst hfront
        exact ⟨[], rfl, rfl⟩
      · have hne : front ++ rest ≠ [] := by simp [hfront]
        obtain ⟨part, behind, hdata, hpart⟩ := exists_part hne
        obtain ⟨back, rfl, rfl⟩ | ⟨taken, rfl, rfl⟩ :=
          List.append_eq_append_iff.mp hdata
        · by_cases hback : back = []
          · subst hback
            rw [List.append_nil] at hpart
            exact ⟨[front], hpart.parts, by simp⟩
          · exfalso
            obtain ⟨v, back, rfl⟩ := List.exists_cons_of_ne_nil hback
            obtain rfl : v = u := by simpa using hhead
            have hmem : v ∈ (front ++ v :: back).tail := by
              rw [List.tail_append_of_ne_nil hfront]
              simp
            have hpair := hpart.eq_of_control hu hmem
            obtain ⟨w, front, rfl⟩ := List.exists_cons_of_ne_nil hfront
            cases front with
            | nil =>
                obtain ⟨rfl, -⟩ := List.cons.inj hpair
                cases heven
            | cons x front => simp at hpair
        · have htaken : escapes taken % 2 = 0 := by
            rw [escapes_append] at heven
            by_cases hall : ∀ v ∈ taken, v = 0x1B
            · rw [if_pos hall] at heven
              have hself := escapes_append [] taken
              rw [if_pos hall, List.nil_append] at hself
              cases taken with
              | nil => rfl
              | cons v taken =>
                  have hescape : (v :: taken ++ rest).head? = some 0x1B := by
                    simpa using hall v List.mem_cons_self
                  have hpartEven := hpart.even hescape
                  have hzero : escapes [] = 0 := rfl
                  omega
            · rw [if_neg hall] at heven
              exact heven
          have hpos := List.length_pos_iff.mpr hpart.ne_nil
          rw [List.length_append] at hlength
          obtain ⟨before, hparts, hflat⟩ := ih taken.length (by omega) htaken rfl
          refine ⟨part :: before, ?_, by rw [List.flatten_cons, hflat]⟩
          rw [List.append_assoc, hpart.parts, hparts, List.cons_append]

theorem reach_escape {front : Units} (heven : escapes front % 2 = 0) (rest : Units) :
    ∃ before, parts (front ++ 0x1B :: rest) = before ++ parts (0x1B :: rest) := by
  have hescape : control 0x1B = true := rfl
  obtain ⟨before, hparts, -⟩ := reach (List.head?_cons (l := rest)) hescape heven
  exact ⟨before, hparts⟩

/-! ## Parts and keys -/

theorem objectPrototype_names : ∀ name ∈ objectPrototype,
    special.find? (·.1 = name) = none ∧ Plain name := by
  unfold Plain
  decide +kernel

theorem special_characters : ∀ entry ∈ special,
    (Key.named entry.2).characters = some (identified entry.1) := by
  decide +kernel

theorem controlName_characters : ∀ code ∈ List.range 32,
    special.find? (·.1 = [code]) = none → ∀ name ∈ controlName code,
      (Key.named name).characters = some (identified [code]) := by
  decide +kernel

theorem keyOf_control {u : Nat} (hu : control u = true) : (keyOf [u]).isSome = true := by
  have hall : ∀ v ∈ 0x7F :: List.range 32, (keyOf [v]).isSome = true := by
    decide +kernel
  refine hall u ?_
  simp only [control, Bool.or_eq_true, decide_eq_true_eq] at hu
  simp only [List.mem_cons, List.mem_range]
  omega

theorem keyOf_name {name : Units} (h : name ∈ objectPrototype) :
    keyOf name = some (.inherited name) := by
  rw [keyOf, ownOrInherited, (objectPrototype_names name h).1]
  simp [h]

theorem controlName_lt {code : Nat} {name : String} (h : controlName code = some name) :
    code < 32 := by
  by_contra hle
  rw [controlName, if_neg (by omega), if_neg (by omega), if_neg (by omega),
    if_neg (by omega), if_neg (by omega), if_neg (by omega)] at h
  cases h

theorem controlKey_spec {part : Units} {key : Key} (h : controlKey part = some key) :
    ∃ code name, part = [code] ∧ controlName code = some name ∧ key = .named name := by
  unfold controlKey at h
  split at h
  · obtain ⟨name, hname, rfl⟩ := Option.map_eq_some_iff.mp h
    exact ⟨_, name, rfl, hname, rfl⟩
  · cases h

theorem keyOf_spec {part : Units} {key : Key} (h : keyOf part = some key) :
    (key = .inherited part ∧ part ∈ objectPrototype) ∨
      key.characters = some (identified part) := by
  rw [keyOf, ownOrInherited] at h
  cases hspecial : special.find? (·.1 = part) with
  | some entry =>
      rw [hspecial] at h
      obtain rfl := Option.some.inj h
      have hpart : entry.1 = part := by simpa using List.find?_some hspecial
      exact .inr (hpart ▸ special_characters entry (List.mem_of_find?_eq_some hspecial))
  | none =>
      rw [hspecial] at h
      simp only [List.contains_iff_mem] at h
      by_cases hname : part ∈ objectPrototype
      · simp only [if_pos hname, Option.some_or, Option.some.injEq] at h
        exact .inl ⟨h.symm, hname⟩
      · simp only [if_neg hname, Option.none_or] at h
        obtain ⟨code, name, rfl, hcode, rfl⟩ := controlKey_spec h
        have hlt := List.mem_range.mpr (controlName_lt hcode)
        exact .inr (controlName_characters code hlt hspecial name hcode)

theorem Part.identified {part rest : Units} (h : Part part rest)
    (hkey : keyOf part = none) : identified part = part := by
  have hnewline : 0x0A ∉ part := by
    intro hmem
    have hno : ∀ {body : Units}, Plain body → 0x0A ∉ body := by
      intro body hplain hbody
      cases hplain.2 _ hbody
    cases h with
    | plain h _ => exact hno h hmem
    | sequence h =>
        cases (matchControl_spec h).2 with
        | control hu _ =>
            have hsome := keyOf_control hu
            rw [hkey] at hsome
            cases hsome
        | @escape body _ hbody =>
            have htail : 0x0A ∈ body := by simpa using hmem
            cases hbody with
            | plain hplain _ => exact hno hplain htail
            | alone _ => cases htail
            | single _ hdot =>
                obtain rfl := List.mem_singleton.mp htail
                cases hdot
  have hsame : ∀ u ∈ part, (if u = 0x0A then 0x0D else u) = id u := by
    intro u hu
    have hne : u ≠ 0x0A := fun heq => hnewline (heq ▸ hu)
    rw [if_neg hne, id]
  exact (List.map_congr_left hsame).trans (List.map_id part)

theorem Part.eq_of_splitsPair {part rest : Units} (h : Part part rest)
    (hsplit : SplitsPair part rest) :
    ∃ high, part = [0x1B, high] ∧ isHigh high = true := by
  obtain ⟨high, low, hhigh, hlow, hisHigh, hisLow⟩ := hsplit
  have hcontrol : ∀ {u : Nat}, control u = true → isHigh u = false := by
    intro u hu
    simp only [control, isHigh] at hu ⊢
    grind
  cases h with
  | plain _ hrest =>
      have hcontrolled := hrest low hlow
      simp only [control, isLow] at hcontrolled hisLow
      grind
  | sequence h =>
      cases (matchControl_spec h).2 with
      | control hu _ =>
          have hlast := Option.some.inj hhigh
          rw [← hlast] at hisHigh
          cases (hcontrol hu).symm.trans hisHigh
      | @escape body _ hbody =>
          cases hbody with
          | alone _ =>
              obtain rfl := Option.some.inj hhigh
              cases hisHigh
          | single hu _ =>
              have hlast := Option.some.inj hhigh
              rw [← hlast] at hisHigh
              cases (hcontrol hu).symm.trans hisHigh
          | plain hplain hlast =>
              obtain hlast | ⟨u, rfl⟩ := hlast
              · rw [List.getLast?_cons, List.getLast?_eq_some_getLast hplain.1] at hhigh
                have hfalse := hlast high (by
                  rw [List.getLast?_eq_some_getLast hplain.1]
                  exact hhigh)
                rw [hfalse] at hisHigh
                cases hisHigh
              · obtain rfl := Option.some.inj hhigh
                exact ⟨u, rfl, hisHigh⟩

/-! ## Bytes -/

theorem splitsPair_identified {front back : Units} :
    SplitsPair (identified front) (identified back) ↔ SplitsPair front back := by
  have hhalf : ∀ u v : Nat, (isHigh v = true ∨ isLow v = true) →
      ((if u = 0x0A then 0x0D else u) = v ↔ u = v) := by
    intro u v hv
    simp only [isHigh, isLow, Bool.and_eq_true, decide_eq_true_eq] at hv
    split <;> omega
  simp only [SplitsPair, identified, List.getLast?_map, List.head?_map]
  refine exists_congr fun high => exists_congr fun low => ?_
  constructor
  · rintro ⟨hfront, hback, hhigh, hlow⟩
    obtain ⟨u, hu, heq⟩ := Option.map_eq_some_iff.mp hfront
    obtain ⟨v, hv, heq'⟩ := Option.map_eq_some_iff.mp hback
    rw [hhalf u high (.inl hhigh)] at heq
    rw [hhalf v low (.inr hlow)] at heq'
    exact ⟨heq ▸ hu, heq' ▸ hv, hhigh, hlow⟩
  · rintro ⟨hfront, hback, hhigh, hlow⟩
    rw [hfront, hback, Option.map_some, Option.map_some,
      (hhalf high high (.inl hhigh)).mpr rfl, (hhalf low low (.inr hlow)).mpr rfl]
    exact ⟨rfl, rfl, hhigh, hlow⟩

/-! ## Where the condition shows -/

theorem exists_escape_of_odd {front : Units} (h : escapes front % 2 ≠ 0) :
    ∃ earlier, front = earlier ++ [0x1B] ∧ escapes earlier % 2 = 0 := by
  obtain rfl | ⟨earlier, u, rfl⟩ := List.eq_nil_or_concat' front
  · exact absurd rfl h
  · by_cases hu : u = 0x1B
    · subst hu
      refine ⟨earlier, rfl, ?_⟩
      rw [escapes_append, if_pos (by simp), List.length_singleton] at h
      omega
    · rw [escapes_snoc hu] at h
      exact absurd rfl h

theorem parts_escape_control {u : Nat} (hu : control u = true) (hescape : u ≠ 0x1B)
    (rest : Units) :
    ∃ front, parts (0x1B :: u :: rest) = front ++ parts rest := by
  have hself : matchControl ([u] ++ rest) = some ([u], rest) := by
    rw [List.singleton_append, matchControl_other hescape, if_pos hu]
  have hsingle : parts (u :: rest) = [u] :: parts rest := parts_sequence hself
  obtain ⟨body, behind, hdata, hbody, hmatch⟩ := matchControl_escape (u :: rest)
  have hcut : parts (0x1B :: u :: rest) = (0x1B :: body) :: parts behind := by
    rw [hdata, ← List.cons_append] at hmatch
    rw [hdata, ← List.cons_append]
    exact parts_sequence hmatch
  rw [hcut]
  cases hbody with
  | plain hplain _ =>
      obtain ⟨v, body, rfl⟩ := List.exists_cons_of_ne_nil hplain.1
      obtain ⟨rfl, -⟩ := List.cons.inj hdata
      have hfalse := hplain.2 u List.mem_cons_self
      rw [hu] at hfalse
      cases hfalse
  | single _ _ =>
      obtain ⟨rfl, rfl⟩ := List.cons.inj hdata
      exact ⟨[[0x1B, u]], rfl⟩
  | alone _ =>
      obtain rfl := hdata
      exact ⟨[[0x1B], [u]], by rw [hsingle]; rfl⟩

theorem Opens.parts {before rest : Units} (h : Opens before rest) :
    ∃ front, Input.parts (before ++ rest) = front ++ Input.parts rest := by
  obtain rfl | ⟨front, sequence, rfl, hmatch, heven⟩ := h
  · exact ⟨[], rfl⟩
  · have hself := parts_sequence hmatch
    have hat : ∀ u, (sequence ++ rest).head? = some u → control u = true →
        escapes front % 2 = 0 →
        ∃ before, Input.parts (front ++ sequence ++ rest) =
          before ++ Input.parts rest := by
      intro u hhead hu hrun
      obtain ⟨earlier, hparts, -⟩ := reach hhead hu hrun
      refine ⟨earlier ++ [sequence], ?_⟩
      rw [List.append_assoc, hparts, hself, List.append_assoc]
      rfl
    cases (matchControl_spec hmatch).2 with
    | @escape body _ hbody => exact hat 0x1B rfl rfl (heven rfl)
    | @control u _ hu hescape =>
        by_cases hrun : escapes front % 2 = 0
        · exact hat u rfl hu hrun
        · obtain ⟨earlier, rfl, hrest⟩ := exists_escape_of_odd hrun
          obtain ⟨before, hparts⟩ := reach_escape hrest (u :: rest)
          obtain ⟨between, hbetween⟩ := parts_escape_control hu hescape rest
          refine ⟨before ++ between, ?_⟩
          have hdata : earlier ++ [0x1B] ++ [u] ++ rest =
              earlier ++ 0x1B :: u :: rest := by simp
          rw [hdata, hparts, hbetween, List.append_assoc]

theorem InheritedName.mem_parts {data : Units} (h : InheritedName data) :
    ∃ name ∈ objectPrototype, name ∈ parts data := by
  obtain ⟨before, name, after, rfl, hname, hopens, hafter⟩ := h
  obtain ⟨front, hparts⟩ := hopens.parts
  refine ⟨name, hname, ?_⟩
  rw [hparts, parts_plain (objectPrototype_names name hname).2 hafter]
  simp

theorem inheritedName_of_mem {data name : Units} (hname : name ∈ objectPrototype)
    (h : name ∈ parts data) : InheritedName data := by
  obtain ⟨front, back, hparts⟩ := List.append_of_mem h
  have hplain := (objectPrototype_names name hname).2
  have hhead : ∀ u ∈ (name ++ back.flatten).head?, control u = false := by
    intro u hu
    obtain ⟨v, tail, rfl⟩ := List.exists_cons_of_ne_nil hplain.1
    obtain rfl := Option.some.inj hu
    exact hplain.2 _ List.mem_cons_self
  obtain ⟨hback, -⟩ := parts_split_data hparts
  obtain ⟨-, -, hpart⟩ := exists_part_of_parts hback
  have hafter : Controlled back.flatten := by
    cases hpart with
    | plain _ hafter => exact hafter
    | sequence hmatch =>
        rw [matchControl_eq_none.mpr hhead] at hmatch
        cases hmatch
  refine ⟨front.flatten, name, back.flatten, ?_, hname, ?_, hafter⟩
  · rw [← parts_flatten data, hparts, List.flatten_append, List.flatten_cons]
  · obtain rfl | ⟨front, part, rfl⟩ := List.eq_nil_or_concat' front
    · exact .inl rfl
    · have hparts' : parts data = front ++ part :: name :: back := by
        rw [hparts, List.append_assoc]
        rfl
      obtain ⟨hself, heven⟩ := parts_split_data hparts'
      obtain ⟨-, -, hbefore⟩ := exists_part_of_parts hself
      rw [List.flatten_cons] at hbefore
      cases hbefore with
      | plain _ hcontrolled =>
          obtain ⟨u, tail, rfl⟩ := List.exists_cons_of_ne_nil hplain.1
          have hu := hcontrolled u rfl
          rw [hhead u rfl] at hu
          cases hu
      | sequence hmatch =>
          refine .inr ⟨front.flatten, part, by simp, hmatch, fun hescape => heven ?_⟩
          cases part with
          | nil => cases hescape
          | cons u tail => simpa using hescape

theorem PairAfterEscape.splits {data : Units} (h : PairAfterEscape data) :
    ∃ before after, parts data = before ++ after ∧
      SplitsPair before.flatten after.flatten := by
  obtain ⟨before, high, low, after, rfl, heven, hhigh, hlow⟩ := h
  obtain ⟨front, hparts⟩ := reach_escape heven (high :: low :: after)
  have hmatch : matchControl ([0x1B, high] ++ low :: after) =
      some ([0x1B, high], low :: after) := by
    have hbracket : high ≠ 0x5B := by
      rintro rfl
      cases hhigh
    have hshift : high ≠ 0x4F := by
      rintro rfl
      cases hhigh
    have hdot : lineTerminator high = false := by
      simp only [isHigh, lineTerminator] at hhigh ⊢
      grind
    simp [matchControl, bracketed, shifted, anyUnit, hbracket, hshift, hdot]
  have hcut : parts (0x1B :: high :: low :: after) =
      [0x1B, high] :: parts (low :: after) := parts_sequence hmatch
  refine ⟨front ++ [[0x1B, high]], parts (low :: after), ?_, high, low, ?_, ?_,
    hhigh, hlow⟩
  · rw [hparts, hcut, List.append_assoc]
    rfl
  · simp
  · rw [parts_flatten]
    rfl

theorem pairAfterEscape_of_splits {data : Units} {before after : List Units}
    (h : parts data = before ++ after)
    (hsplit : SplitsPair before.flatten after.flatten) : PairAfterEscape data := by
  obtain rfl | ⟨before, part, rfl⟩ := List.eq_nil_or_concat' before
  · obtain ⟨high, low, hhigh, -⟩ := hsplit
    cases hhigh
  · rw [List.append_assoc] at h
    obtain ⟨hself, heven⟩ := parts_split_data h
    obtain ⟨-, -, hpart⟩ := exists_part_of_parts hself
    have hhere : SplitsPair part after.flatten := by
      obtain ⟨high, low, hhigh, hrest⟩ := hsplit
      refine ⟨high, low, ?_, hrest⟩
      rw [List.flatten_append, List.flatten_singleton,
        List.getLast?_append_of_ne_nil _ hpart.ne_nil] at hhigh
      exact hhigh
    obtain ⟨high, rfl, hhigh⟩ := hpart.eq_of_splitsPair hhere
    obtain ⟨-, low, -, hlow, -, hisLow⟩ := hhere
    obtain ⟨tail, hafter⟩ : ∃ tail, after.flatten = low :: tail :=
      List.head?_eq_some_iff.mp hlow
    refine ⟨before.flatten, high, low, tail, ?_, heven rfl, hhigh, hisLow⟩
    rw [← parts_flatten data, h]
    simp [hafter]

/-! ## What is sent is what was typed -/

theorem part_of_mem {data part : Units} (h : part ∈ parts data) :
    ∃ rest, Part part rest := by
  obtain ⟨before, after, hparts⟩ := List.append_of_mem h
  obtain ⟨hself, -⟩ := parts_split_data hparts
  exact ⟨_, (exists_part_of_parts hself).2.2⟩

theorem tokenOf_characters {data : Units} (h : ¬ InheritedName data) {part : Units}
    (hmem : part ∈ parts data) :
    (tokenOf part).characters = some (identified part) := by
  obtain ⟨rest, hpart⟩ := part_of_mem hmem
  rw [tokenOf]
  cases hkey : keyOf part with
  | none =>
      change some part = _
      rw [hpart.identified hkey]
  | some key =>
      obtain ⟨-, hname⟩ | hcharacters := keyOf_spec hkey
      · exact absurd (inheritedName_of_mem hname hmem) h
      · exact hcharacters

theorem spelled_parts {data : Units} (h : ¬ InheritedName data) :
    List.Forall₂ (fun token piece => token.characters = some piece)
      (terminalInputTokens data) ((parts data).map identified) := by
  rw [terminalInputTokens, List.forall₂_map_left_iff, List.forall₂_map_right_iff,
    List.forall₂_same]
  exact fun part hmem => tokenOf_characters h hmem

theorem flatten_identified (pieces : List Units) :
    (pieces.map identified).flatten = identified pieces.flatten := by
  rw [identified, List.map_flatten]
  rfl

theorem text_of_mem {data text : Units} (h : .text text ∈ terminalInputTokens data) :
    (∀ u ∈ text, control u = false) ∨ (EscapeSequence text ∧ keyOf text = none) := by
  obtain ⟨part, hmem, htoken⟩ := List.mem_map.mp h
  rw [tokenOf] at htoken
  cases hkey : keyOf part with
  | some key =>
      rw [hkey] at htoken
      cases htoken
  | none =>
      rw [hkey] at htoken
      obtain rfl := Token.text.inj htoken
      obtain ⟨rest, hpart⟩ := part_of_mem hmem
      cases hpart with
      | plain hplain _ => exact .inl hplain.2
      | sequence hmatch =>
          refine .inr ⟨⟨?_, rest, hmatch⟩, hkey⟩
          cases (matchControl_spec hmatch).2 with
          | escape _ => rfl
          | control hu _ =>
              have hsome := keyOf_control hu
              rw [hkey] at hsome
              cases hsome

theorem lossless_parts {data : Units} (hname : ¬ InheritedName data)
    (hpair : ¬ PairAfterEscape data) : Lossless data ((parts data).map identified) := by
  have hwhole : ((parts data).map identified).flatten = identified data := by
    rw [flatten_identified, parts_flatten]
  have hunbroken : ∀ before after, (parts data).map identified = before ++ after →
      ¬ SplitsPair before.flatten after.flatten := by
    intro before after heq hsplit
    obtain ⟨front, back, hparts, rfl, rfl⟩ := List.map_eq_append_iff.mp heq
    rw [flatten_identified, flatten_identified, splitsPair_identified] at hsplit
    exact hpair (pairAfterEscape_of_splits hparts hsplit)
  refine ⟨spelled_parts hname, hwhole, ?_, fun text => text_of_mem, hunbroken, ?_⟩
  · intro piece hmem
    obtain ⟨part, hpart, rfl⟩ := List.mem_map.mp hmem
    simpa [identified] using parts_ne_nil hpart
  · rw [utf8_flatten hunbroken, hwhole]

theorem exists_piece {tokens : List Token} {pieces : List Units}
    (h : List.Forall₂ (fun token piece => token.characters = some piece) tokens pieces)
    {token : Token} (hmem : token ∈ tokens) : ∃ piece, token.characters = some piece := by
  induction h with
  | nil => cases hmem
  | cons hhead _ ih =>
      obtain rfl | htail := List.mem_cons.mp hmem
      · exact ⟨_, hhead⟩
      · exact ih htail

theorem Lossless.not_inheritedName {data : Units} {pieces : List Units}
    (h : Lossless data pieces) : ¬ InheritedName data := by
  intro hname
  obtain ⟨name, hname, hmem⟩ := hname.mem_parts
  have htoken : Token.key (.inherited name) ∈ terminalInputTokens data := by
    refine List.mem_map.mpr ⟨name, hmem, ?_⟩
    rw [tokenOf, keyOf_name hname]
  obtain ⟨piece, hpiece⟩ := exists_piece h.spelled htoken
  cases hpiece

theorem Lossless.not_pairAfterEscape {data : Units} {pieces : List Units}
    (h : Lossless data pieces) : ¬ PairAfterEscape data := by
  intro hpair
  obtain ⟨before, after, hparts, hsplit⟩ := hpair.splits
  have hunique : Relator.RightUnique
      fun (token : Token) piece => token.characters = some piece :=
    fun _ _ _ hfirst hsecond => Option.some.inj (hfirst.symm.trans hsecond)
  have hpieces : pieces = (parts data).map identified :=
    List.right_unique_forall₂' hunique h.spelled (spelled_parts h.not_inheritedName)
  refine h.unbroken (before.map identified) (after.map identified) ?_ ?_
  · rw [hpieces, hparts, List.map_append]
  · rw [flatten_identified, flatten_identified, splitsPair_identified]
    exact hsplit

/--
What is sent spells what was typed exactly when no part of the input is a name that
the table of keys inherits, and no pair stands behind an escape that takes half of it.
-/
theorem input_lossless_iff (data : Units) :
    (∃ pieces, Lossless data pieces) ↔
      ¬ InheritedName data ∧ ¬ PairAfterEscape data := by
  constructor
  · rintro ⟨pieces, h⟩
    exact ⟨h.not_inheritedName, h.not_pairAfterEscape⟩
  · rintro ⟨hname, hpair⟩
    exact ⟨_, lossless_parts hname hpair⟩

/-- Escape and a face; and a pasted method name. -/
theorem input_not_lossless :
    (¬ ∃ pieces, Lossless (units "\x1b😀") pieces) ∧
      ¬ ∃ pieces, Lossless (units "toString") pieces := by
  constructor
  · rintro ⟨pieces, h⟩
    exact h.not_pairAfterEscape ⟨[], 0xD83D, 0xDE00, [], by decide⟩
  · rintro ⟨pieces, h⟩
    refine h.not_inheritedName ⟨[], units "toString", [], ?_, ?_, .inl rfl, ?_⟩
    · decide
    · decide
    · decide

example : terminalInputTokens (units "abc\t\x04\x1b[A\x1bOP\r") =
    [.text (units "abc"), .key (.named "Tab"), .key (.named "C-d"),
      .key (.named "Up"), .key (.named "F1"), .key (.named "Enter")] := by
  decide +kernel

end OrcState.Terminal.Input
