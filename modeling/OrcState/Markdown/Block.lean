import OrcState.Markdown.Frontmatter

/-!
# The lines of a frontmatter block

A block is its lines, each with its own ending, between an opening and a closing.
It is parsed line by line, in order, whatever the endings are.
-/

namespace OrcState.Markdown

open OrcState.Foundation OrcState.Foundation.Json

def closes (text : Units) : Prop := dashes text = some []

instance (text : Units) : Decidable (closes text) :=
  inferInstanceAs (Decidable (_ = _))

structure Inside (text : Units) : Prop where
  single : ∀ u ∈ text, u ≠ 0x0A
  unreturned : text.getLast? ≠ some 0x0D
  notClosing : ¬ closes text

structure BlockLine where
  text : Units
  crlf : Bool
  inside : Inside text

def ending (crlf : Bool) : Units := if crlf then [0x0D, 0x0A] else [0x0A]

/-! ## Line ends -/

theorem newline_ending (crlf : Bool) (rest : Units) :
    newline (ending crlf ++ rest) = some rest := by
  cases crlf <;> rfl

theorem newline_inside {u : Nat} {text rest : Units}
    (hsingle : ∀ x ∈ u :: text, x ≠ 0x0A)
    (hreturn : text = [] → u = 0x0D → rest.head? ≠ some 0x0A) :
    newline (u :: text ++ rest) = none := by
  have hu : u ≠ 0x0A := hsingle u List.mem_cons_self
  rw [List.cons_append, newline.eq_def]
  split
  · next heq =>
      obtain ⟨rfl, htail⟩ := List.cons.inj heq
      cases text with
      | nil =>
          refine absurd ?_ (hreturn rfl rfl)
          rw [List.nil_append] at htail
          rw [htail]
          rfl
      | cons v text =>
          rw [List.cons_append] at htail
          have hv : v ≠ 0x0A :=
            hsingle v (List.mem_cons_of_mem _ List.mem_cons_self)
          exact absurd (List.cons.inj htail).1 hv
  · next heq => exact absurd (List.cons.inj heq).1 hu
  · rfl

theorem closing_eq_none {text : Units} (h : newline text = none) :
    closing text = none := by
  rw [closing, h]
  rfl

theorem upToClosing_line {text rest : Units} (hsingle : ∀ x ∈ text, x ≠ 0x0A)
    (hreturn : text.getLast? = some 0x0D → rest.head? ≠ some 0x0A) :
    upToClosing (text ++ rest) =
      (upToClosing rest).map fun found => (text ++ found.1, found.2) := by
  induction text with
  | nil => cases h : upToClosing rest <;> simp [h]
  | cons u text ih =>
      have hrest : text.getLast? = some 0x0D → rest.head? ≠ some 0x0A := by
        intro hlast
        refine hreturn ?_
        rw [List.getLast?_cons, hlast]
        rfl
      have hnone : closing (u :: text ++ rest) = none := by
        refine closing_eq_none (newline_inside hsingle fun hnil hu => hreturn ?_)
        rw [hnil, hu]
        rfl
      rw [List.cons_append] at hnone ⊢
      rw [upToClosing, hnone,
        ih (fun x hx => hsingle x (List.mem_cons_of_mem u hx)) hrest]
      simp only [Option.map_map]
      rfl

theorem upToClosing_ending (crlf : Bool) {rest : Units}
    (h : (dashes rest).bind lineEnd = none) :
    upToClosing (ending crlf ++ rest) =
      (upToClosing rest).map fun found => (ending crlf ++ found.1, found.2) := by
  have hlf : closing (0x0A :: rest) = none := h
  cases crlf with
  | false =>
      change upToClosing (0x0A :: rest) = _
      rw [upToClosing, hlf]
      rfl
  | true =>
      have hcrlf : closing (0x0D :: 0x0A :: rest) = none := h
      change upToClosing (0x0D :: 0x0A :: rest) = _
      rw [upToClosing, hcrlf, upToClosing, hlf]
      simp only [Option.map_map]
      rfl

theorem upToClosing_closed (crlf : Bool) {rest behind : Units}
    (h : (dashes rest).bind lineEnd = some behind) :
    upToClosing (ending crlf ++ rest) = some ([], behind) := by
  cases crlf with
  | false =>
      have hlf : closing (0x0A :: rest) = some behind := h
      change upToClosing (0x0A :: rest) = _
      rw [upToClosing, hlf]
  | true =>
      have hcrlf : closing (0x0D :: 0x0A :: rest) = some behind := h
      change upToClosing (0x0D :: 0x0A :: rest) = _
      rw [upToClosing, hcrlf]

theorem dashes_short {text : Units} (hshort : text.length < 3) (crlf : Bool)
    (rest : Units) : dashes (text ++ (ending crlf ++ rest)) = none := by
  have hdash : ∀ more, ending crlf ++ rest ≠ 0x2D :: more := by
    intro more
    cases crlf <;> simp [ending]
  rw [dashes.eq_def]
  split
  · next heq =>
      match text, hshort with
      | [], _ => exact absurd heq (hdash _)
      | [a], _ => exact absurd (List.cons.inj heq).2 (hdash _)
      | [a, b], _ =>
          exact absurd (List.cons.inj (List.cons.inj heq).2).2 (hdash _)
  · rfl

theorem Inside.not_closing {text : Units} (h : Inside text) (crlf : Bool)
    (rest : Units) :
    (dashes (text ++ (ending crlf ++ rest))).bind lineEnd = none := by
  by_cases hshort : text.length < 3
  · rw [dashes_short hshort]
    rfl
  · obtain ⟨a, b, c, tail, rfl⟩ : ∃ a b c tail, text = a :: b :: c :: tail := by
      rcases text with _ | ⟨a, _ | ⟨b, _ | ⟨c, tail⟩⟩⟩
      · exact absurd (by simp) hshort
      · exact absurd (by simp) hshort
      · exact absurd (by simp) hshort
      · exact ⟨a, b, c, tail, rfl⟩
    rw [dashes.eq_def]
    split
    · next heq =>
        simp only [List.cons_append, List.cons.injEq] at heq
        obtain ⟨rfl, rfl, rfl, rfl⟩ := heq
        have hopen : tail.dropWhile (fun u => u = 0x20 || u = 0x09) ≠ [] := by
          intro hnil
          exact h.notClosing (congrArg some hnil)
        obtain ⟨u, more, hmore⟩ := List.exists_cons_of_ne_nil hopen
        have hsuffix : u :: more <:+ tail := hmore ▸ List.dropWhile_suffix _
        have hsingle : ∀ x ∈ u :: more, x ≠ 0x0A := fun x hx =>
          h.single x (by simp [hsuffix.subset hx])
        have hlast : more = [] → u = 0x0D →
            (ending crlf ++ rest).head? ≠ some 0x0A := by
          rintro rfl rfl
          refine absurd ?_ h.unreturned
          obtain ⟨init, rfl⟩ := hsuffix
          simp [List.getLast?_cons, List.getLast?_append]
        have hdrop : (tail ++ (ending crlf ++ rest)).dropWhile
            (fun u => u = 0x20 || u = 0x09) =
              u :: more ++ (ending crlf ++ rest) := by
          rw [List.dropWhile_append, hmore]
          rfl
        rw [hdrop, Option.bind_some, lineEnd, if_neg (by simp)]
        exact newline_inside hsingle hlast
    · rfl

/-! ## The block and its lines -/

def BlockLine.render (line : BlockLine) : Units := line.text ++ ending line.crlf

def blockOf : List BlockLine → Units
  | [] => []
  | [line] => line.text
  | line :: next :: rest => line.render ++ blockOf (next :: rest)

theorem getLast?_ne_of_inside {text : Units} (h : Inside text) {rest : Units} :
    text.getLast? = some 0x0D → rest.head? ≠ some 0x0A := fun hlast =>
  absurd hlast h.unreturned

/-- The block found is the one that was put between the opening and the closing. -/
theorem upToClosing_block {lines : List BlockLine} (hlines : lines ≠ [])
    {close behind : Units} (hclose : (dashes close).bind lineEnd = some behind) :
    upToClosing (lines.flatMap BlockLine.render ++ close) =
      some (blockOf lines, behind) := by
  induction lines with
  | nil => exact absurd rfl hlines
  | cons line rest ih =>
      rw [List.flatMap_cons, BlockLine.render, List.append_assoc, List.append_assoc,
        upToClosing_line line.inside.single (getLast?_ne_of_inside line.inside)]
      cases rest with
      | nil =>
          rw [List.flatMap_nil, List.nil_append,
            upToClosing_closed line.crlf hclose]
          simp [blockOf]
      | cons next more =>
          have hnot : (dashes ((next :: more).flatMap BlockLine.render ++
              close)).bind lineEnd = none := by
            rw [List.flatMap_cons, BlockLine.render, List.append_assoc,
              List.append_assoc]
            exact next.inside.not_closing next.crlf _
          rw [upToClosing_ending line.crlf hnot, ih (by simp)]
          simp [blockOf, BlockLine.render]

theorem splitLines_single {text : Units} (hsingle : ∀ x ∈ text, x ≠ 0x0A) :
    splitLines text = [text] := by
  induction text with
  | nil => rfl
  | cons u text ih =>
      have hu : u ≠ 0x0A := hsingle u List.mem_cons_self
      rw [splitLines.eq_def]
      split
      · next heq => cases heq
      · next heq =>
          have hmem : (0x0A : Nat) ∈ u :: text := by
            rw [heq]
            simp
          exact absurd rfl (hsingle _ hmem)
      · next heq => exact absurd (List.cons.inj heq).1 hu
      · next heq =>
          obtain ⟨rfl, rfl⟩ := List.cons.inj heq
          rw [ih fun x hx => hsingle x (List.mem_cons_of_mem _ hx)]
          rfl

theorem splitLines_cons {u : Nat} {text : Units} (hu : u ≠ 0x0A)
    (hreturn : u = 0x0D → text.head? ≠ some 0x0A) :
    splitLines (u :: text) = (splitLines text).modifyHead (u :: ·) := by
  rw [splitLines.eq_def]
  split
  · next heq => cases heq
  · next heq =>
      obtain ⟨rfl, rfl⟩ := List.cons.inj heq
      exact absurd rfl (hreturn rfl)
  · next heq => exact absurd (List.cons.inj heq).1 hu
  · next heq =>
      obtain ⟨rfl, rfl⟩ := List.cons.inj heq
      rfl

theorem splitLines_line {text : Units} (hsingle : ∀ x ∈ text, x ≠ 0x0A)
    {crlf : Bool} (hreturn : crlf = false → text.getLast? ≠ some 0x0D)
    (rest : Units) :
    splitLines (text ++ (ending crlf ++ rest)) = text :: splitLines rest := by
  induction text with
  | nil => cases crlf <;> rfl
  | cons u text ih =>
      have hrest : crlf = false → text.getLast? ≠ some 0x0D := by
        intro hlf hlast
        refine hreturn hlf ?_
        rw [List.getLast?_cons, hlast]
        rfl
      have hnext : u = 0x0D → (text ++ (ending crlf ++ rest)).head? ≠
          some 0x0A := by
        rintro rfl
        cases text with
        | nil =>
            cases crlf with
            | false => exact absurd rfl (hreturn rfl)
            | true => exact fun h => nomatch h
        | cons v text =>
            intro hhead
            exact hsingle v (by simp) (Option.some.inj hhead)
      rw [List.cons_append, splitLines_cons (hsingle u List.mem_cons_self) hnext,
        ih (fun x hx => hsingle x (List.mem_cons_of_mem u hx)) hrest]
      rfl

theorem first_line {text : Units} (hsingle : ∀ x ∈ text, x ≠ 0x0A) {crlf : Bool}
    (hreturn : crlf = false → text.getLast? ≠ some 0x0D) {rest block behind : Units}
    (h : upToClosing (text ++ (ending crlf ++ rest)) = some (block, behind)) :
    ∃ lines, splitLines block = text :: lines := by
  have hhead : text.getLast? = some 0x0D →
      (ending crlf ++ rest).head? ≠ some 0x0A := by
    intro hlast
    cases crlf with
    | false => exact absurd hlast (hreturn rfl)
    | true => exact fun h => nomatch h
  rw [upToClosing_line hsingle hhead, Option.map_eq_some_iff] at h
  obtain ⟨found, hfound, heq⟩ := h
  obtain ⟨rfl, -⟩ := Prod.mk.inj heq
  cases hclose : (dashes rest).bind lineEnd with
  | some behind' =>
      rw [upToClosing_closed crlf hclose] at hfound
      cases hfound
      refine ⟨[], ?_⟩
      rw [List.append_nil]
      exact splitLines_single hsingle
  | none =>
      rw [upToClosing_ending crlf hclose, Option.map_eq_some_iff] at hfound
      obtain ⟨found', -, rfl⟩ := hfound
      exact ⟨_, splitLines_line hsingle hreturn found'.1⟩

theorem splitLines_block {lines : List BlockLine} (hlines : lines ≠ []) :
    splitLines (blockOf lines) = lines.map BlockLine.text := by
  induction lines with
  | nil => exact absurd rfl hlines
  | cons line rest ih =>
      cases rest with
      | nil => exact splitLines_single line.inside.single
      | cons next more =>
          rw [blockOf, BlockLine.render, List.append_assoc,
            splitLines_line line.inside.single fun _ => line.inside.unreturned,
            ih (by simp)]
          rfl

/-! ## A text around the block -/

/-- Everything in a text but one line of its block. -/
structure Surroundings where
  blanks : Units
  blank : ∀ u ∈ blanks, u = 0x20 ∨ u = 0x09
  openCrlf : Bool
  before : List BlockLine
  after : List BlockLine
  crlf : Bool
  close : Units
  closed : ((dashes close).bind lineEnd).isSome = true

def Surroundings.opening (s : Surroundings) : Units :=
  [0x2D, 0x2D, 0x2D] ++ (s.blanks ++ ending s.openCrlf)

def Surroundings.text (s : Surroundings) (line : Units) : Units :=
  s.opening ++ (s.before.flatMap BlockLine.render ++
    (line ++ (ending s.crlf ++ (s.after.flatMap BlockLine.render ++ s.close))))

theorem opening_eq (s : Surroundings) (rest : Units) :
    (dashes (s.opening ++ rest)).bind newline = some rest := by
  have hblank : ∀ u ∈ s.blanks, (decide (u = 0x20) || decide (u = 0x09)) = true := by
    intro u hu
    simpa using s.blank u hu
  have hending : (ending s.openCrlf ++ rest).dropWhile
      (fun u => u = 0x20 || u = 0x09) = ending s.openCrlf ++ rest := by
    cases s.openCrlf <;> rfl
  have hdashes : dashes (s.opening ++ rest) =
      some ((s.blanks ++ (ending s.openCrlf ++ rest)).dropWhile
        fun u => u = 0x20 || u = 0x09) := by
    rw [Surroundings.opening, List.append_assoc, List.append_assoc]
    rfl
  rw [hdashes, List.dropWhile_append_of_pos hblank, hending]
  exact newline_ending _ _

def Surroundings.outcome (s : Surroundings) (source line : Units) :
    Option (Frontmatter × Units) :=
  (parseFrontmatter (s.text line) source).toOption.join

def Surroundings.body (s : Surroundings) : Units :=
  (newline (((dashes s.close).bind lineEnd).getD [])).getD
    (((dashes s.close).bind lineEnd).getD [])

theorem outcome_eq (s : Surroundings) (source : Units) {line : Units}
    (h : Inside line) : s.outcome source line =
      (parseLines source {} (s.before.map BlockLine.text ++ line ::
        s.after.map BlockLine.text)).toOption.map fun r =>
          (r.frontmatter, s.body) := by
  obtain ⟨behind, hbehind⟩ := Option.isSome_iff_exists.mp s.closed
  have htext : s.text line = s.opening ++ ((s.before ++
      { text := line, crlf := s.crlf, inside := h } :: s.after).flatMap
        BlockLine.render ++ s.close) := by
    simp [Surroundings.text, BlockLine.render]
  have hblock : ((dashes (s.text line)).bind newline).bind upToClosing =
      some (blockOf (s.before ++
        { text := line, crlf := s.crlf, inside := h } :: s.after), behind) := by
    rw [htext, opening_eq, Option.bind_some,
      upToClosing_block (by simp) hbehind]
  rw [Surroundings.outcome, parseFrontmatter, hblock]
  simp only [splitLines_block (by simp : s.before ++
    { text := line, crlf := s.crlf, inside := h } :: s.after ≠ []),
    List.map_append, List.map_cons, Surroundings.body, hbehind, Option.getD_some]
  cases parseLines source {} _ <;> rfl

end OrcState.Markdown
