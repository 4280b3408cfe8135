import OrcState.Foundation.JsonValue
import OrcState.Markdown.Frontmatter

/-!
# Frames from a byte stream

`JsonLineDecoder` keeps what follows the last newline it has seen and returns, for
each chunk, the JSON objects on the lines that the chunk completes.  Against it
stands the text as a whole: its lines that end in a newline, each read by itself.
-/

namespace OrcState.Provider

open OrcState.Foundation OrcState.Foundation.Json
open OrcState.Markdown (trim)

/-! ## The decoder -/

/-- The object on a line, if that is what the line holds. -/
def frameOf (line : Units) : Option Value :=
  if trim line = [] then none
  else
    match parseText (trim line) with
    | some (.object fields) => some (.object fields)
    | _ => none

def cutLine : Units → Option (Units × Units)
  | [] => none
  | u :: rest =>
      if u = 0x0A then some ([], rest)
      else (cutLine rest).map fun cut => (u :: cut.1, cut.2)

theorem cutLine_eq_some {buffer line rest : Units} :
    cutLine buffer = some (line, rest) ↔
      0x0A ∉ line ∧ buffer = line ++ 0x0A :: rest := by
  induction buffer generalizing line with
  | nil => simp [cutLine]
  | cons u buffer ih =>
      by_cases hu : u = 0x0A
      · subst hu
        simp only [cutLine, if_true, Option.some.injEq, Prod.mk.injEq]
        constructor
        · rintro ⟨rfl, rfl⟩
          simp
        · rintro ⟨hline, heq⟩
          cases line with
          | nil => simpa using heq
          | cons v line =>
              simp only [List.cons_append, List.cons.injEq] at heq
              exact absurd (heq.1 ▸ List.mem_cons_self) hline
      · simp only [cutLine, hu, if_false, Option.map_eq_some_iff, Prod.exists,
          Prod.mk.injEq]
        constructor
        · rintro ⟨line, _, hcut, rfl, rfl⟩
          obtain ⟨hline, rfl⟩ := ih.mp hcut
          refine ⟨?_, rfl⟩
          simp [hline, Ne.symm hu]
        · rintro ⟨hline, heq⟩
          cases line with
          | nil =>
              simp only [List.nil_append, List.cons.injEq] at heq
              exact absurd heq.1 hu
          | cons v line =>
              simp only [List.cons_append, List.cons.injEq] at heq
              obtain ⟨rfl, rfl⟩ := heq
              refine ⟨line, rest, ih.mpr ⟨?_, rfl⟩, rfl, rfl⟩
              exact fun h => hline (List.mem_cons_of_mem _ h)

theorem cutLine_eq_none {buffer : Units} :
    cutLine buffer = none ↔ 0x0A ∉ buffer := by
  induction buffer with
  | nil => simp [cutLine]
  | cons u buffer ih =>
      by_cases hu : u = 0x0A
      · simp [cutLine, hu]
      · simp [cutLine, hu, ih, Ne.symm hu]

theorem length_cutLine {buffer line rest : Units}
    (h : cutLine buffer = some (line, rest)) : rest.length < buffer.length := by
  obtain ⟨-, rfl⟩ := cutLine_eq_some.mp h
  simp only [List.length_append, List.length_cons]
  omega

/-- The `while` loop: the frames it collects, and the buffer it leaves. -/
def drain (buffer : Units) : List Value × Units :=
  match hcut : cutLine buffer with
  | none => ([], buffer)
  | some (line, rest) =>
      have := length_cutLine hcut
      ((frameOf line).toList ++ (drain rest).1, (drain rest).2)
termination_by buffer.length

structure JsonLineDecoder where
  buffer : Units := []

def JsonLineDecoder.push (decoder : JsonLineDecoder) (chunk : Units) :
    List Value × JsonLineDecoder :=
  let drained := drain (decoder.buffer ++ chunk)
  (drained.1, { buffer := drained.2 })

def JsonLineDecoder.pushAll (decoder : JsonLineDecoder) :
    List Units → List Value × JsonLineDecoder
  | [] => ([], decoder)
  | chunk :: rest =>
      let pushed := decoder.push chunk
      let others := pushed.2.pushAll rest
      (pushed.1 ++ others.1, others.2)

/-! ## The whole text -/

def terminatedLines (text : Units) : List Units := (text.splitOn 0x0A).dropLast

def afterLastNewline (text : Units) : Units := (text.splitOn 0x0A).getLast?.getD []

def framesOf (text : Units) : List Value := (terminatedLines text).filterMap frameOf

theorem framesOf_open {text : Units} (h : 0x0A ∉ text) :
    framesOf text = [] ∧ afterLastNewline text = text := by
  have hsplit : text.splitOn 0x0A = [text] := List.splitOn_eq_singleton h
  simp [framesOf, terminatedLines, afterLastNewline, hsplit]

theorem terminatedLines_newline (front rest : Units) :
    terminatedLines (front ++ 0x0A :: rest) =
      front.splitOn 0x0A ++ terminatedLines rest := by
  rw [terminatedLines, terminatedLines, List.splitOn_append_cons_self,
    List.dropLast_append_of_ne_nil (List.splitOn_ne_nil _ _)]

theorem framesOf_newline (front rest : Units) :
    framesOf (front ++ 0x0A :: rest) =
      framesOf (front ++ [0x0A]) ++ framesOf rest := by
  have hnone : terminatedLines [] = [] := rfl
  rw [framesOf, framesOf, framesOf, terminatedLines_newline front rest,
    terminatedLines_newline front [], hnone, List.append_nil, List.filterMap_append]

theorem framesOf_line {line : Units} (h : 0x0A ∉ line) (rest : Units) :
    framesOf (line ++ 0x0A :: rest) = (frameOf line).toList ++ framesOf rest := by
  have hline : line.splitOn 0x0A = [line] := List.splitOn_eq_singleton h
  have hone : [line].filterMap frameOf = (frameOf line).toList := by
    cases hframe : frameOf line with
    | none => simp [hframe]
    | some frame => simp [hframe]
  rw [framesOf, framesOf, terminatedLines_newline, hline, List.filterMap_append, hone]

theorem afterLastNewline_newline (front rest : Units) :
    afterLastNewline (front ++ 0x0A :: rest) = afterLastNewline rest := by
  have hrest : rest.splitOn 0x0A ≠ [] := List.splitOn_ne_nil _ _
  rw [afterLastNewline, afterLastNewline, List.splitOn_append_cons_self,
    List.getLast?_append_of_ne_nil _ hrest]

theorem not_mem_afterLastNewline (text : Units) : 0x0A ∉ afterLastNewline text := by
  induction hlength : text.length using Nat.strong_induction_on generalizing text with
  | _ n ih =>
      cases hcut : cutLine text with
      | none =>
          have hopen := cutLine_eq_none.mp hcut
          rw [(framesOf_open hopen).2]
          exact hopen
      | some cut =>
          obtain ⟨line, rest⟩ := cut
          have hshorter := length_cutLine hcut
          obtain ⟨-, rfl⟩ := cutLine_eq_some.mp hcut
          rw [afterLastNewline_newline]
          exact ih rest.length (hlength ▸ hshorter) rest rfl

/-! ## The decoder on the whole text -/

theorem drain_eq (buffer : Units) :
    drain buffer = (framesOf buffer, afterLastNewline buffer) := by
  fun_induction drain buffer with
  | case1 buffer hcut =>
      obtain ⟨hframes, hafter⟩ := framesOf_open (cutLine_eq_none.mp hcut)
      rw [hframes, hafter]
  | case2 buffer line rest hcut _ ih =>
      obtain ⟨hline, rfl⟩ := cutLine_eq_some.mp hcut
      rw [ih, framesOf_line hline, afterLastNewline_newline]

/-- What is left of one piece is read together with the next. -/
theorem framesOf_append (front back : Units) :
    framesOf (front ++ back) =
        framesOf front ++ framesOf (afterLastNewline front ++ back) ∧
      afterLastNewline (front ++ back) =
        afterLastNewline (afterLastNewline front ++ back) := by
  induction hlength : front.length using Nat.strong_induction_on
    generalizing front with
  | _ n ih =>
      cases hcut : cutLine front with
      | none =>
          obtain ⟨hframes, hafter⟩ := framesOf_open (cutLine_eq_none.mp hcut)
          rw [hframes, hafter]
          exact ⟨rfl, rfl⟩
      | some cut =>
          obtain ⟨line, rest⟩ := cut
          have hshorter := length_cutLine hcut
          obtain ⟨hline, rfl⟩ := cutLine_eq_some.mp hcut
          obtain ⟨hframes, hafter⟩ := ih rest.length (hlength ▸ hshorter) rest rfl
          rw [List.append_assoc, List.cons_append, framesOf_line hline,
            framesOf_line hline, afterLastNewline_newline, afterLastNewline_newline,
            hframes, hafter, List.append_assoc]
          exact ⟨rfl, rfl⟩

theorem pushAll_eq {decoder : JsonLineDecoder} (h : 0x0A ∉ decoder.buffer)
    (chunks : List Units) :
    decoder.pushAll chunks =
      (framesOf (decoder.buffer ++ chunks.flatten),
        ⟨afterLastNewline (decoder.buffer ++ chunks.flatten)⟩) := by
  induction chunks generalizing decoder with
  | nil =>
      obtain ⟨hframes, hafter⟩ := framesOf_open h
      rw [List.flatten_nil, List.append_nil, hframes, hafter]
      rfl
  | cons chunk rest ih =>
      have hpush : decoder.push chunk = (framesOf (decoder.buffer ++ chunk),
          ⟨afterLastNewline (decoder.buffer ++ chunk)⟩) := by
        rw [JsonLineDecoder.push, drain_eq]
      have hopen : 0x0A ∉
          (⟨afterLastNewline (decoder.buffer ++ chunk)⟩ : JsonLineDecoder).buffer :=
        not_mem_afterLastNewline _
      have hrest := ih hopen
      obtain ⟨hframes, hafter⟩ :=
        framesOf_append (decoder.buffer ++ chunk) rest.flatten
      rw [List.flatten_cons, ← List.append_assoc, hframes, hafter]
      simp only [JsonLineDecoder.pushAll, hpush, hrest]

/--
Whatever the chunks are, the frames are the objects on the terminated lines of the
text and the buffer is what follows the last newline; so another cut of the text
gives the same, and no line has a part in the frames of the others.
-/
theorem frames_of_chunks (chunks : List Units) :
    JsonLineDecoder.pushAll {} chunks =
        (framesOf chunks.flatten, ⟨afterLastNewline chunks.flatten⟩) ∧
      (∀ others : List Units, others.flatten = chunks.flatten →
        JsonLineDecoder.pushAll {} others = JsonLineDecoder.pushAll {} chunks) ∧
      ∀ front line back, chunks.flatten = front ++ 0x0A :: (line ++ 0x0A :: back) →
        0x0A ∉ line → (JsonLineDecoder.pushAll {} chunks).1 =
          framesOf (front ++ [0x0A]) ++ (frameOf line).toList ++ framesOf back := by
  have hwhole : ∀ pieces : List Units, JsonLineDecoder.pushAll {} pieces =
      (framesOf pieces.flatten, ⟨afterLastNewline pieces.flatten⟩) :=
    fun pieces => pushAll_eq List.not_mem_nil pieces
  refine ⟨hwhole chunks, fun others hsame => ?_, fun front line back htext hline => ?_⟩
  · rw [hwhole, hwhole, hsame]
  · rw [hwhole, htext, framesOf_newline, framesOf_line hline, List.append_assoc]

/-- A frame cut in two. -/
theorem frames_of_chunks_split :
    JsonLineDecoder.pushAll {} [[0x7B], [], [0x7D, 0x0A]] =
      JsonLineDecoder.pushAll {} [[0x7B, 0x7D, 0x0A]] :=
  (frames_of_chunks [[0x7B, 0x7D, 0x0A]]).2.1 _ rfl

example : (framesOf (Markdown.units
    "\x7b\"id\": 1\x7d\nlistening\n\n[2]\n\x7b\"x\": [true, -1.5e3]\x7d\n\x7b")).length =
      2 := by
  decide +kernel

end OrcState.Provider
