import OrcState.Foundation.Utf8
import OrcState.Terminal.Broker

/-!
# The output of a terminal

`observe` returns what the log of a terminal holds behind a cursor, at most 64 KiB
at a time, and where it stopped.  Each such piece is decoded by itself.  A client
passes the cursor it was given, and puts the outputs together.
-/

namespace OrcState.Terminal

open OrcState.Contract OrcState.Foundation Utf8

/-! ## Reading a piece -/

abbrev LogFile := Option (List UInt8)

def LogFile.bytes (file : LogFile) : List UInt8 := file.getD []

def MAX_READ_BYTES : Nat := 64 * 1024

def readOutput (file : LogFile) (after : Nat) : List Char × Nat :=
  match file with
  | none => ([], after)
  | some bytes =>
      let size := bytes.length
      let start := min after size
      let length := min (size - start) MAX_READ_BYTES
      (if 0 < length then decode ((bytes.drop start).take length) else [],
        start + length)

structure Observation where
  terminal : TerminalRecord
  screen : String
  output : List Char
  cursor : Nat
  deriving DecidableEq

def Broker.isAvailable (b : Broker) (terminal : TerminalRecord) : Bool :=
  terminal.state = .running &&
    isCurrent b.around terminal.runId terminal.kind terminal.handle &&
    b.around.alive.contains terminal.handle

/-- `observe`; the size of a file is a safe integer, and so is every cursor. -/
def Broker.observe (b : Broker) (capture : Handle → String) (file : LogFile)
    (terminalId : String) (after : Int) :
    Except ControlError (Observation × Broker) :=
  if after < 0 then
    .error ⟨.badRequest, "after must be a non-negative integer", 400⟩
  else
    match b.terminals.find? terminalId with
    | none => .error (noTerminal terminalId)
    | some row =>
        let lost := !b.isAvailable row && row.state ≠ .offline
        let terminal := if lost then row.offline else row
        let read := readOutput file after.toNat
        .ok
          ({ terminal := terminal
             screen :=
               if terminal.state = .running then capture terminal.handle else ""
             output := read.1
             cursor := read.2 },
            if lost then b.markOffline terminalId else b)

/-! ## A client that watches -/

/-- The log, and a client's cursor with the outputs it has put together. -/
structure Watch where
  file : LogFile := none
  cursor : Nat := 0
  received : List Char := []
  deriving DecidableEq

inductive WatchLabel where
  | append (bytes : List UInt8)
  | observe (b : Broker) (capture : Handle → String)

def Watch.take (w : Watch) (seen : Observation) : Watch :=
  { w with cursor := seen.cursor, received := w.received ++ seen.output }

def watchSystem (terminalId : String) : System Watch WatchLabel where
  initial w := w.cursor = 0 ∧ w.received = []
  step w
    | .append bytes => some { w with file := some (w.file.bytes ++ bytes) }
    | .observe b capture =>
        some (((b.observe capture w.file terminalId w.cursor).toOption.map
          fun reply => w.take reply.1).getD w)

/-! ## What one call returns -/

variable {terminalId : String}

theorem readOutput_of_le {file : LogFile} {after : Nat}
    (hafter : after ≤ file.bytes.length) :
    readOutput file after =
      (decode ((file.bytes.drop after).take MAX_READ_BYTES),
        min file.bytes.length (after + MAX_READ_BYTES)) := by
  cases file with
  | none =>
      have hzero : after = 0 := Nat.le_zero.mp hafter
      subst hzero
      rfl
  | some bytes =>
      simp only [LogFile.bytes, Option.getD_some] at hafter ⊢
      have hstart : min after bytes.length = after := Nat.min_eq_left hafter
      simp only [readOutput, hstart, Prod.mk.injEq]
      constructor
      · have htake : (bytes.drop after).take (min (bytes.length - after)
            MAX_READ_BYTES) = (bytes.drop after).take MAX_READ_BYTES := by
          rw [Nat.min_comm, ← List.length_drop, ← List.take_eq_take_min]
        split
        · rw [htake]
        · next hempty =>
            have hnil : (bytes.drop after).take MAX_READ_BYTES = [] := by
              rw [← htake, Nat.eq_zero_of_not_pos hempty, List.take_zero]
            rw [hnil]
            rfl
      · omega

theorem observe_eq {b : Broker} {row : TerminalRecord}
    (capture : Handle → String) (file : LogFile) (after : Nat)
    (hrow : b.terminals.find? terminalId = some row) :
    ∃ seen b', b.observe capture file terminalId after = .ok (seen, b') ∧
      (seen.output, seen.cursor) = readOutput file after := by
  have hafter : ¬ (after : Int) < 0 := by omega
  simp only [Broker.observe, if_neg hafter, hrow, Int.toNat_natCast]
  exact ⟨_, _, rfl, rfl⟩

theorem observe_none {b : Broker} {capture : Handle → String} {file : LogFile}
    {after : Nat} (hrow : b.terminals.find? terminalId = none) :
    b.observe capture file terminalId after = .error (noTerminal terminalId) := by
  have hafter : ¬ (after : Int) < 0 := by omega
  simp only [Broker.observe, if_neg hafter, hrow]

/-! ## What a client has put together -/

/--
The bytes that the next call reads up to, those of the whole log when it is
shorter, do not end inside a character.
-/
def EndsBetween (w : Watch) : WatchLabel → Prop
  | .append _ => True
  | .observe _ _ =>
      ∃ text, encode text = w.file.bytes.take (w.cursor + MAX_READ_BYTES)

/-- What was received is the text of the bytes before the cursor. -/
structure Whole (w : Watch) : Prop where
  text : encode w.received = w.file.bytes.take w.cursor
  within : w.cursor ≤ w.file.bytes.length

theorem Whole.initial {w : Watch} (h : (watchSystem terminalId).initial w) :
    Whole w := by
  obtain ⟨hcursor, hreceived⟩ := h
  refine ⟨?_, ?_⟩
  · rw [hcursor, hreceived, List.take_zero]
    rfl
  · rw [hcursor]
    exact Nat.zero_le _

theorem Whole.append {w : Watch} (h : Whole w) (bytes : List UInt8) :
    Whole { w with file := some (w.file.bytes ++ bytes) } where
  text := h.text.trans (List.take_append_of_le_length h.within).symm
  within := by
    have hlength : w.file.bytes.length ≤ (w.file.bytes ++ bytes).length := by
      rw [List.length_append]
      exact Nat.le_add_right _ _
    exact h.within.trans hlength

theorem Whole.take {w : Watch} (h : Whole w)
    (hends : ∃ text, encode text =
      w.file.bytes.take (w.cursor + MAX_READ_BYTES))
    {seen : Observation}
    (hseen : (seen.output, seen.cursor) = readOutput w.file w.cursor) :
    Whole (w.take seen) := by
  obtain ⟨text, htext⟩ := hends
  rw [readOutput_of_le h.within] at hseen
  obtain ⟨houtput, hcursor⟩ := Prod.mk.inj hseen
  have hsplit : encode w.received ++
      (w.file.bytes.drop w.cursor).take MAX_READ_BYTES = encode text := by
    rw [htext, List.take_add, h.text]
  have hreceived : text = w.received ++ seen.output := by
    rw [houtput]
    exact encode_decode_of_append hsplit
  have hbefore : w.file.bytes.take seen.cursor =
      w.file.bytes.take (w.cursor + MAX_READ_BYTES) := by
    rw [hcursor, Nat.min_comm, ← List.take_eq_take_min]
  refine ⟨?_, ?_⟩
  · change encode (w.received ++ seen.output) = w.file.bytes.take seen.cursor
    rw [← hreceived, htext, hbefore]
  · change seen.cursor ≤ w.file.bytes.length
    rw [hcursor]
    exact Nat.min_le_left _ _

theorem Whole.step {w w' : Watch} {a : WatchLabel} (h : Whole w)
    (hok : EndsBetween w a) (ht : (watchSystem terminalId).step w a = some w') :
    Whole w' := by
  cases a with
  | append bytes =>
      cases ht
      exact h.append bytes
  | observe b capture =>
      cases hrow : b.terminals.find? terminalId with
      | none =>
          simp only [watchSystem, observe_none hrow] at ht
          cases ht
          exact h
      | some row =>
          obtain ⟨seen, b', hreply, hseen⟩ :=
            observe_eq capture w.file w.cursor hrow
          simp only [watchSystem, hreply] at ht
          cases ht
          exact h.take hok hseen

/-- Whatever the log goes on to say, what was received is its beginning. -/
theorem Whole.isPrefix {w : Watch} (h : Whole w) {text : List Char}
    (hlog : w.file.bytes <+: encode text) : w.received <+: text := by
  refine isPrefix_of_encode ?_
  rw [h.text]
  exact (List.take_prefix _ _).trans hlog

theorem Whole.received_eq {w : Watch} (h : Whole w)
    (hend : w.file.bytes.length ≤ w.cursor) {text : List Char}
    (hlog : w.file.bytes = encode text) : w.received = text := by
  refine encode_injective ?_
  rw [h.text, List.take_of_length_le hend, hlog]

/-! ## Catching up -/

def Answered (terminalId : String) : WatchLabel → Prop
  | .append _ => False
  | .observe b _ => (b.terminals.find? terminalId).isSome = true

theorem Answered.step {w w' : Watch} {a : WatchLabel} (ha : Answered terminalId a)
    (hwithin : w.cursor ≤ w.file.bytes.length)
    (ht : (watchSystem terminalId).step w a = some w') :
    w'.file = w.file ∧
      w'.cursor = min w.file.bytes.length (w.cursor + MAX_READ_BYTES) := by
  cases a with
  | append bytes => exact absurd ha id
  | observe b capture =>
      obtain ⟨row, hrow⟩ := Option.isSome_iff_exists.mp ha
      obtain ⟨seen, b', hreply, hseen⟩ :=
        observe_eq capture w.file w.cursor hrow
      simp only [watchSystem, hreply] at ht
      cases ht
      rw [readOutput_of_le hwithin] at hseen
      exact ⟨rfl, (Prod.mk.inj hseen).2⟩

theorem catch_up {w w' : Watch} {calls : List WatchLabel}
    (hcalls : ∀ a ∈ calls, Answered terminalId a)
    (hwithin : w.cursor ≤ w.file.bytes.length)
    (hrun : (watchSystem terminalId).run w calls = some w') :
    w'.file = w.file ∧ w'.cursor =
      min w.file.bytes.length (w.cursor + calls.length * MAX_READ_BYTES) := by
  induction calls generalizing w with
  | nil =>
      cases hrun
      refine ⟨rfl, ?_⟩
      simp only [List.length_nil, Nat.zero_mul, Nat.add_zero]
      exact (Nat.min_eq_right hwithin).symm
  | cons a calls ih =>
      obtain ⟨m, hm, hrest⟩ := System.run_cons _ hrun
      obtain ⟨hfile, hcursor⟩ :=
        (hcalls a List.mem_cons_self).step hwithin hm
      have hnext : m.cursor ≤ m.file.bytes.length := by
        rw [hfile, hcursor]
        exact Nat.min_le_left _ _
      obtain ⟨hfile', hcursor'⟩ := ih
        (fun b hb => hcalls b (List.mem_cons_of_mem a hb)) hnext hrest
      refine ⟨hfile'.trans hfile, ?_⟩
      rw [hcursor', hcursor, hfile, List.length_cons, Nat.succ_mul]
      omega

/-! ## The whole output -/

/--
As long as every call reads up to the end of a character, what a client has put
together is the beginning of the log's text; and when the log has stopped growing,
a further call for each 64 KiB that are left makes it the whole text.
-/
theorem output_whole {w : Watch}
    (hs : (watchSystem terminalId).ReachableUnder EndsBetween w) :
    (∀ text, w.file.bytes <+: encode text → w.received <+: text) ∧
    ∀ calls w', (∀ a ∈ calls, Answered terminalId a) →
      (watchSystem terminalId).Along EndsBetween w calls →
      (watchSystem terminalId).run w calls = some w' →
      w.file.bytes.length ≤ w.cursor + calls.length * MAX_READ_BYTES →
      ∀ text, w.file.bytes = encode text → w'.received = text := by
  have hwhole : ∀ {v : Watch},
      (watchSystem terminalId).ReachableUnder EndsBetween v → Whole v := fun hv =>
    hv.invariant (fun _ h => .initial h) fun _ _ _ _ h hok ht => h.step hok ht
  have hw := hwhole hs
  refine ⟨fun text hlog => hw.isPrefix hlog, ?_⟩
  intro calls w' hcalls halong hrun henough text hlog
  obtain ⟨hfile, hcursor⟩ := catch_up hcalls hw.within hrun
  refine (hwhole (hs.run halong hrun)).received_eq ?_ (hfile ▸ hlog)
  rw [hfile, hcursor, Nat.min_eq_left henough]

/-! ## Whole and cut characters -/

def watchedShell : Broker where
  around :=
    { runs := [("run-1", .inProgress)]
      sessions := []
      alive := [.shell "run-1"]
      worktrees := ["run-1"] }
  terminals := Table.empty.upsert
    { terminalId := "shell:run-1"
      runId := "run-1"
      kind := .shell
      handle := .shell "run-1"
      state := .running }

def look : WatchLabel := .observe watchedShell fun _ => "$ "

theorem watching_initial : (watchSystem "shell:run-1").initial {} := ⟨rfl, rfl⟩

def writeWhole : List WatchLabel := [look, .append [0xC3, 0xA9]]

theorem output_whole_once : ∃ w w',
    (watchSystem "shell:run-1").run {} writeWhole = some w ∧
      (watchSystem "shell:run-1").run w [look] = some w' ∧
      w'.received = ['é'] := by
  have hrun : (watchSystem "shell:run-1").run {} writeWhole =
      some { file := some [0xC3, 0xA9] } := by decide +kernel
  obtain ⟨w', hlook⟩ : ∃ w', (watchSystem "shell:run-1").run
      { file := some [0xC3, 0xA9] } [look] = some w' :=
    Option.isSome_iff_exists.mp (by decide +kernel)
  have halong : (watchSystem "shell:run-1").Along EndsBetween {} writeWhole :=
    ⟨⟨[], by decide +kernel⟩, trivial, trivial⟩
  have hreach : (watchSystem "shell:run-1").ReachableUnder EndsBetween
      { file := some [0xC3, 0xA9] } :=
    (System.ReachableUnder.initial watching_initial).run halong hrun
  have hcalls : ∀ a ∈ [look], Answered "shell:run-1" a := by
    intro a ha
    rw [List.mem_singleton.mp ha]
    exact (by decide +kernel :
      (watchedShell.terminals.find? "shell:run-1").isSome = true)
  exact ⟨_, w', hrun, hlook, (output_whole hreach).2 [look] w' hcalls
    ⟨⟨['é'], by decide +kernel⟩, trivial⟩ hlook (by decide +kernel) ['é']
    (by decide +kernel)⟩

def writeInHalves : List WatchLabel :=
  [.append [0xC3], look, .append [0xA9], look]

theorem output_cut :
    ∃ w, (watchSystem "shell:run-1").Reachable w ∧
      w.file.bytes = encode ['é'] ∧ w.cursor = w.file.bytes.length ∧
      w.received = ['\uFFFD', '\uFFFD'] ∧ ¬ w.received <+: ['é'] := by
  have hrun : (watchSystem "shell:run-1").run {} writeInHalves =
      some { file := some [0xC3, 0xA9], cursor := 2,
             received := ['\uFFFD', '\uFFFD'] } := by decide +kernel
  exact ⟨_, (System.Reachable.initial watching_initial).run hrun,
    by decide +kernel, rfl, rfl, by decide +kernel⟩

end OrcState.Terminal
