import OrcState.Foundation.Double
import Mathlib.Data.List.Nodup
import Mathlib.Data.List.Perm.Subperm

/-!
# Migrating events.jsonl

`migrateJsonlIfNeeded`: the first process that opens `events.db` next to a
legacy `events.jsonl` copies the file's events into the table, in one
transaction, and then renames the file.  A crash between the two leaves the
file in place, and the next opening copies it again.

The table is the part of `events.db` the migration writes: its primary key is
the sequence number, which has 64 bits, `event_id` is unique, and a number the
database assigns exceeds every number a row ever had.  The migration itself
counts in doubles.  A line of the file stands for what
`JSON.parse` makes of it; an empty line, which the source filters out, behaves
as a malformed one.
-/

namespace OrcState.Store

open OrcState.Foundation
open OrcState.Foundation.Double (Whole Exact)

/-! ## The legacy file -/

/-- One event of the file.  A field that is absent, or whose value has another
type than the one the reader asks for, is `none`; `body` is the rest. -/
structure LegacyEvent where
  eventId : Option String
  seq : Option Whole
  ts : Option String
  event : Option String
  agentId : Option String
  runId : Option String
  taskRef : Option String
  body : String
  deriving DecidableEq

inductive LegacyLine where
  | malformed
  | null
  | event (ev : LegacyEvent)
  deriving DecidableEq

def LegacyLine.event? : LegacyLine → Option LegacyEvent
  | .event ev => some ev
  | _ => none

def legacyEvents (lines : List LegacyLine) : List LegacyEvent :=
  lines.filterMap LegacyLine.event?

/-! ## The events table -/

def maxRowid : Nat := 2 ^ 63 - 1

structure EventRow where
  seq : Nat
  eventId : String
  ts : String
  event : String
  agentId : Option String
  runId : Option String
  taskRef : Option String
  payload : LegacyEvent
  deriving DecidableEq

structure EventTable where
  rows : List EventRow
  /-- The row of `sqlite_sequence` that `AUTOINCREMENT` keeps. -/
  lastSeq : Nat
  seqs : (rows.map EventRow.seq).Nodup
  ids : (rows.map EventRow.eventId).Nodup
  last : ∀ row ∈ rows, row.seq ≤ lastSeq

namespace EventTable

def empty : EventTable where
  rows := []
  lastSeq := 0
  seqs := List.nodup_nil
  ids := List.nodup_nil
  last := by simp

def Admits (table : EventTable) (row : EventRow) : Prop :=
  row.seq ∉ table.rows.map EventRow.seq ∧
    row.eventId ∉ table.rows.map EventRow.eventId

instance (table : EventTable) (row : EventRow) : Decidable (table.Admits row) :=
  inferInstanceAs (Decidable (_ ∧ _))

def insert (table : EventTable) (row : EventRow) (h : table.Admits row) :
    EventTable where
  rows := table.rows ++ [row]
  lastSeq := max table.lastSeq row.seq
  seqs := by
    rw [List.map_append]
    exact List.nodup_append'.mpr
      ⟨table.seqs, List.nodup_singleton _, by simpa using h.1⟩
  ids := by
    rw [List.map_append]
    exact List.nodup_append'.mpr
      ⟨table.ids, List.nodup_singleton _, by simpa using h.2⟩
  last := by
    intro r hr
    rcases List.mem_append.mp hr with hr | hr
    · exact Nat.le_trans (table.last r hr) (Nat.le_max_left _ _)
    · rw [List.mem_singleton.mp hr]
      exact Nat.le_max_right _ _

def insertOrIgnore (table : EventTable) (row : EventRow) : EventTable :=
  if h : table.Admits row then table.insert row h else table

/-- The plain `INSERT` of an event without a number, which the database
assigns; a stored event id or the last number there is makes it fail. -/
def append (table : EventTable) (row : EventRow) : Option EventTable :=
  let numbered := { row with seq := table.lastSeq + 1 }
  if h : table.Admits numbered ∧ table.lastSeq < maxRowid then
    some (table.insert numbered h.1)
  else none

theorem insertOrIgnore_of_admits {table : EventTable} {row : EventRow}
    (h : table.Admits row) :
    (table.insertOrIgnore row).rows = table.rows ++ [row] := by
  simp only [insertOrIgnore, dif_pos h, insert]

theorem insertOrIgnore_of_not {table : EventTable} {row : EventRow}
    (h : ¬ table.Admits row) : table.insertOrIgnore row = table :=
  dif_neg h

/-- Every event appended after `table` has a larger number than all of its
rows. -/
def AppendsAfter (table : EventTable) : Prop :=
  ∀ (later : List EventRow) (table' : EventTable),
    later.foldlM append table = some table' →
      ∃ added, table'.rows = table.rows ++ added ∧
        added.length = later.length ∧
        ∀ old ∈ table.rows, ∀ new ∈ added, old.seq < new.seq

theorem append_eq_some {table table' : EventTable} {row : EventRow}
    (h : table.append row = some table') :
    table'.rows = table.rows ++ [{ row with seq := table.lastSeq + 1 }] ∧
      table.lastSeq < table'.lastSeq := by
  unfold append at h
  by_cases ha : table.Admits { row with seq := table.lastSeq + 1 } ∧
      table.lastSeq < maxRowid
  · simp only [dif_pos ha, Option.some.injEq] at h
    subst h
    exact ⟨rfl, Nat.lt_of_lt_of_le (Nat.lt_succ_self _) (Nat.le_max_right _ _)⟩
  · simp only [dif_neg ha] at h
    cases h

theorem appended {later : List EventRow} {table table' : EventTable}
    (h : later.foldlM append table = some table') :
    ∃ added, table'.rows = table.rows ++ added ∧
      added.length = later.length ∧ ∀ new ∈ added, table.lastSeq < new.seq := by
  induction later generalizing table with
  | nil =>
      rw [List.foldlM_nil, Option.pure_def, Option.some.injEq] at h
      subst h
      exact ⟨[], (List.append_nil _).symm, rfl, by simp⟩
  | cons row rest ih =>
      rw [List.foldlM_cons] at h
      obtain ⟨mid, hmid, hrest⟩ := Option.bind_eq_some_iff.mp h
      obtain ⟨hrows, hlast⟩ := append_eq_some hmid
      obtain ⟨added, hadded, hlen, hlarger⟩ := ih hrest
      refine ⟨{ row with seq := table.lastSeq + 1 } :: added, ?_,
        congrArg Nat.succ hlen, ?_⟩
      · rw [hadded, hrows, List.append_assoc, List.singleton_append]
      · intro new hnew
        rcases List.mem_cons.mp hnew with rfl | hnew
        · exact Nat.lt_succ_self _
        · exact Nat.lt_trans hlast (hlarger new hnew)

theorem appendsAfter (table : EventTable) : table.AppendsAfter := by
  intro later table' h
  obtain ⟨added, hrows, hlen, hlarger⟩ := appended h
  exact ⟨added, hrows, hlen, fun old hold new hnew =>
    Nat.lt_of_le_of_lt (table.last old hold) (hlarger new hnew)⟩

end EventTable

/-! ## The migration -/

structure Draws where
  randomUUID : Nat → String
  toISOString : Nat → String

def legacyRow (draws : Draws) (line : Nat) (nextSeq : Whole)
    (ev : LegacyEvent) : EventRow :=
  let eventId := ev.eventId.getD (draws.randomUUID line)
  let seq := ev.seq.getD nextSeq
  let needsAugment := ev.eventId.isNone || ev.seq.isNone
  { seq := seq.value
    eventId := eventId
    ts := ev.ts.getD (draws.toISOString line)
    event := ev.event.getD "unknown"
    agentId := ev.agentId
    runId := ev.runId
    taskRef := ev.taskRef
    payload :=
      if needsAugment then { ev with eventId := some eventId, seq := some seq }
      else ev }

/-- The body of the transaction.  A bare `null` parses, and reading its
`event_id` throws; a number beyond the keys of the table is refused. -/
def migrateLines (draws : Draws) :
    List LegacyLine → Nat → Whole → EventTable → Except String EventTable
  | [], _, _, table => .ok table
  | .malformed :: rest, line, nextSeq, table =>
      migrateLines draws rest (line + 1) nextSeq table
  | .null :: _, _, _, _ =>
      .error "Cannot read properties of null (reading 'event_id')"
  | .event ev :: rest, line, nextSeq, table =>
      let row := legacyRow draws line nextSeq ev
      if maxRowid < row.seq then .error "datatype mismatch"
      else
        migrateLines draws rest (line + 1)
          (nextSeq.afterBoth (ev.seq.getD nextSeq)) (table.insertOrIgnore row)

def firstSeq : Whole := .ofNat 1 (by decide)

structure LegacyState where
  table : EventTable
  jsonl : Option (List LegacyLine)
  migrated : Option (List LegacyLine)

/-- `events.db` has just been created next to the legacy file. -/
def LegacyState.initial (lines : List LegacyLine) : LegacyState where
  table := EventTable.empty
  jsonl := some lines
  migrated := none

def commitJsonl (draws : Draws) (s : LegacyState) : Except String LegacyState :=
  match s.jsonl, s.migrated with
  | some lines, none => do
      let table ← migrateLines draws lines 0 firstSeq s.table
      pure { s with table := table }
  | _, _ => .ok s

def renameJsonl (s : LegacyState) : LegacyState :=
  match s.jsonl, s.migrated with
  | some lines, none => { s with jsonl := none, migrated := some lines }
  | _, _ => s

def migrateJsonlIfNeeded (draws : Draws) (s : LegacyState) :
    Except String LegacyState := do
  let committed ← commitJsonl draws s
  pure (renameJsonl committed)

def migrateAfterCrashes :
    List Draws → Draws → LegacyState → Except String LegacyState
  | [], draws, s => migrateJsonlIfNeeded draws s
  | crashed :: rest, draws, s => do
      let committed ← commitJsonl crashed s
      migrateAfterCrashes rest draws committed

/-! ## What a migration has to keep -/

structure Holds (ev : LegacyEvent) (row : EventRow) : Prop where
  number : ∀ n, ev.seq = some n → row.seq = n.value
  id : ∀ id, ev.eventId = some id → row.eventId = id
  ts : ∀ ts, ev.ts = some ts → row.ts = ts
  event : row.event = ev.event.getD "unknown"
  agentId : row.agentId = ev.agentId
  runId : row.runId = ev.runId
  taskRef : row.taskRef = ev.taskRef
  payload : ∃ n : Whole, n.value = row.seq ∧ row.payload =
    { ev with eventId := some row.eventId, seq := some n }

/-- Read in the order of their numbers, the rows are the file's events. -/
structure Preserved (lines : List LegacyLine) (t : LegacyState) : Prop where
  rows : ∃ rows : List EventRow, rows.Perm t.table.rows ∧
    rows.Pairwise (fun a b => a.seq < b.seq) ∧
    List.Forall₂ Holds (legacyEvents lines) rows
  renamed : t.jsonl = none ∧ t.migrated = some lines
  later : t.table.AppendsAfter

def LegacyEvent.number (ev : LegacyEvent) : Option Nat := ev.seq.map Whole.value

def legacyNumbers (evs : List LegacyEvent) : List Nat :=
  evs.filterMap LegacyEvent.number

def legacyIds (evs : List LegacyEvent) : List String :=
  evs.filterMap LegacyEvent.eventId

/-- The numbers the events carry leave room for the events without one: counting
up from `last` in doubles, an unnumbered event takes a new number, no numbered
event comes at a number already passed, and all of them fit the table. -/
def LeavesRoom : Nat → List LegacyEvent → Prop
  | _, [] => True
  | last, ev :: rest =>
      match ev.number with
      | none =>
          last < Double.round (last + 1) ∧ Double.round (last + 1) ≤ maxRowid ∧
            LeavesRoom (Double.round (last + 1)) rest
      | some n => last < n ∧ n ≤ maxRowid ∧ LeavesRoom n rest

structure Migratable (lines : List LegacyLine) : Prop where
  readable : LegacyLine.null ∉ lines
  ids : (legacyIds (legacyEvents lines)).Nodup
  room : LeavesRoom 0 (legacyEvents lines)

/-- `randomUUID` repeats neither itself nor an id of the file. -/
structure Draws.Fresh (draws : Draws) (lines : List LegacyLine) : Prop where
  injective : Function.Injective draws.randomUUID
  unused : ∀ line, draws.randomUUID line ∉ legacyIds (legacyEvents lines)

/-! ## Numbering the lines -/

def assignedSeqs : Whole → List LegacyEvent → List Nat
  | _, [] => []
  | nextSeq, ev :: rest =>
      (ev.seq.getD nextSeq).value ::
        assignedSeqs (nextSeq.afterBoth (ev.seq.getD nextSeq)) rest

def legacyRows (draws : Draws) : List LegacyLine → Nat → Whole → List EventRow
  | [], _, _ => []
  | .event ev :: rest, line, nextSeq =>
      legacyRow draws line nextSeq ev ::
        legacyRows draws rest (line + 1)
          (nextSeq.afterBoth (ev.seq.getD nextSeq))
  | _ :: rest, line, nextSeq => legacyRows draws rest (line + 1) nextSeq

def EventTable.insertAll (table : EventTable) (rows : List EventRow) :
    EventTable :=
  rows.foldl EventTable.insertOrIgnore table

structure Numberable (nextSeq : Whole) (lines : List LegacyLine) : Prop where
  readable : LegacyLine.null ∉ lines
  fits : ∀ n ∈ assignedSeqs nextSeq (legacyEvents lines), n ≤ maxRowid

theorem Numberable.rest {nextSeq : Whole} {lines : List LegacyLine}
    {first : LegacyLine} (h : Numberable nextSeq (first :: lines))
    (hevent : first.event? = none) : Numberable nextSeq lines := by
  refine ⟨fun hr => h.readable (List.mem_cons_of_mem _ hr), fun n hn => h.fits n ?_⟩
  rwa [legacyEvents, List.filterMap_cons_none hevent]

theorem Numberable.restEvent {nextSeq : Whole} {lines : List LegacyLine}
    {ev : LegacyEvent} (h : Numberable nextSeq (.event ev :: lines)) :
    Numberable (nextSeq.afterBoth (ev.seq.getD nextSeq)) lines :=
  ⟨fun hr => h.readable (List.mem_cons_of_mem _ hr),
    fun n hn => h.fits n (List.mem_cons_of_mem _ hn)⟩

theorem migrateLines_eq (draws : Draws) {lines : List LegacyLine}
    {nextSeq : Whole} (h : Numberable nextSeq lines) (line : Nat)
    (table : EventTable) :
    migrateLines draws lines line nextSeq table =
      .ok (table.insertAll (legacyRows draws lines line nextSeq)) := by
  induction lines generalizing line nextSeq table with
  | nil => rfl
  | cons first rest ih =>
      cases first with
      | malformed => exact ih (h.rest rfl) _ _
      | null => exact absurd List.mem_cons_self h.readable
      | event ev =>
          have hfits : ¬ maxRowid < (legacyRow draws line nextSeq ev).seq :=
            Nat.not_lt.mpr (h.fits _ List.mem_cons_self)
          simp only [migrateLines, if_neg hfits]
          exact ih h.restEvent _ _

theorem storable_of_migrateLines {draws : Draws} {lines : List LegacyLine}
    {line : Nat} {nextSeq : Whole} {table t : EventTable}
    (h : migrateLines draws lines line nextSeq table = .ok t) :
    Numberable nextSeq lines := by
  induction lines generalizing line nextSeq table with
  | nil => exact ⟨List.not_mem_nil, fun _ hn => absurd hn List.not_mem_nil⟩
  | cons first rest ih =>
      cases first with
      | malformed =>
          obtain ⟨hread, hfits⟩ := ih h
          exact ⟨by simp [hread], hfits⟩
      | null => cases h
      | event ev =>
          simp only [migrateLines] at h
          split at h
          · cases h
          · rename_i hfit
            obtain ⟨hread, hfits⟩ := ih h
            refine ⟨by simp [hread], fun n hn => ?_⟩
            rcases List.mem_cons.mp hn with rfl | hn
            · exact Nat.not_lt.mp hfit
            · exact hfits n hn

theorem legacyRow_holds (draws : Draws) (line : Nat) (nextSeq : Whole)
    (ev : LegacyEvent) : Holds ev (legacyRow draws line nextSeq ev) where
  number n h := by simp only [legacyRow, h, Option.getD_some]
  id n h := by simp only [legacyRow, h, Option.getD_some]
  ts n h := by simp only [legacyRow, h, Option.getD_some]
  event := rfl
  agentId := rfl
  runId := rfl
  taskRef := rfl
  payload := by
    refine ⟨ev.seq.getD nextSeq, rfl, ?_⟩
    cases hid : ev.eventId with
    | none => simp only [legacyRow, hid, Option.isNone_none, Bool.true_or, if_true]
    | some id =>
        cases hseq : ev.seq with
        | none => simp only [legacyRow, hid, hseq, Option.isNone_none,
            Bool.or_true, if_true]
        | some n =>
            -- Nothing to add: the payload is the line itself.
            simp only [legacyRow, hid, hseq, Option.isNone_some, Bool.or_self,
              Bool.false_eq_true, if_false, Option.getD_some]
            rw [← hid, ← hseq]

theorem legacyRows_hold (draws : Draws) (lines : List LegacyLine) (line : Nat)
    (nextSeq : Whole) :
    List.Forall₂ Holds (legacyEvents lines)
      (legacyRows draws lines line nextSeq) := by
  induction lines generalizing line nextSeq with
  | nil => exact .nil
  | cons first rest ih =>
      cases first with
      | malformed => exact ih _ _
      | null => exact ih _ _
      | event ev => exact .cons (legacyRow_holds draws line nextSeq ev) (ih _ _)

theorem seqs_legacyRows (draws : Draws) (lines : List LegacyLine) (line : Nat)
    (nextSeq : Whole) :
    (legacyRows draws lines line nextSeq).map EventRow.seq =
      assignedSeqs nextSeq (legacyEvents lines) := by
  induction lines generalizing line nextSeq with
  | nil => rfl
  | cons first rest ih =>
      cases first with
      | malformed => exact ih _ _
      | null => exact ih _ _
      | event ev => exact congrArg _ (ih _ _)

theorem mem_ids_legacyRows {draws : Draws} {lines : List LegacyLine}
    {line : Nat} {nextSeq : Whole} {id : String}
    (h : id ∈ (legacyRows draws lines line nextSeq).map EventRow.eventId) :
    id ∈ legacyIds (legacyEvents lines) ∨
      ∃ i, line ≤ i ∧ id = draws.randomUUID i := by
  induction lines generalizing line nextSeq with
  | nil => cases h
  | cons first rest ih =>
      cases first with
      | malformed =>
          exact (ih h).imp_right fun ⟨i, hi, hid⟩ => ⟨i, by omega, hid⟩
      | null =>
          exact (ih h).imp_right fun ⟨i, hi, hid⟩ => ⟨i, by omega, hid⟩
      | event ev =>
          have hids : legacyIds (legacyEvents (.event ev :: rest)) =
              ev.eventId.toList ++ legacyIds (legacyEvents rest) := by
            cases hev : ev.eventId <;>
              simp [legacyIds, legacyEvents, LegacyLine.event?, hev]
          rw [hids, List.mem_append]
          rcases List.mem_cons.mp h with hid | hin
          · cases hev : ev.eventId with
            | none =>
                refine .inr ⟨line, Nat.le_refl _, hid.trans ?_⟩
                simp only [legacyRow, hev, Option.getD_none]
            | some own =>
                refine .inl (.inl ?_)
                rw [Option.toList_some, List.mem_singleton, hid]
                simp only [legacyRow, hev, Option.getD_some]
          · rcases ih hin with hin | ⟨i, hi, hid⟩
            · exact .inl (.inr hin)
            · exact .inr ⟨i, by omega, hid⟩

theorem ids_legacyRows {draws : Draws} {lines : List LegacyLine}
    (hfresh : draws.Fresh lines)
    (hids : (legacyIds (legacyEvents lines)).Nodup) (line : Nat)
    (nextSeq : Whole) :
    ((legacyRows draws lines line nextSeq).map EventRow.eventId).Nodup := by
  induction lines generalizing line nextSeq with
  | nil => exact List.nodup_nil
  | cons first rest ih =>
      cases first with
      | malformed => exact ih ⟨hfresh.injective, hfresh.unused⟩ hids _ _
      | null => exact ih ⟨hfresh.injective, hfresh.unused⟩ hids _ _
      | event ev =>
          have hsub : ∀ id, id ∈ legacyIds (legacyEvents rest) →
              id ∈ legacyIds (legacyEvents (.event ev :: rest)) := by
            intro id hid
            obtain ⟨e, he, heid⟩ := List.mem_filterMap.mp hid
            exact List.mem_filterMap.mpr ⟨e, List.mem_cons_of_mem _ he, heid⟩
          have hrest : (legacyIds (legacyEvents rest)).Nodup := by
            refine hids.sublist (List.Sublist.filterMap _ ?_)
            exact List.sublist_cons_self ev (legacyEvents rest)
          have hfreshRest : draws.Fresh rest :=
            ⟨hfresh.injective, fun i hi => hfresh.unused i (hsub _ hi)⟩
          refine List.nodup_cons.mpr ⟨fun hmem => ?_, ih hfreshRest hrest _ _⟩
          rcases mem_ids_legacyRows hmem with hin | ⟨i, hi, hid⟩
          · cases hev : ev.eventId with
            | none =>
                simp only [legacyRow, hev, Option.getD_none] at hin
                exact hfresh.unused line (hsub _ hin)
            | some own =>
                simp only [legacyRow, hev, Option.getD_some] at hin
                have hcons : legacyIds (legacyEvents (.event ev :: rest)) =
                    own :: legacyIds (legacyEvents rest) :=
                  List.filterMap_cons_some hev
                rw [hcons] at hids
                exact (List.nodup_cons.mp hids).1 hin
          · cases hev : ev.eventId with
            | none =>
                simp only [legacyRow, hev, Option.getD_none] at hid
                have hline : line = i := hfresh.injective hid
                omega
            | some own =>
                simp only [legacyRow, hev, Option.getD_some] at hid
                refine hfresh.unused i (hid ▸ ?_)
                exact List.mem_filterMap.mpr ⟨ev, List.mem_cons_self, hev⟩

/-! ## Room for the numbers -/

theorem length_assignedSeqs (nextSeq : Whole) (evs : List LegacyEvent) :
    (assignedSeqs nextSeq evs).length = evs.length := by
  induction evs generalizing nextSeq with
  | nil => rfl
  | cons ev rest ih => exact congrArg Nat.succ (ih _)

theorem number_eq_none {ev : LegacyEvent} (h : ev.number = none) :
    ev.seq = none := Option.map_eq_none_iff.mp h

theorem number_eq_some {ev : LegacyEvent} {n : Nat} (h : ev.number = some n) :
    ∃ w : Whole, ev.seq = some w ∧ w.value = n := Option.map_eq_some_iff.mp h

theorem afterBoth_self (n : Whole) :
    (n.afterBoth n).value = Double.round (n.value + 1) := by
  change Double.round (max n.value n.value + 1) = _
  rw [Nat.max_self]

/-- A number above the last one is not below what counting has reached. -/
theorem afterBoth_above {next n : Whole} {last : Nat}
    (hnext : next.value = Double.round (last + 1)) (h : last < n.value) :
    (next.afterBoth n).value = Double.round (n.value + 1) := by
  have hle : next.value ≤ n.value := hnext ▸ Double.round_le n.exact h
  change Double.round (max next.value n.value + 1) = _
  rw [Nat.max_eq_right hle]

theorem assignedSeqs_of_room {evs : List LegacyEvent} {last : Nat}
    {next : Whole} (hnext : next.value = Double.round (last + 1))
    (h : LeavesRoom last evs) :
    (last :: assignedSeqs next evs).Pairwise (· < ·) ∧
      ∀ n ∈ assignedSeqs next evs, n ≤ maxRowid := by
  induction evs generalizing last next with
  | nil => exact ⟨List.pairwise_singleton _ _, fun _ hn => absurd hn List.not_mem_nil⟩
  | cons ev rest ih =>
      have hstep : ∀ (n : Nat) (w : Whole), last < n → n ≤ maxRowid →
          w.value = Double.round (n + 1) → LeavesRoom n rest →
          (last :: n :: assignedSeqs w rest).Pairwise (· < ·) ∧
            ∀ k ∈ n :: assignedSeqs w rest, k ≤ maxRowid := by
        intro n w hlast hfits hw hroom
        obtain ⟨hrest, hbound⟩ := ih hw hroom
        refine ⟨List.pairwise_cons.mpr ⟨fun b hb => ?_, hrest⟩, fun k hk => ?_⟩
        · rcases List.mem_cons.mp hb with rfl | hb
          · exact hlast
          · exact Nat.lt_trans hlast ((List.pairwise_cons.mp hrest).1 b hb)
        · rcases List.mem_cons.mp hk with rfl | hk
          · exact hfits
          · exact hbound k hk
      cases hnumber : ev.number with
      | none =>
          simp only [LeavesRoom, hnumber, ← hnext] at h
          simp only [assignedSeqs, number_eq_none hnumber, Option.getD_none]
          exact hstep _ _ h.1 h.2.1 (afterBoth_self next) h.2.2
      | some n =>
          obtain ⟨w, hseq, rfl⟩ := number_eq_some hnumber
          simp only [LeavesRoom, hnumber] at h
          simp only [assignedSeqs, hseq, Option.getD_some]
          exact hstep _ _ h.1 h.2.1 (afterBoth_above hnext h.1) h.2.2

/-- Since the last numbered event, `m`, the numbers in use leave out nothing that
a double holds; so a numbered event that comes too low meets one of them. -/
theorem room_of_nodup {evs : List LegacyEvent} {used : List Nat} {last m : Nat}
    {next : Whole} (hnext : next.value = Double.round (last + 1))
    (hlast : Exact last) (hused : last = 0 ∨ last ∈ used)
    (hnum : (m :: legacyNumbers evs).Pairwise (· < ·))
    (hgap : ∀ j, Exact j → m < j → j ≤ last → j ∈ used)
    (hfits : ∀ n ∈ assignedSeqs next evs, n ≤ maxRowid)
    (h : (used ++ assignedSeqs next evs).Nodup) : LeavesRoom last evs := by
  induction evs generalizing used last m next with
  | nil => trivial
  | cons ev rest ih =>
      cases hnumber : ev.number with
      | none =>
          have hnum' : (m :: legacyNumbers rest).Pairwise (· < ·) := by
            rwa [legacyNumbers, List.filterMap_cons_none hnumber] at hnum
          simp only [assignedSeqs, number_eq_none hnumber, Option.getD_none]
            at h hfits
          have hnew : next.value ∉ used := fun hin =>
            (List.nodup_append'.mp h).2.2 hin List.mem_cons_self
          have habove : last < next.value := by
            have hle : last ≤ next.value :=
              hnext ▸ Double.le_round hlast (Nat.le_succ last)
            refine Nat.lt_of_le_of_ne hle fun heq => ?_
            rcases hused with rfl | hin
            · rw [hnext, Double.round_of_exact (Double.exact_of_lt (by decide))]
                at heq
              cases heq
            · exact hnew (heq ▸ hin)
          simp only [LeavesRoom, hnumber, ← hnext]
          refine ⟨habove, hfits _ List.mem_cons_self, ih (afterBoth_self next)
            next.exact (.inr (by simp)) hnum' (fun j hj hm hle => ?_)
            (fun n hn => hfits n (List.mem_cons_of_mem _ hn))
            (List.append_cons _ _ _ ▸ h)⟩
          rcases Nat.lt_or_ge last j with hbeyond | hbelow
          · have hback : next.value ≤ j := hnext ▸ Double.round_le hj hbeyond
            have heq : j = next.value := Nat.le_antisymm hle hback
            exact List.mem_append_right _ (List.mem_singleton.mpr heq)
          · exact List.mem_append_left _ (hgap j hj hm hbelow)
      | some n =>
          obtain ⟨w, hseq, rfl⟩ := number_eq_some hnumber
          rw [legacyNumbers, List.filterMap_cons_some hnumber] at hnum
          obtain ⟨hm, hrest⟩ := List.pairwise_cons.mp hnum
          simp only [assignedSeqs, hseq, Option.getD_some] at h hfits
          have habove : last < w.value := by
            by_contra hle
            have hin := hgap w.value w.exact (hm _ List.mem_cons_self)
              (Nat.not_lt.mp hle)
            exact (List.nodup_append'.mp h).2.2 hin List.mem_cons_self
          simp only [LeavesRoom, hnumber]
          refine ⟨habove, hfits _ List.mem_cons_self,
            ih (afterBoth_above hnext habove) w.exact (.inr (by simp)) hrest
              (fun j _ hj hle => ?_)
              (fun n hn => hfits n (List.mem_cons_of_mem _ hn))
              (List.append_cons _ _ _ ▸ h)⟩
          omega

/-! ## Inserting the rows -/

theorem EventTable.insertAll_of_distinct {table : EventTable}
    {rows : List EventRow}
    (hseqs : ((table.rows ++ rows).map EventRow.seq).Nodup)
    (hids : ((table.rows ++ rows).map EventRow.eventId).Nodup) :
    (table.insertAll rows).rows = table.rows ++ rows := by
  induction rows generalizing table with
  | nil => exact (List.append_nil _).symm
  | cons row rest ih =>
      have hnew : table.Admits row := by
        rw [List.map_append] at hseqs hids
        exact ⟨fun h => (List.nodup_append'.mp hseqs).2.2 h (by simp),
          fun h => (List.nodup_append'.mp hids).2.2 h (by simp)⟩
      have hrows := insertOrIgnore_of_admits hnew
      have happend : (table.insertOrIgnore row).rows ++ rest =
          table.rows ++ row :: rest := by
        rw [hrows, List.append_assoc, List.singleton_append]
      rw [← happend]
      exact ih (happend ▸ hseqs) (happend ▸ hids)

theorem EventTable.insertAll_of_stored {table : EventTable}
    {rows : List EventRow}
    (h : ∀ row ∈ rows, row.seq ∈ table.rows.map EventRow.seq) :
    table.insertAll rows = table := by
  induction rows with
  | nil => rfl
  | cons row rest ih =>
      have hstored : ¬ table.Admits row := fun ha =>
        ha.1 (h row List.mem_cons_self)
      rw [EventTable.insertAll, List.foldl_cons, insertOrIgnore_of_not hstored]
      exact ih fun r hr => h r (List.mem_cons_of_mem _ hr)

theorem EventTable.mem_insertAll {table : EventTable} {rows : List EventRow}
    {row : EventRow} (h : row ∈ (table.insertAll rows).rows) :
    row ∈ table.rows ∨ row ∈ rows := by
  induction rows generalizing table with
  | nil => exact .inl h
  | cons first rest ih =>
      rcases ih h with hin | hin
      · by_cases ha : table.Admits first
        · rw [insertOrIgnore_of_admits ha] at hin
          rcases List.mem_append.mp hin with hin | hin
          · exact .inl hin
          · exact .inr (List.mem_singleton.mp hin ▸ List.mem_cons_self)
        · exact .inl (insertOrIgnore_of_not ha ▸ hin)
      · exact .inr (List.mem_cons_of_mem _ hin)

/-! ## Attempts -/

structure LegacyState.Pending (s : LegacyState) (lines : List LegacyLine) :
    Prop where
  jsonl : s.jsonl = some lines
  migrated : s.migrated = none

section Attempts

variable {lines : List LegacyLine} {draws : Draws} {s t : LegacyState}

theorem commitJsonl_ok (hs : s.Pending lines) :
    commitJsonl draws s = .ok t ↔
      Numberable firstSeq lines ∧
        t = { s with
          table := s.table.insertAll (legacyRows draws lines 0 firstSeq) } := by
  have hmatch : commitJsonl draws s =
      (migrateLines draws lines 0 firstSeq s.table).map
        fun table => { s with table := table } := by
    simp only [commitJsonl, hs.jsonl, hs.migrated]
    rfl
  rw [hmatch]
  constructor
  · intro h
    cases hlines : migrateLines draws lines 0 firstSeq s.table with
    | error e => rw [hlines] at h; cases h
    | ok table =>
        have hstorable := storable_of_migrateLines hlines
        rw [migrateLines_eq draws hstorable] at h
        exact ⟨hstorable, (Except.ok.inj h).symm⟩
  · rintro ⟨hstorable, rfl⟩
    rw [migrateLines_eq draws hstorable]
    rfl

theorem renameJsonl_of_pending (hs : s.Pending lines) :
    renameJsonl s = { s with jsonl := none, migrated := some lines } := by
  simp only [renameJsonl, hs.jsonl, hs.migrated]

theorem migrateJsonlIfNeeded_ok (hs : s.Pending lines) :
    migrateJsonlIfNeeded draws s = .ok t ↔
      Numberable firstSeq lines ∧
        t = { table := s.table.insertAll (legacyRows draws lines 0 firstSeq)
              jsonl := none, migrated := some lines } := by
  unfold migrateJsonlIfNeeded
  constructor
  · intro h
    cases hcommit : commitJsonl draws s with
    | error e => rw [hcommit] at h; cases h
    | ok mid =>
        rw [hcommit] at h
        obtain ⟨hstorable, rfl⟩ := (commitJsonl_ok hs).mp hcommit
        exact ⟨hstorable, (Except.ok.inj h).symm.trans
          (renameJsonl_of_pending ⟨hs.jsonl, hs.migrated⟩)⟩
  · rintro ⟨hstorable, rfl⟩
    rw [(commitJsonl_ok hs).mpr ⟨hstorable, rfl⟩]
    exact congrArg Except.ok (renameJsonl_of_pending ⟨hs.jsonl, hs.migrated⟩)

/-- However often it is repeated, the migration uses the numbers it computes
from the file alone. -/
theorem migrateAfterCrashes_ok {crashed : List Draws} (hs : s.Pending lines)
    (hseqs : ∀ row ∈ s.table.rows,
      row.seq ∈ assignedSeqs firstSeq (legacyEvents lines))
    (h : migrateAfterCrashes crashed draws s = .ok t) :
    Numberable firstSeq lines ∧
      ∀ row ∈ t.table.rows, row.seq ∈ assignedSeqs firstSeq (legacyEvents lines) := by
  have hinsert : ∀ (d : Draws) (table : EventTable),
      (∀ row ∈ table.rows, row.seq ∈ assignedSeqs firstSeq (legacyEvents lines)) →
      ∀ row ∈ (table.insertAll (legacyRows d lines 0 firstSeq)).rows,
        row.seq ∈ assignedSeqs firstSeq (legacyEvents lines) := by
    intro d table htable row hrow
    rcases EventTable.mem_insertAll hrow with hin | hin
    · exact htable row hin
    · rw [← seqs_legacyRows d lines 0 firstSeq]
      exact List.mem_map_of_mem hin
  induction crashed generalizing s with
  | nil =>
      obtain ⟨hstorable, rfl⟩ := (migrateJsonlIfNeeded_ok hs).mp h
      exact ⟨hstorable, hinsert draws s.table hseqs⟩
  | cons first rest ih =>
      cases hcommit : commitJsonl first s with
      | error e => rw [migrateAfterCrashes, hcommit] at h; cases h
      | ok mid =>
          rw [migrateAfterCrashes, hcommit] at h
          obtain ⟨hstorable, rfl⟩ := (commitJsonl_ok hs).mp hcommit
          refine ih ⟨?_, ?_⟩ (hinsert first s.table hseqs) h
          · exact hs.jsonl
          · exact hs.migrated

/-- Once all numbers are stored, a repetition only renames the file. -/
theorem migrateAfterCrashes_of_stored {crashed : List Draws}
    (hs : s.Pending lines) (hstorable : Numberable firstSeq lines)
    (hseqs : ∀ n ∈ assignedSeqs firstSeq (legacyEvents lines),
      n ∈ s.table.rows.map EventRow.seq) :
    migrateAfterCrashes crashed draws s =
      .ok { s with jsonl := none, migrated := some lines } := by
  have hstored : ∀ d : Draws,
      s.table.insertAll (legacyRows d lines 0 firstSeq) = s.table := by
    intro d
    refine EventTable.insertAll_of_stored fun row hrow => hseqs _ ?_
    rw [← seqs_legacyRows d lines 0 firstSeq]
    exact List.mem_map_of_mem hrow
  induction crashed with
  | nil =>
      refine (migrateJsonlIfNeeded_ok hs).mpr ⟨hstorable, ?_⟩
      rw [hstored]
  | cons first rest ih =>
      have hcommit : commitJsonl first s = .ok s :=
        (commitJsonl_ok hs).mpr ⟨hstorable, by rw [hstored]⟩
      rw [migrateAfterCrashes, hcommit]
      exact ih

end Attempts

/-! ## What the migration keeps -/

theorem firstSeq_value : firstSeq.value = Double.round (0 + 1) := by decide

theorem Migratable.storable {lines : List LegacyLine} (h : Migratable lines) :
    Numberable firstSeq lines :=
  ⟨h.readable, (assignedSeqs_of_room firstSeq_value h.room).2⟩

theorem Migratable.sorted {lines : List LegacyLine} (h : Migratable lines) :
    (assignedSeqs firstSeq (legacyEvents lines)).Pairwise (· < ·) :=
  (List.pairwise_cons.mp (assignedSeqs_of_room firstSeq_value h.room).1).2

theorem pending_initial (lines : List LegacyLine) :
    (LegacyState.initial lines).Pending lines := ⟨rfl, rfl⟩

/-- The rows of the first attempt, which the later ones leave alone. -/
theorem migrated_rows {lines : List LegacyLine} {crashed : List Draws}
    {draws : Draws} (hfresh : ∀ d ∈ draws :: crashed, d.Fresh lines)
    (h : Migratable lines) :
    ∃ (first : Draws) (t : LegacyState),
      migrateAfterCrashes crashed draws (LegacyState.initial lines) = .ok t ∧
        t.table.rows = legacyRows first lines 0 firstSeq ∧
        t.jsonl = none ∧ t.migrated = some lines := by
  have hrows : ∀ d ∈ draws :: crashed,
      (EventTable.empty.insertAll (legacyRows d lines 0 firstSeq)).rows =
        legacyRows d lines 0 firstSeq := by
    intro d hd
    refine EventTable.insertAll_of_distinct ?_
      (ids_legacyRows (hfresh d hd) h.ids 0 firstSeq)
    change ((legacyRows d lines 0 firstSeq).map EventRow.seq).Nodup
    rw [seqs_legacyRows]
    exact h.sorted.imp Nat.ne_of_lt
  cases crashed with
  | nil =>
      refine ⟨draws, _, (migrateJsonlIfNeeded_ok (pending_initial lines)).mpr
        ⟨h.storable, rfl⟩, hrows draws List.mem_cons_self, rfl, rfl⟩
  | cons first rest =>
      have hfirst := hrows first (by simp)
      have hcommit : commitJsonl first (LegacyState.initial lines) = .ok
          { table := EventTable.empty.insertAll (legacyRows first lines 0 firstSeq)
            jsonl := some lines, migrated := none } :=
        (commitJsonl_ok (pending_initial lines)).mpr ⟨h.storable, rfl⟩
      refine ⟨first,
        { table := EventTable.empty.insertAll (legacyRows first lines 0 firstSeq)
          jsonl := none, migrated := some lines }, ?_, hfirst, rfl, rfl⟩
      rw [migrateAfterCrashes, hcommit]
      refine migrateAfterCrashes_of_stored ⟨rfl, rfl⟩ h.storable fun n hn => ?_
      rwa [hfirst, seqs_legacyRows]

theorem legacyIds_sublist {evs : List LegacyEvent} {rows : List EventRow}
    (h : List.Forall₂ Holds evs rows) :
    (legacyIds evs).Sublist (rows.map EventRow.eventId) := by
  induction h with
  | nil => exact .slnil
  | @cons ev row evs rows hrow _ ih =>
      cases hev : ev.eventId with
      | none =>
          rw [legacyIds, List.filterMap_cons_none hev]
          exact ih.cons _
      | some id =>
          rw [legacyIds, List.filterMap_cons_some hev, List.map_cons,
            hrow.id id hev]
          exact ih.cons_cons _

/-- As many distinct numbers as events were stored, so the numbers the
migration computed are distinct. -/
theorem room_of_rows {lines : List LegacyLine} {rows : List EventRow}
    (hnum : (0 :: legacyNumbers (legacyEvents lines)).Pairwise (· < ·))
    (hseqs : ∀ row ∈ rows, row.seq ∈ assignedSeqs firstSeq (legacyEvents lines))
    (hfits : ∀ n ∈ assignedSeqs firstSeq (legacyEvents lines), n ≤ maxRowid)
    (hsorted : rows.Pairwise fun a b => a.seq < b.seq)
    (hlength : rows.length = (legacyEvents lines).length) :
    LeavesRoom 0 (legacyEvents lines) := by
  have hnodup : (rows.map EventRow.seq).Nodup :=
    List.pairwise_map.mpr (hsorted.imp Nat.ne_of_lt)
  have hsubset : rows.map EventRow.seq ⊆
      assignedSeqs firstSeq (legacyEvents lines) := by
    intro n hn
    obtain ⟨row, hrow, rfl⟩ := List.mem_map.mp hn
    exact hseqs row hrow
  have hperm : (rows.map EventRow.seq).Perm
      (assignedSeqs firstSeq (legacyEvents lines)) := by
    refine (hnodup.subperm hsubset).perm_of_length_le (Nat.le_of_eq ?_)
    rw [length_assignedSeqs, List.length_map, hlength]
  have hnothing : ([] ++ assignedSeqs firstSeq (legacyEvents lines)).Nodup :=
    hperm.nodup_iff.mp hnodup
  exact room_of_nodup firstSeq_value (Double.exact_of_lt (by decide)) (.inl rfl)
    hnum (fun j _ hj hle => by omega) hfits hnothing

/-- The migration of a file whose numbers increase keeps every event, however
often it is repeated, exactly when the numbers leave room. -/
theorem migrateJsonl_preserves {lines : List LegacyLine} {crashed : List Draws}
    {draws : Draws}
    (hnum : (0 :: legacyNumbers (legacyEvents lines)).Pairwise (· < ·))
    (hfresh : ∀ d ∈ draws :: crashed, d.Fresh lines) :
    (∃ t, migrateAfterCrashes crashed draws (LegacyState.initial lines) = .ok t ∧
        Preserved lines t) ↔
      Migratable lines := by
  constructor
  · rintro ⟨t, ht, hkeeps⟩
    obtain ⟨hstorable, hseqs⟩ := migrateAfterCrashes_ok (pending_initial lines)
      (fun row hrow => absurd hrow List.not_mem_nil) ht
    obtain ⟨rows, hperm, hsorted, hholds⟩ := hkeeps.rows
    refine ⟨hstorable.readable, ?_, ?_⟩
    · have hids : (rows.map EventRow.eventId).Nodup :=
        (hperm.map _).nodup_iff.mpr t.table.ids
      exact hids.sublist (legacyIds_sublist hholds)
    · refine room_of_rows hnum (fun row hrow => ?_) hstorable.fits hsorted
        hholds.length_eq.symm
      exact hseqs row (hperm.subset hrow)
  · intro h
    obtain ⟨first, t, ht, hrows, hrenamed⟩ := migrated_rows hfresh h
    refine ⟨t, ht, ⟨t.table.rows, .refl _, ?_, ?_⟩, hrenamed, t.table.appendsAfter⟩
    · have hsorted := h.sorted
      rw [← seqs_legacyRows first lines 0 firstSeq, ← hrows] at hsorted
      exact List.pairwise_map.mp hsorted
    · rw [hrows]
      exact legacyRows_hold first lines 0 firstSeq

/-! ## Two files -/

def bareEvent (body : String) (seq : Option Whole) : LegacyEvent where
  eventId := none
  seq := seq
  ts := none
  event := some "heartbeat"
  agentId := none
  runId := none
  taskRef := none
  body := body

def growingDraws (ts : String) : Draws where
  randomUUID line := String.ofList (List.replicate line 'u')
  toISOString _ := ts

theorem growingDraws_injective (ts : String) :
    Function.Injective (growingDraws ts).randomUUID := by
  intro a b h
  have hlists := congrArg List.length (String.ofList_injective h)
  rwa [List.length_replicate, List.length_replicate] at hlists

def spacedFile : List LegacyLine :=
  [.event (bareEvent "first" (some firstSeq)), .malformed,
    .event (bareEvent "second" none),
    .event (bareEvent "third" (some (.ofNat 4 (by decide))))]

theorem migrateJsonl_preserves_spaced :
    (∃ t, migrateAfterCrashes [growingDraws "2026-01-01T00:00:00.000Z"]
          (growingDraws "2026-01-01T00:01:00.000Z")
          (LegacyState.initial spacedFile) = .ok t ∧
        Preserved spacedFile t) ↔
      Migratable spacedFile :=
  migrateJsonl_preserves (by decide) fun d hd => by
    have hdraws : ∃ ts, d = growingDraws ts := by
      simp only [List.mem_cons, List.not_mem_nil, or_false] at hd
      rcases hd with rfl | rfl
      · exact ⟨_, rfl⟩
      · exact ⟨_, rfl⟩
    obtain ⟨ts, rfl⟩ := hdraws
    exact ⟨growingDraws_injective ts, fun _ => List.not_mem_nil⟩

example : Migratable spacedFile :=
  ⟨by decide, by decide, by decide, by decide, by decide, by decide, by decide,
    by decide, trivial⟩

/-- An event without a number takes number 1, and the event that carries it is
ignored. -/
theorem not_migrateJsonl_preserves :
    ¬ ∃ t, migrateAfterCrashes [] (growingDraws "2026-01-01T00:00:00.000Z")
          (LegacyState.initial [.event (bareEvent "first" none),
            .event (bareEvent "second" (some firstSeq))]) = .ok t ∧
        Preserved [.event (bareEvent "first" none),
          .event (bareEvent "second" (some firstSeq))] t := by
  rintro ⟨t, ht, hkeeps⟩
  obtain ⟨rows, hperm, -, hholds⟩ := hkeeps.rows
  have hstored : t.table.rows.length = 1 := by
    rw [← Except.ok.inj ht]
    decide
  have hlength := hholds.length_eq
  rw [hperm.length_eq, hstored] at hlength
  exact absurd hlength (by decide)

end OrcState.Store
