import OrcState.Contract.Event
import Mathlib.Data.List.Nodup
import Mathlib.Order.Basic

/-!
# The event log as the coordinator reads it

Rows of the `events` table, the bounded batch read, and the operations on the
stored offset.  The payload of a row is what `JSON.parse` made of it, `none`
when it made nothing.  The sequence number of the table is authoritative: a
payload that carries another one is skipped.
-/

namespace OrcState.Cursor

open OrcState.Contract

/-! ## Rows -/

structure StoredEvent where
  eventId : Option String
  event : OrcEvent
  deriving DecidableEq, Repr

structure EventRow where
  seq : Nat
  eventId : String
  payload : Option StoredEvent
  deriving DecidableEq, Repr

structure EventLog where
  rows : List EventRow
  sorted : (rows.map EventRow.seq).Pairwise (· < ·)
  deriving DecidableEq, Repr

def EventLog.seqs (log : EventLog) : List Nat := log.rows.map EventRow.seq

def EventLog.append? (log : EventLog) (row : EventRow) : Option EventLog :=
  if h : 0 < row.seq ∧ ∀ k ∈ log.seqs, k < row.seq then
    some
      { rows := log.rows ++ [row]
        sorted := by
          rw [List.map_append, List.pairwise_append]
          refine ⟨log.sorted, List.pairwise_singleton _ _, ?_⟩
          intro a ha b hb
          simp only [List.map_cons, List.map_nil, List.mem_singleton] at hb
          rw [hb]
          exact h.2 a ha }
  else none

theorem EventLog.append?_eq_some {log log' : EventLog} {row : EventRow}
    (h : log.append? row = some log') :
    0 < row.seq ∧ (∀ k ∈ log.seqs, k < row.seq) ∧
      log'.rows = log.rows ++ [row] := by
  unfold append? at h
  split at h
  · rename_i hfresh
    cases h
    exact ⟨hfresh.1, hfresh.2, rfl⟩
  · cases h

theorem EventLog.eq_of_seq {log : EventLog} {r r' : EventRow}
    (hr : r ∈ log.rows) (hr' : r' ∈ log.rows) (h : r.seq = r'.seq) :
    r = r' := by
  have hnodup : (log.rows.map EventRow.seq).Nodup :=
    log.sorted.imp fun hlt => Nat.ne_of_lt hlt
  exact List.inj_on_of_nodup_map hnodup hr hr' h

variable (dates : DateApi)

/-- `parseEventRow` with validation. -/
def parseEventRow (row : EventRow) : Option StoredEvent :=
  row.payload.filter fun stored =>
    validateEventObject dates stored.event = [] && stored.eventId ≠ some ""

structure EventBatchRow where
  seq : Nat
  event : Option StoredEvent
  deriving DecidableEq, Repr

def readRow (row : EventRow) : EventBatchRow where
  seq := row.seq
  event := (parseEventRow dates row).filter fun stored =>
    stored.event.seq = row.seq

def EVENT_BATCH_SIZE : Nat := 128

def readEventBatch (log : EventLog) (afterSeq limit : Nat) :
    List EventBatchRow :=
  ((log.rows.filter fun row => afterSeq < row.seq).take limit).map
    (readRow dates)

/-- The coordinator handles this row; the others it steps over. -/
def ValidRow (row : EventRow) : Prop := (readRow dates row).event.isSome = true

/-! ## Identity -/

def legacySeqId (seq : Nat) : String := "legacy:seq:" ++ toString seq

def eventIdentity (stored : StoredEvent) : String :=
  match stored.eventId with
  | some id => if id = "" then legacySeqId stored.event.seq else id
  | none => legacySeqId stored.event.seq

/-! ## The legacy checkpoint -/

structure EventProcessingCheckpoint where
  lastProcessedSeq : Nat
  processedEventIds : List String
  deriving DecidableEq, Repr

/-- `event-checkpoint.json`, which nothing writes any more. -/
inductive LegacyFile where
  | absent
  | invalid
  | checkpoint (cp : EventProcessingCheckpoint)
  deriving DecidableEq, Repr

/--
The row is in the processed set of the checkpoint's prefix: by the id of its
column, by its sequence number, or by the identity of its payload.
-/
def LegacyProcessed (legacy : LegacyFile) (row : EventRow) : Prop :=
  match legacy with
  | .checkpoint cp =>
      row.seq ≤ cp.lastProcessedSeq ∧
        (row.eventId ∈ cp.processedEventIds ∨
          legacySeqId row.seq ∈ cp.processedEventIds ∨
          ∃ stored, (readRow dates row).event = some stored ∧
            eventIdentity stored ∈ cp.processedEventIds)
  | _ => False

def importPrefix (cp : EventProcessingCheckpoint) :
    List EventRow → Nat → Nat
  | [], cursor => cursor
  | row :: rest, cursor =>
      if row.eventId ∉ cp.processedEventIds ∧
          legacySeqId row.seq ∉ cp.processedEventIds then cursor
      else importPrefix cp rest row.seq

/-! ## The stored offset -/

def initializeEventOffset (legacy : LegacyFile) (log : EventLog)
    (offset : Option Nat) : Except DomainError Nat :=
  match offset with
  | some current => .ok current
  | none =>
      match legacy with
      | .absent => .ok 0
      | .invalid =>
          .error (plainError "event-checkpoint.json: version must be \"1\"")
      | .checkpoint cp =>
          .ok (importPrefix cp
            (log.rows.filter fun row => row.seq ≤ cp.lastProcessedSeq) 0)

def readEventOffset (offset : Option Nat) : Nat := offset.getD 0

def advanceEventOffset (offset : Option Nat) (expectedSeq nextSeq : Nat) :
    Except DomainError Nat :=
  if nextSeq < expectedSeq then
    .error (plainError "Event offset cannot move backwards")
  else if offset = some expectedSeq then .ok nextSeq
  else
    .error (plainError
      "Event offset changed concurrently or was not initialized")

def resetEventOffset (offset : Option Nat) (seq : Nat) :
    Except DomainError Nat :=
  match offset with
  | none => .error (plainError "Event offset is not initialized")
  | some current =>
      if current < seq then
        .error (plainError "Recovery reset cannot skip pending events")
      else .ok seq

def legacyHas (legacy : LegacyFile) (stored : StoredEvent) (seq : Nat) :
    Bool :=
  match legacy with
  | .checkpoint cp =>
      seq ≤ cp.lastProcessedSeq &&
        cp.processedEventIds.contains (eventIdentity stored)
  | _ => false

/-! ## What the reads find -/

variable {dates}

theorem ValidRow.seq_pos {row : EventRow} (h : ValidRow dates row) :
    0 < row.seq := by
  obtain ⟨stored, hstored⟩ := Option.isSome_iff_exists.mp h
  simp only [readRow, Option.filter_eq_some_iff, decide_eq_true_eq,
    parseEventRow, Bool.and_eq_true] at hstored
  obtain ⟨⟨-, hvalid, -⟩, hseq⟩ := hstored
  rw [← hseq]
  simp only [validateEventObject, List.append_eq_nil_iff] at hvalid
  have hschema := hvalid.1
  simp only [validateSchema, List.append_eq_nil_iff] at hschema
  have hmin := hschema.1.1.1.1
  by_contra hzero
  simp [complainIf, show stored.event.seq = 0 by omega] at hmin

theorem seqs_readEventBatch (log : EventLog) (afterSeq limit : Nat) :
    (readEventBatch dates log afterSeq limit).map EventBatchRow.seq =
      (log.seqs.filter fun k => afterSeq < k).take limit := by
  rw [readEventBatch, List.map_map, EventLog.seqs, List.filter_map,
    ← List.map_take]
  rfl

theorem mem_readEventBatch {log : EventLog} {afterSeq limit : Nat}
    {b : EventBatchRow} (h : b ∈ readEventBatch dates log afterSeq limit) :
    ∃ row ∈ log.rows, readRow dates row = b := by
  obtain ⟨row, hrow, rfl⟩ := List.mem_map.mp h
  exact ⟨row, (List.mem_filter.mp (List.mem_of_mem_take hrow)).1, rfl⟩

theorem legacyProcessed_of_has {legacy : LegacyFile} {row : EventRow}
    {stored : StoredEvent} (hrow : (readRow dates row).event = some stored)
    (h : legacyHas legacy stored row.seq = true) :
    LegacyProcessed dates legacy row := by
  cases legacy with
  | absent => simp [legacyHas] at h
  | invalid => simp [legacyHas] at h
  | checkpoint cp =>
      simp only [legacyHas, Bool.and_eq_true, decide_eq_true_eq,
        List.contains_eq_mem] at h
      exact ⟨h.1, .inr (.inr ⟨stored, hrow, h.2⟩)⟩

/-- The imported cursor passes only rows of the processed set. -/
theorem importPrefix_spec (dates : DateApi) {cp : EventProcessingCheckpoint}
    {rows : List EventRow} {cursor : Nat}
    (hsorted : (rows.map EventRow.seq).Pairwise (· < ·))
    (hcursor : ∀ row ∈ rows, cursor ≤ row.seq)
    (hle : ∀ row ∈ rows, row.seq ≤ cp.lastProcessedSeq) :
    (∀ row ∈ rows, row.seq ≤ importPrefix cp rows cursor →
        LegacyProcessed dates (.checkpoint cp) row ∨ row.seq ≤ cursor) ∧
      (importPrefix cp rows cursor = cursor ∨
        ∃ row ∈ rows, importPrefix cp rows cursor = row.seq) := by
  induction rows generalizing cursor with
  | nil => simp [importPrefix]
  | cons row rest ih =>
      rw [List.map_cons, List.pairwise_cons] at hsorted
      obtain ⟨hhead, htail⟩ := hsorted
      have hrest : ∀ r ∈ rest, row.seq < r.seq := fun r hr =>
        hhead r.seq (List.mem_map.mpr ⟨r, hr, rfl⟩)
      rw [importPrefix]
      split
      · exact ⟨fun _ _ h => .inr h, .inl rfl⟩
      · rename_i hin
        have hrow : LegacyProcessed dates (.checkpoint cp) row := by
          refine ⟨hle row List.mem_cons_self, ?_⟩
          by_cases h : row.eventId ∈ cp.processedEventIds
          · exact .inl h
          · exact .inr (.inl (by simpa [h] using hin))
        obtain ⟨hcovered, hend⟩ := ih htail
          (fun r hr => Nat.le_of_lt (hrest r hr))
          (fun r hr => hle r (List.mem_cons_of_mem _ hr))
        refine ⟨fun r hr hle' => ?_, .inr ?_⟩
        · rcases List.mem_cons.mp hr with rfl | hr
          · exact .inl hrow
          · rcases hcovered r hr hle' with h | h
            · exact .inl h
            · have := hrest r hr
              omega
        · rcases hend with h | ⟨r, hr, h⟩
          · exact ⟨row, List.mem_cons_self, h⟩
          · exact ⟨r, List.mem_cons_of_mem _ hr, h⟩

end OrcState.Cursor
