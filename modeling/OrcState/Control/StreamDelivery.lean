import OrcState.Control.Stream
import OrcState.Foundation.Sweep

/-!
# What a subscriber of the event stream receives

The frames written so far are the rows between the start of the subscription and
the cursor, and the batch in hand is the beginning of what lies behind it.  A
`pump` whose writes are accepted leaves no row behind it that was stored at its
last read, and it ends, since each row is written once.
-/

namespace OrcState.Control

open OrcState.Contract OrcState.Cursor OrcState.Foundation

variable {dates : DateApi} {heartbeatMs : Int} {s t : Stream}

/-! ## Frames and rows -/

@[simp] theorem eventFrames_write_event (row : EventBatchRow) (now : Int) :
    (s.write (.event row) now).eventFrames = s.eventFrames ++ [row] := by
  simp [Stream.eventFrames, Stream.write]

@[simp] theorem eventFrames_write_heartbeat (cursor : Nat) (now : Int) :
    (s.write (.heartbeat cursor) now).eventFrames = s.eventFrames := by
  simp [Stream.eventFrames, Stream.write]

theorem readRow_event_eq_none {row : EventRow} :
    (readRow dates row).event = none ↔ Skipped dates row := by
  simp only [readRow, parseEventRow, Option.filter_filter,
    Option.filter_eq_none_iff, Skipped, Option.mem_def]
  refine forall_congr' fun stored => imp_congr_right fun _ => ?_
  simp only [Bool.and_eq_true, decide_eq_true_eq, not_and_or, not_not]
  tauto

theorem rowsBetween_eq (log : EventLog) (after cursor : Nat) :
    rowsBetween dates log after cursor =
      ((log.rows.filter fun row => row.seq ≤ cursor).filter fun row =>
        after < row.seq).map (readRow dates) := by
  rw [rowsBetween, List.filter_filter]
  congr 2
  funext row
  simp only [Bool.decide_and]

theorem mem_rowsBetween {log : EventLog} {after cursor : Nat}
    {b : EventBatchRow} (h : b ∈ rowsBetween dates log after cursor) :
    ∃ row ∈ log.rows, readRow dates row = b := by
  obtain ⟨row, hrow, rfl⟩ := List.mem_map.mp h
  exact ⟨row, (List.mem_filter.mp hrow).1, rfl⟩

theorem rowsBetween_sorted (log : EventLog) (after cursor : Nat) :
    ((rowsBetween dates log after cursor).map EventBatchRow.seq).Pairwise
      (· < ·) := by
  have hseq : (rowsBetween dates log after cursor).map EventBatchRow.seq =
      (log.rows.filter fun row => after < row.seq ∧ row.seq ≤ cursor).map
        EventRow.seq := by
    rw [rowsBetween, List.map_map]
    rfl
  rw [hseq]
  exact log.sorted.sublist (List.filter_sublist.map EventRow.seq)

theorem readEventBatch_cons {log : EventLog} {after cursor : Nat}
    {row : EventBatchRow} {rest : List EventBatchRow} {n : Nat}
    (hafter : after ≤ cursor)
    (h : row :: rest = readEventBatch dates log cursor (n + 1)) :
    cursor < row.seq ∧ row.seq ∈ log.seqs ∧
      rest = readEventBatch dates log row.seq n ∧
      unread log cursor = unread log row.seq + 1 ∧
      rowsBetween dates log after row.seq =
        rowsBetween dates log after cursor ++ [row] := by
  cases hpast : log.rows.filter fun r => cursor < r.seq with
  | nil => simp [readEventBatch, hpast] at h
  | cons r rs =>
      obtain ⟨hlt, hupto, hpast'⟩ := sorted_advance log.sorted hpast
      rw [readEventBatch, hpast, List.take_succ_cons, List.map_cons] at h
      obtain ⟨rfl, rfl⟩ := List.cons.inj h
      have hr : r ∈ log.rows := by
        have hmem : r ∈ log.rows.filter fun r => cursor < r.seq :=
          hpast ▸ List.mem_cons_self
        exact (List.mem_filter.mp hmem).1
      refine ⟨hlt, List.mem_map_of_mem hr, ?_, ?_, ?_⟩
      · rw [readEventBatch]
        exact congrArg (fun l => (l.take n).map (readRow dates)) hpast'.symm
      · rw [unread, hpast, List.length_cons]
        exact congrArg (fun l => List.length l + 1) hpast'.symm
      · have hkeep : (after < r.seq) := by omega
        rw [rowsBetween_eq, rowsBetween_eq]
        change ((log.rows.filter fun y => y.seq ≤ r.seq).filter _).map _ = _
        rw [hupto, List.filter_append, List.map_append]
        simp [hkeep]

theorem readEventBatch_append {log log' : EventLog} {row : EventRow}
    (h : log.append? row = some log') {cursor n : Nat}
    (hn : n ≤ (readEventBatch dates log cursor n).length) :
    readEventBatch dates log' cursor n = readEventBatch dates log cursor n := by
  obtain ⟨-, -, hrows⟩ := EventLog.append?_eq_some h
  rw [readEventBatch, List.length_map, List.length_take] at hn
  rw [readEventBatch, hrows, List.filter_append,
    List.take_append_of_le_length (by omega), readEventBatch]

theorem unread_append {log log' : EventLog} {row : EventRow}
    (h : log.append? row = some log') (cursor : Nat) :
    unread log' cursor ≤ unread log cursor + 1 := by
  obtain ⟨-, -, hrows⟩ := EventLog.append?_eq_some h
  rw [unread, hrows, List.filter_append, List.length_append]
  exact Nat.add_le_add_left (List.length_filter_le _ _) _

theorem rowsBetween_append {log log' : EventLog} {row : EventRow}
    (h : log.append? row = some log') {after cursor : Nat}
    (hcursor : cursor = after ∨ cursor ∈ log.seqs) :
    rowsBetween dates log' after cursor = rowsBetween dates log after cursor := by
  obtain ⟨-, hfresh, hrows⟩ := EventLog.append?_eq_some h
  have hdrop : ¬ (after < row.seq ∧ row.seq ≤ cursor) := by
    rcases hcursor with rfl | hmem
    · omega
    · have := hfresh cursor hmem
      omega
  rw [rowsBetween, hrows, List.filter_append, List.filter_cons,
    decide_eq_false hdrop]
  simp [rowsBetween]

/-! ## The invariant -/

structure Inv (dates : DateApi) (s : Stream) : Prop where
  ahead : s.after ≤ s.cursor
  place : s.cursor = s.after ∨ s.cursor ∈ s.log.seqs
  frames : s.eventFrames = rowsBetween dates s.log s.after s.cursor
  batch : ∀ rest full, s.pump = .writing rest full →
    rest = readEventBatch dates s.log s.cursor rest.length

namespace Inv

theorem subscribe (log : EventLog) (after : Nat) (now : Int) :
    Inv dates (subscribe log after now) := by
  refine ⟨Nat.le_refl _, .inl rfl, ?_, fun _ _ h => by cases h⟩
  change [] = rowsBetween dates log after after
  rw [rowsBetween, List.filter_eq_nil_iff.mpr]
  · rfl
  · intro row _
    simp only [decide_eq_true_eq]
    omega

theorem rest (h : Inv dates s) (hlog : t.log = s.log)
    (hafter : t.after = s.after) (hcursor : t.cursor = s.cursor)
    (hframes : t.eventFrames = s.eventFrames)
    (hpump : ∀ rest full, t.pump ≠ .writing rest full) : Inv dates t := by
  constructor
  · rw [hafter, hcursor]
    exact h.ahead
  · rw [hafter, hcursor, hlog]
    exact h.place
  · rw [hframes, hlog, hafter, hcursor]
    exact h.frames
  · intro rest full hrest
    exact absurd hrest (hpump rest full)

theorem startPump (h : Inv dates s) : Inv dates s.startPump := by
  unfold Stream.startPump
  split
  · exact h
  · exact h.rest rfl rfl rfl rfl (by simp)

theorem append {row : EventRow} {log : EventLog} (h : Inv dates s)
    (hlog : s.log.append? row = some log) :
    Inv dates { s with log := log } := by
  obtain ⟨-, -, hrows⟩ := EventLog.append?_eq_some hlog
  refine ⟨h.ahead, ?_, ?_, ?_⟩
  · refine h.place.imp_right fun hmem => ?_
    rw [EventLog.seqs, hrows, List.map_append]
    exact List.mem_append_left _ hmem
  · exact h.frames.trans (rowsBetween_append hlog h.place).symm
  · intro rest full hrest
    have hbatch := h.batch rest full hrest
    refine hbatch.trans (readEventBatch_append hlog ?_).symm
    exact Nat.le_of_eq (congrArg List.length hbatch)

theorem read (h : Inv dates s) : Inv dates (s.read dates) := by
  refine ⟨h.ahead, h.place, h.frames, fun rest full hrest => ?_⟩
  simp only [Stream.read, Pump.writing.injEq] at hrest
  obtain ⟨rfl, -⟩ := hrest
  simp only [Stream.read, readEventBatch, List.length_map, List.length_take]
  rw [List.take_eq_take_min]

theorem writeRow {row : EventBatchRow} {rest : List EventBatchRow}
    {full accepted : Bool} {now : Int} (h : Inv dates s)
    (hpump : s.pump = .writing (row :: rest) full) :
    Inv dates (s.writeRow row rest full accepted now) := by
  obtain ⟨hlt, hmem, hrest, -, hrows⟩ :=
    readEventBatch_cons h.ahead (h.batch _ _ hpump)
  have hframes : (({ s with cursor := row.seq }).write (.event row)
      now).eventFrames = rowsBetween dates s.log s.after row.seq := by
    rw [eventFrames_write_event, hrows, ← h.frames]
    rfl
  have hahead : s.after ≤ row.seq := by
    have := h.ahead
    omega
  cases accepted with
  | true =>
      refine ⟨hahead, .inr hmem, hframes, fun rest' full' heq => ?_⟩
      obtain ⟨rfl, rfl⟩ := Pump.writing.inj heq
      exact hrest
  | false =>
      exact ⟨hahead, .inr hmem, hframes, fun _ _ heq => by cases heq⟩

theorem finish {now : Int} (h : Inv dates s) :
    Inv dates (s.finish heartbeatMs now) := by
  unfold Stream.finish
  split
  · exact h.rest rfl rfl rfl (eventFrames_write_heartbeat s.cursor now)
      (by simp)
  · exact h.rest rfl rfl rfl rfl (by simp)

theorem step {l : StreamLabel} (h : Inv dates s)
    (hstep : streamStep dates heartbeatMs s l = some t) : Inv dates t := by
  cases l with
  | append row =>
      obtain ⟨log, hlog, rfl⟩ := Option.map_eq_some_iff.mp hstep
      exact h.append hlog
  | timer =>
      simp only [streamStep, Option.ite_none_right_eq_some,
        Option.some.injEq] at hstep
      obtain ⟨-, rfl⟩ := hstep
      exact h.startPump
  | drain =>
      simp only [streamStep, Option.ite_none_right_eq_some,
        Option.some.injEq] at hstep
      obtain ⟨⟨hidle, -⟩, rfl⟩ := hstep
      exact startPump (h.rest rfl rfl rfl rfl (by simp [hidle]))
  | read =>
      simp only [streamStep, Option.ite_none_right_eq_some,
        Option.some.injEq] at hstep
      obtain ⟨-, rfl⟩ := hstep
      exact h.read
  | fail =>
      simp only [streamStep, Option.ite_none_right_eq_some,
        Option.some.injEq] at hstep
      obtain ⟨-, rfl⟩ := hstep
      exact h.rest rfl rfl rfl rfl (by simp)
  | write accepted now =>
      simp only [streamStep] at hstep
      split at hstep
      · rename_i row rest full hpump
        cases hstep
        exact h.writeRow hpump
      · cases hstep
  | finish now =>
      simp only [streamStep] at hstep
      split at hstep
      · cases hstep
        exact h.rest rfl rfl rfl rfl (by simp)
      · cases hstep
        exact h.finish
      · cases hstep
  | close =>
      simp only [streamStep, Option.ite_none_right_eq_some,
        Option.some.injEq] at hstep
      obtain ⟨hidle, rfl⟩ := hstep
      exact h.rest rfl rfl rfl rfl (by simp [hidle])

theorem reachable (h : (eventStream dates heartbeatMs).Reachable s) :
    Inv dates s := by
  refine h.invariant ?_ fun _ _ _ hI hstep => hI.step hstep
  rintro s ⟨log, after, now, rfl⟩
  exact subscribe log after now

end Inv

/-! ## The work of one `pump` -/

/-- An upper bound on the steps that a `pump` has yet to take. -/
def Stream.work (s : Stream) : Nat :=
  match s.pump with
  | .idle => 0
  | .reading => 3 * unread s.log s.cursor + 2
  | .writing [] full => 3 * unread s.log s.cursor + if full then 3 else 1
  | .writing (_ :: _) _ => 3 * unread s.log s.cursor + 1

theorem Stream.work_le : s.work ≤ 3 * unread s.log s.cursor + 3 := by
  unfold Stream.work
  split
  · omega
  · omega
  · split <;> omega
  · omega

/-- Each step of the `pump` uses up work, and each new row adds a little. -/
theorem work_step {l : StreamLabel} (h : Inv dates s) (hflows : l.flows = true)
    (hstep : streamStep dates heartbeatMs s l = some t) :
    (if l.isPump then 1 else 0) + t.work ≤
      s.work + 3 * if l.isAppend then 1 else 0 := by
  cases l with
  | append row =>
      obtain ⟨log, hlog, rfl⟩ := Option.map_eq_some_iff.mp hstep
      have := unread_append hlog s.cursor
      simp only [StreamLabel.isPump, StreamLabel.isAppend, Stream.work,
        Bool.false_eq_true, if_false, if_true]
      split <;> omega
  | read =>
      simp only [streamStep, Option.ite_none_right_eq_some,
        Option.some.injEq] at hstep
      obtain ⟨hreading, rfl⟩ := hstep
      have hwork : s.work = 3 * unread s.log s.cursor + 2 := by
        rw [Stream.work, hreading]
      have hnext : (s.read dates).work = 3 * unread s.log s.cursor + 1 := by
        cases hrows : readEventBatch dates s.log s.cursor STREAM_BATCH_SIZE with
        | nil => simp only [Stream.work, Stream.read, hrows]; rfl
        | cons row rest => simp only [Stream.work, Stream.read, hrows]
      simp only [StreamLabel.isPump, StreamLabel.isAppend, hwork, hnext,
        Bool.false_eq_true, if_false, if_true]
      omega
  | write accepted now =>
      simp only [streamStep] at hstep
      split at hstep
      · rename_i row rest full hpump
        cases hstep
        obtain rfl : accepted = true := by
          cases accepted with
          | true => rfl
          | false => cases hflows
        obtain ⟨-, -, -, hunread, -⟩ :=
          readEventBatch_cons h.ahead (h.batch _ _ hpump)
        have hwork : s.work = 3 * unread s.log s.cursor + 1 := by
          rw [Stream.work, hpump]
        have hnext : (s.writeRow row rest full true now).work ≤
            3 * unread s.log row.seq + 3 := Stream.work_le
        simp only [StreamLabel.isPump, StreamLabel.isAppend, hwork,
          Bool.false_eq_true, if_false, if_true]
        omega
      · cases hstep
  | finish now =>
      simp only [streamStep] at hstep
      split at hstep
      · rename_i hpump
        cases hstep
        simp only [StreamLabel.isPump, StreamLabel.isAppend, Stream.work, hpump,
          Bool.false_eq_true, if_false, if_true]
        omega
      · rename_i hpump
        cases hstep
        have hidle : (s.finish heartbeatMs now).work = 0 := by
          unfold Stream.finish
          split <;> rfl
        rw [hidle]
        simp only [StreamLabel.isPump, StreamLabel.isAppend, Stream.work, hpump,
          Bool.false_eq_true, if_false, if_true]
        omega
      · cases hstep
  | timer => cases hflows
  | drain => cases hflows
  | fail => cases hflows
  | close => cases hflows

theorem work_run {ls : List StreamLabel} (h : Inv dates s)
    (hflows : ∀ l ∈ ls, l.flows = true)
    (hrun : (eventStream dates heartbeatMs).run s ls = some t) :
    ls.countP StreamLabel.isPump + t.work ≤
      s.work + 3 * ls.countP StreamLabel.isAppend := by
  induction ls generalizing s with
  | nil =>
      cases hrun
      simp
  | cons l rest ih =>
      obtain ⟨m, hm, hrest⟩ := System.run_cons _ hrun
      have hone := work_step h (hflows l List.mem_cons_self) hm
      have htail := ih (h.step hm)
        (fun l' hl' => hflows l' (List.mem_cons_of_mem l hl')) hrest
      rw [List.countP_cons, List.countP_cons]
      omega

/-! ## What one `pump` reaches -/

/-- A row stored at the last read is behind the cursor or in the batch. -/
def Stream.Reaches (s : Stream) (seq : Nat) : Prop :=
  match s.pump with
  | .idle => seq ≤ s.cursor
  | .reading => True
  | .writing rest full =>
      full = true ∨ seq ≤ s.cursor ∨ seq ∈ rest.map EventBatchRow.seq

theorem reaches_read {seq : Nat} (h : seq ∈ s.log.seqs) :
    (s.read dates).Reaches seq := by
  simp only [Stream.Reaches, Stream.read, decide_eq_true_eq]
  by_cases hfull : STREAM_BATCH_SIZE ≤
      (readEventBatch dates s.log s.cursor STREAM_BATCH_SIZE).length
  · exact .inl hfull
  by_cases hpast : seq ≤ s.cursor
  · exact .inr (.inl hpast)
  -- A short batch is all that lies behind the cursor.
  refine .inr (.inr ?_)
  rw [readEventBatch, List.length_map, List.length_take] at hfull
  rw [seqs_readEventBatch, List.take_of_length_le]
  · exact List.mem_filter.mpr ⟨h, decide_eq_true (by omega)⟩
  · rw [EventLog.seqs, List.filter_map, List.length_map]
    change (s.log.rows.filter fun row => s.cursor < row.seq).length ≤ _
    omega

theorem reaches_step {l : StreamLabel} {seq : Nat} (h : Inv dates s)
    (hflows : l.flows = true) (hseq : seq ∈ s.log.seqs) (hs : s.Reaches seq)
    (hstep : streamStep dates heartbeatMs s l = some t) :
    seq ∈ t.log.seqs ∧ t.Reaches seq := by
  cases l with
  | append row =>
      obtain ⟨log, hlog, rfl⟩ := Option.map_eq_some_iff.mp hstep
      obtain ⟨-, -, hrows⟩ := EventLog.append?_eq_some hlog
      refine ⟨?_, hs⟩
      rw [EventLog.seqs, hrows, List.map_append]
      exact List.mem_append_left _ hseq
  | read =>
      simp only [streamStep, Option.ite_none_right_eq_some,
        Option.some.injEq] at hstep
      obtain ⟨-, rfl⟩ := hstep
      exact ⟨hseq, reaches_read hseq⟩
  | write accepted now =>
      simp only [streamStep] at hstep
      split at hstep
      · rename_i row rest full hpump
        cases hstep
        obtain rfl : accepted = true := by
          cases accepted with
          | true => rfl
          | false => cases hflows
        obtain ⟨hlt, -⟩ := readEventBatch_cons h.ahead (h.batch _ _ hpump)
        simp only [Stream.Reaches, hpump] at hs
        refine ⟨hseq, ?_⟩
        change full = true ∨ seq ≤ row.seq ∨ seq ∈ rest.map EventBatchRow.seq
        rcases hs with hfull | hle | hmem
        · exact .inl hfull
        · exact .inr (.inl (by omega))
        · rcases List.mem_cons.mp hmem with rfl | hmem
          · exact .inr (.inl (Nat.le_refl _))
          · exact .inr (.inr hmem)
      · cases hstep
  | finish now =>
      simp only [streamStep] at hstep
      split at hstep
      · cases hstep
        exact ⟨hseq, trivial⟩
      · rename_i hpump
        cases hstep
        simp only [Stream.Reaches, hpump, Bool.false_eq_true, List.map_nil,
          List.not_mem_nil, or_false, false_or] at hs
        unfold Stream.finish
        split <;> exact ⟨hseq, hs⟩
      · cases hstep
  | timer => cases hflows
  | drain => cases hflows
  | fail => cases hflows
  | close => cases hflows

theorem reaches_run {ls : List StreamLabel} {seq : Nat} (h : Inv dates s)
    (hflows : ∀ l ∈ ls, l.flows = true) (hseq : seq ∈ s.log.seqs)
    (hs : s.Reaches seq)
    (hrun : (eventStream dates heartbeatMs).run s ls = some t) :
    t.Reaches seq := by
  have hkept : seq ∈ t.log.seqs ∧ t.Reaches seq :=
    System.along_preserves (I := Inv dates)
      (P := fun u => seq ∈ u.log.seqs ∧ u.Reaches seq)
      (fun _ _ _ hI hstep => hI.step hstep)
      (fun _ _ _ hI hP hok hstep => reaches_step hI hok hP.1 hP.2 hstep)
      h ⟨hseq, hs⟩ (System.along_of_run (fun l hl _ => hflows l hl) hrun) hrun
  exact hkept.2

/-! ## Delivery -/

structure Delivered (dates : DateApi) (s : Stream) : Prop where
  frames : s.eventFrames = rowsBetween dates s.log s.after s.cursor
  increasing : (s.eventFrames.map EventBatchRow.seq).Pairwise (· < ·)
  nulls : ∀ f ∈ s.eventFrames, ∃ row ∈ s.log.rows, row.seq = f.seq ∧
    (f.event = none ↔ Skipped dates row)

theorem Inv.delivered (h : Inv dates s) : Delivered dates s := by
  refine ⟨h.frames, ?_, fun f hf => ?_⟩
  · rw [h.frames]
    exact rowsBetween_sorted s.log s.after s.cursor
  · rw [h.frames] at hf
    obtain ⟨row, hrow, rfl⟩ := mem_rowsBetween hf
    exact ⟨row, hrow, rfl, readRow_event_eq_none⟩

/--
While the socket accepts writes a `pump` is never stuck, ends after at most a
few steps for each row, and then has passed every row that was stored when it
last read.
-/
structure CatchesUp (dates : DateApi) (heartbeatMs : Int) (s : Stream) :
    Prop where
  starts : s.pump = .idle → s.draining = false → s.destroyed = false →
    ∃ t, streamStep dates heartbeatMs s .timer = some t ∧ t.pump = .reading
  resumes : s.pump = .idle → s.draining = true → s.destroyed = false →
    ∃ t, streamStep dates heartbeatMs s .drain = some t ∧ t.pump = .reading
  proceeds : s.pump ≠ .idle → ∃ l t, l.isPump = true ∧ l.flows = true ∧
    streamStep dates heartbeatMs s l = some t
  ends : ∀ ls t, (∀ l ∈ ls, StreamLabel.flows l = true) →
    (eventStream dates heartbeatMs).run s ls = some t →
    ls.countP StreamLabel.isPump ≤
      3 * (unread s.log s.cursor + ls.countP StreamLabel.isAppend) + 3
  complete : s.pump = .reading → ∀ ls t,
    (∀ l ∈ ls, StreamLabel.flows l = true) →
    (eventStream dates heartbeatMs).run s ls = some t → t.pump = .idle →
    ∀ seq ∈ s.log.seqs, seq ≤ t.cursor

theorem Inv.catchesUp (h : Inv dates s) : CatchesUp dates heartbeatMs s := by
  constructor
  · intro hidle hdraining hopen
    refine ⟨{ s with pump := .reading }, ?_, rfl⟩
    simp [streamStep, hidle, Stream.startPump, hdraining, hopen]
  · intro hidle hdraining hopen
    refine ⟨{ s with draining := false, pump := .reading }, ?_, rfl⟩
    simp [streamStep, hidle, Stream.startPump, hdraining, hopen]
  · intro hbusy
    cases hpump : s.pump with
    | idle => exact absurd hpump hbusy
    | reading =>
        exact ⟨.read, _, rfl, rfl, by rw [streamStep, if_pos hpump]⟩
    | writing rest full =>
        cases rest with
        | nil =>
            cases full with
            | true =>
                refine ⟨.finish 0, { s with pump := .reading }, rfl, rfl, ?_⟩
                simp only [streamStep, hpump]
            | false =>
                refine ⟨.finish 0, s.finish heartbeatMs 0, rfl, rfl, ?_⟩
                simp only [streamStep, hpump]
        | cons row rest =>
            refine ⟨.write true 0, s.writeRow row rest full true 0, rfl, rfl, ?_⟩
            simp only [streamStep, hpump]
  · intro ls t hflows hrun
    have hwork := work_run h hflows hrun
    have hle : s.work ≤ _ := Stream.work_le
    omega
  · intro hreading ls t hflows hrun hidle seq hseq
    have hs : s.Reaches seq := by
      rw [Stream.Reaches, hreading]
      trivial
    have ht := reaches_run h hflows hseq hs hrun
    rw [Stream.Reaches, hidle] at ht
    exact ht

/--
At every moment a subscriber has been sent exactly the rows between its start
and the cursor, and the stream catches up while the socket accepts writes.
-/
theorem stream_delivers (h : (eventStream dates heartbeatMs).Reachable s) :
    Delivered dates s ∧ CatchesUp dates heartbeatMs s :=
  ⟨(Inv.reachable h).delivered, (Inv.reachable h).catchesUp⟩

/-! A row that does not decode, a socket that refuses its frame, and a row
appended before `drain`. -/

def heartbeatRow (seq : Nat) : EventRow where
  seq := seq
  eventId := ""
  payload := some
    { eventId := none
      event :=
        { seq := seq, ts := "2026-01-01T00:00:00Z", event := .heartbeat
          actorType := .agent, actorId := "worker", agentId := some "worker" } }

def slowSubscriber : Stream :=
  subscribe ⟨[⟨3, "", none⟩, heartbeatRow 5], by decide⟩ 2 0

def refusedThenDrained : List StreamLabel :=
  [.read, .write false 1, .append (heartbeatRow 6), .timer, .drain, .read,
   .write true 2, .write true 2, .finish 3]

theorem stream_delivers_refused :
    ∃ t, (eventStream .epoch 10000).run slowSubscriber refusedThenDrained =
        some t ∧
      (t.eventFrames.map EventBatchRow.seq, t.cursor) = ([3, 5, 6], 6) ∧
      Delivered .epoch t ∧ CatchesUp .epoch 10000 t := by
  obtain ⟨t, ht, hdone⟩ := (eventStream .epoch 10000).exists_run_of_map
    (f := fun t => (t.eventFrames.map EventBatchRow.seq, t.cursor))
    (by decide +kernel :
      ((eventStream .epoch 10000).run slowSubscriber refusedThenDrained).map
        (fun t => (t.eventFrames.map EventBatchRow.seq, t.cursor)) =
          some ([3, 5, 6], 6))
  refine ⟨t, ht, hdone, stream_delivers (System.Reachable.run ?_ ht)⟩
  exact System.Reachable.initial ⟨_, 2, 0, rfl⟩

end OrcState.Control
