import OrcState.Cursor.System

/-!
# The cursor neither skips nor repeats

One lemma a step of the event loop, and from them the four promises of the
cursor over every run: everything at or before the offset is done, a pass
handles events in order, the offset only grows between resets, and nothing at or
before it is begun again.
-/

namespace OrcState.Cursor

open OrcState.Contract OrcState.Foundation

variable {dates : DateApi} {legacy : LegacyFile} {s t : State}

/-! ## Moving the place alone -/

theorem InBatch.setPc {pending : List Nat} (h : InBatch dates legacy s pending)
    (pc : Pc) : InBatch dates legacy { s with pc := pc } pending :=
  ⟨h.done, h.stored, h.begun⟩

theorem Inv.setPc {pc : Pc} (hs : Inv dates legacy s)
    (hmid : s.pc.midTick = true ∨ pc.midTick = false)
    (hplace : Place dates legacy { s with pc := pc }) :
    Inv dates legacy { s with pc := pc } := by
  refine ⟨hs.logged, hs.covered, hs.passLogged, hs.passSorted, hs.passAhead,
    fun hpc => ?_, hplace⟩
  rcases hmid with h | h
  · exact hs.initialized h
  · rw [show pc.midTick = true from hpc] at h
    cases h

theorem Inv.leave {pc : Pc} (hs : Inv dates legacy s)
    (hpc : pc = .idle ∨ pc = .down) : Inv dates legacy (s.leave pc) := by
  have hmid : pc.midTick = false := by
    rcases hpc with rfl | rfl <;> rfl
  have hpass : ∀ k ∈ (s.leave pc).pass, s.replaying = false ∧ k ∈ s.pass := by
    intro k hk
    cases hr : s.replaying with
    | true => simp [State.leave, hr] at hk
    | false => exact ⟨rfl, by simpa [State.leave, hr] using hk⟩
  refine ⟨hs.logged, hs.covered, fun k hk => hs.passLogged k (hpass k hk).2,
    ?_, ?_, ?_, ?_⟩
  · change (if s.replaying then [] else s.pass).Pairwise (· ≤ ·)
    split
    · exact List.Pairwise.nil
    · exact hs.passSorted
  · intro _ k hk
    exact hs.passAhead (hpass k hk).1 k (hpass k hk).2
  · intro h
    change pc.midTick = true at h
    rw [hmid] at h
    cases h
  · rcases hpc with rfl | rfl <;> exact rfl

/-! ## What the rows say -/

theorem Done.mono {seq : Nat} (h : Done dates legacy s seq)
    (hlog : t.log = s.log) (hcompleted : ∀ k ∈ s.completed, k ∈ t.completed) :
    Done dates legacy t seq := by
  intro row hrow hseq hvalid
  rw [hlog] at hrow
  exact (h row hrow hseq hvalid).imp_left (hcompleted _)

theorem done_of_invalid {row : EventRow} (hrow : row ∈ s.log.rows)
    (h : (readRow dates row).event = none) :
    Done dates legacy s row.seq := by
  intro r hr hseq hvalid
  rw [EventLog.eq_of_seq hr hrow hseq] at hvalid
  simp [ValidRow, h] at hvalid

theorem StoredRow.seq {stored : StoredEvent} (h : StoredRow dates s stored) :
    ∃ row ∈ s.log.rows, (readRow dates row).event = some stored ∧
      stored.event.seq = row.seq := by
  obtain ⟨row, hrow, hstored⟩ := h
  refine ⟨row, hrow, hstored, ?_⟩
  simp only [readRow, Option.filter_eq_some_iff, decide_eq_true_eq]
    at hstored
  exact hstored.2

theorem done_of_legacy {stored : StoredEvent}
    (hstored : StoredRow dates s stored)
    (h : legacyHas legacy stored stored.event.seq = true) :
    Done dates legacy s stored.event.seq := by
  obtain ⟨row, hrow, hevent, hseq⟩ := hstored.seq
  intro r hr hrseq _
  rw [EventLog.eq_of_seq hr hrow (hrseq.trans hseq)]
  rw [hseq] at h
  exact .inr (legacyProcessed_of_has hevent h)

/-! ## Opening a tick -/

theorem initialize_spec {cursor : Nat} (hs : Inv dates legacy s)
    (h : initializeEventOffset legacy s.log s.offset = .ok cursor) :
    readEventOffset s.offset ≤ cursor ∧
      (s.offset.isSome = true → s.offset = some cursor) ∧
      (cursor = 0 ∨ ∃ k ∈ s.log.seqs, cursor ≤ k) ∧
      ∀ k ∈ s.log.seqs, k ≤ cursor → Done dates legacy s k := by
  cases hoffset : s.offset with
  | some current =>
      rw [hoffset] at h
      cases h
      have hlogged := hs.logged
      have hcovered := hs.covered
      rw [hoffset] at hlogged hcovered
      exact ⟨Nat.le_refl _, fun _ => rfl, hlogged, hcovered⟩
  | none =>
      rw [hoffset] at h
      have hzero : ∀ k ∈ s.log.seqs, k ≤ 0 → Done dates legacy s k := by
        intro k _ hk row _ hseq hvalid
        have := hvalid.seq_pos
        omega
      refine ⟨Nat.zero_le _, fun hsome => (by cases hsome), ?_⟩
      cases hlegacy : legacy with
      | absent =>
          rw [hlegacy] at h
          cases h
          exact ⟨.inl rfl, hlegacy ▸ hzero⟩
      | invalid =>
          rw [hlegacy] at h
          cases h
      | checkpoint cp =>
          rw [hlegacy] at h
          cases h
          have hsorted : ((s.log.rows.filter fun row =>
              decide (row.seq ≤ cp.lastProcessedSeq)).map
                EventRow.seq).Pairwise (· < ·) :=
            s.log.sorted.sublist (List.filter_sublist.map _)
          have hzero_le : ∀ row ∈ s.log.rows.filter fun row =>
              decide (row.seq ≤ cp.lastProcessedSeq), 0 ≤ row.seq :=
            fun _ _ => Nat.zero_le _
          obtain ⟨hpassed, hend⟩ := importPrefix_spec dates hsorted hzero_le
            (fun row hrow => by simpa using (List.mem_filter.mp hrow).2)
          constructor
          · rcases hend with h | ⟨row, hrow, h⟩
            · exact .inl h
            · refine .inr ⟨row.seq, ?_, Nat.le_of_eq h⟩
              exact List.mem_map.mpr
                ⟨row, (List.mem_filter.mp hrow).1, rfl⟩
          · intro k _ hle row hrow hseq hvalid
            have hmem : row ∈ s.log.rows.filter fun row =>
                decide (row.seq ≤ cp.lastProcessedSeq) := by
              refine List.mem_filter.mpr ⟨hrow, ?_⟩
              rcases hend with h | ⟨row', hrow', h⟩
              · have := hvalid.seq_pos
                omega
              · have := (List.mem_filter.mp hrow').2
                simp only [decide_eq_true_eq] at this ⊢
                omega
            rcases hpassed row hmem (by omega) with h | h
            · exact .inr h
            · have := hvalid.seq_pos
              omega

theorem Inv.setOffset {cursor : Nat} (hs : Inv dates legacy s)
    (h : initializeEventOffset legacy s.log s.offset = .ok cursor) :
    Inv dates legacy { s with offset := some cursor } := by
  obtain ⟨hge, hsame, hlogged, hcovered⟩ := initialize_spec hs h
  cases hoffset : s.offset with
  | some current =>
      have := hsame (by rw [hoffset]; rfl)
      rw [← this]
      exact hs
  | none =>
      have hmid : s.pc.midTick = false := by
        cases hpc : s.pc.midTick with
        | false => rfl
        | true =>
            have := hs.initialized hpc
            rw [hoffset] at this
            cases this
      refine ⟨hlogged, hcovered, hs.passLogged, hs.passSorted, ?_, ?_, ?_⟩
      · intro hr k hk n hn hlt
        exact hs.passAhead hr k hk n hn (Nat.lt_of_le_of_lt hge hlt)
      · intro _
        rfl
      · have hplace := hs.place
        cases hpc : s.pc <;> rw [hpc] at hmid <;> simp [Pc.midTick] at hmid
        all_goals
          simp only [Place, hpc] at hplace ⊢
          exact hplace

theorem Inv.openTick (hs : Inv dates legacy s) (hpc : s.pc = .idle) :
    Inv dates legacy (openTick legacy s) := by
  unfold Cursor.openTick
  split
  · exact hs
  · rename_i cursor h
    have hset := hs.setOffset h
    split
    · exact hset
    · obtain ⟨-, -, hlogged, hcovered⟩ := initialize_spec hs h
      have hreplaying : s.replaying = false := by
        have := hs.place
        simpa only [Place, hpc] using this
      refine ⟨hlogged, hcovered, hs.passLogged, hs.passSorted,
        hset.passAhead, fun _ => rfl, hcovered, hlogged, fun _ => rfl, ?_⟩
      exact hset.passAhead hreplaying

/-! ## Inside a tick -/

theorem Inv.readBatch {cursor : Nat} (hs : Inv dates legacy s)
    (hpc : s.pc = .read cursor) :
    Inv dates legacy { s with
      pc := .loop (readEventBatch dates s.log cursor EVENT_BATCH_SIZE) } := by
  have hplace := hs.place
  simp only [Place, hpc] at hplace
  obtain ⟨hdone, -, hoffset, hpass⟩ := hplace
  refine hs.setPc (.inl (by rw [hpc]; rfl)) ⟨?_, ?_⟩
  · rw [seqsOf, seqs_readEventBatch]
    refine ⟨Sweep.read s.log.sorted hdone _, fun hr => ?_, ?_⟩
    · refine Sweep.read s.log.sorted (fun k _ hk => ?_) _
      change k ≤ readEventOffset s.offset
      rw [hoffset hr]
      exact hk
    · intro k hk b hb
      obtain ⟨hb, hlt⟩ := List.mem_filter.mp (List.mem_of_mem_take hb)
      exact hpass k hk b hb (by simpa using hlt)
  · intro b hb
    exact mem_readEventBatch hb

theorem FromLog.tail {b : EventBatchRow} {rest : List EventBatchRow}
    (h : FromLog dates s (b :: rest)) : FromLog dates s rest :=
  fun c hc => h c (List.mem_cons_of_mem _ hc)

theorem Inv.takeRow {b : EventBatchRow} {rest : List EventBatchRow}
    (hs : Inv dates legacy s) (hpc : s.pc = .loop (b :: rest))
    (h : runStep dates legacy s = some t) : Inv dates legacy t := by
  have hplace := hs.place
  simp only [Place, hpc] at hplace
  obtain ⟨hbatch, hlog⟩ := hplace
  obtain ⟨row, hrow, hread⟩ := hlog b List.mem_cons_self
  have hseq : row.seq = b.seq := by rw [← hread]; rfl
  have hmid : s.pc.midTick = true := by rw [hpc]; rfl
  simp only [runStep, hpc] at h
  split at h
  · rename_i stored hstored
    cases h
    have hsr : StoredRow dates s stored := ⟨row, hrow, by rw [hread]; exact hstored⟩
    obtain ⟨row', hrow', hread', hseq'⟩ := hsr.seq
    have hsame : stored.event.seq = b.seq := by
      have hevent : (readRow dates row).event = some stored := by
        rw [hread]
        exact hstored
      simp only [readRow, Option.filter_eq_some_iff, decide_eq_true_eq]
        at hevent
      exact hevent.2.trans hseq
    refine hs.setPc (.inl hmid) ⟨?_, hlog.tail, hsr⟩
    rw [hsame]
    exact hbatch.setPc _
  · rename_i hnone
    cases h
    refine hs.setPc (.inl hmid) ⟨hbatch.setPc _, hlog.tail, ?_⟩
    rw [← hseq]
    exact done_of_invalid (s := { s with pc := _ }) hrow
      (by rw [hread]; exact hnone)

theorem InBatch.mem {seq : Nat} {pending : List Nat}
    (h : InBatch dates legacy s (seq :: pending)) : seq ∈ s.log.seqs :=
  h.done.logged seq List.mem_cons_self

theorem Inv.check {stored : StoredEvent} {rest : List EventBatchRow}
    (hs : Inv dates legacy s) (hpc : s.pc = .check stored rest)
    (h : runStep dates legacy s = some t) : Inv dates legacy t := by
  have hplace := hs.place
  simp only [Place, hpc] at hplace
  obtain ⟨hbatch, hlog, hstored⟩ := hplace
  have hmid : s.pc.midTick = true := by rw [hpc]; rfl
  simp only [runStep, hpc] at h
  split at h
  · rename_i hle
    cases h
    exact hs.setPc (.inl hmid)
      ⟨hbatch.setPc _, hlog, hs.covered _ hbatch.mem hle⟩
  · rename_i hlt
    cases h
    exact hs.setPc (.inl hmid)
      ⟨hbatch.setPc _, hlog, hstored, Nat.lt_of_not_le hlt⟩

theorem Inv.beginHandling {stored : StoredEvent} {rest : List EventBatchRow}
    (hs : Inv dates legacy s) (hpc : s.pc = .dedupe stored rest) :
    Inv dates legacy (s.beginHandling stored rest) := by
  have hplace := hs.place
  simp only [Place, hpc] at hplace
  obtain ⟨hbatch, hlog, hstored, hlt⟩ := hplace
  have hmem : ∀ k ∈ s.pass ++ [stored.event.seq],
      k ∈ s.pass ∨ k = stored.event.seq := by
    intro k hk
    rwa [List.mem_append, List.mem_singleton] at hk
  constructor
  · exact hs.logged
  · exact hs.covered
  · intro k hk
    rcases hmem k hk with hk | rfl
    · exact hs.passLogged k hk
    · exact hbatch.mem
  · change (s.pass ++ [stored.event.seq]).Pairwise (· ≤ ·)
    refine List.pairwise_append.mpr
      ⟨hs.passSorted, List.pairwise_singleton _ _, ?_⟩
    intro a ha b hb
    rw [List.mem_singleton] at hb
    rw [hb]
    exact hbatch.begun a ha _ List.mem_cons_self
  · intro hr k hk n hn hoff
    rcases hmem k hk with hk | rfl
    · exact hs.passAhead hr k hk n hn hoff
    · by_contra hgt
      have := (hbatch.stored hr).head hn (Nat.lt_of_not_le hgt)
      change n ≤ readEventOffset s.offset at this
      change readEventOffset s.offset < n at hoff
      omega
  · intro _
    exact hs.initialized (by rw [hpc]; rfl)
  · refine ⟨⟨hbatch.done, hbatch.stored, ?_⟩, hlog, hstored⟩
    intro k hk b hb
    rcases hmem k hk with hk | rfl
    · exact hbatch.begun k hk b hb
    · rcases List.mem_cons.mp hb with rfl | hb
      · exact Nat.le_refl _
      · have := (List.pairwise_cons.mp hbatch.done.sorted).1 b hb
        omega

theorem Inv.dedupe {stored : StoredEvent} {rest : List EventBatchRow}
    (hs : Inv dates legacy s) (hpc : s.pc = .dedupe stored rest)
    (h : runStep dates legacy s = some t) : Inv dates legacy t := by
  have hplace := hs.place
  simp only [Place, hpc] at hplace
  obtain ⟨hbatch, hlog, hstored, hlt⟩ := hplace
  simp only [runStep, hpc] at h
  split at h
  · rename_i hhas
    cases h
    rw [Bool.and_eq_true] at hhas
    exact hs.setPc (.inl (by rw [hpc]; rfl))
      ⟨hbatch.setPc _, hlog, done_of_legacy hstored hhas.1⟩
  · cases h
    exact hs.beginHandling hpc

theorem Inv.complete {stored : StoredEvent} {rest : List EventBatchRow}
    (hs : Inv dates legacy s) (hpc : s.pc = .handling stored rest) :
    Inv dates legacy { s with
      pc := .advance stored.event.seq rest
      completed := s.completed ++ [stored.event.seq] } := by
  have hplace := hs.place
  simp only [Place, hpc] at hplace
  obtain ⟨hbatch, hlog, hstored⟩ := hplace
  have hgrow : ∀ k, Done dates legacy s k →
      Done dates legacy { s with
        pc := .advance stored.event.seq rest
        completed := s.completed ++ [stored.event.seq] } k :=
    fun k hk => hk.mono rfl fun _ h => List.mem_append_left _ h
  refine ⟨hs.logged, fun k hk hle => hgrow k (hs.covered k hk hle),
    hs.passLogged, hs.passSorted, hs.passAhead,
    fun _ => hs.initialized (by rw [hpc]; rfl), ?_, hlog, ?_⟩
  · exact ⟨hbatch.done.mono fun k _ => hgrow k, hbatch.stored, hbatch.begun⟩
  · intro row _ _ _
    exact .inl (List.mem_append_right _ (List.mem_singleton.mpr rfl))

theorem Inv.advance {seq : Nat} {rest : List EventBatchRow}
    (hs : Inv dates legacy s) (hpc : s.pc = .advance seq rest)
    (h : runStep dates legacy s = some t) : Inv dates legacy t := by
  have hplace := hs.place
  simp only [Place, hpc] at hplace
  obtain ⟨hbatch, hlog, hdone⟩ := hplace
  have hmid : s.pc.midTick = true := by rw [hpc]; rfl
  simp only [runStep, hpc] at h
  split at h
  · rename_i hlt
    cases h
    exact hs.setPc (.inl hmid) ⟨hbatch.setPc _, hlog, hdone, hlt⟩
  · rename_i hle
    cases h
    refine hs.setPc (.inl hmid) ⟨⟨hbatch.done.pop hdone, fun hr => ?_, ?_⟩, hlog⟩
    · exact (hbatch.stored hr).pop (Nat.le_of_not_lt hle)
    · exact fun k hk b hb => hbatch.begun k hk b (List.mem_cons_of_mem _ hb)

theorem advanceEventOffset_ok {offset : Option Nat} {expected next n : Nat}
    (h : advanceEventOffset offset expected next = .ok n) :
    offset = some expected ∧ expected ≤ next ∧ n = next := by
  unfold advanceEventOffset at h
  split at h
  · cases h
  · rename_i hle
    split at h
    · rename_i heq
      cases h
      exact ⟨heq, Nat.le_of_not_lt hle, rfl⟩
    · cases h

theorem Inv.swap {current seq : Nat} {rest : List EventBatchRow}
    (hs : Inv dates legacy s) (hpc : s.pc = .swap current seq rest)
    (h : runStep dates legacy s = some t) : Inv dates legacy t := by
  have hplace := hs.place
  simp only [Place, hpc] at hplace
  obtain ⟨hbatch, hlog, hdone, hlt⟩ := hplace
  simp only [runStep, hpc] at h
  split at h
  · cases h
    exact hs.leave (.inl rfl)
  · rename_i next hnext
    cases h
    obtain ⟨hoffset, -, rfl⟩ := advanceEventOffset_ok hnext
    have hread : readEventOffset s.offset = current := by
      rw [hoffset]
      rfl
    constructor
    · exact .inr ⟨next, hbatch.mem, Nat.le_refl _⟩
    · intro k hk hle
      rcases Nat.lt_or_eq_of_le hle with hlt | rfl
      · exact hbatch.done.head hk hlt
      · exact hdone
    · exact hs.passLogged
    · exact hs.passSorted
    · intro hr k hk n hn hoff
      refine hs.passAhead hr k hk n hn ?_
      change next < n at hoff
      omega
    · exact fun _ => rfl
    · refine ⟨⟨hbatch.done.pop hdone, fun hr => ?_, ?_⟩, hlog⟩
      · refine Sweep.pop ((hbatch.stored hr).mono fun k _ hk => ?_)
          (Nat.le_refl next)
        change k ≤ next
        change k ≤ readEventOffset s.offset at hk
        omega
      · exact fun k hk b hb =>
          hbatch.begun k hk b (List.mem_cons_of_mem _ hb)

theorem Inv.run (hs : Inv dates legacy s)
    (h : runStep dates legacy s = some t) : Inv dates legacy t := by
  cases hpc : s.pc with
  | down => simp [runStep, hpc] at h
  | idle =>
      simp only [runStep, hpc, Option.some.injEq] at h
      exact h ▸ hs.openTick hpc
  | read cursor =>
      simp only [runStep, hpc, Option.some.injEq] at h
      exact h ▸ hs.readBatch hpc
  | loop rest =>
      cases rest with
      | nil =>
          simp only [runStep, hpc, Option.some.injEq] at h
          exact h ▸ hs.leave (.inl rfl)
      | cons b rest => exact hs.takeRow hpc h
  | check stored rest => exact hs.check hpc h
  | dedupe stored rest => exact hs.dedupe hpc h
  | handling stored rest => simp [runStep, hpc] at h
  | advance seq rest => exact hs.advance hpc h
  | swap current seq rest => exact hs.swap hpc h

/-! ## The other parties -/

theorem resetEventOffset_ok {offset : Option Nat} {seq n : Nat}
    (h : resetEventOffset offset seq = .ok n) :
    n = seq ∧ seq ≤ readEventOffset offset ∧ offset.isSome = true := by
  unfold resetEventOffset at h
  split at h
  · cases h
  · split at h
    · cases h
    · rename_i hle
      cases h
      exact ⟨rfl, Nat.le_of_not_lt hle, rfl⟩

theorem InBatch.resetTo {pending : List Nat} {seq : Nat}
    (h : InBatch dates legacy s pending) (hmid : s.pc.midTick = true) :
    InBatch dates legacy (s.resetTo seq) pending := by
  refine ⟨h.done, fun hr => ?_, fun k hk => ?_⟩
  · change s.pc.midTick = false at hr
    rw [hmid] at hr
    cases hr
  · have hpass : k ∈ s.pass := by simpa [State.resetTo, hmid] using hk
    exact h.begun k hpass

theorem Place.resetTo {seq : Nat} (h : Place dates legacy s)
    (hle : seq ≤ readEventOffset s.offset) :
    Place dates legacy (s.resetTo seq) := by
  have hpc : (s.resetTo seq).pc = s.pc := rfl
  cases hs : s.pc with
  | down => simp [Place, State.resetTo, hs, Pc.midTick]
  | idle => simp [Place, State.resetTo, hs, Pc.midTick]
  | read cursor =>
      simp only [Place, hs, hpc] at h ⊢
      obtain ⟨hdone, hlogged, -, hpass⟩ := h
      refine ⟨hdone, hlogged, fun hr => ?_, fun k hk => ?_⟩
      · simp [State.resetTo, hs, Pc.midTick] at hr
      · have hpass' : k ∈ s.pass := by
          simpa [State.resetTo, hs, Pc.midTick] using hk
        exact hpass k hpass'
  | loop rest =>
      simp only [Place, hs, hpc] at h ⊢
      exact ⟨h.1.resetTo (by rw [hs]; rfl), h.2⟩
  | check stored rest =>
      simp only [Place, hs, hpc] at h ⊢
      exact ⟨h.1.resetTo (by rw [hs]; rfl), h.2⟩
  | dedupe stored rest =>
      simp only [Place, hs, hpc] at h ⊢
      obtain ⟨hbatch, hlog, hstored, hlt⟩ := h
      exact ⟨hbatch.resetTo (by rw [hs]; rfl), hlog, hstored,
        Nat.lt_of_le_of_lt hle hlt⟩
  | handling stored rest =>
      simp only [Place, hs, hpc] at h ⊢
      exact ⟨h.1.resetTo (by rw [hs]; rfl), h.2⟩
  | advance seq' rest =>
      simp only [Place, hs, hpc] at h ⊢
      exact ⟨h.1.resetTo (by rw [hs]; rfl), h.2⟩
  | swap current seq' rest =>
      simp only [Place, hs, hpc] at h ⊢
      exact ⟨h.1.resetTo (by rw [hs]; rfl), h.2⟩

theorem Inv.resetTo {seq n : Nat} (hs : Inv dates legacy s)
    (h : resetEventOffset s.offset seq = .ok n) :
    Inv dates legacy (s.resetTo n) := by
  obtain ⟨rfl, hle, -⟩ := resetEventOffset_ok h
  have hpass : ∀ k ∈ (s.resetTo n).pass, s.pc.midTick = true ∧ k ∈ s.pass := by
    intro k hk
    cases hmid : s.pc.midTick with
    | false => simp [State.resetTo, hmid] at hk
    | true => exact ⟨rfl, by simpa [State.resetTo, hmid] using hk⟩
  constructor
  · change n = 0 ∨ ∃ k ∈ s.log.seqs, n ≤ k
    rcases hs.logged with h | ⟨k, hk, hk'⟩
    · exact .inl (by omega)
    · exact .inr ⟨k, hk, Nat.le_trans hle hk'⟩
  · intro k hk hkn
    exact hs.covered k hk (Nat.le_trans hkn hle)
  · exact fun k hk => hs.passLogged k (hpass k hk).2
  · change (if s.pc.midTick then s.pass else []).Pairwise (· ≤ ·)
    split
    · exact hs.passSorted
    · exact List.Pairwise.nil
  · intro hr k hk
    change s.pc.midTick = false at hr
    rw [(hpass k hk).1] at hr
    cases hr
  · exact fun _ => rfl
  · exact hs.place.resetTo hle

/-! ## A new event -/

section Append

variable {row : EventRow} {log : EventLog}

theorem seqs_append (h : s.log.append? row = some log) :
    log.seqs = s.log.seqs ++ [row.seq] := by
  obtain ⟨-, -, hrows⟩ := EventLog.append?_eq_some h
  simp [EventLog.seqs, hrows]

theorem Done.append {k : Nat} (hd : Done dates legacy s k)
    (hk : k ∈ s.log.seqs) (h : s.log.append? row = some log) :
    Done dates legacy (s.setLog log) k := by
  obtain ⟨-, hfresh, hrows⟩ := EventLog.append?_eq_some h
  intro r hr hseq hvalid
  change r ∈ log.rows at hr
  rw [hrows, List.mem_append, List.mem_singleton] at hr
  rcases hr with hr | rfl
  · exact hd r hr hseq hvalid
  · have := hfresh k hk
    omega

theorem FromLog.append {rest : List EventBatchRow} (hl : FromLog dates s rest)
    (h : s.log.append? row = some log) :
    FromLog dates (s.setLog log) rest := by
  intro b hb
  obtain ⟨r, hr, hread⟩ := hl b hb
  refine ⟨r, ?_, hread⟩
  change r ∈ log.rows
  rw [(EventLog.append?_eq_some h).2.2]
  exact List.mem_append_left _ hr

theorem StoredRow.append {stored : StoredEvent}
    (hl : StoredRow dates s stored) (h : s.log.append? row = some log) :
    StoredRow dates (s.setLog log) stored := by
  obtain ⟨r, hr, hread⟩ := hl
  refine ⟨r, ?_, hread⟩
  change r ∈ log.rows
  rw [(EventLog.append?_eq_some h).2.2]
  exact List.mem_append_left _ hr

theorem InBatch.append {pending : List Nat}
    (hb : InBatch dates legacy s pending)
    (h : s.log.append? row = some log) :
    InBatch dates legacy (s.setLog log) pending := by
  have hfresh := (EventLog.append?_eq_some h).2.1
  refine ⟨?_, fun hr => ?_, hb.begun⟩
  · change Sweep log.seqs _ pending
    rw [seqs_append h]
    exact (hb.done.mono fun k hk hd => hd.append hk h).grow hfresh
  · change Sweep log.seqs _ pending
    rw [seqs_append h]
    exact (hb.stored hr).grow hfresh

theorem done_append_of_le {cursor : Nat}
    (hdone : ∀ k ∈ s.log.seqs, k ≤ cursor → Done dates legacy s k)
    (hlogged : cursor = 0 ∨ ∃ k ∈ s.log.seqs, cursor ≤ k)
    (h : s.log.append? row = some log) :
    ∀ k ∈ log.seqs, k ≤ cursor →
      Done dates legacy (s.setLog log) k := by
  obtain ⟨hpos, hfresh, -⟩ := EventLog.append?_eq_some h
  intro k hk hle
  rw [seqs_append h, List.mem_append, List.mem_singleton] at hk
  rcases hk with hk | rfl
  · exact (hdone k hk hle).append hk h
  · rcases hlogged with rfl | ⟨k, hk, hck⟩
    · omega
    · have := hfresh k hk
      omega

theorem logged_append {cursor : Nat}
    (hlogged : cursor = 0 ∨ ∃ k ∈ s.log.seqs, cursor ≤ k)
    (h : s.log.append? row = some log) :
    cursor = 0 ∨ ∃ k ∈ log.seqs, cursor ≤ k := by
  rw [seqs_append h]
  exact hlogged.imp_right fun ⟨k, hk, hle⟩ =>
    ⟨k, List.mem_append_left _ hk, hle⟩

theorem passAhead_append {cursor : Nat} (hs : Inv dates legacy s)
    (hahead : ∀ k ∈ s.pass, ∀ n ∈ s.log.seqs, cursor < n → k ≤ n)
    (h : s.log.append? row = some log) :
    ∀ k ∈ s.pass, ∀ n ∈ log.seqs, cursor < n → k ≤ n := by
  intro k hk n hn hlt
  rw [seqs_append h, List.mem_append, List.mem_singleton] at hn
  rcases hn with hn | rfl
  · exact hahead k hk n hn hlt
  · have := (EventLog.append?_eq_some h).2.1 k (hs.passLogged k hk)
    omega

theorem Inv.append (hs : Inv dates legacy s)
    (h : s.log.append? row = some log) :
    Inv dates legacy (s.setLog log) := by
  refine ⟨logged_append hs.logged h, done_append_of_le hs.covered hs.logged h,
    fun k hk => ?_, hs.passSorted,
    ?_, hs.initialized, ?_⟩
  · change k ∈ log.seqs
    rw [seqs_append h]
    exact List.mem_append_left _ (hs.passLogged k hk)
  · intro hr
    have hahead := passAhead_append hs (hs.passAhead hr) h
    exact hahead
  · have hplace := hs.place
    have hsame : (s.setLog log).pc = s.pc := rfl
    cases hpc : s.pc <;> simp only [Place, hpc, hsame] at hplace ⊢
    case down => exact hplace
    case idle => exact hplace
    case read cursor =>
      obtain ⟨hdone, hlogged, hoffset, hpass⟩ := hplace
      have hahead := passAhead_append hs hpass h
      exact ⟨done_append_of_le hdone hlogged h, logged_append hlogged h,
        hoffset, hahead⟩
    case loop rest => exact ⟨hplace.1.append h, hplace.2.append h⟩
    case check stored rest =>
      obtain ⟨hbatch, hlog, hstored⟩ := hplace
      exact ⟨hbatch.append h, hlog.append h, hstored.append h⟩
    case handling stored rest =>
      obtain ⟨hbatch, hlog, hstored⟩ := hplace
      exact ⟨hbatch.append h, hlog.append h, hstored.append h⟩
    case dedupe stored rest =>
      obtain ⟨hbatch, hlog, hstored, hlt⟩ := hplace
      exact ⟨hbatch.append h, hlog.append h, hstored.append h, hlt⟩
    case advance seq rest =>
      obtain ⟨hbatch, hlog, hdone⟩ := hplace
      exact ⟨hbatch.append h, hlog.append h, hdone.append hbatch.mem h⟩
    case swap current seq rest =>
      obtain ⟨hbatch, hlog, hdone, hlt⟩ := hplace
      exact ⟨hbatch.append h, hlog.append h, hdone.append hbatch.mem h, hlt⟩

end Append

/-! ## Every run -/

theorem Inv.initial (h : (eventLoop dates legacy).initial s) :
    Inv dates legacy s := by
  obtain ⟨hoffset, -, hpc, -, -, hpass, hreplaying⟩ := h
  refine ⟨.inl (by rw [hoffset]; rfl), ?_, ?_, ?_, ?_, ?_, ?_⟩
  · intro k _ hle row _ hseq hvalid
    have := hvalid.seq_pos
    rw [hoffset] at hle
    change k ≤ 0 at hle
    omega
  · simp [hpass]
  · simp [hpass]
  · simp [hpass]
  · simp [hpc, Pc.midTick]
  · simp only [Place, hpc]
    exact hreplaying

theorem Inv.step {a : Action} (hs : Inv dates legacy s)
    (h : step dates legacy s a = some t) : Inv dates legacy t := by
  cases a with
  | start =>
      simp only [Cursor.step, Option.ite_none_right_eq_some,
        Option.some.injEq] at h
      obtain ⟨hpc, rfl⟩ := h
      refine hs.setPc (.inr rfl) ?_
      have hplace := hs.place
      simp only [Place, hpc] at hplace
      exact hplace
  | crash =>
      simp only [Cursor.step, Option.ite_none_left_eq_some,
        Option.some.injEq] at h
      exact h.2 ▸ hs.leave (.inr rfl)
  | run => exact hs.run h
  | complete =>
      simp only [Cursor.step] at h
      split at h
      · rename_i stored rest hpc
        cases h
        exact hs.complete hpc
      · cases h
  | throw =>
      simp only [Cursor.step, Option.ite_none_right_eq_some,
        Option.some.injEq] at h
      exact h.2 ▸ hs.leave (.inl rfl)
  | initOffset =>
      simp only [Cursor.step] at h
      split at h
      · cases h
      · rename_i cursor hcursor
        cases h
        exact hs.setOffset hcursor
  | reset seq =>
      simp only [Cursor.step] at h
      split at h
      · cases h
      · rename_i next hnext
        cases h
        exact hs.resetTo hnext
  | append row =>
      simp only [Cursor.step, Option.map_eq_some_iff] at h
      obtain ⟨log, hlog, rfl⟩ := h
      exact hs.append hlog

theorem Inv.reachable (h : (eventLoop dates legacy).Reachable s) :
    Inv dates legacy s :=
  System.Reachable.invariant (fun _ => Inv.initial)
    (fun _ _ _ => Inv.step) h

/-! ## Between resets -/

/-- The offset grows, and what begins lies past it and joins the pass. -/
structure Advances (s t : State) (new : List Nat) : Prop where
  offset : readEventOffset s.offset ≤ readEventOffset t.offset
  begun : t.begun = s.begun ++ new
  past : ∀ k ∈ new, readEventOffset s.offset < k
  pass : s.replaying = false → t.replaying = false ∧ t.pass = s.pass ++ new

theorem Advances.refl (s : State) : Advances s s [] :=
  ⟨Nat.le_refl _, by simp, by simp, fun h => ⟨h, by simp⟩⟩

theorem Advances.trans {u : State} {new new' : List Nat}
    (h : Advances s t new) (h' : Advances t u new') :
    Advances s u (new ++ new') := by
  refine ⟨Nat.le_trans h.offset h'.offset, ?_, ?_, fun hr => ?_⟩
  · rw [h'.begun, h.begun, List.append_assoc]
  · intro k hk
    rcases List.mem_append.mp hk with hk | hk
    · exact h.past k hk
    · exact Nat.lt_of_le_of_lt h.offset (h'.past k hk)
  · obtain ⟨ht, hpass⟩ := h.pass hr
    obtain ⟨hu, hpass'⟩ := h'.pass ht
    exact ⟨hu, by rw [hpass', hpass, List.append_assoc]⟩

theorem Advances.of_begun (hbegun : t.begun = s.begun)
    (hoffset : readEventOffset s.offset ≤ readEventOffset t.offset)
    (hpass : s.replaying = false → t.replaying = false ∧ t.pass = s.pass) :
    Advances s t [] :=
  ⟨hoffset, by simp [hbegun], by simp, fun hr => by simpa using hpass hr⟩

theorem Advances.leave (s : State) (pc : Pc) : Advances s (s.leave pc) [] :=
  .of_begun rfl (Nat.le_refl _) fun hr => by simp [State.leave, hr]

theorem Advances.setOffset {cursor : Nat} (hs : Inv dates legacy s)
    (h : initializeEventOffset legacy s.log s.offset = .ok cursor) (pc : Pc) :
    Advances s { s with offset := some cursor, pc := pc } [] :=
  .of_begun rfl (initialize_spec hs h).1 fun hr => ⟨hr, rfl⟩

theorem Advances.setPc (s : State) (pc : Pc) :
    Advances s { s with pc := pc } [] :=
  .of_begun rfl (Nat.le_refl _) fun hr => ⟨hr, rfl⟩

theorem Advances.openTick (hs : Inv dates legacy s) :
    Advances s (openTick legacy s) [] := by
  unfold Cursor.openTick
  split
  · exact .refl s
  · rename_i cursor h
    split
    · exact .setOffset hs h s.pc
    · exact .setOffset hs h (.read cursor)

theorem Advances.beginHandling {stored : StoredEvent}
    {rest : List EventBatchRow} (hs : Inv dates legacy s)
    (hpc : s.pc = .dedupe stored rest) :
    Advances s (s.beginHandling stored rest) [stored.event.seq] := by
  have hplace := hs.place
  simp only [Place, hpc] at hplace
  refine ⟨Nat.le_refl _, rfl, fun k hk => ?_, fun hr => ⟨hr, rfl⟩⟩
  rw [List.mem_singleton.mp hk]
  exact hplace.2.2.2

theorem Advances.swap {current seq : Nat} {rest : List EventBatchRow}
    (hs : Inv dates legacy s) (hpc : s.pc = .swap current seq rest)
    (h : runStep dates legacy s = some t) : Advances s t [] := by
  have hplace := hs.place
  simp only [Place, hpc] at hplace
  have hlt := hplace.2.2.2
  simp only [runStep, hpc] at h
  split at h
  · cases h
    exact .leave s .idle
  · rename_i next hnext
    cases h
    obtain ⟨hoffset, hle, rfl⟩ := advanceEventOffset_ok hnext
    refine .of_begun rfl ?_ fun hr => ⟨hr, rfl⟩
    rw [hoffset]
    exact hle

theorem Advances.run (hs : Inv dates legacy s)
    (h : runStep dates legacy s = some t) : ∃ new, Advances s t new := by
  cases hpc : s.pc with
  | down => simp [runStep, hpc] at h
  | idle =>
      simp only [runStep, hpc, Option.some.injEq] at h
      exact ⟨[], h ▸ .openTick hs⟩
  | read cursor =>
      simp only [runStep, hpc, Option.some.injEq] at h
      exact ⟨[], h ▸ .setPc s _⟩
  | loop rest =>
      cases rest with
      | nil =>
          simp only [runStep, hpc, Option.some.injEq] at h
          exact ⟨[], h ▸ .leave s .idle⟩
      | cons b rest =>
          simp only [runStep, hpc] at h
          split at h <;> cases h
          · exact ⟨[], .setPc s _⟩
          · exact ⟨[], .setPc s _⟩
  | check stored rest =>
      simp only [runStep, hpc] at h
      split at h <;> cases h
      · exact ⟨[], .setPc s _⟩
      · exact ⟨[], .setPc s _⟩
  | dedupe stored rest =>
      simp only [runStep, hpc] at h
      split at h <;> cases h
      · exact ⟨[], .setPc s _⟩
      · exact ⟨[stored.event.seq], .beginHandling hs hpc⟩
  | handling stored rest => simp [runStep, hpc] at h
  | advance seq rest =>
      simp only [runStep, hpc] at h
      split at h <;> cases h
      · exact ⟨[], .setPc s _⟩
      · exact ⟨[], .setPc s _⟩
  | swap current seq rest => exact ⟨[], .swap hs hpc h⟩

theorem Advances.step {a : Action} (hs : Inv dates legacy s)
    (ha : ∀ seq, a ≠ .reset seq) (h : step dates legacy s a = some t) :
    ∃ new, Advances s t new := by
  cases a with
  | start =>
      simp only [Cursor.step, Option.ite_none_right_eq_some,
        Option.some.injEq] at h
      exact ⟨[], h.2 ▸ .setPc s .idle⟩
  | crash =>
      simp only [Cursor.step, Option.ite_none_left_eq_some,
        Option.some.injEq] at h
      exact ⟨[], h.2 ▸ .leave s .down⟩
  | run => exact Advances.run hs h
  | complete =>
      simp only [Cursor.step] at h
      split at h
      · cases h
        exact ⟨[], .of_begun rfl (Nat.le_refl _) fun hr => ⟨hr, rfl⟩⟩
      · cases h
  | throw =>
      simp only [Cursor.step, Option.ite_none_right_eq_some,
        Option.some.injEq] at h
      exact ⟨[], h.2 ▸ .leave s .idle⟩
  | initOffset =>
      simp only [Cursor.step] at h
      split at h
      · cases h
      · rename_i cursor hcursor
        cases h
        exact ⟨[], .setOffset hs hcursor s.pc⟩
  | reset seq => exact absurd rfl (ha seq)
  | append row =>
      simp only [Cursor.step, Option.map_eq_some_iff] at h
      obtain ⟨log, -, rfl⟩ := h
      exact ⟨[], .of_begun rfl (Nat.le_refl _) fun hr => ⟨hr, rfl⟩⟩

theorem Advances.of_run {as : List Action} (hs : Inv dates legacy s)
    (ha : ∀ seq, Action.reset seq ∉ as)
    (h : (eventLoop dates legacy).run s as = some t) :
    ∃ new, Advances s t new := by
  induction as generalizing s with
  | nil =>
      cases h
      exact ⟨[], .refl _⟩
  | cons a rest ih =>
      obtain ⟨m, hm, hrest⟩ := System.run_cons _ h
      obtain ⟨new, hnew⟩ := Advances.step hs
        (fun seq heq => ha seq (heq ▸ List.mem_cons_self)) hm
      obtain ⟨new', hnew'⟩ := ih (hs.step hm)
        (fun seq hmem => ha seq (List.mem_cons_of_mem _ hmem)) hrest
      exact ⟨new ++ new', hnew.trans hnew'⟩

theorem Inv.of_run {as : List Action} (hs : Inv dates legacy s)
    (h : (eventLoop dates legacy).run s as = some t) : Inv dates legacy t :=
  System.run_preserves (M := eventLoop dates legacy)
    (fun _ _ _ => Inv.step) (fun _ _ _ hs _ => hs.step) hs hs h

/-! ## The promises of the cursor -/

/--
At every time: nothing valid at or before the offset is left undone, each pass
begins its handlings in order, and until the next reset the offset only grows
and nothing at or before it begins again.
-/
structure CursorSafe (dates : DateApi) (legacy : LegacyFile) (s : State) :
    Prop where
  covered : ∀ row ∈ s.log.rows, ValidRow dates row →
    row.seq ≤ readEventOffset s.offset →
      row.seq ∈ s.completed ∨ LegacyProcessed dates legacy row
  ordered : s.pass.Pairwise (· ≤ ·)
  advances : ∀ as t, (∀ seq, Action.reset seq ∉ as) →
    (eventLoop dates legacy).run s as = some t →
      readEventOffset s.offset ≤ readEventOffset t.offset ∧
        ∃ new, t.begun = s.begun ++ new ∧
          (∀ k ∈ new, readEventOffset s.offset < k) ∧
          (s.replaying = false → new.Pairwise (· ≤ ·))

theorem eventCursor_safe (dates : DateApi) (legacy : LegacyFile) {s : State}
    (h : (eventLoop dates legacy).Reachable s) :
    CursorSafe dates legacy s := by
  have hs := Inv.reachable h
  refine ⟨fun row hrow hvalid hle => ?_, hs.passSorted,
    fun as t ha hrun => ?_⟩
  · have hmem : row.seq ∈ s.log.seqs := List.mem_map.mpr ⟨row, hrow, rfl⟩
    exact hs.covered row.seq hmem hle row hrow rfl hvalid
  · obtain ⟨new, hnew⟩ := Advances.of_run hs ha hrun
    refine ⟨hnew.offset, new, hnew.begun, hnew.past, fun hr => ?_⟩
    have hsorted := (hs.of_run hrun).passSorted
    rw [(hnew.pass hr).2] at hsorted
    exact (List.pairwise_append.mp hsorted).2.1

/-! A corrupt row is stepped over, and a handling cut off by a crash is done
again before the offset passes it. -/

def heartbeatAt (seq : Nat) : EventRow where
  seq := seq
  eventId := ""
  payload := some
    { eventId := none
      event :=
        { seq := seq, ts := "2026-01-01T00:00:00Z", event := .heartbeat
          actorType := .agent, actorId := "worker", agentId := some "worker" } }

def idleLoop : State where
  log := ⟨[⟨1, "", none⟩, heartbeatAt 2], by decide⟩

def crashedTwice : List Action :=
  [.start, .run, .run, .run, .run, .run, .run, .run, .run, .crash,
   .start, .run, .run, .run, .run, .run, .complete, .run, .run, .run]

theorem eventCursor_safe_crashed :
    ∃ t, (eventLoop .epoch .absent).run idleLoop crashedTwice = some t ∧
      (t.begun, t.completed, t.offset) = ([2, 2], [2], some 2) ∧
      CursorSafe .epoch .absent t := by
  obtain ⟨t, ht, hdone⟩ := (eventLoop .epoch .absent).exists_run_of_map
    (f := fun t => (t.begun, t.completed, t.offset))
    (by decide : ((eventLoop .epoch .absent).run idleLoop crashedTwice).map
      (fun t => (t.begun, t.completed, t.offset)) = some ([2, 2], [2], some 2))
  refine ⟨t, ht, hdone, eventCursor_safe .epoch .absent ?_⟩
  exact System.Reachable.run
    (System.Reachable.initial ⟨rfl, rfl, rfl, rfl, rfl, rfl, rfl⟩) ht

end OrcState.Cursor
