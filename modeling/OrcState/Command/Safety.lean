import OrcState.Command.System

/-!
# Delivery is safe

Two results about every run of the delivery system.  A side-effecting command
is handed to the transport at most once, and once its send has started it never
waits in the queue again.  Every stored command keeps its attempt count and its
terminal time in step with its state, and the terminal states are absorbing.
-/

namespace OrcState.Command

open OrcState.Contract OrcState.Foundation OrcState.Store

variable {dates : DateApi}

theorem sideEffects_append (history : List DurableCommand)
    (c : DurableCommand) :
    sideEffects (history ++ [c]) =
      sideEffects history ++ if c.sideEffecting then [c.commandId] else [] := by
  unfold sideEffects
  cases h : c.sideEffecting <;> simp [List.filter_append, h]

/-! ## Command records -/

theorem Enqueued.recorded {id : String} {c : DurableCommand}
    (h : Enqueued id c) : Recorded c := by
  obtain ⟨-, hq, ha, hm, ht, -⟩ := h
  refine ⟨by omega, by omega, fun _ => by omega, ?_, ?_⟩
  · intro hd
    rw [hq] at hd
    cases hd
  · simp [ht, hq, Settled, CommandState.terminal]

theorem Recorded.stamp {c : DurableCommand} (h : Recorded c)
    (stamp : String) : Recorded { c with sendStartedAt := some stamp } :=
  ⟨h.nonneg, h.bounded, h.queued, h.dispatching, h.terminalAt⟩

/-- A row of the next state: moved, marked, or new. -/
theorem Change.row {s t : Delivery} (h : Change s t) {d : DurableCommand}
    (hd : d ∈ t.db.commands) :
    (∃ c, c ∈ s.db.commands ∧ Moves c d) ∨
      (∃ c stamp, c ∈ s.db.commands ∧ c.state = .dispatching ∧
        truthy c.sendStartedAt = false ∧ truthy (some stamp) = true ∧
        d = { c with sendStartedAt := some stamp } ∧
        t.starts = s.starts ++ [d]) ∨
      (d.commandId ∉ s.issued ∧ d.commandId ∈ t.issued ∧
        Enqueued d.commandId d) := by
  cases h with
  | quiet rows issued starts sends ticks => exact .inl (rows d hd)
  | insert c fresh queued rows issued starts sends ticks =>
      rw [Table.mem_rows, rows, List.mem_append, List.mem_singleton] at hd
      rcases hd with hd | rfl
      · exact .inl ⟨d, hd, .refl⟩
      · exact .inr (.inr ⟨fresh, by simp [issued], queued⟩)
  | start c stamp row reserved unsent stamped rows issued starts sends ticks =>
      rw [rows, Table.mem_update] at hd
      rcases hd with ⟨c', hc', hk, rfl⟩ | ⟨hd, -⟩
      · have hcc : c' = c :=
          Table.eq_of_key hc' (Table.mem_of_find? row) hk
        subst hcc
        exact .inr (.inl ⟨c', stamp, hc', reserved, unsent, stamped, rfl,
          starts⟩)
      · exact .inl ⟨d, hd, .refl⟩
  | handOver k c ready db issued starts sends ticks =>
      rw [db] at hd
      exact .inl ⟨d, hd, .refl⟩

theorem Change.issued_subset {s t : Delivery} (h : Change s t) :
    s.issued ⊆ t.issued := by
  cases h with
  | quiet rows issued starts sends ticks => exact issued
  | insert c fresh queued rows issued starts sends ticks =>
      rw [issued]
      exact List.subset_append_left _ _
  | start c stamp row reserved unsent stamped rows issued starts sends ticks =>
      rw [issued]
      exact List.Subset.refl _
  | handOver k c ready db issued starts sends ticks =>
      rw [issued]
      exact List.Subset.refl _

/-- What holds of every stored row, whatever its command is. -/
structure Rows (s : Delivery) : Prop where
  issued : ∀ c, c ∈ s.db.commands → c.commandId ∈ s.issued
  stamped : ∀ c, c ∈ s.db.commands → Stamped c
  recorded : ∀ c, c ∈ s.db.commands → Recorded c

theorem Rows.initial {s : Delivery} (h : (delivery dates).initial s) :
    Rows s := by
  have hempty : ∀ c, ¬ c ∈ s.db.commands := by simp [h.1]
  exact ⟨fun c hc => absurd hc (hempty c), fun c hc => absurd hc (hempty c),
    fun c hc => absurd hc (hempty c)⟩

theorem Rows.change {s t : Delivery} (hs : Rows s) (h : Change s t) :
    Rows t := by
  have hrow := fun d hd => h.row (d := d) hd
  constructor
  · intro d hd
    rcases hrow d hd with ⟨c, hc, hm⟩ | ⟨c, stamp, hc, -, -, -, rfl, -⟩ |
      ⟨-, hnew, -⟩
    · rw [hm.commandId]
      exact h.issued_subset (hs.issued c hc)
    · exact h.issued_subset (hs.issued c hc)
    · exact hnew
  · intro d hd
    rcases hrow d hd with ⟨c, hc, hm⟩ | ⟨c, stamp, hc, -, -, hst, rfl, -⟩ |
      ⟨-, -, hq⟩
    · exact hm.stamped (hs.stamped c hc)
    · exact fun _ => hst
    · intro hsome
      rw [hq.2.2.2.2.2] at hsome
      cases hsome
  · intro d hd
    rcases hrow d hd with ⟨c, hc, hm⟩ | ⟨c, stamp, hc, -, -, -, rfl, -⟩ |
      ⟨-, -, hq⟩
    · exact hm.recorded (hs.recorded c hc)
    · exact (hs.recorded c hc).stamp stamp
    · exact hq.recorded

theorem Rows.reachable {s : Delivery} (hs : (delivery dates).Reachable s) :
    Rows s :=
  hs.invariant (fun _ h => Rows.initial h)
    fun _ _ _ hI ht => hI.change (step_change ht)

def Holds (P : DurableCommand → Prop) (id : String) (s : Delivery) : Prop :=
  id ∈ s.issued ∧ ∀ c, c ∈ s.db.commands → c.commandId = id → P c

theorem Holds.run {P : DurableCommand → Prop} {id : String} {s t : Delivery}
    {as : List Action} (hmove : ∀ c d, P c → Moves c d → P d)
    (hmark : ∀ c stamp, truthy (some stamp) = true → P c →
      P { c with sendStartedAt := some stamp })
    (hs : Holds P id s) (h : (delivery dates).run s as = some t) :
    Holds P id t := by
  refine System.run_preserves (I := fun _ => True) (fun _ _ _ _ _ => trivial)
    ?_ trivial hs h
  rintro u a v - ⟨hid, hu⟩ hstep
  have hchange := step_change hstep
  refine ⟨hchange.issued_subset hid, ?_⟩
  rintro d hd rfl
  rcases hchange.row hd with ⟨c, hc, hm⟩ |
    ⟨c, stamp, hc, -, -, hst, rfl, -⟩ | ⟨hfresh, -, -⟩
  · exact hmove c d (hu c hc hm.commandId.symm) hm
  · exact hmark c stamp hst (hu c hc rfl)
  · exact absurd hid hfresh

theorem Rows.holds {P : DurableCommand → Prop} {s : Delivery} (hs : Rows s)
    {c : DurableCommand} (hc : c ∈ s.db.commands) (hP : P c) :
    Holds P c.commandId s := by
  refine ⟨hs.issued c hc, fun d hd hk => ?_⟩
  rw [Table.eq_of_key hd hc hk]
  exact hP

/--
Every stored command is recorded consistently, and a command that reached
`completed`, `failed` or `cancelled` stays there whatever is done to it.
-/
theorem commandRecord_invariant {s : Delivery}
    (hs : (delivery dates).Reachable s) :
    (∀ c, c ∈ s.db.commands → Recorded c) ∧
      ∀ c, c ∈ s.db.commands → c.state.terminal = true →
        ∀ as t, (delivery dates).run s as = some t →
          ∀ d, d ∈ t.db.commands → d.commandId = c.commandId →
            d.state = c.state := by
  have hrows := Rows.reachable hs
  refine ⟨hrows.recorded, ?_⟩
  intro c hc hterminal as t hrun d hd hk
  have hholds := hrows.holds (P := fun d => d.state = c.state) hc rfl
  refine (hholds.run ?_ (fun _ _ _ h => h) hrun).2 d hd hk
  intro d e hdc hmoves
  exact (hmoves.absorbing (by rw [hdc]; exact hterminal)).trans hdc

theorem commandRecord_invariant_handOver :
    ∃ t, (delivery .epoch).run idleDelivery handOverActions = some t ∧
      t.db.commands.rows.map (·.attemptCount) = [1] ∧
      ∀ c, c ∈ t.db.commands → Recorded c := by
  obtain ⟨t, ht, hcount⟩ := (delivery .epoch).exists_run_of_map
    (f := fun t => t.db.commands.rows.map (·.attemptCount))
    (by decide : ((delivery .epoch).run idleDelivery handOverActions).map
      (fun t => t.db.commands.rows.map (·.attemptCount)) = some [1])
  exact ⟨t, ht, hcount, (commandRecord_invariant
    ((System.Reachable.initial idleDelivery_initial).run ht)).1⟩

/-! ## At most one send -/

structure Safe (s : Delivery) : Prop where
  rows : Rows s
  startsNodup : (sideEffects s.starts).Nodup
  startsIssued : ∀ id ∈ sideEffects s.starts, id ∈ s.issued
  /-- A stored side effect whose send was started is past the queue. -/
  started : ∀ c, c ∈ s.db.commands → c.sideEffecting = true →
    c.commandId ∈ sideEffects s.starts → Started c
  /-- A tick works on an issued command and knows its kind. -/
  tickIssued : ∀ d k, (s.dispatchers d).command = some k →
    k.commandId ∈ s.issued
  tickKind : ∀ d k, (s.dispatchers d).command = some k →
    ∀ c, c ∈ s.db.commands → c.commandId = k.commandId →
      c.sideEffecting = k.sideEffecting
  /-- Between send mark and hand-over a side effect has one tick. -/
  tickStarted : ∀ d k, s.dispatchers d = .started k →
    k.sideEffecting = true →
      k.commandId ∈ sideEffects s.starts ∧
        k.commandId ∉ sideEffects s.sends
  tickAlone : ∀ d k d' k', s.dispatchers d = .started k →
    s.dispatchers d' = .started k' → k.sideEffecting = true →
      k'.commandId = k.commandId → d' = d
  sendsNodup : (sideEffects s.sends).Nodup
  sendsStarted : ∀ id ∈ sideEffects s.sends, id ∈ sideEffects s.starts

theorem Safe.initial {s : Delivery} (h : (delivery dates).initial s) :
    Safe s := by
  have hrows := Rows.initial h
  obtain ⟨-, -, hidle, hstarts, hsends⟩ := h
  constructor
  · exact hrows
  all_goals simp [hidle, hstarts, hsends, sideEffects, TickPc.command]

private theorem Safe.quiet {s t : Delivery} (hs : Safe s) (ht : Rows t)
    (rows : Evolves s.db.commands t.db.commands)
    (issued : s.issued ⊆ t.issued) (starts : t.starts = s.starts)
    (sends : t.sends = s.sends) (ticks : ∀ d, Settles s t d) : Safe t := by
  have hpc : ∀ d k, t.dispatchers d = .started k →
      s.dispatchers d = .started k := by
    intro d k hk
    rcases ticks d with h | h | ⟨c, h, -⟩
    · rw [← h]
      exact hk
    · rw [hk] at h
      cases h
    · rw [hk] at h
      cases h
  have hcommand : ∀ d k, (t.dispatchers d).command = some k →
      (s.dispatchers d).command = some k ∨
        t.db.commands.find? k.commandId = some k := by
    intro d k hk
    rcases ticks d with h | h | ⟨c, h, hc⟩
    · exact .inl (by rw [← h]; exact hk)
    · rw [h] at hk
      cases hk
    · rw [h] at hk
      cases hk
      exact .inr hc
  constructor
  · exact ht
  · rw [starts]
    exact hs.startsNodup
  · intro id hid
    rw [starts] at hid
    exact issued (hs.startsIssued id hid)
  · intro d hd hse hid
    obtain ⟨c, hc, hm⟩ := rows d hd
    rw [starts, hm.commandId] at hid
    rw [hm.sideEffecting] at hse
    exact hm.started hse (hs.started c hc hse hid)
  · intro d k hk
    rcases hcommand d k hk with h | h
    · exact issued (hs.tickIssued d k h)
    · exact ht.issued k (Table.mem_of_find? h)
  · intro d k hk e he hek
    rcases hcommand d k hk with h | h
    · obtain ⟨c, hc, hm⟩ := rows e he
      rw [hm.sideEffecting]
      exact hs.tickKind d k h c hc (hm.commandId.symm.trans hek)
    · rw [Table.eq_of_key he (Table.mem_of_find? h) hek]
  · intro d k hk hse
    rw [starts, sends]
    exact hs.tickStarted d k (hpc d k hk) hse
  · intro d k d' k' hk hk'
    exact hs.tickAlone d k d' k' (hpc d k hk) (hpc d' k' hk')
  · rw [sends]
    exact hs.sendsNodup
  · rw [starts, sends]
    exact hs.sendsStarted

private theorem Safe.insert {s t : Delivery} (hs : Safe s) (ht : Rows t)
    {c : DurableCommand} (fresh : c.commandId ∉ s.issued)
    (rows : t.db.commands.rows = s.db.commands.rows ++ [c])
    (issued : s.issued ⊆ t.issued) (starts : t.starts = s.starts)
    (sends : t.sends = s.sends) (ticks : t.dispatchers = s.dispatchers) :
    Safe t := by
  have hmem : ∀ d, d ∈ t.db.commands → d ∈ s.db.commands ∨ d = c := by
    intro d hd
    rw [Table.mem_rows, rows, List.mem_append, List.mem_singleton] at hd
    exact hd
  constructor
  · exact ht
  · rw [starts]
    exact hs.startsNodup
  · intro id hid
    rw [starts] at hid
    exact issued (hs.startsIssued id hid)
  · intro d hd hse hid
    rw [starts] at hid
    rcases hmem d hd with hd | rfl
    · exact hs.started d hd hse hid
    · exact absurd (hs.startsIssued _ hid) fresh
  · intro d k hk
    rw [ticks] at hk
    exact issued (hs.tickIssued d k hk)
  · intro d k hk e he hek
    rw [ticks] at hk
    rcases hmem e he with he | rfl
    · exact hs.tickKind d k hk e he hek
    · exact absurd (hek ▸ hs.tickIssued d k hk) fresh
  · rw [ticks, starts, sends]
    exact hs.tickStarted
  · rw [ticks]
    exact hs.tickAlone
  · rw [sends]
    exact hs.sendsNodup
  · rw [starts, sends]
    exact hs.sendsStarted

private theorem Safe.start {s t : Delivery} (hs : Safe s) (ht : Rows t)
    {c : DurableCommand} {stamp : String}
    (row : s.db.commands.find? c.commandId = some c)
    (reserved : c.state = .dispatching)
    (unsent : truthy c.sendStartedAt = false)
    (stamped : truthy (some stamp) = true)
    (rows : t.db.commands = s.db.commands.update c.commandId
      (fun c => { c with sendStartedAt := some stamp }) (fun _ => rfl))
    (issued : t.issued = s.issued)
    (starts : t.starts = s.starts ++ [{ c with sendStartedAt := some stamp }])
    (sends : t.sends = s.sends)
    (ticks : t.dispatchers = s.dispatchers ∨
      ∃ d k, s.dispatchers d = .reserved k ∧ k.commandId = c.commandId ∧
        t.dispatchers = Function.update s.dispatchers d (.started k)) :
    Safe t := by
  have hc := Table.mem_of_find? row
  -- an unsent reservation of a side effect is not in the history yet
  have hnew : c.sideEffecting = true →
      c.commandId ∉ sideEffects s.starts := by
    intro hse hin
    have := (hs.started c hc hse hin).2 reserved
    rw [unsent] at this
    cases this
  have hstarts : sideEffects t.starts = sideEffects s.starts ++
      if c.sideEffecting then [c.commandId] else [] := by
    rw [starts, sideEffects_append]
  have hold : ∀ id ∈ sideEffects s.starts, id ∈ sideEffects t.starts := by
    intro id hid
    rw [hstarts]
    exact List.mem_append_left _ hid
  have hmem : ∀ d, d ∈ t.db.commands →
      d = { c with sendStartedAt := some stamp } ∨
        (d ∈ s.db.commands ∧ d.commandId ≠ c.commandId) := by
    intro d hd
    rw [rows, Table.mem_update] at hd
    rcases hd with ⟨c', hc', hk, rfl⟩ | hd
    · rw [Table.eq_of_key hc' hc hk]
      exact .inl rfl
    · exact .inr hd
  have hkind : ∀ e, e ∈ t.db.commands → ∃ e₀, e₀ ∈ s.db.commands ∧
      e₀.commandId = e.commandId ∧ e₀.sideEffecting = e.sideEffecting := by
    intro e he
    rcases hmem e he with rfl | ⟨he, -⟩
    · exact ⟨c, hc, rfl, rfl⟩
    · exact ⟨e, he, rfl, rfl⟩
  have hcommand : ∀ d k, (t.dispatchers d).command = some k →
      (s.dispatchers d).command = some k := by
    intro d k hk
    rcases ticks with h | ⟨d₀, k₀, h₀, -, h⟩
    · rw [h] at hk
      exact hk
    · by_cases hd : d = d₀
      · subst hd
        rw [h, Function.update_self] at hk
        cases hk
        rw [h₀]
        rfl
      · rw [h, Function.update_of_ne hd] at hk
        exact hk
  -- a tick newly past the mark works on `c` itself
  have hpc : ∀ d k, t.dispatchers d = .started k →
      s.dispatchers d = .started k ∨
        (k.commandId = c.commandId ∧ s.dispatchers d = .reserved k ∧
          t.dispatchers = Function.update s.dispatchers d (.started k)) := by
    intro d k hk
    rcases ticks with h | ⟨d₀, k₀, h₀, hk₀, h⟩
    · rw [h] at hk
      exact .inl hk
    · by_cases hd : d = d₀
      · subst hd
        rw [h, Function.update_self] at hk
        cases hk
        exact .inr ⟨hk₀, h₀, h⟩
      · rw [h, Function.update_of_ne hd] at hk
        exact .inl hk
  have hkindC : ∀ d k, (s.dispatchers d).command = some k →
      k.commandId = c.commandId → k.sideEffecting = c.sideEffecting := by
    intro d k hk hkc
    exact (hs.tickKind d k hk c hc hkc.symm).symm
  have hnotSent : c.sideEffecting = true →
      c.commandId ∉ sideEffects s.sends := fun hse hin =>
    hnew hse (hs.sendsStarted _ hin)
  constructor
  · exact ht
  · rw [hstarts]
    split
    · rename_i hse
      refine List.nodup_append.mpr ⟨hs.startsNodup, by simp, ?_⟩
      intro a ha b hb
      rw [List.mem_singleton] at hb
      rintro rfl
      exact hnew hse (hb ▸ ha)
    · simpa using hs.startsNodup
  · intro id hid
    rw [hstarts, List.mem_append] at hid
    rw [issued]
    rcases hid with hid | hid
    · exact hs.startsIssued id hid
    · split at hid
      · rw [List.mem_singleton] at hid
        rw [hid]
        exact hs.rows.issued c hc
      · cases hid
  · intro d hd hse hid
    rcases hmem d hd with rfl | ⟨hd, hne⟩
    · exact ⟨by simp [reserved], fun _ => stamped⟩
    · rw [hstarts, List.mem_append] at hid
      rcases hid with hid | hid
      · exact hs.started d hd hse hid
      · split at hid
        · exact absurd (List.mem_singleton.mp hid) hne
        · cases hid
  · intro d k hk
    rw [issued]
    exact hs.tickIssued d k (hcommand d k hk)
  · intro d k hk e he hek
    obtain ⟨e₀, he₀, hid, hse⟩ := hkind e he
    rw [← hse]
    exact hs.tickKind d k (hcommand d k hk) e₀ he₀ (hid.trans hek)
  · intro d k hk hse
    rw [sends]
    rcases hpc d k hk with h | ⟨hkc, h, -⟩
    · obtain ⟨hin, hout⟩ := hs.tickStarted d k h hse
      exact ⟨hold _ hin, hout⟩
    · have hcse : c.sideEffecting = true := by
        rw [← hkindC d k (by rw [h]; rfl) hkc]
        exact hse
      rw [hkc]
      refine ⟨?_, hnotSent hcse⟩
      rw [hstarts, if_pos hcse]
      exact List.mem_append_right _ (List.mem_singleton.mpr rfl)
  · intro d k d' k' hk hk' hse hkk
    rcases hpc d k hk with h | ⟨hkc, h, hupd⟩ <;>
      rcases hpc d' k' hk' with h' | ⟨hkc', h', hupd'⟩
    · exact hs.tickAlone d k d' k' h h' hse hkk
    · -- the other tick had started `c` before, which was still unsent
      have hin := (hs.tickStarted d k h hse).1
      have hkc : k.commandId = c.commandId := hkk ▸ hkc'
      have hcse : c.sideEffecting = true := by
        rw [← hkindC d k (by rw [h]; rfl) hkc]
        exact hse
      exact absurd (hkc ▸ hin) (hnew hcse)
    · have hcse : c.sideEffecting = true := by
        rw [← hkindC d k (by rw [h]; rfl) hkc]
        exact hse
      have hkc' : k'.commandId = c.commandId := hkk.trans hkc
      have hse' : k'.sideEffecting = true := by
        rw [hkindC d' k' (by rw [h']; rfl) hkc']
        exact hcse
      have hin := (hs.tickStarted d' k' h' hse').1
      exact absurd (hkc' ▸ hin) (hnew hcse)
    · by_contra hne
      rw [hupd, Function.update_of_ne hne, h'] at hk'
      cases hk'
  · rw [sends]
    exact hs.sendsNodup
  · intro id hid
    rw [sends] at hid
    exact hold id (hs.sendsStarted id hid)

private theorem Safe.handOver {s t : Delivery} (hs : Safe s) (ht : Rows t)
    {d₀ : Nat} {k₀ : DurableCommand}
    (ready : s.dispatchers d₀ = .started k₀) (db : t.db = s.db)
    (issued : t.issued = s.issued) (starts : t.starts = s.starts)
    (sends : t.sends = s.sends ++ [k₀])
    (ticks : t.dispatchers =
      Function.update s.dispatchers d₀ (.handed k₀)) : Safe t := by
  have hsends : sideEffects t.sends = sideEffects s.sends ++
      if k₀.sideEffecting then [k₀.commandId] else [] := by
    rw [sends, sideEffects_append]
  have hcommand : ∀ d k, (t.dispatchers d).command = some k →
      (s.dispatchers d).command = some k := by
    intro d k hk
    by_cases hd : d = d₀
    · subst hd
      rw [ticks, Function.update_self] at hk
      cases hk
      rw [ready]
      rfl
    · rw [ticks, Function.update_of_ne hd] at hk
      exact hk
  have hpc : ∀ d k, t.dispatchers d = .started k →
      d ≠ d₀ ∧ s.dispatchers d = .started k := by
    intro d k hk
    by_cases hd : d = d₀
    · subst hd
      rw [ticks, Function.update_self] at hk
      cases hk
    · rw [ticks, Function.update_of_ne hd] at hk
      exact ⟨hd, hk⟩
  constructor
  · exact ht
  · rw [starts]
    exact hs.startsNodup
  · rw [starts, issued]
    exact hs.startsIssued
  · rw [starts, db]
    exact hs.started
  · intro d k hk
    rw [issued]
    exact hs.tickIssued d k (hcommand d k hk)
  · intro d k hk
    rw [db]
    exact hs.tickKind d k (hcommand d k hk)
  · intro d k hk hse
    obtain ⟨hne, hk⟩ := hpc d k hk
    obtain ⟨hin, hout⟩ := hs.tickStarted d k hk hse
    rw [starts, hsends]
    refine ⟨hin, ?_⟩
    rw [List.mem_append, not_or]
    refine ⟨hout, ?_⟩
    split
    · rw [List.mem_singleton]
      intro heq
      exact hne (hs.tickAlone d k d₀ k₀ hk ready hse heq.symm).symm
    · simp
  · intro d k d' k' hk hk'
    exact hs.tickAlone d k d' k' (hpc d k hk).2 (hpc d' k' hk').2
  · rw [hsends]
    split
    · rename_i hse
      refine List.nodup_append.mpr ⟨hs.sendsNodup, by simp, ?_⟩
      intro a ha b hb
      rw [List.mem_singleton] at hb
      rintro rfl
      exact (hs.tickStarted d₀ k₀ ready hse).2 (hb ▸ ha)
    · simpa using hs.sendsNodup
  · intro id hid
    rw [hsends, List.mem_append] at hid
    rw [starts]
    rcases hid with hid | hid
    · exact hs.sendsStarted id hid
    · split at hid
      · rename_i hse
        rw [List.mem_singleton] at hid
        rw [hid]
        exact (hs.tickStarted d₀ k₀ ready hse).1
      · cases hid

theorem Safe.change {s t : Delivery} (hs : Safe s) (h : Change s t) :
    Safe t := by
  have ht := hs.rows.change h
  cases h with
  | quiet rows issued starts sends ticks =>
      exact hs.quiet ht rows issued starts sends ticks
  | insert c fresh queued rows issued starts sends ticks =>
      refine hs.insert ht fresh rows ?_ starts sends ticks
      rw [issued]
      exact List.subset_append_left _ _
  | start c stamp row reserved unsent stamped rows issued starts sends ticks =>
      exact hs.start ht row reserved unsent stamped rows issued starts sends
        ticks
  | handOver d k ready db issued starts sends ticks =>
      exact hs.handOver ht ready db issued starts sends ticks

theorem Safe.reachable {s : Delivery} (hs : (delivery dates).Reachable s) :
    Safe s :=
  hs.invariant (fun _ h => Safe.initial h)
    fun _ _ _ hI ht => hI.change (step_change ht)

/--
Over every interleaving of the operations and of ticks that may crash at any
step: no side-effecting command is marked or handed over twice, and one whose
send mark was set while dispatching is never queued again.
-/
theorem sideEffect_sent_at_most_once {s : Delivery}
    (hs : (delivery dates).Reachable s) :
    (sideEffects s.starts).Nodup ∧ (sideEffects s.sends).Nodup ∧
      ∀ c, c ∈ s.db.commands → c.sideEffecting = true →
        c.state = .dispatching → c.sendStartedAt.isSome = true →
        ∀ as t, (delivery dates).run s as = some t →
          ∀ d, d ∈ t.db.commands → d.commandId = c.commandId →
            d.state ≠ .queued := by
  have hsafe := Safe.reachable hs
  refine ⟨hsafe.startsNodup, hsafe.sendsNodup, ?_⟩
  intro c hc hse hd hsent as t hrun d hdt hk
  have hstarted : Started c :=
    ⟨by simp [hd], fun _ => hsafe.rows.stamped c hc hsent⟩
  have hholds := hsafe.rows.holds
    (P := fun d => d.sideEffecting = true ∧ Started d) hc ⟨hse, hstarted⟩
  have hfinal := hholds.run ?_ ?_ hrun
  · exact (hfinal.2 d hdt hk).2.1
  · rintro d e ⟨hse, hd⟩ hm
    exact ⟨hm.sideEffecting.trans hse, hm.started hse hd⟩
  · rintro d stamp hst ⟨hse, hd⟩
    exact ⟨hse, hd.1, fun _ => hst⟩

theorem sideEffect_sent_at_most_once_handOver :
    ∃ t, (delivery .epoch).run idleDelivery handOverActions = some t ∧
      sideEffects t.sends = ["cmd-1"] ∧ (sideEffects t.starts).Nodup := by
  obtain ⟨t, ht, hsends⟩ := (delivery .epoch).exists_run_of_map
    (f := fun t => sideEffects t.sends)
    (by decide : ((delivery .epoch).run idleDelivery handOverActions).map
      (fun t => sideEffects t.sends) = some ["cmd-1"])
  exact ⟨t, ht, hsends, (sideEffect_sent_at_most_once
    ((System.Reachable.initial idleDelivery_initial).run ht)).1⟩

end OrcState.Command
