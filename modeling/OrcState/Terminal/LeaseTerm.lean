import OrcState.Terminal.Leases

/-!
# The term of a lease

`acquire` lets the caller choose how long its lease runs, and every use of the
lease sets the end anew, thirty seconds from then, whatever was chosen.  So a use
moves the end forward exactly when no more than thirty seconds are left; an earlier
one takes from the holder what it asked for.
-/

namespace OrcState.Terminal

open OrcState.Contract OrcState.Foundation

variable {s t : Broker} {l : Label} {o : Choice} {resourceId leaseId : String}

/-! ## Using a lease -/

/-- A `renew`, `input` or `resize` under the lease succeeds in this step. -/
def Uses (b : Broker) (o : Choice) (resourceId leaseId : String) : Prop :=
  ∃ call terminal, b.stage = .holding call terminal ∧
    terminal.terminalId = resourceId ∧ call.leaseId = some leaseId ∧
    isCurrent b.around terminal.runId terminal.kind terminal.handle = true ∧
    holds b.leases resourceId leaseId o.now = true ∧ o.driverOk = true

/-- The lease is used only when what is left of it is no more than a use gives. -/
def Due (resourceId leaseId : String) (b : Broker) (l : Label) : Prop :=
  ∀ o, l = .advance o → Uses b o resourceId leaseId →
    ∀ lease ∈ b.leases, lease.resourceId = resourceId →
      lease.expiresAt ≤ o.later + DEFAULT_LEASE_MS

def Stage.held : Stage → Option (LeaseCall × TerminalRecord)
  | .holding call terminal => some (call, terminal)
  | _ => none

theorem Stage.held_eq_some {stage : Stage} {call : LeaseCall}
    {terminal : TerminalRecord} :
    stage.held = some (call, terminal) ↔ stage = .holding call terminal := by
  cases stage <;> simp [Stage.held]

instance (b : Broker) (o : Choice) (resourceId leaseId : String) :
    Decidable (Uses b o resourceId leaseId) :=
  decidable_of_iff (∃ p ∈ b.stage.held.toList, p.2.terminalId = resourceId ∧
      p.1.leaseId = some leaseId ∧
      isCurrent b.around p.2.runId p.2.kind p.2.handle = true ∧
      holds b.leases resourceId leaseId o.now = true ∧ o.driverOk = true)
    (by simp [Uses, Stage.held_eq_some])

instance (resourceId leaseId : String) (b : Broker) :
    ∀ l, Decidable (Due resourceId leaseId b l)
  | .advance o =>
      decidable_of_iff (Uses b o resourceId leaseId →
          ∀ lease ∈ b.leases.rows, lease.resourceId = resourceId →
            lease.expiresAt ≤ o.later + DEFAULT_LEASE_MS)
        ⟨fun h _ ho => by cases ho; exact h, fun h => h o rfl⟩
  | .surroundings _ | .request _ | .send _ _ _ | .sent _ _ =>
      isTrue (by rintro o ⟨⟩)

def Unshortened (resourceId leaseId : String) (b : Broker) (l : Label) : Prop :=
  ∀ t, step b l = some t →
    ∀ lease ∈ b.leases, lease.resourceId = resourceId → lease.leaseId = leaseId →
      ∀ lease' ∈ t.leases, lease'.resourceId = resourceId →
        lease'.leaseId = leaseId → lease.expiresAt ≤ lease'.expiresAt

theorem withLease_leases {terminal : TerminalRecord} {call : LeaseCall} :
    (s.withLease terminal leaseId call o).leases =
      if holds s.leases terminal.terminalId leaseId o.now = true ∧
          o.driverOk = true then
        (s.extend terminal.terminalId o.later).leases
      else s.leases := by
  have hdrive : (s.drive terminal.handle call).leases = s.leases := by
    unfold Broker.drive
    split <;> rfl
  unfold Broker.withLease
  cases hholds : holds s.leases terminal.terminalId leaseId o.now with
  | false => simp [Broker.refuse, Broker.reply]
  | true =>
      cases hok : o.driverOk with
      | false => simp [Broker.reply, hdrive]
      | true => simp [Broker.reply, Broker.extend, hdrive]

theorem advance_of_step (h : step s (.advance o) = some t) :
    Broker.advance { s with clock := o.later } o = some t := by
  simp only [step] at h
  exact (timed_cases h).2

theorem holding_cases {call : LeaseCall} {terminal : TerminalRecord}
    (hstage : s.stage = .holding call terminal)
    (hcall : call.leaseId = some leaseId)
    (hstep : step s (.advance o) = some t) :
    t.leases = s.leases ∨ Uses s o terminal.terminalId leaseId := by
  have hadvance := advance_of_step hstep
  simp only [Broker.advance, hstage, Broker.underLease] at hadvance
  split at hadvance
  · cases hadvance
    exact .inl rfl
  · rename_i hcurrent
    have hserved : some (Broker.withLease { s with clock := o.later } terminal
        leaseId call o) = some t := by
      cases call with
      | acquire ownerId ttlMs => cases hcall
      | renew id | input id data | resize id columns rows =>
          cases hcall
          exact hadvance
    cases hserved
    rw [withLease_leases]
    split
    · rename_i hused
      refine .inr ⟨call, terminal, hstage, rfl, hcall, ?_, hused.1, hused.2⟩
      simpa using hcurrent
    · exact .inl rfl

theorem Uses.extends (h : Uses s o resourceId leaseId)
    (hstep : step s (.advance o) = some t) :
    t.leases = (s.extend resourceId o.later).leases := by
  obtain ⟨call, terminal, hstage, rfl, hcall, hcurrent, hholds, hok⟩ := h
  have hadvance := advance_of_step hstep
  simp only [Broker.advance, hstage, Broker.underLease, hcurrent] at hadvance
  have hserved : some (Broker.withLease { s with clock := o.later } terminal
      leaseId call o) = some t := by
    cases call with
    | acquire ownerId ttlMs => cases hcall
    | renew id | input id data | resize id columns rows =>
        cases hcall
        exact hadvance
  cases hserved
  rw [withLease_leases, if_pos ⟨hholds, hok⟩]
  rfl

/-! ## When a step shortens a lease -/

theorem due_of_unshortened (hstep : step s l = some t)
    (h : Unshortened resourceId leaseId s l) : Due resourceId leaseId s l := by
  rintro o rfl huses lease hmem hres
  have hleases := huses.extends hstep
  obtain ⟨call, terminal, -, -, -, -, hholds, -⟩ := huses
  obtain ⟨held, hheld, hresHeld, hid, -⟩ := holds_eq_true hholds
  have hsame : held = lease := Table.eq_of_key hheld hmem (hresHeld.trans hres.symm)
  subst hsame
  refine h t hstep held hmem hres hid
    { held with expiresAt := o.later + DEFAULT_LEASE_MS } ?_ hres hid
  rw [hleases]
  exact mem_extend.mpr (.inl ⟨held, hmem, hres, rfl⟩)

theorem unshortened_of_due (hs : Distinct s) (h : Due resourceId leaseId s l) :
    Unshortened resourceId leaseId s l := by
  intro t hstep lease hmem hres hid lease' hmem' hres' hid'
  have hkept : lease' ∈ s.leases → lease.expiresAt ≤ lease'.expiresAt := by
    intro hold
    have hsame : lease = lease' :=
      Table.eq_of_key hmem hold (hres.trans hres'.symm)
    rw [hsame]
  cases step_change hstep with
  | quiet hq => exact hkept (hq.1 ▸ hmem')
  | granted o new hl hfree hfresh hleases =>
      rw [hleases] at hmem'
      rcases Table.mem_upsert.mp hmem' with rfl | ⟨hold, -⟩
      · have hissued := hs.issued lease hmem
        rw [hid, ← hid'] at hissued
        exact absurd hissued hfresh
      · exact hkept hold
  | served o call terminal held hl hstage hcall hcurrent hholds hleases =>
      subst hl
      rcases holding_cases hstage hcall hstep with hsame | huses
      · exact hkept (hsame ▸ hmem')
      · have hextended := huses.extends hstep
        rw [hextended] at hmem'
        rcases mem_extend.mp hmem' with ⟨lease₀, hmem₀, hres₀, rfl⟩ | ⟨hold, -⟩
        · have hsame : lease = lease₀ :=
            Table.eq_of_key hmem hmem₀ (hres.trans hres'.symm)
          subst hsame
          have hown : held = leaseId := by
            obtain ⟨found, hfound, hresFound, hidFound, -⟩ := holds_eq_true hholds
            have hfoundSame : found = lease :=
              Table.eq_of_key hfound hmem (hresFound.trans hres₀.symm)
            rw [← hidFound, hfoundSame, hid]
          subst hown
          have hterminal : terminal.terminalId = resourceId := hres₀.symm.trans hres
          rw [hterminal] at huses
          exact h o rfl huses lease hmem hres
        · exact hkept hold
  | dropped gone hgone hleases =>
      rw [hleases] at hmem'
      exact hkept (Table.mem_filter.mp hmem').1

theorem unshortened_iff_due (hs : Distinct s) (hstep : step s l = some t) :
    Unshortened resourceId leaseId s l ↔ Due resourceId leaseId s l :=
  ⟨due_of_unshortened hstep, unshortened_of_due hs⟩

theorem along_unshortened_iff {ls : List Label} (hs : Distinct s)
    (hrun : broker.run s ls = some t) :
    broker.Along (Unshortened resourceId leaseId) s ls ↔
      broker.Along (Due resourceId leaseId) s ls := by
  induction ls generalizing s with
  | nil => exact Iff.rfl
  | cons l rest ih =>
      obtain ⟨m, hm, hrest⟩ := System.run_cons broker hrun
      simp only [System.Along, hm]
      exact and_congr (unshortened_iff_due hs hm) (ih (hs.step hm) hrest)

/-! ## Holding a lease for its term -/

/-- The one lease of the terminal is this owner's, at least until `term`. -/
def HeldUntil (resourceId leaseId ownerId : String) (term : Int) (b : Broker) :
    Prop :=
  ∃ lease, b.leases.find? resourceId = some lease ∧ lease.leaseId = leaseId ∧
    lease.ownerId = ownerId ∧ term ≤ lease.expiresAt

/-- Before `term`, and the lease is not released nor its terminal taken offline. -/
def Undisturbed (resourceId leaseId : String) (term : Int) (b : Broker)
    (l : Label) : Prop :=
  (∀ o, l.choice = some o → o.now < term) ∧ ¬ TakesOffline b l resourceId ∧
    ∀ lease ∈ b.leases, lease.resourceId = resourceId →
      lease.leaseId = leaseId → ¬ Releases b l lease

theorem HeldUntil.step {ownerId : String} {term : Int} (hs : Distinct s)
    (h : HeldUntil resourceId leaseId ownerId term s)
    (hdue : Due resourceId leaseId s l)
    (hcalm : Undisturbed resourceId leaseId term s l)
    (hstep : step s l = some t) : HeldUntil resourceId leaseId ownerId term t := by
  obtain ⟨lease, hfind, hid, howner, hterm⟩ := h
  obtain ⟨hmem, hres⟩ := Table.find?_eq_some.mp hfind
  have hspares : Spares resourceId leaseId s l := by
    rintro held hheld hresHeld hidHeld (⟨o, ho, hexpired⟩ | hreleases | hoffline)
    · have hsame : held = lease :=
        Table.eq_of_key hheld hmem (hresHeld.trans hres.symm)
      have hearly := hcalm.1 o ho
      rw [hsame] at hexpired
      omega
    · exact hcalm.2.2 held hheld hresHeld hidHeld hreleases
    · rw [hresHeld] at hoffline
      exact hcalm.2.1 hoffline
  obtain ⟨lease', hmem', hres', hid', howner'⟩ :=
    (step_change hstep).held ⟨lease, hmem, hres, hid, howner⟩ hspares
  have hlonger := unshortened_of_due hs hdue t hstep lease hmem hres hid lease'
    hmem' hres' hid'
  exact ⟨lease', Table.find?_eq_some.mpr ⟨hmem', hres'⟩, hid', howner',
    hterm.trans hlonger⟩

theorem HeldUntil.run {ownerId : String} {term : Int} {ls : List Label}
    (hs : Distinct s) (h : HeldUntil resourceId leaseId ownerId term s)
    (hdue : broker.Along (Due resourceId leaseId) s ls)
    (hcalm : broker.Along (Undisturbed resourceId leaseId term) s ls)
    (hrun : broker.run s ls = some t) :
    HeldUntil resourceId leaseId ownerId term t := by
  induction ls generalizing s with
  | nil =>
      cases hrun
      exact h
  | cons l rest ih =>
      obtain ⟨m, hm, hrest⟩ := System.run_cons broker hrun
      simp only [System.Along, hm] at hdue hcalm
      exact ih (hs.step hm) (h.step hs hdue.1 hcalm.1 hm) hdue.2 hcalm.2 hrest

theorem heldUntil_acquire {ownerId : String} {ttlMs : Option Int}
    {terminal : TerminalRecord}
    (hstage : s.stage = .holding (.acquire ownerId ttlMs) terminal)
    (hstep : step s (.advance o) = some t) (hdone : t.answer = some .done) :
    HeldUntil terminal.terminalId o.leaseId ownerId
      (o.now + ttlMs.getD DEFAULT_LEASE_MS) t := by
  have hadvance := advance_of_step hstep
  simp only [Broker.advance, hstage, Broker.underLease] at hadvance
  split at hadvance
  · cases hadvance
    cases hdone
  · unfold Broker.acquire at hadvance
    split at hadvance
    · cases hadvance
      cases hdone
    · split at hadvance
      · cases hadvance
      · cases hadvance
        refine ⟨_, Table.find?_eq_some.mpr ⟨Table.mem_upsert.mpr (.inl rfl), rfl⟩,
          rfl, rfl, Int.le_refl _⟩

theorem Distinct.reachable (h : broker.Reachable s) : Distinct s := by
  refine System.Reachable.invariant ?_ (fun _ _ _ hI hstep => hI.step hstep) h
  rintro b ⟨-, hleases, -⟩
  constructor
  · simp [hleases]
  · simp [hleases]

/--
After a lease is acquired its end never moves back exactly when each use comes in
the last thirty seconds; the holder then has the terminal until the time it asked
for, unless the lease is released or the terminal goes offline.
-/
theorem lease_term_iff {s m t : Broker} {o : Choice} {ownerId : String}
    {ttlMs : Option Int} {terminal : TerminalRecord} {ls : List Label}
    (h : broker.Reachable s)
    (hstage : s.stage = .holding (.acquire ownerId ttlMs) terminal)
    (hacquire : step s (.advance o) = some m) (hdone : m.answer = some .done)
    (hrun : broker.run m ls = some t) :
    (broker.Along (Unshortened terminal.terminalId o.leaseId) m ls ↔
      broker.Along (Due terminal.terminalId o.leaseId) m ls) ∧
    (broker.Along (Due terminal.terminalId o.leaseId) m ls →
      broker.Along (Undisturbed terminal.terminalId o.leaseId
        (o.now + ttlMs.getD DEFAULT_LEASE_MS)) m ls →
      HeldUntil terminal.terminalId o.leaseId ownerId
        (o.now + ttlMs.getD DEFAULT_LEASE_MS) t) := by
  have hm : Distinct m := (Distinct.reachable h).step hacquire
  refine ⟨along_unshortened_iff hm hrun, fun hdue hcalm => ?_⟩
  exact (heldUntil_acquire hstage hacquire hdone).run hm hdue hcalm hrun

def acquireFor (ttlMs : Option Int) : List Label :=
  [.request (.shell "run-1")] ++ List.replicate 6 (choiceAt 1 "") ++
    [.request (.lease "shell:run-1" (.acquire "browser" ttlMs))] ++
    List.replicate 3 (choiceAt 2 "lease-1")

/-- A lease of the default term is not shortened by the first use. -/
theorem lease_term_iff_default :
    ∃ s m, broker.run oneShell (acquireFor none) = some s ∧
      step s (choiceAt 2 "lease-1") = some m ∧
      broker.Along (Unshortened "shell:run-1" "lease-1") m typeOnce := by
  obtain ⟨s, hs, hseen⟩ := broker.exists_run_of_map
    (f := fun s => (s.stage, (step s (choiceAt 2 "lease-1")).map fun m =>
      (m.answer, decide (broker.Along (Due "shell:run-1" "lease-1") m typeOnce),
        (broker.run m typeOnce).isSome)))
    (by decide +kernel :
      (broker.run oneShell (acquireFor none)).map (fun s =>
        (s.stage, (step s (choiceAt 2 "lease-1")).map fun m =>
          (m.answer,
            decide (broker.Along (Due "shell:run-1" "lease-1") m typeOnce),
            (broker.run m typeOnce).isSome))) =
        some (.holding (.acquire "browser" none)
          ⟨"shell:run-1", "run-1", .shell, .shell "run-1", .running⟩,
          some (some .done, true, true)))
  obtain ⟨hstage, hnext⟩ := Prod.mk.inj hseen
  obtain ⟨m, hm, hfacts⟩ := Option.map_eq_some_iff.mp hnext
  obtain ⟨hdone, hrest⟩ := Prod.mk.inj hfacts
  obtain ⟨hdue, hends⟩ := Prod.mk.inj hrest
  obtain ⟨t, ht⟩ := Option.isSome_iff_exists.mp hends
  refine ⟨s, m, hs, hm, ?_⟩
  exact (lease_term_iff (oneShell_initial.run hs) hstage hm hdone ht).1.mpr
    (of_decide_eq_true hdue)

def termsOf (b : Broker) : List (String × Int) :=
  b.leases.rows.map fun lease => (lease.ownerId, lease.expiresAt)

/-- Two minutes are granted; the first use leaves thirty seconds of them. -/
theorem use_shortens_lease :
    ∃ m t, broker.run oneShell
        (acquireFor (some 120000) ++ [choiceAt 2 "lease-1"]) = some m ∧
      termsOf m = [("browser", 120002)] ∧
      broker.run m typeOnce = some t ∧ termsOf t = [("browser", 30003)] ∧
      ¬ broker.Along (Unshortened "shell:run-1" "lease-1") m typeOnce := by
  obtain ⟨m, hm, hseen⟩ := broker.exists_run_of_map
    (f := fun m => (termsOf m,
      decide (broker.Along (Due "shell:run-1" "lease-1") m typeOnce),
      (broker.run m typeOnce).map termsOf))
    (by decide +kernel :
      (broker.run oneShell
          (acquireFor (some 120000) ++ [choiceAt 2 "lease-1"])).map (fun m =>
        (termsOf m,
          decide (broker.Along (Due "shell:run-1" "lease-1") m typeOnce),
          (broker.run m typeOnce).map termsOf)) =
        some ([("browser", 120002)], false, some [("browser", 30003)]))
  obtain ⟨hgranted, hrest⟩ := Prod.mk.inj hseen
  obtain ⟨hdue, hnext⟩ := Prod.mk.inj hrest
  obtain ⟨t, ht, hused⟩ := Option.map_eq_some_iff.mp hnext
  refine ⟨m, t, hm, hgranted, ht, hused, fun hlong => ?_⟩
  have hdistinct := Distinct.reachable (oneShell_initial.run hm)
  exact of_decide_eq_false hdue ((along_unshortened_iff hdistinct ht).mp hlong)

end OrcState.Terminal
