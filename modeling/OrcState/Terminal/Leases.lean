import OrcState.Terminal.Broker

/-!
# The exclusive writer of a terminal

`LeaseChange` says everything one step does to the leases, the ids given out so
far and the driver.  A lease is never replaced while it runs, the driver is called
only under the current lease of a terminal that is the run's own, and a refusal
for want of a lease or of an active run leaves the leases alone, unless a shell
was found dead on the way.
-/

namespace OrcState.Terminal

open OrcState.Contract OrcState.Foundation

variable {b s t : Broker} {l : Label} {o : Choice}

/-! ## How a lease ends -/

def Label.choice : Label → Option Choice
  | .advance o | .send _ _ o => some o
  | _ => none

def Releases (b : Broker) (l : Label) (lease : ControlLease) : Prop :=
  (∃ o, l = .advance o ∧
      b.stage = .begun (.release lease.resourceId lease.leaseId)) ∨
    l = .sent lease.resourceId lease.leaseId

def TakesOffline (b : Broker) (l : Label) (terminalId : String) : Prop :=
  ∃ o, l = .advance o ∧
    ((∃ purpose terminal, b.stage = .dead purpose terminal ∧
        terminal.terminalId = terminalId) ∨
      ∃ runId, b.stage = .shellDead runId ∧
        terminalIdOf .shell runId = terminalId)

/-- It has expired, it is released, or its terminal goes offline. -/
def GivenUp (b : Broker) (l : Label) (lease : ControlLease) : Prop :=
  (∃ o, l.choice = some o ∧ lease.expiresAt ≤ o.now) ∨ Releases b l lease ∨
    TakesOffline b l lease.resourceId

/-! ## What one step does -/

def Quiet (b t : Broker) : Prop :=
  t.leases = b.leases ∧ t.issued = b.issued ∧ t.driven = b.driven

inductive LeaseChange (b : Broker) (l : Label) (t : Broker) : Prop
  | quiet (h : Quiet b t)
  | granted (o : Choice) (lease : ControlLease) (hl : l.choice = some o)
      (hfree : ∀ cur, b.leases.find? lease.resourceId = some cur →
        cur.expiresAt ≤ o.now)
      (hfresh : lease.leaseId ∉ b.issued)
      (h : t.leases = b.leases.upsert lease)
      (hi : t.issued = b.issued ++ [lease.leaseId]) (hd : t.driven = b.driven)
  | served (o : Choice) (call : LeaseCall) (terminal : TerminalRecord)
      (leaseId : String) (hl : l = .advance o)
      (hstage : b.stage = .holding call terminal)
      (hcall : call.leaseId = some leaseId)
      (hcurrent : isCurrent b.around terminal.runId terminal.kind
        terminal.handle = true)
      (hholds : holds b.leases terminal.terminalId leaseId o.now = true)
      (h : t.leases = b.leases ∨
        t.leases = (b.extend terminal.terminalId o.later).leases)
      (hi : t.issued = b.issued)
      (hd : t.driven = (b.drive terminal.handle call).driven)
  | dropped (gone : ControlLease → Bool)
      (hgone : ∀ lease ∈ b.leases, gone lease = true → GivenUp b l lease)
      (h : t.leases = b.leases.filter fun lease => !gone lease)
      (hi : t.issued = b.issued) (hd : t.driven = b.driven)

theorem quiet_unavailable (terminal : TerminalRecord) (purpose : Purpose) :
    Quiet b (b.unavailable terminal purpose) := by
  unfold Broker.unavailable
  split <;> exact ⟨rfl, rfl, rfl⟩

theorem quiet_available (terminal : TerminalRecord) (purpose : Purpose) :
    Quiet b (b.available terminal purpose) := by
  cases purpose <;> exact ⟨rfl, rfl, rfl⟩

theorem quiet_openProvider (runId : RunId) :
    Quiet b (b.openProvider runId) := by
  unfold Broker.openProvider
  split
  · split <;> exact ⟨rfl, rfl, rfl⟩
  · exact ⟨rfl, rfl, rfl⟩

theorem quiet_openShell (runId : RunId) : Quiet b (b.openShell runId) := by
  unfold Broker.openShell
  split
  · exact ⟨rfl, rfl, rfl⟩
  · split <;> exact ⟨rfl, rfl, rfl⟩

theorem quiet_startShell (runId : RunId) : Quiet b (b.startShell runId o) := by
  unfold Broker.startShell
  split
  · exact ⟨rfl, rfl, rfl⟩
  · split <;> exact ⟨rfl, rfl, rfl⟩

theorem quiet_save (runId : RunId) (kind : TerminalKind) (handle : Handle)
    (started : Bool) : Quiet b (b.save runId kind handle started) := by
  unfold Broker.save
  split
  · split <;> exact ⟨rfl, rfl, rfl⟩
  · exact ⟨rfl, rfl, rfl⟩

theorem quiet_sweepRow (row : TerminalRecord × Bool)
    (rest : List (TerminalRecord × Bool)) : Quiet b (b.sweepRow row rest) := by
  unfold Broker.sweepRow
  dsimp only
  split <;> exact ⟨rfl, rfl, rfl⟩

theorem markOffline_change {terminalId : String} (ht : Quiet
      (b.markOffline terminalId) t) (hoff : TakesOffline b l terminalId) :
    LeaseChange b l t := by
  refine .dropped (fun lease => lease.resourceId = terminalId) ?_ ?_ ht.2.1
    ht.2.2
  · intro lease _ hgone
    exact .inr (.inr (of_decide_eq_true hgone ▸ hoff))
  · rw [ht.1]
    change b.leases.filter (fun lease => lease.resourceId ≠ terminalId) = _
    congr 1
    funext lease
    simp

theorem declareDead_change {terminal : TerminalRecord} {purpose : Purpose}
    (hstage : b.stage = .dead purpose terminal) :
    LeaseChange b (.advance o) (b.declareDead terminal purpose) := by
  have hoff : TakesOffline b (.advance o) terminal.terminalId :=
    ⟨o, rfl, .inl ⟨purpose, terminal, hstage, rfl⟩⟩
  cases purpose <;> exact markOffline_change ⟨rfl, rfl, rfl⟩ hoff

theorem acquire_change {terminalId ownerId : String} {ttlMs : Option Int}
    (hl : l.choice = some o)
    (h : b.acquire terminalId ownerId ttlMs o = some t) :
    LeaseChange b l t := by
  unfold Broker.acquire at h
  split at h
  · cases h
    exact .quiet ⟨rfl, rfl, rfl⟩
  · rename_i hfree
    split at h
    · cases h
    · rename_i hfresh
      cases h
      refine .granted o _ hl (fun cur hcur => ?_) hfresh rfl rfl rfl
      have hcur' : b.leases.find? terminalId = some cur := hcur
      simpa [hcur'] using hfree

theorem withLease_change {call : LeaseCall} {terminal : TerminalRecord}
    {leaseId : String} (hstage : b.stage = .holding call terminal)
    (hcall : call.leaseId = some leaseId)
    (hcurrent : isCurrent b.around terminal.runId terminal.kind
      terminal.handle = true) :
    LeaseChange b (.advance o) (b.withLease terminal leaseId call o) := by
  unfold Broker.withLease
  split
  · exact .quiet ⟨rfl, rfl, rfl⟩
  · rename_i hholds
    have hholds' : holds b.leases terminal.terminalId leaseId o.now = true := by
      simpa using hholds
    have hquiet : (b.drive terminal.handle call).leases = b.leases ∧
        (b.drive terminal.handle call).issued = b.issued := by
      unfold Broker.drive
      split <;> exact ⟨rfl, rfl⟩
    dsimp only
    split
    · refine .served o call terminal leaseId rfl hstage hcall hcurrent hholds'
        (.inr ?_) hquiet.2 rfl
      simp only [Broker.reply, Broker.extend, hquiet.1]
    · exact .served o call terminal leaseId rfl hstage hcall hcurrent hholds'
        (.inl hquiet.1) hquiet.2 rfl

theorem underLease_change {call : LeaseCall} {terminal : TerminalRecord}
    (hstage : b.stage = .holding call terminal)
    (h : b.underLease call terminal o = some t) :
    LeaseChange b (.advance o) t := by
  unfold Broker.underLease at h
  split at h
  · cases h
    exact .quiet ⟨rfl, rfl, rfl⟩
  · rename_i hcurrent
    have hcurrent' : isCurrent b.around terminal.runId terminal.kind
        terminal.handle = true := by simpa using hcurrent
    cases call with
    | acquire ownerId ttlMs => exact acquire_change rfl h
    | renew id =>
        cases h
        exact withLease_change hstage rfl hcurrent'
    | input id data =>
        cases h
        exact withLease_change hstage rfl hcurrent'
    | resize id columns rows =>
        cases h
        exact withLease_change hstage rfl hcurrent'

theorem filter_keep (leases : ControlLeases) (resourceId leaseId : String) :
    (leases.filter fun l =>
        ¬ (l.resourceId = resourceId ∧ l.leaseId = leaseId)) =
      leases.filter fun l =>
        !(l.resourceId = resourceId && l.leaseId = leaseId) := by
  congr 1
  funext l
  simp

theorem release_change {terminalId leaseId : String}
    (hstage : b.stage = .begun (.release terminalId leaseId)) :
    LeaseChange b (.advance o) (b.release terminalId leaseId) := by
  unfold Broker.release
  dsimp only
  split
  · exact .quiet ⟨rfl, rfl, rfl⟩
  · refine .dropped
      (fun l => l.resourceId = terminalId && l.leaseId = leaseId) ?_
      (filter_keep b.leases terminalId leaseId) rfl rfl
    intro lease _ hgone
    simp only [Bool.and_eq_true, decide_eq_true_eq] at hgone
    refine .inr (.inl (.inl ⟨o, rfl, ?_⟩))
    rw [hstage, hgone.1, hgone.2]

theorem begin_change {r : Request} (hstage : b.stage = .begun r) :
    LeaseChange b (.advance o) (b.begin r) := by
  cases r with
  | lease terminalId call =>
      refine .quiet ?_
      simp only [Broker.begin]
      split
      · exact ⟨rfl, rfl, rfl⟩
      · split <;> exact ⟨rfl, rfl, rfl⟩
  | release terminalId leaseId =>
      simp only [Broker.begin]
      split
      · exact .quiet ⟨rfl, rfl, rfl⟩
      · exact release_change hstage
  | observe terminalId after =>
      refine .quiet ?_
      simp only [Broker.begin]
      split
      · exact ⟨rfl, rfl, rfl⟩
      · split <;> exact ⟨rfl, rfl, rfl⟩
  | provider runId => exact .quiet (quiet_openProvider runId)
  | shell runId => exact .quiet (quiet_openShell runId)
  | reconcile => exact .quiet ⟨rfl, rfl, rfl⟩

theorem advance_change (h : b.advance o = some t) :
    LeaseChange b (.advance o) t := by
  cases hstage : b.stage <;> simp only [Broker.advance, hstage] at h
  case idle => cases h
  case begun r =>
    cases h
    exact begin_change hstage
  case checking purpose terminal =>
    split at h <;> cases h
    · exact .quiet ⟨rfl, rfl, rfl⟩
    · exact .quiet (quiet_unavailable terminal purpose)
  case probing purpose terminal =>
    split at h <;> cases h
    · exact .quiet (quiet_available terminal purpose)
    · exact .quiet (quiet_unavailable terminal purpose)
  case dead purpose terminal =>
    cases h
    exact declareDead_change hstage
  case holding call terminal => exact underLease_change hstage h
  case candidate runId handle =>
    split at h <;> cases h <;> exact .quiet ⟨rfl, rfl, rfl⟩
  case located runId handle =>
    split at h <;> cases h <;> exact .quiet ⟨rfl, rfl, rfl⟩
  case shellProbe runId =>
    split at h <;> cases h <;> exact .quiet ⟨rfl, rfl, rfl⟩
  case shellDead runId =>
    cases h
    exact markOffline_change ⟨rfl, rfl, rfl⟩
      ⟨o, rfl, .inr ⟨runId, hstage, rfl⟩⟩
  case shellStart runId =>
    cases h
    exact .quiet (quiet_startShell runId)
  case shellStarted runId started =>
    split at h <;> cases h <;> exact .quiet ⟨rfl, rfl, rfl⟩
  case saving runId kind handle started =>
    cases h
    exact .quiet (quiet_save runId kind handle started)
  case sweeping rows =>
    cases rows with
    | cons row rest =>
        cases h
        exact .quiet (quiet_sweepRow row rest)
    | nil =>
        cases h
        refine .dropped (fun l => l.expiresAt ≤ o.now) ?_ rfl rfl rfl
        intro lease _ hgone
        exact .inl ⟨o, rfl, of_decide_eq_true hgone⟩

theorem timed_cases {next : Broker → Option Broker}
    (h : b.timed o next = some t) :
    b.clock ≤ o.now ∧ next { b with clock := o.later } = some t := by
  unfold Broker.timed at h
  split at h
  · rename_i hclock
    exact ⟨hclock.1, h⟩
  · cases h

theorem LeaseChange.of_clock {clock : Int}
    (h : LeaseChange { b with clock := clock } l t) : LeaseChange b l t := by
  cases h with
  | quiet h => exact .quiet h
  | granted o lease hl hfree hfresh h hi hd =>
      exact .granted o lease hl hfree hfresh h hi hd
  | served o call terminal leaseId hl hstage hcall hcurrent hholds h hi hd =>
      refine .served o call terminal leaseId hl hstage hcall hcurrent hholds h
        hi (hd.trans ?_)
      unfold Broker.drive
      split <;> rfl
  | dropped gone hgone h hi hd => exact .dropped gone hgone h hi hd

theorem claimSendLease_change {agentId : AgentId} {pid : Nat}
    (hl : l.choice = some o)
    (h : b.claimSendLease agentId pid o = some t) : LeaseChange b l t := by
  unfold Broker.claimSendLease at h
  split at h
  · cases h
    exact .quiet ⟨rfl, rfl, rfl⟩
  · rename_i runId _
    split at h
    · cases h
      exact .quiet ⟨rfl, rfl, rfl⟩
    · rename_i hfree
      split at h
      · cases h
      · rename_i hfresh
        cases h
        refine .granted o _ hl (fun cur hcur => ?_) hfresh rfl rfl rfl
        have hcur' : b.leases.find? (terminalIdOf .provider runId) =
            some cur := hcur
        simpa [hcur'] using hfree

theorem step_change (h : step s l = some t) : LeaseChange s l t := by
  cases l with
  | surroundings e =>
      cases h
      exact .quiet ⟨rfl, rfl, rfl⟩
  | request r =>
      simp only [step, Option.ite_none_right_eq_some, Option.some.injEq] at h
      obtain ⟨-, rfl⟩ := h
      exact .quiet ⟨rfl, rfl, rfl⟩
  | advance o =>
      simp only [step] at h
      exact (advance_change (timed_cases h).2).of_clock
  | send agentId pid o =>
      simp only [step, Option.ite_none_right_eq_some] at h
      obtain ⟨c, hc, rfl⟩ := Option.map_eq_some_iff.mp (timed_cases h.2).2
      have hchange : LeaseChange s (.send agentId pid o) c :=
        (claimSendLease_change rfl hc).of_clock
      cases hchange with
      | quiet h => exact .quiet h
      | granted o lease hl hfree hfresh h hi hd =>
          exact .granted o lease hl hfree hfresh h hi hd
      | served o call terminal leaseId hl => cases hl
      | dropped gone hgone h hi hd => exact .dropped gone hgone h hi hd
  | sent resourceId leaseId =>
      simp only [step, Option.ite_none_right_eq_some, Option.some.injEq] at h
      obtain ⟨-, rfl⟩ := h
      refine .dropped
        (fun l => l.resourceId = resourceId && l.leaseId = leaseId) ?_
        (filter_keep s.leases resourceId leaseId) rfl rfl
      intro lease _ hgone
      simp only [Bool.and_eq_true, decide_eq_true_eq] at hgone
      refine .inr (.inl (.inr ?_))
      rw [hgone.1, hgone.2]

/-! ## A lease outlives every step that does not give it up -/

theorem mem_extend {terminalId : String} {later : Int} {lease : ControlLease} :
    lease ∈ (b.extend terminalId later).leases ↔
      (∃ lease₀ ∈ b.leases, lease₀.resourceId = terminalId ∧
        { lease₀ with expiresAt := later + DEFAULT_LEASE_MS } = lease) ∨
      (lease ∈ b.leases ∧ lease.resourceId ≠ terminalId) := by
  simp only [Broker.extend, Table.mem_update]

def Held (resourceId leaseId ownerId : String) (b : Broker) : Prop :=
  ∃ lease ∈ b.leases, lease.resourceId = resourceId ∧
    lease.leaseId = leaseId ∧ lease.ownerId = ownerId

def Spares (resourceId leaseId : String) (b : Broker) (l : Label) : Prop :=
  ∀ lease ∈ b.leases, lease.resourceId = resourceId →
    lease.leaseId = leaseId → ¬ GivenUp b l lease

theorem LeaseChange.held {resourceId leaseId ownerId : String}
    (h : LeaseChange s l t) (hs : Held resourceId leaseId ownerId s)
    (hspares : Spares resourceId leaseId s l) :
    Held resourceId leaseId ownerId t := by
  obtain ⟨lease, hmem, hres, hid, howner⟩ := hs
  have hkeep : ¬ GivenUp s l lease := hspares lease hmem hres hid
  cases h with
  | quiet h => exact ⟨lease, h.1 ▸ hmem, hres, hid, howner⟩
  | granted o new hl hfree hfresh h =>
      by_cases hsame : lease.resourceId = new.resourceId
      · have hfound : s.leases.find? new.resourceId = some lease :=
          hsame ▸ Table.find?_of_mem hmem
        exact absurd (.inl ⟨o, hl, hfree lease hfound⟩) hkeep
      · refine ⟨lease, ?_, hres, hid, howner⟩
        rw [h]
        exact Table.mem_upsert.mpr (.inr ⟨hmem, hsame⟩)
  | served o call terminal leaseId' hl hstage hcall hcurrent hholds h =>
      rcases h with h | h
      · exact ⟨lease, h ▸ hmem, hres, hid, howner⟩
      · by_cases hsame : lease.resourceId = terminal.terminalId
        · refine ⟨{ lease with expiresAt := o.later + DEFAULT_LEASE_MS }, ?_,
            hres, hid, howner⟩
          rw [h]
          exact mem_extend.mpr (.inl ⟨lease, hmem, hsame, rfl⟩)
        · refine ⟨lease, ?_, hres, hid, howner⟩
          rw [h]
          exact mem_extend.mpr (.inr ⟨hmem, hsame⟩)
  | dropped gone hgone h =>
      refine ⟨lease, ?_, hres, hid, howner⟩
      rw [h]
      refine Table.mem_filter.mpr ⟨hmem, ?_⟩
      cases hdrop : gone lease with
      | true => exact absurd (hgone lease hmem hdrop) hkeep
      | false => rfl

theorem held_run {resourceId leaseId ownerId : String} {ls : List Label}
    (hs : Held resourceId leaseId ownerId s)
    (hok : broker.Along (Spares resourceId leaseId) s ls)
    (hrun : broker.run s ls = some t) : Held resourceId leaseId ownerId t :=
  System.along_preserves (I := fun _ => True)
    (P := Held resourceId leaseId ownerId) (fun _ _ _ _ _ => trivial)
    (fun _ _ _ _ hP hspares hstep => (step_change hstep).held hP hspares)
    trivial hs hok hrun

/-! ## Lease ids -/

/-- Every stored lease id has been given out, and to one terminal. -/
structure Distinct (b : Broker) : Prop where
  issued : ∀ lease ∈ b.leases, lease.leaseId ∈ b.issued
  one : ∀ lease ∈ b.leases, ∀ lease' ∈ b.leases,
    lease.leaseId = lease'.leaseId → lease = lease'

theorem Distinct.step (h : Distinct s) (hstep : step s l = some t) :
    Distinct t := by
  cases step_change hstep with
  | quiet hq =>
      obtain ⟨hl, hi, -⟩ := hq
      exact ⟨hl ▸ hi ▸ h.issued, hl ▸ h.one⟩
  | granted o new hl hfree hfresh hleases hi =>
      have hold : ∀ lease ∈ t.leases, lease = new ∨ lease ∈ s.leases := by
        intro lease hmem
        rw [hleases] at hmem
        exact (Table.mem_upsert.mp hmem).imp_right And.left
      constructor
      · intro lease hmem
        rw [hi]
        rcases hold lease hmem with rfl | hmem
        · exact List.mem_append_right _ (List.mem_singleton.mpr rfl)
        · exact List.mem_append_left _ (h.issued lease hmem)
      · intro lease hmem lease' hmem' heq
        rcases hold lease hmem with rfl | hmem <;>
          rcases hold lease' hmem' with rfl | hmem'
        · rfl
        · exact absurd (heq ▸ h.issued lease' hmem') hfresh
        · exact absurd (heq ▸ h.issued lease hmem) hfresh
        · exact h.one lease hmem lease' hmem' heq
  | served o call terminal leaseId hl hstage hcall hcurrent hholds hleases hi =>
      rcases hleases with hleases | hleases
      · exact ⟨hleases ▸ hi ▸ h.issued, hleases ▸ h.one⟩
      · -- An extended lease keeps its id and its terminal.
        have hold : ∀ lease ∈ t.leases, ∃ lease₀ ∈ s.leases,
            lease₀.leaseId = lease.leaseId ∧
              lease₀.resourceId = lease.resourceId := by
          intro lease hmem
          rw [hleases] at hmem
          rcases mem_extend.mp hmem with ⟨lease₀, hmem₀, -, rfl⟩ | ⟨hmem, -⟩
          · exact ⟨lease₀, hmem₀, rfl, rfl⟩
          · exact ⟨lease, hmem, rfl, rfl⟩
        constructor
        · intro lease hmem
          obtain ⟨lease₀, hmem₀, hid, -⟩ := hold lease hmem
          rw [hi, ← hid]
          exact h.issued lease₀ hmem₀
        · intro lease hmem lease' hmem' heq
          obtain ⟨lease₀, hmem₀, hid, hres⟩ := hold lease hmem
          obtain ⟨lease₁, hmem₁, hid', hres'⟩ := hold lease' hmem'
          have hsame : lease₀ = lease₁ :=
            h.one lease₀ hmem₀ lease₁ hmem₁ (hid.trans (heq.trans hid'.symm))
          refine Table.eq_of_key hmem hmem' ?_
          exact hres.symm.trans ((congrArg _ hsame).trans hres')
  | dropped gone hgone hleases hi =>
      have hold : ∀ lease ∈ t.leases, lease ∈ s.leases := by
        intro lease hmem
        rw [hleases] at hmem
        exact (Table.mem_filter.mp hmem).1
      refine ⟨fun lease hmem => ?_, fun lease hmem lease' hmem' heq => ?_⟩
      · rw [hi]
        exact h.issued lease (hold lease hmem)
      · exact h.one lease (hold lease hmem) lease' (hold lease' hmem') heq

/-! ## Where a request stands -/

def TerminalRecord.Named (r : TerminalRecord) : Prop :=
  r.terminalId = terminalIdOf r.kind r.runId

def FoundDead (b : Broker) (runId : RunId) : Prop :=
  (b.leases = b.entry.filter fun l =>
      l.resourceId ≠ terminalIdOf .shell runId) ∧
    ∀ r ∈ b.terminals, r.terminalId = terminalIdOf .shell runId →
      r.state = .offline

/--
A request refused with `conflict` or `forbidden` left the leases as it found
them; a shell request whose run ended while its dead shell was started again
has dropped the lease of that shell.
-/
def RefusedQuietly (b : Broker) : Prop :=
  ∀ e, b.answer = some (.refused e) →
    e.code = .conflict ∨ e.code = .forbidden →
      b.leases = b.entry ∨
        ∃ runId, b.request = some (.shell runId) ∧ e = runInactive ∧
          FoundDead b runId

def Serving (b : Broker) (call : LeaseCall) (r : TerminalRecord) : Prop :=
  b.request = some (.lease r.terminalId call) ∧ r.Named ∧ b.leases = b.entry

def Place (b : Broker) : Prop :=
  match b.stage with
  | .idle => RefusedQuietly b
  | .begun r => b.request = some r ∧ b.leases = b.entry
  | .checking (.lease call) r | .probing (.lease call) r
  | .dead (.lease call) r | .holding call r => Serving b call r
  | .checking _ _ | .probing _ _ | .dead _ _ | .sweeping _ => True
  | .candidate _ _ | .located _ _ => b.leases = b.entry
  | .shellProbe runId | .shellDead runId =>
      b.request = some (.shell runId) ∧ b.leases = b.entry
  | .shellStart runId | .shellStarted runId _ =>
      b.request = some (.shell runId) ∧
        (b.leases = b.entry ∨ FoundDead b runId)
  | .saving runId kind _ _ =>
      b.leases = b.entry ∨
        kind = .shell ∧ b.request = some (.shell runId) ∧ FoundDead b runId

structure Inv (b : Broker) : Prop where
  named : ∀ r ∈ b.terminals, r.Named
  place : Place b

namespace Inv

theorem reply (hnamed : ∀ r ∈ b.terminals, r.Named) {a : Answer}
    (ha : ∀ e, a = .refused e →
      e.code ≠ .conflict ∧ e.code ≠ .forbidden ∨ b.leases = b.entry) :
    Inv (b.reply a) := by
  refine ⟨hnamed, fun e he hcode => ?_⟩
  obtain rfl : a = .refused e := Option.some.inj he
  rcases ha e rfl with ⟨hc, hf⟩ | hkept
  · exact absurd hcode (not_or.mpr ⟨hc, hf⟩)
  · exact .inl hkept

theorem done (hnamed : ∀ r ∈ b.terminals, r.Named) : Inv (b.reply .done) :=
  reply hnamed fun _ h => by cases h

theorem failed (hnamed : ∀ r ∈ b.terminals, r.Named) : Inv (b.reply .failed) :=
  reply hnamed fun _ h => by cases h

theorem refuse (hnamed : ∀ r ∈ b.terminals, r.Named) {e : ControlError}
    (hkept : b.leases = b.entry) : Inv (b.refuse e) :=
  reply hnamed fun _ _ => .inr hkept

theorem mem_markOffline {terminalId : String} {r : TerminalRecord} :
    r ∈ (b.markOffline terminalId).terminals ↔
      (∃ r₀ ∈ b.terminals, r₀.terminalId = terminalId ∧ r₀.offline = r) ∨
      (r ∈ b.terminals ∧ r.terminalId ≠ terminalId) :=
  @Table.mem_update _ _ _ _ b.terminals terminalId TerminalRecord.offline
    (fun _ => rfl) r

theorem markOffline_named (hnamed : ∀ r ∈ b.terminals, r.Named)
    (terminalId : String) : ∀ r ∈ (b.markOffline terminalId).terminals,
      r.Named := by
  intro r hr
  rcases mem_markOffline.mp hr with ⟨r₀, hr₀, -, rfl⟩ | ⟨hr, -⟩
  · exact hnamed r₀ hr₀
  · exact hnamed r hr

theorem begin {r : Request} (h : Inv b) (hstage : b.stage = .begun r) :
    Inv (b.begin r) := by
  have hplace := h.place
  rw [Place, hstage] at hplace
  obtain ⟨hrequest, hkept⟩ := hplace
  have hnamed := h.named
  cases r with
  | lease terminalId call =>
      simp only [Broker.begin]
      split
      · exact refuse hnamed hkept
      · split
        · exact refuse hnamed hkept
        · rename_i terminal hfind
          obtain ⟨hmem, hid⟩ := Table.find?_eq_some.mp hfind
          refine ⟨hnamed, ?_, hnamed terminal hmem, hkept⟩
          change b.request = _
          rw [hid]
          exact hrequest
  | release terminalId leaseId =>
      simp only [Broker.begin]
      split
      · exact refuse hnamed hkept
      · unfold Broker.release
        dsimp only
        split
        · exact refuse hnamed hkept
        · exact done hnamed
  | observe terminalId after =>
      simp only [Broker.begin]
      split
      · exact refuse hnamed hkept
      · split
        · exact refuse hnamed hkept
        · exact ⟨hnamed, trivial⟩
  | provider runId =>
      simp only [Broker.begin, Broker.openProvider]
      split
      · split
        · exact ⟨hnamed, hkept⟩
        · exact refuse hnamed hkept
      · exact refuse hnamed hkept
  | shell runId =>
      simp only [Broker.begin, Broker.openShell]
      split
      · exact refuse hnamed hkept
      · split
        · exact refuse hnamed hkept
        · exact ⟨hnamed, hrequest, hkept⟩
  | reconcile => exact ⟨hnamed, trivial⟩

theorem look {terminal : TerminalRecord} {purpose : Purpose}
    (hnamed : ∀ r ∈ b.terminals, r.Named)
    (hserving : ∀ call, purpose = .lease call → Serving b call terminal) :
    Inv (b.setStage (.probing purpose terminal)) ∧
      Inv (b.available terminal purpose) ∧
      Inv (b.unavailable terminal purpose) := by
  cases purpose with
  | lease call =>
      have hs := hserving call rfl
      exact ⟨⟨hnamed, hs⟩, ⟨hnamed, hs⟩, ⟨hnamed, hs⟩⟩
  | observe =>
      refine ⟨⟨hnamed, trivial⟩, done hnamed, ?_⟩
      unfold Broker.unavailable
      split
      · exact done hnamed
      · exact ⟨hnamed, trivial⟩
  | sweep rest => exact ⟨⟨hnamed, trivial⟩, ⟨hnamed, trivial⟩, ⟨hnamed, trivial⟩⟩

theorem declareDead (h : Inv b) (terminal : TerminalRecord)
    (purpose : Purpose) : Inv (b.declareDead terminal purpose) := by
  have hnamed := markOffline_named h.named terminal.terminalId
  cases purpose with
  | lease call =>
      refine reply hnamed fun e he => .inl ?_
      cases he
      exact ⟨by decide, by decide⟩
  | observe => exact done hnamed
  | sweep rest => exact ⟨hnamed, trivial⟩

theorem underLease {call : LeaseCall} {terminal : TerminalRecord} (h : Inv b)
    (hkept : b.leases = b.entry)
    (hstep : b.underLease call terminal o = some t) : Inv t := by
  have hlease : ∀ id, Inv (b.withLease terminal id call o) := by
    intro id
    unfold Broker.withLease
    split
    · exact refuse h.named hkept
    · have hterminals : (b.drive terminal.handle call).terminals =
          b.terminals := by
        unfold Broker.drive
        split <;> rfl
      have hnamed : ∀ r ∈ (b.drive terminal.handle call).terminals,
          r.Named := hterminals ▸ h.named
      dsimp only
      split
      · exact done hnamed
      · exact failed hnamed
  unfold Broker.underLease at hstep
  split at hstep
  · cases hstep
    exact refuse h.named hkept
  · cases call with
    | acquire ownerId ttlMs =>
        simp only [Broker.acquire] at hstep
        split at hstep
        · cases hstep
          exact refuse h.named hkept
        · split at hstep
          · cases hstep
          · cases hstep
            exact done h.named
    | renew id =>
        cases hstep
        exact hlease id
    | input id data =>
        cases hstep
        exact hlease id
    | resize id columns rows =>
        cases hstep
        exact hlease id

theorem shellDead {runId : RunId} (h : Inv b)
    (hrequest : b.request = some (.shell runId)) (hkept : b.leases = b.entry) :
    Inv ((b.markOffline (terminalIdOf .shell runId)).setStage
      (.shellStart runId)) := by
  refine ⟨markOffline_named h.named _, hrequest, .inr ⟨?_, ?_⟩⟩
  · change b.leases.filter _ = b.entry.filter _
    rw [hkept]
  · intro r hr hid
    rcases mem_markOffline.mp hr with ⟨r₀, -, -, rfl⟩ | ⟨-, hne⟩
    · rfl
    · exact absurd hid hne

theorem save {runId : RunId} {kind : TerminalKind} {handle : Handle}
    {started : Bool} (h : Inv b)
    (hplace : b.leases = b.entry ∨
      kind = .shell ∧ b.request = some (.shell runId) ∧ FoundDead b runId) :
    Inv (b.save runId kind handle started) := by
  unfold Broker.save
  split
  · rename_i error herror
    have hquiet : RefusedQuietly (b.refuse error) := by
      intro e he hcode
      obtain rfl : error = e := Answer.refused.inj (Option.some.inj he)
      rcases hplace with hkept | ⟨rfl, hrequest, hdead⟩
      · exact .inl hkept
      · refine .inr ⟨runId, hrequest, ?_, hdead⟩
        unfold Broker.saveError at herror
        split at herror
        · cases herror
          simp [noWorktree] at hcode
        · split at herror
          · exact (Option.some.inj herror).symm
          · simp at herror
    split
    · exact ⟨h.named, hquiet⟩
    · exact ⟨h.named, hquiet⟩
  · refine done fun r hr => ?_
    rcases Table.mem_upsert.mp hr with rfl | ⟨hr, -⟩
    · rfl
    · exact h.named r hr

theorem advance (h : Inv b) (hstep : b.advance o = some t) : Inv t := by
  have hplace := h.place
  have hnamed := h.named
  cases hstage : b.stage <;>
    simp only [Broker.advance, hstage] at hstep <;>
    simp only [Place, hstage] at hplace
  case idle => cases hstep
  case begun r =>
    cases hstep
    exact h.begin hstage
  case checking purpose terminal =>
    have hserving : ∀ call, purpose = .lease call →
        Serving b call terminal := by
      rintro call rfl
      exact hplace
    obtain ⟨hprobe, -, hno⟩ := look hnamed hserving
    split at hstep <;> cases hstep
    · exact hprobe
    · exact hno
  case probing purpose terminal =>
    have hserving : ∀ call, purpose = .lease call →
        Serving b call terminal := by
      rintro call rfl
      exact hplace
    obtain ⟨-, hyes, hno⟩ := look hnamed hserving
    split at hstep <;> cases hstep
    · exact hyes
    · exact hno
  case dead purpose terminal =>
    cases hstep
    exact h.declareDead terminal purpose
  case holding call terminal => exact h.underLease hplace.2.2 hstep
  case candidate runId handle =>
    split at hstep <;> cases hstep
    · exact ⟨hnamed, hplace⟩
    · exact refuse hnamed hplace
  case located runId handle =>
    split at hstep <;> cases hstep
    · exact ⟨hnamed, .inl hplace⟩
    · exact refuse hnamed hplace
  case shellProbe runId =>
    split at hstep <;> cases hstep
    · exact ⟨hnamed, hplace.1, .inl hplace.2⟩
    · exact ⟨hnamed, hplace⟩
  case shellDead runId =>
    cases hstep
    exact h.shellDead hplace.1 hplace.2
  case shellStart runId =>
    cases hstep
    unfold Broker.startShell
    split
    · exact ⟨hnamed, hplace⟩
    · split
      · exact ⟨hnamed, hplace⟩
      · exact failed hnamed
  case shellStarted runId started =>
    split at hstep <;> cases hstep
    · exact ⟨hnamed, hplace.2.imp_right fun hdead => ⟨rfl, hplace.1, hdead⟩⟩
    · refine reply hnamed fun e he => .inl ?_
      cases he
      exact ⟨by decide, by decide⟩
  case saving runId kind handle started =>
    cases hstep
    exact h.save hplace
  case sweeping rows =>
    cases rows with
    | cons row rest =>
        cases hstep
        unfold Broker.sweepRow
        dsimp only
        split <;> exact ⟨hnamed, trivial⟩
    | nil =>
        cases hstep
        exact done hnamed

theorem surround (h : Inv b) (e : Surroundings) : Inv (b.surround e) := by
  have hsub : ∀ r ∈ (b.surround e).terminals, r ∈ b.terminals := fun r hr =>
    (Table.mem_filter.mp hr).1
  have hdead : ∀ runId, FoundDead b runId → FoundDead (b.surround e) runId :=
    fun runId hd => ⟨hd.1, fun r hr => hd.2 r (hsub r hr)⟩
  refine ⟨fun r hr => h.named r (hsub r hr), ?_⟩
  have hplace := h.place
  have hstage : (b.surround e).stage = b.stage := rfl
  unfold Place at hplace ⊢
  rw [hstage]
  cases hcase : b.stage <;> simp only [hcase] at hplace ⊢
  case idle =>
    intro error he hcode
    refine (hplace error he hcode).imp_right ?_
    rintro ⟨runId, hrequest, herror, hd⟩
    exact ⟨runId, hrequest, herror, hdead runId hd⟩
  case checking purpose r => cases purpose <;> exact hplace
  case probing purpose r => cases purpose <;> exact hplace
  case dead purpose r => cases purpose <;> exact hplace
  case shellStart runId => exact ⟨hplace.1, hplace.2.imp_right (hdead runId)⟩
  case shellStarted runId started =>
    exact ⟨hplace.1, hplace.2.imp_right (hdead runId)⟩
  case saving runId kind handle started =>
    exact hplace.imp_right fun ⟨hk, hr, hd⟩ => ⟨hk, hr, hdead runId hd⟩
  all_goals exact hplace

theorem clock (h : Inv b) (clock : Int) : Inv { b with clock := clock } :=
  ⟨h.named, h.place⟩

theorem step (h : Inv s) (hstep : step s l = some t) : Inv t := by
  cases l with
  | surroundings e =>
      cases hstep
      exact h.surround e
  | request r =>
      simp only [Terminal.step, Option.ite_none_right_eq_some,
        Option.some.injEq] at hstep
      obtain ⟨-, rfl⟩ := hstep
      exact ⟨h.named, rfl, rfl⟩
  | advance o =>
      simp only [Terminal.step] at hstep
      exact (h.clock o.later).advance (timed_cases hstep).2
  | send agentId pid o =>
      simp only [Terminal.step, Option.ite_none_right_eq_some] at hstep
      obtain ⟨hidle, hstep⟩ := hstep
      obtain ⟨c, hc, rfl⟩ := Option.map_eq_some_iff.mp (timed_cases hstep).2
      have hkept : c.terminals = s.terminals ∧ c.stage = s.stage := by
        unfold Broker.claimSendLease at hc
        split at hc
        · cases hc
          exact ⟨rfl, rfl⟩
        · split at hc
          · cases hc
            exact ⟨rfl, rfl⟩
          · split at hc <;> cases hc
            exact ⟨rfl, rfl⟩
      refine ⟨hkept.1 ▸ h.named, ?_⟩
      unfold Place
      rw [show ({ c with answer := none } : Broker).stage = .idle from
        hkept.2.trans hidle]
      intro e he
      cases he
  | sent resourceId leaseId =>
      simp only [Terminal.step, Option.ite_none_right_eq_some,
        Option.some.injEq] at hstep
      obtain ⟨hidle, rfl⟩ := hstep
      refine ⟨h.named, ?_⟩
      unfold Place
      rw [show ({ s.releaseSendLease resourceId leaseId with
        answer := none } : Broker).stage = .idle from hidle]
      intro e he
      cases he

end Inv

/-! ## The driver -/

/--
The call goes to the terminal named in the request, under its current lease,
while its run is active and, for a provider terminal, the latest session of the
agent is the running tmux session of that run.
-/
def Permitted (b : Broker) (l : Label) (d : DriverCall) : Prop :=
  ∃ (o : Choice) (r : TerminalRecord), l = .advance o ∧
    b.request = some (.lease r.terminalId d.call) ∧
    r.terminalId = terminalIdOf r.kind r.runId ∧ d.handle = r.handle ∧
    (∃ lease ∈ b.leases, lease.resourceId = r.terminalId ∧
      d.call.leaseId = some lease.leaseId ∧ o.now < lease.expiresAt) ∧
    b.around.runActive r.runId = true ∧
    (r.kind = .provider → ∃ agentId session, r.handle = .tmux agentId ∧
      b.around.latestSession agentId = some session ∧
      session.runId = some r.runId ∧ session.state = .running ∧
      session.transport = some "tmux")

theorem isCurrent_active {e : Surroundings} {runId : RunId}
    {kind : TerminalKind} {handle : Handle}
    (h : isCurrent e runId kind handle = true) :
    e.runActive runId = true ∧
      (kind = .provider → ∃ agentId session, handle = .tmux agentId ∧
        e.latestSession agentId = some session ∧
        session.runId = some runId ∧ session.state = .running ∧
        session.transport = some "tmux") := by
  simp only [isCurrent, Bool.and_eq_true] at h
  refine ⟨h.1, ?_⟩
  rintro rfl
  cases handle with
  | shell run => simp at h
  | tmux agentId =>
      cases hsession : e.latestSession agentId with
      | none => simp [hsession] at h
      | some session =>
          simp only [hsession, Bool.and_eq_true, decide_eq_true_eq] at h
          exact ⟨agentId, session, rfl, hsession, h.2.2.1.1, h.2.2.1.2, h.2.2.2⟩

theorem holds_eq_true {leases : ControlLeases} {terminalId leaseId : String}
    {now : Int} (h : holds leases terminalId leaseId now = true) :
    ∃ lease ∈ leases, lease.resourceId = terminalId ∧
      lease.leaseId = leaseId ∧ now < lease.expiresAt := by
  unfold holds at h
  cases hfind : leases.find? terminalId with
  | none => simp [hfind] at h
  | some lease =>
      obtain ⟨hmem, hid⟩ := Table.find?_eq_some.mp hfind
      simp only [hfind, Option.any_some, Bool.and_eq_true, decide_eq_true_eq,
        Bool.not_eq_true', decide_eq_false_iff_not] at h
      exact ⟨lease, hmem, hid, h.1, by omega⟩

theorem driven_step (h : Inv s) (hstep : step s l = some t) :
    t.driven = s.driven ∨
      ∃ d, t.driven = s.driven ++ [d] ∧ Permitted s l d := by
  cases step_change hstep with
  | quiet hq => exact .inl hq.2.2
  | granted _ _ _ _ _ _ _ hd => exact .inl hd
  | dropped _ _ _ _ hd => exact .inl hd
  | served o call terminal leaseId hl hstage hcall hcurrent hholds _ _ hd =>
      unfold Broker.drive at hd
      split at hd
      · refine .inr ⟨⟨terminal.handle, call⟩, hd, o, terminal, hl, ?_⟩
        have hplace := h.place
        rw [Place, hstage] at hplace
        obtain ⟨hrequest, hnamed, -⟩ := hplace
        obtain ⟨lease, hmem, hid, hlease, hlive⟩ := holds_eq_true hholds
        obtain ⟨hactive, hprovider⟩ := isCurrent_active hcurrent
        exact ⟨hrequest, hnamed, rfl,
          ⟨lease, hmem, hid, hlease ▸ hcall, hlive⟩, hactive, hprovider⟩
      · exact .inl hd

/-! ## The exclusive writer -/

/--
What holds of the broker at every moment: one lease for a terminal and one
terminal for a lease; a lease stays until it is given up; the driver is called by
its holder only; and a refusal leaves the leases alone.
-/
structure ExclusiveWriter (b : Broker) : Prop where
  one : ∀ lease ∈ b.leases, ∀ lease' ∈ b.leases,
    lease.resourceId = lease'.resourceId ∨ lease.leaseId = lease'.leaseId →
      lease = lease'
  kept : ∀ resourceId leaseId ownerId, Held resourceId leaseId ownerId b →
    ∀ ls t, broker.Along (Spares resourceId leaseId) b ls →
      broker.run b ls = some t → Held resourceId leaseId ownerId t
  driven : ∀ l t, step b l = some t → t.driven = b.driven ∨
    ∃ d, t.driven = b.driven ++ [d] ∧ Permitted b l d
  refused : b.stage = .idle → RefusedQuietly b

theorem terminal_writer_exclusive (h : broker.Reachable b) :
    ExclusiveWriter b := by
  have hinv : Inv b ∧ Distinct b := by
    refine System.Reachable.invariant (I := fun b => Inv b ∧ Distinct b) ?_
      (fun _ _ _ hI hstep => ⟨hI.1.step hstep, hI.2.step hstep⟩) h
    rintro s ⟨hterminals, hleases, hstage, -, hanswer, -⟩
    refine ⟨⟨?_, ?_⟩, ⟨?_, ?_⟩⟩
    · simp [hterminals]
    · rw [Place, hstage]
      intro e he
      rw [hanswer] at he
      cases he
    · simp [hleases]
    · simp [hleases]
  refine ⟨?_, ?_, fun l t hstep => driven_step hinv.1 hstep, ?_⟩
  · rintro lease hmem lease' hmem' (hres | hid)
    · exact Table.eq_of_key hmem hmem' hres
    · exact hinv.2.one lease hmem lease' hmem' hid
  · intro resourceId leaseId ownerId hheld ls t hok hrun
    exact held_run hheld hok hrun
  · intro hidle
    have hplace := hinv.1.place
    rw [Place, hidle] at hplace
    exact hplace

/-! One shell, its writer, and the end of its run while the shell is started
again. -/

def oneShell : Broker where
  around :=
    { runs := [("run-1", .inProgress)], sessions := [], alive := []
      worktrees := ["run-1"] }

def choiceAt (now : Int) (leaseId : String) : Label :=
  .advance { now := now, later := now, leaseId := leaseId, driverOk := true }

def openAndAcquire : List Label :=
  [.request (.shell "run-1")] ++ List.replicate 6 (choiceAt 1 "") ++
    [.request (.lease "shell:run-1" (.acquire "browser" none))] ++
    List.replicate 4 (choiceAt 2 "lease-1")

def typeOnce : List Label :=
  [.request (.lease "shell:run-1" (.input "lease-1" "ls\r"))] ++
    List.replicate 4 (choiceAt 3 "")

def afterShellDied (runs : List (RunId × ClaimState)) : Label :=
  .surroundings
    { runs := runs, sessions := [], alive := [], worktrees := ["run-1"] }

def restartAsRunEnds : List Label :=
  [afterShellDied [("run-1", .inProgress)], .request (.shell "run-1")] ++
    List.replicate 5 (choiceAt 4 "") ++
    [.surroundings
      { runs := [("run-1", .done)], sessions := [], alive := [.shell "run-1"]
        worktrees := ["run-1"] },
     choiceAt 5 ""]

theorem oneShell_initial : broker.Reachable oneShell :=
  System.Reachable.initial ⟨rfl, rfl, rfl, rfl, rfl, rfl, rfl, rfl⟩

theorem terminal_writer_exclusive_shell :
    ∃ t, broker.run oneShell (openAndAcquire ++ typeOnce) = some t ∧
      (t.answer, t.driven.length) = (some .done, 1) ∧ ExclusiveWriter t := by
  obtain ⟨t, ht, hdone⟩ := broker.exists_run_of_map
    (f := fun t => (t.answer, t.driven.length))
    (by decide +kernel :
      (broker.run oneShell (openAndAcquire ++ typeOnce)).map
        (fun t => (t.answer, t.driven.length)) = some (some .done, 1))
  exact ⟨t, ht, hdone,
    terminal_writer_exclusive (System.Reachable.run oneShell_initial ht)⟩

/-- The shell request is refused with `conflict`, and its lease is gone. -/
theorem not_refused_leaves_leases :
    ∃ t, broker.run oneShell (openAndAcquire ++ restartAsRunEnds) = some t ∧
      t.answer = some (.refused runInactive) ∧ runInactive.code = .conflict ∧
      t.leases ≠ t.entry := by
  obtain ⟨t, ht, hend⟩ := broker.exists_run_of_map
    (f := fun t => (t.answer, t.leases.rows.length, t.entry.rows.length))
    (by decide +kernel :
      (broker.run oneShell (openAndAcquire ++ restartAsRunEnds)).map
        (fun t => (t.answer, t.leases.rows.length, t.entry.rows.length)) =
          some (some (.refused runInactive), 0, 1))
  obtain ⟨hanswer, hlengths⟩ := Prod.mk.inj hend
  obtain ⟨hleases, hentry⟩ := Prod.mk.inj hlengths
  refine ⟨t, ht, hanswer, rfl, fun hsame => ?_⟩
  rw [hsame, hentry] at hleases
  cases hleases

end OrcState.Terminal
