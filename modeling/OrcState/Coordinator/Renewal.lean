import OrcState.Coordinator.Deliveries

/-!
# Renewals and the lease they replace

A renewal writes the clock plus its own duration, whatever the lease still had.
Worker heartbeats, phase events and probes ask for thirty minutes, a finalization
for an hour, a pull request for as long as it is configured to.
-/

namespace OrcState.Coordinator

open OrcState.Contract OrcState.Foundation OrcState.Store OrcState.Lifecycle

variable {dates : DateApi} {registry : Registry}

/-- An accepted renewal comes when the lease has no more left than it asks for. -/
def KeepsLease (dates : DateApi) (s : Project) (l : RunLabel) : Prop :=
  ∀ r ∈ l.renews dates s, ∀ p ∈ r.accepted dates s,
    ∀ expiry ∈ dates.parse p.1.leaseExpiresAt,
      expiry - p.2 ≤ r.leaseDurationMs

instance (s : Project) (l : RunLabel) : Decidable (KeepsLease dates s l) := by
  unfold KeepsLease
  infer_instance

theorem RunLabel.renews_of_touch {s : Project} {l : RunLabel}
    {q : RunId × Int} (h : (l.touch dates s).lease = some q) :
    ∃ r ∈ l.renews dates s, r.granted dates s = some q := by
  refine Option.bind_eq_some_iff.mp ?_
  cases l with
  | call a =>
      cases a with
      | heartbeat runId agentId o => exact h
      | renewLeaseOnly runId lease now => exact h
      | applyLifecycle request time => exact h
      | _ => cases h
  | deliver event nowIso =>
      simp only [RunLabel.touch, deliveryTouch] at h
      simp only [RunLabel.renews]
      cases haction : reduceLifecycleEvent dates event (eventClaim s event)
        nowIso with
      | heartbeat time lease =>
          rw [haction] at h
          exact h
      | advanceFinalization state delta blocked extend =>
          rw [haction] at h
          exact h
      | finishRun success reason code policy time =>
          rw [haction] at h
          simp only [LifecycleAction.touch] at h
          split at h <;> cases h
      | _ =>
          rw [haction] at h
          cases h
  | finishReview event time nowIso => cases h
  | resetSession nowIso => cases h

theorem Renewal.granted_eq_some {s : Project} {r : Renewal} {id : RunId}
    {e : Int} (h : r.granted dates s = some (id, e)) :
    ∃ claim now, r.accepted dates s = some (claim, now) ∧
      s.findClaim id = some claim ∧ e = now + r.leaseDurationMs := by
  obtain ⟨⟨claim, now⟩, haccepted, hq⟩ := Option.map_eq_some_iff.mp h
  obtain ⟨rfl, rfl⟩ := Prod.mk.inj hq
  refine ⟨claim, now, haccepted, ?_, rfl⟩
  obtain ⟨c, hfind, hrest⟩ := Option.bind_eq_some_iff.mp haccepted
  obtain ⟨n, -, hguard⟩ := Option.bind_eq_some_iff.mp hrest
  split at hguard
  · cases hguard
    exact hfind
  · cases hguard

theorem KeepsLease.le {s : Project} {l : RunLabel} (hok : KeepsLease dates s l)
    {id : RunId} {e expiry : Int}
    (h : (l.touch dates s).lease = some (id, e)) {c : Claim}
    (hfind : s.findClaim id = some c)
    (hexpiry : dates.parse c.leaseExpiresAt = some expiry) : expiry ≤ e := by
  obtain ⟨r, hr, hgranted⟩ := RunLabel.renews_of_touch h
  obtain ⟨claim, now, haccepted, hclaim, rfl⟩ :=
    Renewal.granted_eq_some hgranted
  cases hfind.symm.trans hclaim
  have hleft := hok r hr (c, now) haccepted expiry hexpiry
  simp only at hleft
  omega

def Leased (dates : DateApi) (s : Project) : Prop :=
  ∀ c, c ∈ s.events.runs → (dates.parse c.leaseExpiresAt).isSome = true

theorem Leased.runStep {s t : Project} {l : RunLabel} (hs : Leased dates s)
    (hbound : ∀ c, c ∈ s.events.runs → s.tasks.Bound c.runId)
    (h : runStep dates registry s l = some t) : Leased dates t := by
  intro c' hc'
  rcases (claimsMoved_runStep hbound h).source c' hc' with
    ⟨c, hc, hmove⟩ | ⟨-, -, -, e, hlease⟩
  · rcases hmove.lease with hsame | ⟨e, -, hlease⟩
    · rw [hsame]
      exact hs c hc
    · rw [hlease]
      exact dates.parse_toISOString e
  · rw [hlease]
    exact dates.parse_toISOString e

theorem Leased.reachable {s : Project}
    (hs : (runSystem dates registry).Reachable s) : Leased dates s := by
  refine System.ReachableUnder.invariant (fun s h c hc => ?_)
    (fun s l t hreach hs _ ht => ?_) hs
  · rw [Table.mem_rows, h.fresh.runs] at hc
    cases hc
  · exact hs.runStep (Announced.reachable hreach).rows ht

structure LeasedUntil (dates : DateApi) (id : RunId) (expiry : Int)
    (s : Project) : Prop where
  bound : s.tasks.Bound id
  lease : ∀ c, c ∈ s.events.runs → c.runId = id →
    ∃ e, dates.parse c.leaseExpiresAt = some e ∧ expiry ≤ e

theorem LeasedUntil.step {s t : Project} {l : RunLabel} {id : RunId}
    {expiry : Int}
    (hround : ∀ ms, dates.parse (dates.toISOString ms) = some ms)
    (hs : LeasedUntil dates id expiry s) (hinv : Announced s)
    (hok : KeepsLease dates s l) (h : runStep dates registry s l = some t) :
    LeasedUntil dates id expiry t := by
  obtain ⟨m, hm, ht⟩ := hinv.runStep h
  refine ⟨ht.bound id (hm.bound id hs.bound), fun c' hc' hid => ?_⟩
  rcases (claimsMoved_runStep hinv.rows h).source c' hc' with
    ⟨c, hc, hmove⟩ | ⟨-, -, hnew, -⟩
  · have hid₀ : c.runId = id := hmove.runId.symm.trans hid
    obtain ⟨e₀, he₀, hle⟩ := hs.lease c hc hid₀
    rcases hmove.lease with hsame | ⟨e, hrenewed, hlease⟩
    · rw [hsame]
      exact ⟨e₀, he₀, hle⟩
    · have hfind : s.findClaim c.runId = some c :=
        Table.find?_eq_some.mpr ⟨hc, rfl⟩
      refine ⟨e, by rw [hlease, hround], ?_⟩
      calc expiry ≤ e₀ := hle
        _ ≤ e := hok.le hrenewed hfind he₀
  · exact absurd hs.bound (hid ▸ hnew)

/--
The end of a lease only moves on along every run in which each accepted renewal
comes when the lease has no more left than the renewal asks for.
-/
theorem lease_monotone (dates : DateApi) (registry : Registry)
    (hround : ∀ ms, dates.parse (dates.toISOString ms) = some ms)
    {s t : Project} {labels : List RunLabel}
    (hs : (runSystem dates registry).Reachable s)
    (hok : (runSystem dates registry).Along (KeepsLease dates) s labels)
    (h : (runSystem dates registry).run s labels = some t) :
    ∀ c, c ∈ s.events.runs → ∀ c', c' ∈ t.events.runs → c'.runId = c.runId →
      ∃ before after, dates.parse c.leaseExpiresAt = some before ∧
        dates.parse c'.leaseExpiresAt = some after ∧ before ≤ after := by
  intro c hc c' hc' hid
  obtain ⟨before, hbefore⟩ :=
    Option.isSome_iff_exists.mp (Leased.reachable hs c hc)
  have hstart : LeasedUntil dates c.runId before s := by
    refine ⟨(Announced.reachable hs).rows c hc, fun c₀ hc₀ hid₀ => ?_⟩
    rw [Table.eq_of_key hc₀ hc hid₀]
    exact ⟨before, hbefore, Int.le_refl before⟩
  have hend : LeasedUntil dates c.runId before t :=
    System.along_preserves (I := (runSystem dates registry).Reachable)
      (fun s l t hs ht => hs.step ht)
      (fun s l t hs hp hok ht =>
        hp.step hround (Announced.reachable hs) hok ht) hs hstart hok h
  obtain ⟨after, hafter, hle⟩ := hend.lease c' hc' hid
  exact ⟨before, after, hbefore, hafter, hle⟩

/-! ## A day of dates -/

def digitChar (n : Nat) : Char := Char.ofNat (48 + n)

def digitValue (c : Char) : Nat := c.toNat - 48

theorem digitValue_digitChar {n : Nat} (h : n < 10) :
    digitValue (digitChar n) = n := by
  have hall : ∀ m < 10, digitValue (digitChar m) = m := by decide
  exact hall n h

def clockText (ms : Nat) : List Char :=
  "1970-01-01T".toList ++
    [digitChar (ms / 36000000), digitChar (ms / 3600000 % 10), ':',
      digitChar (ms / 600000 % 6), digitChar (ms / 60000 % 10), ':',
      digitChar (ms / 10000 % 6), digitChar (ms / 1000 % 10), '.',
      digitChar (ms / 100 % 10), digitChar (ms / 10 % 10),
      digitChar (ms % 10), 'Z']

def readClock : List Char → Option Int
  | [a, b, _, c, d, _, e, f, _, g, h, i, _] =>
      some (((digitValue a * 10 + digitValue b) * 3600000 +
        (digitValue c * 10 + digitValue d) * 60000 +
        (digitValue e * 10 + digitValue f) * 1000 +
        digitValue g * 100 + digitValue h * 10 + digitValue i : Nat) : Int)
  | _ => none

def dayText (ms : Int) : List Char :=
  if 0 ≤ ms ∧ ms < 86400000 then clockText ms.toNat
  else (if 0 ≤ ms then '+' else '-') :: List.replicate ms.natAbs '0'

def readDay : List Char → Option Int
  | '1' :: rest => readClock (rest.drop 10)
  | '+' :: rest => some rest.length
  | '-' :: rest => some (-rest.length)
  | _ => none

theorem readClock_clockText {n : Nat} (h : n < 86400000) :
    readClock ((clockText n).drop 11) = some (n : Int) := by
  have hdrop : (clockText n).drop 11 =
      [digitChar (n / 36000000), digitChar (n / 3600000 % 10), ':',
        digitChar (n / 600000 % 6), digitChar (n / 60000 % 10), ':',
        digitChar (n / 10000 % 6), digitChar (n / 1000 % 10), '.',
        digitChar (n / 100 % 10), digitChar (n / 10 % 10),
        digitChar (n % 10), 'Z'] := rfl
  rw [hdrop, readClock, digitValue_digitChar (by omega),
    digitValue_digitChar (by omega), digitValue_digitChar (by omega),
    digitValue_digitChar (by omega), digitValue_digitChar (by omega),
    digitValue_digitChar (by omega), digitValue_digitChar (by omega),
    digitValue_digitChar (by omega), digitValue_digitChar (by omega)]
  congr 1
  omega

theorem readDay_dayText (ms : Int) : readDay (dayText ms) = some ms := by
  unfold dayText
  by_cases hday : 0 ≤ ms ∧ ms < 86400000
  · rw [if_pos hday]
    calc readDay (clockText ms.toNat)
        = readClock ((clockText ms.toNat).drop 11) := rfl
      _ = some (ms.toNat : Int) := readClock_clockText (by omega)
      _ = some ms := congrArg some (Int.toNat_of_nonneg hday.1)
  · rw [if_neg hday]
    by_cases hsign : 0 ≤ ms
    · rw [if_pos hsign]
      simp only [readDay, List.length_replicate]
      exact congrArg some (Int.natAbs_of_nonneg hsign)
    · rw [if_neg hsign]
      simp only [readDay, List.length_replicate]
      congr 1
      omega

theorem dayText_ne_nil (ms : Int) : dayText ms ≠ [] := by
  intro h
  have hread := readDay_dayText ms
  rw [h] at hread
  cases hread

/--
The host's functions, exact on the first day of the epoch; the other times are
only told apart.
-/
def dayDates : DateApi where
  parse value := readDay value.toList
  toISOString ms := String.ofList (dayText ms)
  parse_toISOString ms := by
    rw [String.toList_ofList, readDay_dayText]
    rfl
  toISOString_ne_empty ms h := by
    refine dayText_ne_nil ms ?_
    rw [← String.toList_ofList (l := dayText ms), h]
    rfl

theorem dayDates_round (ms : Int) :
    dayDates.parse (dayDates.toISOString ms) = some ms := by
  change readDay (String.ofList (dayText ms)).toList = some ms
  rw [String.toList_ofList, readDay_dayText]

/-! ## A run whose finalization lease is cut short -/

def reportComplete : List RunLabel :=
  [.call (.claimTask "docs/intro" "worker" DEFAULT_LEASE_MS "run-1" (.ok ())
    0),
   .call (.startRun "run-1" "worker" { time := dayDates.toISOString 1000 }
    (dayDates.toISOString 1000)),
   .call (.applyLifecycle (.runWorkComplete "run-1" "worker")
    (dayDates.toISOString 2000))]

def Project.leases (dates : DateApi) (s : Project) :
    List (RunId × Option Int) :=
  s.claims.map fun c => (c.runId, dates.parse c.leaseExpiresAt)

theorem mem_leases {s : Project} {id : RunId} {e : Option Int}
    (h : (id, e) ∈ Project.leases dates s) :
    ∃ c, c ∈ s.events.runs ∧ c.runId = id ∧
      dates.parse c.leaseExpiresAt = e := by
  obtain ⟨c, hc, heq⟩ := List.mem_map.mp h
  obtain ⟨hid, hlease⟩ := Prod.mk.inj heq
  exact ⟨c, hc, hid, hlease⟩

def completeEvent : OrcEvent where
  seq := 3
  ts := dayDates.toISOString 2000
  event := .workComplete
  actorType := .agent
  actorId := "worker"
  runId := some "run-1"
  taskRef := some "docs/intro"
  agentId := some "worker"
  payload := [("status", .str "awaiting_finalize")]

def finalizeThenProbe : List RunLabel :=
  [.deliver completeEvent (dayDates.toISOString 3000),
   .call (.renewLeaseOnly "run-1" DEFAULT_LEASE_MS 1804000)]

set_option maxRecDepth 4000 in
theorem lease_monotone_finalize :
    ∃ s t, (runSystem dayDates soloRegistry).run oneTask reportComplete =
        some s ∧
      (runSystem dayDates soloRegistry).run s finalizeThenProbe = some t ∧
      Project.leases dayDates s = [("run-1", some 1800000)] ∧
      Project.leases dayDates t = [("run-1", some 3604000)] ∧
      ∀ c, c ∈ s.events.runs → ∀ c', c' ∈ t.events.runs → c'.runId = c.runId →
        ∃ before after, dayDates.parse c.leaseExpiresAt = some before ∧
          dayDates.parse c'.leaseExpiresAt = some after ∧ before ≤ after := by
  have hrun : ((runSystem dayDates soloRegistry).run oneTask
      reportComplete).map (fun s => (Project.leases dayDates s,
        decide ((runSystem dayDates soloRegistry).Along (KeepsLease dayDates) s
          finalizeThenProbe),
        ((runSystem dayDates soloRegistry).run s finalizeThenProbe).map
          (Project.leases dayDates))) =
      some ([("run-1", some 1800000)], true, some [("run-1", some 3604000)]) := by
    decide
  obtain ⟨s, hs, hparts⟩ := Option.map_eq_some_iff.mp hrun
  obtain ⟨hbefore, hparts⟩ := Prod.mk.inj hparts
  obtain ⟨hok, hparts⟩ := Prod.mk.inj hparts
  obtain ⟨t, ht, hafter⟩ := Option.map_eq_some_iff.mp hparts
  exact ⟨s, t, hs, ht, hbefore, hafter,
    lease_monotone dayDates soloRegistry dayDates_round
      ((System.Reachable.initial neverRun_oneTask).run hs)
      (of_decide_eq_true hok) ht⟩

set_option maxRecDepth 4000 in
/-- A probe one second into the hour leaves half an hour of it. -/
theorem not_lease_monotone_probe :
    ∃ s t, (runSystem dayDates soloRegistry).Reachable s ∧
      (runSystem dayDates soloRegistry).run s
        [.call (.renewLeaseOnly "run-1" DEFAULT_LEASE_MS 4000)] = some t ∧
      Project.leases dayDates s = [("run-1", some 3603000)] ∧
      Project.leases dayDates t = [("run-1", some 1804000)] ∧
      ¬ ∀ c, c ∈ s.events.runs → ∀ c', c' ∈ t.events.runs →
        c'.runId = c.runId →
          ∃ before after, dayDates.parse c.leaseExpiresAt = some before ∧
            dayDates.parse c'.leaseExpiresAt = some after ∧
              before ≤ after := by
  have hrun : ((runSystem dayDates soloRegistry).run oneTask
      (reportComplete ++ [.deliver completeEvent
        (dayDates.toISOString 3000)])).map (fun s => (Project.leases dayDates s,
          ((runSystem dayDates soloRegistry).run s
            [.call (.renewLeaseOnly "run-1" DEFAULT_LEASE_MS 4000)]).map
              (Project.leases dayDates))) =
      some ([("run-1", some 3603000)], some [("run-1", some 1804000)]) := by
    decide
  obtain ⟨s, hs, hparts⟩ := Option.map_eq_some_iff.mp hrun
  obtain ⟨hbefore, hparts⟩ := Prod.mk.inj hparts
  obtain ⟨t, ht, hafter⟩ := Option.map_eq_some_iff.mp hparts
  refine ⟨s, t, (System.Reachable.initial neverRun_oneTask).run hs, ht, hbefore,
    hafter, fun hall => ?_⟩
  obtain ⟨c, hc, hid, hlease⟩ :=
    mem_leases (hbefore ▸ List.mem_singleton.mpr rfl)
  obtain ⟨c', hc', hid', hlease'⟩ :=
    mem_leases (hafter ▸ List.mem_singleton.mpr rfl)
  obtain ⟨before, after, h, h', hle⟩ := hall c hc c' hc' (hid'.trans hid.symm)
  cases hlease.symm.trans h
  cases hlease'.symm.trans h'
  exact absurd hle (by decide)

end OrcState.Coordinator
