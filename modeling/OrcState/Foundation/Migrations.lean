import Mathlib.Data.List.Range
import OrcState.Foundation.Transition

/-!
# Versioned migrations, opened by many processes

A store carries its version.  A process that opens it goes through the migrations
in order, and runs in a transaction of its own each one that the version it last
read asks for; some programs read the version once more inside that transaction.
Any number of processes open the store at the same time, any of them may die
between two of its steps, and others write to the store meanwhile.

A plan is sound for a family of predicates, one for each version, when a
migration leads from one to the next and a write stays within one.  Then every
run migrates the store exactly once, one version after the other.
-/

namespace OrcState.Foundation.Migrations

/-- `rereads k` says that the version is read again after migration `k`. -/
structure Plan (σ ε ω : Type) where
  target : Nat
  version : σ → Nat
  migrate : Nat → σ → Except ε σ
  rechecks : Bool
  rereads : Nat → Bool
  shortcut : Bool
  tooNew : Nat → ε
  health : σ → Except ε Unit
  write : ω → σ → Option σ

/-- Where a process stands: about to read the version, or to act on what it read. -/
inductive Opener (ε : Type) where
  | starting
  | reading (k : Nat)
  | deciding (k seen : Nat)
  | checking
  | opened
  | failed (e : ε)
  | gone
  deriving DecidableEq, Repr

inductive Move (ω : Type) where
  | join
  | go (i : Nat)
  | die (i : Nat)
  | write (w : ω)
  deriving DecidableEq, Repr

def Opener.lives {ε : Type} : Opener ε → Bool
  | .failed _ | .gone => false
  | _ => true

def Move.goes {ω : Type} (i : Nat) : Move ω → Bool
  | .go j => i = j
  | _ => false

structure Opening (σ ε : Type) where
  store : σ
  openers : List (Opener ε) := []
  applied : List Nat := []

namespace Plan

variable {σ ε ω : Type} (plan : Plan σ ε ω)

def after (k seen : Nat) (reread : Bool) : Opener ε :=
  if plan.target ≤ k + 1 then .checking
  else if reread then .reading (k + 1)
  else .deciding (k + 1) seen

/-- One step of a process: its new place, and the store if it migrated it. -/
def advance (store : σ) : Opener ε → Opener ε × Option (Nat × σ)
  | .starting =>
      if plan.target < plan.version store then
        (.failed (plan.tooNew (plan.version store)), none)
      else if plan.shortcut && plan.version store = plan.target then
        (.checking, none)
      else (.deciding 0 (plan.version store), none)
  | .reading k => (.deciding k (plan.version store), none)
  | .deciding k seen =>
      if seen = k then
        if plan.rechecks && plan.version store ≠ k then
          (plan.after k seen true, none)
        else
          match plan.migrate k store with
          | .error e => (.failed e, none)
          | .ok store' => (plan.after k seen true, some (k, store'))
      else (plan.after k seen (plan.rereads k), none)
  | .checking =>
      match plan.health store with
      | .error e => (.failed e, none)
      | .ok _ => (.opened, none)
  | .opened => (.opened, none)
  | .failed e => (.failed e, none)
  | .gone => (.gone, none)

def step (w : Opening σ ε) : Move ω → Option (Opening σ ε)
  | .join => some { w with openers := w.openers ++ [.starting] }
  | .go i =>
      match w.openers[i]? with
      | none => none
      | some opener =>
          match plan.advance w.store opener with
          | (opener', none) => some { w with openers := w.openers.set i opener' }
          | (opener', some (k, store)) => some {
              store
              openers := w.openers.set i opener'
              applied := w.applied ++ [k] }
  | .die i => some { w with openers := w.openers.set i .gone }
  | .write write =>
      match plan.write write w.store with
      | none => none
      | some store => some { w with store }

def system (initial : σ → Prop) : System (Opening σ ε) (Move ω) where
  initial w := initial w.store ∧ w.openers = [] ∧ w.applied = []
  step := plan.step

/-! ## Sound plans -/

/-- `Good k` holds of the stores at version `k`. -/
structure Sound (Good : Nat → σ → Prop) : Prop where
  positive : 0 < plan.target
  version : ∀ {k store}, Good k store → plan.version store = k
  migrate : ∀ {k store store'}, Good k store → k < plan.target →
    plan.migrate k store = .ok store' → Good (k + 1) store'
  late : plan.rechecks = false → ∀ {k j store}, Good j store → k < j →
    j ≤ plan.target → ∃ e, plan.migrate k store = .error e
  health : ∀ {store}, Good plan.target store → plan.health store = .ok ()
  write : ∀ {k write store store'}, Good k store →
    plan.write write store = some store' → Good k store'

def Placed (version : Nat) : Opener ε → Prop
  | .starting | .failed _ | .gone => True
  | .reading k => k < plan.target ∧ k ≤ version
  | .deciding k seen => k < plan.target ∧ k ≤ seen ∧ seen ≤ version
  | .checking | .opened => plan.target ≤ version

/-- The store is good at one version, and was brought there one by one. -/
structure Safe (Good : Nat → σ → Prop) (first version : Nat)
    (w : Opening σ ε) : Prop where
  good : Good version w.store
  above : first ≤ version
  below : version ≤ plan.target
  applied : w.applied = List.range' first (version - first)
  placed : ∀ opener ∈ w.openers, plan.Placed version opener

variable {plan} {Good : Nat → σ → Prop} {first version : Nat}
  {w w' : Opening σ ε}

theorem Placed.mono {version version' : Nat} {opener : Opener ε}
    (h : plan.Placed version opener) (hle : version ≤ version') :
    plan.Placed version' opener := by
  cases opener with
  | reading k => exact ⟨h.1, h.2.trans hle⟩
  | deciding k seen => exact ⟨h.1, h.2.1, h.2.2.trans hle⟩
  | checking => exact Nat.le_trans h hle
  | opened => exact Nat.le_trans h hle
  | starting => trivial
  | failed e => trivial
  | gone => trivial

theorem placed_after {k seen version : Nat} {reread : Bool}
    (hseen : reread = false → k < seen) (hle : seen ≤ version)
    (hpast : k < version) : plan.Placed version (plan.after k seen reread) := by
  unfold after
  split
  · rename_i hlast
    change plan.target ≤ version
    omega
  split
  · exact ⟨by omega, hpast⟩
  · rename_i hfalse
    exact ⟨by omega, hseen (by simpa using hfalse), hle⟩

theorem Sound.migrated (h : plan.Sound Good) {k seen : Nat} {store store' : σ}
    (hgood : Good version store) (hbelow : version ≤ plan.target)
    (hplaced : plan.Placed version (.deciding k seen)) (hseen : seen = k)
    (hcheck : ¬ (plan.rechecks && plan.version store ≠ k) = true)
    (hok : plan.migrate k store = .ok store') :
    version = k ∧ Good (k + 1) store' := by
  have hversion : version = k := by
    obtain ⟨-, -, hle⟩ := hplaced
    cases hrechecks : plan.rechecks with
    | true =>
        simp only [hrechecks, Bool.true_and, decide_eq_true_eq, not_not] at hcheck
        rw [← h.version hgood]
        exact hcheck
    | false =>
        by_contra hne
        obtain ⟨e, he⟩ := h.late hrechecks hgood
          (show k < version by omega) hbelow
        rw [hok] at he
        cases he
  subst hversion
  exact ⟨rfl, h.migrate hgood hplaced.1 hok⟩

theorem Sound.advance (h : plan.Sound Good) {store : σ} {opener opener' : Opener ε}
    {effect : Option (Nat × σ)} (hgood : Good version store)
    (hbelow : version ≤ plan.target) (hplaced : plan.Placed version opener)
    (ha : plan.advance store opener = (opener', effect)) :
    (effect = none ∧ plan.Placed version opener') ∨
      ∃ store', effect = some (version, store') ∧ version < plan.target ∧
        plan.migrate version store = .ok store' ∧ Good (version + 1) store' ∧
          plan.Placed (version + 1) opener' := by
  cases opener with
  | starting =>
      simp only [Plan.advance, h.version hgood] at ha
      split at ha
      · cases ha
        exact .inl ⟨rfl, trivial⟩
      split at ha
      · rename_i hshort
        cases ha
        simp only [Bool.and_eq_true, decide_eq_true_eq] at hshort
        exact .inl ⟨rfl, hshort.2.ge⟩
      · cases ha
        exact .inl ⟨rfl, h.positive, Nat.zero_le _, Nat.le_refl _⟩
  | reading k =>
      cases ha
      exact .inl ⟨rfl, hplaced.1, by rw [h.version hgood]; exact hplaced.2,
        (h.version hgood).le⟩
  | deciding k seen =>
      simp only [Plan.advance] at ha
      split at ha
      · rename_i hseen
        split at ha
        · rename_i hcheck
          cases ha
          simp only [Bool.and_eq_true, decide_eq_true_eq, h.version hgood] at hcheck
          obtain ⟨-, hle, hle'⟩ := hplaced
          refine .inl ⟨rfl, placed_after (by simp) hle' ?_⟩
          omega
        rename_i hcheck
        cases hmigrate : plan.migrate k store with
        | error e =>
            simp only [hmigrate] at ha
            cases ha
            exact .inl ⟨rfl, trivial⟩
        | ok store' =>
            simp only [hmigrate] at ha
            cases ha
            obtain ⟨rfl, hgood'⟩ :=
              h.migrated hgood hbelow hplaced hseen hcheck hmigrate
            refine .inr ⟨store', rfl, hplaced.1, hmigrate, hgood', ?_⟩
            exact placed_after (by simp) (by omega) (Nat.lt_succ_self _)
      · rename_i hseen
        cases ha
        obtain ⟨-, hle, hle'⟩ := hplaced
        exact .inl ⟨rfl, placed_after (fun _ => by omega) hle' (by omega)⟩
  | checking =>
      simp only [Plan.advance] at ha
      split at ha
      · cases ha
        exact .inl ⟨rfl, trivial⟩
      · cases ha
        exact .inl ⟨rfl, hplaced⟩
  | opened =>
      cases ha
      exact .inl ⟨rfl, hplaced⟩
  | failed e =>
      cases ha
      exact .inl ⟨rfl, trivial⟩
  | gone =>
      cases ha
      exact .inl ⟨rfl, trivial⟩

theorem Safe.replaced {i : Nat} {opener : Opener ε}
    (h : plan.Safe Good first version w) (hplaced : plan.Placed version opener) :
    plan.Safe Good first version { w with openers := w.openers.set i opener } where
  good := h.good
  above := h.above
  below := h.below
  applied := h.applied
  placed := by
    intro other hother
    rcases List.mem_or_eq_of_mem_set hother with hold | rfl
    · exact h.placed other hold
    · exact hplaced

theorem Safe.step (hplan : plan.Sound Good) {a : Move ω}
    (h : plan.Safe Good first version w) (hstep : plan.step w a = some w') :
    ∃ version', version ≤ version' ∧ plan.Safe Good first version' w' := by
  cases a with
  | join =>
      cases hstep
      refine ⟨version, Nat.le_refl _, h.good, h.above, h.below, h.applied, ?_⟩
      intro opener hopener
      rcases List.mem_append.mp hopener with hold | hnew
      · exact h.placed opener hold
      · cases List.mem_singleton.mp hnew
        trivial
  | die i =>
      cases hstep
      exact ⟨version, Nat.le_refl _, h.replaced trivial⟩
  | write write =>
      simp only [Plan.step] at hstep
      split at hstep
      · cases hstep
      · rename_i store hwrite
        cases hstep
        exact ⟨version, Nat.le_refl _, hplan.write h.good hwrite, h.above,
          h.below, h.applied, h.placed⟩
  | go i =>
      simp only [Plan.step] at hstep
      cases hopener : w.openers[i]? with
      | none => simp [hopener] at hstep
      | some opener =>
          have hplaced := h.placed opener (List.mem_of_getElem? hopener)
          rcases hadv : plan.advance w.store opener with ⟨opener', effect⟩
          simp only [hopener, hadv] at hstep
          rcases hplan.advance h.good h.below hplaced hadv with
            ⟨rfl, hplaced'⟩ | ⟨store', rfl, hlt, -, hgood', hplaced'⟩
          · cases hstep
            exact ⟨version, Nat.le_refl _, h.replaced hplaced'⟩
          · cases hstep
            refine ⟨version + 1, Nat.le_succ _, hgood',
              h.above.trans (Nat.le_succ _), hlt, ?_, ?_⟩
            · have habove := h.above
              have hlast : first + 1 * (version - first) = version := by omega
              rw [Nat.sub_add_comm habove, List.range'_concat, hlast]
              exact congrArg (· ++ [version]) h.applied
            · intro other hother
              rcases List.mem_or_eq_of_mem_set hother with hold | rfl
              · exact (h.placed other hold).mono (Nat.le_succ _)
              · exact hplaced'

variable {initial : σ → Prop}

/-- In every run the store is good, and was migrated once for each version. -/
theorem Sound.reachable (hplan : plan.Sound Good)
    (hinitial : ∀ store, initial store → Good first store)
    (hfirst : first ≤ plan.target)
    (hw : (plan.system initial).Reachable w) :
    ∃ version, plan.Safe Good first version w := by
  refine System.Reachable.invariant
    (I := fun w => ∃ version, plan.Safe Good first version w) ?_ ?_ hw
  · rintro s ⟨hstore, hopeners, happlied⟩
    refine ⟨first, hinitial _ hstore, Nat.le_refl _, hfirst, ?_, ?_⟩
    · simp [happlied]
    · simp [hopeners]
  · rintro s a t ⟨version, h⟩ hstep
    obtain ⟨version', -, h'⟩ := h.step hplan hstep
    exact ⟨version', h'⟩

theorem reachable_of_run {store : σ} {moves : List (Move ω)}
    (hstore : initial store)
    (hrun : (plan.system initial).run { store } moves = some w) :
    (plan.system initial).Reachable w :=
  System.Reachable.run (.initial ⟨hstore, rfl, rfl⟩) hrun

/-! ## Who fails, and who gets through -/

theorem Sound.advance_failed (h : plan.Sound Good) {store : σ}
    {opener : Opener ε} {e : ε} {effect : Option (Nat × σ)}
    (hgood : Good version store) (hbelow : version ≤ plan.target)
    (hplaced : plan.Placed version opener) (hne : opener ≠ .failed e)
    (ha : plan.advance store opener = (.failed e, effect)) :
    effect = none ∧ ∃ k ≤ version, k < plan.target ∧
      plan.migrate k store = .error e ∧ (plan.rechecks = true → version = k) := by
  have hafter : ∀ {k seen reread},
      plan.after k seen reread ≠ (.failed e : Opener ε) := by
    intro k seen reread
    unfold after
    split
    · simp
    split
    · simp
    · simp
  cases opener with
  | starting =>
      simp only [Plan.advance, h.version hgood] at ha
      split at ha
      · omega
      split at ha
      · cases ha
      · cases ha
  | reading k => cases ha
  | deciding k seen =>
      simp only [Plan.advance] at ha
      split at ha
      · rename_i hseen
        split at ha
        · exact absurd (Prod.mk.inj ha).1 hafter
        rename_i hcheck
        cases hmigrate : plan.migrate k store with
        | error e' =>
            simp only [hmigrate] at ha
            cases ha
            refine ⟨rfl, k, by rw [← hseen]; exact hplaced.2.2, hplaced.1,
              hmigrate, fun hrechecks => ?_⟩
            simp only [hrechecks, Bool.true_and, decide_eq_true_eq,
              not_not, h.version hgood] at hcheck
            exact hcheck
        | ok store' =>
            simp only [hmigrate] at ha
            exact absurd (Prod.mk.inj ha).1 hafter
      · exact absurd (Prod.mk.inj ha).1 hafter
  | checking =>
      have htarget : version = plan.target := Nat.le_antisymm hbelow hplaced
      simp only [Plan.advance, h.health (htarget ▸ hgood)] at ha
      cases ha
  | opened => cases ha
  | failed e' =>
      cases ha
      exact absurd rfl hne
  | gone => cases ha

/--
A process fails only at a migration that the store refuses.  One that reads the
version once more fails at the migration the store is waiting for; one that does
not may fail at a migration another process ran before it.
-/
theorem Safe.fails (hplan : plan.Sound Good) {a : Move ω} {i : Nat} {e : ε}
    (h : plan.Safe Good first version w) (hstep : plan.step w a = some w')
    (hbefore : w.openers[i]? ≠ some (.failed e))
    (hafter : w'.openers[i]? = some (.failed e)) :
    w'.store = w.store ∧ ∃ k ≤ version, k < plan.target ∧
      plan.migrate k w.store = .error e ∧ (plan.rechecks = true → version = k) := by
  cases a with
  | join =>
      cases hstep
      rw [List.getElem?_append] at hafter
      split at hafter
      · exact absurd hafter hbefore
      · have hmem := List.mem_of_getElem? hafter
        simp at hmem
  | die j =>
      cases hstep
      rw [List.getElem?_set] at hafter
      split at hafter
      · split at hafter
        · cases hafter
        · cases hafter
      · exact absurd hafter hbefore
  | write write =>
      simp only [Plan.step] at hstep
      split at hstep
      · cases hstep
      · cases hstep
        exact absurd hafter hbefore
  | go j =>
      simp only [Plan.step] at hstep
      cases hopener : w.openers[j]? with
      | none => simp [hopener] at hstep
      | some opener =>
          have hplaced := h.placed opener (List.mem_of_getElem? hopener)
          rcases hadv : plan.advance w.store opener with ⟨opener', effect⟩
          simp only [hopener, hadv] at hstep
          have hopeners : w'.openers = w.openers.set j opener' ∧
              (effect = none → w'.store = w.store) := by
            cases effect with
            | none =>
                cases hstep
                exact ⟨rfl, fun _ => rfl⟩
            | some migrated =>
                cases hstep
                exact ⟨rfl, fun hnone => by cases hnone⟩
          rw [hopeners.1, List.getElem?_set] at hafter
          split at hafter
          · rename_i hij
            subst hij
            split at hafter
            · cases hafter
              obtain ⟨hnone, hk⟩ := hplan.advance_failed h.good h.below hplaced
                (fun heq => hbefore (heq ▸ hopener)) hadv
              exact ⟨hopeners.2 hnone, hk⟩
            · cases hafter
          · exact absurd hafter hbefore

/-- The steps a process still has before it at most. -/
def remaining : Opener ε → Nat
  | .starting => 2 * plan.target + 1
  | .reading k => 2 * (plan.target - k) + 1
  | .deciding k _ => 2 * (plan.target - k)
  | .checking => 1
  | .opened | .failed _ | .gone => 0

theorem remaining_after {k seen : Nat} {reread : Bool} (hk : k < plan.target) :
    plan.remaining (plan.after k seen reread : Opener ε) <
      2 * (plan.target - k) := by
  unfold after
  split
  · change 1 < _
    omega
  split
  · change 2 * (plan.target - (k + 1)) + 1 < _
    omega
  · change 2 * (plan.target - (k + 1)) < _
    omega

theorem remaining_advance (h : plan.Sound Good) {store : σ}
    {opener opener' : Opener ε} {effect : Option (Nat × σ)}
    (hplaced : plan.Placed version opener) (hbusy : 0 < plan.remaining opener)
    (ha : plan.advance store opener = (opener', effect)) :
    plan.remaining opener' < plan.remaining opener := by
  have htarget := h.positive
  cases opener with
  | starting =>
      simp only [Plan.advance] at ha
      split at ha
      · cases ha
        exact hbusy
      split at ha
      · cases ha
        change 1 < 2 * plan.target + 1
        omega
      · cases ha
        change 2 * (plan.target - 0) < 2 * plan.target + 1
        omega
  | reading k =>
      cases ha
      exact Nat.lt_succ_self _
  | deciding k seen =>
      have hk := hplaced.1
      simp only [Plan.advance] at ha
      split at ha
      · split at ha
        · cases ha
          exact remaining_after hk
        cases hmigrate : plan.migrate k store with
        | error e =>
            simp only [hmigrate] at ha
            cases ha
            exact hbusy
        | ok store' =>
            simp only [hmigrate] at ha
            cases ha
            exact remaining_after hk
      · cases ha
        exact remaining_after hk
  | checking =>
      simp only [Plan.advance] at ha
      split at ha
      · cases ha
        exact hbusy
      · cases ha
        exact hbusy
  | opened => exact absurd hbusy (Nat.lt_irrefl 0)
  | failed e => exact absurd hbusy (Nat.lt_irrefl 0)
  | gone => exact absurd hbusy (Nat.lt_irrefl 0)

theorem after_lives {k seen : Nat} {reread : Bool} :
    (plan.after k seen reread : Opener ε).lives = true := by
  unfold after
  split
  · rfl
  split
  · rfl
  · rfl

theorem advance_lives {store : σ} {opener opener' : Opener ε}
    {effect : Option (Nat × σ)} (hlives : opener.lives = true)
    (ha : plan.advance store opener = (opener', effect)) :
    opener'.lives = true ∨ ∃ e, opener' = .failed e := by
  cases opener with
  | starting =>
      simp only [Plan.advance] at ha
      split at ha
      · cases ha
        exact .inr ⟨_, rfl⟩
      split at ha
      · cases ha
        exact .inl rfl
      · cases ha
        exact .inl rfl
  | reading k =>
      cases ha
      exact .inl rfl
  | deciding k seen =>
      simp only [Plan.advance] at ha
      split at ha
      · split at ha
        · cases ha
          exact .inl after_lives
        cases hmigrate : plan.migrate k store with
        | error e =>
            simp only [hmigrate] at ha
            cases ha
            exact .inr ⟨e, rfl⟩
        | ok store' =>
            simp only [hmigrate] at ha
            cases ha
            exact .inl after_lives
      · cases ha
        exact .inl after_lives
  | checking =>
      simp only [Plan.advance] at ha
      split at ha
      · cases ha
        exact .inr ⟨_, rfl⟩
      · cases ha
        exact .inl rfl
  | opened =>
      cases ha
      exact .inl rfl
  | failed e => cases hlives
  | gone => cases hlives

theorem advance_done {store : σ} {opener opener' : Opener ε}
    {effect : Option (Nat × σ)} (hplaced : plan.Placed version opener)
    (hdone : ¬ 0 < plan.remaining opener)
    (ha : plan.advance store opener = (opener', effect)) :
    plan.remaining opener' = 0 := by
  cases opener with
  | opened =>
      cases ha
      rfl
  | failed e =>
      cases ha
      rfl
  | gone =>
      cases ha
      rfl
  | starting => exact absurd (Nat.succ_pos _) hdone
  | reading k => exact absurd (Nat.succ_pos _) hdone
  | checking => exact absurd (Nat.succ_pos _) hdone
  | deciding k seen =>
      have hk := hplaced.1
      change ¬ 0 < 2 * (plan.target - k) at hdone
      omega

theorem Safe.kept (hplan : plan.Sound Good) {a : Move ω} {i : Nat}
    {opener : Opener ε} (h : plan.Safe Good first version w)
    (hstep : plan.step w a = some w') (hopener : w.openers[i]? = some opener)
    (hdie : a ≠ .die i) :
    ∃ opener', w'.openers[i]? = some opener' ∧
      plan.remaining opener' ≤ plan.remaining opener - [a].countP (Move.goes i) ∧
      (opener.lives = true → opener'.lives = true ∨ ∃ e, opener' = .failed e) := by
  have hi : i < w.openers.length := (List.getElem?_eq_some_iff.mp hopener).1
  cases a with
  | join =>
      cases hstep
      refine ⟨opener, ?_, by simp [Move.goes], .inl⟩
      rw [List.getElem?_append_left hi]
      exact hopener
  | die j =>
      cases hstep
      refine ⟨opener, ?_, by simp [Move.goes], .inl⟩
      rw [List.getElem?_set_ne (fun heq => hdie (congrArg Move.die heq))]
      exact hopener
  | write write =>
      simp only [Plan.step] at hstep
      split at hstep
      · cases hstep
      · cases hstep
        exact ⟨opener, hopener, by simp [Move.goes], .inl⟩
  | go j =>
      simp only [Plan.step] at hstep
      cases hother : w.openers[j]? with
      | none => simp [hother] at hstep
      | some other =>
          rcases hadv : plan.advance w.store other with ⟨other', effect⟩
          have hopeners : w'.openers = w.openers.set j other' := by
            cases effect with
            | none =>
                simp only [hother, hadv] at hstep
                cases hstep
                rfl
            | some migrated =>
                simp only [hother, hadv] at hstep
                cases hstep
                rfl
          rw [hopeners]
          by_cases hij : j = i
          · subst hij
            rw [hopener] at hother
            cases hother
            refine ⟨other', by simp [hi], ?_, fun hl => advance_lives hl hadv⟩
            simp only [List.countP_cons, List.countP_nil, Move.goes,
              decide_true, if_true]
            have hplaced := h.placed _ (List.mem_of_getElem? hopener)
            by_cases hbusy : 0 < plan.remaining opener
            · have hless := remaining_advance hplan hplaced hbusy hadv
              omega
            · have hdone := advance_done hplaced hbusy hadv
              omega
          · refine ⟨opener, ?_, by simp [Move.goes, Ne.symm hij], .inl⟩
            rw [List.getElem?_set_ne hij]
            exact hopener

/--
Where no migration can fail, a process that takes its steps opens the store,
whatever the others do.
-/
theorem Safe.opens (hplan : plan.Sound Good) (hrechecks : plan.rechecks = true)
    (hruns : ∀ {k store}, Good k store → k < plan.target →
      ∃ store', plan.migrate k store = .ok store')
    {moves : List (Move ω)} {i : Nat} {opener : Opener ε}
    (h : plan.Safe Good first version w) (hopener : w.openers[i]? = some opener)
    (hlives : opener.lives = true) (hdie : .die i ∉ moves)
    (hmany : plan.remaining opener ≤ moves.countP (Move.goes i))
    (hrun : (plan.system initial).run w moves = some w') :
    w'.openers[i]? = some .opened := by
  induction moves generalizing w version opener with
  | nil =>
      cases hrun
      rw [hopener]
      have hplaced := h.placed _ (List.mem_of_getElem? hopener)
      cases opener with
      | opened => rfl
      | failed e => cases hlives
      | gone => cases hlives
      | starting => cases hmany
      | reading k => cases hmany
      | checking => cases hmany
      | deciding k seen =>
          have hk := hplaced.1
          change 2 * (plan.target - k) ≤ 0 at hmany
          omega
  | cons a rest ih =>
      obtain ⟨m, hm, hrest⟩ := System.run_cons _ hrun
      obtain ⟨version', -, hsafe⟩ := h.step hplan hm
      obtain ⟨opener', hopener', hless, hend⟩ := h.kept hplan hm hopener
        fun heq => hdie (heq ▸ List.mem_cons_self)
      have hlives' : opener'.lives = true := by
        rcases hend hlives with hl | ⟨e, rfl⟩
        · exact hl
        · have hbefore : w.openers[i]? ≠ some (.failed e) := by
            rw [hopener]
            rintro ⟨⟩
            cases hlives
          obtain ⟨-, k, -, hk, herror, hversion⟩ :=
            h.fails hplan hm hbefore hopener'
          obtain ⟨store', hok⟩ := hruns (hversion hrechecks ▸ h.good) hk
          rw [herror] at hok
          cases hok
      apply ih hsafe hopener' hlives'
        (fun hin => hdie (List.mem_cons_of_mem _ hin)) _ hrest
      rw [← List.singleton_append, List.countP_append] at hmany
      omega

end Plan

end OrcState.Foundation.Migrations
