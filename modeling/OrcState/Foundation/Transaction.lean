import Mathlib.Logic.Basic
import Mathlib.Data.Option.Basic

/-!
# Transactions

A transaction runs against a store and either returns a value with the store it
built, or throws and leaves no store behind: the caller keeps the one it had.
Each primitive has an inversion lemma, so a computation that returned is taken
apart one bind at a time and no proof unfolds the monad.
-/

namespace OrcState.Foundation

abbrev Txn (σ ε α : Type) := StateT σ (Except ε) α

namespace Txn

variable {σ ε α β : Type}

def throwIf (c : Prop) [Decidable c] (e : ε) : Txn σ ε Unit :=
  if c then throw e else pure ()

def orThrow (x : Option α) (e : ε) : Txn σ ε α :=
  match x with
  | some a => pure a
  | none => throw e

def attempt (x : Txn σ ε Unit) : Txn σ ε Unit := fun s =>
  match x s with
  | .ok r => .ok r
  | .error _ => .ok ((), s)

/-- The store after the transaction: unchanged when it throws. -/
def commit (x : Txn σ ε α) (s : σ) : σ :=
  match x s with
  | .ok (_, t) => t
  | .error _ => s

/-! ## Running a sequence -/

theorem get_bind (f : σ → Txn σ ε α) (s : σ) :
    (get >>= f : Txn σ ε α) s = f s s := rfl

theorem throwIf_bind {c : Prop} [Decidable c] {e : ε} (h : ¬ c)
    (f : Unit → Txn σ ε α) (s : σ) :
    (throwIf c e >>= f : Txn σ ε α) s = f () s := by
  rw [throwIf, if_neg h]
  rfl

theorem bind_of_ok {x : Txn σ ε α} {s m : σ} {a : α} (h : x s = .ok (a, m))
    (f : α → Txn σ ε β) : (x >>= f) s = f a m := by
  change (x s >>= fun p => f p.1 p.2) = _
  rw [h]
  rfl

/-! ## Inversion of each primitive -/

theorem bind_ok {x : Txn σ ε α} {f : α → Txn σ ε β} {s t : σ} {b : β} :
    (x >>= f) s = .ok (b, t) ↔
      ∃ a m, x s = .ok (a, m) ∧ f a m = .ok (b, t) := by
  change (x s >>= fun p => f p.1 p.2) = _ ↔ _
  cases h : x s with
  | error e => simp [Bind.bind, Except.bind]
  | ok p =>
      obtain ⟨a, m⟩ := p
      constructor
      · intro hf
        exact ⟨a, m, rfl, hf⟩
      · rintro ⟨_, _, hx, hf⟩
        cases hx
        exact hf

theorem bind_error {x : Txn σ ε α} {f : α → Txn σ ε β} {s : σ} {e : ε} :
    (x >>= f) s = .error e ↔
      x s = .error e ∨ ∃ a m, x s = .ok (a, m) ∧ f a m = .error e := by
  change (x s >>= fun p => f p.1 p.2) = _ ↔ _
  cases h : x s with
  | error e' => simp [Bind.bind, Except.bind]
  | ok p =>
      obtain ⟨a, m⟩ := p
      constructor
      · intro hf
        exact .inr ⟨a, m, rfl, hf⟩
      · rintro (hx | ⟨_, _, hx, hf⟩)
        · cases hx
        · cases hx
          exact hf

@[simp] theorem pure_ok {s t : σ} {a b : α} :
    (pure a : Txn σ ε α) s = .ok (b, t) ↔ a = b ∧ s = t := by
  change Except.ok (a, s) = _ ↔ _
  simp

@[simp] theorem throw_ok {s : σ} {e : ε} {r : α × σ} :
    ¬ (throw e : Txn σ ε α) s = .ok r := by
  change ¬ Except.error e = _
  simp

@[simp] theorem get_ok {s t a : σ} :
    (get : Txn σ ε σ) s = .ok (a, t) ↔ s = a ∧ s = t := by
  change Except.ok (s, s) = _ ↔ _
  simp

@[simp] theorem set_ok {s t u : σ} {a : PUnit} :
    (set u : Txn σ ε PUnit) s = .ok (a, t) ↔ u = t := by
  change Except.ok (PUnit.unit, u) = _ ↔ _
  simp

@[simp] theorem modify_ok {s t : σ} {f : σ → σ} {a : PUnit} :
    (modify f : Txn σ ε PUnit) s = .ok (a, t) ↔ f s = t := by
  change Except.ok (PUnit.unit, f s) = _ ↔ _
  simp

theorem map_ok {x : Txn σ ε α} {f : α → β} {s t : σ} {b : β} :
    (f <$> x) s = .ok (b, t) ↔ ∃ a, x s = .ok (a, t) ∧ f a = b := by
  change (x s >>= fun p => .ok (f p.1, p.2)) = _ ↔ _
  cases h : x s with
  | error e => simp [Bind.bind, Except.bind]
  | ok p =>
      obtain ⟨a, m⟩ := p
      constructor
      · intro hf
        cases hf
        exact ⟨a, rfl, rfl⟩
      · rintro ⟨_, hx, rfl⟩
        cases hx
        rfl

@[simp] theorem throwIf_ok {c : Prop} [Decidable c] {e : ε} {s t : σ}
    {a : Unit} :
    (throwIf c e : Txn σ ε Unit) s = .ok (a, t) ↔ ¬ c ∧ s = t := by
  unfold throwIf
  split
  · rename_i h
    simp [h]
  · rename_i h
    simp [h]

@[simp] theorem orThrow_ok {x : Option α} {e : ε} {s t : σ} {a : α} :
    (orThrow x e : Txn σ ε α) s = .ok (a, t) ↔ x = some a ∧ s = t := by
  cases x with
  | none => simp [orThrow]
  | some b => simp [orThrow]

@[simp] theorem liftM_ok {x : Except ε α} {s t : σ} {a : α} :
    (liftM x : Txn σ ε α) s = .ok (a, t) ↔ x = .ok a ∧ s = t := by
  change (x >>= fun a => .ok (a, s)) = _ ↔ _
  cases x with
  | error e => simp [Bind.bind, Except.bind]
  | ok b => simp [Bind.bind, Except.bind]

theorem liftM_error {x : Except ε α} {s : σ} {e : ε} :
    (liftM x : Txn σ ε α) s = .error e ↔ x = .error e := by
  change (x >>= fun a => .ok (a, s)) = _ ↔ _
  cases x with
  | error e' => simp [Bind.bind, Except.bind]
  | ok b => simp [Bind.bind, Except.bind]

theorem discard_ok {x : Txn σ ε α} {s t : σ} {u : PUnit} :
    (Functor.discard x : Txn σ ε PUnit) s = .ok (u, t) ↔
      ∃ a, x s = .ok (a, t) := by
  change (Functor.mapConst PUnit.unit x : Txn σ ε PUnit) s = _ ↔ _
  rw [show (Functor.mapConst PUnit.unit x : Txn σ ε PUnit) =
    (fun _ => PUnit.unit) <$> x from rfl, map_ok]
  simp

@[simp] theorem forM_nil_ok {f : α → Txn σ ε PUnit} {s t : σ} {u : PUnit} :
    ([].forM f : Txn σ ε PUnit) s = .ok (u, t) ↔ s = t :=
  pure_ok.trans (by simp)

theorem forM_cons_ok {f : α → Txn σ ε PUnit} {a : α} {rest : List α} {s t : σ}
    {u : PUnit} :
    ((a :: rest).forM f : Txn σ ε PUnit) s = .ok (u, t) ↔
      ∃ m, f a s = .ok (.unit, m) ∧ rest.forM f m = .ok (u, t) := by
  change ((f a >>= fun _ => rest.forM f) s = .ok (u, t)) ↔ _
  rw [bind_ok]
  constructor
  · rintro ⟨_, m, hf, hrest⟩
    exact ⟨m, hf, hrest⟩
  · rintro ⟨m, hf, hrest⟩
    exact ⟨_, m, hf, hrest⟩

/-- What each part keeps, the loop keeps. -/
theorem forM_keeps {P : σ → Prop} {f : α → Txn σ ε PUnit} {l : List α}
    (hf : ∀ a s t u, f a s = .ok (u, t) → P s → P t) {s t : σ} {u : PUnit}
    (h : l.forM f s = .ok (u, t)) (hs : P s) : P t := by
  induction l generalizing s with
  | nil =>
      cases forM_nil_ok.mp h
      exact hs
  | cons a rest ih =>
      obtain ⟨m, ha, hrest⟩ := forM_cons_ok.mp h
      exact ih hrest (hf a s m _ ha hs)

/-- A walk over distinct keys, when each step writes under its own key only. -/
theorem forM_views {κ V : Type} {view : σ → κ → V} {key : α → κ}
    {R : α → V → V → Prop} {P : σ → Prop} {f : α → Txn σ ε PUnit} {l : List α}
    (hstep : ∀ a ∈ l, ∀ s t u, P s → f a s = .ok (u, t) →
      P t ∧ R a (view s (key a)) (view t (key a)) ∧
        ∀ k, k ≠ key a → view t k = view s k)
    (hnodup : (l.map key).Nodup) {s t : σ} {u : PUnit} (hs : P s)
    (h : l.forM f s = .ok (u, t)) :
    (∀ a ∈ l, R a (view s (key a)) (view t (key a))) ∧
      ∀ k, k ∉ l.map key → view t k = view s k := by
  induction l generalizing s with
  | nil =>
      cases forM_nil_ok.mp h
      exact ⟨fun a ha => absurd ha List.not_mem_nil, fun _ _ => rfl⟩
  | cons a rest ih =>
      obtain ⟨m, ha, hrest⟩ := forM_cons_ok.mp h
      rw [List.map_cons, List.nodup_cons] at hnodup
      obtain ⟨hm, hself, hother⟩ := hstep a List.mem_cons_self s m _ hs ha
      obtain ⟨hall, hout⟩ := ih (fun b hb => hstep b (List.mem_cons_of_mem a hb))
        hnodup.2 hm hrest
      refine ⟨fun b hb => ?_, fun k hk => ?_⟩
      · rcases List.mem_cons.mp hb with rfl | hb
        · rw [hout _ hnodup.1]
          exact hself
        · have hne : key b ≠ key a := fun heq =>
            hnodup.1 (heq ▸ List.mem_map_of_mem hb)
          rw [← hother _ hne]
          exact hall b hb
      · rw [List.map_cons, List.mem_cons, not_or] at hk
        rw [hout k hk.2, hother k hk.1]

theorem attempt_ok {x : Txn σ ε Unit} {s t : σ} {u : Unit}
    (h : attempt x s = .ok (u, t)) : x s = .ok ((), t) ∨ t = s := by
  unfold attempt at h
  split at h
  · rename_i r hx
    exact .inl (hx.trans h)
  · cases h
    exact .inr rfl

theorem commit_of_error {x : Txn σ ε α} {s : σ} {e : ε}
    (h : x s = .error e) : x.commit s = s := by
  simp [commit, h]

theorem commit_of_ok {x : Txn σ ε α} {s t : σ} {a : α}
    (h : x s = .ok (a, t)) : x.commit s = t := by
  simp [commit, h]

theorem forM_append_ok {f : α → Txn σ ε PUnit} {l l' : List α} {s m t : σ}
    (h : l.forM f s = .ok (.unit, m)) (h' : l'.forM f m = .ok (.unit, t)) :
    (l ++ l').forM f s = .ok (.unit, t) := by
  induction l generalizing s with
  | nil =>
      cases forM_nil_ok.mp h
      exact h'
  | cons a rest ih =>
      obtain ⟨n, ha, hrest⟩ := forM_cons_ok.mp h
      exact forM_cons_ok.mpr ⟨n, ha, ih hrest⟩

theorem forM_idle {f : α → Txn σ ε PUnit} {l : List α} {s : σ}
    (h : ∀ a ∈ l, f a s = .ok (.unit, s)) : l.forM f s = .ok (.unit, s) := by
  induction l with
  | nil => rfl
  | cons a rest ih =>
      exact forM_cons_ok.mpr ⟨s, h a List.mem_cons_self,
        ih fun b hb => h b (List.mem_cons_of_mem a hb)⟩

theorem commit_cases (x : Txn σ ε α) (s : σ) :
    (∃ a, x s = .ok (a, x.commit s)) ∨ x.commit s = s := by
  cases h : x s with
  | error e => exact .inr (by simp [commit, h])
  | ok p =>
      obtain ⟨a, t⟩ := p
      exact .inl ⟨a, by simp [commit, h]⟩

end Txn

end OrcState.Foundation
