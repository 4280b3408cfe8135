import OrcState.Foundation.Transaction

/-!
# Effects that survive a throw

A program over several stores, each written by its own transaction.  A throw
ends the program but takes back nothing that an earlier transaction committed,
so what a refused call leaves behind is part of its meaning.
-/

namespace OrcState.Foundation

def Effect (σ ε α : Type) := σ → Except ε α × σ

namespace Effect

variable {σ τ ε α β : Type}

instance : Monad (Effect σ ε) where
  pure a := fun s => (.ok a, s)
  bind x f := fun s =>
    match x s with
    | (.ok a, t) => f a t
    | (.error e, t) => (.error e, t)

/-! ## Primitives -/

def read : Effect σ ε σ := fun s => (.ok s, s)

def throwIf (c : Prop) [Decidable c] (e : ε) : Effect σ ε Unit :=
  fun s => (if c then .error e else .ok (), s)

def orThrow (x : Option α) (e : ε) : Effect σ ε α :=
  fun s =>
    match x with
    | some a => (.ok a, s)
    | none => (.error e, s)

def ofExcept (x : Except ε α) : Effect σ ε α := fun s => (x, s)

def atomically (get : σ → τ) (set : σ → τ → σ) (x : Txn τ ε α) :
    Effect σ ε α :=
  fun s =>
    match x (get s) with
    | .ok (a, t) => (.ok a, set s t)
    | .error e => (.error e, s)

/-- `try { x } catch (e) { handler(e) }`, the handler seeing what `x` left. -/
def catching (x : Effect σ ε α) (handler : ε → Effect σ ε α) :
    Effect σ ε α :=
  fun s =>
    match x s with
    | (.ok a, t) => (.ok a, t)
    | (.error e, t) => handler e t

/-! ## Evaluation -/

theorem bind_apply (x : Effect σ ε α) (f : α → Effect σ ε β) (s : σ) :
    (x >>= f) s =
      match x s with
      | (.ok a, t) => f a t
      | (.error e, t) => (.error e, t) := rfl

theorem bind_of_ok {x : Effect σ ε α} {f : α → Effect σ ε β} {s t : σ} {a : α}
    (h : x s = (.ok a, t)) : (x >>= f) s = f a t := by
  rw [bind_apply, h]

theorem catching_of_ok {x : Effect σ ε α} {f : ε → Effect σ ε α} {s t : σ} {a : α}
    (h : x s = (.ok a, t)) : catching x f s = (.ok a, t) := by
  unfold catching
  rw [h]

@[simp] theorem pure_apply (a : α) (s : σ) :
    (pure a : Effect σ ε α) s = (.ok a, s) := rfl

@[simp] theorem read_bind (f : σ → Effect σ ε β) (s : σ) :
    (read >>= f) s = f s s := rfl

@[simp] theorem throwIf_bind (c : Prop) [Decidable c] (e : ε)
    (f : Unit → Effect σ ε β) (s : σ) :
    (throwIf c e >>= f) s = if c then (.error e, s) else f () s := by
  rw [bind_apply, throwIf]
  split
  · rename_i h
    split at h <;> simp_all
  · rename_i h
    split at h <;> simp_all

@[simp] theorem orThrow_bind (x : Option α) (e : ε) (f : α → Effect σ ε β)
    (s : σ) :
    (orThrow x e >>= f) s =
      match x with
      | some a => f a s
      | none => (.error e, s) := by
  cases x <;> rfl

@[simp] theorem ofExcept_bind (x : Except ε α) (f : α → Effect σ ε β) (s : σ) :
    (ofExcept x >>= f) s =
      match x with
      | .ok a => f a s
      | .error e => (.error e, s) := by
  cases x <;> rfl

/-! ## Inversion -/

theorem bind_cases {x : Effect σ ε α} {f : α → Effect σ ε β} {s t : σ}
    {r : Except ε β} (h : (x >>= f) s = (r, t)) :
    (∃ e, x s = (.error e, t) ∧ r = .error e) ∨
      ∃ a m, x s = (.ok a, m) ∧ f a m = (r, t) := by
  rw [bind_apply] at h
  split at h
  · rename_i a m hx
    exact .inr ⟨a, m, hx, h⟩
  · rename_i e m hx
    cases h
    exact .inl ⟨e, hx, rfl⟩

/-- A refusal before the first write. -/
def Refused (s : σ) (r : Except ε α) (t : σ) : Prop :=
  (∃ e, r = .error e) ∧ t = s

theorem ofExcept_cases {x : Except ε α} {f : α → Effect σ ε β} {s t : σ}
    {r : Except ε β} (h : (ofExcept x >>= f) s = (r, t)) :
    Refused s r t ∨ ∃ a, x = .ok a ∧ f a s = (r, t) := by
  rw [ofExcept_bind] at h
  cases x with
  | error e =>
      cases h
      exact .inl ⟨⟨e, rfl⟩, rfl⟩
  | ok a => exact .inr ⟨a, rfl, h⟩

theorem throwIf_cases {c : Prop} [Decidable c] {e : ε}
    {f : Unit → Effect σ ε β} {s t : σ} {r : Except ε β}
    (h : (throwIf c e >>= f) s = (r, t)) :
    Refused s r t ∨ ¬ c ∧ f () s = (r, t) := by
  rw [throwIf_bind] at h
  split at h
  · cases h
    exact .inl ⟨⟨e, rfl⟩, rfl⟩
  · rename_i hc
    exact .inr ⟨hc, h⟩

theorem orThrow_cases {x : Option α} {e : ε} {f : α → Effect σ ε β} {s t : σ}
    {r : Except ε β} (h : (orThrow x e >>= f) s = (r, t)) :
    Refused s r t ∨ ∃ a, x = some a ∧ f a s = (r, t) := by
  rw [orThrow_bind] at h
  cases x with
  | none =>
      cases h
      exact .inl ⟨⟨e, rfl⟩, rfl⟩
  | some a => exact .inr ⟨a, rfl, h⟩

theorem result_cases {x : Effect σ ε α} {f : α → β} {s t : σ}
    {r : Except ε β} (h : (x >>= fun a => pure (f a)) s = (r, t)) :
    ∃ r', x s = (r', t) ∧ ∀ e, r = .error e ↔ r' = .error e := by
  rcases bind_cases h with ⟨e, hx, rfl⟩ | ⟨a, m, hx, hm⟩
  · exact ⟨.error e, hx, fun e' => by simp⟩
  · cases hm
    exact ⟨.ok a, hx, fun e => by simp⟩

/-- What is done with the result does not reach the state. -/
theorem result_snd (x : Effect σ ε α) (f : α → β) (s : σ) :
    ((x >>= fun a => pure (f a)) s).2 = (x s).2 := by
  rw [bind_apply]
  split
  · rename_i a t hx
    rw [hx]
    rfl
  · rename_i e t hx
    rw [hx]

/-! ## Views that a call keeps -/

/-- However the call ends, the view of the state is what it was. -/
def Keeps {γ : Type} (view : σ → γ) (x : Effect σ ε α) : Prop :=
  ∀ s, view (x s).2 = view s

section Keeps

variable {γ : Type} {view : σ → γ}

theorem Keeps.snd {x : Effect σ ε α} (h : Keeps view x) {s t : σ}
    {r : Except ε α} (hx : x s = (r, t)) : view t = view s := by
  have hview := h s
  rwa [hx] at hview

theorem keeps_pure (a : α) : Keeps view (pure a : Effect σ ε α) :=
  fun _ => rfl

theorem keeps_ofExcept (x : Except ε α) : Keeps view (ofExcept x) :=
  fun _ => rfl

theorem keeps_throwIf (c : Prop) [Decidable c] (e : ε) :
    Keeps view (throwIf c e : Effect σ ε Unit) :=
  fun _ => rfl

theorem keeps_orThrow (x : Option α) (e : ε) :
    Keeps view (orThrow x e : Effect σ ε α) := by
  intro s
  cases x <;> rfl

theorem Keeps.bind {x : Effect σ ε α} {f : α → Effect σ ε β}
    (hx : Keeps view x) (hf : ∀ a, Keeps view (f a)) :
    Keeps view (x >>= f) := by
  intro s
  rw [bind_apply]
  cases h : x s with
  | mk r t =>
      have ht : view t = view s := by
        rw [← hx s, h]
      cases r with
      | ok a => exact (hf a t).trans ht
      | error e => exact ht

theorem Keeps.read {f : σ → Effect σ ε α} (hf : ∀ s, Keeps view (f s)) :
    Keeps view (Effect.read >>= f) :=
  fun s => hf s s

theorem Keeps.result {x : Effect σ ε α} {f : α → β} (hx : Keeps view x) :
    Keeps view (x >>= fun a => pure (f a)) :=
  hx.bind fun a => keeps_pure (f a)

theorem Keeps.catching {x : Effect σ ε α} {f : ε → Effect σ ε α}
    (hx : Keeps view x) (hf : ∀ e, Keeps view (f e)) :
    Keeps view (Effect.catching x f) := by
  intro s
  unfold Effect.catching
  cases h : x s with
  | mk r t =>
      have ht : view t = view s := by
        rw [← hx s, h]
      cases r with
      | ok a => exact ht
      | error e => exact (hf e t).trans ht

theorem keeps_atomically {get : σ → τ} {set : σ → τ → σ} {x : Txn τ ε α}
    (h : ∀ s a t, x (get s) = .ok (a, t) → view (set s t) = view s) :
    Keeps view (atomically get set x) := by
  intro s
  unfold atomically
  cases hx : x (get s) with
  | ok p => exact h s p.1 p.2 hx
  | error e => rfl

end Keeps

/-! ## What a call ensures -/

/-- However the call ends, `R` relates the state it began in to what it left. -/
def Ensures (R : σ → σ → Prop) (x : Effect σ ε α) (s : σ) : Prop :=
  R s (x s).2

section Ensures

variable {R : σ → σ → Prop} {s : σ}

theorem Ensures.snd {x : Effect σ ε α} (h : Ensures R x s) {t : σ}
    {r : Except ε α} (hx : x s = (r, t)) : R s t := by
  unfold Ensures at h
  rwa [hx] at h

theorem ensures_of {x : Effect σ ε α}
    (h : ∀ r t, x s = (r, t) → R s t) : Ensures R x s :=
  h _ _ rfl

theorem ensures_pure (hrefl : R s s) (a : α) :
    Ensures R (pure a : Effect σ ε α) s := hrefl

theorem ensures_ofExcept (hrefl : R s s) (x : Except ε α) :
    Ensures R (ofExcept x) s := hrefl

theorem ensures_read {f : σ → Effect σ ε α} (h : Ensures R (f s) s) :
    Ensures R (read >>= f) s := h

theorem ensures_throwIf (hrefl : R s s) {c : Prop} [Decidable c] {e : ε}
    {f : Unit → Effect σ ε α} (h : ¬ c → Ensures R (f ()) s) :
    Ensures R (throwIf c e >>= f) s := by
  unfold Ensures
  rw [throwIf_bind]
  split
  · exact hrefl
  · rename_i hc
    exact h hc

theorem ensures_orThrow (hrefl : R s s) {x : Option β} {e : ε}
    {f : β → Effect σ ε α} (h : ∀ b, x = some b → Ensures R (f b) s) :
    Ensures R (orThrow x e >>= f) s := by
  unfold Ensures
  rw [orThrow_bind]
  cases x with
  | none => exact hrefl
  | some b => exact h b rfl

theorem ensures_check (hrefl : R s s) {x : Except ε β}
    {f : β → Effect σ ε α} (h : ∀ b, x = .ok b → Ensures R (f b) s) :
    Ensures R (ofExcept x >>= f) s := by
  unfold Ensures
  rw [ofExcept_bind]
  cases x with
  | error e => exact hrefl
  | ok b => exact h b rfl

theorem Ensures.bind (htrans : ∀ s t u, R s t → R t u → R s u)
    {x : Effect σ ε β} {f : β → Effect σ ε α} (hx : Ensures R x s)
    (hf : ∀ b t, x s = (.ok b, t) → Ensures R (f b) t) :
    Ensures R (x >>= f) s := by
  unfold Ensures at hx ⊢
  rw [bind_apply]
  cases h : x s with
  | mk r t =>
      rw [h] at hx
      cases r with
      | ok b => exact htrans s t _ hx (hf b t h)
      | error e => exact hx

theorem Ensures.result {x : Effect σ ε β} {f : β → α} (hx : Ensures R x s) :
    Ensures R (x >>= fun b => pure (f b)) s := by
  unfold Ensures at hx ⊢
  rw [bind_apply]
  cases h : x s with
  | mk r t =>
      rw [h] at hx
      cases r <;> exact hx

theorem Ensures.catching (htrans : ∀ s t u, R s t → R t u → R s u)
    {x : Effect σ ε α} {f : ε → Effect σ ε α} (hx : Ensures R x s)
    (hf : ∀ e t, x s = (.error e, t) → Ensures R (f e) t) :
    Ensures R (Effect.catching x f) s := by
  unfold Ensures Effect.catching at *
  cases h : x s with
  | mk r t =>
      rw [h] at hx
      cases r with
      | ok b => exact hx
      | error e => exact htrans s t _ hx (hf e t h)

theorem ensures_atomically {get : σ → τ} {set : σ → τ → σ} {x : Txn τ ε α}
    (hrefl : R s s) (h : ∀ a t, x (get s) = .ok (a, t) → R s (set s t)) :
    Ensures R (atomically get set x) s := by
  unfold Ensures atomically
  cases hx : x (get s) with
  | ok p => exact h p.1 p.2 hx
  | error e => exact hrefl

end Ensures

/-! ## All or nothing -/

/-- When the call throws, the state is exactly what it was before the call. -/
def AllOrNothing (x : Effect σ ε α) (s : σ) : Prop :=
  ∀ e, (x s).1 = .error e → (x s).2 = s

instance [DecidableEq σ] (x : Effect σ ε α) (s : σ) :
    Decidable (AllOrNothing x s) :=
  match h : (x s).1 with
  | .ok _ => isTrue fun e he => by simp [h] at he
  | .error _ =>
      decidable_of_iff ((x s).2 = s)
        ⟨fun hs _ _ => hs, fun hall => hall _ h⟩

theorem allOrNothing_iff {x : Effect σ ε α} {s : σ} :
    AllOrNothing x s ↔ (∃ a, (x s).1 = .ok a) ∨ (x s).2 = s := by
  unfold AllOrNothing
  cases h : (x s).1 with
  | ok a => simp
  | error e => simp

theorem allOrNothing_pure (a : α) (s : σ) :
    AllOrNothing (pure a : Effect σ ε α) s := by
  intro e he
  cases he

theorem allOrNothing_atomically (get : σ → τ) (set : σ → τ → σ)
    (x : Txn τ ε α) (s : σ) : AllOrNothing (atomically get set x) s := by
  intro e he
  unfold atomically at he ⊢
  cases hx : x (get s) with
  | ok p => simp [hx] at he
  | error e' => rfl

theorem allOrNothing_read {f : σ → Effect σ ε α} {s : σ} :
    AllOrNothing (read >>= f) s ↔ AllOrNothing (f s) s := Iff.rfl

theorem allOrNothing_throwIf {c : Prop} [Decidable c] {e : ε}
    {f : Unit → Effect σ ε α} {s : σ} :
    AllOrNothing (throwIf c e >>= f) s ↔ (¬ c → AllOrNothing (f ()) s) := by
  unfold AllOrNothing
  rw [throwIf_bind]
  split <;> simp_all

theorem allOrNothing_orThrow {x : Option β} {e : ε} {f : β → Effect σ ε α}
    {s : σ} :
    AllOrNothing (orThrow x e >>= f) s ↔
      ∀ b, x = some b → AllOrNothing (f b) s := by
  unfold AllOrNothing
  rw [orThrow_bind]
  cases x <;> simp

theorem allOrNothing_ofExcept {x : Except ε β} {f : β → Effect σ ε α}
    {s : σ} :
    AllOrNothing (ofExcept x >>= f) s ↔
      ∀ b, x = .ok b → AllOrNothing (f b) s := by
  unfold AllOrNothing
  rw [ofExcept_bind]
  cases x <;> simp

theorem allOrNothing_result {x : Effect σ ε α} {f : α → β} {s : σ} :
    AllOrNothing (x >>= fun a => pure (f a)) s ↔ AllOrNothing x s := by
  unfold AllOrNothing
  rw [bind_apply]
  cases hx : x s with
  | mk r t =>
      cases r with
      | ok a => simp
      | error e => simp

/-- The three outcomes of two transactions on two stores, one after the other. -/
theorem atomically_seq_cases {get : σ → τ} {set : σ → τ → σ}
    {τ' : Type} {get' : σ → τ'} {set' : σ → τ' → σ} {x : Txn τ ε Unit}
    {y : Txn τ' ε Unit} {s t : σ} {r : Except ε Unit}
    (h : (atomically get set x >>= fun _ => atomically get' set' y) s =
      (r, t)) :
    (∃ e, r = .error e ∧ t = s) ∨
      ∃ m, x (get s) = .ok ((), m) ∧
        ((∃ e, r = .error e ∧ y (get' (set s m)) = .error e ∧ t = set s m) ∨
          ∃ m', y (get' (set s m)) = .ok ((), m') ∧ r = .ok () ∧
            t = set' (set s m) m') := by
  rw [bind_apply] at h
  unfold atomically at h
  cases hx : x (get s) with
  | error e =>
      simp only [hx, Prod.mk.injEq] at h
      exact .inl ⟨e, h.1.symm, h.2.symm⟩
  | ok p =>
      obtain ⟨⟨⟩, m⟩ := p
      refine .inr ⟨m, rfl, ?_⟩
      simp only [hx] at h
      cases hy : y (get' (set s m)) with
      | error e =>
          simp only [hy, Prod.mk.injEq] at h
          exact .inl ⟨e, h.1.symm, rfl, h.2.symm⟩
      | ok q =>
          obtain ⟨⟨⟩, m'⟩ := q
          simp only [hy, Prod.mk.injEq] at h
          exact .inr ⟨m', rfl, h.1.symm, h.2.symm⟩

end Effect

end OrcState.Foundation
