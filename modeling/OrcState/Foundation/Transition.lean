import Mathlib.Logic.Function.Basic
import Mathlib.Data.List.Basic

/-!
# Labelled partial transition systems

A system is a predicate on initial states and an executable partial step.  The
label carries every choice the program does not make itself: which party moves,
the arguments of a request, a clock reading, a random identifier.  A run is a
list of labels, so a concrete interleaving is a closed term that can be
evaluated, and reachability can be restricted to the runs all of whose steps
meet a condition.
-/

namespace OrcState.Foundation

universe u v w

structure System (σ : Type u) (α : Type v) where
  initial : σ → Prop
  step : σ → α → Option σ

namespace System

variable {σ : Type u} {α : Type v} (M : System σ α)

/-! ## Runs -/

def run (s : σ) : List α → Option σ
  | [] => some s
  | a :: rest =>
      match M.step s a with
      | none => none
      | some t => run t rest

@[simp] theorem run_nil (s : σ) : M.run s [] = some s := rfl

theorem run_cons {s t : σ} {a : α} {rest : List α}
    (h : M.run s (a :: rest) = some t) :
    ∃ m, M.step s a = some m ∧ M.run m rest = some t := by
  cases hstep : M.step s a with
  | none => simp [run, hstep] at h
  | some m =>
      refine ⟨m, rfl, ?_⟩
      simpa only [run, hstep] using h

/-- A fact computed about the end of a run is a fact about its last state. -/
theorem exists_run_of_map {β : Type w} {s : σ} {as : List α} {f : σ → β}
    {b : β} (h : (M.run s as).map f = some b) :
    ∃ t, M.run s as = some t ∧ f t = b :=
  Option.map_eq_some_iff.mp h

/-- States reached by runs in which `ok` holds of every step taken. -/
inductive ReachableUnder (ok : σ → α → Prop) : σ → Prop
  | initial {s : σ} (h : M.initial s) : ReachableUnder ok s
  | step {s t : σ} {a : α} (hs : ReachableUnder ok s) (hok : ok s a)
      (ht : M.step s a = some t) : ReachableUnder ok t

def Reachable (s : σ) : Prop := M.ReachableUnder (fun _ _ => True) s

/-- `ok` holds of every step of the run `as` from `s`, and each is enabled. -/
def Along (ok : σ → α → Prop) (s : σ) : List α → Prop
  | [] => True
  | a :: rest =>
      ok s a ∧
        match M.step s a with
        | none => False
        | some t => Along ok t rest

def decidableAlong (ok : σ → α → Prop) [∀ s a, Decidable (ok s a)] :
    ∀ (s : σ) (as : List α), Decidable (M.Along ok s as)
  | _, [] => inferInstanceAs (Decidable True)
  | s, a :: rest =>
      match hstep : M.step s a with
      | none => isFalse (by simp [Along, hstep])
      | some t =>
          let := decidableAlong ok t rest
          decidable_of_iff (ok s a ∧ M.Along ok t rest)
            (by simp [Along, hstep])

instance (ok : σ → α → Prop) [∀ s a, Decidable (ok s a)] (s : σ)
    (as : List α) : Decidable (M.Along ok s as) :=
  M.decidableAlong ok s as

variable {M}

namespace Reachable

theorem initial {s : σ} (h : M.initial s) : M.Reachable s :=
  ReachableUnder.initial h

theorem step {s t : σ} {a : α} (hs : M.Reachable s)
    (ht : M.step s a = some t) : M.Reachable t :=
  ReachableUnder.step hs trivial ht

theorem run {s t : σ} {as : List α} (hs : M.Reachable s)
    (h : M.run s as = some t) : M.Reachable t := by
  induction as generalizing s with
  | nil =>
      cases h
      exact hs
  | cons a rest ih =>
      obtain ⟨m, hm, hrest⟩ := run_cons M h
      exact ih (hs.step hm) hrest

end Reachable

theorem ReachableUnder.run {ok : σ → α → Prop} {s t : σ} {as : List α}
    (hs : M.ReachableUnder ok s) (hok : M.Along ok s as)
    (h : M.run s as = some t) : M.ReachableUnder ok t := by
  induction as generalizing s with
  | nil =>
      cases h
      exact hs
  | cons a rest ih =>
      obtain ⟨m, hm, hrest⟩ := run_cons M h
      simp only [Along, hm] at hok
      exact ih (hs.step hok.1 hm) hok.2 hrest

theorem along_of_run {ok : σ → α → Prop} {s t : σ} {as : List α}
    (hok : ∀ a ∈ as, ∀ m, ok m a) (h : M.run s as = some t) :
    M.Along ok s as := by
  induction as generalizing s with
  | nil => trivial
  | cons a rest ih =>
      obtain ⟨m, hm, hrest⟩ := run_cons M h
      refine ⟨hok a List.mem_cons_self s, ?_⟩
      rw [hm]
      exact ih (fun b hb => hok b (List.mem_cons_of_mem a hb)) hrest

/-! ## Invariants -/

/--
The induction behind every safety result: what holds initially and is kept by
each step that meets `ok` holds of every state those runs reach.  The step may
use that its source is itself so reachable.
-/
theorem ReachableUnder.invariant {ok : σ → α → Prop} {I : σ → Prop}
    (hinit : ∀ s, M.initial s → I s)
    (hstep : ∀ s a t, M.ReachableUnder ok s → I s → ok s a →
      M.step s a = some t → I t)
    {s : σ} (hs : M.ReachableUnder ok s) : I s := by
  induction hs with
  | initial h => exact hinit _ h
  | step hs hok ht ih => exact hstep _ _ _ hs ih hok ht

theorem Reachable.invariant {I : σ → Prop}
    (hinit : ∀ s, M.initial s → I s)
    (hstep : ∀ s a t, I s → M.step s a = some t → I t)
    {s : σ} (hs : M.Reachable s) : I s :=
  ReachableUnder.invariant hinit (fun s a t _ hI _ ht => hstep s a t hI ht) hs

theorem ReachableUnder.mono {ok ok' : σ → α → Prop}
    (h : ∀ s a, ok s a → ok' s a) {s : σ} (hs : M.ReachableUnder ok s) :
    M.ReachableUnder ok' s := by
  induction hs with
  | initial hi => exact .initial hi
  | step _ hok ht ih => exact .step ih (h _ _ hok) ht

/-- What every step from a state with `I` keeps is kept along a whole run. -/
theorem run_preserves {I P : σ → Prop}
    (hI : ∀ s a t, I s → M.step s a = some t → I t)
    (hP : ∀ s a t, I s → P s → M.step s a = some t → P t)
    {s t : σ} {as : List α} (his : I s) (hps : P s)
    (h : M.run s as = some t) : P t := by
  induction as generalizing s with
  | nil =>
      cases h
      exact hps
  | cons a rest ih =>
      obtain ⟨m, hm, hrest⟩ := run_cons M h
      exact ih (hI _ _ _ his hm) (hP _ _ _ his hps hm) hrest

theorem along_preserves {ok : σ → α → Prop} {I P : σ → Prop}
    (hI : ∀ s a t, I s → M.step s a = some t → I t)
    (hP : ∀ s a t, I s → P s → ok s a → M.step s a = some t → P t)
    {s t : σ} {as : List α} (his : I s) (hps : P s) (hok : M.Along ok s as)
    (h : M.run s as = some t) : P t := by
  induction as generalizing s with
  | nil =>
      cases h
      exact hps
  | cons a rest ih =>
      obtain ⟨m, hm, hrest⟩ := run_cons M h
      simp only [Along, hm] at hok
      exact ih (hI _ _ _ his hm) (hP _ _ _ his hps hok.1 hm) hok.2 hrest

end System

end OrcState.Foundation
