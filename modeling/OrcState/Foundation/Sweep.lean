import Mathlib.Data.List.Basic
import Mathlib.Order.Basic

/-!
# Sweeping a growing sorted log

A consumer works through the keys of a log in increasing order, a bounded batch
at a time.  `Sweep keys done pending` says that the batch in hand leaves no gap:
whatever lies behind one of its members is done or in the batch itself.
-/

namespace OrcState.Foundation

structure Sweep (keys : List Nat) (done : Nat → Prop) (pending : List Nat) :
    Prop where
  sorted : pending.Pairwise (· < ·)
  logged : ∀ b ∈ pending, b ∈ keys
  behind : ∀ k ∈ keys, ∀ b ∈ pending, k < b → done k ∨ k ∈ pending

namespace Sweep

variable {keys pending rest : List Nat} {done done' : Nat → Prop}

theorem mem_take_of_lt {l : List Nat} (hl : l.Pairwise (· < ·)) {n x b : Nat}
    (hx : x ∈ l) (hb : b ∈ l.take n) (h : x < b) : x ∈ l.take n := by
  have hsplit : l.take n ++ l.drop n = l := List.take_append_drop n l
  rw [← hsplit, List.mem_append] at hx
  rcases hx with hx | hx
  · exact hx
  · rw [← hsplit, List.pairwise_append] at hl
    have := hl.2.2 b hb x hx
    omega

theorem read {cursor : Nat} (hkeys : keys.Pairwise (· < ·))
    (hdone : ∀ k ∈ keys, k ≤ cursor → done k) (limit : Nat) :
    Sweep keys done ((keys.filter fun k => cursor < k).take limit) := by
  have hfilter : (keys.filter fun k => decide (cursor < k)).Pairwise
      (· < ·) := hkeys.sublist List.filter_sublist
  constructor
  · exact hfilter.sublist (List.take_sublist limit _)
  · intro b hb
    exact (List.mem_filter.mp (List.mem_of_mem_take hb)).1
  · intro k hk b hb hlt
    by_cases hc : k ≤ cursor
    · exact .inl (hdone k hk hc)
    · refine .inr (mem_take_of_lt hfilter ?_ hb hlt)
      exact List.mem_filter.mpr ⟨hk, by simpa using hc⟩

theorem head {b : Nat} (h : Sweep keys done (b :: rest)) {k : Nat}
    (hk : k ∈ keys) (hlt : k < b) : done k := by
  rcases h.behind k hk b List.mem_cons_self hlt with hd | hmem
  · exact hd
  · rcases List.mem_cons.mp hmem with rfl | hmem
    · omega
    · have := (List.pairwise_cons.mp h.sorted).1 k hmem
      omega

theorem pop {b : Nat} (h : Sweep keys done (b :: rest)) (hb : done b) :
    Sweep keys done rest := by
  refine ⟨(List.pairwise_cons.mp h.sorted).2,
    fun c hc => h.logged c (List.mem_cons_of_mem _ hc), ?_⟩
  intro k hk c hc hlt
  rcases h.behind k hk c (List.mem_cons_of_mem _ hc) hlt with hd | hmem
  · exact .inl hd
  · rcases List.mem_cons.mp hmem with rfl | hmem
    · exact .inl hb
    · exact .inr hmem

theorem mono (h : Sweep keys done pending)
    (hdone : ∀ k ∈ keys, done k → done' k) : Sweep keys done' pending :=
  ⟨h.sorted, h.logged, fun k hk b hb hlt =>
    (h.behind k hk b hb hlt).imp_left (hdone k hk)⟩

theorem grow (h : Sweep keys done pending) {n : Nat}
    (hn : ∀ k ∈ keys, k < n) : Sweep (keys ++ [n]) done pending := by
  refine ⟨h.sorted, fun b hb => List.mem_append_left _ (h.logged b hb), ?_⟩
  intro k hk b hb hlt
  rcases List.mem_append.mp hk with hk | hk
  · exact h.behind k hk b hb hlt
  · have := hn b (h.logged b hb)
    rw [List.mem_singleton] at hk
    omega

end Sweep

/-! ## Slices of a sorted log -/

section Slices

variable {α : Type} {key : α → Nat} {log : List α}

theorem sorted_split (hlog : (log.map key).Pairwise (· < ·)) (cursor : Nat) :
    log = log.filter (fun x => key x ≤ cursor) ++
      log.filter fun x => cursor < key x := by
  induction log with
  | nil => rfl
  | cons x rest ih =>
      rw [List.map_cons, List.pairwise_cons] at hlog
      by_cases hx : key x ≤ cursor
      · have hpast : ¬ cursor < key x := by omega
        simp only [List.filter_cons, hx, hpast, decide_true, decide_false,
          if_true, Bool.false_eq_true, if_false, List.cons_append]
        exact congrArg (x :: ·) (ih hlog.2)
      · have hpast : ∀ y ∈ x :: rest, cursor < key y := by
          intro y hy
          rcases List.mem_cons.mp hy with rfl | hy
          · omega
          · have := hlog.1 (key y) (List.mem_map_of_mem hy)
            omega
        have hnone : (x :: rest).filter (fun y => key y ≤ cursor) = [] := by
          rw [List.filter_eq_nil_iff]
          intro y hy
          have := hpast y hy
          simpa using this
        have hall : (x :: rest).filter (fun y => cursor < key y) =
            x :: rest := by
          rw [List.filter_eq_self]
          intro y hy
          exact decide_eq_true (hpast y hy)
        rw [hnone, hall, List.nil_append]

/--
The first entry behind a cursor: the log up to it is the log up to the cursor
and that entry, and what lies behind it is the rest.
-/
theorem sorted_advance (hlog : (log.map key).Pairwise (· < ·)) {cursor : Nat}
    {x : α} {rest : List α}
    (h : log.filter (fun y => cursor < key y) = x :: rest) :
    cursor < key x ∧
      log.filter (fun y => key y ≤ key x) =
        log.filter (fun y => key y ≤ cursor) ++ [x] ∧
      log.filter (fun y => key x < key y) = rest := by
  have hmem : ∀ y ∈ x :: rest, cursor < key y := by
    intro y hy
    rw [← h, List.mem_filter] at hy
    exact of_decide_eq_true hy.2
  have hsorted : ((x :: rest).map key).Pairwise (· < ·) := by
    rw [← h]
    exact hlog.sublist (List.filter_sublist.map key)
  rw [List.map_cons, List.pairwise_cons] at hsorted
  have hlt : cursor < key x := hmem x List.mem_cons_self
  have hafter : ∀ y ∈ rest, key x < key y := fun y hy =>
    hsorted.1 (key y) (List.mem_map_of_mem hy)
  have hsplit := sorted_split hlog cursor
  rw [h] at hsplit
  have hbefore : ∀ y ∈ log.filter (fun y => key y ≤ cursor), key y ≤ cursor :=
    fun y hy => of_decide_eq_true (List.mem_filter.mp hy).2
  generalize log.filter (fun y => key y ≤ cursor) = before at hsplit hbefore
  subst hsplit
  refine ⟨hlt, ?_, ?_⟩
  · have hkeep : before.filter (fun y => key y ≤ key x) = before := by
      rw [List.filter_eq_self]
      intro y hy
      have := hbefore y hy
      exact decide_eq_true (by omega)
    have hdrop : rest.filter (fun y => key y ≤ key x) = [] := by
      rw [List.filter_eq_nil_iff]
      intro y hy
      have := hafter y hy
      simpa using this
    simp [List.filter_append, hkeep, hdrop]
  · have hdrop : before.filter (fun y => key x < key y) = [] := by
      rw [List.filter_eq_nil_iff]
      intro y hy
      have := hbefore y hy
      simp only [decide_eq_true_eq]
      omega
    have hkeep : rest.filter (fun y => key x < key y) = rest := by
      rw [List.filter_eq_self]
      intro y hy
      exact decide_eq_true (hafter y hy)
    simp [List.filter_append, hdrop, hkeep]

end Slices

end OrcState.Foundation
