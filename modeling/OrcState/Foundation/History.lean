import Mathlib.Data.List.Chain
import Mathlib.Data.List.Nodup

/-!
# Histories

A log whose rows each lead from a source to a target.  A walk is a log in which
every row leaves the place the row before it reached, so the place a walk ends
is a function of the log, and a walk grows at its end only from that place.
Rows may also carry a key that none repeats, or a number that counts them.
-/

namespace OrcState.Foundation

variable {α β : Type} {source target : α → β}

def Walk (source target : α → β) (start : β) : List α → β → Prop
  | [], finish => start = finish
  | row :: rest, finish =>
      source row = start ∧ Walk source target (target row) rest finish

namespace Walk

theorem snoc {start finish : β} {rows : List α} {row : α}
    (h : Walk source target start rows finish) (hrow : source row = finish) :
    Walk source target start (rows ++ [row]) (target row) := by
  induction rows generalizing start with
  | nil =>
      cases h
      exact ⟨hrow, rfl⟩
  | cons first rest ih => exact ⟨h.1, ih h.2⟩

theorem head {start finish : β} {rows : List α}
    (h : Walk source target start rows finish) {row : α}
    (hrow : rows.head? = some row) : source row = start := by
  cases rows with
  | nil => cases hrow
  | cons first rest =>
      cases hrow
      exact h.1

theorem isChain {start finish : β} {rows : List α}
    (h : Walk source target start rows finish) :
    rows.IsChain fun a b => source b = target a := by
  induction rows generalizing start with
  | nil => exact List.IsChain.nil
  | cons first rest ih =>
      cases rest with
      | nil => exact List.isChain_singleton first
      | cons second rest =>
          exact List.isChain_cons_cons.mpr ⟨h.2.1, ih h.2⟩

theorem finish_eq {start finish : β} {rows : List α}
    (h : Walk source target start rows finish) :
    finish = (rows.getLast?.map target).getD start := by
  induction rows generalizing start with
  | nil => exact h.symm
  | cons first rest ih =>
      rw [ih h.2, List.getLast?_cons]
      cases hlast : rest.getLast? with
      | none => rfl
      | some row => rfl

end Walk

/-! ## Rows with unique keys -/

section Keys

variable {κ : Type} {key : α → Option κ}

theorem nodup_keys_snoc {rows : List α} {row : α}
    (h : (rows.filterMap key).Nodup)
    (hfresh : ∀ k, key row = some k → ∀ r ∈ rows, key r ≠ some k) :
    ((rows ++ [row]).filterMap key).Nodup := by
  rw [List.filterMap_append, List.nodup_append]
  refine ⟨h, ?_, ?_⟩
  · cases hkey : key row with
    | none => simp [List.filterMap, hkey]
    | some k => simp [List.filterMap, hkey]
  · intro k hk k' hk' heq
    obtain ⟨r, hr, hkey⟩ := List.mem_filterMap.mp hk
    obtain ⟨r', hr', hkey'⟩ := List.mem_filterMap.mp hk'
    cases List.mem_singleton.mp hr'
    exact hfresh k' hkey' r hr (heq ▸ hkey)

end Keys

/-! ## Rows numbered in order -/

/-- The rows are numbered 1, 2, … without a gap. -/
def Numbered (number : α → Nat) (rows : List α) : Prop :=
  rows.map number = List.range' 1 rows.length

namespace Numbered

variable {number : α → Nat} {rows : List α}

theorem nil : Numbered number [] := rfl

theorem snoc {row : α} (h : Numbered number rows)
    (hrow : number row = rows.length + 1) : Numbered number (rows ++ [row]) := by
  rw [Numbered, List.map_append, h, List.length_append, List.length_singleton,
    List.range'_1_concat, List.map_singleton, hrow, Nat.add_comm 1]

theorem bounds (h : Numbered number rows) {row : α} (hrow : row ∈ rows) :
    1 ≤ number row ∧ number row ≤ rows.length := by
  have hmem : number row ∈ List.range' 1 rows.length :=
    h ▸ List.mem_map_of_mem hrow
  rw [List.mem_range'_1] at hmem
  omega

theorem unique (h : Numbered number rows) {a b : α} (ha : a ∈ rows)
    (hb : b ∈ rows) (hab : number a = number b) : a = b := by
  have hnodup : (rows.map number).Nodup := h ▸ List.nodup_range'
  exact List.inj_on_of_nodup_map hnodup ha hb hab

theorem last (h : Numbered number rows) {row : α}
    (hrow : rows.getLast? = some row) : number row = rows.length := by
  obtain ⟨rest, rfl⟩ := List.getLast?_eq_some_iff.mp hrow
  rw [Numbered, List.map_append, List.length_append, List.length_singleton,
    List.range'_1_concat] at h
  have hlast := List.append_inj_right' h rfl
  simp only [List.map_singleton, List.cons.injEq, and_true] at hlast
  rw [List.length_append, List.length_singleton]
  omega

theorem find?_greatest (h : Numbered number rows) :
    rows.find? (fun r => rows.all fun other => number other ≤ number r) =
      rows.getLast? := by
  cases hlast : rows.getLast? with
  | none =>
      rw [List.getLast?_eq_none_iff] at hlast
      rw [hlast]
      rfl
  | some row =>
      have hmem : row ∈ rows := List.mem_of_getLast? hlast
      have hrow : (rows.all fun other => number other ≤ number row) = true := by
        rw [List.all_eq_true]
        intro other hother
        rw [h.last hlast, decide_eq_true_eq]
        exact (h.bounds hother).2
      obtain ⟨found, hfound⟩ : ∃ found, rows.find? (fun r =>
          rows.all fun other => number other ≤ number r) = some found :=
        Option.isSome_iff_exists.mp (List.find?_isSome.mpr ⟨row, hmem, hrow⟩)
      have hgreatest := List.find?_some hfound
      rw [List.all_eq_true] at hgreatest
      have hle := hgreatest row hmem
      rw [h.last hlast, decide_eq_true_eq] at hle
      have hfmem := List.mem_of_find?_eq_some hfound
      rw [hfound, h.unique hfmem hmem ?_]
      rw [h.last hlast]
      exact Nat.le_antisymm (h.bounds hfmem).2 hle

end Numbered

end OrcState.Foundation
