import Mathlib.Data.List.Nodup
import Mathlib.Data.List.Basic
import Mathlib.Data.List.Sort

/-!
# Keyed tables

A table keeps its rows in insertion order and carries, as a field, that no two
rows share a key: a duplicate row cannot be built.  Updates take a function
that keeps the key, so the field is re-proved once here and never by a client.
-/

namespace OrcState.Foundation

structure Table (κ ρ : Type) (key : ρ → κ) where
  rows : List ρ
  nodup : (rows.map key).Nodup
  deriving Repr

namespace Table

variable {κ ρ : Type} {key : ρ → κ}

@[ext] theorem ext {T U : Table κ ρ key} (h : T.rows = U.rows) : T = U := by
  cases T
  cases U
  cases h
  rfl

instance [DecidableEq ρ] : DecidableEq (Table κ ρ key) := fun T U =>
  decidable_of_iff (T.rows = U.rows) ⟨Table.ext, fun h => h ▸ rfl⟩

def empty : Table κ ρ key := ⟨[], List.nodup_nil⟩

@[simp] theorem rows_empty : (empty : Table κ ρ key).rows = [] := rfl

instance : Inhabited (Table κ ρ key) := ⟨empty⟩

instance : Membership ρ (Table κ ρ key) := ⟨fun T r => r ∈ T.rows⟩

theorem mem_rows {T : Table κ ρ key} {r : ρ} : r ∈ T ↔ r ∈ T.rows := Iff.rfl

@[simp] theorem not_mem_empty (r : ρ) : ¬ r ∈ (empty : Table κ ρ key) := by
  simp [mem_rows]

theorem eq_of_key {T : Table κ ρ key} {r r' : ρ} (hr : r ∈ T) (hr' : r' ∈ T)
    (h : key r = key r') : r = r' :=
  List.inj_on_of_nodup_map T.nodup hr hr' h

/-! ## Updates of every row -/

def map (T : Table κ ρ key) (f : ρ → ρ) (hf : ∀ r, key (f r) = key r) :
    Table κ ρ key where
  rows := T.rows.map f
  nodup := by
    have h : key ∘ f = key := funext hf
    rw [List.map_map, h]
    exact T.nodup

@[simp] theorem mem_map {T : Table κ ρ key} {f : ρ → ρ}
    {hf : ∀ r, key (f r) = key r} {r : ρ} :
    r ∈ T.map f hf ↔ ∃ r₀, r₀ ∈ T ∧ f r₀ = r := by
  simp [mem_rows, map]

def filter (T : Table κ ρ key) (p : ρ → Bool) : Table κ ρ key where
  rows := T.rows.filter p
  nodup := T.nodup.sublist (List.filter_sublist.map key)

@[simp] theorem mem_filter {T : Table κ ρ key} {p : ρ → Bool} {r : ρ} :
    r ∈ T.filter p ↔ r ∈ T ∧ p r = true := by
  simp [mem_rows, filter]

/-! ## Rows by key -/

section Keyed

variable [DecidableEq κ]

def find? (T : Table κ ρ key) (k : κ) : Option ρ :=
  T.rows.find? fun r => key r = k

theorem mem_of_find? {T : Table κ ρ key} {k : κ} {r : ρ}
    (h : T.find? k = some r) : r ∈ T :=
  List.mem_of_find?_eq_some h

theorem key_of_find? {T : Table κ ρ key} {k : κ} {r : ρ}
    (h : T.find? k = some r) : key r = k := by
  simpa using List.find?_some h

theorem find?_of_mem {T : Table κ ρ key} {r : ρ} (h : r ∈ T) :
    T.find? (key r) = some r := by
  cases hf : T.find? (key r) with
  | none =>
      have := List.find?_eq_none.mp hf r h
      simp at this
  | some r' =>
      rw [eq_of_key (mem_of_find? hf) h (key_of_find? hf)]

theorem find?_eq_some {T : Table κ ρ key} {k : κ} {r : ρ} :
    T.find? k = some r ↔ r ∈ T ∧ key r = k :=
  ⟨fun h => ⟨mem_of_find? h, key_of_find? h⟩,
    fun ⟨h, hk⟩ => hk ▸ find?_of_mem h⟩

theorem find?_eq_none {T : Table κ ρ key} {k : κ} :
    T.find? k = none ↔ ∀ r, r ∈ T → key r ≠ k := by
  simp [find?, List.find?_eq_none, mem_rows]

theorem find?_of_members {T U : Table κ ρ key} (h : ∀ r, r ∈ T ↔ r ∈ U) (k : κ) :
    T.find? k = U.find? k := by
  cases hU : U.find? k with
  | none =>
      refine find?_eq_none.mpr fun r hr => ?_
      exact find?_eq_none.mp hU r ((h r).mp hr)
  | some r =>
      obtain ⟨hr, hkey⟩ := find?_eq_some.mp hU
      exact find?_eq_some.mpr ⟨(h r).mpr hr, hkey⟩

theorem find?_filter {T : Table κ ρ key} {p : ρ → Bool} {k : κ}
    (h : ∀ r, key r = k → p r = true) : (T.filter p).find? k = T.find? k := by
  cases hfind : T.find? k with
  | none =>
      refine find?_eq_none.mpr fun r hr => ?_
      exact find?_eq_none.mp hfind r (mem_filter.mp hr).1
  | some r =>
      obtain ⟨hr, hkey⟩ := find?_eq_some.mp hfind
      exact find?_eq_some.mpr ⟨mem_filter.mpr ⟨hr, h r hkey⟩, hkey⟩

theorem find?_map (T : Table κ ρ key) (f : ρ → ρ)
    (hf : ∀ r, key (f r) = key r) (k : κ) :
    (T.map f hf).find? k = (T.find? k).map f := by
  have hkeys : (fun r => decide (key r = k)) ∘ f =
      fun r => decide (key r = k) := by
    funext r
    simp [hf r]
  simp only [find?, map, List.find?_map, hkeys]

def update (T : Table κ ρ key) (k : κ) (f : ρ → ρ)
    (hf : ∀ r, key (f r) = key r) : Table κ ρ key :=
  T.map (fun r => if key r = k then f r else r) fun r => by
    split
    · exact hf r
    · rfl

theorem mem_update {T : Table κ ρ key} {k : κ} {f : ρ → ρ}
    {hf : ∀ r, key (f r) = key r} {r : ρ} :
    r ∈ T.update k f hf ↔
      (∃ r₀, r₀ ∈ T ∧ key r₀ = k ∧ f r₀ = r) ∨ (r ∈ T ∧ key r ≠ k) := by
  rw [update, mem_map]
  constructor
  · rintro ⟨r₀, h₀, h⟩
    split at h
    · rename_i hk
      exact .inl ⟨r₀, h₀, hk, h⟩
    · rename_i hk
      cases h
      exact .inr ⟨h₀, hk⟩
  · rintro (⟨r₀, h₀, hk, rfl⟩ | ⟨h, hk⟩)
    · exact ⟨r₀, h₀, by rw [if_pos hk]⟩
    · exact ⟨r, h, by rw [if_neg hk]⟩

theorem find?_update_self {T : Table κ ρ key} {k : κ} {f : ρ → ρ}
    {hf : ∀ r, key (f r) = key r} {r : ρ} (h : T.find? k = some r) :
    (T.update k f hf).find? k = some (f r) := by
  obtain ⟨hr, rfl⟩ := find?_eq_some.mp h
  refine find?_eq_some.mpr ⟨mem_update.mpr ?_, hf r⟩
  exact .inl ⟨r, hr, rfl, rfl⟩

theorem find?_update (T : Table κ ρ key) (k : κ) (f : ρ → ρ)
    (hf : ∀ r, key (f r) = key r) (j : κ) :
    (T.update k f hf).find? j =
      if j = k then (T.find? j).map f else T.find? j := by
  rw [update, find?_map]
  cases h : T.find? j with
  | none => simp
  | some r =>
      have hkey := key_of_find? h
      split
      · rename_i hj
        simp [hkey, hj]
      · rename_i hj
        simp [hkey, hj]

theorem update_congr {T : Table κ ρ key} {r : ρ} (hr : r ∈ T) {f g : ρ → ρ}
    {hf : ∀ r, key (f r) = key r} {hg : ∀ r, key (g r) = key r}
    (h : f r = g r) : T.update (key r) f hf = T.update (key r) g hg := by
  refine Table.ext (List.map_congr_left fun r' hr' => ?_)
  split
  · rename_i hk
    rw [eq_of_key hr' hr hk, h]
  · rfl

theorem update_of_eq {T : Table κ ρ key} {r : ρ} (hr : r ∈ T) {f : ρ → ρ}
    {hf : ∀ r, key (f r) = key r} (h : f r = r) : T.update (key r) f hf = T := by
  refine Table.ext ((List.map_congr_left fun r' hr' => ?_).trans
    (List.map_id T.rows))
  split
  · rename_i hk
    rw [eq_of_key hr' hr hk, h]
    rfl
  · rfl

theorem update_update (T : Table κ ρ key) (k : κ) {f g : ρ → ρ}
    (hf : ∀ r, key (f r) = key r) (hg : ∀ r, key (g r) = key r) :
    (T.update k f hf).update k g hg =
      T.update k (g ∘ f) fun r => (hg (f r)).trans (hf r) := by
  refine Table.ext ?_
  simp only [update, map, List.map_map]
  refine List.map_congr_left fun r _ => ?_
  simp only [Function.comp]
  by_cases hk : key r = k
  · rw [if_pos hk, if_pos ((hf r).trans hk), if_pos hk]
  · rw [if_neg hk, if_neg hk, if_neg hk]

def upsert (T : Table κ ρ key) (r : ρ) : Table κ ρ key where
  rows :=
    if key r ∈ T.rows.map key then
      T.rows.map fun r₀ => if key r₀ = key r then r else r₀
    else T.rows ++ [r]
  nodup := by
    split
    · have h : (key ∘ fun r₀ => if key r₀ = key r then r else r₀) = key := by
        funext r₀
        simp only [Function.comp]
        split
        · rename_i hk
          exact hk.symm
        · rfl
      rw [List.map_map, h]
      exact T.nodup
    · rename_i h
      rw [List.map_append, List.nodup_append]
      refine ⟨T.nodup, by simp, ?_⟩
      intro a ha b hb
      simp only [List.map_cons, List.map_nil, List.mem_singleton] at hb
      rintro rfl
      exact h (hb ▸ ha)

theorem mem_upsert {T : Table κ ρ key} {r r' : ρ} :
    r' ∈ T.upsert r ↔ r' = r ∨ (r' ∈ T ∧ key r' ≠ key r) := by
  simp only [mem_rows, upsert]
  split
  · rename_i h
    obtain ⟨r₁, h₁, hk₁⟩ := List.mem_map.mp h
    simp only [List.mem_map]
    constructor
    · rintro ⟨r₀, h₀, hr₀⟩
      split at hr₀
      · exact .inl hr₀.symm
      · rename_i hk
        exact .inr ⟨hr₀ ▸ h₀, hr₀ ▸ hk⟩
    · rintro (rfl | ⟨hr', hk⟩)
      · exact ⟨r₁, h₁, if_pos hk₁⟩
      · exact ⟨r', hr', if_neg hk⟩
  · rename_i h
    rw [List.mem_append, List.mem_singleton]
    constructor
    · rintro (hr' | rfl)
      · exact .inr ⟨hr', fun hk => h (hk ▸ List.mem_map_of_mem hr')⟩
      · exact .inl rfl
    · rintro (rfl | ⟨hr', -⟩)
      · exact .inr rfl
      · exact .inl hr'

theorem find?_upsert (T : Table κ ρ key) (r : ρ) (k : κ) :
    (T.upsert r).find? k = if k = key r then some r else T.find? k := by
  split
  · rename_i hk
    exact find?_eq_some.mpr ⟨mem_upsert.mpr (.inl rfl), hk.symm⟩
  · rename_i hk
    cases hf : T.find? k with
    | none =>
        refine find?_eq_none.mpr fun r₀ h₀ => ?_
        rcases mem_upsert.mp h₀ with rfl | ⟨hold, -⟩
        · exact Ne.symm hk
        · exact find?_eq_none.mp hf r₀ hold
    | some r₀ =>
        obtain ⟨hmem, hkey⟩ := find?_eq_some.mp hf
        exact find?_eq_some.mpr
          ⟨mem_upsert.mpr (.inr ⟨hmem, hkey ▸ hk⟩), hkey⟩

theorem rows_upsert_of_find?_none {T : Table κ ρ key} {r : ρ}
    (h : T.find? (key r) = none) : (T.upsert r).rows = T.rows ++ [r] := by
  refine if_neg fun hmem => ?_
  obtain ⟨r₀, h₀, hkey⟩ := List.mem_map.mp hmem
  exact find?_eq_none.mp h r₀ h₀ hkey

theorem isSome_upsert {T : Table κ ρ key} {r : ρ} {k : κ}
    (h : (T.find? k).isSome = true) : ((T.upsert r).find? k).isSome = true := by
  obtain ⟨r', hr'⟩ := Option.isSome_iff_exists.mp h
  obtain ⟨hmem, hkey⟩ := find?_eq_some.mp hr'
  refine Option.isSome_iff_exists.mpr ?_
  by_cases hk : key r = k
  · exact ⟨r, find?_eq_some.mpr ⟨mem_upsert.mpr (.inl rfl), hk⟩⟩
  · refine ⟨r', find?_eq_some.mpr ⟨mem_upsert.mpr (.inr ⟨hmem, ?_⟩), hkey⟩⟩
    rw [hkey]
    exact Ne.symm hk

def insert? (T : Table κ ρ key) (r : ρ) : Option (Table κ ρ key) :=
  if h : key r ∈ T.rows.map key then none
  else some
    { rows := T.rows ++ [r]
      nodup := by
        rw [List.map_append, List.nodup_append]
        refine ⟨T.nodup, by simp, ?_⟩
        intro a ha b hb
        simp only [List.map_cons, List.map_nil, List.mem_singleton] at hb
        rintro rfl
        exact h (hb ▸ ha) }

theorem insert?_eq_some {T U : Table κ ρ key} {r : ρ}
    (h : T.insert? r = some U) :
    (∀ r₀, r₀ ∈ T → key r₀ ≠ key r) ∧ U.rows = T.rows ++ [r] := by
  unfold insert? at h
  split at h
  · cases h
  · rename_i hnot
    cases h
    refine ⟨fun r₀ h₀ hk => hnot ?_, rfl⟩
    exact List.mem_map.mpr ⟨r₀, h₀, hk⟩

theorem mem_insert? {T U : Table κ ρ key} {r r' : ρ}
    (h : T.insert? r = some U) : r' ∈ U ↔ r' ∈ T ∨ r' = r := by
  simp [mem_rows, (insert?_eq_some h).2]

def insertOrdered? (T : Table κ ρ key) (le : ρ → ρ → Prop) [DecidableRel le]
    (r : ρ) : Option (Table κ ρ key) :=
  if h : key r ∈ T.rows.map key then none
  else some
    { rows := T.rows.orderedInsert le r
      nodup := by
        have hperm := (T.rows.perm_orderedInsert le r).map key
        rw [hperm.nodup_iff, List.map_cons, List.nodup_cons]
        exact ⟨h, T.nodup⟩ }

theorem mem_insertOrdered? {T U : Table κ ρ key} {le : ρ → ρ → Prop}
    [DecidableRel le] {r r' : ρ} (h : T.insertOrdered? le r = some U) :
    r' ∈ U ↔ r' ∈ T ∨ r' = r := by
  unfold insertOrdered? at h
  split at h
  · cases h
  · cases h
    simp [mem_rows, List.mem_orderedInsert, or_comm]

theorem fresh_of_insertOrdered? {T U : Table κ ρ key} {le : ρ → ρ → Prop}
    [DecidableRel le] {r : ρ} (h : T.insertOrdered? le r = some U) :
    T.find? (key r) = none := by
  unfold insertOrdered? at h
  split at h
  · cases h
  · rename_i hnot
    refine find?_eq_none.mpr fun r₀ h₀ hk => hnot ?_
    exact List.mem_map.mpr ⟨r₀, h₀, hk⟩

theorem find?_insertOrdered? {T U : Table κ ρ key} {le : ρ → ρ → Prop}
    [DecidableRel le] {r : ρ} (h : T.insertOrdered? le r = some U) (k : κ) :
    U.find? k = if k = key r then some r else T.find? k := by
  split
  · rename_i hk
    subst hk
    exact find?_of_mem ((mem_insertOrdered? h).mpr (.inr rfl))
  · rename_i hk
    cases hf : T.find? k with
    | none =>
        refine find?_eq_none.mpr fun r₀ h₀ => ?_
        rcases (mem_insertOrdered? h).mp h₀ with hold | rfl
        · exact find?_eq_none.mp hf r₀ hold
        · exact Ne.symm hk
    | some r₀ =>
        obtain ⟨hmem, hkey⟩ := find?_eq_some.mp hf
        exact find?_eq_some.mpr ⟨(mem_insertOrdered? h).mpr (.inl hmem), hkey⟩

end Keyed

end Table

end OrcState.Foundation
