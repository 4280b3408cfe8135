import Mathlib.Data.List.Nodup
import Mathlib.Data.List.Basic

/-!
# Items in named groups

A list of groups, each with a name and a list of items; an item has a key, and a key
is looked up through the groups in order.  Updates go to the first group that fits.
What each update does to every lookup is said here, so that a program over such a
list can be read as one over a partial function from keys to named items.
-/

namespace OrcState.Foundation

universe u v w x

structure Group (γ : Type u) (α : Type v) where
  head : γ
  items : List α

namespace Groups

variable {γ : Type u} {α : Type v} {κ : Type w} {η : Type x}

/-! ## The first that fits -/

def modifyFirst (p : α → Bool) (f : α → α) : List α → List α
  | [] => []
  | a :: rest => if p a then f a :: rest else a :: modifyFirst p f rest

theorem exists_modifyFirst {p : α → Bool} {l : List α} (f : α → α)
    (h : ∃ a ∈ l, p a = true) :
    ∃ front a back, l = front ++ a :: back ∧ p a = true ∧
      (∀ b ∈ front, p b = false) ∧ modifyFirst p f l = front ++ f a :: back := by
  induction l with
  | nil =>
      obtain ⟨a, ha, -⟩ := h
      cases ha
  | cons b rest ih =>
      by_cases hb : p b = true
      · exact ⟨[], b, rest, rfl, hb, by simp, by simp [modifyFirst, hb]⟩
      · have hrest : ∃ a ∈ rest, p a = true := by
          obtain ⟨a, ha, hp⟩ := h
          obtain rfl | ha := List.mem_cons.mp ha
          · exact absurd hp hb
          · exact ⟨a, ha, hp⟩
        obtain ⟨front, a, back, rfl, ha, hfront, hmodify⟩ := ih hrest
        refine ⟨b :: front, a, back, rfl, ha, ?_, ?_⟩
        · intro c hc
          obtain rfl | hc := List.mem_cons.mp hc
          · simpa using hb
          · exact hfront c hc
        · rw [modifyFirst, if_neg hb, hmodify, List.cons_append]

theorem modifyFirst_eq_self {p : α → Bool} {f : α → α} {l : List α}
    (h : ∀ a ∈ l, p a = true → f a = a) : modifyFirst p f l = l := by
  induction l with
  | nil => rfl
  | cons a rest ih =>
      rw [modifyFirst]
      split
      · rename_i ha
        rw [h a List.mem_cons_self ha]
      · rw [ih fun b hb => h b (List.mem_cons_of_mem a hb)]

theorem map_modifyFirst {β : Type w} {p : α → Bool} {f : α → α} {g : α → β}
    (h : ∀ a, p a = true → g (f a) = g a) (l : List α) :
    (modifyFirst p f l).map g = l.map g := by
  induction l with
  | nil => rfl
  | cons a rest ih =>
      rw [modifyFirst]
      split
      · rename_i ha
        rw [List.map_cons, List.map_cons, h a ha]
      · rw [List.map_cons, List.map_cons, ih]

theorem find?_modifyFirst {p q : α → Bool} {a : α} (hp : ∀ b, p b = true → q b = false)
    (ha : q a = false) (l : List α) : (modifyFirst p (fun _ => a) l).find? q = l.find? q := by
  induction l with
  | nil => rfl
  | cons b rest ih =>
      rw [modifyFirst]
      split
      · rename_i hb
        rw [List.find?_cons_of_neg (by simp [ha]), List.find?_cons_of_neg (by simp [hp b hb])]
      · rw [List.find?_cons, List.find?_cons, ih]

theorem find?_modifyFirst_self {p : α → Bool} {a : α} (ha : p a = true) {l : List α}
    (h : ∃ b ∈ l, p b = true) : (modifyFirst p (fun _ => a) l).find? p = some a := by
  obtain ⟨front, b, back, -, -, hfront, hmodify⟩ := exists_modifyFirst (fun _ => a) h
  have hnone : front.find? p = none := List.find?_eq_none.mpr fun c hc => by simp [hfront c hc]
  rw [hmodify, List.find?_append, hnone, Option.none_or, List.find?_cons_of_pos ha]

/-! ## Looking a key up -/

variable [DecidableEq κ] (name : γ → η) (key : α → κ)

def findEntry (groups : List (Group γ α)) (k : κ) : Option (Group γ α × α) :=
  groups.findSome? fun g => (g.items.find? (key · = k)).map (g, ·)

def entries (groups : List (Group γ α)) : List (η × α) :=
  groups.flatMap fun g => g.items.map (name g.head, ·)

def lookup (groups : List (Group γ α)) (k : κ) : Option (η × α) :=
  (findEntry key groups k).map fun e => (name e.1.head, e.2)

def Distinct (groups : List (Group γ α)) : Prop :=
  ((entries name groups).map (key ·.2)).Nodup

variable {name key} {groups : List (Group γ α)} {k : κ}

theorem entries_append (front back : List (Group γ α)) :
    entries name (front ++ back) = entries name front ++ entries name back :=
  List.flatMap_append

theorem entries_cons (g : Group γ α) (rest : List (Group γ α)) :
    entries name (g :: rest) = g.items.map (name g.head, ·) ++ entries name rest :=
  rfl

theorem lookup_eq_find? (groups : List (Group γ α)) (k : κ) :
    lookup name key groups k = (entries name groups).find? (key ·.2 = k) := by
  induction groups with
  | nil => rfl
  | cons g rest ih =>
      rw [entries_cons, List.find?_append, ← ih, List.find?_map]
      simp only [lookup, findEntry, List.findSome?_cons]
      change _ = (Option.map _ (g.items.find? (key · = k))).or _
      cases g.items.find? (key · = k) <;> rfl

theorem lookup_eq_some (h : Distinct name key groups) {e : η × α} :
    lookup name key groups k = some e ↔ e ∈ entries name groups ∧ key e.2 = k := by
  rw [lookup_eq_find?]
  constructor
  · intro hfind
    exact ⟨List.mem_of_find?_eq_some hfind, by simpa using List.find?_some hfind⟩
  · rintro ⟨hmem, hkey⟩
    cases hfind : (entries name groups).find? (key ·.2 = k) with
    | none =>
        have hnone := List.find?_eq_none.mp hfind e hmem
        simp [hkey] at hnone
    | some e' =>
        have hmem' := List.mem_of_find?_eq_some hfind
        have hkey' : key e'.2 = k := by simpa using List.find?_some hfind
        rw [List.inj_on_of_nodup_map h hmem' hmem (hkey'.trans hkey.symm)]

theorem lookup_eq_none : lookup name key groups k = none ↔
    ∀ e ∈ entries name groups, key e.2 ≠ k := by
  rw [lookup_eq_find?, List.find?_eq_none]
  simp

/-! ## Updates -/

section Updates

variable (name key) [DecidableEq η]

def ensure (n : η) (new : γ) (groups : List (Group γ α)) : List (Group γ α) :=
  if groups.any (name ·.head = n) then groups else groups ++ [⟨new, []⟩]

def append (n : η) (a : α) (groups : List (Group γ α)) : List (Group γ α) :=
  modifyFirst (name ·.head = n) (fun g => { g with items := g.items ++ [a] }) groups

def holds (k : κ) (g : Group γ α) : Bool := g.items.any (key · = k)

def remove (k : κ) (groups : List (Group γ α)) : List (Group γ α) :=
  modifyFirst (holds key k)
    (fun g => { g with items := g.items.filter (key · ≠ k) }) groups

def replace (k : κ) (a : α) (groups : List (Group γ α)) : List (Group γ α) :=
  modifyFirst (holds key k)
    (fun g => { g with items := modifyFirst (key · = k) (fun _ => a) g.items }) groups

end Updates

variable {a : α}

theorem holds_iff {g : Group γ α} : holds key k g = true ↔ ∃ b ∈ g.items, key b = k := by
  simp [holds]

theorem find?_entries (j : κ) (front back : List (Group γ α)) (g : Group γ α) :
    lookup name key (front ++ g :: back) j =
      (lookup name key front j).or
        (((g.items.find? (key · = j)).map (name g.head, ·)).or
          (lookup name key back j)) := by
  simp only [lookup_eq_find?, entries_append, entries_cons, List.find?_append,
    List.find?_map]
  rfl

theorem lookup_eq_none_iff : lookup name key groups k = none ↔
    ∀ g ∈ groups, ∀ b ∈ g.items, key b ≠ k := by
  rw [lookup_eq_none, entries, List.forall_mem_flatMap]
  simp only [List.forall_mem_map]

section Named

variable [DecidableEq η] {n : η} {new : γ}

theorem lookup_ensure : lookup name key (ensure name n new groups) k =
    lookup name key groups k := by
  rw [ensure]
  split
  · rfl
  · rw [lookup_eq_find?, lookup_eq_find?, entries_append]
    simp [entries]

omit [DecidableEq κ] in
theorem Distinct.ensure (h : Distinct name key groups) :
    Distinct name key (ensure name n new groups) := by
  rw [Groups.ensure]
  split
  · exact h
  · have hnone : entries name [⟨new, ([] : List α)⟩] = [] := rfl
    rw [Distinct, entries_append, hnone, List.append_nil]
    exact h

theorem exists_named_ensure (hnew : name new = n) :
    ∃ g ∈ ensure name n new groups, decide (name g.head = n) = true := by
  rw [Groups.ensure]
  split
  · rename_i h
    simpa using h
  · exact ⟨⟨new, []⟩, by simp, by simp [hnew]⟩

theorem heads_append : (append name n a groups).map Group.head = groups.map Group.head := by
  apply map_modifyFirst
  intro g _
  rfl

theorem lookup_append (hnamed : ∃ g ∈ groups, decide (name g.head = n) = true)
    (hfresh : lookup name key groups (key a) = none) :
    lookup name key (append name n a groups) k =
      if k = key a then some (n, a) else lookup name key groups k := by
  obtain ⟨front, g, back, rfl, hname, -, hmodify⟩ := exists_modifyFirst
    (fun g => { g with items := g.items ++ [a] }) hnamed
  have hname : name g.head = n := by simpa using hname
  rw [append, hmodify, find?_entries, find?_entries, List.find?_append]
  by_cases hk : k = key a
  · subst hk
    rw [find?_entries, Option.or_eq_none_iff, Option.or_eq_none_iff] at hfresh
    obtain ⟨hfront, hitems, -⟩ := hfresh
    rw [Option.map_eq_none_iff] at hitems
    simp [hfront, hitems, hname]
  · have hother : ([a].find? (key · = k)) = none := by
      simpa using Ne.symm hk
    rw [hother, Option.or_none, if_neg hk]

theorem Distinct.append (h : Distinct name key groups)
    (hnamed : ∃ g ∈ groups, decide (name g.head = n) = true)
    (hfresh : lookup name key groups (key a) = none) :
    Distinct name key (append name n a groups) := by
  obtain ⟨front, g, back, rfl, -, -, hmodify⟩ := exists_modifyFirst
    (fun g => { g with items := g.items ++ [a] }) hnamed
  have hperm : (entries name (Groups.append name n a (front ++ g :: back))).Perm
      ((name g.head, a) :: entries name (front ++ g :: back)) := by
    rw [Groups.append, hmodify]
    simp only [entries_append, entries_cons, List.map_append, List.map_singleton,
      List.append_assoc, List.singleton_append]
    exact (List.perm_append_left_iff _).mpr List.perm_middle |>.trans List.perm_middle
  rw [Distinct, (hperm.map (key ·.2)).nodup_iff, List.map_cons, List.nodup_cons]
  refine ⟨fun hmem => ?_, h⟩
  obtain ⟨e, he, hkey⟩ := List.mem_map.mp hmem
  exact lookup_eq_none.mp hfresh e he hkey

end Named

theorem heads_remove : (remove key k groups).map Group.head = groups.map Group.head := by
  apply map_modifyFirst
  intro g _
  rfl

theorem heads_replace : (replace key k a groups).map Group.head = groups.map Group.head := by
  apply map_modifyFirst
  intro g _
  rfl

theorem Distinct.back {front back : List (Group γ α)} {g : Group γ α}
    (h : Distinct name key (front ++ g :: back)) {b : α} (hb : b ∈ g.items)
    (hkey : key b = k) : lookup name key back k = none := by
  rw [Distinct, entries_append, entries_cons, List.map_append, List.map_append] at h
  have hdisjoint := (List.nodup_append.mp (List.nodup_append.mp h).2.1).2.2
  refine lookup_eq_none.mpr fun e he heq => ?_
  refine hdisjoint k ?_ k ?_ rfl
  · exact List.mem_map.mpr ⟨_, List.mem_map_of_mem hb, hkey⟩
  · exact List.mem_map.mpr ⟨e, he, heq⟩

theorem lookup_front {front : List (Group γ α)} (h : ∀ g ∈ front, holds key k g = false) :
    lookup name key front k = none := by
  refine lookup_eq_none_iff.mpr fun g hg b hb hkey => ?_
  have hfalse := h g hg
  rw [holds_iff.mpr ⟨b, hb, hkey⟩] at hfalse
  cases hfalse

theorem lookup_of_not_holds (h : ¬ ∃ g ∈ groups, holds key k g = true) :
    lookup name key groups k = none := by
  refine lookup_front fun g hg => ?_
  rw [Bool.eq_false_iff]
  exact fun hholds => h ⟨g, hg, hholds⟩

theorem find?_dropped (items : List α) (j : κ) :
    (items.filter (key · ≠ k)).find? (key · = j) =
      if j = k then none else items.find? (key · = j) := by
  rw [List.find?_filter]
  split
  · rename_i hj
    subst hj
    refine List.find?_eq_none.mpr fun b _ => ?_
    simp
  · rename_i hj
    refine congrArg (List.find? · items) (funext fun b => ?_)
    by_cases hb : key b = j
    · simp [hb, hj]
    · simp [hb]

theorem remove_of_not_holds (h : ¬ ∃ g ∈ groups, holds key k g = true) :
    remove key k groups = groups :=
  modifyFirst_eq_self fun g hg hholds => absurd ⟨g, hg, hholds⟩ h

theorem Distinct.remove (h : Distinct name key groups) :
    Distinct name key (remove key k groups) := by
  by_cases hex : ∃ g ∈ groups, holds key k g = true
  · obtain ⟨front, g, back, rfl, -, -, hmodify⟩ := exists_modifyFirst
      (fun g => { g with items := g.items.filter (key · ≠ k) }) hex
    rw [Groups.remove, hmodify]
    refine h.sublist (List.Sublist.map _ ?_)
    rw [entries_append, entries_append, entries_cons, entries_cons]
    refine (List.Sublist.refl _).append (List.Sublist.append ?_ (List.Sublist.refl _))
    exact List.filter_sublist.map _
  · rw [remove_of_not_holds hex]
    exact h

theorem lookup_remove (h : Distinct name key groups) (j : κ) :
    lookup name key (remove key k groups) j =
      if j = k then none else lookup name key groups j := by
  by_cases hex : ∃ g ∈ groups, holds key k g = true
  · obtain ⟨front, g, back, rfl, hholds, hfront, hmodify⟩ := exists_modifyFirst
      (fun g => { g with items := g.items.filter (key · ≠ k) }) hex
    obtain ⟨b, hb, hkey⟩ := holds_iff.mp hholds
    rw [remove, hmodify, find?_entries, find?_entries, find?_dropped]
    by_cases hj : j = k
    · subst hj
      rw [if_pos rfl, if_pos rfl, lookup_front hfront, h.back hb hkey]
      rfl
    · rw [if_neg hj, if_neg hj]
  · rw [remove_of_not_holds hex]
    split
    · rename_i hj
      rw [hj, lookup_of_not_holds hex]
    · rfl

theorem replace_of_not_holds (h : ¬ ∃ g ∈ groups, holds key k g = true) :
    replace key k a groups = groups :=
  modifyFirst_eq_self fun g hg hholds => absurd ⟨g, hg, hholds⟩ h

theorem Distinct.replace (h : Distinct name key groups) (ha : key a = k) :
    Distinct name key (replace key k a groups) := by
  by_cases hex : ∃ g ∈ groups, holds key k g = true
  · obtain ⟨front, g, back, rfl, -, -, hmodify⟩ := exists_modifyFirst
      (fun g => { g with items := modifyFirst (key · = k) (fun _ => a) g.items }) hex
    have hkeys : (modifyFirst (key · = k) (fun _ => a) g.items).map key =
        g.items.map key := by
      refine map_modifyFirst (fun b hb => ?_) g.items
      rw [ha, of_decide_eq_true hb]
    rw [Groups.replace, hmodify]
    simp only [Distinct, entries_append, entries_cons, List.map_append, List.map_map,
      Function.comp_def] at h ⊢
    rw [hkeys]
    exact h
  · rw [replace_of_not_holds hex]
    exact h

theorem lookup_replace (h : Distinct name key groups) (ha : key a = k) (j : κ) :
    lookup name key (replace key k a groups) j =
      if j = k then (lookup name key groups k).map fun e => (e.1, a)
      else lookup name key groups j := by
  by_cases hex : ∃ g ∈ groups, holds key k g = true
  · obtain ⟨front, g, back, rfl, hholds, hfront, hmodify⟩ := exists_modifyFirst
      (fun g => { g with items := modifyFirst (key · = k) (fun _ => a) g.items }) hex
    obtain ⟨b, hb, hkey⟩ := holds_iff.mp hholds
    rw [replace, hmodify]
    simp only [find?_entries]
    by_cases hj : j = k
    · subst hj
      have hself := find?_modifyFirst_self (p := (key · = j)) (by simpa using ha)
        ⟨b, hb, by simpa using hkey⟩
      rw [if_pos rfl, lookup_front hfront, hself, h.back hb hkey]
      cases hfind : g.items.find? (key · = j) with
      | none =>
          have hnone := List.find?_eq_none.mp hfind b hb
          simp [hkey] at hnone
      | some c => rfl
    · have hother : ∀ c, decide (key c = k) = true → decide (key c = j) = false := by
        intro c hc
        simpa [of_decide_eq_true hc] using Ne.symm hj
      have hsame := find?_modifyFirst (a := a) hother (by simpa [ha] using Ne.symm hj)
        g.items
      rw [if_neg hj, hsame]
  · rw [replace_of_not_holds hex, lookup_of_not_holds hex]
    split
    · rename_i hj
      rw [hj, lookup_of_not_holds hex]
      rfl
    · rfl

theorem replace_self (h : Distinct name key groups) {n : η}
    (hlookup : lookup name key groups k = some (n, a)) : replace key k a groups = groups := by
  refine modifyFirst_eq_self fun g hg _ => ?_
  have hitems : modifyFirst (key · = k) (fun _ => a) g.items = g.items := by
    refine modifyFirst_eq_self fun b hb hkey => ?_
    have hmem : (name g.head, b) ∈ entries name groups :=
      List.mem_flatMap.mpr ⟨g, hg, List.mem_map_of_mem hb⟩
    have hself := (lookup_eq_some h).mpr ⟨hmem, of_decide_eq_true hkey⟩
    rw [hlookup] at hself
    cases hself
    rfl
  rw [hitems]

end Groups

end OrcState.Foundation
