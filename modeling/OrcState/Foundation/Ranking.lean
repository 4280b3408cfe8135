import Mathlib.Data.List.MinMax
import Mathlib.Data.List.Sort

/-!
# Choosing by rank

A list sorted by falling rank, where equal ranks keep the order in which they
stand.  Such a sort commutes with leaving elements out, so that choosing again and
again the first that is not yet chosen runs through the sorted list.  The last
section is about the first element of the greatest rank, `List.argmax`.
-/

namespace OrcState.Foundation

variable {α : Type} (rank : α → Nat)

def byRank (l : List α) : List α :=
  l.insertionSort fun a b => rank b ≤ rank a

/-- `a` comes before `b`: by rank, else by its place in the list. -/
def Precedes (l : List α) (a b : α) : Prop :=
  rank b < rank a ∨ rank a = rank b ∧ [a, b].Sublist l

variable {rank}

theorem Precedes.mono {l l' : List α} {a b : α} (h : Precedes rank l a b)
    (hsub : l.Sublist l') : Precedes rank l' a b := by
  rcases h with hlt | ⟨heq, hpair⟩
  · exact .inl hlt
  · exact .inr ⟨heq, hpair.trans hsub⟩

theorem perm_byRank (l : List α) : (byRank rank l).Perm l :=
  List.perm_insertionSort _ l

theorem mem_byRank {l : List α} {a : α} : a ∈ byRank rank l ↔ a ∈ l :=
  (perm_byRank l).mem_iff

/-! ## The order of the sorted list -/

instance [DecidableEq α] (l : List α) : DecidableRel (Precedes rank l) :=
  fun _ _ => inferInstanceAs (Decidable (_ ∨ _))

theorem not_sublist_swap {l : List α} (hl : l.Nodup) {a b : α}
    (h : [a, b].Sublist l) : ¬ [b, a].Sublist l := by
  intro hswap
  obtain ⟨r₁, r₂, rfl, ha, hb⟩ := List.cons_sublist_iff.mp h
  obtain ⟨s₁, s₂, heq, hb', ha'⟩ := List.cons_sublist_iff.mp hswap
  rw [List.singleton_sublist] at hb ha'
  have hleft := List.nodup_append.mp hl
  have hright := List.nodup_append.mp (heq ▸ hl)
  rcases List.append_eq_append_iff.mp heq with ⟨c, rfl, -⟩ | ⟨c, rfl, -⟩
  · exact hright.2.2 a (List.mem_append_left c ha) a ha' rfl
  · exact hleft.2.2 b (List.mem_append_left c hb') b hb rfl

theorem Precedes.asymm {l : List α} (hl : l.Nodup) {a b : α}
    (h : Precedes rank l a b) : ¬ Precedes rank l b a := by
  rcases h with hlt | ⟨heq, hpair⟩
  · rintro (hlt' | ⟨heq', -⟩) <;> omega
  · rintro (hlt' | ⟨-, hpair'⟩)
    · omega
    · exact not_sublist_swap hl hpair hpair'

theorem mem_take_iff {R : α → α → Prop} [DecidableRel R] {l : List α}
    (hl : l.Pairwise R) (hasymm : ∀ a ∈ l, ∀ b ∈ l, R a b → ¬ R b a) {a : α}
    (ha : a ∈ l) (n : Nat) :
    a ∈ l.take n ↔ (l.filter fun b => R b a).length < n := by
  obtain ⟨before, after, rfl⟩ := List.append_of_mem ha
  obtain ⟨-, htail, hcross⟩ := List.pairwise_append.mp hl
  have hbefore : ∀ b ∈ before, R b a :=
    fun b hb => hcross b hb a List.mem_cons_self
  have hself : ¬ R a a := fun h => hasymm a ha a ha h h
  have hafter : ∀ b ∈ after, ¬ R b a := by
    intro b hb
    refine hasymm a ha b ?_ ((List.pairwise_cons.mp htail).1 b hb)
    exact List.mem_append_right before (List.mem_cons_of_mem a hb)
  have hfilter : (before ++ a :: after).filter (fun b => R b a) = before := by
    rw [List.filter_append, List.filter_eq_self.mpr (by simpa using hbefore),
      List.filter_eq_nil_iff.mpr, List.append_nil]
    intro b hb
    rcases List.mem_cons.mp hb with rfl | hb
    · simpa using hself
    · simpa using hafter b hb
  rw [hfilter, List.take_append, List.mem_append]
  constructor
  · rintro (hmem | hmem)
    · exact absurd (hbefore a (List.mem_of_mem_take hmem)) hself
    · refine Nat.lt_of_not_le fun hle => ?_
      rw [Nat.sub_eq_zero_of_le hle] at hmem
      cases hmem
  · intro hlt
    have hsplit : n - before.length = (n - before.length - 1) + 1 := by omega
    refine .inr ?_
    rw [hsplit, List.take_succ_cons]
    exact List.mem_cons_self

theorem pairwise_orderedInsert {r : α → α → Prop} {R : α → α → Prop}
    [DecidableRel r] {x : α} {l : List α} (hl : l.Pairwise R)
    (hle : ∀ b ∈ l, R x b ∨ ¬ r x b) (hgt : ∀ b ∈ l, ¬ r x b → R b x)
    (hup : ∀ a ∈ l, ∀ b ∈ l, r x a → R a b → R x b) :
    (l.orderedInsert r x).Pairwise R := by
  induction l with
  | nil => exact List.pairwise_singleton R x
  | cons b l ih =>
      obtain ⟨hb, hl⟩ := List.pairwise_cons.mp hl
      by_cases hr : r x b
      · have hxb : R x b := by
          rcases hle b List.mem_cons_self with h | h
          · exact h
          · exact absurd hr h
        rw [List.orderedInsert_cons_of_le r l hr]
        refine List.pairwise_cons.mpr ⟨fun c hc => ?_, .cons hb hl⟩
        rcases List.mem_cons.mp hc with rfl | hc
        · exact hxb
        · exact hup b List.mem_cons_self c (List.mem_cons_of_mem b hc) hr
            (hb c hc)
      · rw [List.orderedInsert_of_not_le r l hr]
        refine List.pairwise_cons.mpr ⟨fun c hc => ?_, ih hl ?_ ?_ ?_⟩
        · rcases (List.mem_orderedInsert r).mp hc with rfl | hc
          · exact hgt b List.mem_cons_self hr
          · exact hb c hc
        · exact fun c hc => hle c (List.mem_cons_of_mem b hc)
        · exact fun c hc => hgt c (List.mem_cons_of_mem b hc)
        · exact fun a ha c hc => hup a (List.mem_cons_of_mem b ha) c
            (List.mem_cons_of_mem b hc)

theorem Precedes.head {l : List α} {x b : α} (hb : b ∈ l)
    (hle : rank b ≤ rank x) : Precedes rank (x :: l) x b := by
  rcases Nat.lt_or_ge (rank b) (rank x) with hlt | hge
  · exact .inl hlt
  · refine .inr ⟨by omega, ?_⟩
    exact (List.singleton_sublist.mpr hb).cons_cons x

theorem Precedes.rank_le {l : List α} {a b : α} (h : Precedes rank l a b) :
    rank b ≤ rank a := by
  rcases h with hlt | ⟨heq, -⟩ <;> omega

theorem pairwise_byRank (l : List α) :
    (byRank rank l).Pairwise (Precedes rank l) := by
  induction l with
  | nil => exact .nil
  | cons x l ih =>
      have hmem : ∀ b ∈ byRank rank l, b ∈ l := fun b => mem_byRank.mp
      refine pairwise_orderedInsert
        (ih.imp fun h => h.mono (List.sublist_cons_self x l)) ?_ ?_ ?_
      · intro b hb
        by_cases hle : rank b ≤ rank x
        · exact .inl (.head (hmem b hb) hle)
        · exact .inr hle
      · intro b _ hlt
        exact .inl (by omega)
      · intro a _ b hb hxa hab
        exact .head (hmem b hb) (hab.rank_le.trans hxa)

theorem byRank_map {β : Type} (f : β → α) (l : List β) :
    byRank rank (l.map f) = (byRank (rank ∘ f) l).map f :=
  (List.map_insertionSort _ _ f l fun _ _ _ _ => Iff.rfl).symm

/-! ## Leaving elements out -/

theorem filter_orderedInsert {r : α → α → Prop} [DecidableRel r]
    [IsTrans α r] (p : α → Bool) (x : α) {l : List α} (hl : l.Pairwise r) :
    (l.orderedInsert r x).filter p =
      if p x then (l.filter p).orderedInsert r x else l.filter p := by
  induction l with
  | nil => by_cases hx : p x <;> simp [hx]
  | cons b l ih =>
      obtain ⟨hb, hl⟩ := List.pairwise_cons.mp hl
      by_cases hr : r x b
      · rw [List.orderedInsert_cons_of_le r l hr, List.filter_cons]
        split
        · -- all that is left stands behind `b`
          symm
          have hall : ∀ c ∈ (b :: l).filter p, r x c := by
            intro c hc
            rcases List.mem_cons.mp (List.mem_of_mem_filter hc) with rfl | hc
            · exact hr
            · exact IsTrans.trans x b c hr (hb c hc)
          cases hf : (b :: l).filter p with
          | nil => rfl
          | cons c rest =>
              rw [hf] at hall
              exact List.orderedInsert_cons_of_le r rest
                (hall c List.mem_cons_self)
        · rfl
      · rw [List.orderedInsert_of_not_le r l hr, List.filter_cons,
          List.filter_cons, ih hl]
        by_cases hpb : p b = true
        · simp only [hpb, if_true]
          split
          · exact (List.orderedInsert_of_not_le r _ hr).symm
          · rfl
        · simp only [hpb]
          rfl

theorem filter_byRank (p : α → Bool) (l : List α) :
    (byRank rank l).filter p = byRank rank (l.filter p) := by
  have htrans : IsTrans α fun a b => rank b ≤ rank a :=
    ⟨fun _ _ _ hab hbc => hbc.trans hab⟩
  induction l with
  | nil => rfl
  | cons x l ih =>
      have hsorted : (byRank rank l).Pairwise fun a b => rank b ≤ rank a :=
        (pairwise_byRank l).imp Precedes.rank_le
      change ((byRank rank l).orderedInsert _ x).filter p = _
      rw [filter_orderedInsert p x hsorted, ih, List.filter_cons]
      split <;> rfl

/-! ## Places as part of the key -/

def Ahead (rank index : α → Nat) (a b : α) : Prop :=
  rank b < rank a ∨ rank b = rank a ∧ index a ≤ index b

instance (rank index : α → Nat) : DecidableRel (Ahead rank index) :=
  fun _ _ => inferInstanceAs (Decidable (_ ∨ _))

theorem orderedInsert_congr {r s : α → α → Prop} [DecidableRel r]
    [DecidableRel s] {x : α} {l : List α} (h : ∀ b ∈ l, r x b ↔ s x b) :
    l.orderedInsert r x = l.orderedInsert s x := by
  induction l with
  | nil => rfl
  | cons b l ih =>
      have htail := ih fun c hc => h c (List.mem_cons_of_mem b hc)
      rw [List.orderedInsert_cons, List.orderedInsert_cons, htail]
      simp only [h b List.mem_cons_self]

/-- Numbers that rise along the list leave the sort by rank as it is. -/
theorem insertionSort_ahead {index : α → Nat} {l : List α}
    (h : l.Pairwise fun a b => index a ≤ index b) :
    l.insertionSort (Ahead rank index) = byRank rank l := by
  induction l with
  | nil => rfl
  | cons x l ih =>
      obtain ⟨hx, hl⟩ := List.pairwise_cons.mp h
      change (l.insertionSort _).orderedInsert _ x =
        (byRank rank l).orderedInsert _ x
      rw [ih hl]
      refine orderedInsert_congr fun b hb => ?_
      have hindex := hx b (mem_byRank.mp hb)
      constructor
      · rintro (hlt | ⟨heq, -⟩) <;> omega
      · intro hle
        rcases Nat.lt_or_ge (rank b) (rank x) with hlt | hge
        · exact .inl hlt
        · exact .inr ⟨by omega, hindex⟩

/-! ## Choosing again and again -/

variable {κ β : Type}

def collect (pick : List κ → Option β) (key : β → κ) : Nat → List β → List β
  | 0, taken => taken
  | n + 1, taken =>
      match pick (taken.map key) with
      | none => taken
      | some next => collect pick key n (taken ++ [next])

theorem collect_append [DecidableEq κ] {pick : List κ → Option β}
    {key : β → κ} (taken rest : List β)
    (hnodup : ((taken ++ rest).map key).Nodup)
    (hpick : ∀ keys, pick keys =
      ((taken ++ rest).filter fun b => key b ∉ keys).head?) (n : Nat) :
    collect pick key n taken = taken ++ rest.take n := by
  induction n generalizing taken rest with
  | zero => simp [collect]
  | succ n ih =>
      have hsplit : (taken ++ rest).filter (fun b => key b ∉ taken.map key) =
          rest := by
        rw [List.map_append, List.nodup_append] at hnodup
        rw [List.filter_append, List.filter_eq_nil_iff.mpr, List.nil_append,
          List.filter_eq_self]
        · intro b hb
          refine decide_eq_true fun hmem => ?_
          exact hnodup.2.2 _ hmem _ (List.mem_map_of_mem hb) rfl
        · intro b hb
          simpa using ⟨b, hb, rfl⟩
      have hnext : pick (taken.map key) = rest.head? := by
        rw [hpick, hsplit]
      cases rest with
      | nil => simp only [collect, hnext, List.head?_nil, List.take_nil,
          List.append_nil]
      | cons b rest =>
          have happend : taken ++ b :: rest = (taken ++ [b]) ++ rest := by simp
          simp only [collect, hnext, List.head?_cons]
          rw [ih _ _ (happend ▸ hnodup) (happend ▸ hpick), List.take_succ_cons,
            List.append_assoc]
          rfl

/-- Choosing again and again runs through the list. -/
theorem collect_eq_take [DecidableEq κ] {pick : List κ → Option β}
    {key : β → κ} {l : List β} (hnodup : (l.map key).Nodup)
    (hpick : ∀ keys, pick keys = (l.filter fun b => key b ∉ keys).head?)
    (n : Nat) : collect pick key n [] = l.take n := by
  simpa using collect_append [] l hnodup hpick n

/-! ## The first of the greatest -/

section Greatest

variable {β κ : Type} [LinearOrder κ] {f : β → κ}

theorem argmax_append (l l' : List β) : (l ++ l').argmax f =
    (l'.argmax f).elim (l.argmax f) fun x => (l.argmax f).elim (some x)
      fun b => if f b < f x then some x else some b := by
  induction l' using List.reverseRecOn with
  | nil => simp
  | append_singleton l' a ih =>
      rw [← List.append_assoc, List.argmax_concat, ih, List.argmax_concat]
      cases hright : l'.argmax f with
      | none => cases hleft : l.argmax f <;> simp
      | some x =>
          cases hleft : l.argmax f with
          | none => simp only [Option.elim_some, Option.elim_none]; split <;> rfl
          | some b =>
              simp only [Option.elim_some]
              split <;> split <;> simp only [Option.elim_some] <;> grind

/-- A part of a list has the same greatest rank when it bounds every element. -/
theorem argmax_rank_eq_iff {l l' : List β} (hsub : ∀ b ∈ l', b ∈ l) :
    (l'.argmax f).map f = (l.argmax f).map f ↔
      ∀ a ∈ l, ∃ b ∈ l', f a ≤ f b := by
  constructor
  case mp =>
    intro heq a ha
    cases hl : l.argmax f with
    | none => rw [List.argmax_eq_none.mp hl] at ha; cases ha
    | some m =>
        rw [hl, Option.map_some, Option.map_eq_some_iff] at heq
        obtain ⟨b, hb, hbm⟩ := heq
        refine ⟨b, List.argmax_mem hb, ?_⟩
        rw [hbm]
        exact List.le_of_mem_argmax ha hl
  case mpr =>
    intro hbound
    cases hl : l.argmax f with
    | none =>
        have hnil : l' = [] := List.eq_nil_iff_forall_not_mem.mpr fun b hb => by
          have := hsub b hb
          rw [List.argmax_eq_none.mp hl] at this
          cases this
        rw [hnil]
        rfl
    | some m =>
        obtain ⟨b, hb, hmb⟩ := hbound m (List.argmax_mem hl)
        cases hl' : l'.argmax f with
        | none => rw [List.argmax_eq_none.mp hl'] at hb; cases hb
        | some m' =>
            have hle : f m' ≤ f m :=
              List.le_of_mem_argmax (hsub m' (List.argmax_mem hl')) hl
            have hge : f m ≤ f m' := hmb.trans (List.le_of_mem_argmax hb hl')
            rw [Option.map_some, Option.map_some, le_antisymm hle hge]

end Greatest

end OrcState.Foundation
