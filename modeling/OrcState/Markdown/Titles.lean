import OrcState.Markdown.TaskMarkdown
import Mathlib.Data.List.TakeWhile

/-!
# Titles and references of a spec

A reference that the pattern accepts is its feature, a slash and its slug, and
trimming takes nothing from the feature.  The title that a spec falls back on is
empty only where the store finds no title in the body either, so a spec never gets
a title from its body that it does not state.
-/

namespace OrcState.Markdown

open OrcState.Contract

/-! ## References -/

theorem idChar_cases {c : Char} (h : idChar c = true) :
    c.toNat = 45 ∨ (48 ≤ c.toNat ∧ c.toNat ≤ 57) ∨
      (97 ≤ c.toNat ∧ c.toNat ≤ 122) := by
  simp only [idChar, alnum, Bool.or_eq_true, Bool.and_eq_true, decide_eq_true_eq,
    Char.le_def, UInt32.le_iff_toNat_le] at h
  rcases h with (⟨hlow, hhigh⟩ | ⟨hlow, hhigh⟩) | rfl
  · exact .inr (.inr ⟨hlow, hhigh⟩)
  · exact .inr (.inl ⟨hlow, hhigh⟩)
  · exact .inl rfl

theorem jsSpace_cases {c : Char} (h : jsSpace c = true) :
    c.toNat ≤ 32 ∨ 160 ≤ c.toNat := by
  simp only [jsSpace, Bool.or_eq_true, Bool.and_eq_true, decide_eq_true_eq,
    Char.le_def, UInt32.le_iff_toNat_le, List.contains_iff_mem, List.mem_cons,
    List.not_mem_nil, or_false] at h
  rcases h with ((rfl | ⟨-, hhigh⟩) | hmem) | ⟨hlow, -⟩
  · exact .inl (Nat.le_refl 32)
  · have hle : c.toNat ≤ 13 := hhigh
    omega
  · omega
  · omega

theorem not_jsSpace_of_idChar {c : Char} (h : idChar c = true) :
    jsSpace c = false := by
  by_contra hspace
  rw [Bool.not_eq_false] at hspace
  have hid := idChar_cases h
  have hbounds := jsSpace_cases hspace
  omega

theorem ne_slash_of_idChar {c : Char} (h : idChar c = true) : c ≠ '/' := by
  rintro rfl
  cases h

theorem taskRefRe_split {ref : TaskRef} (h : taskRefRe ref = true) :
    ∃ feature slug, ref.toList = feature ++ '/' :: slug ∧ feature ≠ [] ∧
      slug ≠ [] ∧ (∀ c ∈ feature, idChar c = true) ∧
      ∀ c ∈ slug, idChar c = true := by
  unfold taskRefRe at h
  split at h
  · rename_i slug hdrop
    simp only [Bool.and_eq_true, decide_eq_true_eq, List.all_eq_true] at h
    refine ⟨ref.toList.takeWhile idChar, slug, ?_, h.1.1, h.1.2, ?_, h.2⟩
    · rw [← hdrop, List.takeWhile_append_dropWhile]
    · exact List.all_eq_true.mp List.all_takeWhile
  · cases h

theorem jsTrim_of_no_space {text : List Char}
    (h : ∀ c ∈ text, jsSpace c = false) : jsTrim text = String.ofList text := by
  have hkeep : ∀ l : List Char, (∀ c ∈ l, jsSpace c = false) →
      l.dropWhile jsSpace = l := by
    intro l hl
    cases l with
    | nil => rfl
    | cons c rest =>
        rw [List.dropWhile_cons_of_neg]
        rw [hl c List.mem_cons_self]
        exact Bool.false_ne_true
  have hreverse : ∀ c ∈ text.reverse, jsSpace c = false :=
    fun c hc => h c (List.mem_reverse.mp hc)
  rw [jsTrim, hkeep text h, hkeep _ hreverse, List.reverse_reverse]

theorem featureOf_of_split {ref : TaskRef} {feature slug : List Char}
    (href : ref.toList = feature ++ '/' :: slug)
    (hfeature : ∀ c ∈ feature, idChar c = true) :
    featureOf ref = String.ofList feature ∧ slugOf ref = String.ofList slug := by
  have hslash : ∀ c ∈ feature, decide (c ≠ '/') = true := fun c hc => by
    simpa using ne_slash_of_idChar (hfeature c hc)
  constructor
  · rw [featureOf, href, List.takeWhile_append_of_pos hslash,
      List.takeWhile_cons_of_neg, List.append_nil]
    simp
  · rw [slugOf, href, List.dropWhile_append_of_pos hslash,
      List.dropWhile_cons_of_neg]
    simp

theorem ofList_eq_empty {text : List Char} (h : String.ofList text = "") :
    text = [] := by
  rw [← String.toList_ofList (l := text), h]
  rfl

theorem jsTrim_featureOf {ref : TaskRef} (h : taskRefRe ref = true) :
    jsTrim (featureOf ref).toList = featureOf ref ∧ featureOf ref ≠ "" := by
  obtain ⟨feature, slug, href, hne, -, hfeature, -⟩ := taskRefRe_split h
  rw [(featureOf_of_split href hfeature).1, String.toList_ofList]
  exact ⟨jsTrim_of_no_space fun c hc =>
    not_jsSpace_of_idChar (hfeature c hc), fun hempty =>
    hne (ofList_eq_empty hempty)⟩

theorem featureOf_slugOf {ref : TaskRef} (h : taskRefRe ref = true) :
    featureOf ref ++ "/" ++ slugOf ref = ref ∧ slugOf ref ≠ "" := by
  obtain ⟨feature, slug, href, -, hne, hfeature, -⟩ := taskRefRe_split h
  obtain ⟨hleft, hright⟩ := featureOf_of_split href hfeature
  rw [hleft, hright]
  constructor
  · apply String.toList_injective
    simp [href]
  · intro hempty
    exact hne (ofList_eq_empty hempty)

/-! ## Titles -/

theorem firstHeading_of_append {lineStart : Bool} {front back : List Char}
    (h : firstHeading lineStart (front ++ '\n' :: back) = none) :
    firstHeading true back = none := by
  induction front generalizing lineStart with
  | nil => exact (Option.or_eq_none_iff.mp h).2
  | cons c rest ih => exact ih (Option.or_eq_none_iff.mp h).2

theorem mem_afterNewlines {text rest : List Char}
    (h : rest ∈ afterNewlines text) : ∃ front, text = front ++ '\n' :: rest := by
  induction text with
  | nil => cases h
  | cons c tail ih =>
      unfold afterNewlines at h
      split at h
      · rcases List.mem_append.mp h with hmem | hmem
        · obtain ⟨front, rfl⟩ := ih hmem
          exact ⟨c :: front, rfl⟩
        · split at hmem
          · rename_i hc
            cases List.mem_singleton.mp hmem
            exact ⟨[], by rw [hc]; rfl⟩
          · cases hmem
      · cases h

def Behind (text rest : List Char) : Prop :=
  rest = [] ∨ ∃ front, text = front ++ '\n' :: rest

theorem Behind.append {text rest : List Char} (h : Behind text rest)
    (front : List Char) : Behind (front ++ text) rest := by
  rcases h with rfl | ⟨front', rfl⟩
  · exact .inl rfl
  · exact .inr ⟨front ++ front', by rw [List.append_assoc]⟩

theorem behind_afterFence {text rest : List Char}
    (h : afterFence text = some rest) : Behind text rest := by
  unfold afterFence at h
  split at h
  · rename_i tail
    split at h
    · cases h
      exact .inl rfl
    · obtain ⟨front, rfl⟩ := mem_afterNewlines (List.mem_of_head? h)
      exact .inr ⟨'\n' :: '-' :: '-' :: '-' :: front, rfl⟩
  · cases h

theorem behind_afterFrontmatter {text rest : List Char}
    (h : afterFrontmatter text = some rest) : Behind text rest := by
  induction text with
  | nil => cases h
  | cons c tail ih =>
      rcases Option.or_eq_some_iff.mp h with hfence | ⟨-, hlater⟩
      · exact behind_afterFence hfence
      · exact (ih hlater).append [c]

theorem behind_withoutFrontmatter (text : List Char) :
    withoutFrontmatter text = text ∨ Behind text (withoutFrontmatter text) := by
  unfold withoutFrontmatter
  split
  · rename_i tail
    cases hfound : (afterNewlines tail).findSome? afterFrontmatter with
    | none => exact .inl rfl
    | some rest =>
        obtain ⟨opened, hopened, hrest⟩ := List.exists_of_findSome?_eq_some hfound
        obtain ⟨front, rfl⟩ := mem_afterNewlines hopened
        have hbehind := (behind_afterFrontmatter hrest).append
          (('-' :: '-' :: '-' :: front) ++ ['\n'])
        rw [List.append_assoc] at hbehind
        exact .inr hbehind
  · exact .inl rfl

theorem parseBodyTitle_eq_none {body : String}
    (h : firstHeading true body.toList = none) : parseBodyTitle body = none := by
  have hnone : firstHeading true (withoutFrontmatter body.toList) = none := by
    rcases behind_withoutFrontmatter body.toList with hsame | hempty | ⟨front, htext⟩
    · rw [hsame]
      exact h
    · rw [hempty]
      rfl
    · rw [htext] at h
      exact firstHeading_of_append h
  rw [parseBodyTitle, hnone]
  rfl

theorem jsSpace_of_lineTerminator {c : Char}
    (h : Contract.lineTerminator c = true) : jsSpace c = true := by
  simp only [Contract.lineTerminator, Bool.or_eq_true, decide_eq_true_eq] at h
  rcases h with ((rfl | rfl) | h) | h
  · rfl
  · rfl
  · simp [jsSpace, h]
  · simp [jsSpace, h]

theorem head_of_dropWhile {c : Char} {text rest : List Char}
    (h : text.dropWhile jsSpace = c :: rest) : jsSpace c = false := by
  have hhead := List.head?_dropWhile_not jsSpace text
  rw [h] at hhead
  simpa using hhead

theorem takeLine {c : Char} {rest : List Char} (h : jsSpace c = false) :
    ((c :: rest).takeWhile fun c => !Contract.lineTerminator c) =
      c :: rest.takeWhile fun c => !Contract.lineTerminator c := by
  refine List.takeWhile_cons_of_pos ?_
  cases hterminator : Contract.lineTerminator c with
  | false => rfl
  | true =>
      rw [jsSpace_of_lineTerminator hterminator] at h
      cases h

theorem headingAt_ne_nil {text title : List Char}
    (h : headingAt text = some title) : title ≠ [] := by
  unfold headingAt at h
  split at h
  · rename_i c rest
    split at h
    · cases h
    · split at h
      · obtain ⟨found, -, rfl⟩ := Option.map_eq_some_iff.mp h
        exact List.cons_ne_nil found []
      · rename_i hne
        cases hdrop : rest.dropWhile jsSpace with
        | nil => exact absurd hdrop hne
        | cons d tail =>
            rw [hdrop, takeLine (head_of_dropWhile hdrop)] at h
            cases h
            unfold headingText
            split <;> exact List.cons_ne_nil _ _
  · cases h

theorem firstHeading_ne_nil {lineStart : Bool} {text title : List Char}
    (h : firstHeading lineStart text = some title) : title ≠ [] := by
  induction text generalizing lineStart with
  | nil => cases h
  | cons c rest ih =>
      rcases Option.or_eq_some_iff.mp h with hhere | ⟨-, hlater⟩
      · split at hhere
        · exact headingAt_ne_nil hhere
        · cases hhere
      · exact ih hlater

theorem restOfLine_ne_nil {text title : List Char}
    (h : restOfLine text = some title) : title ≠ [] := by
  obtain ⟨rest, hspaces, h⟩ := Option.bind_eq_some_iff.mp h
  split at h
  · obtain ⟨found, -, rfl⟩ := Option.map_eq_some_iff.mp h
    exact List.cons_ne_nil found []
  · rename_i hne
    have hrest : ∃ tail : List Char, tail.dropWhile jsSpace = rest := by
      unfold afterSpaces at hspaces
      split at hspaces
      · cases hspaces
      · rename_i c tail
        split at hspaces
        · exact ⟨tail, Option.some.inj hspaces⟩
        · cases hspaces
    obtain ⟨tail, rfl⟩ := hrest
    cases hdrop : tail.dropWhile jsSpace with
    | nil => exact absurd hdrop hne
    | cons d more =>
        have hd := head_of_dropWhile hdrop
        rw [hdrop, takeLine hd, List.reverse_cons] at h
        cases h
        intro hnil
        rw [List.reverse_eq_nil_iff, List.dropWhile_eq_nil_iff] at hnil
        have hspace := hnil d (List.mem_append_right _ List.mem_cons_self)
        rw [hd] at hspace
        cases hspace

theorem legacyHeadingAt_ne_nil {text title : List Char}
    (h : legacyHeadingAt text = some title) : title ≠ [] := by
  unfold legacyHeadingAt at h
  split at h
  · split at h
    · split at h
      · split at h
        · exact restOfLine_ne_nil h
        · cases h
      · cases h
    · cases h
  · cases h

theorem firstLine_ne_nil {found : List Char → Option (List Char)}
    (hfound : ∀ text title, found text = some title → title ≠ [])
    {lineStart : Bool} {text title : List Char}
    (h : firstLine found lineStart text = some title) : title ≠ [] := by
  induction text generalizing lineStart with
  | nil => cases h
  | cons c rest ih =>
      rcases Option.or_eq_some_iff.mp h with hhere | ⟨-, hlater⟩
      · split at hhere
        · exact hfound _ _ hhere
        · cases hhere
      · exact ih hlater

theorem parseBodyTitle_of_titleFromBody {body : String} {ref : TaskRef}
    (h : titleFromBody body ref = "") : parseBodyTitle body = none := by
  unfold titleFromBody at h
  split at h
  · rename_i hlegacy
    exact absurd (ofList_eq_empty h)
      (firstLine_ne_nil (fun _ _ => legacyHeadingAt_ne_nil) hlegacy)
  · split at h
    · rename_i hheading
      exact absurd (ofList_eq_empty h) (firstHeading_ne_nil hheading)
    · rename_i hnone
      exact parseBodyTitle_eq_none hnone

end OrcState.Markdown
