import Mathlib.Data.List.Infix
import OrcState.Foundation.JsonString

/-!
# Paths

The functions of the language on paths with `/` between their names.  A place is
what a path leads to: the names on the way from the root, with nothing left to
skip or to climb.  Every text is read as the place it leads to, and the functions
that write a text write one that leads to the same place.
-/

namespace OrcState.Foundation.Paths

open OrcState.Foundation.Json

abbrev Name : Type := Units

abbrev Place : Type := List Name

def slash : Nat := 0x2F

def dot : Nat := 0x2E

def dots : Name := [dot, dot]

def Plain (name : Name) : Prop :=
  name ≠ [] ∧ name ≠ [dot] ∧ name ≠ dots ∧ slash ∉ name

instance (name : Name) : Decidable (Plain name) :=
  inferInstanceAs (Decidable (_ ∧ _))

structure Directory where
  place : Place
  plain : ∀ name ∈ place, Plain name

/-! ## Places -/

def enter (place : Place) (segment : Name) : Place :=
  if segment = [] ∨ segment = [dot] then place
  else if segment = dots then place.dropLast
  else place ++ [segment]

def walk (place : Place) (path : Units) : Place :=
  (path.splitOn slash).foldl enter place

def isAbsolute (path : Units) : Bool := path.head? = some slash

def locate (here : Directory) (path : Units) : Place :=
  walk (if isAbsolute path then [] else here.place) path

def resolve (here : Directory) (path : Units) : Units :=
  slash :: [slash].intercalate (locate here path)

/-! ## Normal forms -/

/-- As `enter`, for a path that may lead above the place it starts at. -/
def climb (taken : List Name) (segment : Name) : List Name :=
  if segment = [] ∨ segment = [dot] then taken
  else if segment = dots then
    if taken = [] ∨ taken.getLast? = some dots then taken ++ [dots]
    else taken.dropLast
  else taken ++ [segment]

def normalize (path : Units) : Units :=
  let trailing := if path.getLast? = some slash then [slash] else []
  if path = [] then [dot]
  else if isAbsolute path then
    match walk [] path with
    | [] => [slash]
    | names => slash :: [slash].intercalate names ++ trailing
  else
    match (path.splitOn slash).foldl climb [] with
    | [] => dot :: trailing
    | names => [slash].intercalate names ++ trailing

def join (front back : Units) : Units :=
  if front = [] then normalize back
  else if back = [] then normalize front
  else normalize (front ++ slash :: back)

/-! ## From one place to another -/

def between : Place → Place → List Name
  | a :: front, b :: back =>
      if a = b then between front back
      else (a :: front).map (fun _ => dots) ++ b :: back
  | front, back => front.map (fun _ => dots) ++ back

def relative (here : Directory) (front back : Units) : Units :=
  [slash].intercalate (between (locate here front) (locate here back))

/-! ## Plain names -/

@[simp]
theorem enter_nil (place : Place) : enter place [] = place := by
  simp [enter]

@[simp]
theorem enter_dots (place : Place) : enter place dots = place.dropLast := by
  simp [enter, dots]

theorem enter_plain (place : Place) {name : Name} (h : Plain name) :
    enter place name = place ++ [name] := by
  simp [enter, h.1, h.2.1, h.2.2.1]

theorem foldl_enter_plain (place : Place) {names : List Name}
    (h : ∀ name ∈ names, Plain name) : names.foldl enter place = place ++ names := by
  induction names generalizing place with
  | nil => simp
  | cons name names ih =>
      rw [List.foldl_cons, enter_plain place (h name (by simp)),
        ih _ fun other hmem => h other (by simp [hmem])]
      simp

theorem slash_not_mem_segment {path segment : Units}
    (h : segment ∈ path.splitOn slash) : slash ∉ segment := by
  induction path generalizing segment with
  | nil =>
      rw [List.splitOn_nil, List.mem_singleton] at h
      simp [h]
  | cons u path ih =>
      rw [List.splitOn_cons_eq_if_modifyHead] at h
      split at h
      · rcases List.mem_cons.mp h with rfl | hmem
        · simp
        · exact ih hmem
      · rename_i hne
        cases hsegments : path.splitOn slash with
        | nil => exact absurd hsegments (List.splitOn_ne_nil _ _)
        | cons first rest =>
            rw [hsegments, List.modifyHead_cons] at h
            rcases List.mem_cons.mp h with rfl | hmem
            · have hfirst : slash ∉ first := ih (by simp [hsegments])
              have hu : slash ≠ u := fun heq => hne (by simp [heq])
              simp [hu, hfirst]
            · exact ih (by simp [hsegments, hmem])

theorem plain_enter {place : Place} (h : ∀ name ∈ place, Plain name)
    {segment : Name} (hs : slash ∉ segment) :
    ∀ name ∈ enter place segment, Plain name := by
  intro name hmem
  unfold enter at hmem
  split at hmem
  · exact h name hmem
  · rename_i hskip
    split at hmem
    · exact h name (List.mem_of_mem_dropLast hmem)
    · rename_i hdots
      rcases List.mem_append.mp hmem with hin | hnew
      · exact h name hin
      · rw [List.mem_singleton] at hnew
        subst hnew
        exact ⟨fun heq => hskip (.inl heq), fun heq => hskip (.inr heq), hdots, hs⟩

theorem plain_walk {place : Place} (h : ∀ name ∈ place, Plain name)
    (path : Units) : ∀ name ∈ walk place path, Plain name := by
  have hsegments : ∀ segment ∈ path.splitOn slash, slash ∉ segment :=
    fun _ => slash_not_mem_segment
  unfold walk
  generalize path.splitOn slash = segments at hsegments
  induction segments generalizing place with
  | nil => exact h
  | cons segment segments ih =>
      exact ih (plain_enter h (hsegments segment (by simp)))
        fun other hmem => hsegments other (by simp [hmem])

theorem plain_locate (here : Directory) (path : Units) :
    ∀ name ∈ locate here path, Plain name := by
  unfold locate
  split
  · exact plain_walk (by simp) path
  · exact plain_walk here.plain path

def Directory.change (here : Directory) (path : Units) : Directory where
  place := locate here path
  plain := plain_locate here path

theorem locate_of_isAbsolute {path : Units} (h : isAbsolute path = true)
    (here there : Directory) : locate here path = locate there path := by
  simp [locate, h]

/-! ## Reading what was written -/

theorem walk_append (place : Place) (front back : Units) :
    walk place (front ++ slash :: back) = walk (walk place front) back := by
  simp [walk, List.splitOn_append_cons_self]

@[simp]
theorem walk_nil (place : Place) : walk place [] = place := by
  simp [walk]

@[simp]
theorem walk_slash (place : Place) (path : Units) :
    walk place (slash :: path) = walk place path := by
  have h := walk_append place [] path
  rwa [List.nil_append, walk_nil] at h

theorem walk_trailing (place : Place) {path trailing : Units}
    (h : trailing = [slash] ∨ trailing = []) :
    walk place (path ++ trailing) = walk place path := by
  rcases h with rfl | rfl
  · rw [walk_append, walk_nil]
  · rw [List.append_nil]

theorem walk_intercalate (place : Place) {names : List Name}
    (h : ∀ name ∈ names, slash ∉ name) :
    walk place ([slash].intercalate names) = names.foldl enter place := by
  cases names with
  | nil => simp [walk]
  | cons name names =>
      rw [walk, List.splitOn_intercalate slash h (by simp)]

theorem walk_names (place : Place) {names : List Name}
    (h : ∀ name ∈ names, Plain name) :
    walk place ([slash].intercalate names) = place ++ names := by
  rw [walk_intercalate place fun name hmem => (h name hmem).2.2.2,
    foldl_enter_plain place h]

theorem locate_absolute (here : Directory) (path : Units) :
    locate here (slash :: path) = walk [] path := by
  rw [locate, if_pos (by simp [isAbsolute]), walk_slash]

@[simp]
theorem locate_resolve (here there : Directory) (path : Units) :
    locate there (resolve here path) = locate here path := by
  rw [resolve, locate_absolute, walk_names [] (plain_locate here path),
    List.nil_append]

/-! ## Normal forms lead to the same place -/

def Climbed (taken : List Name) : Prop :=
  ∀ name ∈ taken, Plain name ∨ name = dots

theorem Climbed.climb {taken : List Name} (h : Climbed taken) {segment : Name}
    (hs : slash ∉ segment) : Climbed (climb taken segment) := by
  unfold Paths.climb
  intro name hmem
  split at hmem
  · exact h name hmem
  · rename_i hskip
    split at hmem
    · split at hmem
      · rcases List.mem_append.mp hmem with hin | hnew
        · exact h name hin
        · exact .inr (List.mem_singleton.mp hnew)
      · exact h name (List.mem_of_mem_dropLast hmem)
    · rename_i hdots
      rcases List.mem_append.mp hmem with hin | hnew
      · exact h name hin
      · rw [List.mem_singleton] at hnew
        subst hnew
        exact .inl
          ⟨fun heq => hskip (.inl heq), fun heq => hskip (.inr heq), hdots, hs⟩

theorem foldl_enter_climb (place : Place) {taken : List Name} (h : Climbed taken)
    (segment : Name) :
    (climb taken segment).foldl enter place =
      enter (taken.foldl enter place) segment := by
  unfold climb
  split
  · rename_i hskip
    simp [enter, hskip]
  · rename_i hskip
    split
    · rename_i hdots
      subst hdots
      split
      · simp
      · rename_i hlast
        rcases List.eq_nil_or_concat taken with rfl | ⟨front, name, rfl⟩
        · simp at hlast
        · have hplain : Plain name := by
            rcases h name (by simp) with hplain | rfl
            · exact hplain
            · simp at hlast
          simp [enter_plain _ hplain]
    · simp

theorem climbed_foldl (place : Place) {segments taken : List Name}
    (h : Climbed taken) (hs : ∀ segment ∈ segments, slash ∉ segment) :
    Climbed (segments.foldl climb taken) ∧
      (segments.foldl climb taken).foldl enter place =
        segments.foldl enter (taken.foldl enter place) := by
  induction segments generalizing taken with
  | nil => exact ⟨h, rfl⟩
  | cons segment segments ih =>
      have hnext := h.climb (hs segment (by simp))
      have hrest := ih hnext fun other hmem => hs other (by simp [hmem])
      rw [foldl_enter_climb place h segment] at hrest
      exact hrest

theorem slash_not_mem_of_climbed {taken : List Name} (h : Climbed taken) :
    ∀ name ∈ taken, slash ∉ name := by
  intro name hmem
  rcases h name hmem with hplain | rfl
  · exact hplain.2.2.2
  · decide

theorem head?_intercalate {name : Name} {names : List Name} (h : name ≠ []) :
    ([slash].intercalate (name :: names)).head? = name.head? := by
  cases name with
  | nil => exact absurd rfl h
  | cons u name =>
      cases names with
      | nil => simp
      | cons next names => simp [List.intercalate]

theorem locate_relative (here : Directory) {path : Units}
    (h : isAbsolute path = false) : locate here path = walk here.place path := by
  simp [locate, h]

theorem Climbed.not_isAbsolute {name : Name} {names : List Name}
    (h : Climbed (name :: names)) (trailing : Units) :
    isAbsolute ([slash].intercalate (name :: names) ++ trailing) = false := by
  have hne : name ≠ [] := by
    rcases h name (by simp) with hplain | rfl
    · exact hplain.1
    · simp [dots]
  have hslash : name.head? ≠ some slash := fun hhead =>
    slash_not_mem_of_climbed h name (by simp) (List.mem_of_mem_head? hhead)
  rw [isAbsolute, List.head?_append, head?_intercalate hne]
  cases hhead : name.head? with
  | none => exact absurd (List.head?_eq_none_iff.mp hhead) hne
  | some u =>
      rw [hhead] at hslash
      simpa using hslash

theorem locate_dot (here : Directory) : locate here [dot] = here.place := by
  simp [locate, isAbsolute, walk, dot, slash, enter, List.splitOn_eq_singleton]

/-- Normalising a path does not change where it leads. -/
theorem locate_normalize (here : Directory) (path : Units) :
    locate here (normalize path) = locate here path := by
  have htrailing : (if path.getLast? = some slash then [slash] else []) = [slash] ∨
      (if path.getLast? = some slash then [slash] else []) = [] := by
    split <;> simp
  unfold normalize
  generalize (if path.getLast? = some slash then [slash] else []) = trailing
    at htrailing
  by_cases hne : path = []
  · subst hne
    rw [if_pos rfl, locate_dot]
    simp [locate, isAbsolute]
  rw [if_neg hne]
  cases habsolute : isAbsolute path with
  | true =>
      have hplace : locate here path = walk [] path := by simp [locate, habsolute]
      have hplain : ∀ name ∈ walk [] path, Plain name := plain_walk (by simp) path
      rw [if_pos rfl, hplace]
      cases hwalk : walk [] path with
      | nil => simp [locate_absolute]
      | cons name names =>
          rw [hwalk] at hplain
          simp only [List.cons_append]
          rw [locate_absolute, walk_trailing [] htrailing, walk_names [] hplain,
            List.nil_append]
  | false =>
      have hempty : Climbed [] := by simp [Climbed]
      obtain ⟨hclimbed, hplace⟩ := climbed_foldl here.place hempty
        fun segment (hmem : segment ∈ path.splitOn slash) => slash_not_mem_segment hmem
      rw [List.foldl_nil] at hplace
      rw [if_neg (by simp), locate_relative here habsolute, walk, ← hplace]
      cases hnames : (path.splitOn slash).foldl climb [] with
      | nil =>
          have hdot : isAbsolute ([dot] ++ trailing) = false := by
            simp [isAbsolute, dot, slash]
          have hstays := locate_dot here
          rw [locate_relative here (by simp [isAbsolute, dot, slash])] at hstays
          change locate here ([dot] ++ trailing) = _
          rw [locate_relative here hdot, walk_trailing _ htrailing, hstays,
            List.foldl_nil]
      | cons name names =>
          rw [hnames] at hclimbed
          simp only
          rw [locate_relative here (hclimbed.not_isAbsolute trailing),
            walk_trailing _ htrailing,
            walk_intercalate _ (slash_not_mem_of_climbed hclimbed)]

theorem join_absolute {front : Units} (h : isAbsolute front = true) (back : Units) :
    isAbsolute (join front back) = true := by
  have hnormal : ∀ path, isAbsolute path = true →
      isAbsolute (normalize path) = true := by
    intro path hpath
    have hne : path ≠ [] := by
      rintro rfl
      simp [isAbsolute] at hpath
    unfold normalize
    simp only [if_neg hne, hpath, if_true]
    split <;> simp [isAbsolute]
  unfold join
  split
  · rename_i hnil
    simp [hnil, isAbsolute] at h
  · split
    · exact hnormal front h
    · apply hnormal
      cases front with
      | nil => simp [isAbsolute] at h
      | cons u front => simpa [isAbsolute] using h

theorem locate_join (here : Directory) {front : Units} (hne : front ≠ [])
    {name : Name} (hplain : Plain name) :
    locate here (join front name) = locate here front ++ [name] := by
  have habsolute : isAbsolute (front ++ slash :: name) = isAbsolute front := by
    cases front with
    | nil => exact absurd rfl hne
    | cons u front => simp [isAbsolute]
  rw [join, if_neg hne, if_neg hplain.1, locate_normalize]
  simp only [locate, habsolute]
  rw [walk_append]
  generalize walk (if isAbsolute front then [] else here.place) front = place
  have hone : ∀ other ∈ [name], Plain other := by simpa using hplain
  simpa using walk_names place hone

/-! ## What lies within a directory -/

/-- Unless a place is below the other, the way to it climbs at first. -/
theorem between_climbs {front back : Place} (h : ¬front <+: back) :
    ∃ names, between front back = dots :: names := by
  induction front generalizing back with
  | nil => exact absurd List.nil_prefix h
  | cons name front ih =>
      cases back with
      | nil => exact ⟨front.map fun _ => dots, by simp [between]⟩
      | cons other back =>
          by_cases heq : name = other
          · subst heq
            rw [between, if_pos rfl]
            exact ih fun hbelow => h (List.cons_prefix_cons.mpr ⟨rfl, hbelow⟩)
          · exact ⟨front.map (fun _ => dots) ++ other :: back, by
              simp [between, heq]⟩

theorem relative_climbs {here : Directory} {front back : Units}
    (h : ¬locate here front <+: locate here back) :
    dots <+: relative here front back := by
  obtain ⟨names, hnames⟩ := between_climbs h
  rw [relative, hnames]
  cases names with
  | nil => simp
  | cons name names => simp [List.intercalate, dots]

end OrcState.Foundation.Paths
