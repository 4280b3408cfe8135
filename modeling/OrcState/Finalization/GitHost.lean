import OrcState.Contract.Types

/-!
# The git host

The adapter runs `gh`, and what a command prints is for the host to say.  The
host is a parameter here: its states, the pull requests that are open in them,
and how its commands may end.  What is assumed of it is what the manual of `gh`
says of these commands; other parties may do with it what they like.
-/

namespace OrcState.Finalization

/-- `run`: the trimmed output of a command, or the message that is thrown. -/
abbrev Printed := Except String String

/--
A git host with states `σ`.  `lists s branch` is how
`gh pr list --head <branch> --state open --jq '.[0].url // empty'` may end,
`creates s branch` how `gh pr create --head <branch>` may and in which state it
leaves the host, and `merges s prRef` the same of `gh pr merge <prRef>`.
-/
structure GitHub (σ : Type) where
  isOpen : σ → String → String → Prop
  lists : σ → String → Printed → Prop
  creates : σ → String → Printed → σ → Prop
  merges : σ → String → Printed → σ → Prop

variable {σ : Type}

/--
The documented behaviour of the commands.  One that fails may have taken effect
before it did.
-/
structure GitHub.Documented (hub : GitHub σ) : Prop where
  lists_url : ∀ {s branch url}, hub.lists s branch (.ok url) → url ≠ "" →
    hub.isOpen s branch url
  lists_none : ∀ {s branch}, hub.lists s branch (.ok "") →
    ∀ url, ¬ hub.isOpen s branch url
  creates_url : ∀ {s branch url t}, hub.creates s branch (.ok url) t →
    hub.isOpen t branch url
  creates_one : ∀ {s branch printed t}, hub.creates s branch printed t →
    ∃ new, ∀ branch' url, hub.isOpen t branch' url →
      hub.isOpen s branch' url ∨ branch' = branch ∧ url = new
  merges_none : ∀ {s prRef printed t}, hub.merges s prRef printed t →
    ∀ branch url, hub.isOpen t branch url → hub.isOpen s branch url

/-! ## A host that keeps a list -/

structure PullRequest where
  url : String
  head : String
  deriving DecidableEq, Repr

def firstOpen (s : List PullRequest) (branch : String) : String :=
  ((s.find? fun pr => pr.head = branch ∧ pr.url ≠ "").map
    PullRequest.url).getD ""

def listHub : GitHub (List PullRequest) where
  isOpen s branch url := url ≠ "" ∧ ⟨url, branch⟩ ∈ s
  lists s branch printed := printed = .ok (firstOpen s branch)
  creates s branch printed t :=
    match printed with
    | .ok url => url ≠ "" ∧ t = s ++ [⟨url, branch⟩]
    | .error _ => t = s
  merges s prRef printed t :=
    printed = .ok "" ∧ t = s.filter fun pr => pr.url ≠ prRef

theorem listHub_documented : listHub.Documented where
  lists_url {s branch url} h hsome := by
    obtain rfl : url = firstOpen s branch := Except.ok.inj h
    unfold firstOpen at hsome ⊢
    cases hfind : s.find? fun pr => pr.head = branch ∧ pr.url ≠ "" with
    | none =>
        rw [hfind] at hsome
        exact absurd rfl hsome
    | some pr =>
        have hfound := List.find?_some hfind
        simp only [decide_eq_true_eq] at hfound
        obtain ⟨rfl, hurl⟩ := hfound
        exact ⟨hurl, List.mem_of_find?_eq_some hfind⟩
  lists_none {s branch} h url hopen := by
    have hempty : "" = firstOpen s branch := Except.ok.inj h
    unfold firstOpen at hempty
    cases hfind : s.find? fun pr => pr.head = branch ∧ pr.url ≠ "" with
    | none =>
        have hno := List.find?_eq_none.mp hfind ⟨url, branch⟩ hopen.2
        simp [hopen.1] at hno
    | some pr =>
        rw [hfind] at hempty
        have hfound := List.find?_some hfind
        simp only [decide_eq_true_eq] at hfound
        exact hfound.2 hempty.symm
  creates_url {s branch url t} h := by
    obtain ⟨hsome, rfl⟩ := h
    exact ⟨hsome, List.mem_append_right s (List.mem_singleton.mpr rfl)⟩
  creates_one {s branch printed t} h := by
    cases printed with
    | error message =>
        cases h
        exact ⟨"", fun _ _ => .inl⟩
    | ok url =>
        obtain ⟨-, rfl⟩ := h
        refine ⟨url, fun branch' url' hopen => ?_⟩
        rcases List.mem_append.mp hopen.2 with hold | hnew
        · exact .inl ⟨hopen.1, hold⟩
        · cases List.mem_singleton.mp hnew
          exact .inr ⟨rfl, rfl⟩
  merges_none {s prRef printed t} h branch url hopen := by
    obtain ⟨-, rfl⟩ := h
    exact ⟨hopen.1, (List.mem_filter.mp hopen.2).1⟩

end OrcState.Finalization
