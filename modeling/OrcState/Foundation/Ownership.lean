import Mathlib.Logic.Basic
import Mathlib.Data.Option.Basic
import Mathlib.Data.List.Basic
import Mathlib.Logic.Function.Basic

/-!
# Ownership of one exclusively created file

The protocol behind a lock file, with nothing of its format.  A path either
holds a file, of which only the creator matters, or nothing.  A party counts on
the path from the moment its exclusive create succeeded until it gives the file
up.  Exclusive creation alone keeps every claimant's file in place, whatever
others remove, as long as no removal takes a file somebody still counts on; and
then there is at most one claimant.
-/

namespace OrcState.Foundation

universe u

structure Ownership (π : Type u) where
  creator : Option π
  counts : π → Prop

namespace Ownership

variable {π : Type u}

/-- Everyone who counts on the path finds the own file there. -/
def InPlace (v : Ownership π) : Prop :=
  ∀ p, v.counts p → v.creator = some p

inductive Step (v w : Ownership π) : Prop
  /-- The exclusive create of `p` finds the path free. -/
  | create (p : π) (free : v.creator = none) (file : w.creator = some p)
      (counts : ∀ q, w.counts q → q = p ∨ v.counts q)
  /-- The file goes, and nobody counts on it any more. -/
  | remove (file : w.creator = none)
      (counts : ∀ q, w.counts q → v.counts q ∧ v.creator ≠ some q)
  /-- The path stays as it is and nobody begins to count on it. -/
  | keep (file : w.creator = v.creator)
      (counts : ∀ q, w.counts q → v.counts q)

theorem InPlace.step {v w : Ownership π} (hv : v.InPlace) (h : Step v w) :
    w.InPlace := by
  intro q hq
  cases h with
  | create p free file counts =>
      rcases counts q hq with rfl | hold
      · exact file
      · have := hv q hold
        rw [free] at this
        cases this
  | remove file counts =>
      obtain ⟨hold, hne⟩ := counts q hq
      exact absurd (hv q hold) hne
  | keep file counts =>
      rw [file]
      exact hv q (counts q hq)

/-- Two claimants of one path are the same party. -/
theorem InPlace.unique {v : Ownership π} (hv : v.InPlace) {p q : π}
    (hp : v.counts p) (hq : v.counts q) : p = q := by
  have h := hv p hp
  rw [hv q hq] at h
  exact (Option.some.inj h).symm

theorem InPlace.of_forall_not {v : Ownership π} (h : ∀ p, ¬ v.counts p) :
    v.InPlace :=
  fun p hp => absurd hp (h p)

theorem Step.release {v w : Ownership π} (hv : v.InPlace) {p : π}
    (hp : v.counts p) (file : w.creator = none)
    (counts : ∀ q, w.counts q → v.counts q ∧ q ≠ p) : Step v w := by
  refine .remove file fun q hq => ⟨(counts q hq).1, fun h => ?_⟩
  exact (counts q hq).2 (hv.unique (counts q hq).1 hp)

end Ownership

/-! ## Processes around the file -/

structure CreatedFile (κ : Type) where
  creator : Nat
  mtime : Int
  content : κ
  deriving DecidableEq, Repr

/--
Processes that run programs with places `ρ` around one path.  A process is born
once and never again after it died; `born` remembers all of them.
-/
structure Host (ρ κ : Type) where
  file : Option (CreatedFile κ)
  pcs : Nat → ρ
  live : List Nat
  born : List Nat

namespace Host

variable {ρ κ : Type}

def setPc (s : Host ρ κ) (p : Nat) (pc : ρ) : Host ρ κ :=
  { s with pcs := Function.update s.pcs p pc }

def spawn (s : Host ρ κ) (pid : Nat → Nat) (start : ρ) (p : Nat) :
    Option (Host ρ κ) :=
  if p ∈ s.born ∨ ∃ q ∈ s.live, pid q = pid p then none
  else some (({ s with live := p :: s.live, born := p :: s.born } :
    Host ρ κ).setPc p start)

def crash (s : Host ρ κ) (p : Nat) : Host ρ κ :=
  { s with live := s.live.filter fun q => q ≠ p }

def pidInUse (s : Host ρ κ) (pid : Nat → Nat) (n : Nat) : Bool :=
  s.live.any fun q => pid q = n

theorem pidInUse_of_live {s : Host ρ κ} {pid : Nat → Nat} {p : Nat}
    (h : p ∈ s.live) : s.pidInUse pid (pid p) = true := by
  simp only [pidInUse, List.any_eq_true, decide_eq_true_eq]
  exact ⟨p, h, rfl⟩

def ownership (owns : ρ → Bool) (s : Host ρ κ) : Ownership Nat where
  creator := s.file.map CreatedFile.creator
  counts p := p ∈ s.live ∧ owns (s.pcs p) = true

def Dead (s : Host ρ κ) (p : Nat) : Prop := p ∈ s.born ∧ p ∉ s.live

structure Grounded (s : Host ρ κ) : Prop where
  live : ∀ p ∈ s.live, p ∈ s.born
  file : ∀ f, s.file = some f → f.creator ∈ s.born

/-- What a step keeps of the population: births last, deaths last. -/
structure Ages (s t : Host ρ κ) : Prop where
  born : ∀ p ∈ s.born, p ∈ t.born
  live : ∀ p ∈ t.live, p ∈ s.live ∨ p ∉ s.born

theorem Dead.ages {s t : Host ρ κ} {p : Nat} (h : Dead s p)
    (ht : Ages s t) : Dead t p := by
  refine ⟨ht.born p h.1, fun hlive => ?_⟩
  rcases ht.live p hlive with hl | hb
  · exact h.2 hl
  · exact hb h.1

theorem spawn_eq_some {s t : Host ρ κ} {pid : Nat → Nat} {start : ρ}
    {p : Nat} (h : s.spawn pid start p = some t) :
    p ∉ s.born ∧
      t = ({ s with live := p :: s.live, born := p :: s.born } :
        Host ρ κ).setPc p start := by
  unfold spawn at h
  split at h
  · cases h
  · rename_i hfresh
    cases h
    exact ⟨fun hb => hfresh (.inl hb), rfl⟩

section Places

variable {owns : ρ → Bool} {s : Host ρ κ} {p : Nat} {pc : ρ}

theorem counts_setPc {q : Nat}
    (h : (ownership owns (s.setPc p pc)).counts q) :
    (q = p ∧ owns pc = true) ∨ (q ≠ p ∧ (ownership owns s).counts q) := by
  obtain ⟨hlive, howns⟩ := h
  by_cases hq : q = p
  · subst hq
    refine .inl ⟨rfl, ?_⟩
    simpa [setPc] using howns
  · refine .inr ⟨hq, hlive, ?_⟩
    simpa [setPc, Function.update_of_ne hq] using howns

theorem step_idle (hpc : owns pc = false) :
    Ownership.Step (ownership owns s) (ownership owns (s.setPc p pc)) := by
  refine .keep rfl fun q hq => ?_
  rcases counts_setPc hq with ⟨-, h⟩ | ⟨-, h⟩
  · rw [hpc] at h
    cases h
  · exact h

theorem step_owning (hlive : p ∈ s.live) (hold : owns (s.pcs p) = true) :
    Ownership.Step (ownership owns s) (ownership owns (s.setPc p pc)) := by
  refine .keep rfl fun q hq => ?_
  rcases counts_setPc hq with ⟨rfl, -⟩ | ⟨-, h⟩
  · exact ⟨hlive, hold⟩
  · exact h

theorem step_spawn {pid : Nat → Nat} {t : Host ρ κ} {start : ρ}
    (hstart : owns start = false) (h : s.spawn pid start p = some t) :
    Ownership.Step (ownership owns s) (ownership owns t) := by
  obtain ⟨-, rfl⟩ := spawn_eq_some h
  refine .keep rfl fun q hq => ?_
  rcases counts_setPc hq with ⟨-, h⟩ | ⟨hne, hlive, howns⟩
  · rw [hstart] at h
    cases h
  · rcases List.mem_cons.mp hlive with h | h
    · exact absurd h hne
    · exact ⟨h, howns⟩

theorem step_crash :
    Ownership.Step (ownership owns s) (ownership owns (s.crash p)) := by
  refine .keep rfl fun q hq => ?_
  exact ⟨(List.mem_filter.mp hq.1).1, hq.2⟩

theorem step_create {f : CreatedFile κ} (hfile : s.file = none)
    (hf : f.creator = p) :
    Ownership.Step (ownership owns s)
      (ownership owns (({ s with file := some f } : Host ρ κ).setPc p pc)) := by
  refine .create p (by simp [ownership, hfile])
    (by simp [ownership, setPc, hf]) fun q hq => ?_
  rcases counts_setPc hq with ⟨rfl, -⟩ | ⟨-, h⟩
  · exact .inl rfl
  · exact .inr h

theorem step_break (hpc : owns pc = false)
    (h : ∀ f, s.file = some f → ¬ (ownership owns s).counts f.creator) :
    Ownership.Step (ownership owns s)
      (ownership owns (({ s with file := none } : Host ρ κ).setPc p pc)) := by
  refine .remove rfl fun q hq => ?_
  rcases counts_setPc hq with ⟨-, h'⟩ | ⟨-, hcount⟩
  · rw [hpc] at h'
    cases h'
  · refine ⟨hcount, fun hcreator => ?_⟩
    obtain ⟨f, hf, rfl⟩ := Option.map_eq_some_iff.mp hcreator
    exact h f hf hcount

theorem step_release (hplace : (ownership owns s).InPlace)
    (hlive : p ∈ s.live) (hold : owns (s.pcs p) = true)
    (hpc : owns pc = false) :
    Ownership.Step (ownership owns s)
      (ownership owns (({ s with file := none } : Host ρ κ).setPc p pc)) := by
  refine .release hplace (p := p) ⟨hlive, hold⟩ rfl fun q hq => ?_
  rcases counts_setPc hq with ⟨-, h⟩ | ⟨hne, hcount⟩
  · rw [hpc] at h
    cases h
  · exact ⟨hcount, hne⟩

theorem step_write {f g : CreatedFile κ} (hlive : p ∈ s.live)
    (hold : owns (s.pcs p) = true) (hf : s.file = some f)
    (hg : g.creator = f.creator) :
    Ownership.Step (ownership owns s)
      (ownership owns (({ s with file := some g } : Host ρ κ).setPc p pc)) := by
  refine .keep (by simp [ownership, setPc, hf, hg]) fun q hq => ?_
  rcases counts_setPc hq with ⟨rfl, -⟩ | ⟨-, h⟩
  · exact ⟨hlive, hold⟩
  · exact h

end Places

theorem ages_spawn {pid : Nat → Nat} {s t : Host ρ κ} {start : ρ} {p : Nat}
    (h : s.spawn pid start p = some t) : Ages s t := by
  obtain ⟨hfresh, rfl⟩ := spawn_eq_some h
  refine ⟨fun q hq => List.mem_cons_of_mem _ hq, fun q hq => ?_⟩
  rcases List.mem_cons.mp hq with rfl | hq
  · exact .inr hfresh
  · exact .inl hq

theorem ages_crash (s : Host ρ κ) (p : Nat) : Ages s (s.crash p) :=
  ⟨fun _ h => h, fun _ h => .inl (List.mem_filter.mp h).1⟩

theorem Grounded.spawn {pid : Nat → Nat} {s t : Host ρ κ} {start : ρ}
    {p : Nat} (hs : Grounded s) (h : s.spawn pid start p = some t) :
    Grounded t := by
  obtain ⟨-, rfl⟩ := spawn_eq_some h
  constructor
  · intro q hq
    rcases List.mem_cons.mp hq with rfl | hq
    · exact List.mem_cons_self
    · exact List.mem_cons_of_mem _ (hs.live q hq)
  · exact fun f hf => List.mem_cons_of_mem _ (hs.file f hf)

theorem Grounded.crash {s : Host ρ κ} (hs : Grounded s) (p : Nat) :
    Grounded (s.crash p) :=
  ⟨fun q hq => hs.live q (List.mem_filter.mp hq).1, hs.file⟩

end Host

/-! ## Breaking stale files -/

/--
A program that may remove a file it takes for stale.  `evidence` is what the
content of a file says about its creator, `names` when that is true of a process;
a place that probes holds a piece of evidence and the creator of the file it came
from, a place that breaks knows the creator it found dead, or nothing.
-/
structure BreakProgram (ρ κ ε : Type) where
  owns : ρ → Bool
  probing : ρ → Option (ε × Nat)
  breaking : ρ → Option (Option Nat)
  evidence : κ → Option ε
  names : ε → Nat → Prop

namespace BreakProgram

variable {ρ κ ε : Type} (P : BreakProgram ρ κ ε)

/--
If `p` is about to break, it finds the path free, or the file whose creator it
knows to be dead, or a file that no running process counts on.
-/
def safeBreak (s : Host ρ κ) (p : Nat) : Bool :=
  match P.breaking (s.pcs p), s.file with
  | some known, some f =>
      known = some f.creator ||
        !(s.live.contains f.creator && P.owns (s.pcs f.creator))
  | _, _ => true

structure Guarded (s : Host ρ κ) : Prop where
  grounded : s.Grounded
  inPlace : (s.ownership P.owns).InPlace
  /-- Evidence names the creator, unless the creator is dead. -/
  evidence : ∀ f e, s.file = some f → P.evidence f.content = some e →
    P.names e f.creator ∨ s.Dead f.creator
  probing : ∀ p e c, P.probing (s.pcs p) = some (e, c) →
    c ∈ s.born ∧ (P.names e c ∨ s.Dead c)
  breaking : ∀ p c, P.breaking (s.pcs p) = some (some c) → s.Dead c

variable {P}

theorem safeBreak_spec {s : Host ρ κ} {p : Nat} {known : Option Nat}
    {f : CreatedFile κ} (h : P.safeBreak s p = true)
    (hpc : P.breaking (s.pcs p) = some known) (hf : s.file = some f) :
    known = some f.creator ∨ ¬ (s.ownership P.owns).counts f.creator := by
  simpa [safeBreak, hpc, hf, Host.ownership, imp_iff_not_or] using h

namespace Guarded

variable {s t : Host ρ κ} {p : Nat} {pc : ρ}

theorem initial (hlive : s.live = [])
    (hfile : ∀ f, s.file = some f → f.creator ∈ s.born)
    (hidle : ∀ p, P.probing (s.pcs p) = none ∧ P.breaking (s.pcs p) = none) :
    P.Guarded s := by
  constructor
  · exact ⟨by simp [hlive], hfile⟩
  · apply Ownership.InPlace.of_forall_not
    rintro p ⟨hp, -⟩
    simp [hlive] at hp
  · intro f e hf _
    exact .inr ⟨hfile f hf, by simp [hlive]⟩
  · intro p e c hp
    rw [(hidle p).1] at hp
    cases hp
  · intro p c hp
    rw [(hidle p).2] at hp
    cases hp

theorem move {file : Option (CreatedFile κ)} (hs : P.Guarded s)
    (hlive : p ∈ s.live)
    (hplace : Ownership.Step (s.ownership P.owns)
      ((({ s with file := file } : Host ρ κ).setPc p pc).ownership P.owns))
    (hfile : ∀ f, file = some f → s.file = some f ∨
      (f.creator = p ∧ ∀ e, P.evidence f.content = some e → P.names e p))
    (hprobe : ∀ e c, P.probing pc = some (e, c) →
      c ∈ s.born ∧ (P.names e c ∨ s.Dead c))
    (hbreak : ∀ c, P.breaking pc = some (some c) → s.Dead c) :
    P.Guarded (({ s with file := file } : Host ρ κ).setPc p pc) := by
  have hpc : ∀ q, Function.update s.pcs p pc q = pc ∨
      Function.update s.pcs p pc q = s.pcs q := by
    intro q
    by_cases hq : q = p
    · subst hq
      exact .inl (Function.update_self ..)
    · exact .inr (Function.update_of_ne hq ..)
  constructor
  · refine ⟨hs.grounded.live, fun f hf => ?_⟩
    rcases hfile f hf with h | ⟨h, -⟩
    · exact hs.grounded.file f h
    · rw [h]
      exact hs.grounded.live p hlive
  · exact hs.inPlace.step hplace
  · intro f e hf he
    rcases hfile f hf with h | ⟨h, hn⟩
    · exact hs.evidence f e h he
    · exact .inl (by rw [h]; exact hn e he)
  · intro q e c hq
    change P.probing (Function.update s.pcs p pc q) = _ at hq
    rcases hpc q with h | h <;> rw [h] at hq
    · exact hprobe e c hq
    · exact hs.probing q e c hq
  · intro q c hq
    change P.breaking (Function.update s.pcs p pc q) = _ at hq
    rcases hpc q with h | h <;> rw [h] at hq
    · exact hbreak c hq
    · exact hs.breaking q c hq

theorem idle (hs : P.Guarded s) (hlive : p ∈ s.live)
    (howns : P.owns pc = false) (hprobe : P.probing pc = none)
    (hbreak : P.breaking pc = none ∨ P.breaking pc = some none) :
    P.Guarded (s.setPc p pc) :=
  hs.move hlive (Host.step_idle howns) (fun _ hf => .inl hf)
    (fun e c h => by rw [hprobe] at h; cases h)
    (fun c h => by rcases hbreak with hb | hb <;> rw [hb] at h <;> cases h)

theorem owning (hs : P.Guarded s) (hlive : p ∈ s.live)
    (hold : P.owns (s.pcs p) = true) (hprobe : P.probing pc = none)
    (hbreak : P.breaking pc = none) : P.Guarded (s.setPc p pc) :=
  hs.move hlive (Host.step_owning hlive hold) (fun _ hf => .inl hf)
    (fun e c h => by rw [hprobe] at h; cases h)
    (fun c h => by rw [hbreak] at h; cases h)

theorem create {f : CreatedFile κ} (hs : P.Guarded s) (hlive : p ∈ s.live)
    (hfile : s.file = none) (hf : f.creator = p)
    (he : P.evidence f.content = none) (hprobe : P.probing pc = none)
    (hbreak : P.breaking pc = none) :
    P.Guarded (({ s with file := some f } : Host ρ κ).setPc p pc) := by
  refine hs.move hlive (Host.step_create hfile hf) (fun g hg => ?_)
    (fun e c h => by rw [hprobe] at h; cases h)
    (fun c h => by rw [hbreak] at h; cases h)
  cases hg
  exact .inr ⟨hf, fun e h => by rw [he] at h; cases h⟩

theorem write {f g : CreatedFile κ} (hs : P.Guarded s) (hlive : p ∈ s.live)
    (hold : P.owns (s.pcs p) = true) (hf : s.file = some f)
    (hcreator : f.creator = p) (hg : g.creator = p)
    (he : ∀ e, P.evidence g.content = some e → P.names e p)
    (hprobe : P.probing pc = none) (hbreak : P.breaking pc = none) :
    P.Guarded (({ s with file := some g } : Host ρ κ).setPc p pc) := by
  refine hs.move hlive (Host.step_write hlive hold hf (hg.trans hcreator.symm))
    (fun f' hf' => ?_) (fun e c h => by rw [hprobe] at h; cases h)
    (fun c h => by rw [hbreak] at h; cases h)
  cases hf'
  exact .inr ⟨hg, he⟩

theorem suspect {f : CreatedFile κ} {e : ε} (hs : P.Guarded s)
    (hlive : p ∈ s.live) (hf : s.file = some f)
    (he : P.evidence f.content = some e)
    (hprobe : P.probing pc = some (e, f.creator))
    (howns : P.owns pc = false) (hbreak : P.breaking pc = none) :
    P.Guarded (s.setPc p pc) := by
  refine hs.move hlive (Host.step_idle howns) (fun _ hf => .inl hf)
    (fun e' c h => ?_) (fun c h => by rw [hbreak] at h; cases h)
  rw [hprobe] at h
  cases h
  exact ⟨hs.grounded.file f hf, hs.evidence f e hf he⟩

/-- The probe found nobody the evidence names: its creator is dead. -/
theorem verify {e : ε} {c : Nat} (hs : P.Guarded s) (hlive : p ∈ s.live)
    (hpc : P.probing (s.pcs p) = some (e, c))
    (hprobe : P.names e c → c ∉ s.live) (howns : P.owns pc = false)
    (hnext : P.probing pc = none) (hbreak : P.breaking pc = some (some c)) :
    P.Guarded (s.setPc p pc) := by
  refine hs.move hlive (Host.step_idle howns) (fun _ hf => .inl hf)
    (fun e' c' h => by rw [hnext] at h; cases h) (fun c' h => ?_)
  rw [hbreak] at h
  cases h
  obtain ⟨hborn, hnames | hdead⟩ := hs.probing p e c hpc
  · exact ⟨hborn, hprobe hnames⟩
  · exact hdead

/-- The one step where the path may be taken from its owner. -/
theorem unlink {known : Option Nat} (hs : P.Guarded s) (hlive : p ∈ s.live)
    (hpc : P.breaking (s.pcs p) = some known)
    (hsafe : P.safeBreak s p = true) (howns : P.owns pc = false)
    (hprobe : P.probing pc = none) (hbreak : P.breaking pc = none) :
    P.Guarded (({ s with file := none } : Host ρ κ).setPc p pc) := by
  refine hs.move hlive (Host.step_break howns fun f hf hcount => ?_)
    (fun f hf => by cases hf) (fun e c h => by rw [hprobe] at h; cases h)
    (fun c h => by rw [hbreak] at h; cases h)
  rcases safeBreak_spec hsafe hpc hf with h | h
  · subst h
    exact (hs.breaking p f.creator hpc).2 hcount.1
  · exact h hcount

theorem release (hs : P.Guarded s) (hlive : p ∈ s.live)
    (hold : P.owns (s.pcs p) = true) (howns : P.owns pc = false)
    (hprobe : P.probing pc = none) (hbreak : P.breaking pc = none) :
    P.Guarded (({ s with file := none } : Host ρ κ).setPc p pc) :=
  hs.move hlive (Host.step_release hs.inPlace hlive hold howns)
    (fun f hf => by cases hf) (fun e c h => by rw [hprobe] at h; cases h)
    (fun c h => by rw [hbreak] at h; cases h)

theorem ages (hs : P.Guarded s) (ht : t.Grounded) (hages : Host.Ages s t)
    (hfile : t.file = s.file)
    (hpcs : ∀ p, t.pcs p = s.pcs p ∨
      (P.probing (t.pcs p) = none ∧ P.breaking (t.pcs p) = none))
    (hplace : Ownership.Step (s.ownership P.owns) (t.ownership P.owns)) :
    P.Guarded t := by
  constructor
  · exact ht
  · exact hs.inPlace.step hplace
  · intro f e hf he
    rw [hfile] at hf
    exact (hs.evidence f e hf he).imp_right fun h => h.ages hages
  · intro p e c hp
    rcases hpcs p with h | ⟨h, -⟩ <;> rw [h] at hp
    · obtain ⟨hb, h⟩ := hs.probing p e c hp
      exact ⟨hages.born _ hb, h.imp_right fun h => h.ages hages⟩
    · cases hp
  · intro p c hp
    rcases hpcs p with h | ⟨-, h⟩ <;> rw [h] at hp
    · exact (hs.breaking p c hp).ages hages
    · cases hp

theorem spawn {pid : Nat → Nat} {start : ρ} (hs : P.Guarded s)
    (howns : P.owns start = false) (hprobe : P.probing start = none)
    (hbreak : P.breaking start = none) (h : s.spawn pid start p = some t) :
    P.Guarded t := by
  have hplace := Host.step_spawn howns h
  have hages := Host.ages_spawn h
  have hground := hs.grounded.spawn h
  obtain ⟨-, rfl⟩ := Host.spawn_eq_some h
  refine hs.ages hground hages rfl (fun q => ?_) hplace
  by_cases hq : q = p
  · subst hq
    exact .inr (by simp [Host.setPc, hprobe, hbreak])
  · exact .inl (by simp [Host.setPc, Function.update_of_ne hq])

theorem crash (hs : P.Guarded s) (p : Nat) : P.Guarded (s.crash p) :=
  hs.ages (hs.grounded.crash p) (Host.ages_crash s p) rfl
    (fun _ => .inl rfl) Host.step_crash

/-- Under the guard at most one running process owns the file. -/
theorem exclusive (hs : P.Guarded s) {p q : Nat}
    (hp : p ∈ s.live ∧ P.owns (s.pcs p) = true)
    (hq : q ∈ s.live ∧ P.owns (s.pcs q) = true) : p = q :=
  hs.inPlace.unique hp hq

end Guarded

end BreakProgram

end OrcState.Foundation
