import OrcState.Foundation.Ownership
import OrcState.Foundation.Transition

/-!
# The coordinator's pid lock

`acquireCoordinatorLock` and `releaseCoordinatorLock` as programs of file-system
calls.  The exclusive create and the payload write are two calls, so the file is
empty for a while; a reader that finds no valid lock in it, or no file at all,
goes on to unlink the path.  `start` is the fingerprint of a process, absent
when the host could not read it.
-/

namespace OrcState.Lock.CoordinatorLock

open OrcState.Foundation

/-- What a reader finds: no JSON, JSON without a positive pid, or a lock. -/
inductive Content where
  | unreadable
  | noPid
  | lock (pid : Nat) (processStart : Option String)
  deriving DecidableEq, Repr

/-! ## Places -/

inductive Pc where
  | idle
  | create (attempt : Nat)
  | write
  | read (attempt : Nat)
  | probe (attempt pid : Nat) (processStart : Option String) (creator : Nat)
  | unlink (attempt : Nat) (verified : Option Nat)
  | holding
  | release
  deriving DecidableEq, Repr

def Pc.owns : Pc → Bool
  | .write | .holding | .release => true
  | _ => false

/-- Returned from the acquire and not yet in the release. -/
def Pc.holds : Pc → Bool
  | .holding => true
  | _ => false

abbrev State := Host Pc Content

variable (pid : Nat → Nat) (start : Nat → Option String)

/-! ## The programs -/

def isSameProcess (s : State) (n : Nat) (processStart : String) : Bool :=
  s.live.any fun q => pid q = n && start q = some processStart

def isCoordinatorLockHeld (s : State) (n : Nat) :
    Option String → Bool
  | some processStart => isSameProcess pid start s n processStart
  | none => s.pidInUse pid n

/-- The next turn of the loop, or the throw after the fourth. -/
def retry (attempt : Nat) : Pc :=
  if attempt + 1 < 4 then .create (attempt + 1) else .idle

def advance (s : State) (p : Nat) (now : Int) (foreign : Bool) :
    Option State :=
  match s.pcs p with
  | .idle | .holding => none
  | .create attempt =>
      match s.file with
      | none => some (({ s with file := some ⟨p, now, .unreadable⟩ } :
          State).setPc p .write)
      | some _ => some (s.setPc p (.read attempt))
  | .write =>
      match s.file with
      | some f =>
          if f.creator = p then
            some (({ s with file := some ⟨p, now, .lock (pid p) (start p)⟩ } :
              State).setPc p .holding)
          else some (s.setPc p .holding)
      | none => some (s.setPc p .holding)
  | .read attempt =>
      match s.file with
      | none => some (s.setPc p (.unlink attempt none))
      | some f =>
          match f.content with
          | .unreadable | .noPid => some (s.setPc p (.unlink attempt none))
          | .lock n processStart =>
              some (s.setPc p (.probe attempt n processStart f.creator))
  | .probe attempt n processStart creator =>
      -- a live holder makes the newcomer exit
      if isCoordinatorLockHeld pid start s n processStart || foreign then
        some (s.crash p)
      else some (s.setPc p (.unlink attempt (some creator)))
  | .unlink attempt _ =>
      some (({ s with file := none } : State).setPc p (retry attempt))
  | .release => some (({ s with file := none } : State).setPc p .idle)

/-- The pending call fails; a failed read counts as a corrupt file. -/
def faulted : Pc → Option Pc
  | .idle | .holding | .probe _ _ _ _ => none
  | .read attempt => some (.unlink attempt none)
  | .create _ | .write | .unlink _ _ | .release => some .idle

inductive Action where
  | spawn (p : Nat)
  | crash (p : Nat)
  | acquire (p : Nat)
  | release (p : Nat)
  | run (p : Nat) (now : Int) (foreign : Bool)
  | fault (p : Nat)
  deriving DecidableEq, Repr

def step (s : State) : Action → Option State
  | .spawn p => s.spawn pid .idle p
  | .crash p => some (s.crash p)
  | .acquire p =>
      if p ∈ s.live ∧ s.pcs p = .idle then some (s.setPc p (.create 0))
      else none
  | .release p =>
      if p ∈ s.live ∧ s.pcs p = .holding then some (s.setPc p .release)
      else none
  | .run p now foreign =>
      if p ∈ s.live then advance pid start s p now foreign else none
  | .fault p =>
      if p ∈ s.live then (faulted (s.pcs p)).map (s.setPc p) else none

def lock : System State Action where
  initial s := s.live = [] ∧ (∀ p, s.pcs p = .idle) ∧
    ∀ f, s.file = some f → f.creator ∈ s.born
  step := step pid start

/-! ## The safe breaks -/

def Holds (s : State) (p : Nat) : Prop := p ∈ s.live ∧ (s.pcs p).holds = true

def program : BreakProgram Pc Content (Nat × Option String) where
  owns := Pc.owns
  probing
    | .probe _ n processStart creator => some ((n, processStart), creator)
    | _ => none
  breaking
    | .unlink _ verified => some verified
    | _ => none
  evidence
    | .lock n processStart => some (n, processStart)
    | _ => none
  names e p := e.1 = pid p ∧ e.2 = start p

/--
An unlink of the acquire finds the path free, or the file whose dead holder it
verified, or a file that no running process owns.
-/
def BreakSafe (s : State) : Action → Prop
  | .run p _ _ => (program pid start).safeBreak s p = true
  | _ => True

instance (s : State) (a : Action) : Decidable (BreakSafe pid start s a) :=
  match a with
  | .run p _ _ =>
      inferInstanceAs (Decidable ((program pid start).safeBreak s p = true))
  | .spawn _ | .crash _ | .acquire _ | .release _ | .fault _ =>
      inferInstanceAs (Decidable True)

/-! ## The invariant -/

variable {pid start}

abbrev Inv (pid : Nat → Nat) (start : Nat → Option String) (s : State) :
    Prop :=
  (program pid start).Guarded s

theorem Inv.initial {s : State} (h : (lock pid start).initial s) :
    Inv pid start s := by
  obtain ⟨hlive, hidle, hfile⟩ := h
  refine BreakProgram.Guarded.initial hlive hfile fun p => ?_
  rw [hidle p]
  exact ⟨rfl, rfl⟩

theorem isCoordinatorLockHeld_of_live {s : State} {p : Nat}
    (h : p ∈ s.live) :
    isCoordinatorLockHeld pid start s (pid p) (start p) = true := by
  cases hstart : start p with
  | none => exact Host.pidInUse_of_live h
  | some st =>
      simp only [isCoordinatorLockHeld, isSameProcess, List.any_eq_true,
        Bool.and_eq_true, decide_eq_true_eq]
      exact ⟨p, h, rfl, hstart⟩

theorem Inv.unlink {s : State} {p attempt : Nat} {verified : Option Nat}
    (hs : Inv pid start s) (hlive : p ∈ s.live)
    (hpc : s.pcs p = .unlink attempt verified)
    (hsafe : (program pid start).safeBreak s p = true) :
    Inv pid start (({ s with file := none } : State).setPc p
      (retry attempt)) := by
  have hbreaking : (program pid start).breaking (s.pcs p) =
      some verified := by
    rw [hpc]
    rfl
  unfold retry
  split <;>
    exact BreakProgram.Guarded.unlink hs hlive hbreaking hsafe rfl rfl rfl

theorem Inv.advance {s t : State} {p : Nat} {now : Int} {foreign : Bool}
    (hs : Inv pid start s) (hlive : p ∈ s.live)
    (hsafe : (program pid start).safeBreak s p = true)
    (h : advance pid start s p now foreign = some t) : Inv pid start t := by
  cases hpc : s.pcs p with
  | idle => simp [CoordinatorLock.advance, hpc] at h
  | holding => simp [CoordinatorLock.advance, hpc] at h
  | create attempt =>
      simp only [CoordinatorLock.advance, hpc] at h
      split at h
      · rename_i hfile
        cases h
        exact hs.create hlive hfile rfl rfl rfl rfl
      · cases h
        exact hs.idle hlive rfl rfl (.inl rfl)
  | write =>
      have hold : (program pid start).owns (s.pcs p) = true := by
        rw [hpc]
        rfl
      simp only [CoordinatorLock.advance, hpc] at h
      split at h
      · rename_i f hfile
        split at h
        · rename_i hcreator
          cases h
          refine hs.write hlive hold hfile hcreator rfl ?_ rfl rfl
          intro e he
          cases he
          exact ⟨rfl, rfl⟩
        · cases h
          exact hs.owning hlive hold rfl rfl
      · cases h
        exact hs.owning hlive hold rfl rfl
  | read attempt =>
      simp only [CoordinatorLock.advance, hpc] at h
      split at h
      · cases h
        exact hs.idle hlive rfl rfl (.inr rfl)
      · rename_i f hfile
        split at h
        · cases h
          exact hs.idle hlive rfl rfl (.inr rfl)
        · cases h
          exact hs.idle hlive rfl rfl (.inr rfl)
        · rename_i n processStart hcontent
          cases h
          exact hs.suspect hlive hfile (by rw [hcontent]; rfl) rfl rfl rfl
  | probe attempt n processStart creator =>
      simp only [CoordinatorLock.advance, hpc] at h
      split at h
      · cases h
        exact hs.crash p
      · rename_i hprobe
        cases h
        refine hs.verify hlive (by rw [hpc]; rfl) ?_ rfl rfl rfl
        rintro ⟨hn, hst⟩ hcreator
        apply hprobe
        rw [show n = pid creator from hn,
          show processStart = start creator from hst,
          isCoordinatorLockHeld_of_live hcreator]
        rfl
  | unlink attempt verified =>
      simp only [CoordinatorLock.advance, hpc] at h
      cases h
      exact Inv.unlink hs hlive hpc hsafe
  | release =>
      have hold : (program pid start).owns (s.pcs p) = true := by
        rw [hpc]
        rfl
      simp only [CoordinatorLock.advance, hpc] at h
      cases h
      exact hs.release hlive hold rfl rfl rfl

theorem Inv.fault {s : State} {p : Nat} {pc : Pc} (hs : Inv pid start s)
    (hlive : p ∈ s.live) (h : faulted (s.pcs p) = some pc) :
    Inv pid start (s.setPc p pc) := by
  cases hpc : s.pcs p with
  | idle => simp [hpc, faulted] at h
  | holding => simp [hpc, faulted] at h
  | probe attempt n processStart creator => simp [hpc, faulted] at h
  | read attempt =>
      rw [hpc] at h
      cases h
      exact hs.idle hlive rfl rfl (.inr rfl)
  | _ =>
      rw [hpc] at h
      cases h
      exact hs.idle hlive rfl rfl (.inl rfl)

theorem Inv.step {s t : State} {a : Action} (hs : Inv pid start s)
    (hsafe : BreakSafe pid start s a) (h : step pid start s a = some t) :
    Inv pid start t := by
  cases a with
  | spawn p => exact hs.spawn rfl rfl rfl h
  | crash p =>
      cases h
      exact hs.crash p
  | acquire p =>
      simp only [CoordinatorLock.step] at h
      split at h
      · rename_i hp
        cases h
        exact hs.idle hp.1 rfl rfl (.inl rfl)
      · cases h
  | release p =>
      simp only [CoordinatorLock.step] at h
      split at h
      · rename_i hp
        cases h
        exact hs.owning hp.1 (by rw [hp.2]; rfl) rfl rfl
      · cases h
  | run p now foreign =>
      simp only [CoordinatorLock.step] at h
      split at h
      · rename_i hlive
        exact hs.advance hlive hsafe h
      · cases h
  | fault p =>
      simp only [CoordinatorLock.step] at h
      split at h
      · rename_i hlive
        obtain ⟨pc, hpc, rfl⟩ := Option.map_eq_some_iff.mp h
        exact hs.fault hlive hpc
      · cases h

/-! ## At most one coordinator -/

theorem Pc.owns_of_holds {pc : Pc} (h : pc.holds = true) : pc.owns = true := by
  cases pc <;> simp_all [Pc.holds, Pc.owns]

/-- In every run whose unlinks are safe, at most one coordinator holds. -/
theorem coordinatorLock_exclusive_of_breakSafe {s : State}
    (hs : (lock pid start).ReachableUnder (BreakSafe pid start) s) :
    ∀ p q, Holds s p → Holds s q → p = q := by
  have hinv : Inv pid start s :=
    hs.invariant (fun _ h => Inv.initial h)
      fun _ _ _ _ hI hok ht => hI.step hok ht
  exact fun p q hp hq => hinv.exclusive ⟨hp.1, Pc.owns_of_holds hp.2⟩
    ⟨hq.1, Pc.owns_of_holds hq.2⟩

def takeOverActions : List Action :=
  [.spawn 0, .acquire 0, .run 0 0 false, .run 0 0 false, .crash 0,
   .spawn 1, .acquire 1] ++ List.replicate 6 (.run 1 1 false)

def freePath : State := ⟨none, fun _ => .idle, [], []⟩

abbrev procfsLock : System State Action :=
  lock (· + 1) fun p => some ("proc:" ++ toString p)

theorem freePath_initial : procfsLock.initial freePath :=
  ⟨rfl, fun _ => rfl, fun _ hf => by cases hf⟩

theorem coordinatorLock_exclusive_of_breakSafe_run :
    ∃ s, procfsLock.run freePath takeOverActions = some s ∧
      s.pcs 1 = .holding ∧ ∀ p q, Holds s p → Holds s q → p = q := by
  obtain ⟨s, hs, hpc⟩ := procfsLock.exists_run_of_map
    (f := fun s => s.pcs 1)
    (by decide : (procfsLock.run freePath takeOverActions).map
      (fun s => s.pcs 1) = some .holding)
  exact ⟨s, hs, hpc, coordinatorLock_exclusive_of_breakSafe
    ((System.ReachableUnder.initial freePath_initial).run (by decide) hs)⟩

/-! ## The race -/

/--
Coordinator 1 has created the file and not yet written it; coordinator 2 finds
it empty, unlinks it and takes the path.  Both return.
-/
def emptyFileActions : List Action :=
  [.spawn 1, .spawn 2, .acquire 1, .acquire 2, .run 1 0 false] ++
  List.replicate 5 (.run 2 0 false) ++ [.run 1 0 false]

/-- Two coordinators can run against one state directory. -/
theorem coordinatorLock_not_exclusive :
    ¬ ∀ s, procfsLock.Reachable s →
      ∀ p q, Holds s p → Holds s q → p = q := by
  intro h
  obtain ⟨s, hs, hrace⟩ := procfsLock.exists_run_of_map
    (f := fun s => (s.live, s.pcs 1, s.pcs 2))
    (by decide : (procfsLock.run freePath emptyFileActions).map
      (fun s => (s.live, s.pcs 1, s.pcs 2)) =
        some ([2, 1], .holding, .holding))
  simp only [Prod.mk.injEq] at hrace
  obtain ⟨hlive, h₁, h₂⟩ := hrace
  have := h s ((System.Reachable.initial freePath_initial).run hs) 1 2
    ⟨by simp [hlive], by rw [h₁]; rfl⟩ ⟨by simp [hlive], by rw [h₂]; rfl⟩
  cases this

end OrcState.Lock.CoordinatorLock
