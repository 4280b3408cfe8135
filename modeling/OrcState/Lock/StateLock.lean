import OrcState.Foundation.Ownership
import OrcState.Foundation.Transition

/-!
# The state lock

`acquireLock` and `releaseLock` as programs of file-system calls, one call a
step, run by any number of processes that may die between two calls.  `now` is
the clock reading of a step, `foreign` says that a process outside the model
answers to the probed process id, and `fault` makes the pending call fail with
an unexpected error.

The exclusive create is atomic, but breaking a stale lock is not: the path can
change hands between the liveness probe and the unlink.  `BreakSafe` is the
condition on that one step under which the lock excludes.
-/

namespace OrcState.Lock.StateLock

open OrcState.Foundation

def LOCK_STALE_MS : Int := 30000

def MALFORMED_STALE_BREAK_MS : Int := LOCK_STALE_MS * 20

/-- What a reader finds: no JSON, JSON without a positive pid, or metadata. -/
inductive Content where
  | unreadable
  | noPid
  | owner (pid : Nat) (token : String)
  deriving DecidableEq, Repr

/-! ## Places -/

/--
The next call of a process.  `verified` is the creator of the file whose dead
holder the process has just established, `none` when it breaks a malformed file
by its age.
-/
inductive Pc where
  | idle
  | create (token : String) (attempt : Nat)
  | write (token : String)
  | exists_ (token : String) (attempt : Nat)
  | stat (token : String) (attempt : Nat)
  | read (token : String) (attempt : Nat) (age : Int)
  | probe (token : String) (attempt pid creator : Nat)
  | unlink (token : String) (attempt : Nat) (verified : Option Nat)
  | holding (token : String)
  | releaseRead (token : String)
  | releaseUnlink
  deriving DecidableEq, Repr

def Pc.owns : Pc → Bool
  | .write _ | .holding _ | .releaseRead _ | .releaseUnlink => true
  | _ => false

def Pc.holds : Pc → Bool
  | .holding _ => true
  | _ => false

abbrev State := Host Pc Content

variable (pid : Nat → Nat)

def retry (token : String) (attempt : Nat) : Pc :=
  if attempt + 1 < 5 then .create token (attempt + 1) else .idle

/-! ## The programs -/

def advance (s : State) (p : Nat) (now : Int) (foreign : Bool) :
    Option State :=
  match s.pcs p with
  | .idle | .holding _ => none
  | .create token attempt =>
      match s.file with
      | none => some (({ s with file := some ⟨p, now, .unreadable⟩ } :
          State).setPc p (.write token))
      | some _ => some (s.setPc p (.exists_ token attempt))
  | .write token =>
      -- the descriptor stays valid when somebody unlinked the path
      match s.file with
      | some f =>
          if f.creator = p then
            some (({ s with file := some ⟨p, now, .owner (pid p) token⟩ } :
              State).setPc p (.holding token))
          else some (s.setPc p (.holding token))
      | none => some (s.setPc p (.holding token))
  | .exists_ token attempt =>
      match s.file with
      | none => some (s.setPc p (retry token attempt))
      | some _ => some (s.setPc p (.stat token attempt))
  | .stat token attempt =>
      match s.file with
      | none => some (s.setPc p (retry token attempt))
      | some f =>
          if now - f.mtime ≤ LOCK_STALE_MS then some (s.setPc p .idle)
          else some (s.setPc p (.read token attempt (now - f.mtime)))
  | .read token attempt age =>
      match s.file with
      | none => some (s.setPc p (retry token attempt))
      | some f =>
          match f.content with
          | .unreadable | .noPid =>
              if age > MALFORMED_STALE_BREAK_MS then
                some (s.setPc p (.unlink token attempt none))
              else some (s.setPc p .idle)
          | .owner n _ => some (s.setPc p (.probe token attempt n f.creator))
  | .probe token attempt n creator =>
      if s.pidInUse pid n || foreign then some (s.setPc p .idle)
      else some (s.setPc p (.unlink token attempt (some creator)))
  | .unlink token attempt _ =>
      some (({ s with file := none } : State).setPc p (retry token attempt))
  | .releaseRead token =>
      match s.file with
      | none => some (s.setPc p .idle)
      | some f =>
          match f.content with
          | .unreadable | .noPid => some (s.setPc p .idle)
          | .owner n stored =>
              if n ≠ pid p ∨ stored ≠ token then some (s.setPc p .idle)
              else some (s.setPc p .releaseUnlink)
  | .releaseUnlink =>
      some (({ s with file := none } : State).setPc p .idle)

def faulted : Pc → Option Pc
  | .idle | .holding _ | .probe _ _ _ _ => none
  | .exists_ token attempt => some (retry token attempt)
  | .read token attempt age =>
      if age > MALFORMED_STALE_BREAK_MS then
        some (.unlink token attempt none)
      else some .idle
  | .create _ _ | .write _ | .stat _ _ | .unlink _ _ _ | .releaseRead _
  | .releaseUnlink => some .idle

inductive Action where
  | spawn (p : Nat)
  | crash (p : Nat)
  | acquire (p : Nat) (token : String)
  | release (p : Nat)
  | run (p : Nat) (now : Int) (foreign : Bool)
  | fault (p : Nat)
  deriving DecidableEq, Repr

def step (s : State) : Action → Option State
  | .spawn p => s.spawn pid .idle p
  | .crash p => some (s.crash p)
  | .acquire p token =>
      if p ∈ s.live ∧ s.pcs p = .idle then
        some (s.setPc p (.create token 0))
      else none
  | .release p =>
      if p ∈ s.live then
        match s.pcs p with
        | .holding token => some (s.setPc p (.releaseRead token))
        | _ => none
      else none
  | .run p now foreign =>
      if p ∈ s.live then advance pid s p now foreign else none
  | .fault p =>
      if p ∈ s.live then (faulted (s.pcs p)).map (s.setPc p) else none

def lock : System State Action where
  initial s := s.live = [] ∧ (∀ p, s.pcs p = .idle) ∧
    ∀ f, s.file = some f → f.creator ∈ s.born
  step := step pid

/-! ## The safe breaks -/

def Holds (s : State) (p : Nat) : Prop := p ∈ s.live ∧ (s.pcs p).holds = true

def program : BreakProgram Pc Content Nat where
  owns := Pc.owns
  probing
    | .probe _ _ n creator => some (n, creator)
    | _ => none
  breaking
    | .unlink _ _ verified => some verified
    | _ => none
  evidence
    | .owner n _ => some n
    | _ => none
  names n p := n = pid p

/--
A break of a stale lock finds the path free, or the file whose dead holder it
verified, or a file that no running process owns.
-/
def BreakSafe (s : State) : Action → Prop
  | .run p _ _ => (program pid).safeBreak s p = true
  | _ => True

instance (s : State) (a : Action) : Decidable (BreakSafe pid s a) :=
  match a with
  | .run p _ _ =>
      inferInstanceAs (Decidable ((program pid).safeBreak s p = true))
  | .spawn _ | .crash _ | .acquire _ _ | .release _ | .fault _ =>
      inferInstanceAs (Decidable True)

/-! ## The invariant -/

variable {pid}

abbrev Inv (pid : Nat → Nat) (s : State) : Prop := (program pid).Guarded s

theorem Inv.initial {s : State} (h : (lock pid).initial s) : Inv pid s := by
  obtain ⟨hlive, hidle, hfile⟩ := h
  refine BreakProgram.Guarded.initial hlive hfile fun p => ?_
  rw [hidle p]
  exact ⟨rfl, rfl⟩

theorem retry_cases (token : String) (attempt : Nat) :
    retry token attempt = .create token (attempt + 1) ∨
      retry token attempt = .idle := by
  unfold retry
  split
  · exact .inl rfl
  · exact .inr rfl

theorem Inv.retry {s : State} {p : Nat} (hs : Inv pid s) (hlive : p ∈ s.live)
    (token : String) (attempt : Nat) :
    Inv pid (s.setPc p (retry token attempt)) := by
  rcases retry_cases token attempt with h | h <;> rw [h] <;>
    exact hs.idle hlive rfl rfl (.inl rfl)

theorem Inv.unlink {s : State} {p : Nat} {token : String} {attempt : Nat}
    {verified : Option Nat} (hs : Inv pid s) (hlive : p ∈ s.live)
    (hpc : s.pcs p = .unlink token attempt verified)
    (hsafe : (program pid).safeBreak s p = true) :
    Inv pid (({ s with file := none } : State).setPc p
      (StateLock.retry token attempt)) := by
  have hbreaking : (program pid).breaking (s.pcs p) = some verified := by
    rw [hpc]
    rfl
  rcases retry_cases token attempt with h | h <;> rw [h] <;>
    exact BreakProgram.Guarded.unlink hs hlive hbreaking hsafe rfl rfl rfl

theorem Inv.advance {s t : State} {p : Nat} {now : Int} {foreign : Bool}
    (hs : Inv pid s) (hlive : p ∈ s.live)
    (hsafe : (program pid).safeBreak s p = true)
    (h : advance pid s p now foreign = some t) : Inv pid t := by
  cases hpc : s.pcs p with
  | idle => simp [StateLock.advance, hpc] at h
  | holding token => simp [StateLock.advance, hpc] at h
  | create token attempt =>
      simp only [StateLock.advance, hpc] at h
      split at h
      · rename_i hfile
        cases h
        exact hs.create hlive hfile rfl rfl rfl rfl
      · cases h
        exact hs.idle hlive rfl rfl (.inl rfl)
  | write token =>
      have hold : (program pid).owns (s.pcs p) = true := by rw [hpc]; rfl
      simp only [StateLock.advance, hpc] at h
      split at h
      · rename_i f hfile
        split at h
        · rename_i hcreator
          cases h
          refine hs.write hlive hold hfile hcreator rfl ?_ rfl rfl
          intro n hn
          cases hn
          rfl
        · cases h
          exact hs.owning hlive hold rfl rfl
      · cases h
        exact hs.owning hlive hold rfl rfl
  | exists_ token attempt =>
      simp only [StateLock.advance, hpc] at h
      split at h <;> cases h
      · exact hs.retry hlive token attempt
      · exact hs.idle hlive rfl rfl (.inl rfl)
  | stat token attempt =>
      simp only [StateLock.advance, hpc] at h
      split at h
      · cases h
        exact hs.retry hlive token attempt
      · split at h <;> cases h <;> exact hs.idle hlive rfl rfl (.inl rfl)
  | read token attempt age =>
      simp only [StateLock.advance, hpc] at h
      split at h
      · cases h
        exact hs.retry hlive token attempt
      · rename_i f hfile
        split at h
        · split at h <;> cases h
          · exact hs.idle hlive rfl rfl (.inr rfl)
          · exact hs.idle hlive rfl rfl (.inl rfl)
        · split at h <;> cases h
          · exact hs.idle hlive rfl rfl (.inr rfl)
          · exact hs.idle hlive rfl rfl (.inl rfl)
        · rename_i n stored hcontent
          cases h
          exact hs.suspect hlive hfile (by rw [hcontent]; rfl) rfl rfl rfl
  | probe token attempt n creator =>
      simp only [StateLock.advance, hpc] at h
      split at h
      · cases h
        exact hs.idle hlive rfl rfl (.inl rfl)
      · rename_i hprobe
        cases h
        refine hs.verify hlive (by rw [hpc]; rfl) ?_ rfl rfl rfl
        intro hn hcreator
        apply hprobe
        rw [show n = pid creator from hn, Host.pidInUse_of_live hcreator]
        rfl
  | unlink token attempt verified =>
      simp only [StateLock.advance, hpc] at h
      cases h
      exact Inv.unlink hs hlive hpc hsafe
  | releaseRead token =>
      have hold : (program pid).owns (s.pcs p) = true := by rw [hpc]; rfl
      simp only [StateLock.advance, hpc] at h
      split at h
      · cases h
        exact hs.idle hlive rfl rfl (.inl rfl)
      · split at h
        · cases h
          exact hs.idle hlive rfl rfl (.inl rfl)
        · cases h
          exact hs.idle hlive rfl rfl (.inl rfl)
        · split at h <;> cases h
          · exact hs.idle hlive rfl rfl (.inl rfl)
          · exact hs.owning hlive hold rfl rfl
  | releaseUnlink =>
      have hold : (program pid).owns (s.pcs p) = true := by rw [hpc]; rfl
      simp only [StateLock.advance, hpc] at h
      cases h
      exact hs.release hlive hold rfl rfl rfl

theorem Inv.fault {s : State} {p : Nat} {pc : Pc} (hs : Inv pid s)
    (hlive : p ∈ s.live) (h : faulted (s.pcs p) = some pc) :
    Inv pid (s.setPc p pc) := by
  cases hpc : s.pcs p with
  | exists_ token attempt =>
      rw [hpc] at h
      cases h
      exact hs.retry hlive token attempt
  | read token attempt age =>
      rw [hpc] at h
      simp only [faulted] at h
      split at h <;> cases h
      · exact hs.idle hlive rfl rfl (.inr rfl)
      · exact hs.idle hlive rfl rfl (.inl rfl)
  | idle => simp [hpc, faulted] at h
  | holding token => simp [hpc, faulted] at h
  | probe token attempt n creator => simp [hpc, faulted] at h
  | _ =>
      rw [hpc] at h
      cases h
      exact hs.idle hlive rfl rfl (.inl rfl)

theorem Inv.step {s t : State} {a : Action} (hs : Inv pid s)
    (hsafe : BreakSafe pid s a) (h : step pid s a = some t) : Inv pid t := by
  cases a with
  | spawn p => exact hs.spawn rfl rfl rfl h
  | crash p =>
      cases h
      exact hs.crash p
  | acquire p token =>
      simp only [StateLock.step] at h
      split at h
      · rename_i hp
        cases h
        exact hs.idle hp.1 rfl rfl (.inl rfl)
      · cases h
  | release p =>
      simp only [StateLock.step] at h
      split at h
      · rename_i hlive
        split at h
        · rename_i token hpc
          cases h
          exact hs.owning hlive (by rw [hpc]; rfl) rfl rfl
        · cases h
      · cases h
  | run p now foreign =>
      simp only [StateLock.step] at h
      split at h
      · rename_i hlive
        exact hs.advance hlive hsafe h
      · cases h
  | fault p =>
      simp only [StateLock.step] at h
      split at h
      · rename_i hlive
        obtain ⟨pc, hpc, rfl⟩ := Option.map_eq_some_iff.mp h
        exact hs.fault hlive hpc
      · cases h

/-! ## Mutual exclusion -/

theorem Pc.owns_of_holds {pc : Pc} (h : pc.holds = true) : pc.owns = true := by
  cases pc <;> simp_all [Pc.holds, Pc.owns]

/-- In every run whose breaks are safe, at most one running process holds. -/
theorem stateLock_exclusive_of_breakSafe {s : State}
    (hs : (lock pid).ReachableUnder (BreakSafe pid) s) :
    ∀ p q, Holds s p → Holds s q → p = q := by
  have hinv : Inv pid s :=
    hs.invariant (fun _ h => Inv.initial h)
      fun _ _ _ _ hI hok ht => hI.step hok ht
  exact fun p q hp hq => hinv.exclusive ⟨hp.1, Pc.owns_of_holds hp.2⟩
    ⟨hq.1, Pc.owns_of_holds hq.2⟩

def breakActions : List Action :=
  [.spawn 0, .acquire 0 "t0", .run 0 0 false, .run 0 0 false, .crash 0,
   .spawn 1, .acquire 1 "t1"] ++
  List.replicate 8 (.run 1 40000 false)

def freePath : State := ⟨none, fun _ => .idle, [], []⟩

theorem freePath_initial : (lock (· + 1)).initial freePath :=
  ⟨rfl, fun _ => rfl, fun _ hf => by cases hf⟩

theorem stateLock_exclusive_of_breakSafe_run :
    ∃ s, (lock (· + 1)).run freePath breakActions = some s ∧
      s.pcs 1 = .holding "t1" ∧ ∀ p q, Holds s p → Holds s q → p = q := by
  obtain ⟨s, hs, hpc⟩ := (lock (· + 1)).exists_run_of_map
    (f := fun s => s.pcs 1)
    (by decide : ((lock (· + 1)).run freePath breakActions).map
      (fun s => s.pcs 1) = some (.holding "t1"))
  exact ⟨s, hs, hpc, stateLock_exclusive_of_breakSafe
    ((System.ReachableUnder.initial freePath_initial).run (by decide) hs)⟩

/-! ## The race -/

/--
Process 0 dies holding the lock.  Processes 1 and 2 both find it dead; 1 breaks
the lock and takes it, and then 2 unlinks the file of 1.
-/
def raceActions : List Action :=
  [.spawn 0, .acquire 0 "t0", .run 0 0 false, .run 0 0 false, .crash 0,
   .spawn 1, .spawn 2, .acquire 1 "t1", .acquire 2 "t2"] ++
  List.replicate 5 (.run 1 40000 false) ++
  List.replicate 5 (.run 2 40000 false) ++
  List.replicate 3 (.run 1 40000 false) ++
  List.replicate 3 (.run 2 40000 false)

/-- Two running processes can hold the lock at once. -/
theorem stateLock_not_exclusive :
    ¬ ∀ s, (lock (· + 1)).Reachable s →
      ∀ p q, Holds s p → Holds s q → p = q := by
  intro h
  obtain ⟨s, hs, hrace⟩ := (lock (· + 1)).exists_run_of_map
    (f := fun s => (s.live, s.pcs 1, s.pcs 2))
    (by decide : ((lock (· + 1)).run freePath raceActions).map
      (fun s => (s.live, s.pcs 1, s.pcs 2)) =
        some ([2, 1], .holding "t1", .holding "t2"))
  simp only [Prod.mk.injEq] at hrace
  obtain ⟨hlive, h₁, h₂⟩ := hrace
  have := h s ((System.Reachable.initial freePath_initial).run hs) 1 2
    ⟨by simp [hlive], by rw [h₁]; rfl⟩ ⟨by simp [hlive], by rw [h₂]; rfl⟩
  cases this

end OrcState.Lock.StateLock
