import OrcState.Command.Delivery
import Mathlib.Logic.Relation

/-!
# The life of one command

`Move` says everything the delivery code may do to one row, whichever of its
statements does it: the guard of each move is the weakest one under which some
operation makes it.  The start of a send is left out; it is the one step that
only `markSendStarted` takes.  Rows that keep an invariant under every move keep
it under every operation.
-/

namespace OrcState.Command

open OrcState.Contract OrcState.Foundation OrcState.Store

def Started (c : DurableCommand) : Prop :=
  c.state ≠ .queued ∧
    (c.state = .dispatching → truthy c.sendStartedAt = true)

/-- In flight: a failure now leaves the outcome of a side effect unknown. -/
def InFlight (c : DurableCommand) : Prop :=
  (c.state = .dispatching ∧ truthy c.sendStartedAt = true) ∨
    c.state = .sent ∨ c.state = .accepted ∨ c.state = .running

/-- Nothing irrevocable has happened: queued, reserved, or repeatable. -/
def Retractable (c : DurableCommand) : Prop :=
  c.state = .queued ∨
    (c.state = .dispatching ∧
      (truthy c.sendStartedAt = false ∨ c.sideEffecting = false))

inductive Move : DurableCommand → DurableCommand → Prop
  | reserve (c : DurableCommand) (at_ : String) (h : c.state = .queued) :
      Move c
        { c with
          state := .dispatching
          attemptCount := c.attemptCount + 1
          dispatchStartedAt := some at_
          sendStartedAt := none }
  | send (c : DurableCommand) (stamp : String) (h : c.state = .dispatching)
      (hs : truthy c.sendStartedAt = true) :
      Move c { c with state := .sent, deliveredAt := some stamp }
  | acknowledge (c : DurableCommand) (ack : AckState) (stamp : String)
      (reason : Option String) (h : c.state ∈ ack.allowed)
      (hs : c.state = .dispatching → truthy c.sendStartedAt = true) :
      Move c
        { c with
          state := ack.state
          acknowledgedAt := c.acknowledgedAt.or (some stamp)
          terminalAt := if ack.state.terminal then some stamp else none
          lastError := reason.or c.lastError }
  | fail (c : DurableCommand) (stamp : String) (reason : Option String)
      (h : Retractable c ∨ (InFlight c ∧ c.sideEffecting = false)) :
      Move c
        { c with
          state := .failed, lastError := reason, terminalAt := some stamp }
  | lose (c : DurableCommand) (stamp : String) (reason : Option String)
      (h : InFlight c) (hs : c.sideEffecting = true) :
      Move c
        { c with
          state := .outcomeUnknown
          lastError := reason
          terminalAt := some stamp }
  | requeue (c : DurableCommand) (next : String) (reason : String)
      (h : Retractable c) (ha : c.attemptCount < c.maxAttempts) :
      Move c
        { c with
          state := .queued
          nextAttemptAt := some next
          lastError := some reason }
  | postpone (c : DurableCommand) (next : String) (reason : String)
      (h : c.state = .dispatching) (hs : truthy c.sendStartedAt = false)
      (ha : 0 ≤ c.attemptCount - 1) :
      Move c
        { c with
          state := .queued
          attemptCount := c.attemptCount - 1
          nextAttemptAt := some next
          lastError := some reason }
  | resolve (c : DurableCommand) (outcome : Outcome) (stamp : String)
      (reason : Option String) (h : c.state = .outcomeUnknown) :
      Move c
        { c with
          state := outcome.state
          lastError := reason
          terminalAt := some stamp }
  | detach (c : DurableCommand) (keep : String → Bool) :
      Move c (DurableCommand.detach keep c)

/-! ## What a move keeps -/

theorem Move.commandId {c d : DurableCommand} (h : Move c d) :
    d.commandId = c.commandId := by
  cases h <;> rfl

theorem Move.sideEffecting {c d : DurableCommand} (h : Move c d) :
    d.sideEffecting = c.sideEffecting := by
  cases h <;> rfl

theorem AckState.state_ne_queued (ack : AckState) : ack.state ≠ .queued := by
  cases ack <;> simp [AckState.state]

theorem AckState.state_ne_dispatching (ack : AckState) :
    ack.state ≠ .dispatching := by
  cases ack <;> simp [AckState.state]

theorem Outcome.state_terminal (outcome : Outcome) :
    outcome.state.terminal = true := by
  cases outcome <;> rfl

theorem Move.started {c d : DurableCommand} (h : Move c d)
    (hse : c.sideEffecting = true) (hc : Started c) : Started d := by
  obtain ⟨hq, hd⟩ := hc
  have hretract : ¬ Retractable c := by
    rintro (h | ⟨h, hs | hs⟩)
    · exact hq h
    · simp [hd h] at hs
    · simp [hse] at hs
  cases h with
  | reserve at_ h => exact absurd h hq
  | send stamp h hs => simp [Started]
  | acknowledge ack stamp reason h hs =>
      exact ⟨ack.state_ne_queued, fun h' =>
        absurd h' ack.state_ne_dispatching⟩
  | fail stamp reason h => simp [Started]
  | lose stamp reason h hs => simp [Started]
  | requeue next reason h ha => exact absurd h hretract
  | postpone next reason h hs ha =>
      rw [hd h] at hs
      cases hs
  | resolve outcome stamp reason h =>
      cases outcome <;> simp [Started, Outcome.state]
  | detach keep => exact ⟨hq, hd⟩

def Stamped (c : DurableCommand) : Prop :=
  c.sendStartedAt.isSome = true → truthy c.sendStartedAt = true

theorem Move.stamped {c d : DurableCommand} (h : Move c d)
    (hc : Stamped c) : Stamped d := by
  cases h with
  | reserve at_ h => simp [Stamped]
  | _ => exact hc

def Settled (state : CommandState) : Prop :=
  state.terminal = true ∨ state = .outcomeUnknown

structure Recorded (c : DurableCommand) : Prop where
  nonneg : 0 ≤ c.attemptCount
  bounded : c.attemptCount ≤ c.maxAttempts
  queued : c.state = .queued → c.attemptCount < c.maxAttempts
  dispatching : c.state = .dispatching → 1 ≤ c.attemptCount
  terminalAt : c.terminalAt.isSome = true ↔ Settled c.state

theorem Recorded.terminalAt_none {c : DurableCommand} (hc : Recorded c)
    (h : c.state = .queued ∨ c.state = .dispatching) :
    ¬ c.terminalAt.isSome = true := by
  rw [hc.terminalAt]
  rcases h with h | h <;> simp [Settled, h, CommandState.terminal]

theorem Retractable.state {c : DurableCommand} (h : Retractable c) :
    c.state = .queued ∨ c.state = .dispatching :=
  h.imp_right And.left

theorem Move.recorded {c d : DurableCommand} (h : Move c d)
    (hc : Recorded c) : Recorded d := by
  cases h with
  | reserve at_ h =>
      have hlt := hc.queued h
      have hnonneg := hc.nonneg
      have hnone := hc.terminalAt_none (.inl h)
      refine ⟨?_, ?_, by simp, ?_, ?_⟩
      · change 0 ≤ c.attemptCount + 1
        omega
      · change c.attemptCount + 1 ≤ c.maxAttempts
        omega
      · intro _
        change 1 ≤ c.attemptCount + 1
        omega
      · simpa [Settled, CommandState.terminal] using hnone
  | send stamp h hs =>
      have hnone := hc.terminalAt_none (.inr h)
      refine ⟨hc.nonneg, hc.bounded, by simp, by simp, ?_⟩
      simpa [Settled, CommandState.terminal] using hnone
  | acknowledge ack stamp reason h hs =>
      refine ⟨hc.nonneg, hc.bounded, fun h' => absurd h' ack.state_ne_queued,
        fun h' => absurd h' ack.state_ne_dispatching, ?_⟩
      cases ack <;> simp [AckState.state, CommandState.terminal, Settled]
  | fail stamp reason h =>
      exact ⟨hc.nonneg, hc.bounded, by simp, by simp,
        by simp [Settled, CommandState.terminal]⟩
  | lose stamp reason h hs =>
      exact ⟨hc.nonneg, hc.bounded, by simp, by simp, by simp [Settled]⟩
  | requeue next reason h ha =>
      have hnone := hc.terminalAt_none h.state
      refine ⟨hc.nonneg, hc.bounded, fun _ => ha, by simp, ?_⟩
      simpa [Settled, CommandState.terminal] using hnone
  | postpone next reason h hs ha =>
      have hle := hc.bounded
      have hnone := hc.terminalAt_none (.inr h)
      refine ⟨ha, ?_, fun _ => ?_, by simp, ?_⟩
      · change c.attemptCount - 1 ≤ c.maxAttempts
        omega
      · change c.attemptCount - 1 < c.maxAttempts
        omega
      · simpa [Settled, CommandState.terminal] using hnone
  | resolve outcome stamp reason h =>
      refine ⟨hc.nonneg, hc.bounded, ?_, ?_, ?_⟩ <;>
        cases outcome <;> simp [Outcome.state, Settled, CommandState.terminal]
  | detach keep =>
      exact ⟨hc.nonneg, hc.bounded, hc.queued, hc.dispatching, hc.terminalAt⟩

theorem AckState.not_terminal_of_allowed {ack : AckState}
    {state : CommandState} (h : state ∈ ack.allowed) :
    state.terminal = false := by
  cases ack <;> cases state <;> simp_all [AckState.allowed,
    CommandState.terminal]

/-- `completed`, `failed` and `cancelled` are absorbing. -/
theorem Move.absorbing {c d : DurableCommand} (h : Move c d)
    (hc : c.state.terminal = true) : d.state = c.state := by
  have hne : ∀ {state}, c.state = state → state.terminal = true := by
    rintro _ rfl
    exact hc
  have hretract : ¬ Retractable c := fun h => by
    rcases h.state with h | h <;> cases hne h
  have hflight : ¬ InFlight c := by
    rintro (⟨h, -⟩ | h | h | h) <;> cases hne h
  cases h with
  | reserve at_ h => cases hne h
  | send stamp h hs => cases hne h
  | acknowledge ack stamp reason h hs =>
      rw [AckState.not_terminal_of_allowed h] at hc
      cases hc
  | fail stamp reason h =>
      rcases h with h | ⟨h, -⟩
      · exact absurd h hretract
      · exact absurd h hflight
  | lose stamp reason h hs => exact absurd h hflight
  | requeue next reason h ha => exact absurd h hretract
  | postpone next reason h hs ha => cases hne h
  | resolve outcome stamp reason h => cases hne h
  | detach keep => rfl

/-! ## Sequences of moves -/

abbrev Moves := Relation.ReflTransGen Move

theorem Moves.preserve {P : DurableCommand → Prop}
    (hP : ∀ c d, P c → Move c d → P d) {c d : DurableCommand}
    (h : Moves c d) (hc : P c) : P d := by
  induction h with
  | refl => exact hc
  | tail _ hmove ih => exact hP _ _ ih hmove

theorem Moves.commandId {c d : DurableCommand} (h : Moves c d) :
    d.commandId = c.commandId :=
  h.preserve (P := fun d => d.commandId = c.commandId)
    (fun _ _ hd hmove => hmove.commandId.trans hd) rfl

theorem Moves.sideEffecting {c d : DurableCommand} (h : Moves c d) :
    d.sideEffecting = c.sideEffecting :=
  h.preserve (P := fun d => d.sideEffecting = c.sideEffecting)
    (fun _ _ hd hmove => hmove.sideEffecting.trans hd) rfl

theorem Moves.stamped {c d : DurableCommand} (h : Moves c d)
    (hc : Stamped c) : Stamped d :=
  h.preserve (fun _ _ hd hmove => hmove.stamped hd) hc

theorem Moves.recorded {c d : DurableCommand} (h : Moves c d)
    (hc : Recorded c) : Recorded d :=
  h.preserve (fun _ _ hd hmove => hmove.recorded hd) hc

theorem Moves.started {c d : DurableCommand} (h : Moves c d)
    (hse : c.sideEffecting = true) (hc : Started c) : Started d :=
  (h.preserve (P := fun d => d.sideEffecting = true ∧ Started d)
    (fun _ _ hd hmove =>
      ⟨hmove.sideEffecting.trans hd.1, hmove.started hd.1 hd.2⟩)
    ⟨hse, hc⟩).2

theorem Moves.absorbing {c d : DurableCommand} (h : Moves c d)
    (hc : c.state.terminal = true) : d.state = c.state :=
  h.preserve (P := fun d => d.state = c.state)
    (fun _ _ hd hmove =>
      (hmove.absorbing (by rw [hd]; exact hc)).trans hd) rfl

end OrcState.Command
