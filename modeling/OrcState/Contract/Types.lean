import Mathlib.Data.List.Lex

/-!
# Run records

The claim of a run as the store keeps it, with every field the lifecycle code
reads or writes.  A field the source marks optional or nullable is an `Option`;
`undefined` and `null` are the same value here, as they are to every reader.
Times are the strings the store holds.  Their meaning is the host's date
functions, which are a parameter of the development.
-/

namespace OrcState.Contract

abbrev RunId := String

abbrev TaskRef := String

abbrev AgentId := String

/-! ## Dates -/

/--
The two date functions of the host that the program relies on: `Date.parse`,
with `none` for `NaN`, and `toISOString` of a time in milliseconds.
-/
structure DateApi where
  parse : String → Option Int
  toISOString : Int → String
  parse_toISOString : ∀ ms, (parse (toISOString ms)).isSome = true
  toISOString_ne_empty : ∀ ms, toISOString ms ≠ ""

/-- The `date-time` format that `createOrchestratorAjv` installs. -/
def DateApi.isDateTime (dates : DateApi) (value : String) : Bool :=
  value ≠ "" && (dates.parse value).isSome

@[simp] theorem DateApi.isDateTime_toISOString (dates : DateApi) (ms : Int) :
    dates.isDateTime (dates.toISOString ms) = true := by
  simp [DateApi.isDateTime, dates.parse_toISOString,
    dates.toISOString_ne_empty]

/--
The host's functions on the first ten milliseconds of the epoch, where they are
what ISO 8601 says; runs on fixed inputs read their times from it.
-/
def DateApi.epoch : DateApi where
  parse value :=
    if value.toList.reverse.head? = some 'Z' then
      some (((value.toList.reverse.drop 1).headD '0').toNat - 48 : Nat)
    else none
  toISOString ms := "1970-01-01T00:00:00.00" ++ toString ms ++ "Z"
  parse_toISOString ms := by simp
  toISOString_ne_empty ms := by simp

/-- A nullable string as the condition of an `if`: the empty string is false. -/
def truthy : Option String → Bool
  | none => false
  | some s => s ≠ ""

@[simp] theorem truthy_none : truthy none = false := rfl

@[simp] theorem truthy_toISOString (dates : DateApi) (ms : Int) :
    truthy (some (dates.toISOString ms)) = true := by
  simp [truthy, dates.toISOString_ne_empty]

/-! ## Text -/

/-- White space of `String.prototype.trim`. -/
def jsSpace (c : Char) : Bool :=
  c = ' ' || ('\t' ≤ c && c ≤ '\r') ||
  [0xA0, 0x1680, 0x2028, 0x2029, 0x202F, 0x205F, 0x3000, 0xFEFF].contains
    c.toNat ||
  (0x2000 ≤ c.toNat && c.toNat ≤ 0x200A)

def blank (text : String) : Bool := text.toList.all jsSpace

def utf16 (c : Char) : List Nat :=
  if c.toNat < 0x10000 then [c.toNat]
  else
    [0xD800 + (c.toNat - 0x10000) / 0x400, 0xDC00 + (c.toNat - 0x10000) % 0x400]

/-- The order of `Array.prototype.sort`: by code units, not by characters. -/
def jsLe (a b : String) : Bool :=
  a.toList.flatMap utf16 ≤ b.toList.flatMap utf16

/-! ## Claims -/

inductive ClaimState where
  | claimed | inProgress | done | failed
  deriving DecidableEq, Repr

def ClaimState.active : ClaimState → Bool
  | .claimed | .inProgress => true
  | .done | .failed => false

def ClaimState.text : ClaimState → String
  | .claimed => "claimed"
  | .inProgress => "in_progress"
  | .done => "done"
  | .failed => "failed"

inductive FinalizationState where
  | awaitingFinalize
  | finalizeRebaseRequested
  | finalizeRebaseInProgress
  | readyToMerge
  | blockedFinalize
  | prCreated
  | prReviewInProgress
  | prMerged
  | prFailed
  deriving DecidableEq, Repr

inductive InputState where
  | awaitingInput
  deriving DecidableEq, Repr

structure Claim where
  runId : RunId
  taskRef : TaskRef
  agentId : AgentId
  state : ClaimState
  claimedAt : String
  leaseExpiresAt : String
  taskEnvelopeSentAt : Option String := none
  lastHeartbeatAt : Option String := none
  startedAt : Option String := none
  finishedAt : Option String := none
  failureReason : Option String := none
  finalizationState : Option FinalizationState := none
  finalizationRetryCount : Nat := 0
  finalizationBlockedReason : Option String := none
  inputState : Option InputState := none
  inputRequestedAt : Option String := none
  sessionStartRetryCount : Nat := 0
  sessionStartRetryNextAt : Option String := none
  sessionStartLastError : Option String := none
  escalationNotifiedAt : Option String := none
  prRef : Option String := none
  prCreatedAt : Option String := none
  prInitialWorkCompleteSeq : Option Nat := none
  deriving DecidableEq, Repr

def Claim.active (claim : Claim) : Bool := claim.state.active

/-! ## Tasks -/

inductive TaskStatus where
  | todo | claimed | inProgress | done | blocked | released | cancelled
  deriving DecidableEq, Repr

/-! ## Refusals -/

inductive ErrorKind where
  | notFound | conflict | input | forbidden | unauthenticated
  | internal
  deriving DecidableEq, Repr

/-- A thrown error; `internal` is a plain `Error` or one from the database. -/
structure DomainError where
  kind : ErrorKind
  message : String
  deriving DecidableEq, Repr

def notFoundError (message : String) : DomainError := ⟨.notFound, message⟩

def conflictError (message : String) : DomainError := ⟨.conflict, message⟩

def inputError (message : String) : DomainError := ⟨.input, message⟩

def forbiddenError (message : String) : DomainError := ⟨.forbidden, message⟩

def plainError (message : String) : DomainError := ⟨.internal, message⟩

end OrcState.Contract
