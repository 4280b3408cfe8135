import OrcState.Foundation.Transition

/-!
# Sending a lifecycle request

A worker sends each lifecycle request to the coordinator's control server, and
`sendLifecycle` sends it again only while it provably never got there.  Between
the two lie a socket, the files that lead to it, and coordinators that start, shut
down and crash at any moment.  A request may be under way, or have been handled,
when its sender has given up waiting for the answer.
-/

namespace OrcState.Control.Dispatch

open OrcState.Foundation

/-! ## Errors -/

inductive ControlErrorCode where
  | unsupportedProtocolVersion
  | unauthenticated
  | forbidden
  | notFound
  | conflict
  | badRequest
  | unavailable
  | internal
  deriving DecidableEq, Repr

inductive Failure where
  | control (code : ControlErrorCode)
  | other
  deriving DecidableEq, Repr

/-- The codes that `connectionError` tells apart. -/
inductive Errno where
  | econnrefused
  | enoent
  | eacces
  | eperm
  | other
  deriving DecidableEq, Repr

def connectionError : Errno → Failure
  | .econnrefused | .enoent => .control .unavailable
  | .eacces | .eperm => .control .forbidden
  | .other => .other

inductive Thrown where
  | notFound
  | conflict
  | input
  | forbidden
  | unauthenticated
  | other
  deriving DecidableEq, Repr

/-- `classify`, of the errors that are no `ControlError` yet. -/
def classify : Thrown → ControlErrorCode
  | .notFound => .notFound
  | .conflict => .conflict
  | .input => .badRequest
  | .forbidden => .forbidden
  | .unauthenticated => .unauthenticated
  | .other => .internal

/-! ## The parties -/

inductive Sender where
  | idle
  | calling (deadline : Int)
  | waiting (deadline : Int) (connection : Nat)
  | delaying (deadline : Int)
  | returned
  | failed (failure : Failure)
  deriving DecidableEq, Repr

/-- The `catch` of `sendLifecycle`. -/
def Sender.fail (deadline now : Int) (failure : Failure) : Sender :=
  if failure ≠ .control .unavailable ∨ deadline ≤ now then .failed failure
  else .delaying deadline

/-- Where the server is with a request; `gone` with the process that handled it. -/
inductive Stage where
  | arrived
  | reading
  | answered (reply : Except ControlErrorCode Unit)
  | gone

structure Connection where
  sender : Nat
  server : Nat
  /-- The server whose bearer token the sender presents. -/
  token : Nat
  stage : Stage
  /-- The sender can no longer receive the answer. -/
  broken : Bool := false

def Connection.crash (connection : Connection) : Connection :=
  match connection.stage with
  | .answered _ => { connection with broken := true }
  | _ => { connection with broken := true, stage := .gone }

/-- A coordinator's control server; `listening` ends with `close` or a crash. -/
structure Server where
  listening : Bool
  closing : Bool
  alive : Bool

/-- How far a starting server is with the socket file; `failed` where it throws. -/
inductive Start where
  | found
  | stale
  | clear
  | failed

/--
What the senders and servers share.  A file is known by the server that wrote it,
and the log has the sender of every request that was handed to `applyLifecycle`.
-/
structure State (σ : Type) where
  store : σ
  senders : Nat → Sender
  servers : Nat → Option Server
  starts : Nat → Option Start
  connections : Nat → Option Connection
  /-- The number of connections so far. -/
  opened : Nat
  endpointFile : Option Nat
  tokenFile : Option Nat
  socketFile : Option Nat
  applied : List Nat

structure Requests (σ : Type) where
  /-- Whether a server speaks the senders' version of the protocol. -/
  supported : Nat → Bool
  /-- `readBody` and `parseLifecycleRequest`. -/
  parse : Nat → Except ControlErrorCode Unit
  authorize : σ → Nat → Except ControlErrorCode Unit
  /-- `applyLifecycle`, which may have written before it throws. -/
  apply : σ → Nat → Option Thrown × σ

variable {σ : Type}

namespace State

def setSender (s : State σ) (c : Nat) (sender : Sender) : State σ :=
  { s with senders := Function.update s.senders c sender }

def setStage (s : State σ) (n : Nat) (connection : Connection) (stage : Stage) :
    State σ :=
  { s with
    connections := Function.update s.connections n (some { connection with stage }) }

section Fields

variable (s : State σ) (c n : Nat) (sender : Sender) (connection : Connection)
variable (stage : Stage)

@[simp] theorem setSender_self : (s.setSender c sender).senders c = sender :=
  Function.update_self ..

@[simp] theorem setSender_other {d : Nat} (h : d ≠ c) :
    (s.setSender c sender).senders d = s.senders d :=
  Function.update_of_ne h ..

@[simp] theorem setSender_connections :
    (s.setSender c sender).connections = s.connections := rfl

@[simp] theorem setSender_applied :
    (s.setSender c sender).applied = s.applied := rfl

@[simp] theorem setStage_self :
    (s.setStage n connection stage).connections n = some { connection with stage } :=
  Function.update_self ..

@[simp] theorem setStage_other {m : Nat} (h : m ≠ n) :
    (s.setStage n connection stage).connections m = s.connections m :=
  Function.update_of_ne h ..

@[simp] theorem setStage_senders :
    (s.setStage n connection stage).senders = s.senders := rfl

@[simp] theorem setStage_applied :
    (s.setStage n connection stage).applied = s.applied := rfl

end Fields

/-! ## The sender -/

def discover (requests : Requests σ) (s : State σ) : Except Failure Nat :=
  match s.endpointFile, s.tokenFile with
  | some endpoint, some token =>
      if requests.supported endpoint then .ok token
      else .error (.control .unsupportedProtocolVersion)
  | _, _ => .error (.control .unavailable)

def connect (s : State σ) : Except Errno Nat :=
  match s.socketFile with
  | none => .error .enoent
  | some server =>
      if (s.servers server).any Server.listening then .ok server
      else .error .econnrefused

/-- `call`, up to the request on its way; a fault keeps `connect` from succeeding. -/
def call (requests : Requests σ) (s : State σ) (c : Nat) (fault : Option Errno)
    (now : Int) : Option (State σ) :=
  match s.senders c with
  | .calling deadline =>
      match s.discover requests with
      | .error failure => some (s.setSender c (.fail deadline now failure))
      | .ok token =>
          match fault, s.connect with
          | some errno, _ | none, .error errno =>
              some (s.setSender c (.fail deadline now (connectionError errno)))
          | none, .ok server =>
              let connection := { sender := c, server, token, stage := .arrived }
              let sent :=
                { s with
                  connections :=
                    Function.update s.connections s.opened (some connection)
                  opened := s.opened + 1 }
              some (sent.setSender c (.waiting deadline s.opened))
  | _ => none

def receive (s : State σ) (c : Nat) (timeout : Bool) (now : Int) :
    Option (State σ) :=
  match s.senders c with
  | .waiting deadline n =>
      match s.connections n with
      | some { stage := .answered reply, broken := false, .. } =>
          match reply with
          | .ok _ => some (s.setSender c .returned)
          | .error code => some (s.setSender c (.fail deadline now (.control code)))
      | some connection =>
          if timeout ∨ connection.broken then
            some (s.setSender c (.fail deadline now .other))
          else none
      | none => none
  | _ => none

def wake (s : State σ) (c : Nat) : Option (State σ) :=
  match s.senders c with
  | .delaying deadline => some (s.setSender c (.calling deadline))
  | _ => none

/-! ## The server -/

/-- `route`, up to where the body is awaited. -/
def route (requests : Requests σ) (s : State σ) (n : Nat) : Option (State σ) :=
  match s.connections n with
  | some connection =>
      match connection.stage, s.servers connection.server with
      | .arrived, some server =>
          let answer code := some (s.setStage n connection (.answered (.error code)))
          if !server.alive then none
          else if server.closing then answer .unavailable
          else if !requests.supported connection.server then
            answer .unsupportedProtocolVersion
          else if connection.token ≠ connection.server then answer .unauthenticated
          else some (s.setStage n connection .reading)
      | _, _ => none
  | none => none

def finish (requests : Requests σ) (s : State σ) (n : Nat) (aborted : Bool) :
    Option (State σ) :=
  match s.connections n with
  | some connection =>
      match connection.stage, s.servers connection.server with
      | .reading, some server =>
          let answer reply := s.setStage n connection (.answered reply)
          if !server.alive then none
          else if aborted then some (answer (.error .internal))
          else
            match requests.parse connection.sender with
            | .error code => some (answer (.error code))
            | .ok _ =>
                if server.closing then some (answer (.error .unavailable))
                else
                  match requests.authorize s.store connection.sender with
                  | .error code => some (answer (.error code))
                  | .ok _ =>
                      let (thrown, store) := requests.apply s.store connection.sender
                      let reply := match thrown with
                        | none => .ok ()
                        | some thrown => .error (classify thrown)
                      some
                        { answer reply with
                          store
                          applied := s.applied ++ [connection.sender] }
      | _, _ => none
  | none => none

def setServer (s : State σ) (g : Nat) (server : Server) : State σ :=
  { s with servers := Function.update s.servers g (some server) }

def setStart (s : State σ) (g : Nat) (start : Start) : State σ :=
  { s with starts := Function.update s.starts g (some start) }

/--
`clearStaleSocket`, one step for each look at the socket file.  Any fault of the
connection counts as a dead holder, and `unlinkSync` goes by the path.
-/
def clearStaleSocket (s : State σ) (g : Nat) (fault : Bool) : Option (State σ) :=
  match s.starts g, s.socketFile with
  | none, none => some (s.setStart g .clear)
  | none, some _ => some (s.setStart g .found)
  | some .found, _ =>
      let live := !fault && s.connect.toBool
      some (s.setStart g (if live then .failed else .stale))
  | some .stale, none => some (s.setStart g .failed)
  | some .stale, some _ => some { s.setStart g .clear with socketFile := none }
  | some .clear, _ | some .failed, _ => none

def listen (s : State σ) (g : Nat) : Option (State σ) :=
  match s.starts g, s.servers g, s.socketFile with
  | some .clear, none, none =>
      some
        { s.setServer g { listening := true, closing := false, alive := true } with
          socketFile := some g }
  | some .clear, none, some _ => some (s.setStart g .failed)
  | _, _, _ => none

/-- What `startControlServer` writes last. -/
def publish (s : State σ) (g : Nat) (endpoint : Bool) : Option (State σ) :=
  match s.servers g with
  | some server =>
      if !server.alive then none
      else if endpoint then some { s with endpointFile := some g }
      else some { s with tokenFile := some g }
  | none => none

/--
`close`; the endpoint and the token stay when another server has taken the endpoint
over.  `server.close` itself removes the socket file, by its path.
-/
def close (s : State σ) (g : Nat) : Option (State σ) :=
  match s.servers g with
  | some server =>
      if !server.alive then none
      else
        let closed :=
          { s.setServer g { server with listening := false, closing := true } with
            socketFile := none }
        if s.endpointFile.all (· = g) then
          some { closed with endpointFile := none, tokenFile := none }
        else some closed
  | none => none

/-- The process is gone, with what it had not answered; its files stay. -/
def crash (s : State σ) (g : Nat) : Option (State σ) :=
  match s.servers g with
  | some _ =>
      some
        { s.setServer g { listening := false, closing := true, alive := false } with
          connections := fun n => (s.connections n).map fun connection =>
            if connection.server = g then connection.crash else connection }
  | none => none

def breakOff (s : State σ) (n : Nat) : Option (State σ) :=
  match s.connections n with
  | some connection =>
      some { s with
        connections :=
          Function.update s.connections n (some { connection with broken := true }) }
  | none => none

end State

/-! ## Runs -/

inductive Action (σ : Type) where
  | submit (c : Nat) (deadline : Int)
  | call (c : Nat) (fault : Option Errno) (now : Int)
  | receive (c : Nat) (timeout : Bool) (now : Int)
  | wake (c : Nat)
  | route (n : Nat)
  | finish (n : Nat) (aborted : Bool)
  | clearStaleSocket (g : Nat) (fault : Bool)
  | listen (g : Nat)
  | publish (g : Nat) (endpoint : Bool)
  | close (g : Nat)
  | crash (g : Nat)
  | breakOff (n : Nat)
  /-- Anyone else writes to the store. -/
  | write (store : σ)

def State.perform (requests : Requests σ) (s : State σ) :
    Action σ → Option (State σ)
  | .submit c deadline =>
      if s.senders c = .idle then some (s.setSender c (.calling deadline)) else none
  | .call c fault now => s.call requests c fault now
  | .receive c timeout now => s.receive c timeout now
  | .wake c => s.wake c
  | .route n => s.route requests n
  | .finish n aborted => s.finish requests n aborted
  | .clearStaleSocket g fault => s.clearStaleSocket g fault
  | .listen g => s.listen g
  | .publish g endpoint => s.publish g endpoint
  | .close g => s.close g
  | .crash g => s.crash g
  | .breakOff n => s.breakOff n
  | .write store => some { s with store }

def State.fresh (store : σ) : State σ where
  store := store
  senders _ := .idle
  servers _ := none
  starts _ := none
  connections _ := none
  opened := 0
  endpointFile := none
  tokenFile := none
  socketFile := none
  applied := []

def dispatchSystem (requests : Requests σ) : System (State σ) (Action σ) where
  initial s := ∃ store, s = .fresh store
  step := State.perform requests

end OrcState.Control.Dispatch
