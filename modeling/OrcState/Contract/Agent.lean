import OrcState.Contract.Types

/-!
# Agent records

An entry of `agents.json`, as the session code reads and resets it.  What the
provider stores in `provider_ref` is its JSON text.
-/

namespace OrcState.Contract

inductive AgentStatus where
  | idle | running | offline | dead
  deriving DecidableEq, Repr

inductive AgentRole where
  | worker | reviewer | master | scout
  deriving DecidableEq, Repr

def AgentRole.text : AgentRole → String
  | .worker => "worker"
  | .reviewer => "reviewer"
  | .master => "master"
  | .scout => "scout"

structure Agent where
  agentId : AgentId
  status : AgentStatus
  role : Option AgentRole := none
  sessionHandle : Option String := none
  sessionToken : Option String := none
  sessionStartedAt : Option String := none
  sessionReadyAt : Option String := none
  providerRef : Option String := none
  registeredAt : String := ""
  lastHeartbeatAt : Option String := none
  lastStatusChangeAt : Option String := none
  deriving DecidableEq, Repr

/-- The lookup in `new Map(agents.map((a) => [a.agent_id, a]))`. -/
def byAgent (agents : List Agent) (agentId : AgentId) : Option Agent :=
  (agents.filter fun a => a.agentId = agentId).getLast?

end OrcState.Contract
