import OCF.Core.Resource

/-!
# The mesh's view of a participating node

The membership record a peer needs in order to reach another node. The liveness time stamp of the
record is left out: liveness is kept by the membership table.
-/

namespace OCF.Fabric

/-- Raw bytes: payloads, keys and frames. -/
abbrev Bytes := List UInt8

/-- How a node can be reached on the fabric. -/
inductive Reachability
  /-- Directly dialable from anywhere in the fleet (`Public`). -/
  | pub
  /-- Behind NAT: reachable only via a relay (`Private`). -/
  | priv
  /-- Directly dialable and willing to forward traffic (`Relay`). -/
  | relay
  deriving DecidableEq

/-- A node advertised in the fabric mesh. -/
structure FabricNode where
  nodeId : NodeId
  machineId : Option Id
  publicKey : Bytes
  endpoints : List String
  reachability : Reachability
  deriving DecidableEq

namespace FabricNode

/-- A node record from an identity and its endpoints. -/
def new (nodeId : NodeId) (publicKey : Bytes) (endpoints : List String) : FabricNode :=
  ⟨nodeId, none, publicKey, endpoints, .pub⟩

/-- The first advertised endpoint: the address a transport dials. -/
def primaryEndpoint (n : FabricNode) : Option String := n.endpoints.head?

end FabricNode

end OCF.Fabric
