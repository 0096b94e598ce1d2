import OCF.Api.ClusterAddresses
import OCF.Api.Gate

/-!
# The identity of a node

A node has one identity, and every secret it uses comes from it: the keys of its Raft server and of
the transport it dials the other nodes with, the keys of its control server and client, and the
private key of its interface on each WireGuard plane. Only the transport of the mesh has a key of its
own, from the random bytes of the operating system.

The identity is the pair that belongs to the node's name, and a machine's name is in the inventory
that everybody may read. `identity_determined_by_name` says what follows: one function of the name
yields these secrets for every node of every fleet, whatever the operating system draws.
-/

namespace OCF.Api

open OCF.Fabric OCF.Topology

/-- How a node brings itself up: next to how it enters the cluster, the timeouts of its failure
detector and the port of its control server. -/
structure BootstrapConfig extends ControllerConfig where
  suspectTimeoutSecs : ℤ
  deadTimeoutSecs : ℤ
  fabricControlPort : UInt16
  deriving DecidableEq

/-- A node of a fleet and what it is started with. The node's own machine is the one of the topology
with the node's name. -/
structure NodeLaunch where
  config : BootstrapConfig
  machines : List Machine
  machine : Machine
  mem_machines : machine ∈ machines
  name_eq : machine.metadata.name = config.nodeId

/-- A server on the fabric: the port it listens on and the pair it identifies itself with. -/
structure FabricServer where
  port : UInt16
  keypair : KeyPair
  deriving DecidableEq

/-- An interface of WireGuard as it is set up. -/
structure WgInterface where
  iface : String
  listenPort : UInt16
  privateKey : String
  address : String
  deriving DecidableEq

/-- The running node: its configuration, what it programs its planes from, the transport of the mesh,
and the transport and the server of Raft. -/
structure DeployedNode where
  config : BootstrapConfig
  wg : WgNode
  transport : KeyPair
  raftTransport : KeyPair
  raftServer : FabricServer

section

variable (lib : X25519)

/-- Bring a node up. The built-in transport of the mesh is made with a fresh pair; the pair of Raft is
the one of the node's name. -/
def bootstrap (config : BootstrapConfig) (machines : List Machine) (rng : OsRng) : DeployedNode :=
  let (transport, _) := KeyPair.generate lib rng
  let membership := Membership.withTimeouts ⟨config.nodeId⟩ (max config.suspectTimeoutSecs 1 * 1000)
    (max config.deadTimeoutSecs 1 * 1000)
  let raftKp := KeyPair.fromSeedName lib config.nodeId
  ⟨config, ⟨config.nodeId, machines, membership, ∅⟩, transport, raftKp,
    ⟨config.fabricRaftPort, raftKp⟩⟩

namespace DeployedNode

variable (n : DeployedNode)

/-- The node's pair for the control channel. -/
def nodeKeypair : KeyPair := KeyPair.fromSeedName lib n.config.nodeId

def controlServer : FabricServer := ⟨n.config.fabricControlPort, n.nodeKeypair lib⟩

/-- The pair of the client that probes peers and that asks to join. -/
def controlClient : KeyPair := n.nodeKeypair lib

end DeployedNode

/-- The interface of a plane, with the address of the node's index, or the last but one of the plane
when the node has no machine. -/
def WgNode.ensureInterface (n : WgNode) (plane : WgPlane) : WgInterface where
  iface := plane.iface
  listenPort := plane.port
  privateKey := base64 (KeyPair.fromSeedName lib n.nodeId).secret
  address := (((n.machinePlan.find? fun e => e.2.1 = n.nodeId).map fun e => plane.ip e.2.2.1).getD
    (plane.addrPrefix ++ ".254")) ++ "/16"

/-- The node that is launched, when the operating system draws as given. -/
def NodeLaunch.node (d : NodeLaunch) (rng : OsRng) : DeployedNode :=
  bootstrap lib d.config d.machines rng

/-- **The name of a machine determines the secrets of its node.** One function yields the secrets of
Raft, of the control channel and of the three WireGuard planes from the name alone, for every node of
every fleet and every draw of the operating system, and for the planes also after any change of what
the node knows of its fleet. -/
theorem identity_determined_by_name :
    ∃ f : String → Bytes, ∀ (d : NodeLaunch) (rng : OsRng),
      (d.node lib rng).raftTransport.secret = f d.machine.metadata.name ∧
      (d.node lib rng).raftServer.keypair.secret = f d.machine.metadata.name ∧
      ((d.node lib rng).controlServer lib).keypair.secret = f d.machine.metadata.name ∧
      ((d.node lib rng).controlClient lib).secret = f d.machine.metadata.name ∧
      ∀ plane ∈ [wgMgmt, wgData, wgLb], ∀ wg : WgNode, wg.nodeId = (d.node lib rng).wg.nodeId →
        (wg.ensureInterface lib plane).privateKey = base64 (f d.machine.metadata.name) := by
  refine ⟨fun name => (KeyPair.fromSeedName lib name).secret, fun d rng => ?_⟩
  rw [d.name_eq]
  refine ⟨rfl, rfl, rfl, rfl, fun plane _ wg hwg => ?_⟩
  have hid : wg.nodeId = d.config.nodeId := hwg
  rw [WgNode.ensureInterface, hid]

end

/-- The first machine that a new fleet is seeded with. -/
def seededMachine : Machine :=
  ⟨.named "node-1", ⟨"us-east"⟩, ⟨"dc-1"⟩, ⟨"rack-a1"⟩, some 1, some "10.0.0.1",
    ⟨32000, 128 * 1024 * 1024 * 1024, 2 * 1024 ^ 4⟩, .running, .healthy⟩

/-- The node of that machine. -/
def seededLaunch : NodeLaunch where
  config := ⟨⟨"node-1", [], 51901⟩, 5, 5, 51900⟩
  machines := [seededMachine]
  machine := seededMachine
  mem_machines := List.mem_singleton_self _
  name_eq := rfl

/-- There is a function of the name that no node escapes. Anybody may list the machines, and the name
`node-1` gives away 32 bytes from which the library makes the secret of that node, whatever the
operating system draws. -/
theorem secret_is_public :
    (∀ lib : X25519, ¬∀ f : String → Bytes, ∃ (d : NodeLaunch) (rng : OsRng),
      (d.node lib rng).raftServer.keypair.secret ≠ f d.machine.metadata.name) ∧
    requiredPermission .get "/api/v1/machines" = none ∧
    ∀ (lib : X25519) (rng : OsRng),
      (seededLaunch.node lib rng).raftServer.keypair.secret = lib.secretBytes
        [195, 121, 50, 248, 253, 18, 148, 174, 7, 140, 166, 198, 177, 243, 232, 24,
          24, 232, 243, 177, 198, 166, 140, 7, 174, 148, 18, 253, 248, 50, 121, 195] ∧
      ((seededLaunch.node lib rng).controlServer lib).keypair.secret =
        (seededLaunch.node lib rng).raftServer.keypair.secret ∧
      ∀ plane, ((seededLaunch.node lib rng).wg.ensureInterface lib plane).privateKey =
        base64 (seededLaunch.node lib rng).raftServer.keypair.secret := by
  refine ⟨fun lib h => ?_, by decide, fun lib rng => ⟨?_, rfl, fun _ => rfl⟩⟩
  · obtain ⟨d, rng, hne⟩ := h fun name => (KeyPair.fromSeedName lib name).secret
    rw [d.name_eq] at hne
    exact hne rfl
  have hseed : expandTo32 (seed16 (utf8 "node-1")) =
      [195, 121, 50, 248, 253, 18, 148, 174, 7, 140, 166, 198, 177, 243, 232, 24,
        24, 232, 243, 177, 198, 166, 140, 7, 174, 148, 18, 253, 248, 50, 121, 195] := by
    decide +kernel
  exact congrArg lib.secretBytes hseed

end OCF.Api
