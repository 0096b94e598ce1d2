import OCF.Authz.Engine
import OCF.Lb.Controller
import OCF.Network.Controller
import OCF.Runtime.Workload
import OCF.Store.StateStore
import OCF.Topology.Store

/-!
# The fabric controller

The control plane of one node: the live state of its subsystems, the attachments of workloads to
subnets, and the durable store. An operation returns its result together with the controller it
leaves behind, also when it fails.

What comes from outside is part of the arguments (`PersistEnv`): the workloads and disks that the
providers list (the providers keep no state of their own here), the order in which hash maps are
iterated, and the outcome of each proposal to the replicated log. Values of the store are the
records themselves: serialization to JSON and back is taken to be lossless.
-/

namespace OCF.Api

open OCF.Authz OCF.Lb OCF.Network OCF.Runtime OCF.Store OCF.Topology

/-! ## Persisted records -/

/-- A resource as it is stored. -/
inductive Record
  | region (r : Region)
  | datacenter (d : Datacenter)
  | rack (r : Rack)
  | machine (m : Machine)
  | workload (w : Workload)
  | vpc (v : Vpc)
  | subnet (s : Subnet)
  | loadBalancer (lb : LoadBalancer)
  | user (u : User)
  | role (r : Role)
  | group (g : Group)
  | binding (b : RoleBinding)
  | disk (d : PhysicalDisk)
  | attachment (a : NetworkAttachment)

/-- The collection a resource is stored in. -/
def Record.collection : Record → String
  | .region _ => "regions"
  | .datacenter _ => "datacenters"
  | .rack _ => "racks"
  | .machine _ => "machines"
  | .workload _ => "workloads"
  | .vpc _ => "vpcs"
  | .subnet _ => "subnets"
  | .loadBalancer _ => "loadbalancers"
  | .user _ => "rbac_users"
  | .role _ => "rbac_roles"
  | .group _ => "rbac_groups"
  | .binding _ => "rbac_bindings"
  | .disk _ => "disks"
  | .attachment _ => "workload_networks"

/-! Decoding a record as one kind of resource: nothing when it is another kind. -/

/-- A record that is read as a region. -/
def Record.asRegion : Record → Option Region
  | .region x => some x
  | _ => none

/-- A record that is read as a datacenter. -/
def Record.asDatacenter : Record → Option Datacenter
  | .datacenter x => some x
  | _ => none

/-- A record that is read as a rack. -/
def Record.asRack : Record → Option Rack
  | .rack x => some x
  | _ => none

/-- A record that is read as a machine. -/
def Record.asMachine : Record → Option Machine
  | .machine x => some x
  | _ => none

/-- A record that is read as a VPC. -/
def Record.asVpc : Record → Option Vpc
  | .vpc x => some x
  | _ => none

/-- A record that is read as a subnet. -/
def Record.asSubnet : Record → Option Subnet
  | .subnet x => some x
  | _ => none

/-- A record that is read as a load balancer. -/
def Record.asLoadBalancer : Record → Option LoadBalancer
  | .loadBalancer x => some x
  | _ => none

/-- A record that is read as a user. -/
def Record.asUser : Record → Option User
  | .user x => some x
  | _ => none

/-- A record that is read as a role. -/
def Record.asRole : Record → Option Role
  | .role x => some x
  | _ => none

/-- A record that is read as a group. -/
def Record.asGroup : Record → Option Group
  | .group x => some x
  | _ => none

/-- A record that is read as a role binding. -/
def Record.asBinding : Record → Option RoleBinding
  | .binding x => some x
  | _ => none

/-- A record that is read as an attachment. -/
def Record.asAttachment : Record → Option NetworkAttachment
  | .attachment x => some x
  | _ => none

/-- What becomes of one proposal: it is committed and acknowledged, or it fails, before or after
the entry reached the store. -/
inductive PutOutcome
  | committed
  | failed (e : Error) (applied : Bool)

/-- What the rest of the system contributes to one call of `persist`. -/
structure PersistEnv where
  workloads : List Workload
  disks : List PhysicalDisk
  /-- The order in which the entries of a hash map are listed. -/
  order : {α : Type} → List α → List α
  order_perm : ∀ {α : Type} (l : List α), (order l).Perm l
  outcome : ℕ → PutOutcome

@[simp] theorem PersistEnv.mem_order (env : PersistEnv) {α : Type} {l : List α} {x : α} :
    x ∈ env.order l ↔ x ∈ l := (env.order_perm l).mem_iff

/-- The control plane of one node. -/
structure FabricController where
  topology : InMemoryTopology
  network : NetworkController
  loadbalancers : LoadBalancerController
  rbac : RbacEngine
  /-- The subnet each workload is attached to. -/
  attachments : HashMap Id NetworkAttachment
  store : StateStore Record

namespace FabricController

/-- A controller without any resource over a store; the built-in roles are seeded. -/
def fresh (store : StateStore Record) : FabricController :=
  ⟨.new, .new, .new, .withDefaults, ∅, store⟩

/-! ## Persisting -/

/-- Every workload the providers list, with its attachment. -/
def allWorkloads (c : FabricController) (listed : List Workload) : List Workload :=
  listed.map fun w => match c.attachments.lookup w.metadata.id with
    | some att => { w with network := some att }
    | none => w

/-- The records of the topology tree, from the regions down. -/
def topologyProposals (env : PersistEnv) (t : InMemoryTopology) : List (String × Record) :=
  (env.order t.listRegions).flatMap fun r => (r.metadata.id.name, .region r) ::
    (env.order (t.listDatacenters r.metadata.id)).flatMap fun d =>
      (d.metadata.id.name, .datacenter d) ::
        (env.order (t.listRacks d.metadata.id)).flatMap fun k => (k.metadata.id.name, .rack k) ::
          (env.order (t.listMachines k.metadata.id)).map fun m => (m.metadata.id.name, .machine m)

/-- The VPCs, each with its subnets. -/
def networkProposals (env : PersistEnv) (n : NetworkController) : List (String × Record) :=
  (env.order n.listVpcs).flatMap fun v => (v.metadata.id.name, .vpc v) ::
    (env.order (n.listSubnets v.metadata.id)).map fun s => (s.metadata.id.name, .subnet s)

/-- The roles and what refers to them. -/
def rbacProposals (env : PersistEnv) (e : RbacEngine) : List (String × Record) :=
  ((env.order (HashMap.values e.users)).map fun u => (u.username, .user u)) ++
    ((env.order (HashMap.values e.roles)).map fun r => (r.metadata.name, .role r)) ++
    ((env.order (HashMap.values e.groups)).map fun g => (g.metadata.name, .group g)) ++
    (env.order (HashMap.values e.bindings)).map fun b => (b.id.name, .binding b)

/-- What `persist` proposes, in order: the key and the record of each write. -/
def proposals (c : FabricController) (env : PersistEnv) : List (String × Record) :=
  topologyProposals env c.topology ++
    ((c.allWorkloads env.workloads).map fun w => (w.metadata.id.name, .workload w)) ++
    networkProposals env c.network ++
    ((env.order c.loadbalancers.list).map fun lb => (lb.metadata.id.name, .loadBalancer lb)) ++
    rbacProposals env c.rbac ++
    (env.disks.map fun d => (d.serial, .disk d)) ++
    (env.order (HashMap.pairs c.attachments)).map fun e => (e.1.name, .attachment e.2)

/-- Store a record in its collection. -/
def putRecord (s : StateStore Record) (p : String × Record) : StateStore Record :=
  s.put p.2.collection p.1 p.2

/-- Propose the writes one by one; the first failure ends the call. -/
def persistPuts (outcome : ℕ → PutOutcome) :
    ℕ → List (String × Record) → StateStore Record → Result Unit × StateStore Record
  | _, [], s => (.ok (), s)
  | i, p :: ps, s =>
    match outcome i with
    | .committed => persistPuts outcome (i + 1) ps (putRecord s p)
    | .failed e applied => (.error e, if applied then putRecord s p else s)

/-- Write the control-plane state to the durable, replicated store. -/
def persist (c : FabricController) (env : PersistEnv) : Result Unit × FabricController :=
  let (r, store) := persistPuts env.outcome 0 (c.proposals env) c.store
  (r, { c with store := store })

/-! ## Attaching workloads -/

/-- The addresses of the workloads that opted in to egress on a subnet. -/
def subnetEgressAllowed (c : FabricController) (subnetId : Id) : List String :=
  ((HashMap.values c.attachments).filter fun a => a.subnetId = subnetId && a.egress).filterMap
    NetworkAttachment.address

/-- Program a subnet's egress with the current allow-list; a failure is only logged. -/
def refreshEgress (c : FabricController) (subnetId : Id) : FabricController :=
  { c with network := (c.network.refreshSubnetEgress subnetId (c.subnetEgressAllowed subnetId)).2 }

/-- The network after the prior address of a workload, if any, is released. -/
def releasePrior (c : FabricController) (workloadId : Id) : NetworkController :=
  match c.attachments.lookup workloadId with
  | some prev => c.network.releaseAddress prev.subnetId (prev.address.getD "")
  | none => c.network

/-- Attach a workload to a subnet: allocate an address, record the binding, program the subnet's
allow-list and persist. -/
def attachWorkload (c : FabricController) (env : PersistEnv) (workloadId subnetId : Id)
    (egress : Bool) : Result NetworkAttachment × FabricController :=
  match c.network.getSubnet subnetId with
  | .error e => (.error e, c)
  | .ok _ =>
    match (c.releasePrior workloadId).allocateAddress subnetId with
    | (.error e, network) => (.error e, { c with network := network })
    | (.ok address, network) =>
      let attachment := ((NetworkAttachment.new subnetId).withEgress egress).withAddress address
      let c := { c with
        network := network
        attachments := c.attachments.insert workloadId attachment }
      (.ok attachment, ((c.refreshEgress subnetId).persist env).2)

/-- Detach a workload from its subnet; without an attachment this does nothing. -/
def detachWorkload (c : FabricController) (env : PersistEnv) (workloadId : Id) :
    FabricController :=
  match c.attachments.lookup workloadId with
  | none => c
  | some att =>
    let c := { c with
      network := c.network.releaseAddress att.subnetId (att.address.getD "")
      attachments := c.attachments.erase workloadId }
    ((c.refreshEgress att.subnetId).persist env).2

/-- Set a subnet's egress capability, program it with the current allow-list and persist. -/
def setSubnetEgress (c : FabricController) (env : PersistEnv) (subnetId : Id) (mode : EgressMode) :
    Result Subnet × FabricController :=
  match c.network.setSubnetEgress subnetId mode (c.subnetEgressAllowed subnetId) with
  | (.error e, network) => (.error e, { c with network := network })
  | (.ok subnet, network) => (.ok subnet, ({ c with network := network }.persist env).2)

/-! ## Restoring -/

/-- The records of a collection that decode to the wanted kind; the others are skipped. -/
def listJson {T : Type} (s : StateStore Record) (collection : String)
    (decode : Record → Option T) : List T :=
  (s.list collection).filterMap fun e => decode e.2

/-- Put the stored regions, datacenters, racks and machines back. -/
def restoreTopology (s : StateStore Record) (t : InMemoryTopology) : InMemoryTopology :=
  let t := (listJson s "regions" Record.asRegion).foldl .putRegion t
  let t := (listJson s "datacenters" Record.asDatacenter).foldl .putDatacenter t
  let t := (listJson s "racks" Record.asRack).foldl .putRack t
  (listJson s "machines" Record.asMachine).foldl .putMachine t

/-- Create the stored VPCs and then the stored subnets; a failure is only logged. -/
def restoreNetwork (s : StateStore Record) (n : NetworkController) : NetworkController :=
  let n := (listJson s "vpcs" Record.asVpc).foldl (fun n v => (n.createVpc v).2) n
  (listJson s "subnets" Record.asSubnet).foldl (fun n s => (n.createSubnet s).2) n

/-- Create the stored load balancers; the first failure ends the restore. -/
def restoreLoadBalancers : List LoadBalancer → LoadBalancerController →
    Result Unit × LoadBalancerController
  | [], c => (.ok (), c)
  | lb :: lbs, c =>
    match c.create lb with
    | (.error e, c) => (.error e, c)
    | (.ok _, c) => restoreLoadBalancers lbs c

/-- Put the stored users, roles, groups and bindings back. -/
def restoreRbac (s : StateStore Record) (e : RbacEngine) : RbacEngine :=
  let e := (listJson s "rbac_users" Record.asUser).foldl .putUser e
  let e := (listJson s "rbac_roles" Record.asRole).foldl .putRole e
  let e := (listJson s "rbac_groups" Record.asGroup).foldl .putGroup e
  (listJson s "rbac_bindings" Record.asBinding).foldl .addBinding e

/-- The stored attachments with the workload of each; entries that do not decode are skipped. -/
def storedAttachments (s : StateStore Record) : List (Id × NetworkAttachment) :=
  (s.list "workload_networks").filterMap fun e => e.2.asAttachment.map fun att => (⟨e.1⟩, att)

/-- Reserve the address of a stored attachment, if it has one, and record the attachment. -/
def restoreAttachment (c : FabricController) (e : Id × NetworkAttachment) : FabricController :=
  { c with
    network := match e.2.address with
      | some addr => (c.network.reserveAddress e.2.subnetId addr).2
      | none => c.network
    attachments := c.attachments.insert e.1 e.2 }

/-- Reload the control-plane state from the durable store into the live subsystems. Re-creating
the stored workloads and disks goes to their providers and is not part of this state. -/
def restore (c : FabricController) : Result Unit × FabricController :=
  let c := { c with
    topology := restoreTopology c.store c.topology
    network := restoreNetwork c.store c.network }
  match restoreLoadBalancers (listJson c.store "loadbalancers" Record.asLoadBalancer)
      c.loadbalancers with
  | (.error e, lbs) => (.error e, { c with loadbalancers := lbs })
  | (.ok _, lbs) =>
    let c := { c with loadbalancers := lbs, rbac := restoreRbac c.store c.rbac }
    (.ok (), (storedAttachments c.store).foldl restoreAttachment c)

/-! ## What the operations leave behind -/

variable (c : FabricController)

@[simp] theorem persist_network (env : PersistEnv) : (c.persist env).2.network = c.network := rfl

@[simp] theorem persist_attachments (env : PersistEnv) :
    (c.persist env).2.attachments = c.attachments := rfl

@[simp] theorem refreshEgress_attachments (s : Id) :
    (c.refreshEgress s).attachments = c.attachments := rfl

@[simp] theorem refreshEgress_network (s : Id) : (c.refreshEgress s).network =
    (c.network.refreshSubnetEgress s (c.subnetEgressAllowed s)).2 := rfl

/-- What an attachment does: nothing for an unknown subnet, only the release when no address can be
allocated, else release, allocation, record and refresh. -/
theorem attachWorkload_cases (env : PersistEnv) (w s : Id) (egress : Bool) :
    (s ∉ c.network.subnets ∧ (c.attachWorkload env w s egress).2 = c) ∨
    (s ∈ c.network.subnets ∧ ¬(c.releasePrior w).CanAllocate s ∧
      (c.attachWorkload env w s egress).2 = { c with network := c.releasePrior w }) ∨
    ∃ a addr a', s ∈ c.network.subnets ∧ (c.releasePrior w).ipam.lookup s = some a ∧
      a.allocate = .ok (addr, a') ∧ (c.attachWorkload env w s egress).2 =
        (({ c with
          network := { c.releasePrior w with ipam := (c.releasePrior w).ipam.insert s a' }
          attachments := c.attachments.insert w ⟨s, egress, some addr⟩ }.refreshEgress s).persist
            env).2 := by
  unfold attachWorkload NetworkController.getSubnet
  cases hs : c.network.subnets.lookup s with
  | none => exact .inl ⟨AList.lookup_eq_none.1 hs, rfl⟩
  | some subnet =>
    have hmem : s ∈ c.network.subnets := HashMap.mem_iff_exists_lookup.2 ⟨subnet, hs⟩
    obtain ⟨hcan, e, he⟩ | ⟨a, addr, a', ha, halloc, he⟩ :=
      (c.releasePrior w).allocateAddress_cases s
    · exact .inr (.inl ⟨hmem, hcan, by simp only [he]⟩)
    · refine .inr (.inr ⟨a, addr, a', hmem, ha, halloc, ?_⟩)
      simp only [he]
      rfl

theorem releasePrior_frame (w : Id) :
    (c.releasePrior w).vpcs = c.network.vpcs ∧ (c.releasePrior w).subnets = c.network.subnets ∧
      (c.releasePrior w).egress = c.network.egress := by
  unfold releasePrior
  split <;> simp

/-- Releasing an address in one subnet leaves the pool of another as it was. -/
theorem canAllocate_releasePrior_iff {w s : Id} {prev : NetworkAttachment}
    (hw : c.attachments.lookup w = some prev) (hs : prev.subnetId ≠ s) :
    (c.releasePrior w).CanAllocate s ↔ c.network.CanAllocate s := by
  have hlook : (c.releasePrior w).ipam.lookup s = c.network.ipam.lookup s := by
    rw [releasePrior, hw]
    exact (NetworkController.lookup_ipam_releaseAddress ..).trans (if_neg (Ne.symm hs))
  rw [NetworkController.CanAllocate, NetworkController.CanAllocate, hlook]

/-- A change of egress goes to the network controller; the rest of the controller stays. -/
theorem setSubnetEgress_frame (env : PersistEnv) (s : Id) (mode : EgressMode) :
    (c.setSubnetEgress env s mode).2.network =
        (c.network.setSubnetEgress s mode (c.subnetEgressAllowed s)).2 ∧
      (c.setSubnetEgress env s mode).2.attachments = c.attachments ∧
      (c.setSubnetEgress env s mode).2.rbac = c.rbac ∧
      (c.setSubnetEgress env s mode).2.loadbalancers = c.loadbalancers := by
  unfold setSubnetEgress
  split
  · next h => exact ⟨by rw [h], rfl, rfl, rfl⟩
  · next h => exact ⟨by rw [h]; rfl, rfl, rfl, rfl⟩

end FabricController

/-! ## Runs -/

/-- A call of an operation of the controller, run to completion. -/
inductive ControllerOp
  | createVpc (vpc : Vpc)
  | deleteVpc (id : Id)
  | createSubnet (subnet : Subnet)
  | addRoute (route : Route) (fanned : Result Unit)
  | applyPolicy (policy : FirewallPolicy) (fanned : Result Unit)
  | deletePolicy (id : Id)
  | attachWorkload (env : PersistEnv) (workloadId subnetId : Id) (egress : Bool)
  | detachWorkload (env : PersistEnv) (workloadId : Id)
  | setSubnetEgress (env : PersistEnv) (subnetId : Id) (mode : EgressMode)
  | createLb (lb : LoadBalancer)
  | updateLb (lb : LoadBalancer)
  | deleteLb (id : Id)
  | putUser (user : User)
  | putGroup (group : Group)
  | putRole (role : Role)
  | addBinding (binding : RoleBinding)
  | removeBinding (id : Id)
  | putRegion (region : Region)
  | putDatacenter (dc : Datacenter)
  | putRack (rack : Rack)
  | putMachine (machine : Machine)
  | persist (env : PersistEnv)

namespace FabricController

/-- The controller after a call. -/
def exec (c : FabricController) : ControllerOp → FabricController
  | .createVpc vpc => { c with network := (c.network.createVpc vpc).2 }
  | .deleteVpc id => { c with network := (c.network.deleteVpc id).2 }
  | .createSubnet subnet => { c with network := (c.network.createSubnet subnet).2 }
  | .addRoute route fanned => { c with network := (c.network.addRoute route fanned).2 }
  | .applyPolicy policy fanned => { c with network := (c.network.applyPolicy policy fanned).2 }
  | .deletePolicy id => { c with network := (c.network.deletePolicy id).2 }
  | .attachWorkload env w s egress => (c.attachWorkload env w s egress).2
  | .detachWorkload env w => c.detachWorkload env w
  | .setSubnetEgress env s mode => (c.setSubnetEgress env s mode).2
  | .createLb lb => { c with loadbalancers := (c.loadbalancers.create lb).2 }
  | .updateLb lb => { c with loadbalancers := (c.loadbalancers.update lb).2 }
  | .deleteLb id => { c with loadbalancers := (c.loadbalancers.delete id).2 }
  | .putUser u => { c with rbac := c.rbac.putUser u }
  | .putGroup g => { c with rbac := c.rbac.putGroup g }
  | .putRole r => { c with rbac := c.rbac.putRole r }
  | .addBinding b => { c with rbac := c.rbac.addBinding b }
  | .removeBinding id => { c with rbac := (c.rbac.removeBinding id).2 }
  | .putRegion r => { c with topology := c.topology.putRegion r }
  | .putDatacenter d => { c with topology := c.topology.putDatacenter d }
  | .putRack r => { c with topology := c.topology.putRack r }
  | .putMachine m => { c with topology := c.topology.putMachine m }
  | .persist env => (c.persist env).2

/-- One call as a step of a run; every call is enabled. -/
def execStep (c : FabricController) (op : ControllerOp) : Option FabricController :=
  some (c.exec op)

end FabricController

end OCF.Api
