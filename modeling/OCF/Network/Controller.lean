import OCF.Network.Ipam

/-!
# The network controller

The authoritative state of the overlay (VPCs, subnets, routes, policies and the allocator of each
subnet) and its operations, each of which returns its result together with the controller it
leaves behind, also when it fails.

An operation that changes a subnet's egress hands the subnet and its allow-list to every backend
(`fanOutEgress`). The controller keeps what was handed over last for each subnet in `egress`:
this is the state of the dataplane when backends apply what they are given.
-/

namespace OCF.Network

/-! ## The resource model -/

/-- A virtual private cloud. -/
structure Vpc where
  metadata : Metadata
  cidr : String
  vni : UInt32
  deriving DecidableEq

/-- Whether a subnet provides outbound internet access. -/
inductive EgressMode
  | isolated
  | nat
  deriving DecidableEq

/-- Whether the mode provides outbound internet routing. -/
def EgressMode.providesEgress : EgressMode → Bool
  | .nat => true
  | .isolated => false

/-- A subnet carved out of a VPC. -/
structure Subnet where
  metadata : Metadata
  vpcId : Id
  cidr : String
  netns : String
  egress : EgressMode
  deriving DecidableEq

/-- A static route of a subnet. -/
structure Route where
  id : Id
  subnetId : Id
  destCidr : String
  nextHop : String
  deriving DecidableEq

/-- What a rule does with a packet. -/
inductive AclAction
  | allow
  | deny
  deriving DecidableEq

/-- The direction of the packets a rule is about. -/
inductive AclDirection
  | ingress
  | egress
  deriving DecidableEq

/-- An access-control rule; no port matches every port. -/
structure AclRule where
  id : Id
  action : AclAction
  direction : AclDirection
  proto : String
  cidr : String
  port : Option UInt16
  deriving DecidableEq

/-- What a policy attaches to. -/
inductive AclScope
  | vpc (id : Id)
  | subnet (id : Id)
  deriving DecidableEq

/-- An ordered bundle of rules applied at a scope. -/
structure FirewallPolicy where
  id : Id
  scope : AclScope
  rules : List AclRule
  deriving DecidableEq

/-! ## The controller -/

/-- The state of the network controller. -/
structure NetworkController where
  vpcs : HashMap Id Vpc
  subnets : HashMap Id Subnet
  routes : HashMap Id Route
  policies : HashMap Id FirewallPolicy
  ipam : HashMap Id SubnetAllocator
  /-- The mode and allow-list last handed to `apply_egress` for each subnet. -/
  egress : HashMap Id (EgressMode × List String)

namespace NetworkController

/-- A controller without any resource. -/
def new : NetworkController := ⟨∅, ∅, ∅, ∅, ∅, ∅⟩

/-- Hand a subnet and its allow-list to every backend. -/
def fanOutEgress (n : NetworkController) (subnet : Subnet) (allowed : List String) :
    NetworkController :=
  { n with egress := n.egress.insert subnet.metadata.id (subnet.egress, allowed) }

/-- Create a VPC. Fails if the id exists. -/
def createVpc (n : NetworkController) (vpc : Vpc) : Result Vpc × NetworkController :=
  let id := vpc.metadata.id
  if id ∈ n.vpcs then (.error (.alreadyExists ("vpc " ++ id.name)), n)
  else (.ok vpc, { n with vpcs := n.vpcs.insert id vpc })

/-- All VPCs. -/
def listVpcs (n : NetworkController) : List Vpc := HashMap.values n.vpcs

/-- Delete a VPC. Refuses while any subnet still references it. -/
def deleteVpc (n : NetworkController) (id : Id) : Result Unit × NetworkController :=
  if (HashMap.values n.subnets).any fun s => s.vpcId = id then
    (.error (.conflict ("vpc " ++ id.name ++ " still has subnets")), n)
  else if id ∈ n.vpcs then (.ok (), { n with vpcs := n.vpcs.erase id })
  else (.error (.notFound ("vpc " ++ id.name)), n)

/-- Create a subnet: record it, stand up its allocator (a CIDR that does not parse leaves it
without one) and, for a NAT subnet, program an empty allow-list. -/
def createSubnet (n : NetworkController) (subnet : Subnet) : Result Subnet × NetworkController :=
  let id := subnet.metadata.id
  if subnet.vpcId ∉ n.vpcs then (.error (.notFound ("vpc " ++ subnet.vpcId.name)), n)
  else if id ∈ n.subnets then (.error (.alreadyExists ("subnet " ++ id.name)), n)
  else
    let n := { n with subnets := n.subnets.insert id subnet }
    let n := match SubnetAllocator.new subnet.cidr with
      | .ok alloc => { n with ipam := n.ipam.insert id alloc }
      | .error _ => n
    (.ok subnet, if subnet.egress.providesEgress then n.fanOutEgress subnet [] else n)

/-- Look up a subnet. -/
def getSubnet (n : NetworkController) (id : Id) : Result Subnet :=
  match n.subnets.lookup id with
  | some subnet => .ok subnet
  | none => .error (.notFound ("subnet " ++ id.name))

/-- The subnets of a VPC. -/
def listSubnets (n : NetworkController) (vpcId : Id) : List Subnet :=
  (HashMap.values n.subnets).filter fun s => s.vpcId = vpcId

/-- Change a subnet's egress capability and program the given allow-list. -/
def setSubnetEgress (n : NetworkController) (id : Id) (mode : EgressMode) (allowed : List String) :
    Result Subnet × NetworkController :=
  match n.subnets.lookup id with
  | none => (.error (.notFound ("subnet " ++ id.name)), n)
  | some s =>
    let subnet := { s with egress := mode }
    (.ok subnet, { n with subnets := n.subnets.insert id subnet }.fanOutEgress subnet allowed)

/-- Program a subnet's egress with the given allow-list. -/
def refreshSubnetEgress (n : NetworkController) (id : Id) (allowed : List String) :
    Result Unit × NetworkController :=
  match n.getSubnet id with
  | .error e => (.error e, n)
  | .ok subnet => (.ok (), n.fanOutEgress subnet allowed)

/-- Allocate the next free host address of a subnet. -/
def allocateAddress (n : NetworkController) (id : Id) : Result String × NetworkController :=
  match n.ipam.lookup id with
  | none => (.error (.notFound ("subnet " ++ id.name ++ " IPAM")), n)
  | some alloc =>
    match alloc.allocate with
    | .error e => (.error e, n)
    | .ok (addr, alloc) => (.ok addr, { n with ipam := n.ipam.insert id alloc })

/-- Mark an address as in use. -/
def reserveAddress (n : NetworkController) (id : Id) (addr : String) :
    Result Unit × NetworkController :=
  match n.ipam.lookup id with
  | none => (.error (.notFound ("subnet " ++ id.name ++ " IPAM")), n)
  | some alloc =>
    match alloc.reserve addr with
    | .error e => (.error e, n)
    | .ok alloc => (.ok (), { n with ipam := n.ipam.insert id alloc })

/-- Return an address to a subnet's free pool. -/
def releaseAddress (n : NetworkController) (id : Id) (addr : String) : NetworkController :=
  match n.ipam.lookup id with
  | none => n
  | some alloc => { n with ipam := n.ipam.insert id (alloc.release addr) }

/-- Add a route. `fanned` is what the fan-out to the backends returns. -/
def addRoute (n : NetworkController) (route : Route) (fanned : Result Unit) :
    Result Route × NetworkController :=
  if route.subnetId ∉ n.subnets then (.error (.notFound ("subnet " ++ route.subnetId.name)), n)
  else (fanned.map fun _ => route, { n with routes := n.routes.insert route.id route })

/-- Whether the target of a policy's scope exists, with the error when it does not. -/
def checkScope (n : NetworkController) : AclScope → Result Unit
  | .vpc id => if id ∈ n.vpcs then .ok () else .error (.notFound ("vpc " ++ id.name))
  | .subnet id => if id ∈ n.subnets then .ok () else .error (.notFound ("subnet " ++ id.name))

/-- Create or replace a policy. `fanned` is what the fan-out to the backends returns. -/
def applyPolicy (n : NetworkController) (policy : FirewallPolicy) (fanned : Result Unit) :
    Result FirewallPolicy × NetworkController :=
  match n.checkScope policy.scope with
  | .error e => (.error e, n)
  | .ok _ => (fanned.map fun _ => policy, { n with policies := n.policies.insert policy.id policy })

/-- Forget a policy. Fails if it is not there. -/
def deletePolicy (n : NetworkController) (id : Id) : Result Unit × NetworkController :=
  if id ∈ n.policies then (.ok (), { n with policies := n.policies.erase id })
  else (.error (.notFound ("policy " ++ id.name)), n)

/-! ## What the operations leave behind -/

variable (n : NetworkController)

/-- A subnet can hand out an address: it has an allocator with a free host. -/
def CanAllocate (id : Id) : Prop := ∃ a, n.ipam.lookup id = some a ∧ a.HasFreeHost

theorem allocateAddress_cases (id : Id) :
    (¬n.CanAllocate id ∧ ∃ e, n.allocateAddress id = (.error e, n)) ∨
      ∃ a addr a', n.ipam.lookup id = some a ∧ a.allocate = .ok (addr, a') ∧
        n.allocateAddress id = (.ok addr, { n with ipam := n.ipam.insert id a' }) := by
  unfold allocateAddress
  cases hl : n.ipam.lookup id with
  | none =>
    refine .inl ⟨fun ⟨a, ha, _⟩ => ?_, _, rfl⟩
    rw [hl] at ha
    simp at ha
  | some a =>
    cases ha : a.allocate with
    | error e =>
      refine .inl ⟨fun ⟨b, hb, hf⟩ => ?_, e, by simp [ha]⟩
      obtain rfl := Option.some.inj (hl.symm.trans hb)
      exact SubnetAllocator.allocate_error.1 ⟨e, ha⟩ hf
    | ok p => exact .inr ⟨a, p.1, p.2, rfl, ha, by simp [ha]⟩

theorem canAllocate_of_allocate {id : Id} {a a' : SubnetAllocator} {addr : String}
    (ha : n.ipam.lookup id = some a) (halloc : a.allocate = .ok (addr, a')) : n.CanAllocate id := by
  obtain ⟨m, -, -, hfree, hlo, hhi, -⟩ := SubnetAllocator.allocate_ok halloc
  exact ⟨a, ha, m, hlo, hhi, hfree⟩

/-- The allocators after an address is released. -/
theorem lookup_ipam_releaseAddress (id x : Id) (addr : String) :
    (n.releaseAddress id addr).ipam.lookup x =
      if x = id then (n.ipam.lookup id).map (·.release addr) else n.ipam.lookup x := by
  unfold releaseAddress
  cases hl : n.ipam.lookup id with
  | none =>
    split_ifs with hx
    · rw [hx, hl]
      rfl
    · rfl
  | some a => exact HashMap.lookup_insert_eq ..

/-- The allocators after the release of an address that is not the gateway. -/
theorem lookup_ipam_release_host {id : Id} {a : SubnetAllocator} {m : UInt32}
    (ha : n.ipam.lookup id = some a) (hm : checkedHost a.base a.prefixLen 1 ≠ some m) (x : Id) :
    (n.releaseAddress id (formatIpv4 m)).ipam.lookup x =
      if x = id then some { a with used := a.used.erase m } else n.ipam.lookup x := by
  rw [lookup_ipam_releaseAddress, ha, Option.map_some, SubnetAllocator.release_formatIpv4, if_pos hm]

/-- Every allocator keeps the gateway of its subnet in use. -/
def GatewaysInUse (n : NetworkController) : Prop :=
  ∀ id a gw, n.ipam.lookup id = some a → checkedHost a.base a.prefixLen 1 = some gw → gw ∈ a.used

theorem GatewaysInUse.release (h : n.GatewaysInUse) {id : Id} {a : SubnetAllocator} {m : UInt32}
    (ha : n.ipam.lookup id = some a) (hm : checkedHost a.base a.prefixLen 1 ≠ some m) :
    (n.releaseAddress id (formatIpv4 m)).GatewaysInUse := by
  intro x b gw hb hgw
  rw [n.lookup_ipam_release_host ha hm] at hb
  split_ifs at hb
  · obtain rfl := Option.some.inj hb
    refine Finset.mem_erase.2 ⟨?_, h id a gw ha hgw⟩
    rintro rfl
    exact hm hgw
  · exact h x b gw hb hgw

theorem GatewaysInUse.allocate (h : n.GatewaysInUse) {id : Id} {a : SubnetAllocator} {m : UInt32}
    (ha : n.ipam.lookup id = some a) :
    GatewaysInUse { n with ipam := n.ipam.insert id { a with used := insert m a.used } } := by
  intro x b gw hb hgw
  obtain ⟨-, rfl⟩ | ⟨-, hb⟩ := HashMap.lookup_insert_eq_some.1 hb
  · exact Finset.mem_insert_of_mem (h id a gw ha hgw)
  · exact h x b gw hb hgw

@[simp] theorem releaseAddress_subnets (id : Id) (addr : String) :
    (n.releaseAddress id addr).subnets = n.subnets := by
  unfold releaseAddress
  split <;> rfl

@[simp] theorem releaseAddress_egress (id : Id) (addr : String) :
    (n.releaseAddress id addr).egress = n.egress := by
  unfold releaseAddress
  split <;> rfl

@[simp] theorem releaseAddress_vpcs (id : Id) (addr : String) :
    (n.releaseAddress id addr).vpcs = n.vpcs := by
  unfold releaseAddress
  split <;> rfl

@[simp] theorem reserveAddress_subnets (id : Id) (addr : String) :
    (n.reserveAddress id addr).2.subnets = n.subnets := by
  unfold reserveAddress
  split
  · rfl
  · split <;> rfl

@[simp] theorem reserveAddress_egress (id : Id) (addr : String) :
    (n.reserveAddress id addr).2.egress = n.egress := by
  unfold reserveAddress
  split
  · rfl
  · split <;> rfl

@[simp] theorem reserveAddress_vpcs (id : Id) (addr : String) :
    (n.reserveAddress id addr).2.vpcs = n.vpcs := by
  unfold reserveAddress
  split
  · rfl
  · split <;> rfl

/-- Programming a subnet that exists records the allow-list under the subnet's own id. -/
theorem refreshSubnetEgress_eq (id : Id) (allowed : List String) :
    (n.refreshSubnetEgress id allowed).2 = match n.subnets.lookup id with
      | some s => n.fanOutEgress s allowed
      | none => n := by
  unfold refreshSubnetEgress getSubnet
  cases n.subnets.lookup id <;> rfl

@[simp] theorem refreshSubnetEgress_ipam (id : Id) (allowed : List String) :
    (n.refreshSubnetEgress id allowed).2.ipam = n.ipam := by
  rw [refreshSubnetEgress_eq]
  split <;> rfl

@[simp] theorem refreshSubnetEgress_subnets (id : Id) (allowed : List String) :
    (n.refreshSubnetEgress id allowed).2.subnets = n.subnets := by
  rw [refreshSubnetEgress_eq]
  split <;> rfl

@[simp] theorem refreshSubnetEgress_vpcs (id : Id) (allowed : List String) :
    (n.refreshSubnetEgress id allowed).2.vpcs = n.vpcs := by
  rw [refreshSubnetEgress_eq]
  split <;> rfl

/-- Subnets, allocators and the programmed allow-lists are the same. -/
def SameSubnets (n' : NetworkController) : Prop :=
  n'.subnets = n.subnets ∧ n'.ipam = n.ipam ∧ n'.egress = n.egress

theorem sameSubnets_createVpc (vpc : Vpc) : n.SameSubnets (n.createVpc vpc).2 := by
  unfold createVpc
  dsimp only
  split_ifs <;> exact ⟨rfl, rfl, rfl⟩

theorem sameSubnets_deleteVpc (id : Id) : n.SameSubnets (n.deleteVpc id).2 := by
  unfold deleteVpc
  split_ifs <;> exact ⟨rfl, rfl, rfl⟩

theorem sameSubnets_addRoute (route : Route) (fanned : Result Unit) :
    n.SameSubnets (n.addRoute route fanned).2 := by
  unfold addRoute
  split_ifs <;> exact ⟨rfl, rfl, rfl⟩

theorem sameSubnets_applyPolicy (policy : FirewallPolicy) (fanned : Result Unit) :
    n.SameSubnets (n.applyPolicy policy fanned).2 := by
  unfold applyPolicy
  split <;> exact ⟨rfl, rfl, rfl⟩

theorem sameSubnets_deletePolicy (id : Id) : n.SameSubnets (n.deletePolicy id).2 := by
  unfold deletePolicy
  split_ifs <;> exact ⟨rfl, rfl, rfl⟩

/-- The controller after a subnet is accepted. -/
theorem createSubnet_of_accepted {subnet : Subnet} (hv : subnet.vpcId ∈ n.vpcs)
    (hs : subnet.metadata.id ∉ n.subnets) : n.createSubnet subnet = (.ok subnet,
      { n with
        subnets := n.subnets.insert subnet.metadata.id subnet
        ipam := match SubnetAllocator.new subnet.cidr with
          | .ok a => n.ipam.insert subnet.metadata.id a
          | .error _ => n.ipam
        egress := if subnet.egress.providesEgress then
          n.egress.insert subnet.metadata.id (subnet.egress, []) else n.egress }) := by
  unfold createSubnet
  dsimp only
  rw [if_neg (not_not.2 hv), if_neg hs]
  cases SubnetAllocator.new subnet.cidr <;> split_ifs <;> rfl

/-- A subnet is refused when its VPC does not exist or its id is taken. -/
theorem createSubnet_of_refused {subnet : Subnet}
    (h : ¬(subnet.vpcId ∈ n.vpcs ∧ subnet.metadata.id ∉ n.subnets)) :
    ∃ e, n.createSubnet subnet = (.error e, n) := by
  unfold createSubnet
  dsimp only
  by_cases hv : subnet.vpcId ∈ n.vpcs
  · have hs : subnet.metadata.id ∈ n.subnets := by
      by_contra hs
      exact h ⟨hv, hs⟩
    exact ⟨_, by rw [if_neg (not_not.2 hv), if_pos hs]⟩
  · exact ⟨_, by rw [if_pos hv]⟩

/-- A new subnet is recorded, gets an allocator if its CIDR parses, and is programmed with an
empty allow-list if it provides egress. -/
theorem createSubnet_cases (subnet : Subnet) :
    (n.createSubnet subnet).2 = n ∨
      subnet.vpcId ∈ n.vpcs ∧ subnet.metadata.id ∉ n.subnets ∧
      (n.createSubnet subnet).2.vpcs = n.vpcs ∧
      (n.createSubnet subnet).2.subnets = n.subnets.insert subnet.metadata.id subnet ∧
      ((n.createSubnet subnet).2.ipam = n.ipam ∨ ∃ a, SubnetAllocator.new subnet.cidr = .ok a ∧
        (n.createSubnet subnet).2.ipam = n.ipam.insert subnet.metadata.id a) ∧
      (n.createSubnet subnet).2.egress = if subnet.egress.providesEgress then
        n.egress.insert subnet.metadata.id (subnet.egress, []) else n.egress := by
  by_cases h : subnet.vpcId ∈ n.vpcs ∧ subnet.metadata.id ∉ n.subnets
  · refine .inr ⟨h.1, h.2, ?_⟩
    rw [n.createSubnet_of_accepted h.1 h.2]
    refine ⟨rfl, rfl, ?_, rfl⟩
    cases hn : SubnetAllocator.new subnet.cidr with
    | ok a => exact .inr ⟨a, rfl, rfl⟩
    | error e => exact .inl rfl
  · obtain ⟨e, he⟩ := n.createSubnet_of_refused h
    exact .inl (by rw [he])

theorem createSubnet_vpcs (subnet : Subnet) : (n.createSubnet subnet).2.vpcs = n.vpcs := by
  obtain h | ⟨-, -, h, -⟩ := n.createSubnet_cases subnet
  · rw [h]
  · exact h

/-- A change of egress records the mode and programs the given allow-list. -/
theorem setSubnetEgress_cases (id : Id) (mode : EgressMode) (allowed : List String) :
    (n.setSubnetEgress id mode allowed).2 = n ∨
      ∃ s, n.subnets.lookup id = some s ∧ (n.setSubnetEgress id mode allowed).2 =
        { n with subnets := n.subnets.insert id { s with egress := mode } }.fanOutEgress
          { s with egress := mode } allowed := by
  unfold setSubnetEgress
  cases n.subnets.lookup id with
  | none => exact .inl rfl
  | some s => exact .inr ⟨s, rfl, rfl⟩

end NetworkController

/-- A VPC that runs below begin with. -/
def prodVpc : Vpc := ⟨.named "prod", "10.0.0.0/16", 42⟩

/-- A subnet of this VPC. -/
def prodSubnet : Subnet := ⟨.named "web", prodVpc.metadata.id, "10.0.1.0/24", "ns", .isolated⟩

end OCF.Network
