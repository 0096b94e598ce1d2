import OCF.Api.Controller

/-!
# What persisting writes

The resources of a controller, seen as the records the store should hold (`live`), by kind and key.
Persisting proposes exactly these records, next to the topology, the workloads and the disks.

* `WellKeyed`: every resource is kept under its own key, every subnet's VPC exists, and the built-in
  roles are there. Every call keeps this.
* `get_persist`: whatever becomes of the proposals, a key that is stored afterwards was stored
  before or is live, and then holds the live record when every proposal is committed.
* `StoredWf`: every stored resource is under its own key and every stored subnet's VPC is stored.
  Persisting keeps this, also when it fails halfway.
-/

namespace OCF.Api

open OCF.Authz OCF.Lb OCF.Network OCF.Runtime OCF.Store

/-! ## Live resources as records -/

/-- The kinds of resources that a restart is to preserve. -/
inductive Kind
  | attachment | binding | user | group | role | vpc | subnet | loadBalancer
  deriving DecidableEq

/-- The collection of a kind. -/
def Kind.collection : Kind → String
  | .attachment => "workload_networks"
  | .binding => "rbac_bindings"
  | .user => "rbac_users"
  | .group => "rbac_groups"
  | .role => "rbac_roles"
  | .vpc => "vpcs"
  | .subnet => "subnets"
  | .loadBalancer => "loadbalancers"

/-- The kind of a record, unless it is part of the topology, a workload or a disk. -/
def Record.kind : Record → Option Kind
  | .attachment _ => some .attachment
  | .binding _ => some .binding
  | .user _ => some .user
  | .group _ => some .group
  | .role _ => some .role
  | .vpc _ => some .vpc
  | .subnet _ => some .subnet
  | .loadBalancer _ => some .loadBalancer
  | _ => none

/-- The record is stored under its own key; an attachment does not name its workload. -/
def Record.UnderKey : Record → String → Prop
  | .binding b, k => b.id.name = k
  | .user u, k => u.username = k
  | .group g, k => g.metadata.name = k
  | .role r, k => r.metadata.name = k
  | .vpc v, k => v.metadata.id.name = k
  | .subnet s, k => s.metadata.id.name = k
  | .loadBalancer lb, k => lb.metadata.id.name = k
  | _, _ => True

theorem Record.collection_eq_iff (r : Record) (kind : Kind) :
    r.collection = kind.collection ↔ r.kind = some kind := by
  cases r <;> cases kind <;>
    simp only [Record.collection, Kind.collection, Record.kind, reduceCtorEq, Option.some.injEq,
      iff_false] <;> decide

theorem Record.plain_collection (r : Record) : Plain r.collection := by
  cases r <;> simp only [Record.collection] <;> decide

theorem Kind.plain_collection (kind : Kind) : Plain kind.collection := by
  cases kind <;> decide

namespace FabricController

/-- The record of a live resource. -/
def live (c : FabricController) : Kind → String → Option Record
  | .attachment, k => (c.attachments.lookup ⟨k⟩).map .attachment
  | .binding, k => (c.rbac.bindings.lookup ⟨k⟩).map .binding
  | .user, k => (c.rbac.users.lookup k).map .user
  | .group, k => (c.rbac.groups.lookup k).map .group
  | .role, k => (c.rbac.roles.lookup k).map .role
  | .vpc, k => (c.network.vpcs.lookup ⟨k⟩).map .vpc
  | .subnet, k => (c.network.subnets.lookup ⟨k⟩).map .subnet
  | .loadBalancer, k => (c.loadbalancers.loadBalancers.lookup ⟨k⟩).map .loadBalancer

end FabricController

/-! ## Resources under their own keys -/

/-- The network is keyed by the ids of its records, and its subnets have their VPC. -/
structure NetworkWf (n : NetworkController) : Prop where
  vpcId : ∀ id v, n.vpcs.lookup id = some v → v.metadata.id = id
  subnetId : ∀ id s, n.subnets.lookup id = some s → s.metadata.id = id
  subnetVpc : ∀ id s, n.subnets.lookup id = some s → s.vpcId ∈ n.vpcs

/-- Roles, groups and users are keyed by their names, and bindings by their ids. -/
structure RbacWf (e : RbacEngine) : Prop where
  userName : ∀ k u, e.users.lookup k = some u → u.username = k
  roleName : ∀ k r, e.roles.lookup k = some r → r.metadata.name = k
  groupName : ∀ k g, e.groups.lookup k = some g → g.metadata.name = k
  bindingId : ∀ id b, e.bindings.lookup id = some b → b.id = id
  administrator : "Administrator" ∈ e.roles
  auditor : "Auditor" ∈ e.roles

/-- Load balancers are keyed by their ids. -/
def LbWf (l : LoadBalancerController) : Prop :=
  ∀ id lb, l.loadBalancers.lookup id = some lb → lb.metadata.id = id

/-- Every resource is kept under its own key, every subnet's VPC exists, and the built-in roles
are there. -/
structure FabricController.WellKeyed (c : FabricController) : Prop where
  network : NetworkWf c.network
  rbac : RbacWf c.rbac
  lbs : LbWf c.loadbalancers

/-- A map whose entries are under their own keys stays so when an entry is inserted under its
own. -/
theorem ownKey_insert {K V : Type} [DecidableEq K] {m : HashMap K V} (key : V → K) {v : V}
    (h : ∀ k v, m.lookup k = some v → key v = k) :
    ∀ k w, (m.insert (key v) v).lookup k = some w → key w = k := by
  intro k w hw
  rw [HashMap.lookup_insert_eq] at hw
  split_ifs at hw with hk
  · rw [← Option.some.inj hw, hk]
  · exact h k w hw

theorem ownKey_erase {K V : Type} [DecidableEq K] {m : HashMap K V} {key : V → K} {x : K}
    (h : ∀ k v, m.lookup k = some v → key v = k) :
    ∀ k w, (m.erase x).lookup k = some w → key w = k := by
  intro k w hw
  rw [HashMap.lookup_erase_eq] at hw
  split_ifs at hw
  exact h k w hw

namespace NetworkWf

variable {n n' : NetworkController}

theorem congr (h : NetworkWf n) (hv : n'.vpcs = n.vpcs) (hs : n'.subnets = n.subnets) :
    NetworkWf n' :=
  ⟨hv ▸ h.vpcId, hs ▸ h.subnetId, fun id s hl => hv ▸ h.subnetVpc id s (hs ▸ hl)⟩

theorem createVpc (h : NetworkWf n) (vpc : Vpc) : NetworkWf (n.createVpc vpc).2 := by
  unfold NetworkController.createVpc
  dsimp only
  split_ifs
  · exact h
  · exact ⟨ownKey_insert (fun v : Vpc => v.metadata.id) h.vpcId, h.subnetId, fun id s hl =>
      (AList.mem_insert _).2 (.inr (h.subnetVpc id s hl))⟩

theorem deleteVpc (h : NetworkWf n) (id : Id) : NetworkWf (n.deleteVpc id).2 := by
  unfold NetworkController.deleteVpc
  split_ifs with hused
  · exact h
  · refine ⟨ownKey_erase h.vpcId, h.subnetId, fun x s hl => AList.mem_erase.2 ⟨?_, ?_⟩⟩
    · rintro rfl
      refine hused (List.any_eq_true.2 ⟨s, HashMap.mem_values.2 ⟨x, hl⟩, by simp⟩)
    · exact h.subnetVpc x s hl
  · exact h

theorem createSubnet (h : NetworkWf n) (subnet : Subnet) : NetworkWf (n.createSubnet subnet).2 := by
  obtain he | ⟨hvpc, -, hv, hs, -⟩ := n.createSubnet_cases subnet
  · rwa [he]
  refine ⟨hv ▸ h.vpcId, ?_, fun id s hl => ?_⟩
  · rw [hs]
    exact ownKey_insert (fun s : Subnet => s.metadata.id) h.subnetId
  · rw [hv]
    rw [hs] at hl
    obtain ⟨-, rfl⟩ | ⟨-, hl⟩ := HashMap.lookup_insert_eq_some.1 hl
    · exact hvpc
    · exact h.subnetVpc id s hl

theorem setSubnetEgress (h : NetworkWf n) (id : Id) (mode : EgressMode) (allowed : List String) :
    NetworkWf (n.setSubnetEgress id mode allowed).2 := by
  obtain he | ⟨t, ht, he⟩ := n.setSubnetEgress_cases id mode allowed
  · rwa [he]
  rw [he]
  have hlook : ∀ x s, (n.subnets.insert id { t with egress := mode }).lookup x = some s →
      ∃ u, n.subnets.lookup x = some u ∧ s.metadata = u.metadata ∧ s.vpcId = u.vpcId := by
    intro x s hl
    obtain ⟨hx, rfl⟩ | ⟨-, hl⟩ := HashMap.lookup_insert_eq_some.1 hl
    · exact ⟨t, hx ▸ ht, rfl, rfl⟩
    · exact ⟨s, hl, rfl, rfl⟩
  refine ⟨h.vpcId, fun x s hl => ?_, fun x s hl => ?_⟩
  · obtain ⟨u, hu, hm, -⟩ := hlook x s hl
    rw [hm]
    exact h.subnetId x u hu
  · obtain ⟨u, hu, -, hv⟩ := hlook x s hl
    rw [hv]
    exact h.subnetVpc x u hu

end NetworkWf

namespace RbacWf

variable {e : RbacEngine}

theorem withDefaults : RbacWf .withDefaults where
  userName k u h := by simp [RbacEngine.withDefaults, RbacEngine.putRole, RbacEngine.new] at h
  roleName := ownKey_insert (fun r : Role => r.metadata.name)
    (ownKey_insert (fun r : Role => r.metadata.name) fun k r h => by
      simp [RbacEngine.new] at h)
  groupName k g h := by simp [RbacEngine.withDefaults, RbacEngine.putRole, RbacEngine.new] at h
  bindingId k b h := by simp [RbacEngine.withDefaults, RbacEngine.putRole, RbacEngine.new] at h
  administrator := by decide
  auditor := by decide

theorem putUser (h : RbacWf e) (user : User) : RbacWf (e.putUser user) :=
  { h with userName := ownKey_insert (fun u : User => u.username) h.userName }

theorem putGroup (h : RbacWf e) (group : Group) : RbacWf (e.putGroup group) :=
  { h with groupName := ownKey_insert (fun g : Group => g.metadata.name) h.groupName }

theorem putRole (h : RbacWf e) (role : Role) : RbacWf (e.putRole role) :=
  { h with
    roleName := ownKey_insert (fun r : Role => r.metadata.name) h.roleName
    administrator := (AList.mem_insert _).2 (.inr h.administrator)
    auditor := (AList.mem_insert _).2 (.inr h.auditor) }

theorem addBinding (h : RbacWf e) (binding : RoleBinding) : RbacWf (e.addBinding binding) :=
  { h with bindingId := ownKey_insert (fun b : RoleBinding => b.id) h.bindingId }

theorem removeBinding (h : RbacWf e) (id : Id) : RbacWf (e.removeBinding id).2 := by
  unfold RbacEngine.removeBinding
  split_ifs
  · exact { h with bindingId := ownKey_erase h.bindingId }
  · exact h

end RbacWf

namespace LbWf

variable {l : LoadBalancerController}

theorem create (h : LbWf l) (lb : LoadBalancer) : LbWf (l.create lb).2 := by
  unfold LoadBalancerController.create
  dsimp only
  split_ifs
  · exact h
  · exact ownKey_insert (fun lb : LoadBalancer => lb.metadata.id) h

theorem update (h : LbWf l) (lb : LoadBalancer) : LbWf (l.update lb).2 := by
  unfold LoadBalancerController.update
  dsimp only
  split_ifs
  · exact ownKey_insert (fun lb : LoadBalancer => lb.metadata.id) h
  · exact h

theorem delete (h : LbWf l) (id : Id) : LbWf (l.delete id).2 := by
  unfold LoadBalancerController.delete
  split_ifs
  · exact ownKey_erase h
  · exact h

end LbWf

namespace FabricController

variable {c : FabricController}

theorem wellKeyed_fresh (store : StateStore Record) : (fresh store).WellKeyed where
  network := ⟨fun id v h => by simp [fresh, NetworkController.new] at h,
    fun id s h => by simp [fresh, NetworkController.new] at h,
    fun id s h => by simp [fresh, NetworkController.new] at h⟩
  rbac := RbacWf.withDefaults
  lbs id lb h := by simp [fresh, LoadBalancerController.new] at h

/-- The part of an attachment that keys depend on: the VPCs and subnets stay as they are. -/
theorem attachWorkload_frame (c : FabricController) (env : PersistEnv) (w s : Id) (egress : Bool) :
    (c.attachWorkload env w s egress).2.network.vpcs = c.network.vpcs ∧
      (c.attachWorkload env w s egress).2.network.subnets = c.network.subnets ∧
      (c.attachWorkload env w s egress).2.rbac = c.rbac ∧
      (c.attachWorkload env w s egress).2.loadbalancers = c.loadbalancers := by
  obtain ⟨hv, hs, -⟩ := c.releasePrior_frame w
  obtain ⟨-, he⟩ | ⟨-, -, he⟩ | ⟨a, addr, a', -, -, -, he⟩ := c.attachWorkload_cases env w s egress
  · rw [he]
    exact ⟨rfl, rfl, rfl, rfl⟩
  · rw [he]
    exact ⟨hv, hs, rfl, rfl⟩
  · rw [he]
    refine ⟨?_, ?_, rfl, rfl⟩
    · simpa using hv
    · simpa using hs

theorem detachWorkload_frame (c : FabricController) (env : PersistEnv) (w : Id) :
    (c.detachWorkload env w).network.vpcs = c.network.vpcs ∧
      (c.detachWorkload env w).network.subnets = c.network.subnets ∧
      (c.detachWorkload env w).rbac = c.rbac ∧
      (c.detachWorkload env w).loadbalancers = c.loadbalancers := by
  unfold detachWorkload
  split
  · exact ⟨rfl, rfl, rfl, rfl⟩
  · exact ⟨by simp, by simp, rfl, rfl⟩

/-- **Every call keeps resources under their own keys.** -/
theorem WellKeyed.exec (h : c.WellKeyed) (op : ControllerOp) : (c.exec op).WellKeyed := by
  cases op with
  | createVpc vpc => exact ⟨h.network.createVpc vpc, h.rbac, h.lbs⟩
  | deleteVpc id => exact ⟨h.network.deleteVpc id, h.rbac, h.lbs⟩
  | createSubnet subnet => exact ⟨h.network.createSubnet subnet, h.rbac, h.lbs⟩
  | addRoute route fanned =>
    refine ⟨h.network.congr ?_ (c.network.sameSubnets_addRoute route fanned).1, h.rbac, h.lbs⟩
    simp only [FabricController.exec, NetworkController.addRoute]
    split_ifs <;> rfl
  | applyPolicy policy fanned =>
    refine ⟨h.network.congr ?_ (c.network.sameSubnets_applyPolicy policy fanned).1, h.rbac, h.lbs⟩
    simp only [FabricController.exec, NetworkController.applyPolicy]
    split <;> rfl
  | deletePolicy id =>
    refine ⟨h.network.congr ?_ (c.network.sameSubnets_deletePolicy id).1, h.rbac, h.lbs⟩
    simp only [FabricController.exec, NetworkController.deletePolicy]
    split_ifs <;> rfl
  | attachWorkload env w s egress =>
    obtain ⟨hv, hs, hr, hl⟩ := c.attachWorkload_frame env w s egress
    exact ⟨h.network.congr hv hs, hr ▸ h.rbac, hl ▸ h.lbs⟩
  | detachWorkload env w =>
    obtain ⟨hv, hs, hr, hl⟩ := c.detachWorkload_frame env w
    exact ⟨h.network.congr hv hs, hr ▸ h.rbac, hl ▸ h.lbs⟩
  | setSubnetEgress env s mode =>
    obtain ⟨hn, -, hr, hl⟩ := c.setSubnetEgress_frame env s mode
    exact ⟨hn ▸ h.network.setSubnetEgress .., hr ▸ h.rbac, hl ▸ h.lbs⟩
  | createLb lb => exact ⟨h.network, h.rbac, h.lbs.create lb⟩
  | updateLb lb => exact ⟨h.network, h.rbac, h.lbs.update lb⟩
  | deleteLb id => exact ⟨h.network, h.rbac, h.lbs.delete id⟩
  | putUser user => exact ⟨h.network, h.rbac.putUser user, h.lbs⟩
  | putGroup group => exact ⟨h.network, h.rbac.putGroup group, h.lbs⟩
  | putRole role => exact ⟨h.network, h.rbac.putRole role, h.lbs⟩
  | addBinding binding => exact ⟨h.network, h.rbac.addBinding binding, h.lbs⟩
  | removeBinding id => exact ⟨h.network, h.rbac.removeBinding id, h.lbs⟩
  | _ => exact ⟨h.network, h.rbac, h.lbs⟩

/-! ## The proposals -/

theorem kind_of_mem_topologyProposals {env : PersistEnv} {t : Topology.InMemoryTopology}
    {p : String × Record} (h : p ∈ topologyProposals env t) : p.2.kind = none := by
  simp only [topologyProposals, List.mem_flatMap, List.mem_cons, List.mem_map] at h
  obtain ⟨r, -, rfl | ⟨d, -, rfl | ⟨k, -, rfl | ⟨m, -, rfl⟩⟩⟩⟩ := h <;> rfl

/-- What is proposed for a kind is live. -/
theorem live_of_mem_proposals (h : c.WellKeyed) {env : PersistEnv} {p : String × Record}
    {kind : Kind} (hp : p ∈ c.proposals env) (hk : p.2.kind = some kind) :
    c.live kind p.1 = some p.2 := by
  simp only [proposals, List.mem_append] at hp
  rcases hp with (((((hp | hp) | hp) | hp) | hp) | hp) | hp
  · simp [kind_of_mem_topologyProposals hp] at hk
  · obtain ⟨w, -, rfl⟩ := List.mem_map.1 hp
    simp [Record.kind] at hk
  · simp only [networkProposals, PersistEnv.mem_order, List.mem_flatMap, List.mem_cons,
      List.mem_map, NetworkController.listVpcs, NetworkController.listSubnets, List.mem_filter,
      HashMap.mem_values] at hp
    obtain ⟨v, ⟨id, hv⟩, rfl | ⟨s, ⟨⟨id', hs⟩, -⟩, rfl⟩⟩ := hp
    · obtain rfl := Option.some.inj hk
      obtain rfl := h.network.vpcId id v hv
      simp [live, hv]
    · obtain rfl := Option.some.inj hk
      obtain rfl := h.network.subnetId id' s hs
      simp [live, hs]
  · obtain ⟨lb, hlb, rfl⟩ := List.mem_map.1 hp
    obtain ⟨id, hlb⟩ := HashMap.mem_values.1 (env.mem_order.1 hlb)
    obtain rfl := Option.some.inj hk
    obtain rfl := h.lbs id lb hlb
    simp [live, hlb]
  · simp only [rbacProposals, PersistEnv.mem_order, List.mem_append, List.mem_map,
      HashMap.mem_values] at hp
    obtain ((⟨u, ⟨k, hu⟩, rfl⟩ | ⟨r, ⟨k, hr⟩, rfl⟩) | ⟨g, ⟨k, hg⟩, rfl⟩) | ⟨b, ⟨k, hb⟩, rfl⟩ := hp
    · obtain rfl := Option.some.inj hk
      obtain rfl := h.rbac.userName k u hu
      simp [live, hu]
    · obtain rfl := Option.some.inj hk
      obtain rfl := h.rbac.roleName k r hr
      simp [live, hr]
    · obtain rfl := Option.some.inj hk
      obtain rfl := h.rbac.groupName k g hg
      simp [live, hg]
    · obtain rfl := Option.some.inj hk
      obtain rfl := h.rbac.bindingId k b hb
      simp [live, hb]
  · obtain ⟨d, -, rfl⟩ := List.mem_map.1 hp
    simp [Record.kind] at hk
  · obtain ⟨⟨w, att⟩, hatt, rfl⟩ := List.mem_map.1 hp
    rw [PersistEnv.mem_order, HashMap.mem_pairs] at hatt
    obtain rfl := Option.some.inj hk
    simp [live, hatt]

theorem mem_proposals_of_network {env : PersistEnv} {p : String × Record}
    (hp : p ∈ networkProposals env c.network) : p ∈ c.proposals env := by
  simp only [proposals, List.mem_append]
  exact .inl (.inl (.inl (.inl (.inr hp))))

theorem mem_proposals_of_rbac {env : PersistEnv} {p : String × Record}
    (hp : p ∈ rbacProposals env c.rbac) : p ∈ c.proposals env := by
  simp only [proposals, List.mem_append]
  exact .inl (.inl (.inr hp))

/-- What is live is proposed. -/
theorem mem_proposals_of_live (h : c.WellKeyed) (env : PersistEnv) {kind : Kind} {k : String}
    {r : Record} (hl : c.live kind k = some r) : (k, r) ∈ c.proposals env ∧ r.kind = some kind := by
  cases kind with
  | attachment =>
    obtain ⟨att, hatt, rfl⟩ := Option.map_eq_some_iff.1 hl
    refine ⟨List.mem_append_right _ (List.mem_map.2 ⟨(⟨k⟩, att), ?_, rfl⟩), rfl⟩
    exact env.mem_order.2 (HashMap.mem_pairs.2 hatt)
  | binding =>
    obtain ⟨b, hb, rfl⟩ := Option.map_eq_some_iff.1 hl
    have hk : b.id.name = k := congrArg Id.name (h.rbac.bindingId _ b hb)
    have := HashMap.mem_values.2 ⟨_, hb⟩
    refine ⟨mem_proposals_of_rbac ?_, rfl⟩
    simp only [rbacProposals, PersistEnv.mem_order, List.mem_append, List.mem_map]
    exact .inr ⟨b, this, by rw [hk]⟩
  | user =>
    obtain ⟨u, hu, rfl⟩ := Option.map_eq_some_iff.1 hl
    have hk := h.rbac.userName _ u hu
    have := HashMap.mem_values.2 ⟨_, hu⟩
    refine ⟨mem_proposals_of_rbac ?_, rfl⟩
    simp only [rbacProposals, PersistEnv.mem_order, List.mem_append, List.mem_map]
    exact .inl (.inl (.inl ⟨u, this, by rw [hk]⟩))
  | group =>
    obtain ⟨g, hg, rfl⟩ := Option.map_eq_some_iff.1 hl
    have hk := h.rbac.groupName _ g hg
    have := HashMap.mem_values.2 ⟨_, hg⟩
    refine ⟨mem_proposals_of_rbac ?_, rfl⟩
    simp only [rbacProposals, PersistEnv.mem_order, List.mem_append, List.mem_map]
    exact .inl (.inr ⟨g, this, by rw [hk]⟩)
  | role =>
    obtain ⟨r, hr, rfl⟩ := Option.map_eq_some_iff.1 hl
    have hk := h.rbac.roleName _ r hr
    have := HashMap.mem_values.2 ⟨_, hr⟩
    refine ⟨mem_proposals_of_rbac ?_, rfl⟩
    simp only [rbacProposals, PersistEnv.mem_order, List.mem_append, List.mem_map]
    exact .inl (.inl (.inr ⟨r, this, by rw [hk]⟩))
  | vpc =>
    obtain ⟨v, hv, rfl⟩ := Option.map_eq_some_iff.1 hl
    have hk : v.metadata.id.name = k := congrArg Id.name (h.network.vpcId _ v hv)
    have := HashMap.mem_values.2 ⟨_, hv⟩
    refine ⟨mem_proposals_of_network ?_, rfl⟩
    simp only [networkProposals, PersistEnv.mem_order, List.mem_flatMap]
    refine ⟨v, this, ?_⟩
    rw [hk]
    exact List.mem_cons_self ..
  | subnet =>
    obtain ⟨s, hs, rfl⟩ := Option.map_eq_some_iff.1 hl
    have hk : s.metadata.id.name = k := congrArg Id.name (h.network.subnetId _ s hs)
    -- a subnet is proposed with its VPC, which exists
    obtain ⟨v, hv⟩ := HashMap.mem_iff_exists_lookup.1 (h.network.subnetVpc _ s hs)
    have hvs : s.vpcId = v.metadata.id := (h.network.vpcId _ v hv).symm
    refine ⟨mem_proposals_of_network ?_, rfl⟩
    simp only [networkProposals, PersistEnv.mem_order, List.mem_flatMap]
    refine ⟨v, HashMap.mem_values.2 ⟨_, hv⟩, ?_⟩
    refine List.mem_cons_of_mem _ (List.mem_map.2 ⟨s, env.mem_order.2 ?_, by rw [hk]⟩)
    refine List.mem_filter.2 ⟨?_, ?_⟩
    · exact HashMap.mem_values.2 ⟨_, hs⟩
    · simpa using hvs
  | loadBalancer =>
    obtain ⟨lb, hlb, rfl⟩ := Option.map_eq_some_iff.1 hl
    have hk : lb.metadata.id.name = k := congrArg Id.name (h.lbs _ lb hlb)
    have := HashMap.mem_values.2 ⟨_, hlb⟩
    refine ⟨?_, rfl⟩
    simp only [proposals, PersistEnv.mem_order, List.mem_append, List.mem_map]
    exact .inl (.inl (.inl (.inr ⟨lb, this, by rw [hk]⟩)))

/-- Every subnet in the list comes after a VPC with the id the subnet refers to. -/
def VpcsFirst (ps : List (String × Record)) : Prop :=
  ∀ m k s, (k, Record.subnet s) ∈ ps.take m → ∃ v, (s.vpcId.name, Record.vpc v) ∈ ps.take m

theorem VpcsFirst.append {ps qs : List (String × Record)} (hp : VpcsFirst ps)
    (hq : VpcsFirst qs) : VpcsFirst (ps ++ qs) := by
  intro m k s h
  rw [List.take_append, List.mem_append] at h
  obtain h | h := h
  · obtain ⟨v, hv⟩ := hp _ k s h
    exact ⟨v, by rw [List.take_append]; exact List.mem_append_left _ hv⟩
  · obtain ⟨v, hv⟩ := hq _ k s h
    exact ⟨v, by rw [List.take_append]; exact List.mem_append_right _ hv⟩

theorem vpcsFirst_of_kind {ps : List (String × Record)} (h : ∀ p ∈ ps, p.2.kind ≠ some .subnet) :
    VpcsFirst ps :=
  fun _ k s hm => absurd rfl (h (k, .subnet s) (List.mem_of_mem_take hm))

theorem vpcsFirst_networkProposals (env : PersistEnv) (n : NetworkController) :
    VpcsFirst (networkProposals env n) := by
  unfold networkProposals
  induction env.order n.listVpcs with
  | nil => exact vpcsFirst_of_kind (by simp)
  | cons v vs ih =>
    rw [List.flatMap_cons]
    refine .append ?_ ih
    intro m k s hm
    cases m with
    | zero => simp at hm
    | succ m =>
      rw [List.take_succ_cons, List.mem_cons] at hm
      obtain hm | hm := hm
      · cases hm
      · obtain ⟨t, ht, he⟩ := List.mem_map.1 (List.mem_of_mem_take hm)
        cases he
        have hv : s.vpcId = v.metadata.id := by
          simpa using (List.mem_filter.1 (env.mem_order.1 ht)).2
        exact ⟨v, by rw [hv]; exact List.mem_cons_self ..⟩

theorem vpcsFirst_proposals (c : FabricController) (env : PersistEnv) :
    VpcsFirst (c.proposals env) := by
  refine .append (.append (.append (.append (.append (.append ?_ ?_) ?_) ?_) ?_) ?_) ?_
  · exact vpcsFirst_of_kind fun p hp => by simp [kind_of_mem_topologyProposals hp]
  · refine vpcsFirst_of_kind fun p hp => ?_
    obtain ⟨w, -, rfl⟩ := List.mem_map.1 hp
    simp [Record.kind]
  · exact vpcsFirst_networkProposals env c.network
  · refine vpcsFirst_of_kind fun p hp => ?_
    obtain ⟨lb, -, rfl⟩ := List.mem_map.1 hp
    simp [Record.kind]
  · refine vpcsFirst_of_kind fun p hp => ?_
    simp only [rbacProposals, List.mem_append, List.mem_map] at hp
    obtain ((⟨x, -, rfl⟩ | ⟨x, -, rfl⟩) | ⟨x, -, rfl⟩) | ⟨x, -, rfl⟩ := hp <;> simp [Record.kind]
  · refine vpcsFirst_of_kind fun p hp => ?_
    obtain ⟨d, -, rfl⟩ := List.mem_map.1 hp
    simp [Record.kind]
  · refine vpcsFirst_of_kind fun p hp => ?_
    obtain ⟨a, -, rfl⟩ := List.mem_map.1 hp
    simp [Record.kind]

/-! ## The store after a call of `persist` -/

theorem get_putRecord (s : StateStore Record) (p : String × Record) {collection : String}
    (hplain : Plain collection) (k : String) :
    (putRecord s p).get collection k =
      if p.2.collection = collection ∧ p.1 = k then some p.2 else s.get collection k := by
  have hiff : composite collection k = composite p.2.collection p.1 ↔
      p.2.collection = collection ∧ p.1 = k := by
    rw [composite_inj hplain p.2.plain_collection, eq_comm, eq_comm (a := k)]
  rw [putRecord, StateStore.get, StateStore.data_put, StateStore.get]
  simp only [hiff]

/-- After some writes, a key of a collection reads as one of the records written to it, or none was
and it reads as before. -/
theorem get_foldl_putRecord_of_plain (ps : List (String × Record)) (s : StateStore Record)
    {collection : String} (hplain : Plain collection) (k : String) :
    (∃ r, (k, r) ∈ ps ∧ r.collection = collection ∧
      (ps.foldl putRecord s).get collection k = some r) ∨
      (∀ r, (k, r) ∈ ps → r.collection ≠ collection) ∧
        (ps.foldl putRecord s).get collection k = s.get collection k := by
  induction ps generalizing s with
  | nil => exact .inr ⟨by simp, rfl⟩
  | cons p ps ih =>
    rw [List.foldl_cons]
    obtain ⟨r, hr, hcol, h⟩ | ⟨hne, h⟩ := ih (putRecord s p)
    · exact .inl ⟨r, List.mem_cons_of_mem _ hr, hcol, h⟩
    · rw [h, get_putRecord s p hplain]
      split_ifs with hp
      · obtain ⟨hcol, rfl⟩ := hp
        exact .inl ⟨p.2, List.mem_cons_self .., hcol, rfl⟩
      · refine .inr ⟨fun r hr hcol => ?_, rfl⟩
        obtain rfl | hr := List.mem_cons.1 hr
        · exact hp ⟨hcol, rfl⟩
        · exact hne r hr hcol

/-- The same for the collection of a kind. -/
theorem get_foldl_putRecord (ps : List (String × Record)) (s : StateStore Record) (kind : Kind)
    (k : String) :
    (∃ r, (k, r) ∈ ps ∧ r.kind = some kind ∧
      (ps.foldl putRecord s).get kind.collection k = some r) ∨
      (∀ r, (k, r) ∈ ps → r.kind ≠ some kind) ∧
        (ps.foldl putRecord s).get kind.collection k = s.get kind.collection k := by
  simpa only [Record.collection_eq_iff, ne_eq] using
    get_foldl_putRecord_of_plain ps s kind.plain_collection k

/-- Whatever becomes of the proposals, some first part of them is written, and all of them when
the call succeeds. -/
theorem persistPuts_cases (outcome : ℕ → PutOutcome) (i : ℕ) (ps : List (String × Record))
    (s : StateStore Record) :
    ∃ m, (persistPuts outcome i ps s).2 = (ps.take m).foldl putRecord s ∧
      ((persistPuts outcome i ps s).1 = .ok () → ps.take m = ps) := by
  induction ps generalizing i s with
  | nil => exact ⟨0, rfl, fun _ => rfl⟩
  | cons p ps ih =>
    unfold persistPuts
    cases outcome i with
    | committed =>
      obtain ⟨m, hstore, hok⟩ := ih (i + 1) (putRecord s p)
      exact ⟨m + 1, hstore, fun h => by rw [List.take_succ_cons, hok h]⟩
    | failed e applied =>
      cases applied with
      | true => exact ⟨1, rfl, fun h => by simp at h⟩
      | false => exact ⟨0, rfl, fun h => by simp at h⟩

theorem persist_store_cases (c : FabricController) (env : PersistEnv) :
    ∃ m, (c.persist env).2.store = ((c.proposals env).take m).foldl putRecord c.store ∧
      ((c.persist env).1 = .ok () → (c.proposals env).take m = c.proposals env) :=
  persistPuts_cases ..

/-- What a key reads as after persisting: what it did before, or the live record. When the call
succeeds a live record is always read. -/
theorem get_persist (h : c.WellKeyed) (env : PersistEnv) (kind : Kind) (k : String) :
    ((c.persist env).2.store.get kind.collection k = c.store.get kind.collection k ∧
      ((c.persist env).1 = .ok () → c.live kind k = none)) ∨
    ∃ r, c.live kind k = some r ∧ (c.persist env).2.store.get kind.collection k = some r := by
  obtain ⟨m, hstore, hok⟩ := c.persist_store_cases env
  rw [hstore]
  obtain ⟨r, hr, hkind, hget⟩ | ⟨hne, hget⟩ :=
    get_foldl_putRecord ((c.proposals env).take m) c.store kind k
  · exact .inr ⟨r, live_of_mem_proposals h (List.mem_of_mem_take hr) hkind, hget⟩
  · refine .inl ⟨hget, fun h1 => ?_⟩
    rw [hok h1] at hne
    by_contra hlive
    obtain ⟨r, hr⟩ := Option.ne_none_iff_exists'.1 hlive
    obtain ⟨hmem, hkind⟩ := mem_proposals_of_live h env hr
    exact hne r hmem hkind

theorem WellKeyed.underKey (h : c.WellKeyed) {kind : Kind} {k : String} {r : Record}
    (hl : c.live kind k = some r) : r.kind = some kind ∧ r.UnderKey k := by
  cases kind with
  | attachment =>
    obtain ⟨att, -, rfl⟩ := Option.map_eq_some_iff.1 hl
    exact ⟨rfl, trivial⟩
  | binding =>
    obtain ⟨b, hb, rfl⟩ := Option.map_eq_some_iff.1 hl
    exact ⟨rfl, congrArg Id.name (h.rbac.bindingId _ b hb)⟩
  | user =>
    obtain ⟨u, hu, rfl⟩ := Option.map_eq_some_iff.1 hl
    exact ⟨rfl, h.rbac.userName _ u hu⟩
  | group =>
    obtain ⟨g, hg, rfl⟩ := Option.map_eq_some_iff.1 hl
    exact ⟨rfl, h.rbac.groupName _ g hg⟩
  | role =>
    obtain ⟨r, hr, rfl⟩ := Option.map_eq_some_iff.1 hl
    exact ⟨rfl, h.rbac.roleName _ r hr⟩
  | vpc =>
    obtain ⟨v, hv, rfl⟩ := Option.map_eq_some_iff.1 hl
    exact ⟨rfl, congrArg Id.name (h.network.vpcId _ v hv)⟩
  | subnet =>
    obtain ⟨s, hs, rfl⟩ := Option.map_eq_some_iff.1 hl
    exact ⟨rfl, congrArg Id.name (h.network.subnetId _ s hs)⟩
  | loadBalancer =>
    obtain ⟨lb, hlb, rfl⟩ := Option.map_eq_some_iff.1 hl
    exact ⟨rfl, congrArg Id.name (h.lbs _ lb hlb)⟩

end FabricController

/-- Every stored resource is of the kind of its collection and under its own key, and the VPC of
every stored subnet is stored. -/
structure StoredWf (s : StateStore Record) : Prop where
  underKey : ∀ kind k r, s.get kind.collection k = some r → r.kind = some kind ∧ r.UnderKey k
  subnetVpc : ∀ k t, s.get Kind.subnet.collection k = some (.subnet t) →
    (s.get Kind.vpc.collection t.vpcId.name).isSome

theorem storedWf_empty : StoredWf .empty where
  underKey kind k r h := by simp [StateStore.get] at h
  subnetVpc k t h := by simp [StateStore.get] at h

open FabricController in
/-- Persisting keeps the store well formed, wherever it stops: a subnet is written after its
VPC. -/
theorem StoredWf.persist {c : FabricController} (hs : StoredWf c.store) (hc : c.WellKeyed)
    (env : PersistEnv) : StoredWf (c.persist env).2.store := by
  refine ⟨fun kind k r hget => ?_, fun k t hget => ?_⟩
  · obtain ⟨h, -⟩ | ⟨r', hlive, h⟩ := get_persist hc env kind k
    · exact hs.underKey kind k r (h ▸ hget)
    · obtain rfl := Option.some.inj (h.symm.trans hget)
      exact hc.underKey hlive
  · obtain ⟨m, hstore, -⟩ := c.persist_store_cases env
    rw [hstore] at hget ⊢
    obtain ⟨v, -, -, hv⟩ | ⟨hne, hv⟩ :=
      get_foldl_putRecord ((c.proposals env).take m) c.store .vpc t.vpcId.name
    · rw [hv]
      rfl
    rw [hv]
    obtain ⟨r, hr, -, h⟩ | ⟨-, h⟩ :=
      get_foldl_putRecord ((c.proposals env).take m) c.store .subnet k
    · obtain rfl := Option.some.inj (h.symm.trans hget)
      obtain ⟨v, hv⟩ := c.vpcsFirst_proposals env m k t hr
      exact absurd rfl (hne _ hv)
    · exact hs.subnetVpc k t (h ▸ hget)

end OCF.Api
