import OCF.Api.Restart

/-!
# What a restart loses

Persisting walks the tree of the topology from the regions down, the VPCs with their subnets and the
attachments; restoring reads one collection after another. A machine is written when its rack, the
rack's datacenter and the datacenter's region are recorded (`Anchored`). Routes and policies are not
written. An allocator is built anew from the CIDR of its subnet, and the addresses of the stored
attachments are reserved in it.

`lossless_iff` compares the two traversals in every state that a history of calls and restarts
reaches: a restart has every machine, every route, every policy and the same allocators if and only
if the state is `Accounted`.
-/

namespace OCF.Api

open OCF.Network OCF.Runtime OCF.Store OCF.Topology FabricController

/-! ## The topology -/

/-- Every record of the topology is kept under its own id. -/
structure TopologyWf (t : InMemoryTopology) : Prop where
  regionId : ∀ id r, t.regions.lookup id = some r → r.metadata.id = id
  datacenterId : ∀ id d, t.datacenters.lookup id = some d → d.metadata.id = id
  rackId : ∀ id r, t.racks.lookup id = some r → r.metadata.id = id
  machineId : ∀ id m, t.machines.lookup id = some m → m.metadata.id = id

namespace TopologyWf

variable {t : InMemoryTopology}

theorem new : TopologyWf .new :=
  ⟨fun id r h => by simp [InMemoryTopology.new] at h,
    fun id r h => by simp [InMemoryTopology.new] at h,
    fun id r h => by simp [InMemoryTopology.new] at h,
    fun id r h => by simp [InMemoryTopology.new] at h⟩

theorem putRegion (h : TopologyWf t) (r : Region) : TopologyWf (t.putRegion r) :=
  { h with regionId := ownKey_insert (fun r : Region => r.metadata.id) h.regionId }

theorem putDatacenter (h : TopologyWf t) (d : Datacenter) : TopologyWf (t.putDatacenter d) :=
  { h with datacenterId := ownKey_insert (fun d : Datacenter => d.metadata.id) h.datacenterId }

theorem putRack (h : TopologyWf t) (r : Rack) : TopologyWf (t.putRack r) :=
  { h with rackId := ownKey_insert (fun r : Rack => r.metadata.id) h.rackId }

theorem putMachine (h : TopologyWf t) (m : Machine) : TopologyWf (t.putMachine m) :=
  { h with machineId := ownKey_insert (fun m : Machine => m.metadata.id) h.machineId }

theorem restoreTopology (h : TopologyWf t) (s : StateStore Record) :
    TopologyWf (FabricController.restoreTopology s t) := by
  refine List.foldlRecOn _ _ ?_ fun t ht m _ => ht.putMachine m
  refine List.foldlRecOn _ _ ?_ fun t ht r _ => ht.putRack r
  refine List.foldlRecOn _ _ ?_ fun t ht d _ => ht.putDatacenter d
  exact List.foldlRecOn _ _ h fun t ht r _ => ht.putRegion r

end TopologyWf

/-- The machine's rack, the rack's datacenter and the datacenter's region are recorded. -/
def Anchored (t : InMemoryTopology) (m : Machine) : Prop :=
  ∃ k, t.racks.lookup m.rackId = some k ∧
    ∃ d, t.datacenters.lookup k.datacenterId = some d ∧ d.regionId ∈ t.regions

/-- Every stored machine is under its own id. -/
def StoredMachines (s : StateStore Record) : Prop :=
  ∀ k r, s.get "machines" k = some r → ∃ m, r = .machine m ∧ m.metadata.id.name = k

theorem plain_machines : Plain "machines" := by decide

/-- A record of a kind is stored in the collection of the kind. -/
theorem Record.kind_eq_none {r : Record} {collection : String} (h : r.collection = collection)
    (hne : ∀ kind : Kind, kind.collection ≠ collection) : r.kind = none := by
  by_contra hkind
  obtain ⟨kind, hk⟩ := Option.ne_none_iff_exists'.1 hkind
  exact hne kind (((r.collection_eq_iff kind).2 hk).symm.trans h)

namespace FabricController

variable {c : FabricController} {env : PersistEnv}

theorem kind_of_mem_networkProposals {n : NetworkController} {p : String × Record}
    (h : p ∈ networkProposals env n) : p.2.kind ≠ none := by
  simp only [networkProposals, List.mem_flatMap, List.mem_cons, List.mem_map] at h
  obtain ⟨v, -, rfl | ⟨s, -, rfl⟩⟩ := h <;> simp [Record.kind]

theorem kind_of_mem_rbacProposals {e : Authz.RbacEngine} {p : String × Record}
    (h : p ∈ rbacProposals env e) : p.2.kind ≠ none := by
  simp only [rbacProposals, List.mem_append, List.mem_map] at h
  obtain ((⟨x, -, rfl⟩ | ⟨x, -, rfl⟩) | ⟨x, -, rfl⟩) | ⟨x, -, rfl⟩ := h <;> simp [Record.kind]

/-- The proposals that are not of a kind: the topology, the workloads and the disks. -/
theorem mem_proposals_of_kind {p : String × Record} (h : p ∈ c.proposals env)
    (hkind : p.2.kind = none) : p ∈ topologyProposals env c.topology ∨
      (∃ w ∈ c.allWorkloads env.workloads, p = (w.metadata.id.name, .workload w)) ∨
      ∃ d ∈ env.disks, p = (d.serial, .disk d) := by
  simp only [proposals, List.mem_append] at h
  rcases h with (((((h | h) | h) | h) | h) | h) | h
  · exact .inl h
  · obtain ⟨w, hw, rfl⟩ := List.mem_map.1 h
    exact .inr (.inl ⟨w, hw, rfl⟩)
  · exact absurd hkind (kind_of_mem_networkProposals h)
  · obtain ⟨lb, -, rfl⟩ := List.mem_map.1 h
    simp [Record.kind] at hkind
  · exact absurd hkind (kind_of_mem_rbacProposals h)
  · obtain ⟨d, hd, rfl⟩ := List.mem_map.1 h
    exact .inr (.inr ⟨d, hd, rfl⟩)
  · obtain ⟨a, -, rfl⟩ := List.mem_map.1 h
    simp [Record.kind] at hkind

/-- What is proposed for the machines comes from the tree. -/
theorem mem_topologyProposals_of_machines {p : String × Record} (h : p ∈ c.proposals env)
    (hcol : p.2.collection = "machines") : p ∈ topologyProposals env c.topology := by
  have hkind : p.2.kind = none := Record.kind_eq_none hcol fun kind => by cases kind <;> decide
  obtain h | ⟨w, -, rfl⟩ | ⟨d, -, rfl⟩ := mem_proposals_of_kind h hkind
  · exact h
  · simp [Record.collection] at hcol
  · simp [Record.collection] at hcol

/-- A machine of the tree: listed in a rack of a datacenter of a region. -/
theorem mem_topologyProposals_machine {t : InMemoryTopology} {p : String × Record}
    (hcol : p.2.collection = "machines") : p ∈ topologyProposals env t ↔
      ∃ r ∈ t.listRegions, ∃ d ∈ t.listDatacenters r.metadata.id,
        ∃ k ∈ t.listRacks d.metadata.id, ∃ m ∈ t.listMachines k.metadata.id,
          p = (m.metadata.id.name, .machine m) := by
  simp only [topologyProposals, PersistEnv.mem_order, List.mem_flatMap, List.mem_cons, List.mem_map]
  constructor
  · rintro ⟨r, hr, rfl | ⟨d, hd, rfl | ⟨k, hk, rfl | ⟨m, hm, rfl⟩⟩⟩⟩
    · simp [Record.collection] at hcol
    · simp [Record.collection] at hcol
    · simp [Record.collection] at hcol
    · exact ⟨r, hr, d, hd, k, hk, m, hm, rfl⟩
  · rintro ⟨r, hr, d, hd, k, hk, m, hm, rfl⟩
    exact ⟨r, hr, .inr ⟨d, hd, .inr ⟨k, hk, .inr ⟨m, hm, rfl⟩⟩⟩⟩

/-- **A machine is written if and only if it is anchored.** -/
theorem mem_proposals_machine (h : TopologyWf c.topology) {k : String} {r : Record}
    (hcol : r.collection = "machines") : (k, r) ∈ c.proposals env ↔
      ∃ m ∈ c.topology.allMachines, Anchored c.topology m ∧ k = m.metadata.id.name ∧
        r = .machine m := by
  have hlist : (k, r) ∈ c.proposals env ↔ (k, r) ∈ topologyProposals env c.topology := by
    refine ⟨fun hp => mem_topologyProposals_of_machines hp hcol, fun hp => ?_⟩
    simp only [proposals, List.mem_append]
    exact .inl (.inl (.inl (.inl (.inl (.inl hp)))))
  rw [hlist, mem_topologyProposals_machine hcol]
  simp only [InMemoryTopology.listRegions, InMemoryTopology.listDatacenters,
    InMemoryTopology.listRacks, InMemoryTopology.listMachines, InMemoryTopology.allMachines,
    List.mem_filter, HashMap.mem_values, decide_eq_true_eq]
  constructor
  · rintro ⟨r, ⟨i, hr⟩, d, ⟨⟨j, hd⟩, hdr⟩, x, ⟨⟨l, hx⟩, hxd⟩, m, ⟨hm, hmx⟩, hp⟩
    obtain rfl := h.rackId l x hx
    obtain rfl := h.datacenterId j d hd
    obtain rfl := h.regionId i r hr
    obtain ⟨rfl, rfl⟩ := Prod.mk.inj hp
    refine ⟨m, hm, ⟨x, hmx ▸ hx, d, hxd ▸ hd, ?_⟩, rfl, rfl⟩
    rw [hdr]
    exact HashMap.mem_iff_exists_lookup.2 ⟨r, hr⟩
  · rintro ⟨m, hm, ⟨x, hx, d, hd, hreg⟩, rfl, rfl⟩
    obtain ⟨r, hr⟩ := HashMap.mem_iff_exists_lookup.1 hreg
    have hdr := h.regionId _ r hr
    have hxd := h.datacenterId _ d hd
    have hmx := h.rackId _ x hx
    exact ⟨r, ⟨_, hr⟩, d, ⟨⟨_, hd⟩, hdr.symm⟩, x, ⟨⟨_, hx⟩, hxd.symm⟩, m, ⟨hm, hmx.symm⟩, rfl⟩

/-- Whatever becomes of the proposals, what is stored for the machines afterwards was stored before
or is an anchored machine, and every anchored machine is stored when all are committed. -/
theorem get_persist_machines (h : TopologyWf c.topology) (env : PersistEnv) (k : String) :
    ((c.persist env).2.store.get "machines" k = c.store.get "machines" k ∧
      ((c.persist env).1 = .ok () → ∀ m ∈ c.topology.allMachines, m.metadata.id.name = k →
        ¬Anchored c.topology m)) ∨
    ∃ m ∈ c.topology.allMachines, Anchored c.topology m ∧ k = m.metadata.id.name ∧
      (c.persist env).2.store.get "machines" k = some (.machine m) := by
  obtain ⟨i, hstore, hok⟩ := c.persist_store_cases env
  rw [hstore]
  obtain ⟨r, hr, hcol, hget⟩ | ⟨hne, hget⟩ :=
    get_foldl_putRecord_of_plain ((c.proposals env).take i) c.store plain_machines k
  · obtain ⟨m, hm, hanch, hk, rfl⟩ := (mem_proposals_machine h hcol).1 (List.mem_of_mem_take hr)
    exact .inr ⟨m, hm, hanch, hk, hget⟩
  · refine .inl ⟨hget, fun h1 m hm hk hanch => ?_⟩
    rw [hok h1] at hne
    exact hne (.machine m) ((mem_proposals_machine h rfl).2 ⟨m, hm, hanch, hk.symm, rfl⟩) rfl

theorem storedMachines_persist (hs : StoredMachines c.store)
    (h : TopologyWf c.topology) (env : PersistEnv) : StoredMachines (c.persist env).2.store := by
  intro k r hget
  obtain ⟨hold, -⟩ | ⟨m, -, -, hk, hnew⟩ := get_persist_machines h env k
  · exact hs k r (hold ▸ hget)
  · exact ⟨m, Option.some.inj (hget.symm.trans hnew), hk.symm⟩

end FabricController

/-! ## The allocators -/

/-- The range of addresses an allocator covers. -/
def range (a : SubnetAllocator) : UInt32 × UInt8 := (a.base, a.prefixLen)

theorem range_of_new {cidr : String} : (SubnetAllocator.new cidr).toOption.map range = parseCidr cidr := by
  unfold SubnetAllocator.new
  cases parseCidr cidr <;> rfl

theorem range_release (a : SubnetAllocator) (addr : String) : range (a.release addr) = range a := by
  unfold SubnetAllocator.release
  split
  · rfl
  · split_ifs <;> rfl

theorem range_allocate {a a' : SubnetAllocator} {addr : String} (h : a.allocate = .ok (addr, a')) :
    range a' = range a := by
  obtain ⟨m, -, rfl, -⟩ := SubnetAllocator.allocate_ok h
  rfl

/-- The allocators are those of the recorded subnets whose CIDR parses, each with the range of its
subnet. -/
def AllocatorsFit (n : NetworkController) : Prop :=
  ∀ id, (n.ipam.lookup id).map range = (n.subnets.lookup id).bind fun s => parseCidr s.cidr

/-- The allocators are as they were built. -/
def AllocatorsFresh (n : NetworkController) : Prop :=
  ∀ id, n.ipam.lookup id = (n.subnets.lookup id).bind fun s => (SubnetAllocator.new s.cidr).toOption

/-- A subnet that is accepted is recorded, with an allocator if its CIDR parses. -/
theorem lookup_createSubnet (n : NetworkController) (subnet : Subnet) :
    (n.createSubnet subnet).2 = n ∨ n.subnets.lookup subnet.metadata.id = none ∧ ∀ id,
      (n.createSubnet subnet).2.subnets.lookup id =
        (if id = subnet.metadata.id then some subnet else n.subnets.lookup id) ∧
      (n.createSubnet subnet).2.ipam.lookup id =
        (if id = subnet.metadata.id then
          (SubnetAllocator.new subnet.cidr).toOption.or (n.ipam.lookup id) else n.ipam.lookup id) := by
  by_cases h : subnet.vpcId ∈ n.vpcs ∧ subnet.metadata.id ∉ n.subnets
  · refine .inr ⟨AList.lookup_eq_none.2 h.2, fun id => ?_⟩
    rw [n.createSubnet_of_accepted h.1 h.2]
    refine ⟨HashMap.lookup_insert_eq .., ?_⟩
    dsimp only
    cases SubnetAllocator.new subnet.cidr with
    | ok a => exact HashMap.lookup_insert_eq ..
    | error e => exact (ite_self _).symm
  · obtain ⟨e, he⟩ := n.createSubnet_of_refused h
    exact .inl (by rw [he])

namespace AllocatorsFit

variable {n n' : NetworkController}

theorem congr (h : AllocatorsFit n) (hi : n'.ipam = n.ipam) (hs : n'.subnets = n.subnets) :
    AllocatorsFit n' := by
  unfold AllocatorsFit
  rw [hi, hs]
  exact h

theorem createSubnet (h : AllocatorsFit n) (subnet : Subnet) :
    AllocatorsFit (n.createSubnet subnet).2 := by
  obtain he | ⟨hnew, hl⟩ := lookup_createSubnet n subnet
  · rwa [he]
  intro id
  obtain ⟨hs, hi⟩ := hl id
  rw [hs, hi]
  split_ifs with hid
  · have hnone : n.ipam.lookup id = none := by
      have hfit := h id
      rw [hid, hnew] at hfit
      rw [hid]
      exact Option.map_eq_none_iff.1 hfit
    rw [hnone, Option.or_none, range_of_new]
    rfl
  · exact h id

/-- An allocator is replaced by one of the same range. -/
theorem insert (h : AllocatorsFit n) {id : Id} {a a' : SubnetAllocator}
    (ha : n.ipam.lookup id = some a) (hr : range a' = range a) :
    AllocatorsFit { n with ipam := n.ipam.insert id a' } := by
  intro x
  dsimp only
  rw [← h x, HashMap.lookup_insert_eq]
  split_ifs with hx
  · rw [hx, ha, Option.map_some, Option.map_some, hr]
  · rfl

theorem releaseAddress (h : AllocatorsFit n) (id : Id) (addr : String) :
    AllocatorsFit (n.releaseAddress id addr) := by
  unfold NetworkController.releaseAddress
  cases ha : n.ipam.lookup id with
  | none => exact h
  | some a => exact h.insert ha (range_release a addr)

theorem setSubnetEgress (h : AllocatorsFit n) (id : Id) (mode : EgressMode) (allowed : List String) :
    AllocatorsFit (n.setSubnetEgress id mode allowed).2 := by
  obtain he | ⟨s, hs, he⟩ := n.setSubnetEgress_cases id mode allowed
  · rwa [he]
  rw [he]
  intro x
  refine (h x).trans ?_
  change _ = ((n.subnets.insert id { s with egress := mode }).lookup x).bind _
  rw [HashMap.lookup_insert_eq]
  split_ifs with hx
  · rw [hx, hs]
    rfl
  · rfl

end AllocatorsFit

/-- The allocator of a subnet after an attachment is read back: its address is reserved if it is on
this subnet and in its range. -/
def takeAddress (id : Id) (a : SubnetAllocator) (att : NetworkAttachment) : SubnetAllocator :=
  match att.address with
  | some addr => if id = att.subnetId then (a.reserve addr).toOption.getD a else a
  | none => a

/-- The attachment has the address on the subnet, and the address is one of the allocator's. -/
def Takes (id : Id) (a : SubnetAllocator) (n : UInt32) (att : NetworkAttachment) : Prop :=
  att.subnetId = id ∧ a.contains n ∧ ∃ addr, att.address = some addr ∧ parseIpv4 addr = some n

theorem contains_congr {a a' : SubnetAllocator} (h : range a' = range a) (n : UInt32) :
    a'.contains n = a.contains n := by
  obtain ⟨hb, hp⟩ := Prod.mk.inj h
  rw [SubnetAllocator.contains, SubnetAllocator.contains, hb, hp]

theorem reserve_spec (a : SubnetAllocator) (addr : String) :
    range ((a.reserve addr).toOption.getD a) = range a ∧ ∀ n,
      n ∈ ((a.reserve addr).toOption.getD a).used ↔
        n ∈ a.used ∨ a.contains n ∧ parseIpv4 addr = some n := by
  unfold SubnetAllocator.reserve
  cases hp : parseIpv4 addr with
  | none =>
    refine ⟨rfl, fun n => ?_⟩
    simp [Except.toOption]
  | some m =>
    dsimp only
    split_ifs with hc
    · refine ⟨rfl, fun n => ?_⟩
      simp only [Except.toOption, Option.getD_some, Finset.mem_insert, Option.some.injEq]
      constructor
      · rintro (rfl | hn)
        · exact .inr ⟨hc, rfl⟩
        · exact .inl hn
      · rintro (hn | ⟨-, rfl⟩)
        · exact .inr hn
        · exact .inl rfl
    · refine ⟨rfl, fun n => ?_⟩
      simp only [Except.toOption, Option.getD_none, Option.some.injEq]
      refine ⟨.inl, fun hn => hn.elim id ?_⟩
      rintro ⟨hc', rfl⟩
      exact absurd hc' hc

theorem takeAddress_spec (id : Id) (a : SubnetAllocator) (att : NetworkAttachment) :
    range (takeAddress id a att) = range a ∧
      ∀ n, n ∈ (takeAddress id a att).used ↔ n ∈ a.used ∨ Takes id a n att := by
  unfold takeAddress Takes
  cases haddr : att.address with
  | none =>
    refine ⟨rfl, fun n => ?_⟩
    simp
  | some addr =>
    dsimp only
    split_ifs with hid
    · obtain ⟨hrange, hmem⟩ := reserve_spec a addr
      refine ⟨hrange, fun n => (hmem n).trans ?_⟩
      simp [hid]
    · refine ⟨rfl, fun n => ?_⟩
      simp [Ne.symm hid]

theorem foldl_takeAddress_spec (id : Id) (atts : List NetworkAttachment) (a : SubnetAllocator) :
    range (atts.foldl (takeAddress id) a) = range a ∧
      ∀ n, n ∈ (atts.foldl (takeAddress id) a).used ↔
        n ∈ a.used ∨ ∃ att ∈ atts, Takes id a n att := by
  induction atts generalizing a with
  | nil => simp
  | cons att atts ih =>
    obtain ⟨hrange, hmem⟩ := takeAddress_spec id a att
    obtain ⟨hrange', hmem'⟩ := ih (takeAddress id a att)
    refine ⟨hrange'.trans hrange, fun n => (hmem' n).trans ?_⟩
    have htakes : ∀ x, Takes id (takeAddress id a att) n x ↔ Takes id a n x := fun x => by
      rw [Takes, Takes, contains_congr hrange]
    simp only [hmem, htakes, List.mem_cons, exists_eq_or_imp, or_assoc]

theorem lookup_ipam_restoreAttachment (c : FabricController) (e : Id × NetworkAttachment) (id : Id) :
    (c.restoreAttachment e).network.ipam.lookup id =
      (c.network.ipam.lookup id).map fun a => takeAddress id a e.2 := by
  unfold restoreAttachment takeAddress
  cases e.2.address with
  | none => exact Option.map_id'.symm ▸ rfl
  | some addr =>
    dsimp only
    unfold NetworkController.reserveAddress
    cases hb : c.network.ipam.lookup e.2.subnetId with
    | none =>
      dsimp only
      by_cases hid : id = e.2.subnetId
      · rw [hid, hb]
        rfl
      · simp [hid]
    | some b =>
      dsimp only
      cases hres : b.reserve addr with
      | error err =>
        dsimp only
        by_cases hid : id = e.2.subnetId
        · rw [hid, hb, Option.map_some, if_pos rfl, hres]
          rfl
        · simp [hid]
      | ok b' =>
        dsimp only
        rw [HashMap.lookup_insert_eq]
        by_cases hid : id = e.2.subnetId
        · rw [if_pos hid, hid, hb, Option.map_some, if_pos rfl, hres]
          rfl
        · simp [hid]

/-- The allocator of a subnet after all stored attachments are read back. -/
theorem lookup_ipam_foldl_restoreAttachment (es : List (Id × NetworkAttachment))
    (c : FabricController) (id : Id) :
    (es.foldl restoreAttachment c).network.ipam.lookup id =
      (c.network.ipam.lookup id).map fun a => (es.map Prod.snd).foldl (takeAddress id) a := by
  induction es generalizing c with
  | nil => simp
  | cons e es ih =>
    rw [List.foldl_cons, ih, lookup_ipam_restoreAttachment, Option.map_map]
    rfl

theorem allocatorsFresh_restoreNetwork (s : StateStore Record) :
    AllocatorsFresh (restoreNetwork s .new) := by
  refine List.foldlRecOn _ _ ?_ fun n hn subnet _ => ?_
  · obtain ⟨hsub, hipam, -⟩ := sameSubnets_foldl_createVpc (listJson s "vpcs" Record.asVpc) .new
    intro id
    rw [hsub, hipam]
    rfl
  · obtain he | ⟨hnew, hl⟩ := lookup_createSubnet n subnet
    · rwa [he]
    intro id
    obtain ⟨hs, hi⟩ := hl id
    rw [hs, hi]
    split_ifs with hid
    · have hnone : n.ipam.lookup id = none := by
        rw [hn id, hid, hnew]
        rfl
      rw [hnone, Option.or_none]
      rfl
    · exact hn id

/-! ## Histories -/

/-- What every state of a history meets: the records of the live topology and of the stored one are
under their own ids, and the allocators fit the subnets. -/
structure Restorable (c : FabricController) : Prop where
  consistent : Consistent c
  topology : TopologyWf c.topology
  machines : StoredMachines c.store
  allocators : AllocatorsFit c.network

namespace Restorable

variable {c : FabricController}

theorem fresh_empty : Restorable (fresh .empty) where
  consistent := consistent_fresh
  topology := TopologyWf.new
  machines k r h := by simp [fresh, StateStore.get] at h
  allocators id := rfl

theorem topology_exec (h : TopologyWf c.topology) (op : ControllerOp) :
    TopologyWf (c.exec op).topology := by
  cases op with
  | putRegion r => exact h.putRegion r
  | putDatacenter d => exact h.putDatacenter d
  | putRack r => exact h.putRack r
  | putMachine m => exact h.putMachine m
  | attachWorkload env w s egress =>
    change TopologyWf (c.attachWorkload env w s egress).2.topology
    obtain ⟨-, he⟩ | ⟨-, -, he⟩ | ⟨a, addr, a', -, -, -, he⟩ := c.attachWorkload_cases env w s egress
    · rwa [he]
    · rw [he]
      exact h
    · rw [he]
      exact h
  | detachWorkload env w =>
    simp only [exec, detachWorkload]
    split
    · exact h
    · exact h
  | setSubnetEgress env s mode =>
    simp only [exec, setSubnetEgress]
    split
    · exact h
    · exact h
  | _ => exact h

theorem allocators_exec (h : AllocatorsFit c.network) (op : ControllerOp) :
    AllocatorsFit (c.exec op).network := by
  cases op with
  | createVpc vpc =>
    obtain ⟨hs, hi, -⟩ := c.network.sameSubnets_createVpc vpc
    exact h.congr hi hs
  | deleteVpc id =>
    obtain ⟨hs, hi, -⟩ := c.network.sameSubnets_deleteVpc id
    exact h.congr hi hs
  | createSubnet subnet => exact h.createSubnet subnet
  | addRoute route fanned =>
    obtain ⟨hs, hi, -⟩ := c.network.sameSubnets_addRoute route fanned
    exact h.congr hi hs
  | applyPolicy policy fanned =>
    obtain ⟨hs, hi, -⟩ := c.network.sameSubnets_applyPolicy policy fanned
    exact h.congr hi hs
  | deletePolicy id =>
    obtain ⟨hs, hi, -⟩ := c.network.sameSubnets_deletePolicy id
    exact h.congr hi hs
  | attachWorkload env w s egress =>
    change AllocatorsFit (c.attachWorkload env w s egress).2.network
    have hprior : AllocatorsFit (c.releasePrior w) := by
      unfold releasePrior
      split
      · exact h.releaseAddress _ _
      · exact h
    obtain ⟨-, he⟩ | ⟨-, -, he⟩ | ⟨a, addr, a', -, ha, halloc, he⟩ :=
      c.attachWorkload_cases env w s egress
    · rwa [he]
    · rw [he]
      exact hprior
    · rw [he]
      exact (hprior.insert ha (range_allocate halloc)).congr (by simp) (by simp)
  | detachWorkload env w =>
    simp only [exec, detachWorkload]
    split
    · exact h
    · next att _ =>
      exact (h.releaseAddress att.subnetId (att.address.getD "")).congr (by simp) (by simp)
  | setSubnetEgress env s mode =>
    change AllocatorsFit (c.setSubnetEgress env s mode).2.network
    rw [(c.setSubnetEgress_frame env s mode).1]
    exact h.setSubnetEgress _ _ _
  | _ => exact h

theorem exec (h : Restorable c) (op : ControllerOp) : Restorable (c.exec op) where
  consistent := ⟨h.consistent.1.exec op, storedWf_exec h.consistent.2 h.consistent.1 op⟩
  topology := topology_exec h.topology op
  machines := by
    obtain he | ⟨c', env, he, hstore⟩ := c.exec_store op
    · rw [he]
      exact h.machines
    · have htop : TopologyWf (c'.persist env).2.topology := he ▸ topology_exec h.topology op
      have hold : StoredMachines c'.store := hstore ▸ h.machines
      rw [he]
      exact storedMachines_persist hold htop env
  allocators := allocators_exec h.allocators op

theorem foldl_restoreAttachment_topology (es : List (Id × NetworkAttachment))
    (c : FabricController) : (es.foldl restoreAttachment c).topology = c.topology := by
  induction es generalizing c with
  | nil => rfl
  | cons e es ih => exact ih _

theorem allocatorsFit_restore {s : StateStore Record} (h : StoredWf s) :
    AllocatorsFit (fresh s).restore.2.network := by
  intro id
  rw [(restore_fresh h).2.2.2.2.1, restore_fresh_eq h, lookup_ipam_foldl_restoreAttachment,
    Option.map_map]
  change ((restoreNetwork s .new).ipam.lookup id).map _ = _
  rw [allocatorsFresh_restoreNetwork s id]
  cases (restoreNetwork s .new).subnets.lookup id with
  | none => rfl
  | some subnet =>
    rw [Option.bind_some, Option.bind_some, ← range_of_new]
    congr 1
    funext a
    exact (foldl_takeAddress_spec id _ a).1

theorem restart (h : Restorable c) : Restorable (fresh c.store).restore.2 where
  consistent := by
    refine ⟨wellKeyed_restore h.consistent.2, ?_⟩
    rw [(restore_fresh h.consistent.2).2.1]
    exact h.consistent.2
  topology := by
    rw [restore_fresh_eq h.consistent.2, foldl_restoreAttachment_topology]
    exact TopologyWf.new.restoreTopology c.store
  machines := by
    rw [(restore_fresh h.consistent.2).2.1]
    exact h.machines
  allocators := allocatorsFit_restore h.consistent.2

theorem step {c' : FabricController} {e : NodeEvent} (h : Restorable c)
    (hs : nodeStep c e = some c') : Restorable c' := by
  cases e with
  | call op =>
    obtain rfl := Option.some.inj hs
    exact h.exec op
  | restart =>
    obtain rfl := Option.some.inj hs
    exact h.restart

/-- **Every state of a history is restorable.** -/
theorem of_run {events : List NodeEvent} (hrun : run nodeStep (fresh .empty) events = some c) :
    Restorable c :=
  run_invariant (fun _ _ _ h hs => h.step hs) fresh_empty hrun

end Restorable

/-! ## What comes back -/

namespace FabricController

variable {c : FabricController} {env : PersistEnv}

/-- A fresh controller that has restored from what persisting stored. -/
def restarted (c : FabricController) (env : PersistEnv) : FabricController :=
  (fresh (c.persist env).2.store).restore.2

/-- **Lossless restart.** The restarted controller has every machine, every route, every policy, and
the same allocator for each subnet. -/
structure Lossless (c : FabricController) (env : PersistEnv) : Prop where
  machines : ∀ m ∈ c.topology.allMachines, m ∈ (c.restarted env).topology.allMachines
  routes : ∀ id r, c.network.routes.lookup id = some r →
    (c.restarted env).network.routes.lookup id = some r
  policies : ∀ id p, c.network.policies.lookup id = some p →
    (c.restarted env).network.policies.lookup id = some p
  allocators : ∀ id ∈ c.network.subnets,
    (c.restarted env).network.ipam.lookup id = c.network.ipam.lookup id

/-- The workload has the attachment, or it has none and this one is stored for it. -/
def KeptAttachment (c : FabricController) (w : Id) (att : NetworkAttachment) : Prop :=
  c.attachments.lookup w = some att ∨
    w ∉ c.attachments ∧ c.store.get "workload_networks" w.name = some (.attachment att)

/-- What is in use in a subnet is its gateway and what the kept attachments take. -/
def UsedAsKept (c : FabricController) (id : Id) (a : SubnetAllocator) : Prop :=
  ∀ n, n ∈ a.used ↔ checkedHost a.base a.prefixLen 1 = some n ∨
    ∃ w att, c.KeptAttachment w att ∧ Takes id a n att

/-- Every machine is anchored or stored already, there is no route and no policy, and what is in use
in a subnet is its gateway and what the kept attachments take. -/
structure Accounted (c : FabricController) : Prop where
  machines : ∀ m ∈ c.topology.allMachines, Anchored c.topology m ∨
    c.store.get "machines" m.metadata.id.name = some (.machine m)
  routes : ∀ id, id ∉ c.network.routes
  policies : ∀ id, id ∉ c.network.policies
  addresses : ∀ id a, c.network.ipam.lookup id = some a → c.UsedAsKept id a

end FabricController

theorem foldl_putMachine (ms : List Machine) (t : InMemoryTopology) : ms.foldl .putMachine t =
    { t with machines := ms.foldl (fun l m => l.insert m.metadata.id m) t.machines } := by
  induction ms generalizing t with
  | nil => rfl
  | cons m ms ih => exact ih (t.putMachine m)

theorem restoreTopology_machines (s : StateStore Record) : (restoreTopology s .new).machines =
    (listJson s "machines" Record.asMachine).foldl (fun l m => l.insert m.metadata.id m) ∅ := by
  unfold restoreTopology
  rw [foldl_putMachine]
  dsimp only
  congr 1
  refine List.foldlRecOn (motive := fun t : InMemoryTopology => t.machines = ∅) _ _ ?_
    fun _ ht _ _ => ht
  refine List.foldlRecOn (motive := fun t : InMemoryTopology => t.machines = ∅) _ _ ?_
    fun _ ht _ _ => ht
  exact List.foldlRecOn (motive := fun t : InMemoryTopology => t.machines = ∅) _ _ rfl
    fun _ ht _ _ => ht

theorem mem_listJson_machines {s : StateStore Record} (h : StoredMachines s) {m : Machine} :
    m ∈ listJson s "machines" Record.asMachine ↔
      s.get "machines" m.metadata.id.name = some (.machine m) := by
  rw [mem_listJson]
  constructor
  · rintro ⟨k, r, hr, hm⟩
    obtain ⟨m', rfl, rfl⟩ := h k r hr
    obtain rfl := Option.some.inj hm
    exact hr
  · exact fun hr => ⟨_, _, hr, rfl⟩

/-- **The machines of a restored topology** are the stored ones. -/
theorem mem_restoreTopology {s : StateStore Record} (h : StoredMachines s) {m : Machine} :
    m ∈ (restoreTopology s .new).allMachines ↔
      s.get "machines" m.metadata.id.name = some (.machine m) := by
  have hwf : TopologyWf (restoreTopology s .new) := TopologyWf.new.restoreTopology s
  have hlook : m ∈ (restoreTopology s .new).allMachines ↔
      (restoreTopology s .new).machines.lookup m.metadata.id = some m := by
    rw [InMemoryTopology.allMachines, HashMap.mem_values]
    refine ⟨fun ⟨id, hm⟩ => ?_, fun hm => ⟨_, hm⟩⟩
    rwa [hwf.machineId id m hm]
  rw [hlook, restoreTopology_machines]
  obtain ⟨x, hx, hid, hl⟩ | ⟨hne, hl⟩ := HashMap.lookup_foldl_insert
    (fun m : Machine => m.metadata.id) (fun m : Machine => m) (listJson s "machines" Record.asMachine)
    ∅ m.metadata.id
  · rw [hl, ← hid, (mem_listJson_machines h).1 hx]
    simp
  · rw [hl]
    constructor
    · intro hm
      simp at hm
    · exact fun hm => absurd rfl (hne m ((mem_listJson_machines h).2 hm))

/-- The routes and policies are the same. -/
def SameRules (n n' : NetworkController) : Prop := n'.routes = n.routes ∧ n'.policies = n.policies

theorem sameRules_createVpc (n : NetworkController) (vpc : Vpc) : SameRules n (n.createVpc vpc).2 := by
  unfold NetworkController.createVpc
  dsimp only
  split_ifs <;> exact ⟨rfl, rfl⟩

theorem sameRules_createSubnet (n : NetworkController) (subnet : Subnet) :
    SameRules n (n.createSubnet subnet).2 := by
  by_cases h : subnet.vpcId ∈ n.vpcs ∧ subnet.metadata.id ∉ n.subnets
  · rw [n.createSubnet_of_accepted h.1 h.2]
    exact ⟨rfl, rfl⟩
  · obtain ⟨e, he⟩ := n.createSubnet_of_refused h
    rw [he]
    exact ⟨rfl, rfl⟩

theorem sameRules_restoreAttachment (c : FabricController) (e : Id × NetworkAttachment) :
    SameRules c.network (c.restoreAttachment e).network := by
  unfold restoreAttachment NetworkController.reserveAddress
  cases e.2.address with
  | none => exact ⟨rfl, rfl⟩
  | some addr =>
    dsimp only
    split
    · exact ⟨rfl, rfl⟩
    · split <;> exact ⟨rfl, rfl⟩

/-- **A restart has no route and no policy.** -/
theorem sameRules_restore {s : StateStore Record} (h : StoredWf s) :
    SameRules .new (fresh s).restore.2.network := by
  have htrans : ∀ n n', SameRules .new n → SameRules n n' → SameRules .new n' := fun _ _ h h' =>
    ⟨h'.1.trans h.1, h'.2.trans h.2⟩
  rw [restore_fresh_eq h]
  refine List.foldlRecOn (motive := fun c : FabricController => SameRules .new c.network) _ _ ?_
    fun c hc e _ => htrans _ _ hc (sameRules_restoreAttachment c e)
  change SameRules .new (restoreNetwork s .new)
  refine List.foldlRecOn _ _ ?_ fun n hn t _ => htrans _ _ hn (sameRules_createSubnet n t)
  exact List.foldlRecOn _ _ ⟨rfl, rfl⟩ fun n hn v _ => htrans _ _ hn (sameRules_createVpc n v)

theorem mem_used_new {cidr : String} {a : SubnetAllocator} (h : SubnetAllocator.new cidr = .ok a)
    (n : UInt32) : n ∈ a.used ↔ checkedHost a.base a.prefixLen 1 = some n := by
  unfold SubnetAllocator.new at h
  cases hp : parseCidr cidr with
  | none => simp [hp] at h
  | some bp =>
    simp only [hp, Except.ok.injEq] at h
    subst h
    dsimp only
    cases checkedHost bp.1 bp.2 1 with
    | none => simp
    | some gw => simp [eq_comm]

/-- A stored subnet is restored. -/
theorem lookup_subnets_restoreNetwork {s : StateStore Record} (h : StoredWf s) {id : Id}
    {subnet : Subnet} (hs : s.get "subnets" id.name = some (.subnet subnet)) :
    (restoreNetwork s .new).subnets.lookup id = some subnet := by
  have hrest : (fresh s).restore.2.live .subnet id.name = some (.subnet subnet) := by
    rw [live_restore h]
    change (s.get "subnets" id.name).or _ = _
    rw [hs, Option.some_or]
  obtain ⟨t, ht, he⟩ := Option.map_eq_some_iff.1 hrest
  rw [(restore_fresh h).2.2.2.2.1] at ht
  rw [← Record.subnet.inj he]
  exact ht

namespace FabricController

variable {c : FabricController} {env : PersistEnv}

/-- What is stored as an attachment after a persist that succeeds. -/
theorem get_persist_attachment (h : Restorable c) (hp : (c.persist env).1 = .ok ()) {w : Id}
    {att : NetworkAttachment} :
    (c.persist env).2.store.get "workload_networks" w.name = some (.attachment att) ↔
      c.KeptAttachment w att := by
  unfold KeptAttachment
  obtain ⟨hget, hnone⟩ | ⟨r, hlive, hget⟩ := get_persist h.consistent.1 env .attachment w.name
  · have hw : c.attachments.lookup w = none := Option.map_eq_none_iff.1 (hnone hp)
    change (c.persist env).2.store.get "workload_networks" w.name = _ at hget
    rw [hget]
    simp [hw, AList.lookup_eq_none.1 hw, Kind.collection]
  · obtain ⟨x, hx, rfl⟩ := Option.map_eq_some_iff.1 hlive
    change (c.persist env).2.store.get "workload_networks" w.name = _ at hget
    change c.attachments.lookup w = some x at hx
    have hmem : w ∈ c.attachments := HashMap.mem_iff_exists_lookup.2 ⟨x, hx⟩
    rw [hget, hx]
    simp [hmem]

/-- The restarted controller has the subnets of the old one. -/
theorem lookup_subnets_restarted (h : Restorable c) (hp : (c.persist env).1 = .ok ()) {id : Id}
    {s : Subnet} (hs : c.network.subnets.lookup id = some s) :
    (restoreNetwork (c.persist env).2.store .new).subnets.lookup id = some s := by
  have hstored := h.consistent.2.persist h.consistent.1 env
  have hlive : c.live .subnet id.name = some (.subnet s) := Option.map_eq_some_iff.2 ⟨s, hs, rfl⟩
  obtain ⟨-, hnone⟩ | ⟨r, hr, hget⟩ := get_persist h.consistent.1 env .subnet id.name
  · rw [hnone hp] at hlive
    cases hlive
  · obtain rfl := Option.some.inj (hr.symm.trans hlive)
    exact lookup_subnets_restoreNetwork hstored hget

/-- **The allocator of a subnet after a restart**: the gateway and what the kept attachments take are
in use. -/
theorem lookup_ipam_restarted (h : Restorable c) (hp : (c.persist env).1 = .ok ()) {id : Id}
    {s : Subnet} (hs : c.network.subnets.lookup id = some s) :
    (parseCidr s.cidr = none ∧ (c.restarted env).network.ipam.lookup id = none) ∨
    ∃ a, parseCidr s.cidr = some (range a) ∧ (c.restarted env).network.ipam.lookup id = some a ∧
      c.UsedAsKept id a := by
  have hstored := h.consistent.2.persist h.consistent.1 env
  rw [restarted, restore_fresh_eq hstored, lookup_ipam_foldl_restoreAttachment]
  change _ ∧ ((restoreNetwork _ .new).ipam.lookup id).map _ = none ∨
    ∃ a, _ ∧ ((restoreNetwork _ .new).ipam.lookup id).map _ = some a ∧ _
  rw [allocatorsFresh_restoreNetwork, lookup_subnets_restarted h hp hs, Option.bind_some,
    ← range_of_new]
  cases hnew : SubnetAllocator.new s.cidr with
  | error e => exact .inl ⟨rfl, rfl⟩
  | ok a =>
    have hspec := foldl_takeAddress_spec id
      ((storedAttachments (c.persist env).2.store).map Prod.snd) a
    refine .inr ⟨_, congrArg some hspec.1.symm, rfl, ?_⟩
    generalize List.foldl (takeAddress id) a _ = a' at hspec ⊢
    obtain ⟨hrange, hmem⟩ := hspec
    obtain ⟨hb, hpre⟩ := Prod.mk.inj hrange
    intro n
    have htakes : ∀ x, Takes id a' n x ↔ Takes id a n x := fun x => by
      rw [Takes, Takes, contains_congr hrange]
    rw [hmem, hb, hpre, mem_used_new hnew]
    refine or_congr Iff.rfl ?_
    simp only [htakes, List.mem_map, Prod.exists, exists_eq_right]
    constructor
    · rintro ⟨att, ⟨w, hw⟩, ht⟩
      exact ⟨w, att, (get_persist_attachment h hp).1 ((mem_storedAttachments hstored).1 hw), ht⟩
    · rintro ⟨w, att, hw, ht⟩
      exact ⟨att, ⟨w, (mem_storedAttachments hstored).2 ((get_persist_attachment h hp).2 hw)⟩, ht⟩

/-- **The machines after a restart**: a machine comes back if and only if it is anchored or was
stored already. -/
theorem mem_allMachines_restarted (h : Restorable c) (hp : (c.persist env).1 = .ok ()) {m : Machine}
    (hm : m ∈ c.topology.allMachines) : m ∈ (c.restarted env).topology.allMachines ↔
      Anchored c.topology m ∨ c.store.get "machines" m.metadata.id.name = some (.machine m) := by
  have hmach := storedMachines_persist h.machines h.topology env
  rw [restarted, restore_fresh_eq (h.consistent.2.persist h.consistent.1 env),
    Restorable.foldl_restoreAttachment_topology]
  change m ∈ (restoreTopology _ .new).allMachines ↔ _
  rw [mem_restoreTopology hmach]
  obtain ⟨hget, hnone⟩ | ⟨m', hm', hanch, hid, hget⟩ :=
    get_persist_machines h.topology env m.metadata.id.name
  · rw [hget]
    exact ⟨.inr, fun hor => hor.resolve_left (hnone hp m hm rfl)⟩
  · -- machines of one id are one machine
    obtain ⟨i, hi⟩ := HashMap.mem_values.1 hm
    obtain ⟨j, hj⟩ := HashMap.mem_values.1 hm'
    obtain rfl := h.topology.machineId i m hi
    obtain rfl := h.topology.machineId j m' hj
    have hids : m.metadata.id = m'.metadata.id := congrArg Id.mk hid
    rw [hids, hj] at hi
    obtain rfl := Option.some.inj hi
    rw [hget]
    exact ⟨fun _ => .inl hanch, fun _ => rfl⟩

/-- A restarted controller has no route and no policy. -/
theorem rules_restarted (h : Restorable c) (env : PersistEnv) (id : Id) :
    (c.restarted env).network.routes.lookup id = none ∧
      (c.restarted env).network.policies.lookup id = none := by
  obtain ⟨hroutes, hpolicies⟩ := sameRules_restore (h.consistent.2.persist h.consistent.1 env)
  rw [restarted, hroutes, hpolicies]
  exact ⟨rfl, rfl⟩

theorem allocator_ext {a a' : SubnetAllocator} (hrange : range a' = range a)
    (hused : ∀ n, n ∈ a'.used ↔ n ∈ a.used) : a' = a := by
  obtain ⟨hb, hp⟩ := Prod.mk.inj hrange
  obtain ⟨b, p, u⟩ := a
  obtain ⟨b', p', u'⟩ := a'
  obtain rfl : b' = b := hb
  obtain rfl : p' = p := hp
  obtain rfl : u' = u := Finset.ext hused
  rfl

theorem UsedAsKept.iff_of_range {id : Id} {a a' : SubnetAllocator} (hrange : range a' = range a)
    (h : c.UsedAsKept id a') : c.UsedAsKept id a ↔ a' = a := by
  obtain ⟨hb, hp⟩ := Prod.mk.inj hrange
  have htakes : ∀ n x, Takes id a' n x ↔ Takes id a n x := fun n x => by
    rw [Takes, Takes, contains_congr hrange]
  have hmem : ∀ n, n ∈ a'.used ↔ checkedHost a.base a.prefixLen 1 = some n ∨
      ∃ w att, c.KeptAttachment w att ∧ Takes id a n att := fun n => by
    rw [h n, hb, hp]
    simp only [htakes]
  constructor
  · intro h'
    exact allocator_ext hrange fun n => (hmem n).trans (h' n).symm
  · rintro rfl
    exact h

/-- **The allocator of a subnet comes back** if and only if what is in use in it is kept. -/
theorem lookup_ipam_restarted_iff (h : Restorable c) (hp : (c.persist env).1 = .ok ()) {id : Id}
    {s : Subnet} (hs : c.network.subnets.lookup id = some s) :
    (c.restarted env).network.ipam.lookup id = c.network.ipam.lookup id ↔
      ∀ a, c.network.ipam.lookup id = some a → c.UsedAsKept id a := by
  have hfit := h.allocators id
  rw [hs, Option.bind_some] at hfit
  obtain ⟨hparse, hnone⟩ | ⟨a', hparse, ha', hmem⟩ := lookup_ipam_restarted h hp hs
  · rw [hparse] at hfit
    rw [hnone, Option.map_eq_none_iff.1 hfit]
    simp
  · rw [hparse] at hfit
    obtain ⟨a, ha, hrange⟩ := Option.map_eq_some_iff.1 hfit
    rw [ha', ha]
    simp [hmem.iff_of_range hrange.symm]

/-- **A persist and a restart lose nothing if and only if the state is accounted for.** -/
theorem lossless_iff_accounted (h : Restorable c) (hp : (c.persist env).1 = .ok ()) :
    c.Lossless env ↔ c.Accounted := by
  constructor
  · rintro ⟨hm, hroute, hpolicy, halloc⟩
    refine ⟨fun m hm' => (mem_allMachines_restarted h hp hm').1 (hm m hm'), fun id hid => ?_,
      fun id hid => ?_, fun id a ha => ?_⟩
    · obtain ⟨r, hl⟩ := HashMap.mem_iff_exists_lookup.1 hid
      have hback := hroute id r hl
      rw [(rules_restarted h env id).1] at hback
      cases hback
    · obtain ⟨p, hl⟩ := HashMap.mem_iff_exists_lookup.1 hid
      have hback := hpolicy id p hl
      rw [(rules_restarted h env id).2] at hback
      cases hback
    · -- an allocator belongs to a recorded subnet
      have hfit := h.allocators id
      rw [ha, Option.map_some] at hfit
      obtain ⟨s, hs, -⟩ := Option.bind_eq_some_iff.1 hfit.symm
      have hback := halloc id (HashMap.mem_iff_exists_lookup.2 ⟨s, hs⟩)
      exact (lookup_ipam_restarted_iff h hp hs).1 hback a ha
  · rintro ⟨hm, hroute, hpolicy, haddr⟩
    refine ⟨fun m hm' => (mem_allMachines_restarted h hp hm').2 (hm m hm'), fun id r hl => ?_,
      fun id p hl => ?_, fun id hid => ?_⟩
    · exact absurd (HashMap.mem_iff_exists_lookup.2 ⟨r, hl⟩) (hroute id)
    · exact absurd (HashMap.mem_iff_exists_lookup.2 ⟨p, hl⟩) (hpolicy id)
    · obtain ⟨s, hs⟩ := HashMap.mem_iff_exists_lookup.1 hid
      exact (lookup_ipam_restarted_iff h hp hs).2 fun a ha => haddr id a ha

end FabricController

/-- **Lossless restart.** After a history of calls and restarts whose state is then persisted, a
fresh controller that restores has every machine, route and policy and the same allocators, if and
only if every machine is anchored or stored already, there is no route and no policy, and what is in
use in each subnet is the gateway and what the kept attachments take. -/
theorem lossless_iff (events : List NodeEvent) (c : FabricController)
    (hrun : run nodeStep (fresh .empty) events = some c) (env : PersistEnv)
    (hp : (c.persist env).1 = .ok ()) : c.Lossless env ↔ c.Accounted :=
  lossless_iff_accounted (.of_run hrun) hp

/-! A region, a datacenter and a rack with one machine. -/

/-- A region. -/
def sampleRegion : Region := ⟨.named "eu", "eu"⟩

/-- A datacenter in it. -/
def sampleDatacenter : Datacenter := ⟨.named "dc", ⟨"eu"⟩, ""⟩

/-- A rack in this datacenter. -/
def sampleRack : Rack := ⟨.named "r1", ⟨"eu"⟩, ⟨"dc"⟩, 42⟩

/-- A machine in a rack of this datacenter. -/
def rackedMachine (name rack : String) : Machine :=
  ⟨.named name, ⟨"eu"⟩, ⟨"dc"⟩, ⟨rack⟩, none, none, .none, .running, .unknown⟩

/-- An anchored machine and a subnet that nobody is attached to. -/
def anchoredHistory : List NodeEvent :=
  [.call (.putRegion sampleRegion), .call (.putDatacenter sampleDatacenter),
    .call (.putRack sampleRack), .call (.putMachine (rackedMachine "m1" "r1")),
    .call (.createVpc sampleVpc), .call (.createSubnet (sampleSubnet "s1" "10.0.1.0/24" .isolated))]

/-- The machine comes back, and so does the allocator with the gateway in use. -/
theorem lossless_iff_anchoredHistory :
    ∃ c, run nodeStep (fresh .empty) anchoredHistory = some c ∧
      (c.persist quietEnv).1 = .ok () ∧ c.topology.allMachines = [rackedMachine "m1" "r1"] ∧
      ⟨"s1"⟩ ∈ c.network.subnets ∧ c.Lossless quietEnv := by
  refine ⟨_, rfl, rfl, rfl, by decide, (lossless_iff anchoredHistory _ rfl quietEnv rfl).2
    ⟨fun m hm => ?_, fun id => AList.notMem_empty id, fun id => AList.notMem_empty id,
      fun id a ha n => ?_⟩⟩
  · obtain rfl := List.mem_singleton.1 hm
    exact .inl ⟨sampleRack, rfl, sampleDatacenter, rfl, by decide⟩
  · have hipam : (AList.insert ⟨"s1"⟩ ⟨0x0a000100, 24, {0x0a000101}⟩
        (∅ : HashMap Id SubnetAllocator)).lookup id = some a := ha
    obtain ⟨rfl, rfl⟩ | ⟨-, hnone⟩ := HashMap.lookup_insert_eq_some.1 hipam
    · have hgw : checkedHost 0x0a000100 24 1 = some 0x0a000101 := rfl
      have hused : n ∈ ({0x0a000101} : Finset UInt32) ↔ checkedHost 0x0a000100 24 1 = some n := by
        simp [hgw, eq_comm]
      refine hused.trans ⟨.inl, fun hor => hor.resolve_right ?_⟩
      rintro ⟨w, att, hw | ⟨-, hw⟩, -⟩
      · cases hw
      · cases hw
    · cases hnone

/-- A machine whose rack is not recorded, a route, a policy, and an attachment that was stored and
is gone. -/
def lossyHistory : List NodeEvent :=
  [.call (.createVpc sampleVpc), .call (.createSubnet (sampleSubnet "s1" "10.0.1.0/24" .isolated)),
    .call (.putMachine (rackedMachine "m1" "r1")),
    .call (.addRoute ⟨⟨"rt"⟩, ⟨"s1"⟩, "0.0.0.0/0", "10.0.1.1"⟩ (.ok ())),
    .call (.applyPolicy ⟨⟨"p"⟩, .subnet ⟨"s1"⟩, []⟩ (.ok ())),
    .call (.attachWorkload quietEnv ⟨"a"⟩ ⟨"s1"⟩ false), .call (.detachWorkload quietEnv ⟨"a"⟩)]

/-- None of the four parts survives the restart as it was. -/
theorem not_lossless_lossyHistory :
    ∃ c, run nodeStep (fresh .empty) lossyHistory = some c ∧ (c.persist quietEnv).1 = .ok () ∧
      c.topology.allMachines = [rackedMachine "m1" "r1"] ∧
      (c.restarted quietEnv).topology.allMachines = [] ∧
      c.network.routes.keys = [⟨"rt"⟩] ∧ (c.restarted quietEnv).network.routes.keys = [] ∧
      c.network.policies.keys = [⟨"p"⟩] ∧ (c.restarted quietEnv).network.policies.keys = [] ∧
      (c.network.ipam.lookup ⟨"s1"⟩).map SubnetAllocator.used = some {0x0a000101} ∧
      ((c.restarted quietEnv).network.ipam.lookup ⟨"s1"⟩).map SubnetAllocator.used =
        some {0x0a000101, 0x0a000102} ∧ ¬c.Lossless quietEnv := by
  refine ⟨_, rfl, rfl, rfl, by decide +kernel, rfl, by decide +kernel, rfl, by decide +kernel,
    by decide +kernel, by decide +kernel, fun h => ?_⟩
  have hm := h.machines (rackedMachine "m1" "r1") (List.mem_singleton_self _)
  revert hm
  decide +kernel

end OCF.Api
