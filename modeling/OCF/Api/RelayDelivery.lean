import OCF.Api.Addressing
import OCF.Api.WgPlan

/-!
# Packets between private nodes

Every node of a fleet programs its own planes, from its own measurements and what its peers have
shared with it. WireGuard sends a packet to the peer whose allowed addresses contain the destination,
and accepts one only from the peer whose allowed addresses contain the source. A packet between two
private nodes goes to the next hop that the sender has chosen for the receiver, which forwards it if
it is a relay; the receiver accepts it if it has chosen the same next hop for the sender.

`relayed_delivery_iff` says when the packet arrives whatever the order in which the hash maps of the
nodes are listed: if and only if there are preferred routes of the sender to the receiver and of the
receiver to the sender, each in its own graph and with its sums rounded as the program rounds them, and
one relay starts all of them.
-/

namespace OCF.Api

open OCF.Fabric OCF.Topology WgNode

/-! ## Cryptokey routing -/

/-- The key of the peer whose allowed addresses contain the address. An address belongs to the peer
that it was given to last. -/
def cryptokey (specs : List WgPeerSpec) (ip : String) : Option String :=
  (specs.reverse.find? fun spec => ip ++ "/32" ∈ spec.allowedIps).map WgPeerSpec.publicKey

/-- **The plan routes the address of a peer to its carrier.** -/
theorem cryptokey_planWgPeers {plane : WgPlane} {selfReach : Reachability} {peers : List WgPeer}
    (hidx : (peers.map WgPeer.index).Nodup) {p : WgPeer} (hp : p ∈ peers) :
    cryptokey (planWgPeers plane selfReach peers) (plane.ip p.index) = p.carrier selfReach := by
  have h : Entered plane selfReach peers _ := entered_planWgPeers peers
  unfold cryptokey
  cases hc : p.carrier selfReach with
  | none =>
    rw [Option.map_eq_none_iff, List.find?_eq_none]
    intro spec hspec hx
    obtain ⟨q, hq, hcq, hcidr⟩ := (h.mem_allowedIps (List.mem_reverse.1 hspec)).1
      (by simpa using hx)
    obtain rfl := List.inj_on_of_nodup_map hidx hp hq (cidr_inj.1 hcidr)
    rw [hc] at hcq
    contradiction
  | some key =>
    obtain ⟨spec, hspec, rfl, hx, hunique⟩ := h.exists_unique_spec hidx hp hc
    have hsome : ((planWgPeers plane selfReach peers).reverse.find? fun spec =>
        plane.ip p.index ++ "/32" ∈ spec.allowedIps).isSome := by
      rw [List.find?_isSome]
      exact ⟨spec, List.mem_reverse.2 hspec, by simpa [WgPeer.cidr] using hx⟩
    obtain ⟨spec', hspec'⟩ := Option.isSome_iff_exists.1 hsome
    have hmem := List.mem_reverse.1 (List.mem_of_find?_eq_some hspec')
    rw [hspec', hunique spec' hmem (by simpa [WgPeer.cidr] using List.find?_some hspec')]
    rfl

/-! ## What a node programs -/

namespace WgNode

/-- The node's own index in its plan. -/
def selfIndex (n : WgNode) : Option ℕ :=
  (n.machinePlan.find? fun e => e.2.1 = n.nodeId).map fun e => e.2.2.1

/-- The node's own address on a plane. -/
def ownIp (n : WgNode) (plane : WgPlane) : String :=
  (n.selfIndex.map plane.ip).getD (plane.addrPrefix ++ ".254")

/-- The node forwards packets that are not for itself. -/
def forwards (n : WgNode) : Bool := n.selfReach = .relay

variable {publicKeyOf : String → Bytes} {n : WgNode} {m : Machine}

/-- The peers that are set on one of the planes. -/
def peersOn (publicKeyOf : String → Bytes) (n : WgNode) (order : List NodeId) (plane : WgPlane) :
    List WgPeerSpec :=
  ((n.programWireguard publicKeyOf order).find? fun e => e.1 = plane).elim [] Prod.snd

/-- The machines have distinct node ids. -/
def DistinctIds (publicKeyOf : String → Bytes) (machines : List Machine) : Prop :=
  (machines.map fun m => nodeIdOf publicKeyOf m.metadata.name).Nodup

instance (publicKeyOf : String → Bytes) (machines : List Machine) :
    Decidable (DistinctIds publicKeyOf machines) := inferInstanceAs (Decidable (List.Nodup _))

theorem DistinctIds.names {machines : List Machine} (h : DistinctIds publicKeyOf machines) :
    (machines.map fun m => m.metadata.name).Nodup := by
  unfold DistinctIds at h
  rw [show (fun m : Machine => nodeIdOf publicKeyOf m.metadata.name) =
    nodeIdOf publicKeyOf ∘ fun m => m.metadata.name from rfl, ← List.map_map] at h
  exact h.of_map _

theorem DistinctIds.perm {ms ms' : List Machine} (h : DistinctIds publicKeyOf ms)
    (hperm : ms'.Perm ms) : DistinctIds publicKeyOf ms' :=
  (hperm.map _).nodup_iff.2 h

theorem reachOf_eq (h : DistinctIds publicKeyOf n.machines) (hm : m ∈ n.machines) :
    n.reachOf m.metadata.name = reachabilityFromMachine m := by
  have hfind := find?_eq_some_of_nodup h.names hm
  rw [reachOf, hfind]
  rfl

theorem machinePlan_eq (n : WgNode) : n.machinePlan = n.byName.zipIdx.map fun e =>
    (e.1.metadata.id, e.1.metadata.name, e.2, e.1.fabricAddress) := rfl

/-- The plan does not depend on the order in which the machines are listed. -/
theorem machinePlan_eq_of_perm {n' : WgNode} (h : DistinctIds publicKeyOf n.machines)
    (hperm : n'.machines.Perm n.machines) : n'.machinePlan = n.machinePlan := by
  rw [machinePlan_eq, machinePlan_eq, byName_eq_of_perm (n := n') (l := n.byName)
    ((n.byName_perm.map _).nodup_iff.2 h.names) (pairwise_byName n)
    (hperm.trans n.byName_perm.symm)]

theorem plan_names_perm (n : WgNode) :
    (n.machinePlan.map fun e => e.2.1).Perm (n.machines.map fun m => m.metadata.name) := by
  have hmap : (n.machinePlan.map fun e => e.2.1) = n.byName.map fun m => m.metadata.name := by
    rw [machinePlan_eq, List.map_map, ← List.zipIdx_map_fst 0 n.byName, List.map_map,
      List.zipIdx_map_fst]
    rfl
  rw [hmap]
  exact n.byName_perm.map _

theorem nodup_plan_names (h : DistinctIds publicKeyOf n.machines) :
    (n.machinePlan.map fun e => e.2.1).Nodup :=
  n.plan_names_perm.nodup_iff.2 h.names

/-- Distinct node ids come from distinct keys. -/
theorem nodup_plan_keys (h : DistinctIds publicKeyOf n.machines) :
    (n.machinePlan.map fun e => wireguardKeyOf publicKeyOf e.2.1).Nodup := by
  have hids : ((n.machinePlan.map fun e => e.2.1).map (nodeIdOf publicKeyOf)).Nodup := by
    rw [(n.plan_names_perm.map _).nodup_iff, List.map_map]
    exact h
  have hpublic : ((n.machinePlan.map fun e => e.2.1).map publicKeyOf).Nodup := by
    refine List.Nodup.of_map (fun key => (⟨fingerprint key⟩ : NodeId)) ?_
    rw [List.map_map]
    exact hids
  have hkeys := hpublic.map base64_injective
  rw [List.map_map, List.map_map] at hkeys
  exact hkeys

theorem nodup_plan_indexes (n : WgNode) : (n.machinePlan.map fun e => e.2.2.1).Nodup := by
  have hmap : (n.machinePlan.map fun e => e.2.2.1) = List.range' 0 n.byName.length := by
    rw [machinePlan_eq, List.map_map, ← List.zipIdx_map_snd 0 n.byName]
    rfl
  rw [hmap]
  exact List.nodup_range'

theorem exists_plan_of_mem (hm : m ∈ n.machines) : ∃ e ∈ n.machinePlan, e.2.1 = m.metadata.name := by
  obtain ⟨i, hi⟩ := List.getElem?_of_mem (n.byName_perm.mem_iff.2 hm)
  refine ⟨(m.metadata.id, m.metadata.name, i, m.fabricAddress), ?_, rfl⟩
  rw [machinePlan_eq]
  exact List.mem_map.2 ⟨(m, i), List.mem_zipIdx_iff_getElem?.2 hi, rfl⟩

/-- The plan of a plane is set as it is: none of its entries is empty. -/
theorem peersOn_eq {order : List NodeId} {plane : WgPlane} (hplane : plane ∈ [wgMgmt, wgData, wgLb])
    {e : Id × String × ℕ × Option String} (he : e ∈ n.machinePlan) :
    n.peersOn publicKeyOf order plane = planWgPeers plane n.selfReach
      ((n.machinePlan.filter fun e => e.2.1 ≠ n.nodeId).map (n.wgPeer publicKeyOf order)) := by
  have hprogram : n.peersOn publicKeyOf order plane = n.programPlane publicKeyOf order plane := by
    unfold peersOn programWireguard
    rw [if_neg (List.ne_nil_of_mem he)]
    simp only [List.mem_cons, List.not_mem_nil, or_false] at hplane
    obtain rfl | rfl | rfl := hplane <;> rfl
  rw [hprogram, programPlane, List.filter_eq_self]
  intro spec hspec
  simpa using (entered_planWgPeers _).nonempty spec hspec

/-- **Where a packet is sent.** The address of another machine is routed to its key, or, if both nodes
are private, to the key of its next hop. -/
theorem cryptokey_peersOn (h : DistinctIds publicKeyOf n.machines) {order : List NodeId}
    {plane : WgPlane} (hplane : plane ∈ [wgMgmt, wgData, wgLb])
    {e : Id × String × ℕ × Option String} (he : e ∈ n.machinePlan) (hm : m ∈ n.machines)
    (hname : e.2.1 = m.metadata.name) (hne : m.metadata.name ≠ n.nodeId) :
    cryptokey (n.peersOn publicKeyOf order plane) (plane.ip e.2.2.1) =
      if reachabilityFromMachine m = .priv ∧ n.selfReach = .priv then
        n.relayKey publicKeyOf order (nodeIdOf publicKeyOf m.metadata.name)
      else some (wireguardKeyOf publicKeyOf m.metadata.name) := by
  have hsub : (n.machinePlan.filter fun e => e.2.1 ≠ n.nodeId).Sublist n.machinePlan :=
    List.filter_sublist
  have hidx : (((n.machinePlan.filter fun e => e.2.1 ≠ n.nodeId).map
      (n.wgPeer publicKeyOf order)).map WgPeer.index).Nodup := by
    rw [List.map_map]
    exact n.nodup_plan_indexes.sublist (hsub.map _)
  have hpeer : n.wgPeer publicKeyOf order e ∈
      (n.machinePlan.filter fun e => e.2.1 ≠ n.nodeId).map (n.wgPeer publicKeyOf order) := by
    refine List.mem_map_of_mem (List.mem_filter.2 ⟨he, ?_⟩)
    simpa [hname] using hne
  rw [peersOn_eq hplane he, ← show (n.wgPeer publicKeyOf order e).index = e.2.2.1 from rfl,
    cryptokey_planWgPeers hidx hpeer, WgPeer.carrier]
  have hreach : (n.wgPeer publicKeyOf order e).reach = reachabilityFromMachine m := by
    rw [wgPeer, hname]
    exact reachOf_eq h hm
  have hvia : (n.wgPeer publicKeyOf order e).via =
      n.relayKey publicKeyOf order (nodeIdOf publicKeyOf m.metadata.name) := by
    rw [wgPeer, hname]
    exact lookup_viaMap hm hne
  have hkey : (n.wgPeer publicKeyOf order e).publicKey = wireguardKeyOf publicKeyOf m.metadata.name := by
    rw [wgPeer, hname]
  have hdirect : (n.wgPeer publicKeyOf order e).Direct n.selfReach ↔
      ¬(reachabilityFromMachine m = .priv ∧ n.selfReach = .priv) := by
    rw [WgPeer.Direct, hreach]
  rw [hvia, hkey]
  by_cases hpriv : reachabilityFromMachine m = .priv ∧ n.selfReach = .priv
  · rw [if_pos hpriv, if_neg fun hd => hdirect.1 hd hpriv]
  · rw [if_neg hpriv, if_pos (hdirect.2 hpriv)]

/-- The next hop is a machine exactly when its key is recorded. -/
theorem relayKey_eq_some (h : DistinctIds publicKeyOf n.machines) {order : List NodeId} {dest : NodeId}
    {r : Machine} (hr : r ∈ n.machines) :
    n.relayKey publicKeyOf order dest = some (wireguardKeyOf publicKeyOf r.metadata.name) ↔
      (n.routeGraph publicKeyOf).floatNextRelay order (n.me publicKeyOf) dest =
        some (nodeIdOf publicKeyOf r.metadata.name) := by
  rw [relayKey]
  constructor
  · intro hkey
    obtain ⟨relay, hrelay, hmap⟩ := Option.bind_eq_some_iff.1 hkey
    obtain ⟨rm, hrm, hrmkey⟩ := Option.map_eq_some_iff.1 hmap
    have hid : nodeIdOf publicKeyOf rm.metadata.name = relay := by simpa using List.find?_some hrm
    rw [hrelay, ← hid, nodeIdOf_eq_of_key hrmkey]
  · intro hnext
    have hfind := find?_eq_some_of_nodup h hr
    rw [hnext, Option.bind_some, hfind]
    rfl

end WgNode

/-- A next hop other than the target is where the path starts. -/
theorem floatNextRelay_eq_some_iff_head {g : RouteGraph} {order hops : List NodeId}
    {src dst hop : NodeId} (horder : order.Perm g.reach.keys)
    (hp : g.floatPath order src dst = some hops) (hne : hop ≠ dst) :
    g.floatNextRelay order src dst = some hop ↔ hops.head? = some hop := by
  obtain ⟨c, hw, -⟩ := floatWalk_of_floatPath horder hp
  rw [floatNextRelay_eq_some, hp]
  constructor
  · rintro ⟨x, rest, heq⟩
    rw [Option.some.inj heq]
    rfl
  · intro hhead
    obtain _ | ⟨y, _ | ⟨x, rest⟩⟩ := hops
    · simp at hhead
    · obtain rfl := Option.some.inj hhead
      exact absurd (LabelSearch.Walk.walkEnd_eq hw) hne
    · obtain rfl := Option.some.inj hhead
      exact ⟨x, rest, rfl⟩

/-! ## A fleet -/

/-- A fleet: its machines and what the node of each name knows. Every node lists the same machines, in
its own order, and no round-trip time is negative. -/
structure MeshFleet (publicKeyOf : String → Bytes) where
  machines : List Machine
  distinct : DistinctIds publicKeyOf machines
  node : String → WgNode
  nodeId : ∀ name, (node name).nodeId = name
  lists : ∀ name, (node name).machines.Perm machines
  measured : ∀ name, ∀ m ∈ (node name).membership.listMembers, ∀ rtt, m.rttMs = some rtt → 0 ≤ rtt
  shared : ∀ name, ∀ e ∈ HashMap.pairs (node name).peerLatency, ∀ o ∈ e.2.toList, 0 ≤ o.2

namespace MeshFleet

variable {publicKeyOf : String → Bytes} (f : MeshFleet publicKeyOf)

/-- The route graph of a node. -/
def graph (name : String) : RouteGraph := (f.node name).routeGraph publicKeyOf

/-- An order in which the map of each node's graph may list its keys. -/
def ListsGraphs (orders : String → List NodeId) : Prop :=
  ∀ name, (orders name).Perm (f.graph name).reach.keys

/-- The node `x` sends a packet from `a` to `b` to `y`, and `y` accepts it. -/
def Hop (orders : String → List NodeId) (plane : WgPlane) (a b x y : String) : Prop :=
  cryptokey ((f.node x).peersOn publicKeyOf (orders x) plane) ((f.node b).ownIp plane) =
      some (wireguardKeyOf publicKeyOf y) ∧
    cryptokey ((f.node y).peersOn publicKeyOf (orders y) plane) ((f.node a).ownIp plane) =
      some (wireguardKeyOf publicKeyOf x)

/-- **Relayed delivery.** A packet from `a` to `b` is forwarded by the machine that `a` sends it to,
and `b` accepts it. -/
def Delivered (orders : String → List NodeId) (plane : WgPlane) (a b : String) : Prop :=
  ∃ r ∈ f.machines, (f.node r.metadata.name).forwards ∧
    f.Hop orders plane a b a r.metadata.name ∧ f.Hop orders plane a b r.metadata.name b

/-- The next hop that `a` chooses towards `b`. -/
def nextHop (orders : String → List NodeId) (a b : Machine) : Option NodeId :=
  (f.graph a.metadata.name).floatNextRelay (orders a.metadata.name)
    (nodeIdOf publicKeyOf a.metadata.name) (nodeIdOf publicKeyOf b.metadata.name)

/-- The hops are a preferred route from `a` to `b` in the graph of `a`. -/
def Routes (a b : Machine) (hops : List NodeId) : Prop :=
  (f.graph a.metadata.name).PreferredRoute (nodeIdOf publicKeyOf a.metadata.name)
    (nodeIdOf publicKeyOf b.metadata.name) hops

/-- In the graph of `a` there is a preferred route to `b`, and every one starts at the machine. -/
def RoutesStartAt (a b r : Machine) : Prop :=
  (∃ hops, f.Routes a b hops) ∧
    ∀ hops, f.Routes a b hops → hops.head? = some (nodeIdOf publicKeyOf r.metadata.name)

variable {f} {a b r x y : Machine} {orders : String → List NodeId} {plane : WgPlane}

theorem rtt_nonneg (f : MeshFleet publicKeyOf) (name : String) :
    ∀ e ms, (f.graph name).rtt.lookup e = some ms → 0 ≤ ms := by
  have hobserve : ∀ (g : RouteGraph) (a b : NodeId) (rtt : ℚ), 0 ≤ rtt →
      (∀ e ms, g.rtt.lookup e = some ms → 0 ≤ ms) →
      ∀ e ms, (g.observeRtt a b rtt).rtt.lookup e = some ms → 0 ≤ ms := by
    intro g a b rtt hrtt hg e ms h
    obtain ⟨-, rfl⟩ | ⟨-, h⟩ := HashMap.lookup_insert_eq_some.1 h
    · exact hrtt
    · exact hg e ms h
  have hnodes : ∀ e ms, ((f.node name).machineNodes publicKeyOf).rtt.lookup e = some ms → 0 ≤ ms := by
    have hrtt : ((f.node name).machineNodes publicKeyOf).rtt = ∅ :=
      List.foldlRecOn (motive := fun g : RouteGraph => g.rtt = ∅) _ _ rfl fun _ hg _ _ => hg
    intro e ms h
    rw [hrtt, AList.lookup_empty] at h
    contradiction
  refine List.foldlRecOn (motive := fun g : RouteGraph => ∀ e ms, g.rtt.lookup e = some ms → 0 ≤ ms)
    _ _ ?_ fun g hg e he => ?_
  · refine List.foldlRecOn
      (motive := fun g : RouteGraph => ∀ e ms, g.rtt.lookup e = some ms → 0 ≤ ms) _ _ hnodes
      fun g hg m hm => ?_
    cases hrtt : m.rttMs with
    | none => exact hg
    | some rtt => exact hobserve g _ _ rtt (f.measured name m hm rtt hrtt) hg
  · exact List.foldlRecOn
      (motive := fun g : RouteGraph => ∀ e ms, g.rtt.lookup e = some ms → 0 ≤ ms) _ _ hg
      fun g hg o ho => hobserve g _ _ _ (f.shared name e he o ho) hg

theorem distinct_node (f : MeshFleet publicKeyOf) (name : String) :
    DistinctIds publicKeyOf (f.node name).machines :=
  f.distinct.perm (f.lists name)

theorem mem_node (hx : x ∈ f.machines) (name : String) : x ∈ (f.node name).machines :=
  (f.lists name).mem_iff.2 hx

theorem selfReach_node (hx : x ∈ f.machines) :
    (f.node x.metadata.name).selfReach = reachabilityFromMachine x := by
  rw [selfReach, f.nodeId]
  exact reachOf_eq (f.distinct_node _) (mem_node hx _)

theorem name_ne (hx : x ∈ f.machines) (hy : y ∈ f.machines) (hne : x ≠ y) :
    x.metadata.name ≠ y.metadata.name := fun h =>
  hne (List.inj_on_of_nodup_map f.distinct.names hx hy h)

/-- **Where a machine of the fleet sends a packet for another one**, and from which peer it accepts
packets of the other one. -/
theorem cryptokey_node (orders : String → List NodeId)
    (hplane : plane ∈ [wgMgmt, wgData, wgLb]) (hx : x ∈ f.machines) (hy : y ∈ f.machines)
    (hne : x ≠ y) :
    cryptokey ((f.node x.metadata.name).peersOn publicKeyOf (orders x.metadata.name) plane)
        ((f.node y.metadata.name).ownIp plane) =
      if reachabilityFromMachine y = .priv ∧ reachabilityFromMachine x = .priv then
        (f.node x.metadata.name).relayKey publicKeyOf (orders x.metadata.name)
          (nodeIdOf publicKeyOf y.metadata.name)
      else some (wireguardKeyOf publicKeyOf y.metadata.name) := by
  have hplan : (f.node y.metadata.name).machinePlan = (f.node x.metadata.name).machinePlan :=
    machinePlan_eq_of_perm (f.distinct_node _) ((f.lists _).trans (f.lists _).symm)
  obtain ⟨e, he, hname⟩ := exists_plan_of_mem (mem_node hy x.metadata.name)
  have hip : (f.node y.metadata.name).ownIp plane = plane.ip e.2.2.1 := by
    have hfind := find?_eq_some_of_nodup (nodup_plan_names (f.distinct_node x.metadata.name)) he
    rw [hname] at hfind
    rw [ownIp, selfIndex, hplan, f.nodeId, hfind]
    rfl
  rw [hip, cryptokey_peersOn (f.distinct_node _) hplane he (mem_node hy _) hname
    (by rw [f.nodeId]; exact name_ne hy hx hne.symm), selfReach_node hx]

/-- **When a packet is delivered**: a relay is the next hop that each of the two private nodes has
chosen for the other. -/
theorem delivered_iff (hplane : plane ∈ [wgMgmt, wgData, wgLb]) (ha : a ∈ f.machines)
    (hb : b ∈ f.machines) (hab : a ≠ b) (hpa : reachabilityFromMachine a = .priv)
    (hpb : reachabilityFromMachine b = .priv) :
    f.Delivered orders plane a.metadata.name b.metadata.name ↔
      ∃ r ∈ f.machines, reachabilityFromMachine r = .relay ∧
        f.nextHop orders a b = some (nodeIdOf publicKeyOf r.metadata.name) ∧
        f.nextHop orders b a = some (nodeIdOf publicKeyOf r.metadata.name) := by
  have hnext : ∀ {x y r : Machine}, r ∈ f.machines →
      ((f.node x.metadata.name).relayKey publicKeyOf (orders x.metadata.name)
        (nodeIdOf publicKeyOf y.metadata.name) = some (wireguardKeyOf publicKeyOf r.metadata.name) ↔
      f.nextHop orders x y = some (nodeIdOf publicKeyOf r.metadata.name)) := fun hr => by
    rw [relayKey_eq_some (f.distinct_node _) (mem_node hr _), me, f.nodeId]
    rfl
  have hforwards : ∀ {r : Machine}, r ∈ f.machines →
      ((f.node r.metadata.name).forwards = true ↔ reachabilityFromMachine r = .relay) := fun hr => by
    rw [forwards, selfReach_node hr, decide_eq_true_eq]
  unfold Delivered Hop
  refine exists_congr fun r => and_congr_right fun hr => ?_
  rw [hforwards hr]
  refine and_congr_right fun hrelay => ?_
  have har : a ≠ r := by
    rintro rfl
    rw [hpa] at hrelay
    contradiction
  have hbr : b ≠ r := by
    rintro rfl
    rw [hpb] at hrelay
    contradiction
  -- the relay sends and accepts directly, the private nodes through their next hops
  have hra := cryptokey_node orders hplane hr ha har.symm
  have hrb := cryptokey_node orders hplane hr hb hbr.symm
  have hto := cryptokey_node orders hplane ha hb hab
  have hback := cryptokey_node orders hplane hb ha hab.symm
  rw [if_neg (by simp [hrelay])] at hra hrb
  rw [if_pos ⟨hpb, hpa⟩] at hto
  rw [if_pos ⟨hpa, hpb⟩] at hback
  rw [hto, hra, hrb, hback, hnext hr, hnext hr]
  simp

/-- The nodes of the graph are the machines of the fleet. -/
theorem mem_graph (hx : x ∈ f.machines) (name : String) :
    nodeIdOf publicKeyOf x.metadata.name ∈ (f.graph name).reach :=
  ((f.node name).mem_routeGraph publicKeyOf).2 ⟨x, mem_node hx name, rfl⟩

/-- Where there is a preferred route, the next hop is where the path that is found starts, and this path
is preferred. -/
theorem exists_routes (hex : ∃ hops, f.Routes a b hops) (horders : f.ListsGraphs orders)
    (ha : a ∈ f.machines) (hb : b ∈ f.machines) :
    ∃ hops, f.Routes a b hops ∧
      ∀ r ∈ f.machines, b ≠ r → (f.nextHop orders a b = some (nodeIdOf publicKeyOf r.metadata.name) ↔
        hops.head? = some (nodeIdOf publicKeyOf r.metadata.name)) := by
  obtain ⟨route, hroute⟩ := hex
  have hgrow := floatSums_growing_of_rtt (f.rtt_nonneg a.metadata.name)
  obtain ⟨c, hw, -⟩ := hroute.exists_walk hgrow
  obtain ⟨hops, hp⟩ := Option.isSome_iff_exists.1 ((isSome_floatPath_iff
    (f.rtt_nonneg _) (horders a.metadata.name) (mem_graph ha _) (mem_graph hb _)).2 ⟨route, c, hw⟩)
  refine ⟨hops, preferredRoute_of_floatPath (f.rtt_nonneg _) (horders _) hp, fun x hx hbx => ?_⟩
  refine floatNextRelay_eq_some_iff_head (horders _) hp fun hid => ?_
  exact hbx (List.inj_on_of_nodup_map f.distinct hb hx hid.symm)

/-- If in every order a relay is the next hop of both, it is the start of every preferred route. -/
theorem routesStartAt_of_nextHop (ha : a ∈ f.machines) (hb : b ∈ f.machines) (hab : a ≠ b)
    (hpb : reachabilityFromMachine b = .priv)
    (h : ∀ orders, f.ListsGraphs orders → ∃ r ∈ f.machines, reachabilityFromMachine r = .relay ∧
      f.nextHop orders a b = some (nodeIdOf publicKeyOf r.metadata.name) ∧
      f.nextHop orders b a = some (nodeIdOf publicKeyOf r.metadata.name))
    (hback : f.nextHop (fun name => (f.graph name).reach.keys) b a =
      some (nodeIdOf publicKeyOf r.metadata.name)) : f.RoutesStartAt a b r := by
  constructor
  · obtain ⟨r', -, -, hto, -⟩ := h (fun name => (f.graph name).reach.keys) fun _ => .refl _
    obtain ⟨x, rest, hp⟩ := floatNextRelay_eq_some.1 hto
    exact ⟨_, preferredRoute_of_floatPath (f.rtt_nonneg _) (.refl _) hp⟩
  intro hops hpref
  -- the order of `a` in which this route is found; all others list their keys as they are
  obtain ⟨order, horder, hp⟩ := (preferredRoute_iff (f.rtt_nonneg a.metadata.name)
    (mem_graph ha _) (mem_graph hb _)).1 hpref
  have horders : f.ListsGraphs
      (Function.update (fun name => (f.graph name).reach.keys) a.metadata.name order) := by
    intro name
    by_cases hname : name = a.metadata.name
    · subst hname
      rwa [Function.update_self]
    · rw [Function.update_of_ne hname]
  obtain ⟨r', hr', hrel, hto, hback'⟩ := h _ horders
  have hsame : nodeIdOf publicKeyOf r'.metadata.name = nodeIdOf publicKeyOf r.metadata.name := by
    unfold nextHop at hback hback'
    rw [Function.update_of_ne (name_ne hb ha hab.symm), hback] at hback'
    exact (Option.some.inj hback').symm
  have hbr : nodeIdOf publicKeyOf r.metadata.name ≠ nodeIdOf publicKeyOf b.metadata.name := by
    intro hid
    obtain rfl := List.inj_on_of_nodup_map f.distinct hr' hb (hsame.trans hid)
    rw [hpb] at hrel
    contradiction
  unfold nextHop at hto
  rw [Function.update_self, hsame] at hto
  exact (floatNextRelay_eq_some_iff_head horder hp hbr).1 hto

end MeshFleet

open MeshFleet

/-- **Relayed delivery.** For every fleet whose nodes each have their own measurements and latency
maps, and two private nodes of it: a packet is delivered on every plane, whatever the order in which
the nodes list their hash maps, if and only if there are preferred routes from the sender to the
receiver in the sender's graph and from the receiver to the sender in the receiver's graph, and one
relay starts all of them. -/
theorem relayed_delivery_iff {publicKeyOf : String → Bytes} (f : MeshFleet publicKeyOf)
    (a b : Machine) (ha : a ∈ f.machines) (hb : b ∈ f.machines) (hab : a ≠ b)
    (hpa : reachabilityFromMachine a = .priv) (hpb : reachabilityFromMachine b = .priv) :
    (∀ orders, f.ListsGraphs orders → ∀ plane ∈ [wgMgmt, wgData, wgLb],
        f.Delivered orders plane a.metadata.name b.metadata.name) ↔
      ∃ r ∈ f.machines, reachabilityFromMachine r = .relay ∧
        f.RoutesStartAt a b r ∧ f.RoutesStartAt b a r := by
  constructor
  · intro h
    have hnext : ∀ orders, f.ListsGraphs orders → ∃ r ∈ f.machines,
        reachabilityFromMachine r = .relay ∧
        f.nextHop orders a b = some (nodeIdOf publicKeyOf r.metadata.name) ∧
        f.nextHop orders b a = some (nodeIdOf publicKeyOf r.metadata.name) := fun orders horders =>
      (delivered_iff (List.mem_cons_self ..) ha hb hab hpa hpb).1
        (h orders horders wgMgmt (List.mem_cons_self ..))
    obtain ⟨r, hr, hrel, hto, hback⟩ := hnext _ fun _ => .refl _
    refine ⟨r, hr, hrel, routesStartAt_of_nextHop ha hb hab hpb hnext hback,
      routesStartAt_of_nextHop hb ha hab.symm hpa (fun orders horders => ?_) hto⟩
    obtain ⟨r', hr', hrel', hto', hback'⟩ := hnext orders horders
    exact ⟨r', hr', hrel', hback', hto'⟩
  · rintro ⟨r, hr, hrel, hto, hback⟩ orders horders plane hplane
    have hne : ∀ x, reachabilityFromMachine x = .priv → x ≠ r := by
      rintro x hx rfl
      rw [hx] at hrel
      contradiction
    obtain ⟨hops, hpref, hhead⟩ := exists_routes hto.1 horders ha hb
    obtain ⟨hops', hpref', hhead'⟩ := exists_routes hback.1 horders hb ha
    exact (delivered_iff hplane ha hb hab hpa hpb).2 ⟨r, hr, hrel,
      (hhead r hr (hne b hpb)).2 (hto.2 hops hpref),
      (hhead' r hr (hne a hpa)).2 (hback.2 hops' hpref')⟩

/-! ## Two private nodes -/

/-- A membership table with one member, at 10 ms. -/
def nearMember (self near : String) : Membership :=
  (Membership.join (.new (nodeIdOf spelledKey self))
    (.new (nodeIdOf spelledKey near) (spelledKey near) [near]) 0).2.recordRtt
      (nodeIdOf spelledKey near) 10

theorem nonneg_rtt_nearMember (self near : String) :
    ∀ m ∈ (nearMember self near).listMembers, ∀ rtt, m.rttMs = some rtt → 0 ≤ rtt := by
  intro m hm rtt hrtt
  obtain ⟨k, hk⟩ := HashMap.mem_values.1 hm
  obtain ⟨m₀, hmembers⟩ : ∃ m₀, (nearMember self near).members =
      (AList.insert (nodeIdOf spelledKey near) m₀ ∅).insert (nodeIdOf spelledKey near)
        { m₀ with rttMs := some 10 } := by
    have hlookup : (Membership.join (.new (nodeIdOf spelledKey self))
        (.new (nodeIdOf spelledKey near) (spelledKey near) [near]) 0).2.members.lookup
          (nodeIdOf spelledKey near) = some
            ⟨.new (nodeIdOf spelledKey near) (spelledKey near) [near], .alive, 0, 0, none⟩ :=
      AList.lookup_insert _
    rw [nearMember, Membership.recordRtt, hlookup]
    exact ⟨_, rfl⟩
  rw [hmembers] at hk
  obtain ⟨-, rfl⟩ | ⟨hne, hk⟩ := HashMap.lookup_insert_eq_some.1 hk
  · rw [← Option.some.inj hrtt]
    decide +kernel
  · obtain ⟨heq, -⟩ | ⟨-, hk⟩ := HashMap.lookup_insert_eq_some.1 hk
    · exact absurd heq hne
    · simp at hk

/-- The private machines `a` and `b` and some relays. -/
def pairMachines (relays : List String) : List Machine :=
  labelledMachine "a" "private" :: labelledMachine "b" "private" ::
    relays.map fun name => labelledMachine name "relay"

/-- A fleet of these machines. Each node has measured one relay, at 10 ms. -/
def pairFleet (relays : List String) (near : String → String)
    (h : DistinctIds spelledKey (pairMachines relays)) : MeshFleet spelledKey where
  machines := pairMachines relays
  distinct := h
  node name := ⟨name, pairMachines relays, nearMember name (near name), ∅⟩
  nodeId _ := rfl
  lists _ := .refl _
  measured name := by
    dsimp only
    exact nonneg_rtt_nearMember name (near name)
  shared name e he := by simp [HashMap.pairs] at he

def oneRelay : MeshFleet spelledKey := pairFleet ["r"] (fun _ => "r") (by decide +kernel)

/-- With one relay every route starts there, so packets are delivered. -/
theorem relayed_delivery_iff_oneRelay :
    oneRelay.RoutesStartAt (labelledMachine "a" "private") (labelledMachine "b" "private")
        (labelledMachine "r" "relay") ∧
      oneRelay.RoutesStartAt (labelledMachine "b" "private") (labelledMachine "a" "private")
        (labelledMachine "r" "relay") ∧
      ∀ orders, oneRelay.ListsGraphs orders → ∀ plane ∈ [wgMgmt, wgData, wgLb],
        oneRelay.Delivered orders plane "a" "b" := by
  have hfirst : ∀ name ∈ ["a", "b"], ∀ hop ∈ (oneRelay.graph name).reach.keys,
      ((oneRelay.graph name).edgeCost (nodeIdOf spelledKey name) hop).isSome →
        hop = nodeIdOf spelledKey "r" := by decide +kernel
  have hstart : ∀ x y : Machine, x.metadata.name ∈ ["a", "b"] →
      nodeIdOf spelledKey x.metadata.name ≠ nodeIdOf spelledKey y.metadata.name →
      ∀ hops, oneRelay.Routes x y hops → hops.head? = some (nodeIdOf spelledKey "r") := by
    intro x y hx hne hops hpref
    obtain ⟨_, hwalk, -⟩ := hpref.exists_walk (floatSums_growing_of_rtt (oneRelay.rtt_nonneg _))
    obtain ⟨c, hw⟩ := FloatWalk.exists_isWalk hwalk
    cases hops with
    | nil => exact absurd (isWalk_nil.1 hw).1 hne
    | cons hop rest =>
      obtain ⟨d, _, hd, -, -⟩ := isWalk_cons.1 hw
      have hkeys := AList.mem_keys.1 (mem_reach_of_edgeCost hd).2
      exact congrArg some (hfirst _ hx hop hkeys (by simp [hd]))
  have hmem : ∀ m ∈ pairMachines ["r"], m ∈ oneRelay.machines := fun _ h => h
  have hr : labelledMachine "r" "relay" ∈ oneRelay.machines := hmem _ (by simp [pairMachines])
  have hpath : ∀ x y : Machine, ((oneRelay.graph x.metadata.name).floatPath
      (oneRelay.graph x.metadata.name).reach.keys (nodeIdOf spelledKey x.metadata.name)
      (nodeIdOf spelledKey y.metadata.name)).isSome → ∃ hops, oneRelay.Routes x y hops := by
    intro x y hsome
    obtain ⟨hops, hp⟩ := Option.isSome_iff_exists.1 hsome
    exact ⟨hops, preferredRoute_of_floatPath (oneRelay.rtt_nonneg _) (.refl _) hp⟩
  have hto : oneRelay.RoutesStartAt (labelledMachine "a" "private") (labelledMachine "b" "private")
      (labelledMachine "r" "relay") :=
    ⟨hpath _ _ (by decide +kernel), hstart _ _ (by decide) (by decide)⟩
  have hback : oneRelay.RoutesStartAt (labelledMachine "b" "private")
      (labelledMachine "a" "private") (labelledMachine "r" "relay") :=
    ⟨hpath _ _ (by decide +kernel), hstart _ _ (by decide) (by decide)⟩
  exact ⟨hto, hback, (relayed_delivery_iff oneRelay (labelledMachine "a" "private")
    (labelledMachine "b" "private") (hmem _ (by simp [pairMachines]))
    (hmem _ (by simp [pairMachines])) (by decide +kernel) (by decide +kernel)
    (by decide +kernel)).2 ⟨_, hr, by decide +kernel, hto, hback⟩⟩

def twoRelays : MeshFleet spelledKey :=
  pairFleet ["r", "s"] (fun name => if name = "a" then "r" else "s") (by decide +kernel)

/-- `a` is nearer to `r` and `b` is nearer to `s`. The packet goes to `r`, and `b` would accept it from
`s` only. -/
theorem private_nodes_disagree :
    cryptokey ((twoRelays.node "a").peersOn spelledKey (twoRelays.graph "a").reach.keys wgMgmt)
        ((twoRelays.node "b").ownIp wgMgmt) = some (wireguardKeyOf spelledKey "r") ∧
      cryptokey ((twoRelays.node "b").peersOn spelledKey (twoRelays.graph "b").reach.keys wgMgmt)
        ((twoRelays.node "a").ownIp wgMgmt) = some (wireguardKeyOf spelledKey "s") ∧
      ¬twoRelays.Delivered (fun name => (twoRelays.graph name).reach.keys) wgMgmt "a" "b" := by
  have hsend : cryptokey ((twoRelays.node "a").peersOn spelledKey (twoRelays.graph "a").reach.keys
      wgMgmt) ((twoRelays.node "b").ownIp wgMgmt) = some (wireguardKeyOf spelledKey "r") := by
    decide +kernel
  have haccept : cryptokey ((twoRelays.node "b").peersOn spelledKey (twoRelays.graph "b").reach.keys
      wgMgmt) ((twoRelays.node "a").ownIp wgMgmt) = some (wireguardKeyOf spelledKey "s") := by
    decide +kernel
  refine ⟨hsend, haccept, ?_⟩
  rintro ⟨x, -, -, ⟨hto, -⟩, -, hback⟩
  have hsame : wireguardKeyOf spelledKey "r" = wireguardKeyOf spelledKey "s" :=
    (Option.some.inj (hsend.symm.trans hto)).trans (Option.some.inj (haccept.symm.trans hback)).symm
  revert hsame
  decide

end OCF.Api
