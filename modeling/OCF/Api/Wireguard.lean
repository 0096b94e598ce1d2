import OCF.Fabric.Crypto
import OCF.Fabric.Membership
import OCF.Fabric.FloatPaths
import OCF.Foundations.BTreeMap
import OCF.Topology.Store
import Mathlib.Data.List.Sort

/-!
# Programming the WireGuard planes

A node peers with every other machine of the fleet on three isolated planes. Two private machines
cannot peer directly: the address of the other one is routed through a relay, the first hop of the
cheapest route that the route graph finds. The graph is assembled from the machines of the topology
and from measured round-trip times. The membership table contributes its measurements, but not the
liveness of its members: a machine that is held as dead or left stays in the graph.

`relay_failover` says what this means for the next hops: none is a dead machine, in whatever order the
graph lists its nodes, exactly when no preferred route to a private destination starts at one.
-/

namespace OCF.Api

open OCF.Fabric OCF.Topology

/-! ## Planes and peers -/

/-- One of the isolated WireGuard underlays. -/
structure WgPlane where
  iface : String
  addrPrefix : String
  port : UInt16
  deriving DecidableEq

/-- The plane of the control traffic. -/
def wgMgmt : WgPlane := ⟨"wg-mgmt", "10.255.0", 51820⟩

/-- The plane of the traffic between workloads. -/
def wgData : WgPlane := ⟨"wg-data", "10.254.0", 51821⟩

/-- The plane of the load balancers. -/
def wgLb : WgPlane := ⟨"wg-lb", "10.253.0", 51822⟩

/-- The overlay address of the machine at an index (the host part counts from one). -/
def WgPlane.ip (plane : WgPlane) (index : ℕ) : String :=
  plane.addrPrefix ++ "." ++ toString (index + 1)

/-- A candidate peer on a plane, before reachability shaping. -/
structure WgPeer where
  reach : Reachability
  index : ℕ
  addr : Option String
  publicKey : String
  /-- The key of the next-hop relay towards this peer, if it is reached through one. -/
  via : Option String
  deriving DecidableEq

/-- A peer entry to program. -/
structure WgPeerSpec where
  publicKey : String
  endpoint : Option String
  allowedIps : List String
  keepalive : UInt16
  deriving DecidableEq

/-- The endpoint and the keepalive of a peer that is reached directly. -/
def wgDirectEndpointKeepalive (selfReach peerReach : Reachability) (peerAddr : Option String)
    (port : UInt16) : Option String × UInt16 :=
  match peerReach with
  | .pub | .relay =>
    (peerAddr.map fun a => a ++ ":" ++ toString port.toNat, if selfReach = .priv then 25 else 0)
  | .priv => (none, 0)

/-- Change the entry of a key, adding an empty one at the end if there is none. -/
def upsert (key : String) (f : WgPeerSpec → WgPeerSpec) : List WgPeerSpec → List WgPeerSpec
  | [] => [f ⟨key, none, [], 0⟩]
  | spec :: specs => if spec.publicKey = key then f spec :: specs else spec :: upsert key f specs

/-- Route one more block to the peer. -/
def addCidr (cidr : String) (spec : WgPeerSpec) : WgPeerSpec :=
  if cidr ∈ spec.allowedIps then spec else { spec with allowedIps := spec.allowedIps ++ [cidr] }

/-- Add one peer. The address of a private peer of a private node goes to the entry of its next-hop
relay; without one the peer is left out. -/
def planWgPeer (plane : WgPlane) (selfReach : Reachability) (specs : List WgPeerSpec) (p : WgPeer) :
    List WgPeerSpec :=
  let cidr := plane.ip p.index ++ "/32"
  if ¬(p.reach = .priv ∧ selfReach = .priv) then
    let (endpoint, keepalive) := wgDirectEndpointKeepalive selfReach p.reach p.addr plane.port
    upsert p.publicKey (fun spec =>
      addCidr cidr { spec with endpoint := endpoint, keepalive := keepalive }) specs
  else match p.via with
    | some via => upsert via (addCidr cidr) specs
    | none => specs

/-- The entries of a plane. -/
def planWgPeers (plane : WgPlane) (selfReach : Reachability) (peers : List WgPeer) :
    List WgPeerSpec :=
  peers.foldl (planWgPeer plane selfReach) []

/-- The reachability in the labels of a machine, public unless they say otherwise. -/
def reachabilityFromMachine (m : Machine) : Reachability :=
  match m.metadata.labels.lookup "fabric.reachability" with
  | some "relay" => .relay
  | some "private" => .priv
  | _ => .pub

/-! ## What a node knows -/

/-- What a node programs its planes from. -/
structure WgNode where
  nodeId : String
  /-- The machines as the topology lists them. -/
  machines : List Machine
  membership : Membership
  /-- Latency maps fetched from peers. -/
  peerLatency : HashMap NodeId (BTreeMap String ℚ)

section Identity

/-! The public key that is derived from a name is a parameter. -/

variable (publicKeyOf : String → Bytes)

/-- The node id of a name: the fingerprint of its key. -/
def nodeIdOf (name : String) : NodeId := ⟨fingerprint (publicKeyOf name)⟩

/-- The WireGuard key of a name. -/
def wireguardKeyOf (name : String) : String := base64 (publicKeyOf name)

namespace WgNode

variable (n : WgNode)

/-- The machines by name, each with its index and its address. -/
def machinePlan : List (Id × String × ℕ × Option String) :=
  (n.machines.insertionSort fun a b => a.metadata.name ≤ b.metadata.name).zipIdx.map fun (m, i) =>
    (m.metadata.id, m.metadata.name, i, m.fabricAddress)

/-- The id of the node itself. -/
def me : NodeId := nodeIdOf publicKeyOf n.nodeId

/-- The machines as nodes of the graph. -/
def machineNodes : RouteGraph :=
  n.machines.foldl (fun g m => g.addNode (nodeIdOf publicKeyOf m.metadata.name)
    (reachabilityFromMachine m)) .new

/-- The route graph of the fleet: every machine, this node's own measurements and the ones that
peers have shared. -/
def routeGraph : RouteGraph :=
  let g := n.membership.listMembers.foldl (fun g member => match member.rttMs with
    | some rtt => g.observeRtt (n.me publicKeyOf) member.node.nodeId rtt
    | none => g) (n.machineNodes publicKeyOf)
  (HashMap.pairs n.peerLatency).foldl (fun g e =>
    e.2.toList.foldl (fun g o => g.observeRtt e.1 ⟨o.1⟩ o.2) g) g

/-- The reachability of the first machine with a name. -/
def reachOf (name : String) : Reachability :=
  ((n.machines.find? fun m => m.metadata.name = name).map reachabilityFromMachine).getD .pub

/-- The reachability of the node itself. -/
def selfReach : Reachability := n.reachOf n.nodeId

/-- The next hop of every destination that has one: keys to keys. -/
def viaMap (order : List NodeId) : HashMap String String :=
  (n.machines.filter fun m => m.metadata.name ≠ n.nodeId).foldl (fun via m =>
    match (n.routeGraph publicKeyOf).floatNextRelay order (n.me publicKeyOf)
        (nodeIdOf publicKeyOf m.metadata.name) with
    | none => via
    | some relay =>
      match n.machines.find? fun x => nodeIdOf publicKeyOf x.metadata.name = relay with
      | none => via
      | some rm => via.insert (wireguardKeyOf publicKeyOf m.metadata.name)
          (wireguardKeyOf publicKeyOf rm.metadata.name)) ∅

/-- The peer of a machine of the plan. -/
def wgPeer (order : List NodeId) (e : Id × String × ℕ × Option String) : WgPeer where
  reach := n.reachOf e.2.1
  index := e.2.2.1
  addr := e.2.2.2
  publicKey := wireguardKeyOf publicKeyOf e.2.1
  via := (n.viaMap publicKeyOf order).lookup (wireguardKeyOf publicKeyOf e.2.1)

/-- The peers that are set on a plane: the entries that have an address. -/
def programPlane (order : List NodeId) (plane : WgPlane) : List WgPeerSpec :=
  (planWgPeers plane n.selfReach ((n.machinePlan.filter fun e => e.2.1 ≠ n.nodeId).map
    (n.wgPeer publicKeyOf order))).filter fun spec => spec.allowedIps ≠ []

/-- Program all three planes; without any machine nothing is done. -/
def programWireguard (order : List NodeId) : List (WgPlane × List WgPeerSpec) :=
  if n.machinePlan = [] then []
  else [wgMgmt, wgData, wgLb].map fun plane => (plane, n.programPlane publicKeyOf order plane)

/-! ## The graph and the next hops -/

theorem foldl_addNode_reach (ms : List Machine) (g : RouteGraph) :
    (ms.foldl (fun g m => g.addNode (nodeIdOf publicKeyOf m.metadata.name)
      (reachabilityFromMachine m)) g).reach =
      ms.foldl (fun r m => r.insert (nodeIdOf publicKeyOf m.metadata.name)
        (reachabilityFromMachine m)) g.reach := by
  induction ms generalizing g with
  | nil => rfl
  | cons m ms ih => exact ih _

theorem routeGraph_reach : (n.routeGraph publicKeyOf).reach = (n.machineNodes publicKeyOf).reach := by
  have hpeer : ∀ (p : NodeId) (l : List (String × ℚ)) (g : RouteGraph),
      (l.foldl (fun g o => g.observeRtt p ⟨o.1⟩ o.2) g).reach = g.reach := fun p l g =>
    List.foldlRecOn (motive := fun t : RouteGraph => t.reach = g.reach) l _ rfl
      fun _ ht _ _ => ht
  refine List.foldlRecOn (motive := fun t : RouteGraph => t.reach = _) _ _ ?_
    fun t ht e _ => (hpeer ..).trans ht
  refine List.foldlRecOn (motive := fun t : RouteGraph => t.reach = _) _ _ rfl fun t ht m _ => ?_
  cases m.rttMs with
  | none => exact ht
  | some rtt => exact ht

/-- The nodes of the graph are the machines. -/
theorem mem_routeGraph {id : NodeId} : id ∈ (n.routeGraph publicKeyOf).reach ↔
    ∃ m ∈ n.machines, nodeIdOf publicKeyOf m.metadata.name = id := by
  rw [routeGraph_reach, machineNodes, foldl_addNode_reach, HashMap.mem_iff_exists_lookup]
  obtain ⟨m, hm, hid, hl⟩ | ⟨hne, hl⟩ := HashMap.lookup_foldl_insert
    (fun m : Machine => nodeIdOf publicKeyOf m.metadata.name) reachabilityFromMachine n.machines ∅ id
  · exact ⟨fun _ => ⟨m, hm, hid⟩, fun _ => ⟨_, hl⟩⟩
  · constructor
    · rintro ⟨r, hr⟩
      rw [show RouteGraph.new.reach = ∅ from rfl, hl] at hr
      simp at hr
    · rintro ⟨m, hm, hid⟩
      exact absurd hid (hne m hm)

/-- The key of the next hop towards a node, if there is one. -/
def relayKey (order : List NodeId) (dest : NodeId) : Option String :=
  ((n.routeGraph publicKeyOf).floatNextRelay order (n.me publicKeyOf) dest).bind fun relay =>
    (n.machines.find? fun x => nodeIdOf publicKeyOf x.metadata.name = relay).map fun rm =>
      wireguardKeyOf publicKeyOf rm.metadata.name

variable {publicKeyOf}

theorem nodeIdOf_eq_of_key {a b : String}
    (h : wireguardKeyOf publicKeyOf a = wireguardKeyOf publicKeyOf b) :
    nodeIdOf publicKeyOf a = nodeIdOf publicKeyOf b := by
  rw [nodeIdOf, nodeIdOf, base64_injective h]

variable {n}

/-- The next hop that is recorded for a machine is the one towards its node id. -/
theorem lookup_viaMap {order : List NodeId} {m : Machine} (hm : m ∈ n.machines)
    (hne : m.metadata.name ≠ n.nodeId) :
    (n.viaMap publicKeyOf order).lookup (wireguardKeyOf publicKeyOf m.metadata.name) =
      n.relayKey publicKeyOf order (nodeIdOf publicKeyOf m.metadata.name) := by
  have hfold : n.viaMap publicKeyOf order = ((n.machines.filter fun m => m.metadata.name ≠
      n.nodeId).filterMap fun m => (n.relayKey publicKeyOf order (nodeIdOf publicKeyOf
        m.metadata.name)).map fun k => (wireguardKeyOf publicKeyOf m.metadata.name, k)).foldl
      (fun via e => via.insert e.1 e.2) ∅ := by
    rw [List.foldl_filterMap, viaMap]
    congr 1
    funext via m
    unfold relayKey
    cases (n.routeGraph publicKeyOf).floatNextRelay order (n.me publicKeyOf)
        (nodeIdOf publicKeyOf m.metadata.name) with
    | none => rfl
    | some relay =>
      dsimp only [Option.bind_some]
      cases n.machines.find? fun x => nodeIdOf publicKeyOf x.metadata.name = relay <;> rfl
  have hmem : m ∈ n.machines.filter fun m => m.metadata.name ≠ n.nodeId :=
    List.mem_filter.2 ⟨hm, by simpa using hne⟩
  rw [hfold]
  obtain ⟨⟨k, v⟩, he, hk, hl⟩ | ⟨hnone, hl⟩ := HashMap.lookup_foldl_insert
    (Prod.fst : String × String → String) Prod.snd _ ∅
    (wireguardKeyOf publicKeyOf m.metadata.name)
  · -- whatever machine wrote the entry has the same node id
    rw [hl]
    obtain ⟨m', -, hm'⟩ := List.mem_filterMap.1 he
    obtain ⟨v', hv', hkv⟩ := Option.map_eq_some_iff.1 hm'
    obtain ⟨rfl, rfl⟩ := Prod.mk.inj hkv
    rw [← nodeIdOf_eq_of_key hk, hv']
  · rw [hl, AList.lookup_empty]
    refine (Option.eq_none_iff_forall_ne_some.2 fun v hv => ?_).symm
    exact hnone _ (List.mem_filterMap.2 ⟨m, hmem, Option.map_eq_some_iff.2 ⟨v, hv, rfl⟩⟩) rfl

theorem exists_machine_of_mem_plan {e : Id × String × ℕ × Option String} (he : e ∈ n.machinePlan) :
    ∃ m ∈ n.machines, m.metadata.name = e.2.1 := by
  obtain ⟨⟨m, i⟩, hmi, rfl⟩ := List.mem_map.1 he
  have hm : m ∈ n.machines.insertionSort fun a b => a.metadata.name ≤ b.metadata.name :=
    List.fst_mem_of_mem_zipIdx hmi
  exact ⟨m, (List.mem_insertionSort _).1 hm, rfl⟩

/-! ## What is programmed -/

/-- The address is routed to the peer with the key. -/
def RoutedTo (specs : List WgPeerSpec) (key cidr : String) : Prop :=
  ∃ spec ∈ specs, spec.publicKey = key ∧ cidr ∈ spec.allowedIps

/-! ## Next hops -/

variable (publicKeyOf n)

/-- The table holds the node as dead or left. -/
def Gone (t : Membership) (id : NodeId) : Prop :=
  t.liveness id = some .dead ∨ t.liveness id = some .left

/-- The machine is a private destination of the node. -/
def PrivateDest (e : Id × String × ℕ × Option String) : Prop :=
  e ∈ n.machinePlan ∧ e.2.1 ≠ n.nodeId ∧ n.reachOf e.2.1 = .priv

/-- A path to the node leads through alive machines only. -/
def AlivePath (dest : NodeId) : Prop :=
  ∃ hops c, IsWalk (n.routeGraph publicKeyOf).edgeCost (n.me publicKeyOf) dest hops c ∧
    ∀ x ∈ hops, n.membership.liveness x = some .alive

/-- The route starts at a relay that is dead or has left. -/
def StartsGone : List NodeId → Prop
  | hop :: _ :: _ => Gone n.membership hop
  | _ => False

/-- No private destination that can be reached over alive machines has a next hop whose key belongs
to a machine that is dead or has left. -/
def NextHopsLive (order : List NodeId) : Prop :=
  ∀ e, n.PrivateDest e → ∀ key, (n.wgPeer publicKeyOf order e).via = some key →
    n.AlivePath publicKeyOf (nodeIdOf publicKeyOf e.2.1) →
    ∀ x ∈ n.machines, wireguardKeyOf publicKeyOf x.metadata.name = key →
      ¬Gone n.membership (nodeIdOf publicKeyOf x.metadata.name)

variable {publicKeyOf n}

/-- The next hop of a destination is the first hop of the route that is found. -/
theorem via_eq_some {order : List NodeId} {e : Id × String × ℕ × Option String}
    (he : n.PrivateDest e) {key : String} : (n.wgPeer publicKeyOf order e).via = some key ↔
      ∃ relay rm, (n.routeGraph publicKeyOf).floatNextRelay order (n.me publicKeyOf)
          (nodeIdOf publicKeyOf e.2.1) = some relay ∧
        (n.machines.find? fun x => nodeIdOf publicKeyOf x.metadata.name = relay) = some rm ∧
        wireguardKeyOf publicKeyOf rm.metadata.name = key := by
  obtain ⟨m, hm, hname⟩ := exists_machine_of_mem_plan he.1
  rw [wgPeer, ← hname, lookup_viaMap hm (hname ▸ he.2.1), relayKey]
  simp only [Option.bind_eq_some_iff, Option.map_eq_some_iff]
  exact ⟨fun ⟨r, hr, rm, hrm, hk⟩ => ⟨r, rm, hr, hrm, hk⟩,
    fun ⟨r, rm, hr, hrm, hk⟩ => ⟨r, hr, rm, hrm, hk⟩⟩

section Order

variable {order : List NodeId} (horder : order.Perm (n.routeGraph publicKeyOf).reach.keys)

include horder

/-- **The next hops are live exactly when no route that is found starts at a dead machine.** -/
theorem nextHopsLive_iff : n.NextHopsLive publicKeyOf order ↔
    ∀ e, n.PrivateDest e → n.AlivePath publicKeyOf (nodeIdOf publicKeyOf e.2.1) →
      ∀ hops, (n.routeGraph publicKeyOf).floatPath order (n.me publicKeyOf)
        (nodeIdOf publicKeyOf e.2.1) = some hops → ¬n.StartsGone hops := by
  constructor
  · intro h e he halive hops hp hgone
    obtain _ | ⟨hop, _ | ⟨x, rest⟩⟩ := hops
    · exact hgone
    · exact hgone
    -- the first hop is a machine, and its key is recorded
    obtain ⟨c, hw, -⟩ := floatWalk_of_floatPath horder hp
    obtain ⟨u, d, hd⟩ := LabelSearch.Walk.exists_edge_of_mem hw (List.mem_cons_self ..)
    obtain ⟨m, hm, hid⟩ := (n.mem_routeGraph publicKeyOf).1 (mem_reach_of_edgeCost hd).2
    obtain ⟨rm, hrm⟩ : ∃ rm, (n.machines.find? fun y =>
        nodeIdOf publicKeyOf y.metadata.name = hop) = some rm :=
      Option.isSome_iff_exists.1 (List.find?_isSome.2 ⟨m, hm, by simpa using hid⟩)
    have hrelay : nodeIdOf publicKeyOf rm.metadata.name = hop := by
      simpa using List.find?_some hrm
    have hvia := (via_eq_some he).2 ⟨hop, rm, floatNextRelay_eq_some.2 ⟨x, rest, hp⟩, hrm, rfl⟩
    exact h e he _ hvia halive rm (List.mem_of_find?_eq_some hrm) rfl (hrelay ▸ hgone)
  · intro h e he key hvia halive x hx hkey hgone
    obtain ⟨relay, rm, hnext, hrm, rfl⟩ := (via_eq_some he).1 hvia
    obtain ⟨y, rest, hp⟩ := floatNextRelay_eq_some.1 hnext
    have hrelay : nodeIdOf publicKeyOf rm.metadata.name = relay := by
      simpa using List.find?_some hrm
    have hsame := (nodeIdOf_eq_of_key hkey).trans hrelay
    exact h e he halive _ hp (show Gone n.membership relay from hsame ▸ hgone)

end Order

end WgNode

end Identity

open WgNode

/-- **Relay failover.** For every fleet and membership table, with non-negative round-trip times: the
next hops are live, in whatever order the graph lists its nodes, if and only if no preferred route to a
private destination that can be reached over alive machines starts at a machine that is dead or has
left. -/
theorem relay_failover (publicKeyOf : String → Bytes) (n : WgNode)
    (hrtt : ∀ e ms, (n.routeGraph publicKeyOf).rtt.lookup e = some ms → 0 ≤ ms) :
    (∀ order, order.Perm (n.routeGraph publicKeyOf).reach.keys → n.NextHopsLive publicKeyOf order) ↔
      ∀ e, n.PrivateDest e → n.AlivePath publicKeyOf (nodeIdOf publicKeyOf e.2.1) →
        ∀ hops, (n.routeGraph publicKeyOf).PreferredRoute (n.me publicKeyOf)
          (nodeIdOf publicKeyOf e.2.1) hops → ¬n.StartsGone hops := by
  constructor
  · intro h e he halive hops hpref hgone
    by_cases hne : n.me publicKeyOf = nodeIdOf publicKeyOf e.2.1
    · -- no hop is needed
      rw [hne] at hpref
      cases hpref with
      | nil => exact hgone
      | concat _ hv _ _ => exact absurd (List.mem_cons_self ..) hv
    · obtain ⟨hsrc, hdst⟩ := PreferredRoute.mem_reach hpref hne
      obtain ⟨order, horder, hp⟩ := (preferredRoute_iff hrtt hsrc hdst).1 hpref
      exact (nextHopsLive_iff horder).1 (h order horder) e he halive hops hp hgone
  · intro h order horder
    refine (nextHopsLive_iff horder).2 fun e he halive hops hp => ?_
    exact h e he halive hops (preferredRoute_of_floatPath hrtt horder hp)

/-! ## A dead relay -/

/-- A key for every name: its characters. -/
def spelledKey (name : String) : Bytes := name.toList.map fun c => UInt8.ofNat c.toNat

/-- A machine with a reachability in its labels. -/
def labelledMachine (name reach : String) : Machine :=
  ⟨⟨⟨name⟩, name, (∅ : HashMap String String).insert "fabric.reachability" reach⟩, ⟨"r"⟩, ⟨"d"⟩,
    ⟨"k"⟩, none, some (name ++ ".example"), ⟨8000, 1024, 1024⟩, .running, .healthy⟩

/-- The private node `a` with a private peer `b` and the relays `r`, at 10 ms, and `s`. -/
def relayedNode : WgNode where
  nodeId := "a"
  machines := [labelledMachine "a" "private", labelledMachine "b" "private",
    labelledMachine "r" "relay", labelledMachine "s" "relay"]
  membership := (["b", "r", "s"].foldl (fun t name => (Membership.join t
    (.new (nodeIdOf spelledKey name) (spelledKey name) [name]) 0).2)
      (Membership.new (nodeIdOf spelledKey "a"))).recordRtt (nodeIdOf spelledKey "r") 10
  peerLatency := ∅

/-- The same node after `r` was declared dead. -/
def deadRelay : WgNode :=
  { relayedNode with
    membership := (relayedNode.membership.forceDead (nodeIdOf spelledKey "r")).2 }

theorem rtt_nonneg_relayedNode :
    ∀ e ms, (relayedNode.routeGraph spelledKey).rtt.lookup e = some ms → 0 ≤ ms := by
  have hall : ∀ p ∈ HashMap.pairs (relayedNode.routeGraph spelledKey).rtt, 0 ≤ p.2 := by
    decide +kernel
  exact fun e ms h => hall (e, ms) (HashMap.mem_pairs.2 h)

/-- While all machines are alive, the next hop is. -/
theorem relay_failover_relayedNode :
    (relayedNode.wgPeer spelledKey (relayedNode.routeGraph spelledKey).reach.keys
        (⟨"b"⟩, "b", 1, some "b.example")).via = some (wireguardKeyOf spelledKey "r") ∧
      ∀ order, order.Perm (relayedNode.routeGraph spelledKey).reach.keys →
        relayedNode.NextHopsLive spelledKey order := by
  have hgone : ∀ id, ¬Gone relayedNode.membership id := by
    have hall : ∀ m ∈ HashMap.values relayedNode.membership.members, m.liveness = .alive := by
      decide +kernel
    intro id h
    unfold Gone Membership.liveness at h
    cases hm : relayedNode.membership.members.lookup id with
    | none => simp [hm] at h
    | some m => simp [hm, HashMap.forall_lookup hall hm] at h
  refine ⟨by decide +kernel, (relay_failover spelledKey relayedNode rtt_nonneg_relayedNode).2
    fun e _ _ hops _ hstart => ?_⟩
  obtain _ | ⟨hop, _ | ⟨x, rest⟩⟩ := hops
  · exact hstart
  · exact hstart
  · exact hgone hop hstart

/-- The relay `r` is held as dead and `s` leads to `b` over alive machines, but the next hop towards
`b` is still `r`. -/
theorem dead_relay_stays_next_hop :
    deadRelay.selfReach = .priv ∧ deadRelay.PrivateDest (⟨"b"⟩, "b", 1, some "b.example") ∧
      deadRelay.membership.liveness (nodeIdOf spelledKey "r") = some .dead ∧
      deadRelay.AlivePath spelledKey (nodeIdOf spelledKey "b") ∧
      (deadRelay.wgPeer spelledKey (deadRelay.routeGraph spelledKey).reach.keys
        (⟨"b"⟩, "b", 1, some "b.example")).via = some (wireguardKeyOf spelledKey "r") ∧
      ¬deadRelay.NextHopsLive spelledKey (deadRelay.routeGraph spelledKey).reach.keys := by
  have hdest : deadRelay.PrivateDest (⟨"b"⟩, "b", 1, some "b.example") :=
    ⟨by decide +kernel, by decide, by decide +kernel⟩
  have hdead : deadRelay.membership.liveness (nodeIdOf spelledKey "r") = some .dead := by
    decide +kernel
  have halive : deadRelay.AlivePath spelledKey (nodeIdOf spelledKey "b") :=
    ⟨[nodeIdOf spelledKey "s", nodeIdOf spelledKey "b"], 2000, ⟨rfl, by decide +kernel⟩,
      by decide +kernel⟩
  have hvia : (deadRelay.wgPeer spelledKey (deadRelay.routeGraph spelledKey).reach.keys
      (⟨"b"⟩, "b", 1, some "b.example")).via = some (wireguardKeyOf spelledKey "r") := by
    decide +kernel
  refine ⟨by decide +kernel, hdest, hdead, halive, hvia, fun h => ?_⟩
  have hmem : labelledMachine "r" "relay" ∈ deadRelay.machines := by
    simp [deadRelay, relayedNode]
  exact h _ hdest _ hvia halive _ hmem rfl (.inl hdead)

end OCF.Api
