import OCF.Api.RouteView

/-!
# The view of the WireGuard planes

`wireguard_status` shows, for every plane, this node and its peers with the endpoint, the keepalive
and the key they are configured with. It computes them from the reachability of the two nodes alone,
while the planes are programmed with the next hops of the route graph. Two private nodes are not
peered with each other, so what is shown for them is not there. `wireguardStatus_shown_iff` says
that everything else is.
-/

namespace OCF.Api

open OCF.Fabric OCF.Topology WgNode

/-- A peer as it is shown. -/
structure WireguardPeerView where
  name : String
  wgIp : String
  reachability : String
  endpoint : Option String
  keepalive : UInt16
  publicKey : String
  deriving DecidableEq

/-- What is shown of a plane. -/
structure WireguardPlaneView where
  iface : String
  purpose : String
  nodeIp : String
  port : UInt16
  peers : List WireguardPeerView
  deriving DecidableEq

/-- What is shown of a node. -/
structure WireguardView where
  node : String
  name : String
  reachability : String
  publicKey : String
  planes : List WireguardPlaneView
  deriving DecidableEq

namespace WgNode

variable (publicKeyOf : String → Bytes) (n : WgNode)

/-- The peer of a machine of the plan, as it is shown. -/
def wireguardPeerView (plane : WgPlane) (e : Id × String × ℕ × Option String) : WireguardPeerView :=
  let peerReach := n.reachOf e.2.1
  let (endpoint, keepalive) :=
    wgDirectEndpointKeepalive n.selfReach peerReach e.2.2.2 plane.port
  ⟨e.2.1, plane.ip e.2.2.1, reachabilityStr peerReach, endpoint, keepalive,
    wireguardKeyOf publicKeyOf e.2.1⟩

/-- What the node shows of a plane. -/
def wireguardPlaneView (plane : WgPlane) (purpose : String) : WireguardPlaneView where
  iface := plane.iface
  purpose := purpose
  nodeIp := ((n.machinePlan.find? fun e => e.2.1 = n.nodeId).map fun e => plane.ip e.2.2.1).getD
    (plane.addrPrefix ++ ".254")
  port := plane.port
  peers := (n.machinePlan.filter fun e => e.2.1 ≠ n.nodeId).map (n.wireguardPeerView publicKeyOf plane)

/-- The planes of this node, which is shown under a name of its own. -/
def wireguardStatus (nodeName : String) : WireguardView where
  node := n.nodeId
  name := nodeName
  reachability := reachabilityStr n.selfReach
  publicKey := wireguardKeyOf publicKeyOf n.nodeId
  planes := [(wgMgmt, "control"), (wgData, "workload"), (wgLb, "load-balancer")].map fun e =>
    n.wireguardPlaneView publicKeyOf e.1 e.2

end WgNode

/-- A plane has an entry with the key, the endpoint and the keepalive that are shown, and routes the
address of the peer to it. -/
def Shown (specs : List WgPeerSpec) (v : WireguardPeerView) : Prop :=
  ∃ spec ∈ specs, spec.publicKey = v.publicKey ∧ spec.endpoint = v.endpoint ∧
    spec.keepalive = v.keepalive ∧ v.wgIp ++ "/32" ∈ spec.allowedIps

section Shown

variable {publicKeyOf : String → Bytes} {n : WgNode} {order : List NodeId}
  {e : Id × String × ℕ × Option String}

theorem reachabilityStr_eq_private {r : Reachability} : reachabilityStr r = "private" ↔ r = .priv := by
  cases r <;> decide

/-- One peer on one plane. -/
theorem shown_wireguardPeerView_iff (hids : DistinctIds publicKeyOf n.machines)
    (horder : n.GraphOrder publicKeyOf order) {plane : WgPlane}
    (hplane : plane ∈ [wgMgmt, wgData, wgLb]) (he : e ∈ n.machinePlan) (hne : e.2.1 ≠ n.nodeId)
    (hme : nodeIdOf publicKeyOf e.2.1 ≠ n.me publicKeyOf) :
    Shown (n.peersOn publicKeyOf order plane) (n.wireguardPeerView publicKeyOf plane e) ↔
      ¬ n.BothPrivate e := by
  have hrouted : RoutedTo (n.peersOn publicKeyOf order plane) (wireguardKeyOf publicKeyOf e.2.1)
      (plane.ip e.2.2.1 ++ "/32") ↔
        n.carrierOf publicKeyOf order e = some (wireguardKeyOf publicKeyOf e.2.1) :=
    routedTo_peersOn hplane he hne
  constructor
  · rintro ⟨spec, hspec, hkey, -, -, hip⟩ hpriv
    -- its address would be routed to itself
    have hcarrier := hrouted.1 ⟨spec, hspec, hkey, hip⟩
    rw [carrierOf, if_pos hpriv] at hcarrier
    exact relayKey_ne_own horder hme hcarrier
  · intro hpriv
    have hcarrier : n.carrierOf publicKeyOf order e = some (wireguardKeyOf publicKeyOf e.2.1) :=
      if_neg hpriv
    obtain ⟨spec, hspec, hkey, hip⟩ := hrouted.2 hcarrier
    have hkeys : (((n.machinePlan.filter fun e => e.2.1 ≠ n.nodeId).map
        (n.wgPeer publicKeyOf order)).map WgPeer.publicKey).Nodup := by
      rw [List.map_map]
      exact ((nodup_plan_keys hids).sublist (List.filter_sublist.map _))
    rw [peersOn_eq hplane he] at hspec
    have hdirect := (planned_planWgPeers hkeys).direct (n.wgPeer publicKeyOf order e)
      (List.mem_map_of_mem (List.mem_filter.2 ⟨he, by simpa using hne⟩)) hpriv spec hspec hkey
    obtain ⟨hendpoint, hkeepalive⟩ := Prod.mk.inj hdirect
    rw [← peersOn_eq hplane he] at hspec
    exact ⟨spec, hspec, hkey, hendpoint, hkeepalive, hip⟩

/-- **What is shown is what is programmed, except between private nodes.** On every plane, and
whatever paths the route graph prefers, the entry of a peer is there as it is shown if and only if
the peer or this node is shown as reachable. -/
theorem wireguardStatus_shown_iff (publicKeyOf : String → Bytes) (n : WgNode) (nodeName : String)
    (order : List NodeId) (hids : DistinctIds publicKeyOf n.machines)
    (hself : ∀ m ∈ n.machines, m.metadata.name ≠ n.nodeId →
      nodeIdOf publicKeyOf m.metadata.name ≠ n.me publicKeyOf)
    (horder : n.GraphOrder publicKeyOf order) :
    ∀ view ∈ (n.wireguardStatus publicKeyOf nodeName).planes,
      ∃ plane ∈ [wgMgmt, wgData, wgLb], view.iface = plane.iface ∧ view.port = plane.port ∧
        ∀ v ∈ view.peers, Shown (n.peersOn publicKeyOf order plane) v ↔
          ¬ (v.reachability = "private" ∧
            (n.wireguardStatus publicKeyOf nodeName).reachability = "private") := by
  intro view hview
  obtain ⟨⟨plane, purpose⟩, hplane, rfl⟩ := List.mem_map.1 hview
  have hmem : plane ∈ [wgMgmt, wgData, wgLb] := List.mem_map_of_mem (f := Prod.fst) hplane
  refine ⟨plane, hmem, rfl, rfl, fun v hv => ?_⟩
  obtain ⟨e, he, rfl⟩ := List.mem_map.1 hv
  obtain ⟨he, hne⟩ := List.mem_filter.1 he
  rw [decide_eq_true_eq] at hne
  obtain ⟨m, hm, hname⟩ := exists_machine_of_mem_plan he
  have hme : nodeIdOf publicKeyOf e.2.1 ≠ n.me publicKeyOf := hname ▸ hself m hm (hname ▸ hne)
  rw [shown_wireguardPeerView_iff hids horder hmem he hne hme]
  refine not_congr (and_congr reachabilityStr_eq_private.symm reachabilityStr_eq_private.symm)

/-- The private node `a` shows the private peer `b`, which it has no such entry for. -/
theorem wireguardStatus_shown_iff_relayedNode :
    ∃ view ∈ (relayedNode.wireguardStatus spelledKey "host-a").planes, ∃ v ∈ view.peers,
      v.name = "b" ∧ ∃ plane ∈ [wgMgmt, wgData, wgLb], view.iface = plane.iface ∧
        ¬ Shown (relayedNode.peersOn spelledKey
          (relayedNode.routeGraph spelledKey).reach.keys plane) v := by
  let view := relayedNode.wireguardPlaneView spelledKey wgMgmt "control"
  let v := relayedNode.wireguardPeerView spelledKey wgMgmt (⟨"b"⟩, "b", 1, some "b.example")
  have hview : view ∈ (relayedNode.wireguardStatus spelledKey "host-a").planes :=
    List.mem_cons_self ..
  have hv : v ∈ view.peers := by decide +kernel
  obtain ⟨plane, hplane, hiface, -, hshown⟩ := wireguardStatus_shown_iff spelledKey relayedNode
    "host-a" _ (by decide +kernel) (by decide +kernel) (.refl _) view hview
  refine ⟨view, hview, v, hv, rfl, plane, hplane, hiface, fun h => (hshown v hv).1 h ?_⟩
  decide +kernel

end Shown

end OCF.Api
