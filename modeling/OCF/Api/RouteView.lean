import OCF.Api.RelayDelivery
import Mathlib.Data.List.Permutation

/-!
# The route view and the data path

A node reports how it reaches every other member: directly, through a relay, or not at all. The view
reads this off the path that the route graph finds. The planes are programmed from the same graph, but
the plan asks it only about two private nodes: any other pair is peered directly, whatever it costs.
Each of the two assembles a graph of its own, and the maps of two graphs list their nodes in different
orders, so between equally cheap paths the view and the plan may decide differently.

`viewMatches_iff` says when the view matches what is programmed in every order: if and only if, for
every member that is peered directly, the direct hop is found, and for every other one the next hop
does not depend on the order. Where no round-trip time is negative these are facts about the weights:
no walk has a smaller rounded sum than the direct edge, and all preferred routes start at one machine.
-/

namespace OCF.Api

open OCF.Fabric OCF.Topology WgNode

/-! ## The view -/

/-- How a member is reached. -/
inductive RouteKind
  | direct
  | relayed
  | unreachable
  deriving DecidableEq

def reachabilityStr : Reachability → String
  | .pub => "public"
  | .priv => "private"
  | .relay => "relay"

/-- The planned route from this node to one peer. -/
structure RouteView where
  target : String
  machineId : Option String
  reachability : String
  route : RouteKind
  /-- The name of the next-hop relay. -/
  via : Option String
  /-- The names of the machines on the path. -/
  hops : List String
  deriving DecidableEq

namespace WgNode

variable (publicKeyOf : String → Bytes) (n : WgNode)

/-- The name of the first machine with the node id. -/
def nameOf (id : NodeId) : Option String :=
  (n.machines.find? fun m => nodeIdOf publicKeyOf m.metadata.name = id).map fun m => m.metadata.name

/-- The entry of a member. -/
def routeView (order : List NodeId) (m : MemberState) : RouteView :=
  let (route, via, hops) : RouteKind × Option String × List String :=
    match (n.routeGraph publicKeyOf).floatPath order (n.me publicKeyOf) m.node.nodeId with
    | none => (.unreachable, none, [])
    | some [] => (.direct, none, [])
    | some [_] => (.direct, none, [])
    | some (hop :: x :: rest) => (.relayed, n.nameOf publicKeyOf hop,
        (hop :: x :: rest).filterMap (n.nameOf publicKeyOf))
  ⟨m.node.nodeId.name, m.node.machineId.map Id.name, reachabilityStr m.node.reachability, route, via,
    hops⟩

/-- The planned route from this node to every other member. `order` is the order in which the graph
lists its nodes. -/
def routesView (order : List NodeId) : List RouteView :=
  (n.membership.listMembers.filter fun m => m.node.nodeId ≠ n.me publicKeyOf).map
    (n.routeView publicKeyOf order)

/-! ## Agreement with what is programmed -/

/-- The entry says where the address of its machine is routed: to the key `own` of the machine itself,
to the key of a relay, or nowhere. -/
structure Agrees (specs : List WgPeerSpec) (own cidr : String) (v : RouteView) : Prop where
  direct : v.route = .direct ↔ RoutedTo specs own cidr
  relayed : ∀ key ≠ own, v.route = .relayed ∧ v.via.map (wireguardKeyOf publicKeyOf) = some key ↔
    RoutedTo specs key cidr
  unreachable : v.route = .unreachable ↔ ∀ key, ¬RoutedTo specs key cidr

/-- A possible order of the nodes of the graph. -/
def GraphOrder (order : List NodeId) : Prop := order.Perm (n.routeGraph publicKeyOf).reach.keys

/-- **The view matches the data path**, whatever the orders of the two graphs: a member without a
machine, which has no address, is unreachable, and the entry of any other member agrees with every
plane. -/
def ViewMatches : Prop :=
  ∀ order order', n.GraphOrder publicKeyOf order → n.GraphOrder publicKeyOf order' →
    ∀ v ∈ n.routesView publicKeyOf order,
      ((∀ e ∈ n.machinePlan, (nodeIdOf publicKeyOf e.2.1).name ≠ v.target) → v.route = .unreachable) ∧
      ∀ e ∈ n.machinePlan, (nodeIdOf publicKeyOf e.2.1).name = v.target →
        ∀ plane ∈ [wgMgmt, wgData, wgLb], Agrees publicKeyOf (n.peersOn publicKeyOf order' plane)
          (wireguardKeyOf publicKeyOf e.2.1) (plane.ip e.2.2.1 ++ "/32") v

/-- The machine of the plan is one of a member that the view shows. -/
def Viewed (e : Id × String × ℕ × Option String) : Prop :=
  e ∈ n.machinePlan ∧ nodeIdOf publicKeyOf e.2.1 ≠ n.me publicKeyOf ∧
    ∃ m ∈ n.membership.listMembers, m.node.nodeId = nodeIdOf publicKeyOf e.2.1

/-- Neither this node nor the machine can be dialed. -/
def BothPrivate (e : Id × String × ℕ × Option String) : Prop :=
  n.reachOf e.2.1 = .priv ∧ n.selfReach = .priv

instance (e : Id × String × ℕ × Option String) : Decidable (n.BothPrivate e) :=
  inferInstanceAs (Decidable (_ ∧ _))

/-- There is a direct edge to the node, and its rounded cost is finite and least among the rounded sums
of all walks to it. -/
def DirectBest (dest : NodeId) : Prop :=
  ∃ w, (n.routeGraph publicKeyOf).edgeCost (n.me publicKeyOf) dest = some w ∧
    (n.routeGraph publicKeyOf).FloatWalk (n.me publicKeyOf) dest [dest] (.round w) ∧
    ∀ hops c, (n.routeGraph publicKeyOf).FloatWalk (n.me publicKeyOf) dest hops c → .round w ≤ c

/-- All preferred routes to the node start alike. -/
def OneStart (dest : NodeId) : Prop :=
  ∀ hops hops', (n.routeGraph publicKeyOf).PreferredRoute (n.me publicKeyOf) dest hops →
    (n.routeGraph publicKeyOf).PreferredRoute (n.me publicKeyOf) dest hops' →
      hops.head? = hops'.head?

end WgNode

/-! ## What is programmed for a machine -/

section Carrier

variable {publicKeyOf : String → Bytes} {n : WgNode} {order order' : List NodeId}
  {e : Id × String × ℕ × Option String}

/-- The key that a machine's address is routed to. -/
def WgNode.carrierOf (publicKeyOf : String → Bytes) (n : WgNode) (order : List NodeId)
    (e : Id × String × ℕ × Option String) : Option String :=
  if n.BothPrivate e then n.relayKey publicKeyOf order (nodeIdOf publicKeyOf e.2.1)
  else some (wireguardKeyOf publicKeyOf e.2.1)

theorem carrier_wgPeer (he : e ∈ n.machinePlan) (hne : e.2.1 ≠ n.nodeId) :
    (n.wgPeer publicKeyOf order e).carrier n.selfReach = n.carrierOf publicKeyOf order e := by
  obtain ⟨m, hm, hname⟩ := exists_machine_of_mem_plan he
  have hvia : (n.wgPeer publicKeyOf order e).via =
      n.relayKey publicKeyOf order (nodeIdOf publicKeyOf e.2.1) := by
    rw [wgPeer, ← hname]
    exact lookup_viaMap hm (hname ▸ hne)
  unfold WgPeer.carrier carrierOf
  by_cases hpriv : n.BothPrivate e
  · rw [if_pos hpriv, if_neg (fun hd => hd hpriv), hvia]
  · rw [if_neg hpriv, if_pos (show (n.wgPeer publicKeyOf order e).Direct n.selfReach from hpriv)]
    rfl

/-- **Where an address is routed**, on every plane and also when machines share a name. -/
theorem routedTo_peersOn {plane : WgPlane} (hplane : plane ∈ [wgMgmt, wgData, wgLb])
    (he : e ∈ n.machinePlan) (hne : e.2.1 ≠ n.nodeId) {key : String} :
    RoutedTo (n.peersOn publicKeyOf order plane) key (plane.ip e.2.2.1 ++ "/32") ↔
      n.carrierOf publicKeyOf order e = some key := by
  rw [peersOn_eq hplane he, (entered_planWgPeers _).routed, ← carrier_wgPeer he hne]
  constructor
  · rintro ⟨p, hp, hc, hcidr⟩
    obtain ⟨e', he', rfl⟩ := List.mem_map.1 hp
    have hidx : e.2.2.1 = e'.2.2.1 := by
      have hsame : (n.wgPeer publicKeyOf order e).cidr plane =
          (n.wgPeer publicKeyOf order e').cidr plane := hcidr
      exact cidr_inj.1 hsame
    obtain rfl := List.inj_on_of_nodup_map n.nodup_plan_indexes he (List.mem_filter.1 he').1 hidx
    exact hc
  · intro hc
    refine ⟨_, List.mem_map_of_mem (List.mem_filter.2 ⟨he, ?_⟩), hc, rfl⟩
    simpa using hne

/-- A node of the graph has a name. -/
theorem exists_nameOf {id : NodeId} (h : id ∈ (n.routeGraph publicKeyOf).reach) :
    ∃ name, n.nameOf publicKeyOf id = some name ∧ nodeIdOf publicKeyOf name = id := by
  obtain ⟨m, hm, hid⟩ := (n.mem_routeGraph publicKeyOf).1 h
  obtain ⟨rm, hrm⟩ : ∃ rm, (n.machines.find? fun y =>
      nodeIdOf publicKeyOf y.metadata.name = id) = some rm :=
    Option.isSome_iff_exists.1 (List.find?_isSome.2 ⟨m, hm, by simpa using hid⟩)
  refine ⟨rm.metadata.name, ?_, by simpa using List.find?_some hrm⟩
  rw [nameOf, hrm]
  rfl

theorem relayKey_eq_nameOf (dest : NodeId) :
    n.relayKey publicKeyOf order dest =
      (((n.routeGraph publicKeyOf).floatNextRelay order (n.me publicKeyOf) dest).bind
        (n.nameOf publicKeyOf)).map (wireguardKeyOf publicKeyOf) := by
  rw [relayKey]
  cases (n.routeGraph publicKeyOf).floatNextRelay order (n.me publicKeyOf) dest with
  | none => rfl
  | some relay =>
    simp only [Option.bind_some, nameOf, Option.map_map]
    rfl

end Carrier

/-! ## What the view says about a machine -/

section View

variable {publicKeyOf : String → Bytes} {n : WgNode} {order order' : List NodeId} {m : MemberState}
  {e : Id × String × ℕ × Option String} {v : RouteView} {own : String}

/-- The key that the entry of the machine with the key `own` names. -/
def RouteView.carrier (publicKeyOf : String → Bytes) (own : String) (v : RouteView) : Option String :=
  match v.route with
  | .direct => some own
  | .relayed => v.via.map (wireguardKeyOf publicKeyOf)
  | .unreachable => none

/-- An entry that relays through another machine agrees with the peers exactly when it names the key
that the address is routed to. -/
theorem agrees_iff {specs : List WgPeerSpec} {cidr : String} {c : Option String}
    (hc : ∀ key, RoutedTo specs key cidr ↔ c = some key)
    (hv : v.route = .relayed → ∃ key ≠ own, v.via.map (wireguardKeyOf publicKeyOf) = some key) :
    Agrees publicKeyOf specs own cidr v ↔ v.carrier publicKeyOf own = c := by
  unfold RouteView.carrier
  cases hroute : v.route with
  | direct =>
    refine ⟨fun h => ((hc own).1 (h.direct.1 hroute)).symm, ?_⟩
    rintro rfl
    exact ⟨by simp [hroute, hc], fun key hne => by simp [hroute, hc, hne.symm], by simp [hroute, hc]⟩
  | relayed =>
    obtain ⟨key, hne, hvia⟩ := hv hroute
    rw [hvia]
    refine ⟨fun h => ((hc key).1 ((h.relayed key hne).1 ⟨hroute, hvia⟩)).symm, ?_⟩
    rintro rfl
    exact ⟨by simp [hroute, hc, hne], fun key' _ => by simp [hroute, hvia, hc], by simp [hroute, hc]⟩
  | unreachable =>
    refine ⟨fun h => ?_, ?_⟩
    · have hnone := h.unreachable.1 hroute
      simp only [hc] at hnone
      exact (Option.eq_none_iff_forall_ne_some.2 hnone).symm
    · rintro rfl
      exact ⟨by simp [hroute, hc], fun key _ => by simp [hroute, hc], by simp [hroute, hc]⟩

/-- **What the entry of a member names**: the key of the member itself when the direct hop is found,
else the key of the next hop. -/
theorem carrier_routeView (horder : n.GraphOrder publicKeyOf order)
    (hme : m.node.nodeId ≠ n.me publicKeyOf)
    (hown : wireguardKeyOf publicKeyOf e.2.1 = own) (hid : m.node.nodeId = nodeIdOf publicKeyOf e.2.1) :
    (n.routeView publicKeyOf order m).carrier publicKeyOf own =
        (if (n.routeGraph publicKeyOf).floatPath order (n.me publicKeyOf) m.node.nodeId =
          some [m.node.nodeId] then some own else n.relayKey publicKeyOf order m.node.nodeId) ∧
      ((n.routeView publicKeyOf order m).route = .relayed →
        ∃ key ≠ own,
          (n.routeView publicKeyOf order m).via.map (wireguardKeyOf publicKeyOf) = some key) := by
  rw [relayKey_eq_nameOf]
  unfold routeView RouteView.carrier RouteGraph.floatNextRelay
  obtain hp | hp | ⟨hop, x, rest, hp, hne, hmem⟩ := floatPath_forms horder hme.symm
  · simp [hp]
  · simp [hp]
  · obtain ⟨name, hname, hhop⟩ := exists_nameOf hmem
    have hkey : wireguardKeyOf publicKeyOf name ≠ own := by
      rintro rfl
      exact hne (hhop.symm.trans ((nodeIdOf_eq_of_key hown.symm).trans hid.symm))
    simp [hp, hname, hkey]

/-- The next hop is another node of the graph. -/
theorem mem_of_floatNextRelay {g : RouteGraph} {src dst hop : NodeId} (horder : order.Perm g.reach.keys)
    (hne : src ≠ dst) (h : g.floatNextRelay order src dst = some hop) : hop ≠ dst ∧ hop ∈ g.reach := by
  obtain ⟨x, rest, hx⟩ := floatNextRelay_eq_some.1 h
  obtain hp | hp | ⟨hop', x', rest', hp, hhop⟩ := floatPath_forms horder hne
  · simp [hp] at hx
  · simp [hp] at hx
  · obtain rfl : hop' = hop := by simp_all
    exact hhop

/-- No address is relayed through its own machine. -/
theorem relayKey_ne_own (horder : n.GraphOrder publicKeyOf order)
    (hme : nodeIdOf publicKeyOf e.2.1 ≠ n.me publicKeyOf) :
    n.relayKey publicKeyOf order (nodeIdOf publicKeyOf e.2.1) ≠
      some (wireguardKeyOf publicKeyOf e.2.1) := by
  rw [relayKey_eq_nameOf]
  intro h
  obtain ⟨name, hname, hkey⟩ := Option.map_eq_some_iff.1 h
  obtain ⟨hop, hhop, hname⟩ := Option.bind_eq_some_iff.1 hname
  obtain ⟨hne, hmem⟩ := mem_of_floatNextRelay horder hme.symm hhop
  obtain ⟨name', hname', hid⟩ := exists_nameOf hmem
  obtain rfl := Option.some.inj (hname.symm.trans hname')
  exact hne (hid.symm.trans (nodeIdOf_eq_of_key hkey))

/-- Different next hops have different keys. -/
theorem relayKey_eq_iff (horder : n.GraphOrder publicKeyOf order)
    (horder' : n.GraphOrder publicKeyOf order') {dest : NodeId} (hme : dest ≠ n.me publicKeyOf) :
    n.relayKey publicKeyOf order dest = n.relayKey publicKeyOf order' dest ↔
      (n.routeGraph publicKeyOf).floatNextRelay order (n.me publicKeyOf) dest =
        (n.routeGraph publicKeyOf).floatNextRelay order' (n.me publicKeyOf) dest := by
  constructor
  · intro h
    rw [relayKey_eq_nameOf, relayKey_eq_nameOf] at h
    have hnamed : ∀ {o hop}, n.GraphOrder publicKeyOf o →
        (n.routeGraph publicKeyOf).floatNextRelay o (n.me publicKeyOf) dest = some hop →
        ∃ name, n.nameOf publicKeyOf hop = some name ∧ nodeIdOf publicKeyOf name = hop :=
      fun ho hhop => exists_nameOf (mem_of_floatNextRelay ho hme.symm hhop).2
    cases hhop : (n.routeGraph publicKeyOf).floatNextRelay order (n.me publicKeyOf) dest with
    | none =>
      cases hhop' : (n.routeGraph publicKeyOf).floatNextRelay order' (n.me publicKeyOf) dest with
      | none => rfl
      | some hop' =>
        obtain ⟨name, hname, -⟩ := hnamed horder' hhop'
        simp [hhop, hhop', hname] at h
    | some hop =>
      obtain ⟨name, hname, hid⟩ := hnamed horder hhop
      cases hhop' : (n.routeGraph publicKeyOf).floatNextRelay order' (n.me publicKeyOf) dest with
      | none => simp [hhop, hhop', hname] at h
      | some hop' =>
        obtain ⟨name', hname', hid'⟩ := hnamed horder' hhop'
        simp only [hhop, hhop', Option.bind_some, hname, hname', Option.map_some,
          Option.some.injEq] at h
        rw [← hid, ← hid', nodeIdOf_eq_of_key h]
  · intro h
    rw [relayKey_eq_nameOf, relayKey_eq_nameOf, h]

/-- What the searches of the two graphs have to find for the view to match. -/
def WgNode.SearchesAgree (publicKeyOf : String → Bytes) (n : WgNode) (order order' : List NodeId)
    (e : Id × String × ℕ × Option String) : Prop :=
  if n.BothPrivate e then
    (n.routeGraph publicKeyOf).floatPath order (n.me publicKeyOf) (nodeIdOf publicKeyOf e.2.1) ≠
        some [nodeIdOf publicKeyOf e.2.1] ∧
      (n.routeGraph publicKeyOf).floatNextRelay order (n.me publicKeyOf) (nodeIdOf publicKeyOf e.2.1) =
        (n.routeGraph publicKeyOf).floatNextRelay order' (n.me publicKeyOf) (nodeIdOf publicKeyOf e.2.1)
  else (n.routeGraph publicKeyOf).floatPath order (n.me publicKeyOf) (nodeIdOf publicKeyOf e.2.1) =
    some [nodeIdOf publicKeyOf e.2.1]

/-- **One entry.** -/
theorem agrees_routeView_iff (horder : n.GraphOrder publicKeyOf order)
    (horder' : n.GraphOrder publicKeyOf order') (he : e ∈ n.machinePlan)
    (hme : nodeIdOf publicKeyOf e.2.1 ≠ n.me publicKeyOf)
    (hid : m.node.nodeId = nodeIdOf publicKeyOf e.2.1) {plane : WgPlane}
    (hplane : plane ∈ [wgMgmt, wgData, wgLb]) :
    Agrees publicKeyOf (n.peersOn publicKeyOf order' plane) (wireguardKeyOf publicKeyOf e.2.1)
        (plane.ip e.2.2.1 ++ "/32") (n.routeView publicKeyOf order m) ↔
      n.SearchesAgree publicKeyOf order order' e := by
  have hname : e.2.1 ≠ n.nodeId := fun h => hme (congrArg (nodeIdOf publicKeyOf) h)
  obtain ⟨hcarrier, hrelayed⟩ := carrier_routeView horder (hid ▸ hme) rfl hid
  have hkey := relayKey_ne_own (n := n) horder' hme
  rw [agrees_iff (fun key => routedTo_peersOn hplane he hname) hrelayed, hcarrier, hid]
  unfold carrierOf SearchesAgree
  by_cases hpriv : n.BothPrivate e
  · rw [if_pos hpriv, if_pos hpriv]
    split_ifs with hp
    · simp [hp, hkey.symm]
    · rw [relayKey_eq_iff horder horder' hme, and_iff_right hp]
  · rw [if_neg hpriv, if_neg hpriv]
    split_ifs with hp
    · simp [hp]
    · simp [hp, relayKey_ne_own (n := n) horder hme]

/-- A member that no machine of the topology belongs to is reported as unreachable. -/
theorem routeView_of_no_machine
    (h : ∀ e ∈ n.machinePlan, (nodeIdOf publicKeyOf e.2.1).name ≠ m.node.nodeId.name) :
    (n.routeView publicKeyOf order m).route = .unreachable := by
  have hp : (n.routeGraph publicKeyOf).floatPath order (n.me publicKeyOf) m.node.nodeId = none := by
    cases hp : (n.routeGraph publicKeyOf).floatPath order (n.me publicKeyOf) m.node.nodeId with
    | none => rfl
    | some hops =>
      obtain ⟨x, hx, hid⟩ := (n.mem_routeGraph publicKeyOf).1 (mem_reach_of_floatPath hp).2
      obtain ⟨e, he, hname⟩ := exists_plan_of_mem hx
      exact absurd (by rw [hname, hid]) (h e he)
  simp [routeView, hp]

/-- **The view and the searches.** -/
theorem viewMatches_iff_searchesAgree : n.ViewMatches publicKeyOf ↔
    ∀ e, n.Viewed publicKeyOf e → ∀ order order', n.GraphOrder publicKeyOf order →
      n.GraphOrder publicKeyOf order' → n.SearchesAgree publicKeyOf order order' e := by
  constructor
  · rintro h e ⟨he, hme, m, hm, hid⟩ order order' horder horder'
    have hv : n.routeView publicKeyOf order m ∈ n.routesView publicKeyOf order :=
      List.mem_map_of_mem (List.mem_filter.2 ⟨hm, by simpa [hid] using hme⟩)
    have hagrees := (h order order' horder horder' _ hv).2 e he (congrArg NodeId.name hid.symm) wgMgmt
      (List.mem_cons_self ..)
    exact (agrees_routeView_iff horder horder' he hme hid (List.mem_cons_self ..)).1 hagrees
  · intro h order order' horder horder' v hv
    obtain ⟨m, hm, rfl⟩ := List.mem_map.1 hv
    obtain ⟨hm, hme⟩ := List.mem_filter.1 hm
    refine ⟨routeView_of_no_machine, fun e he hid plane hplane => ?_⟩
    have hid : m.node.nodeId = nodeIdOf publicKeyOf e.2.1 := congrArg NodeId.mk hid.symm
    have hme : nodeIdOf publicKeyOf e.2.1 ≠ n.me publicKeyOf := by simpa [hid] using hme
    exact (agrees_routeView_iff horder horder' he hme hid hplane).2
      (h e ⟨he, hme, m, hm, hid⟩ order order' horder horder')

end View

/-! ## Orders and preferred routes -/

section Orders

variable {g : RouteGraph} {order order' : List NodeId} {src dst : NodeId}

/-- Where the direct hop is not found, the next hop is where the path starts. -/
theorem floatNextRelay_eq_head (horder : order.Perm g.reach.keys) (hne : src ≠ dst)
    (hdirect : g.floatPath order src dst ≠ some [dst]) :
    g.floatNextRelay order src dst = (g.floatPath order src dst).bind List.head? := by
  obtain hp | hp | ⟨hop, x, rest, hp, -⟩ := floatPath_forms horder hne
  · simp [RouteGraph.floatNextRelay, hp]
  · exact absurd hp hdirect
  · simp [RouteGraph.floatNextRelay, hp]

variable (hrtt : ∀ e ms, g.rtt.lookup e = some ms → 0 ≤ ms)

include hrtt

/-- What one order finds a path to, every order does. -/
theorem exists_floatPath_of_order (horder : order.Perm g.reach.keys)
    (horder' : order'.Perm g.reach.keys) {hops : List NodeId}
    (hp : g.floatPath order src dst = some hops) : ∃ hops', g.floatPath order' src dst = some hops' := by
  obtain ⟨hsrc, hdst⟩ := mem_reach_of_floatPath hp
  obtain ⟨c, hw, -⟩ := floatWalk_of_floatPath horder hp
  exact Option.isSome_iff_exists.1 ((isSome_floatPath_iff hrtt horder' hsrc hdst).2 ⟨hops, c, hw⟩)

/-- **The order does not matter** for the next hop exactly when all preferred routes start alike. -/
theorem floatNextRelay_const_iff (hne : src ≠ dst)
    (hdirect : ∀ order, order.Perm g.reach.keys → g.floatPath order src dst ≠ some [dst]) :
    (∀ order order', order.Perm g.reach.keys → order'.Perm g.reach.keys →
        g.floatNextRelay order src dst = g.floatNextRelay order' src dst) ↔
      ∀ hops hops', g.PreferredRoute src dst hops → g.PreferredRoute src dst hops' →
        hops.head? = hops'.head? := by
  constructor
  · intro h hops hops' hpref hpref'
    obtain ⟨hsrc, hdst⟩ := PreferredRoute.mem_reach hpref hne
    obtain ⟨o, ho, hp⟩ := (preferredRoute_iff hrtt hsrc hdst).1 hpref
    obtain ⟨o', ho', hp'⟩ := (preferredRoute_iff hrtt hsrc hdst).1 hpref'
    have hsame := h o o' ho ho'
    rwa [floatNextRelay_eq_head ho hne (hdirect o ho), floatNextRelay_eq_head ho' hne (hdirect o' ho'),
      hp, hp'] at hsame
  · intro h o o' ho ho'
    rw [floatNextRelay_eq_head ho hne (hdirect o ho), floatNextRelay_eq_head ho' hne (hdirect o' ho')]
    cases hp : g.floatPath o src dst with
    | none =>
      cases hp' : g.floatPath o' src dst with
      | none => rfl
      | some hops' =>
        obtain ⟨hops, hsome⟩ := exists_floatPath_of_order hrtt ho' ho hp'
        rw [hp] at hsome
        contradiction
    | some hops =>
      obtain ⟨hops', hp'⟩ := exists_floatPath_of_order hrtt ho ho' hp
      rw [hp']
      exact h hops hops' (preferredRoute_of_floatPath hrtt ho hp)
        (preferredRoute_of_floatPath hrtt ho' hp')

end Orders

/-! ## When the view matches -/

/-- **The route view.** For every topology, membership table and latency maps: the view matches what
is programmed, in every order of the nodes, if and only if the search finds the direct hop to every
member that is peered directly and, for two private nodes, the same next hop in every order. Where no
round-trip time is negative this is a condition on the weights: the rounded cost of the direct edge is
least, or, for two private nodes, all preferred routes start alike (and no direct edge of a namesake is
best). -/
theorem viewMatches_iff (publicKeyOf : String → Bytes) (n : WgNode) :
    (n.ViewMatches publicKeyOf ↔
      ∀ e, n.Viewed publicKeyOf e → ∀ order order', n.GraphOrder publicKeyOf order →
        n.GraphOrder publicKeyOf order' → n.SearchesAgree publicKeyOf order order' e) ∧
    ((∀ e ms, (n.routeGraph publicKeyOf).rtt.lookup e = some ms → 0 ≤ ms) →
      (n.ViewMatches publicKeyOf ↔ ∀ e, n.Viewed publicKeyOf e →
        if n.BothPrivate e then
          ¬n.DirectBest publicKeyOf (nodeIdOf publicKeyOf e.2.1) ∧
            n.OneStart publicKeyOf (nodeIdOf publicKeyOf e.2.1)
        else n.DirectBest publicKeyOf (nodeIdOf publicKeyOf e.2.1))) := by
  refine ⟨viewMatches_iff_searchesAgree, fun hrtt => ?_⟩
  rw [viewMatches_iff_searchesAgree]
  refine forall_congr' fun e => forall_congr' fun hviewed => ?_
  have hne : n.me publicKeyOf ≠ nodeIdOf publicKeyOf e.2.1 := hviewed.2.1.symm
  have hbest : ∀ order, n.GraphOrder publicKeyOf order →
      ((n.routeGraph publicKeyOf).floatPath order (n.me publicKeyOf) (nodeIdOf publicKeyOf e.2.1) =
        some [nodeIdOf publicKeyOf e.2.1] ↔ n.DirectBest publicKeyOf (nodeIdOf publicKeyOf e.2.1)) :=
    fun order horder => floatPath_eq_direct_iff hrtt horder hne
  have hkeys : n.GraphOrder publicKeyOf (n.routeGraph publicKeyOf).reach.keys := .refl _
  unfold SearchesAgree
  by_cases hpriv : n.BothPrivate e
  · simp only [if_pos hpriv]
    constructor
    · intro h
      have hdirect : ¬n.DirectBest publicKeyOf (nodeIdOf publicKeyOf e.2.1) := fun hd =>
        (h _ _ hkeys hkeys).1 ((hbest _ hkeys).2 hd)
      refine ⟨hdirect, (floatNextRelay_const_iff hrtt hne fun o ho hp => hdirect ((hbest o ho).1 hp)).1 ?_⟩
      exact fun o o' ho ho' => (h o o' ho ho').2
    · rintro ⟨hdirect, hstart⟩ o o' ho ho'
      exact ⟨fun hp => hdirect ((hbest o ho).1 hp),
        (floatNextRelay_const_iff hrtt hne fun o ho hp => hdirect ((hbest o ho).1 hp)).2 hstart o o' ho ho'⟩
  · simp only [if_neg hpriv]
    exact ⟨fun h => (hbest _ hkeys).1 (h _ _ hkeys hkeys), fun h o _ ho _ => (hbest o ho).2 h⟩

/-! ## A near relay -/

/-- From the private node `a`, in every order of the nodes: the relays are reached directly, and the
private `b` through the nearer one. -/
theorem path_relayedNode : ∀ name ∈ ["b", "r", "s"],
    ∀ order ∈ (relayedNode.routeGraph spelledKey).reach.keys.permutations',
      (relayedNode.routeGraph spelledKey).floatPath order (relayedNode.me spelledKey)
        (nodeIdOf spelledKey name) = some (if name = "b" then [nodeIdOf spelledKey "r",
          nodeIdOf spelledKey "b"] else [nodeIdOf spelledKey name]) := by
  decide +kernel

/-- The view of that node matches what it programs. -/
theorem viewMatches_iff_relayedNode :
    (∀ e ms, (relayedNode.routeGraph spelledKey).rtt.lookup e = some ms → 0 ≤ ms) ∧
      relayedNode.ViewMatches spelledKey ∧
      relayedNode.OneStart spelledKey (nodeIdOf spelledKey "b") ∧
      relayedNode.DirectBest spelledKey (nodeIdOf spelledKey "s") := by
  have hnames : ∀ e ∈ relayedNode.machinePlan, nodeIdOf spelledKey e.2.1 ≠ relayedNode.me spelledKey →
      e.2.1 ∈ ["b", "r", "s"] ∧ (relayedNode.BothPrivate e ↔ e.2.1 = "b") := by decide +kernel
  have hmatches : relayedNode.ViewMatches spelledKey := by
    refine (viewMatches_iff spelledKey relayedNode).1.2 fun e he order order' horder horder' => ?_
    obtain ⟨hname, hpriv⟩ := hnames e he.1 he.2.1
    have hp := path_relayedNode e.2.1 hname order (List.mem_permutations'.2 horder)
    have hp' := path_relayedNode e.2.1 hname order' (List.mem_permutations'.2 horder')
    unfold SearchesAgree
    by_cases hb : e.2.1 = "b"
    · rw [if_pos (hpriv.2 hb), hp, RouteGraph.floatNextRelay, RouteGraph.floatNextRelay, hp, hp', if_pos hb]
      exact ⟨by simp, rfl⟩
    · rw [if_neg fun h => hb (hpriv.1 h), hp, if_neg hb]
  have hcond := ((viewMatches_iff spelledKey relayedNode).2 rtt_nonneg_relayedNode).1 hmatches
  have hb := hcond (⟨"b"⟩, "b", 1, some "b.example") ⟨by decide +kernel, by decide +kernel,
    by decide +kernel⟩
  have hs := hcond (⟨"s"⟩, "s", 3, some "s.example") ⟨by decide +kernel, by decide +kernel,
    by decide +kernel⟩
  rw [if_pos (by decide +kernel)] at hb
  rw [if_neg (by decide +kernel)] at hs
  exact ⟨rtt_nonneg_relayedNode, hmatches, hb.2, hs⟩

/-- The public node `a` with a public peer `r` at 10 ms and a public peer `c` at 1200 ms. -/
def dialingNode : WgNode where
  nodeId := "a"
  machines := [labelledMachine "a" "public", labelledMachine "r" "public",
    labelledMachine "c" "public"]
  membership := ((["r", "c"].foldl (fun t name => (Membership.join t
    (.new (nodeIdOf spelledKey name) (spelledKey name) [name]) 0).2)
      (Membership.new (nodeIdOf spelledKey "a"))).recordRtt (nodeIdOf spelledKey "r") 10).recordRtt
        (nodeIdOf spelledKey "c") 1200
  peerLatency := ∅

/-- The member `c` can be dialed and is peered directly, but the way through `r`, which is assumed to
take 1010 ms, is shorter: the view reports `c` as relayed through `r`. -/
theorem dialed_shown_relayed :
    (∃ v ∈ dialingNode.routesView spelledKey (dialingNode.routeGraph spelledKey).reach.keys,
      v.target = (nodeIdOf spelledKey "c").name ∧ v.route = .relayed ∧ v.via = some "r") ∧
    (∀ plane ∈ [wgMgmt, wgData, wgLb], ∀ spec ∈ dialingNode.peersOn spelledKey
      (dialingNode.routeGraph spelledKey).reach.keys plane,
        plane.ip 1 ++ "/32" ∈ spec.allowedIps ↔ spec.publicKey = wireguardKeyOf spelledKey "c") ∧
    ¬dialingNode.ViewMatches spelledKey := by
  have hview : ∃ v ∈ dialingNode.routesView spelledKey
      (dialingNode.routeGraph spelledKey).reach.keys,
        v.target = (nodeIdOf spelledKey "c").name ∧ v.route = .relayed ∧ v.via = some "r" := by
    decide +kernel
  refine ⟨hview, by decide +kernel, fun h => ?_⟩
  obtain ⟨v, hv, htarget, hroute, -⟩ := hview
  have hagrees := (h _ _ (.refl _) (.refl _) v hv).2 (⟨"c"⟩, "c", 1, some "c.example")
    (by decide +kernel) htarget.symm wgMgmt (List.mem_cons_self ..)
  have hrouted : RoutedTo (dialingNode.peersOn spelledKey
      (dialingNode.routeGraph spelledKey).reach.keys wgMgmt) (wireguardKeyOf spelledKey "c")
      (wgMgmt.ip 1 ++ "/32") := by
    unfold RoutedTo
    decide +kernel
  have hdirect := hagrees.direct.2 hrouted
  rw [hroute] at hdirect
  contradiction

end OCF.Api
