import OCF.Fabric.ShortestPath

/-!
# Routing hop by hop

A packet is sent to the first node of the shortest path to its destination, and that node looks up
its own shortest path. The nodes share the graph, but each lists its map in an order of its own and
breaks ties accordingly, so the packet need not follow the path its source has found.

With positive costs the least cost that remains falls at every hop (`Costs.next_lt`). So no node is
met twice, the packet arrives within one hop fewer than there are nodes, and its way costs what the
path of its source costs (`hopByHop_reaches`).
-/

namespace OCF.Fabric

open RouteGraph

/-- The nodes a packet passes on its way to `dst`, each hop taken from the shortest path that the
node at hand finds with its own order of the nodes; `none` when it has not arrived after so many hops
or a node finds no path. -/
def hopByHop (g : RouteGraph) (orders : NodeId → List NodeId) (dst : NodeId) :
    ℕ → NodeId → Option (List NodeId)
  | 0, u => if u = dst then some [] else none
  | n + 1, u =>
    if u = dst then some []
    else match g.path (orders u) u dst with
      | some (v :: _) => (hopByHop g orders dst n v).map (v :: ·)
      | _ => none

/-! ## The nodes that are nearer -/

section Nearer

variable {V : Type*} (d : V → WithTop ℚ) (l : List V)

/-- The elements of a list whose distance is less than that of `u`. -/
def nearer (u : V) : List V := l.filter fun x => d x < d u

variable {d l}

/-- Moving to an element that is nearer leaves fewer elements that are nearer still. -/
theorem length_nearer_lt {u v : V} (hv : v ∈ l) (hlt : d v < d u) :
    (nearer d l v).length < (nearer d l u).length := by
  have hsub : nearer d l v = (nearer d l u).filter fun x => d x < d v := by
    rw [nearer, nearer, List.filter_filter]
    refine List.filter_congr fun x _ => Bool.eq_iff_iff.2 ?_
    simpa using fun hx => hx.trans hlt
  rw [hsub]
  exact List.length_filter_lt_length_iff_exists.2
    ⟨v, List.mem_filter.2 ⟨hv, by simpa using hlt⟩, by simp⟩

/-- An element is not nearer than itself. -/
theorem length_nearer_le {u : V} (hu : u ∈ l) : (nearer d l u).length ≤ l.length - 1 := by
  have hlt : (nearer d l u).length < l.length :=
    List.length_filter_lt_length_iff_exists.2 ⟨u, hu, by simp⟩
  omega

end Nearer

/-! ## One hop -/

/-- The least cost of a walk from the source to the node. -/
def Costs (g : RouteGraph) (src v : NodeId) (c : ℚ) : Prop :=
  (∃ hops, IsWalk g.edgeCost src v hops c) ∧ ∀ hops c', IsWalk g.edgeCost src v hops c' → c ≤ c'

theorem Costs.unique {g : RouteGraph} {src v : NodeId} {c d : ℚ} (h : Costs g src v c)
    (h' : Costs g src v d) : c = d := by
  obtain ⟨⟨hops, hw⟩, hmin⟩ := h
  obtain ⟨⟨hops', hw'⟩, hmin'⟩ := h'
  exact le_antisymm (hmin hops' d hw') (hmin' hops c hw)

section Hop

variable {g : RouteGraph} {u v dst : NodeId} {hops rest : List NodeId} {order : List NodeId} {c : ℚ}

/-- The rest of a cheapest walk is a cheapest walk, and with positive costs it costs less. -/
theorem Costs.next_lt (hpos : ∀ a b w, g.edgeCost a b = some w → 0 < w) (h : Costs g u dst c)
    (hwalk : IsWalk g.edgeCost u dst (v :: rest) c) :
    ∃ w c', g.edgeCost u v = some w ∧ Costs g v dst c' ∧ c = w + c' ∧ c' < c := by
  obtain ⟨w, c', he, hrest, rfl⟩ := isWalk_cons.1 hwalk
  refine ⟨w, c', he, ⟨⟨rest, hrest⟩, fun hops' d hd => ?_⟩, rfl, ?_⟩
  · have hle := h.2 (v :: hops') (w + d) (isWalk_cons.2 ⟨w, d, he, hd, rfl⟩)
    exact le_of_add_le_add_left hle
  · exact lt_add_of_pos_left c' (hpos u v w he)

/-- The path that is found costs least. -/
theorem costs_of_path (hpos : ∀ a b w, g.edgeCost a b = some w → 0 < w)
    (horder : order.Perm g.reach.keys) (hp : g.path order u dst = some hops) :
    ∃ c, IsWalk g.edgeCost u dst hops c ∧ Costs g u dst c := by
  obtain ⟨hu, hdst⟩ := mem_reach_of_path hp
  obtain ⟨c, hwalk, hmin⟩ :=
    path_minimal_of_nonneg horder (fun a b w he => (hpos a b w he).le) hu hdst hp
  exact ⟨c, hwalk, ⟨hops, hwalk⟩, hmin⟩

/-- A node with a walk to the destination finds a path. -/
theorem exists_path_of_costs (horder : order.Perm g.reach.keys) (hu : u ∈ g.reach)
    (hdst : dst ∈ g.reach) (h : Costs g u dst c) : ∃ hops, g.path order u dst = some hops := by
  obtain ⟨⟨hops, hwalk⟩, -⟩ := h
  refine Option.isSome_iff_exists.1 ((path_isSome_iff horder hu hdst).2 ?_)
  exact reflTransGen_edgeCost_iff.1 (exists_isWalk_iff.1 ⟨hops, c, hwalk⟩)

/-- The least cost from a node to the destination; none when it is out of reach. -/
noncomputable def leastCost (g : RouteGraph) (dst u : NodeId) : WithTop ℚ :=
  open Classical in if h : ∃ c, Costs g u dst c then (h.choose : WithTop ℚ) else ⊤

theorem Costs.leastCost_eq (h : Costs g u dst c) : leastCost g dst u = c := by
  have hex : ∃ c, Costs g u dst c := ⟨c, h⟩
  rw [leastCost, dif_pos hex, hex.choose_spec.unique h]

/-- **One hop.** Away from the destination, a node finds a path, and the next node is nearer. -/
theorem exists_hop (hpos : ∀ a b w, g.edgeCost a b = some w → 0 < w)
    (horder : order.Perm g.reach.keys) (hu : u ∈ g.reach) (hdst : dst ∈ g.reach) (hne : u ≠ dst)
    (h : Costs g u dst c) :
    ∃ v rest w c', g.path order u dst = some (v :: rest) ∧ v ∈ g.reach ∧
      g.edgeCost u v = some w ∧ Costs g v dst c' ∧ c = w + c' ∧
      (nearer (leastCost g dst) g.reach.keys v).length <
        (nearer (leastCost g dst) g.reach.keys u).length := by
  obtain ⟨hops, hp⟩ := exists_path_of_costs horder hu hdst h
  obtain ⟨c₁, hwalk, hcosts⟩ := costs_of_path hpos horder hp
  obtain rfl := hcosts.unique h
  cases hops with
  | nil => exact absurd (isWalk_nil.1 hwalk).1 hne
  | cons v rest =>
    obtain ⟨w, c', he, hv, hc, hlt⟩ := h.next_lt hpos hwalk
    have hmem : v ∈ g.reach := (mem_reach_of_edgeCost he).2
    refine ⟨v, rest, w, c', hp, hmem, he, hv, hc, length_nearer_lt (AList.mem_keys.1 hmem) ?_⟩
    rw [hv.leastCost_eq, h.leastCost_eq]
    exact WithTop.coe_lt_coe.2 hlt

end Hop

/-! ## The whole way -/

section Way

variable {g : RouteGraph} {orders : NodeId → List NodeId} {dst : NodeId}

/-- At the destination nothing remains. -/
theorem Costs.eq_zero (hpos : ∀ a b w, g.edgeCost a b = some w → 0 < w) {c : ℚ}
    (h : Costs g dst dst c) : c = 0 := by
  obtain ⟨⟨hops, hwalk⟩, hmin⟩ := h
  exact le_antisymm (hmin [] 0 (isWalk_nil.2 ⟨rfl, rfl⟩))
    (hwalk.nonneg fun a b w he => (hpos a b w he).le)

/-- With as many hops as there are nearer nodes, the packet arrives, at the least cost. -/
theorem hopByHop_of_costs (hpos : ∀ a b w, g.edgeCost a b = some w → 0 < w)
    (horders : ∀ u, (orders u).Perm g.reach.keys) (hdst : dst ∈ g.reach) {n : ℕ} {u : NodeId} {c : ℚ}
    (hu : u ∈ g.reach) (h : Costs g u dst c)
    (hn : (nearer (leastCost g dst) g.reach.keys u).length ≤ n) :
    ∃ way, hopByHop g orders dst n u = some way ∧ way.length ≤ n ∧
      IsWalk g.edgeCost u dst way c := by
  induction n generalizing u c with
  | zero =>
    by_cases hne : u = dst
    · subst hne
      exact ⟨[], by simp [hopByHop], le_rfl, isWalk_nil.2 ⟨rfl, h.eq_zero hpos⟩⟩
    · obtain ⟨v, rest, w, c', -, -, -, -, -, hlt⟩ := exists_hop hpos (horders u) hu hdst hne h
      omega
  | succ n ih =>
    by_cases hne : u = dst
    · subst hne
      exact ⟨[], by simp [hopByHop], by simp, isWalk_nil.2 ⟨rfl, h.eq_zero hpos⟩⟩
    · obtain ⟨v, rest, w, c', hp, hv, he, hcosts, rfl, hlt⟩ :=
        exists_hop hpos (horders u) hu hdst hne h
      obtain ⟨way, hway, hlen, hwalk⟩ := ih hv hcosts (by omega)
      refine ⟨v :: way, ?_, Nat.succ_le_succ hlen, isWalk_cons.2 ⟨w, c', he, hwalk, rfl⟩⟩
      simp only [hopByHop, if_neg hne, hp, hway, Option.map_some]

end Way

/-- **Loop freedom.** With positive costs, one graph and any order of the nodes at each node: where
the source finds a path, the packet reaches its destination in at most one hop fewer than there are
nodes, and its way costs as much as the path of the source. -/
theorem hopByHop_reaches (g : RouteGraph) (orders : NodeId → List NodeId) (src dst : NodeId)
    (hops : List NodeId) (hpos : ∀ a b w, g.edgeCost a b = some w → 0 < w)
    (horders : ∀ u, (orders u).Perm g.reach.keys) (hp : g.path (orders src) src dst = some hops) :
    ∃ way c, hopByHop g orders dst (g.reach.keys.length - 1) src = some way ∧
      way.length ≤ g.reach.keys.length - 1 ∧ walkEnd src way = dst ∧
      walkCost g.edgeCost src way = some c ∧ walkCost g.edgeCost src hops = some c := by
  obtain ⟨hsrc, hdst⟩ := mem_reach_of_path hp
  obtain ⟨c, hwalk, hcosts⟩ := costs_of_path hpos (horders src) hp
  obtain ⟨way, hway, hlen, hend, hcost⟩ := hopByHop_of_costs hpos horders hdst hsrc hcosts
    (length_nearer_le (AList.mem_keys.1 hsrc))
  exact ⟨way, c, hway, hlen, hend, hcost, hwalk.2⟩

/-- A packet from `a` to `b` in a fleet where the relay lists the nodes in another order. -/
theorem hopByHop_reaches_relayFleet :
    ∃ way, hopByHop relayFleet (fun u => if u = ⟨"r"⟩ then [⟨"r"⟩, ⟨"b"⟩, ⟨"a"⟩, ⟨"s"⟩]
        else [⟨"s"⟩, ⟨"b"⟩, ⟨"r"⟩, ⟨"a"⟩]) ⟨"b"⟩ 3 ⟨"a"⟩ = some way ∧ way.length ≤ 3 ∧
      walkCost relayFleet.edgeCost ⟨"a"⟩ way = some 45 := by
  have hrtt : ∀ p ∈ HashMap.pairs relayFleet.rtt, 0 < p.2 := by decide +kernel
  have hpos : ∀ a b w, relayFleet.edgeCost a b = some w → 0 < w := fun a b w =>
    edgeCost_of_rtt (P := (0 < ·)) (by decide +kernel) fun e ms he =>
      hrtt (e, ms) (HashMap.mem_pairs.2 he)
  have horders : ∀ u : NodeId, ((if u = ⟨"r"⟩ then [⟨"r"⟩, ⟨"b"⟩, ⟨"a"⟩, ⟨"s"⟩]
      else [⟨"s"⟩, ⟨"b"⟩, ⟨"r"⟩, ⟨"a"⟩]) : List NodeId).Perm relayFleet.reach.keys := by
    intro u
    split_ifs <;> decide +kernel
  have hp : relayFleet.path [⟨"s"⟩, ⟨"b"⟩, ⟨"r"⟩, ⟨"a"⟩] ⟨"a"⟩ ⟨"b"⟩ = some [⟨"r"⟩, ⟨"b"⟩] := by
    decide +kernel
  obtain ⟨way, c, hway, hlen, -, hcost, hcost'⟩ := hopByHop_reaches relayFleet _ ⟨"a"⟩ ⟨"b"⟩
    [⟨"r"⟩, ⟨"b"⟩] hpos horders hp
  have hc : walkCost relayFleet.edgeCost ⟨"a"⟩ [⟨"r"⟩, ⟨"b"⟩] = some 45 := by decide +kernel
  obtain rfl := Option.some.inj (hcost'.symm.trans hc)
  exact ⟨way, hway, hlen, hcost⟩

end OCF.Fabric
