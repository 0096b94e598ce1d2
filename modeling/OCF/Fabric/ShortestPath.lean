import OCF.Fabric.Routing
import OCF.Foundations.PreferredWalks

/-!
# The path search finds shortest paths

What the edges of a route graph are, and what the search with exact sums finds. Whatever the sign of the
weights, it finds a path exactly when the target is reachable over links (`path_isSome_iff`). With
non-negative weights the path is a shortest one (`path_shortest`).
-/

namespace OCF.Fabric

open RouteGraph

/-! ## Edges -/

section Edges

variable {g : RouteGraph} {src dst : NodeId}

theorem edgeCost_isSome_iff {a b : NodeId} : (g.edgeCost a b).isSome ↔ a ≠ b ∧ g.canLink a b := by
  unfold edgeCost
  split_ifs with h
  · simp only [Bool.or_eq_true, decide_eq_true_eq, Bool.not_eq_true'] at h
    rcases h with h | h <;> simp [h]
  · simpa using h

theorem mem_reach_of_canLink {a b : NodeId} (h : g.canLink a b) : a ∈ g.reach ∧ b ∈ g.reach := by
  unfold canLink at h
  split at h
  · next ha hb =>
    exact ⟨HashMap.mem_iff_exists_lookup.2 ⟨_, ha⟩, HashMap.mem_iff_exists_lookup.2 ⟨_, hb⟩⟩
  · simp at h

/-- The nodes at the ends of an edge are in the graph. -/
theorem mem_reach_of_edgeCost {a b : NodeId} {w : ℚ} (h : g.edgeCost a b = some w) :
    a ∈ g.reach ∧ b ∈ g.reach :=
  mem_reach_of_canLink (edgeCost_isSome_iff.1 (Option.isSome_of_mem h)).2

/-- What holds of the measured times and of the assumed one holds of every edge cost. -/
theorem edgeCost_of_rtt {P : ℚ → Prop} (hdefault : P defaultEdgeMs)
    (hrtt : ∀ e ms, g.rtt.lookup e = some ms → P ms) {a b : NodeId} {w : ℚ}
    (h : g.edgeCost a b = some w) : P w := by
  unfold edgeCost at h
  split_ifs at h
  obtain rfl := Option.some.inj h
  cases h₁ : g.rtt.lookup (a, b) with
  | some ms => exact hrtt _ _ h₁
  | none =>
    cases h₂ : g.rtt.lookup (b, a) with
    | some ms => exact hrtt _ _ h₂
    | none => exact hdefault

/-- Measured times that are not negative make every edge cost non-negative. -/
theorem edgeCost_nonneg (hrtt : ∀ e ms, g.rtt.lookup e = some ms → 0 ≤ ms) {a b : NodeId} {w : ℚ}
    (h : g.edgeCost a b = some w) : 0 ≤ w :=
  edgeCost_of_rtt (P := (0 ≤ ·)) (by decide +kernel) hrtt h

/-- The edges of the graph reach the nodes that links reach. -/
theorem reflTransGen_edgeCost_iff :
    Relation.ReflTransGen (fun a b => (g.edgeCost a b).isSome) src dst ↔
      Relation.ReflTransGen (fun a b => g.canLink a b) src dst := by
  constructor
  · exact Relation.ReflTransGen.mono (fun a b h => (edgeCost_isSome_iff.1 h).2) src dst
  · intro h
    induction h with
    | refl => exact .refl
    | @tail b c _ hbc ih =>
      by_cases heq : b = c
      · exact heq ▸ ih
      · exact ih.tail (edgeCost_isSome_iff.2 ⟨heq, hbc⟩)

/-- The nodes of a graph are listed in the order. -/
theorem mem_order_of_edgeCost {order : List NodeId} (horder : order.Perm g.reach.keys) (a b : NodeId)
    (w : ℚ) (h : g.edgeCost a b = some w) : b ∈ order :=
  horder.mem_iff.2 (AList.mem_keys.1 (mem_reach_of_edgeCost h).2)

end Edges

/-! ## The path -/

section Path

variable {g : RouteGraph} {src dst v : NodeId} {order hops : List NodeId}

theorem exactSums_infinite {d : WithTop ℚ} : g.exactSums.infinite d = false ↔ ∃ q : ℚ, d = q := by
  change decide (d = ⊤) = false ↔ _
  rw [decide_eq_false_iff_not, ← ne_eq, WithTop.ne_top_iff_exists]
  exact exists_congr fun q => eq_comm

theorem exactSums_infinite_top : g.exactSums.infinite ⊤ = true := by
  simp [exactSums]

/-- The walks of the search are those of the graph, with their costs for labels. -/
theorem walk_iff {d : WithTop ℚ} :
    g.exactSums.Walk 0 src v hops d ↔ ∃ q : ℚ, d = q ∧ IsWalk g.edgeCost src v hops q := by
  constructor
  · intro h
    induction h with
    | nil => exact ⟨0, rfl, isWalk_nil.2 ⟨rfl, rfl⟩⟩
    | @concat u v hops c w _ he _ ih =>
      obtain ⟨q, rfl, hw⟩ := ih
      exact ⟨q + w, (WithTop.coe_add q w).symm, hw.concat he⟩
  · rintro ⟨q, rfl, hw⟩
    induction hops using List.reverseRecOn generalizing v q with
    | nil =>
      obtain ⟨rfl, rfl⟩ := isWalk_nil.1 hw
      exact .nil
    | append_singleton hops x ih =>
      obtain ⟨rfl, u, c, w, hu, he, rfl⟩ := isWalk_append_singleton.1 hw
      rw [WithTop.coe_add]
      exact (ih c hu).concat he (exactSums_infinite.2 ⟨c + w, rfl⟩)

/-- Exact sums of non-negative costs grow. -/
theorem exactSums_growing (hw : ∀ a b w, g.edgeCost a b = some w → 0 ≤ w) :
    g.exactSums.Growing ⊤ 0 where
  start_finite := exactSums_infinite.2 ⟨0, rfl⟩
  top_infinite := exactSums_infinite_top
  start_le := le_top
  mono c d w hle := add_le_add_left hle _
  grow _ u v w _ c _ he := le_add_of_nonneg_right (WithTop.coe_le_coe.2 (hw u v w he))
  high c d _ hc hd := by
    obtain ⟨q, rfl⟩ := exactSums_infinite.1 hd
    rw [of_decide_eq_true hc]
    exact WithTop.coe_lt_top q

/-- A path is found between nodes of the graph only. -/
theorem mem_reach_of_path {hops : List NodeId} (h : g.path order src dst = some hops) :
    src ∈ g.reach ∧ dst ∈ g.reach := by
  unfold path at h
  split_ifs at h with hout
  all_goals simpa using hout

theorem path_eq (hsrc : src ∈ g.reach) (hdst : dst ∈ g.reach) :
    g.path order src dst = g.exactSums.path ⊤ 0 order src dst := by
  simp [path, hsrc, hdst]

variable (horder : order.Perm g.reach.keys)

include horder

/-- A path is found exactly when the target is reachable over links. -/
theorem path_isSome_iff (hsrc : src ∈ g.reach) (hdst : dst ∈ g.reach) :
    (g.path order src dst).isSome ↔ Relation.ReflTransGen (fun a b => g.canLink a b) src dst := by
  have htop := exactSums_infinite_top (g := g)
  have hmem := mem_order_of_edgeCost horder
  rw [path_eq hsrc hdst, ← reflTransGen_edgeCost_iff]
  constructor
  · intro h
    obtain hnone | ⟨hops, c, -, hw, -⟩ := LabelSearch.path_cases htop hmem 0 src dst
    · simp [hnone] at h
    · obtain ⟨q, -, hq⟩ := walk_iff.1 hw
      exact exists_isWalk_iff.1 ⟨hops, q, hq⟩
  · intro h
    refine LabelSearch.isSome_path_of_done htop hmem fun _ => ?_
    obtain ⟨hok, hdone | ⟨hr, hstop⟩⟩ := LabelSearch.final_spec htop hmem 0 src dst
    · exact hdone
    refine LabelSearch.done_of_reachable hmem (horder.mem_iff.2 (AList.mem_keys.1 hsrc))
      (exactSums_infinite.2 ⟨0, rfl⟩) hok hr hstop (fun x c hinf hc => ?_)
      (fun u v w hops hwalk _ _ => ?_) h
    · obtain ⟨q, rfl⟩ := exactSums_infinite.1 hc
      rw [of_decide_eq_true hinf]
      exact WithTop.coe_lt_top q
    · obtain ⟨q, hq, -⟩ := walk_iff.1 hwalk
      rw [hq]
      exact exactSums_infinite.2 ⟨q + w, rfl⟩

/-- With non-negative costs the path that is found costs least. -/
theorem path_minimal_of_nonneg (hw : ∀ a b w, g.edgeCost a b = some w → 0 ≤ w)
    (hsrc : src ∈ g.reach) (hdst : dst ∈ g.reach) {hops : List NodeId}
    (hp : g.path order src dst = some hops) :
    ∃ c, IsWalk g.edgeCost src dst hops c ∧
      ∀ hops' c', IsWalk g.edgeCost src dst hops' c' → c ≤ c' := by
  rw [path_eq hsrc hdst] at hp
  obtain ⟨c, hwalk, -, hmin⟩ := (exactSums_growing hw).least_of_path (mem_order_of_edgeCost horder)
    (horder.mem_iff.2 (AList.mem_keys.1 hsrc)) hp
  obtain ⟨q, rfl, hq⟩ := walk_iff.1 hwalk
  exact ⟨q, hq, fun hops' c' hw' => WithTop.coe_le_coe.1 (hmin hops' c' (walk_iff.2 ⟨c', rfl, hw'⟩))⟩

theorem path_minimal (hrtt : ∀ e ms, g.rtt.lookup e = some ms → 0 ≤ ms) (hsrc : src ∈ g.reach)
    (hdst : dst ∈ g.reach) {hops : List NodeId} (hp : g.path order src dst = some hops) :
    ∃ c, IsWalk g.edgeCost src dst hops c ∧
      ∀ hops' c', IsWalk g.edgeCost src dst hops' c' → c ≤ c' :=
  path_minimal_of_nonneg horder (fun _ _ _ => edgeCost_nonneg hrtt) hsrc hdst hp

omit horder

/-- **Shortest paths.** For two nodes of a graph with non-negative round-trip times and any order
of its nodes, `path` finds a path exactly when the target is reachable over links, and the cost of
the path it finds is least among all walks from the source to the target. -/
theorem path_shortest (g : RouteGraph) (order : List NodeId) (src dst : NodeId)
    (horder : order.Perm g.reach.keys) (hrtt : ∀ e ms, g.rtt.lookup e = some ms → 0 ≤ ms)
    (hsrc : src ∈ g.reach) (hdst : dst ∈ g.reach) :
    ((g.path order src dst).isSome ↔
        Relation.ReflTransGen (fun a b => g.canLink a b) src dst) ∧
      ∀ hops, g.path order src dst = some hops → ∃ c, IsWalk g.edgeCost src dst hops c ∧
        ∀ hops' c', IsWalk g.edgeCost src dst hops' c' → c ≤ c' :=
  ⟨path_isSome_iff horder hsrc hdst, fun _ hp => path_minimal horder hrtt hsrc hdst hp⟩

/-- Two private nodes `a` and `b` with a near relay `r` and a far one `s`; the way from `s` to `b`
is not measured. -/
def relayFleet : RouteGraph where
  reach := [⟨⟨"a"⟩, .priv⟩, ⟨⟨"b"⟩, .priv⟩, ⟨⟨"r"⟩, .relay⟩, ⟨⟨"s"⟩, .relay⟩].toAList
  rtt := [⟨(⟨"a"⟩, ⟨"r"⟩), 40⟩, ⟨(⟨"b"⟩, ⟨"r"⟩), 5⟩, ⟨(⟨"a"⟩, ⟨"s"⟩), 10⟩].toAList

/-- Through `r` the way from `a` to `b` takes 45 ms, and no walk takes less. -/
theorem path_shortest_relayFleet :
    relayFleet.path [⟨"s"⟩, ⟨"b"⟩, ⟨"r"⟩, ⟨"a"⟩] ⟨"a"⟩ ⟨"b"⟩ = some [⟨"r"⟩, ⟨"b"⟩] ∧
      ∀ hops c, IsWalk relayFleet.edgeCost ⟨"a"⟩ ⟨"b"⟩ hops c → 45 ≤ c := by
  have hp : relayFleet.path [⟨"s"⟩, ⟨"b"⟩, ⟨"r"⟩, ⟨"a"⟩] ⟨"a"⟩ ⟨"b"⟩ = some [⟨"r"⟩, ⟨"b"⟩] := by
    decide +kernel
  have hrtt : ∀ e ms, relayFleet.rtt.lookup e = some ms → 0 ≤ ms := by
    have hall : ∀ p ∈ HashMap.pairs relayFleet.rtt, 0 ≤ p.2 := by decide +kernel
    exact fun e ms h => hall (e, ms) (HashMap.mem_pairs.2 h)
  obtain ⟨-, h⟩ := path_shortest relayFleet [⟨"s"⟩, ⟨"b"⟩, ⟨"r"⟩, ⟨"a"⟩] ⟨"a"⟩ ⟨"b"⟩
    (by decide +kernel) hrtt (by decide +kernel) (by decide +kernel)
  obtain ⟨c, hw, hmin⟩ := h _ hp
  have hc : walkCost relayFleet.edgeCost ⟨"a"⟩ [⟨"r"⟩, ⟨"b"⟩] = some 45 := by decide +kernel
  obtain rfl := Option.some.inj (hw.2.symm.trans hc)
  exact ⟨hp, hmin⟩

end Path

end OCF.Fabric
