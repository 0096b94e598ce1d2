import OCF.Fabric.ShortestPath
import Mathlib.Data.List.Permutation

/-!
# The path search in double precision

The search adds round-trip times as the program does: the distance of a node is a double-precision
value, each sum is rounded, and a sum that is too large becomes infinite. A node whose distance is
infinite counts as one without a distance, and the search ends when it comes to one.

Whatever the weights, `floatPath` visits no node twice and returns hops that lead to the target over
links, without repetition (`floatPath_sound`). But it may miss a target that can be reached, if the
sums on the way overflow. `floatPath_spec_iff` says when it does not: never if no loop-free walk
overflows; only if some loop-free walk to the target does not; and exactly then if no weight is
negative.

Without negative weights the sums grow (`floatSums_growing`), and which of the walks of least sum is
found is what `OCF.Foundations.PreferredWalks` says: the preferred routes are those that some order of
the nodes leads to (`preferredRoute_iff`).
-/

namespace OCF.Fabric

open RouteGraph

namespace RouteGraph

/-! ## What a path should be -/

/-- The target can be reached from the source over nodes that link. -/
def Reachable (g : RouteGraph) (src dst : NodeId) : Prop :=
  src ∈ g.reach ∧ Relation.ReflTransGen (fun a b => g.canLink a b) src dst

/-- The walk leads to the target, and the running sum of its weights, rounded after every edge, stays
finite and ends as `c`. -/
def FloatWalk (g : RouteGraph) (src dst : NodeId) (hops : List NodeId) (c : Binary64) : Prop :=
  g.floatSums.Walk (.finite 0) src dst hops c

/-- No loop-free walk from the source overflows. -/
def NoOverflow (g : RouteGraph) (src : NodeId) : Prop :=
  ∀ u v w hops c, g.FloatWalk src u hops c → (src :: (hops ++ [v])).Nodup →
    g.edgeCost u v = some w → (c.add w).isInfinite = false

/-- What holds whatever the weights: the search ends after visiting every node at most once, a path
that is returned leads to a target that can be reached, without repetition and over links, and the
next hop is that of a path of several hops. -/
structure SoundPath (g : RouteGraph) (order : List NodeId) (src dst : NodeId) : Prop where
  ends : ∃ visits, g.floatSums.Rounds order dst (floatInit src) visits
      (g.floatSums.search order dst order.length (floatInit src)) ∧ visits.Nodup ∧ visits ⊆ order
  reachable : (g.floatPath order src dst).isSome → g.Reachable src dst
  hops : ∀ hops, g.floatPath order src dst = some hops → hops.Nodup ∧ src ∉ hops ∧
    walkEnd src hops = dst ∧ List.IsChain (fun a b => g.canLink a b) (src :: hops)
  nextRelay : g.floatNextRelay order src dst = none ↔
    ∀ hops, g.floatPath order src dst = some hops → hops.length ≤ 1

/-- The whole of it: a path is returned exactly for targets that can be reached. -/
def PathSpec (g : RouteGraph) (order : List NodeId) (src dst : NodeId) : Prop :=
  g.SoundPath order src dst ∧ ((g.floatPath order src dst).isSome ↔ g.Reachable src dst)

/-- The route is one the search may take: the rounded sum of its weights is least among all walks to
the target, and each hop follows one of least rounded sum among the nodes it can follow at its own least
sum, none of which comes earlier on the route. -/
def PreferredRoute (g : RouteGraph) (src dst : NodeId) (hops : List NodeId) : Prop :=
  g.floatSums.Preferred (.finite 0) src dst hops

end RouteGraph

/-! ## Walks whose sums stay finite -/

namespace FloatWalk

variable {g : RouteGraph} {src v : NodeId} {hops : List NodeId} {c : Binary64}

theorem isInfinite_eq_false (h : g.FloatWalk src v hops c) : c.isInfinite = false :=
  h.infinite_eq_false rfl

/-- The running sum is a number of the format. -/
theorem exists_isBinary64 (h : g.FloatWalk src v hops c) : ∃ q, c = .finite q ∧ IsBinary64 q := by
  obtain ⟨q, rfl⟩ := Binary64.isInfinite_eq_false.1 (isInfinite_eq_false h)
  refine ⟨q, rfl, ?_⟩
  generalize hd : Binary64.finite q = d at h
  cases h with
  | nil =>
    obtain rfl : q = 0 := Binary64.finite.inj hd
    exact ⟨0, 0, by norm_num, by norm_num, by norm_num, by norm_num⟩
  | @concat u _ hops c w hwalk =>
    obtain ⟨p, rfl⟩ := Binary64.isInfinite_eq_false.1 (isInfinite_eq_false hwalk)
    exact Binary64.isBinary64_of_round hd.symm

/-- The walk is one of the graph. -/
theorem exists_isWalk (h : g.FloatWalk src v hops c) : ∃ q, IsWalk g.edgeCost src v hops q := by
  induction h with
  | nil => exact ⟨0, isWalk_nil.2 ⟨rfl, rfl⟩⟩
  | @concat u v hops c w _ he _ ih =>
    obtain ⟨q, hq⟩ := ih
    exact ⟨q + w, hq.concat he⟩

/-- Neighbours on the walk can link. -/
theorem isChain (h : g.FloatWalk src v hops c) :
    List.IsChain (fun a b => g.canLink a b) (src :: hops) :=
  (LabelSearch.Walk.isChain h).imp fun _ _ he => (edgeCost_isSome_iff.1 he).2

theorem reachable (h : g.FloatWalk src v hops c) :
    Relation.ReflTransGen (fun a b => g.canLink a b) src v := by
  obtain ⟨q, hq⟩ := exists_isWalk h
  exact reflTransGen_edgeCost_iff.1 (exists_isWalk_iff.1 ⟨hops, q, hq⟩)

end FloatWalk

theorem Reachable.mem {g : RouteGraph} {src dst : NodeId} (h : g.Reachable src dst) :
    src ∈ g.reach ∧ dst ∈ g.reach := by
  refine ⟨h.1, ?_⟩
  cases h.2 with
  | refl => exact h.1
  | tail _ hlink => exact (mem_reach_of_canLink hlink).2

/-- Where no label is below all numbers, an infinite one is above. -/
theorem lt_of_isInfinite {c d : Binary64} (hlow : d ≠ .negInf) (hd : d.isInfinite = true)
    (hc : c.isInfinite = false) : c < d := by
  obtain ⟨q, rfl⟩ := Binary64.isInfinite_eq_false.1 hc
  cases d with
  | negInf => exact absurd rfl hlow
  | finite q => cases hd
  | posInf => exact lt_of_le_of_ne Binary64.le_posInf (by simp)

/-- Rounded sums of non-negative weights grow. -/
theorem floatSums_growing {g : RouteGraph} (hw : ∀ a b w, g.edgeCost a b = some w → 0 ≤ w) :
    g.floatSums.Growing .posInf (.finite 0) where
  start_finite := rfl
  top_infinite := rfl
  start_le := Binary64.le_posInf
  mono _ _ _ h := Binary64.add_mono h
  grow _ u v w _ _ hwalk he := by
    obtain ⟨q, rfl, hq⟩ := FloatWalk.exists_isBinary64 hwalk
    exact Binary64.le_add_of_nonneg hq (hw u v w he)
  high c d hc hinf hd := by
    refine lt_of_isInfinite ?_ hinf hd
    rintro rfl
    exact Binary64.not_finite_le_negInf hc

/-! ## The path -/

section Path

variable {g : RouteGraph} {order hops : List NodeId} {src dst : NodeId}

theorem floatPath_eq (hsrc : src ∈ g.reach) (hdst : dst ∈ g.reach) :
    g.floatPath order src dst = g.floatSums.path .posInf (.finite 0) order src dst := by
  simp [floatPath, hsrc, hdst]

/-- A path is found between nodes of the graph only. -/
theorem mem_reach_of_floatPath (h : g.floatPath order src dst = some hops) :
    src ∈ g.reach ∧ dst ∈ g.reach := by
  unfold floatPath at h
  split_ifs at h with hout
  simpa using hout

/-- The next hop is the first of a path of several hops. -/
theorem floatNextRelay_eq_some {hop : NodeId} :
    g.floatNextRelay order src dst = some hop ↔
      ∃ x rest, g.floatPath order src dst = some (hop :: x :: rest) := by
  unfold floatNextRelay
  cases g.floatPath order src dst with
  | none => simp
  | some hops =>
    obtain _ | ⟨a, _ | ⟨b, rest⟩⟩ := hops
    · simp
    · simp
    · simp

variable (horder : order.Perm g.reach.keys)

include horder

/-- A path that is returned is a loop-free walk whose sums are finite. -/
theorem floatPath_cases (src dst : NodeId) :
    g.floatPath order src dst = none ∨ src ∈ g.reach ∧ ∃ hops c, g.floatPath order src dst = some hops ∧
      g.FloatWalk src dst hops c ∧ (src :: hops).Nodup := by
  by_cases hin : src ∈ g.reach ∧ dst ∈ g.reach
  · rw [floatPath_eq hin.1 hin.2]
    exact (LabelSearch.path_cases (S := g.floatSums) rfl (mem_order_of_edgeCost horder) (.finite 0)
      src dst).imp id fun h => ⟨hin.1, h⟩
  · exact .inl (if_pos (by simpa [imp_iff_not_or] using hin))

theorem floatWalk_of_floatPath (hp : g.floatPath order src dst = some hops) :
    ∃ c, g.FloatWalk src dst hops c ∧ (src :: hops).Nodup := by
  obtain hnone | ⟨-, hops', c, hp', hw, hnodup⟩ := floatPath_cases horder src dst
  · cases hp.symm.trans hnone
  · obtain rfl := Option.some.inj (hp.symm.trans hp')
    exact ⟨c, hw, hnodup⟩

/-- **What holds of a path whatever the weights.** -/
theorem floatPath_sound (src dst : NodeId) : g.SoundPath order src dst := by
  refine ⟨?_, fun hsome => ?_, fun hops hp => ?_, ?_⟩
  · obtain ⟨visits, hrounds, hnodup, hmem⟩ := LabelSearch.rounds_search (S := g.floatSums)
      (l := floatInit src) dst (List.length_filter_le (fun n => !(floatInit src).done n) order)
    exact ⟨visits, hrounds, hnodup, fun x hx => (hmem x hx).1⟩
  · obtain ⟨hops, hp⟩ := Option.isSome_iff_exists.1 hsome
    obtain ⟨c, hw, -⟩ := floatWalk_of_floatPath horder hp
    exact ⟨(mem_reach_of_floatPath hp).1, FloatWalk.reachable hw⟩
  · obtain ⟨c, hw, hnodup⟩ := floatWalk_of_floatPath horder hp
    obtain ⟨hnot, hnodup⟩ := List.nodup_cons.1 hnodup
    exact ⟨hnodup, hnot, LabelSearch.Walk.walkEnd_eq hw, FloatWalk.isChain hw⟩
  · unfold floatNextRelay
    cases g.floatPath order src dst with
    | none => simp
    | some hops => obtain _ | ⟨hop, _ | ⟨x, rest⟩⟩ := hops <;> simp

/-- The three forms of a path to another node. -/
theorem floatPath_forms (hne : src ≠ dst) :
    g.floatPath order src dst = none ∨ g.floatPath order src dst = some [dst] ∨
      ∃ hop x rest, g.floatPath order src dst = some (hop :: x :: rest) ∧ hop ≠ dst ∧
        hop ∈ g.reach := by
  cases hp : g.floatPath order src dst with
  | none => exact .inl rfl
  | some hops =>
    obtain ⟨c, hw, hnodup⟩ := floatWalk_of_floatPath horder hp
    have hend := LabelSearch.Walk.walkEnd_eq hw
    obtain _ | ⟨hop, _ | ⟨x, rest⟩⟩ := hops
    · exact absurd hend hne
    · exact .inr (.inl (congrArg (fun y => some [y]) hend))
    · refine .inr (.inr ⟨hop, x, rest, rfl, ?_, ?_⟩)
      · rintro rfl
        have hmem : hop ∈ x :: rest := by
          have := walkEnd_mem x rest
          rwa [show walkEnd x rest = hop from hend] at this
        exact (List.nodup_cons.1 (List.nodup_cons.1 hnodup).2).1 hmem
      · obtain ⟨a, w, he⟩ := LabelSearch.Walk.exists_edge_of_mem hw (List.mem_cons_self ..)
        exact (mem_reach_of_edgeCost he).2

/-- **Without overflow** a target that can be reached is found. -/
theorem isSome_floatPath_of_noOverflow (hno : g.NoOverflow src) (hreach : g.Reachable src dst) :
    (g.floatPath order src dst).isSome := by
  obtain ⟨hsrc, hdst⟩ := Reachable.mem hreach
  have hmem := mem_order_of_edgeCost horder
  rw [floatPath_eq hsrc hdst]
  refine LabelSearch.isSome_path_of_done (S := g.floatSums) rfl hmem fun _ => ?_
  have htop : g.floatSums.infinite .posInf = true := rfl
  obtain ⟨hok, hdone | ⟨hr, hstop⟩⟩ := LabelSearch.final_spec htop hmem (.finite 0) src dst
  · exact hdone
  have hlow : ∀ x, (g.floatSums.final .posInf (.finite 0) order src dst).dist x ≠ .negInf := by
    refine LabelSearch.search_forall_dist (S := g.floatSums) (P := fun d => d ≠ Binary64.negInf)
      (fun u v w hops c hw hnodup he h => ?_) _
      (LabelSearch.ok_init (S := g.floatSums) rfl (.finite 0) src) fun x => ?_
    · have hfinite := hno u v w hops c hw hnodup he
      rw [show c.add w = .negInf from h] at hfinite
      cases hfinite
    · rw [LabelSearch.init_dist]
      split_ifs <;> simp
  exact LabelSearch.done_of_reachable hmem (horder.mem_iff.2 (AList.mem_keys.1 hsrc)) rfl hok hr hstop
    (fun x c hinf hc => lt_of_isInfinite (hlow x) hinf hc)
    (fun u v w hops hw hnodup he => hno u v w hops _ hw hnodup he)
    (reflTransGen_edgeCost_iff.2 hreach.2)

end Path

/-! ## Without negative weights -/

/-- A route with a hop is between nodes of the graph. -/
theorem PreferredRoute.mem_reach {g : RouteGraph} {src dst : NodeId} {hops : List NodeId}
    (h : g.PreferredRoute src dst hops) (hne : src ≠ dst) :
    src ∈ g.reach ∧ dst ∈ g.reach := by
  have hfirst : ∀ {v hops}, g.PreferredRoute src v hops → src ≠ v → src ∈ g.reach := by
    intro v hops h hne
    induction h with
    | nil => exact absurd rfl hne
    | @concat u v hops _ _ htight _ ih =>
      obtain ⟨-, w, -, he, -⟩ := htight
      by_cases hu : src = u
      · exact hu ▸ (mem_reach_of_edgeCost he).1
      · exact ih hu
  have hdst : dst ∈ hops := (List.mem_cons.1 h.mem).resolve_left (Ne.symm hne)
  obtain ⟨u, w, he⟩ := h.exists_edge_of_mem hdst
  exact ⟨hfirst h hne, (mem_reach_of_edgeCost he).2⟩

section Nonneg

variable {g : RouteGraph} {order hops : List NodeId} {src dst : NodeId}
  (hrtt : ∀ e ms, g.rtt.lookup e = some ms → 0 ≤ ms)

include hrtt

theorem floatSums_growing_of_rtt : g.floatSums.Growing .posInf (.finite 0) :=
  floatSums_growing fun _ _ _ => edgeCost_nonneg hrtt

/-- A target is found if and only if some walk to it does not overflow. -/
theorem isSome_floatPath_iff (horder : order.Perm g.reach.keys) (hsrc : src ∈ g.reach)
    (hdst : dst ∈ g.reach) :
    (g.floatPath order src dst).isSome ↔ ∃ hops c, g.FloatWalk src dst hops c := by
  rw [floatPath_eq hsrc hdst]
  exact (floatSums_growing_of_rtt hrtt).isSome_path_iff (mem_order_of_edgeCost horder)
    (horder.mem_iff.2 (AList.mem_keys.1 hsrc)) dst

theorem preferredRoute_of_floatPath (horder : order.Perm g.reach.keys)
    (hp : g.floatPath order src dst = some hops) : g.PreferredRoute src dst hops := by
  obtain ⟨hsrc, hdst⟩ := mem_reach_of_floatPath hp
  rw [floatPath_eq hsrc hdst] at hp
  exact (floatSums_growing_of_rtt hrtt).preferred_of_path (mem_order_of_edgeCost horder)
    (horder.mem_iff.2 (AList.mem_keys.1 hsrc)) hp

/-- **The preferred routes** are the paths that are found in some order of the nodes. -/
theorem preferredRoute_iff (hsrc : src ∈ g.reach) (hdst : dst ∈ g.reach) :
    g.PreferredRoute src dst hops ↔
      ∃ order, order.Perm g.reach.keys ∧ g.floatPath order src dst = some hops := by
  constructor
  · intro h
    obtain ⟨order, horder, hp⟩ := (floatSums_growing_of_rtt hrtt).exists_order_of_preferred
      g.reach.nodupKeys (mem_order_of_edgeCost (.refl _)) (AList.mem_keys.1 hsrc) h
    exact ⟨order, horder, (floatPath_eq hsrc hdst).trans hp⟩
  · rintro ⟨order, horder, hp⟩
    exact preferredRoute_of_floatPath hrtt horder hp

/-- **The direct hop** is found exactly when its rounded cost is least among all walks. -/
theorem floatPath_eq_direct_iff (horder : order.Perm g.reach.keys) (hne : src ≠ dst) :
    g.floatPath order src dst = some [dst] ↔
      ∃ w, g.edgeCost src dst = some w ∧ g.FloatWalk src dst [dst] (.round w) ∧
        ∀ hops c, g.FloatWalk src dst hops c → .round w ≤ c := by
  have hzero : ∀ w, g.floatSums.add (.finite 0) w = .round w := fun w =>
    congrArg Binary64.round (zero_add w)
  constructor
  · intro hp
    obtain ⟨hsrc, hdst⟩ := mem_reach_of_floatPath hp
    rw [floatPath_eq hsrc hdst, (floatSums_growing_of_rtt hrtt).path_eq_direct_iff
      (mem_order_of_edgeCost horder) (horder.mem_iff.2 (AList.mem_keys.1 hsrc)) hne] at hp
    obtain ⟨w, he, ⟨hops, hw⟩, hmin⟩ := hp
    have hfinite := FloatWalk.isInfinite_eq_false hw
    rw [hzero] at hmin
    exact ⟨w, he, hzero w ▸ LabelSearch.Walk.nil.concat he hfinite, hmin⟩
  · rintro ⟨w, he, hw, hmin⟩
    obtain ⟨hsrc, hdst⟩ := mem_reach_of_edgeCost he
    rw [floatPath_eq hsrc hdst, (floatSums_growing_of_rtt hrtt).path_eq_direct_iff
      (mem_order_of_edgeCost horder) (horder.mem_iff.2 (AList.mem_keys.1 hsrc)) hne]
    refine ⟨w, he, ?_⟩
    rw [hzero]
    exact ⟨⟨_, hw⟩, hmin⟩

end Nonneg

/-! ## When the paths are right -/

/-- **When the paths are right.** For every graph, with weights of any sign, and two nodes: if no
loop-free walk from the source overflows, the paths are right in every order of the nodes; if they are
right in some order, the target is out of reach or some loop-free walk to it does not overflow; and
if no weight is negative, they are right in every order if and only if the target is out of reach or
some walk to it does not overflow. -/
theorem floatPath_spec_iff (g : RouteGraph) (src dst : NodeId) :
    (g.NoOverflow src → ∀ order, order.Perm g.reach.keys → g.PathSpec order src dst) ∧
    ((∃ order, order.Perm g.reach.keys ∧ g.PathSpec order src dst) → g.Reachable src dst →
      ∃ hops c, g.FloatWalk src dst hops c ∧ (src :: hops).Nodup) ∧
    ((∀ e ms, g.rtt.lookup e = some ms → 0 ≤ ms) →
      ((∀ order, order.Perm g.reach.keys → g.PathSpec order src dst) ↔
        (g.Reachable src dst → ∃ hops c, g.FloatWalk src dst hops c))) := by
  have hnecessary : (∃ order, order.Perm g.reach.keys ∧ g.PathSpec order src dst) →
      g.Reachable src dst → ∃ hops c, g.FloatWalk src dst hops c ∧ (src :: hops).Nodup := by
    rintro ⟨order, horder, -, hiff⟩ hreach
    obtain hnone | ⟨-, hops, c, -, hw, hnodup⟩ := floatPath_cases horder src dst
    · have hsome := hiff.2 hreach
      rw [hnone] at hsome
      cases hsome
    · exact ⟨hops, c, hw, hnodup⟩
  refine ⟨fun hno order horder => ?_, hnecessary,
    fun hrtt => ⟨fun h hreach => ?_, fun h order horder => ?_⟩⟩
  · have hsound := floatPath_sound horder src dst
    exact ⟨hsound, hsound.reachable, isSome_floatPath_of_noOverflow horder hno⟩
  · obtain ⟨hops, c, hw, -⟩ := hnecessary ⟨_, .refl _, h _ (.refl _)⟩ hreach
    exact ⟨hops, c, hw⟩
  · have hsound := floatPath_sound horder src dst
    refine ⟨hsound, hsound.reachable, fun hreach => ?_⟩
    obtain ⟨hops, c, hw⟩ := h hreach
    obtain ⟨hsrc, hdst⟩ := Reachable.mem hreach
    exact (isSome_floatPath_iff hrtt horder hsrc hdst).2 ⟨hops, c, hw⟩

/-- From `a` to `b` through `r` the sum is 45 ms, so every order finds a path. -/
theorem floatPath_spec_iff_relayFleet :
    relayFleet.Reachable ⟨"a"⟩ ⟨"b"⟩ ∧
      ∀ order, order.Perm relayFleet.reach.keys → relayFleet.PathSpec order ⟨"a"⟩ ⟨"b"⟩ := by
  have hrtt : ∀ e ms, relayFleet.rtt.lookup e = some ms → 0 ≤ ms := by
    have hall : ∀ p ∈ HashMap.pairs relayFleet.rtt, 0 ≤ p.2 := by decide +kernel
    exact fun e ms h => hall (e, ms) (HashMap.mem_pairs.2 h)
  have hlinks : relayFleet.canLink ⟨"a"⟩ ⟨"r"⟩ ∧ relayFleet.canLink ⟨"r"⟩ ⟨"b"⟩ := by decide +kernel
  have hwalk : relayFleet.FloatWalk ⟨"a"⟩ ⟨"b"⟩ ([] ++ [⟨"r"⟩] ++ [⟨"b"⟩])
      (((Binary64.finite 0).add 40).add 5) :=
    (LabelSearch.Walk.nil.concat (by decide +kernel) (by decide +kernel)).concat (by decide +kernel)
      (by decide +kernel)
  exact ⟨⟨by decide +kernel, .tail (.single hlinks.1) hlinks.2⟩,
    ((floatPath_spec_iff relayFleet ⟨"a"⟩ ⟨"b"⟩).2.2 hrtt).2 fun _ => ⟨_, _, hwalk⟩⟩

/-- Two private nodes with a relay, which is very far from both. -/
def farFleet : RouteGraph where
  reach := [⟨⟨"a"⟩, .priv⟩, ⟨⟨"b"⟩, .priv⟩, ⟨⟨"r"⟩, .relay⟩].toAList
  rtt := [⟨(⟨"a"⟩, ⟨"r"⟩), 2 ^ 1023⟩, ⟨(⟨"r"⟩, ⟨"b"⟩), 2 ^ 1023⟩].toAList

/-- The two times are numbers, but their sum is not: `b` can be reached from `a` and is not found. -/
theorem reachable_not_found :
    (∀ e ms, farFleet.rtt.lookup e = some ms → IsBinary64 ms) ∧ farFleet.Reachable ⟨"a"⟩ ⟨"b"⟩ ∧
      ∀ order, order.Perm farFleet.reach.keys → farFleet.floatPath order ⟨"a"⟩ ⟨"b"⟩ = none ∧
        ¬farFleet.PathSpec order ⟨"a"⟩ ⟨"b"⟩ := by
  have hlinks : farFleet.canLink ⟨"a"⟩ ⟨"r"⟩ ∧ farFleet.canLink ⟨"r"⟩ ⟨"b"⟩ := by decide +kernel
  have hreach : farFleet.Reachable ⟨"a"⟩ ⟨"b"⟩ :=
    ⟨by decide +kernel, .tail (.single hlinks.1) hlinks.2⟩
  have hnone : ∀ order ∈ farFleet.reach.keys.permutations',
      farFleet.floatPath order ⟨"a"⟩ ⟨"b"⟩ = none := by decide +kernel
  refine ⟨fun e ms h => ?_, hreach, fun order horder => ?_⟩
  · have hall : ∀ p ∈ HashMap.pairs farFleet.rtt, p.2 = 2 ^ 1023 := by decide +kernel
    rw [show ms = 2 ^ 1023 from hall (e, ms) (HashMap.mem_pairs.2 h)]
    refine ⟨2 ^ 52, 971, by norm_num, by norm_num, by norm_num, ?_⟩
    rw [Int.cast_pow, ← zpow_natCast, ← zpow_natCast, Int.cast_ofNat, ← zpow_add₀ two_ne_zero]
    norm_num
  · have hp := hnone order (List.mem_permutations'.2 horder)
    refine ⟨hp, fun hspec => ?_⟩
    have hsome := hspec.2.2 hreach
    rw [hp] at hsome
    cases hsome

end OCF.Fabric
