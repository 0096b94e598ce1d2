import OCF.Fabric.FloatPaths
import Mathlib.Tactic.Linarith

/-!
# Which nodes a path goes through

A packet that goes through an intermediate hop needs that hop to forward it, and only relays enable
forwarding. The search expands every node it finishes, whatever its reachability, so an intermediate
hop may be a public or a private node: two private nodes with a public one between them are routed
through it.

`transit_relay_iff` says for which reachabilities this cannot happen whatever the round-trip times
are: no node besides the two ends is anything but a relay, or the others that are not relays are private
and there is at most one node they can link with. For given times, it cannot happen exactly when all
preferred routes go through relays only.
-/

namespace OCF.Fabric

open RouteGraph

/-- Every node the route goes through is a relay. -/
def ThroughRelays (reach : HashMap NodeId Reachability) (hops : List NodeId) : Prop :=
  ∀ n ∈ hops.dropLast, reach.lookup n = some .relay

/-- Every intermediate hop of the path is a relay, and so is the node `floatNextRelay` names. -/
def RouteGraph.TransitOk (g : RouteGraph) (order : List NodeId) (src dst : NodeId) : Prop :=
  (∀ hops, g.floatPath order src dst = some hops → ThroughRelays g.reach hops) ∧
    ∀ n, g.floatNextRelay order src dst = some n → g.reach.lookup n = some .relay

/-- Nothing but relays can stand between the two nodes: they are not two known nodes, all the others
are relays, or the others are relays and private nodes and at most one node is not private. -/
def OnlyRelaysBetween (reach : HashMap NodeId Reachability) (src dst : NodeId) : Prop :=
  (src ∈ reach → dst ∈ reach → src = dst) ∨
    (∀ n r, n ≠ src → n ≠ dst → reach.lookup n = some r → r = .relay) ∨
    (∀ n, n ≠ src → n ≠ dst → reach.lookup n ≠ some .pub) ∧
      ∀ m n r r', reach.lookup m = some r → reach.lookup n = some r' → r ≠ .priv → r' ≠ .priv → m = n

variable {g : RouteGraph} {reach : HashMap NodeId Reachability} {order : List NodeId}
  {src dst : NodeId}

/-- The next hop of a path of several hops is one of its intermediate hops. -/
theorem transitOk_iff :
    g.TransitOk order src dst ↔
      ∀ hops, g.floatPath order src dst = some hops → ThroughRelays g.reach hops := by
  refine ⟨And.left, fun h => ⟨h, fun n hn => ?_⟩⟩
  obtain ⟨x, rest, hp⟩ := floatNextRelay_eq_some.1 hn
  exact h _ hp n (by simp)

/-! ## The reachabilities for which every path is fine -/

/-- A link needs an end that is not private. -/
theorem canLink_iff {a b : NodeId} :
    g.canLink a b ↔ ∃ ra rb, g.reach.lookup a = some ra ∧ g.reach.lookup b = some rb ∧
      (ra ≠ .priv ∨ rb ≠ .priv) := by
  unfold canLink
  cases g.reach.lookup a with
  | none => simp
  | some ra =>
    cases g.reach.lookup b with
    | none => simp
    | some rb => simp

/-- An intermediate hop of a loop-free walk is neither end. -/
theorem ne_of_mem_dropLast {hops : List NodeId} {c : ℚ} {n : NodeId}
    (hw : IsWalk g.edgeCost src dst hops c) (hnodup : (src :: hops).Nodup) (hn : n ∈ hops.dropLast) :
    n ≠ src ∧ n ≠ dst := by
  rw [List.nodup_cons] at hnodup
  refine ⟨?_, ?_⟩
  · rintro rfl
    exact hnodup.1 (List.dropLast_subset hops hn)
  · rintro rfl
    have hne : hops ≠ [] := by
      rintro rfl
      simp at hn
    have hlast := hw.1 ▸ dropLast_append_walkEnd src hne
    rw [← hlast, List.nodup_append] at hnodup
    exact hnodup.2.2.2 n hn n (List.mem_singleton_self n) rfl

/-- A private node inside a loop-free walk has two neighbours that are not private. -/
theorem exists_ne_of_priv {hops : List NodeId} {c : ℚ} {n : NodeId}
    (hw : IsWalk g.edgeCost src dst hops c) (hnodup : (src :: hops).Nodup) (hn : n ∈ hops.dropLast)
    (hpriv : g.reach.lookup n = some .priv) :
    ∃ p q r r', g.reach.lookup p = some r ∧ g.reach.lookup q = some r' ∧ r ≠ .priv ∧ r' ≠ .priv ∧
      p ≠ q := by
  obtain ⟨l, q, rest, rfl⟩ := exists_append_of_mem_dropLast hn
  obtain ⟨hin, hout⟩ := hw.edges_through
  obtain ⟨rp, _, hp, hn', hpn⟩ := canLink_iff.1 (edgeCost_isSome_iff.1 hin).2
  obtain ⟨_, rq, hn'', hq, hnq⟩ := canLink_iff.1 (edgeCost_isSome_iff.1 hout).2
  obtain rfl := Option.some.inj (hpriv.symm.trans hn')
  obtain rfl := Option.some.inj (hpriv.symm.trans hn'')
  refine ⟨walkEnd src l, q, rp, rq, hp, hq, by simpa using hpn, by simpa using hnq, ?_⟩
  rw [← List.cons_append, List.nodup_append] at hnodup
  exact hnodup.2.2 _ (walkEnd_mem src l) q (by simp)

theorem throughRelays_of_onlyRelaysBetween (hsrc : src ∈ g.reach) (hdst : dst ∈ g.reach)
    (h : OnlyRelaysBetween g.reach src dst) {hops : List NodeId} {c : ℚ}
    (hw : IsWalk g.edgeCost src dst hops c) (hnodup : (src :: hops).Nodup) :
    ThroughRelays g.reach hops := by
  intro n hn
  obtain ⟨hns, hnd⟩ := ne_of_mem_dropLast hw hnodup hn
  obtain ⟨u, d, he⟩ := hw.exists_edge_of_mem (List.dropLast_subset hops hn)
  obtain ⟨r, hr⟩ := HashMap.mem_iff_exists_lookup.1 (mem_reach_of_edgeCost he).2
  rw [hr]
  obtain heq | hall | ⟨hpub, hone⟩ := h
  · -- a walk from a node to itself without a loop has no hops
    obtain rfl := heq hsrc hdst
    have hmem : src ∈ hops := by
      rcases List.mem_cons.1 (walkEnd_mem src hops) with hend | hend
      · cases hops with
        | nil => simp at hn
        | cons a rest => exact hw.1 ▸ walkEnd_mem a rest
      · exact hw.1 ▸ hend
    exact absurd hmem (List.nodup_cons.1 hnodup).1
  · rw [hall n r hns hnd hr]
  · cases r with
    | pub => exact absurd hr (hpub n hns hnd)
    | priv =>
      obtain ⟨p, q, rp, rq, hp, hq, hp', hq', hne⟩ := exists_ne_of_priv hw hnodup hn hr
      exact absurd (hone p q rp rq hp hq hp' hq') hne
    | relay => rfl

/-! ## Times that lead through another node -/

/-- The edges from `src` over `p`, `x` and `q` to `dst`. -/
def wayThrough (src p x q dst : NodeId) : List (NodeId × NodeId) :=
  [(src, p), (p, x), (x, q), (q, dst)]

/-- One millisecond measured on every edge of a list. -/
def oneMs (es : List (NodeId × NodeId)) : HashMap (NodeId × NodeId) ℚ :=
  (es.map fun e => ⟨e, 1⟩).toAList

theorem lookup_oneMs (es : List (NodeId × NodeId)) (e : NodeId × NodeId) :
    (oneMs es).lookup e = if e ∈ es then some 1 else none := by
  change List.dlookup e (List.dedupKeys _) = _
  rw [List.dlookup_dedupKeys]
  induction es with
  | nil => rfl
  | cons a es ih =>
    rw [List.map_cons]
    by_cases h : a = e
    · subst h
      simp
    · rw [List.dlookup_cons_ne _ _ (Ne.symm h), ih]
      simp [Ne.symm h]

section WayThrough

variable {es : List (NodeId × NodeId)} {a b p x q : NodeId}

theorem edgeCost_oneMs_of_mem (hne : a ≠ b) (hlink : canLink ⟨reach, oneMs es⟩ a b)
    (he : (a, b) ∈ es) : edgeCost ⟨reach, oneMs es⟩ a b = some 1 := by
  simp [edgeCost, hne, hlink, lookup_oneMs, he]

/-- An edge that is not on the list in either direction costs the default. -/
theorem mem_of_edgeCost_lt {c : ℚ} (h : edgeCost ⟨reach, oneMs es⟩ a b = some c)
    (hc : c < defaultEdgeMs) : (a, b) ∈ es ∨ (b, a) ∈ es := by
  by_contra hn
  rw [not_or] at hn
  unfold edgeCost at h
  split_ifs at h
  simp only [lookup_oneMs, hn.1, hn.2, if_false, Option.or_none, Option.getD_none,
    Option.some.injEq] at h
  exact absurd hc (h ▸ lt_irrefl _)

theorem oneMs_nonneg (e : NodeId × NodeId) (ms : ℚ) (h : (oneMs es).lookup e = some ms) :
    0 ≤ ms := by
  rw [lookup_oneMs] at h
  split_ifs at h
  obtain rfl := Option.some.inj h
  exact zero_le_one

/-- Small integers are added up without rounding. -/
theorem add_one_of_lt {k : ℕ} (hk : k < 4) : (Binary64.finite k).add 1 = .finite (k + 1 : ℕ) := by
  rw [Nat.cast_add_one]
  refine Binary64.round_of_isBinary64 ⟨k + 1, 0, ?_, by norm_num, by norm_num, by simp⟩
  rw [abs_of_nonneg (by omega)]
  omega

/-- One more edge of a list, or none when the node stays. -/
theorem exists_floatWalk_step {hops : List NodeId} {k : ℕ} (hk : k < 4)
    (hw : FloatWalk ⟨reach, oneMs es⟩ src a hops (.finite k))
    (hstep : a = b ∨ canLink ⟨reach, oneMs es⟩ a b) (he : (a, b) ∈ es) :
    ∃ hops' k', FloatWalk ⟨reach, oneMs es⟩ src b hops' (.finite (k' : ℕ)) ∧ k' ≤ k + 1 := by
  by_cases hab : a = b
  · exact ⟨hops, k, hab ▸ hw, Nat.le_succ k⟩
  · have hedge := edgeCost_oneMs_of_mem hab (hstep.resolve_left hab) he
    refine ⟨hops ++ [b], k + 1, ?_, le_rfl⟩
    rw [← add_one_of_lt hk]
    refine hw.concat hedge ?_
    change ((Binary64.finite k).add 1).isInfinite = false
    rw [add_one_of_lt hk]
    rfl

/-- The nodes can be passed in this order. -/
structure Passes (reach : HashMap NodeId Reachability) (src p x q dst : NodeId) : Prop where
  first : src = p ∨ canLink ⟨reach, ∅⟩ src p
  into : canLink ⟨reach, ∅⟩ p x
  outOf : canLink ⟨reach, ∅⟩ x q
  last : q = dst ∨ canLink ⟨reach, ∅⟩ q dst
  inside : x ≠ src ∧ x ≠ p ∧ x ≠ dst
  beyond : q ≠ src ∧ q ≠ p ∧ dst ≠ src ∧ dst ≠ p

theorem Passes.exists_floatWalk (h : Passes reach src p x q dst) :
    ∃ hops k, FloatWalk ⟨reach, oneMs (wayThrough src p x q dst)⟩ src dst hops (.finite (k : ℕ)) ∧
      k ≤ 4 := by
  have h₀ : FloatWalk ⟨reach, oneMs (wayThrough src p x q dst)⟩ src src [] (.finite (0 : ℕ)) := by
    rw [Nat.cast_zero]
    exact .nil
  obtain ⟨_, k₁, h₁, hk₁⟩ := exists_floatWalk_step (by omega) h₀ h.first (by simp [wayThrough])
  obtain ⟨_, k₂, h₂, hk₂⟩ := exists_floatWalk_step (by omega) h₁ (.inr h.into) (by simp [wayThrough])
  obtain ⟨_, k₃, h₃, hk₃⟩ := exists_floatWalk_step (by omega) h₂ (.inr h.outOf) (by simp [wayThrough])
  obtain ⟨hops, k₄, h₄, hk₄⟩ := exists_floatWalk_step (by omega) h₃ h.last (by simp [wayThrough])
  exact ⟨hops, k₄, h₄, by omega⟩

/-- The default of an edge is a number of the format. -/
theorem round_defaultEdgeMs : Binary64.round defaultEdgeMs = .finite defaultEdgeMs :=
  Binary64.round_of_isBinary64
    ⟨1000, 0, by norm_num, by norm_num, by norm_num, by norm_num [defaultEdgeMs]⟩

/-- From the side of `src` the measured edges lead on through `x` only. -/
theorem Passes.mem_of_lt (h : Passes reach src p x q dst) {hops : List NodeId} {c : Binary64}
    (hw : FloatWalk ⟨reach, oneMs (wayThrough src p x q dst)⟩ src dst hops c)
    (hc : c < .finite defaultEdgeMs) : x ∈ hops := by
  obtain ⟨hxs, hxp, -⟩ := h.inside
  obtain ⟨hqs, hqp, hds, hdp⟩ := h.beyond
  have hS := floatSums_growing_of_rtt (g := ⟨reach, oneMs (wayThrough src p x q dst)⟩) oneMs_nonneg
  refine (LabelSearch.Walk.mem_of_cut (P := fun n => n = src ∨ n = p) (hS.grow src) (.inl rfl) ?_ hw
    hc).resolve_left (by simp [hds, hdp])
  intro u v w hops c hu hwalk he hlt
  -- an edge at the default would take the sum to the bound at once
  have hw : w < defaultEdgeMs := by
    by_contra hle
    have hround : Binary64.finite defaultEdgeMs ≤ (Binary64.finite 0).add w := by
      rw [← round_defaultEdgeMs, show (Binary64.finite 0).add w = .round w from
        congrArg Binary64.round (zero_add w)]
      exact Binary64.round_mono (not_lt.1 hle)
    exact absurd hlt (not_lt.2 (hround.trans (Binary64.add_mono (hS.start_le_walk hwalk))))
  have hmem := mem_of_edgeCost_lt he hw
  simp only [wayThrough, List.mem_cons, Prod.mk.injEq, List.not_mem_nil, or_false] at hmem
  obtain rfl | rfl := hu
  all_goals grind

/-- Some measured times make the path go through `x`. -/
theorem Passes.exists_path (h : Passes reach src p x q dst) (hsrc : src ∈ reach)
    (hdst : dst ∈ reach) :
    ∃ hops, floatPath ⟨reach, oneMs (wayThrough src p x q dst)⟩ reach.keys src dst = some hops ∧
      x ∈ hops.dropLast := by
  obtain ⟨hops', k, hw', hk⟩ := h.exists_floatWalk
  obtain ⟨hops, hp⟩ := Option.isSome_iff_exists.1 ((isSome_floatPath_iff
    (g := ⟨reach, oneMs (wayThrough src p x q dst)⟩) oneMs_nonneg (.refl _) hsrc hdst).2
    ⟨hops', _, hw'⟩)
  obtain ⟨c, hw, -, hmin⟩ := (preferredRoute_of_floatPath oneMs_nonneg (.refl _) hp).exists_walk
    (floatSums_growing_of_rtt oneMs_nonneg)
  have hlt : c < .finite defaultEdgeMs := by
    refine (hmin hops' _ hw').trans_lt (Binary64.finite_lt_finite.2 ?_)
    have hk' : (k : ℚ) ≤ 4 := by exact_mod_cast hk
    exact hk'.trans_lt (by norm_num [defaultEdgeMs])
  have hx := h.mem_of_lt hw hlt
  have hlast := LabelSearch.Walk.walkEnd_eq hw ▸ dropLast_append_walkEnd src (List.ne_nil_of_mem hx)
  rw [← hlast, List.mem_append, List.mem_singleton] at hx
  exact ⟨hops, hp, hx.resolve_right h.inside.2.2⟩

end WayThrough

/-- Where something else than a relay can stand between the two nodes, there is a way through it. -/
theorem exists_passes (hsrc : src ∈ reach) (hdst : dst ∈ reach)
    (h : ¬ OnlyRelaysBetween reach src dst) :
    ∃ p x q r, Passes reach src p x q dst ∧ reach.lookup x = some r ∧ r ≠ .relay := by
  rw [OnlyRelaysBetween, not_or, not_or] at h
  obtain ⟨hne, hall, hfew⟩ := h
  replace hne : src ≠ dst := fun heq => hne fun _ _ => heq
  obtain ⟨rs, hs⟩ := HashMap.mem_iff_exists_lookup.1 hsrc
  obtain ⟨rd, hd⟩ := HashMap.mem_iff_exists_lookup.1 hdst
  by_cases hpub : ∃ n, n ≠ src ∧ n ≠ dst ∧ reach.lookup n = some .pub
  · -- a public node links with both ends
    obtain ⟨x, hxs, hxd, hx⟩ := hpub
    refine ⟨src, x, dst, .pub, ?_, hx, by decide⟩
    exact ⟨.inl rfl, canLink_iff.2 ⟨rs, .pub, hs, hx, .inr (by decide)⟩,
      canLink_iff.2 ⟨.pub, rd, hx, hd, .inl (by decide)⟩, .inl rfl, ⟨hxs, hxs, hxd⟩,
      ⟨hne.symm, hne.symm, hne.symm, hne.symm⟩⟩
  · -- a private node needs a neighbour on either side
    push Not at hall
    obtain ⟨x, r, hxs, hxd, hx, hr⟩ := hall
    obtain rfl : r = .priv := by
      cases r with
      | pub => exact absurd ⟨x, hxs, hxd, hx⟩ hpub
      | priv => rfl
      | relay => exact absurd rfl hr
    have htwo : ∃ p q rp rq, reach.lookup p = some rp ∧ reach.lookup q = some rq ∧ rp ≠ .priv ∧
        rq ≠ .priv ∧ p ≠ q ∧ p ≠ dst ∧ q ≠ src := by
      push Not at hpub
      rw [not_and] at hfew
      have hex := hfew hpub
      push Not at hex
      obtain ⟨m, n, rm, rn, hm, hn, hrm, hrn, hmn⟩ := hex
      by_cases hord : m ≠ dst ∧ n ≠ src
      · exact ⟨m, n, rm, rn, hm, hn, hrm, hrn, hmn, hord.1, hord.2⟩
      · exact ⟨n, m, rn, rm, hn, hm, hrn, hrm, hmn.symm, by grind, by grind⟩
    obtain ⟨p, q, rp, rq, hp, hq, hrp, hrq, hpq, hpd, hqs⟩ := htwo
    have hxp : x ≠ p := by
      rintro rfl
      exact hrp (Option.some.inj (hp.symm.trans hx))
    refine ⟨p, x, q, .priv, ?_, hx, by decide⟩
    exact ⟨.inr (canLink_iff.2 ⟨rs, rp, hs, hp, .inr hrp⟩),
      canLink_iff.2 ⟨rp, .priv, hp, hx, .inl hrp⟩, canLink_iff.2 ⟨.priv, rq, hx, hq, .inr hrq⟩,
      .inr (canLink_iff.2 ⟨rq, rd, hq, hd, .inl hrq⟩), ⟨hxs, hxp, hxd⟩,
      ⟨hqs, hpq.symm, hne.symm, hpd.symm⟩⟩

/-! ## When the intermediate hops are relays -/

/-- **Relays in between.** For every round-trip time and every order the intermediate hops are relays,
if and only if nothing else can stand between the two nodes. For given times, none of which is
negative, they are relays in every order if and only if all preferred routes go through relays only. -/
theorem transit_relay_iff (reach : HashMap NodeId Reachability) (src dst : NodeId) :
    ((∀ rtt order, order.Perm reach.keys → RouteGraph.TransitOk ⟨reach, rtt⟩ order src dst) ↔
      OnlyRelaysBetween reach src dst) ∧
    ∀ rtt, (∀ e ms, rtt.lookup e = some ms → 0 ≤ ms) →
      ((∀ order, order.Perm reach.keys → RouteGraph.TransitOk ⟨reach, rtt⟩ order src dst) ↔
        ∀ hops, PreferredRoute ⟨reach, rtt⟩ src dst hops → ThroughRelays reach hops) := by
  refine ⟨⟨fun h => ?_, fun h rtt order horder => ?_⟩, fun rtt hrtt => ⟨fun h hops hpref => ?_,
    fun h order horder => ?_⟩⟩
  · by_contra hn
    have hmem : src ∈ reach ∧ dst ∈ reach := by
      by_contra hmem
      exact hn (.inl fun hs hd => absurd ⟨hs, hd⟩ hmem)
    obtain ⟨p, x, q, r, hpass, hx, hr⟩ := exists_passes hmem.1 hmem.2 hn
    obtain ⟨hops, hp, hin⟩ := hpass.exists_path hmem.1 hmem.2
    have hrelay := (h _ _ (.refl _)).1 hops hp x hin
    exact hr (Option.some.inj (hx.symm.trans hrelay))
  · refine transitOk_iff.2 fun hops hp => ?_
    obtain ⟨hsrc, hdst⟩ := mem_reach_of_floatPath hp
    obtain ⟨c, hw, hnodup⟩ := floatWalk_of_floatPath horder hp
    obtain ⟨q, hq⟩ := FloatWalk.exists_isWalk hw
    exact throughRelays_of_onlyRelaysBetween hsrc hdst h hq hnodup
  · by_cases hne : src = dst
    · subst hne
      cases hpref with
      | nil =>
        intro n hn
        simp at hn
      | concat _ hv _ _ => exact absurd (List.mem_cons_self ..) hv
    · obtain ⟨hsrc, hdst⟩ := PreferredRoute.mem_reach hpref hne
      obtain ⟨order, horder, hp⟩ := (preferredRoute_iff hrtt hsrc hdst).1 hpref
      exact (h order horder).1 hops hp
  · exact transitOk_iff.2 fun hops hp => h hops (preferredRoute_of_floatPath hrtt horder hp)

/-- Two private nodes with a public one. -/
def publicBetween : RouteGraph where
  reach := [⟨⟨"a"⟩, .priv⟩, ⟨⟨"p"⟩, .pub⟩, ⟨⟨"b"⟩, .priv⟩].toAList
  rtt := ∅

theorem path_through_public :
    ¬ ∀ (g : RouteGraph) (order : List NodeId) (src dst : NodeId), order.Perm g.reach.keys →
      g.TransitOk order src dst := by
  intro h
  have hp : publicBetween.floatPath publicBetween.reach.keys ⟨"a"⟩ ⟨"b"⟩ = some [⟨"p"⟩, ⟨"b"⟩] := by
    decide +kernel
  have hrelay := (h publicBetween _ ⟨"a"⟩ ⟨"b"⟩ (.refl _)).1 _ hp ⟨"p"⟩ (by decide)
  exact absurd hrelay (by decide)

/-- Between two private nodes, relays are taken where the others are relays, and the public node where
there is nothing else. -/
theorem transit_relay_iff_fleets :
    relayFleet.TransitOk [⟨"s"⟩, ⟨"b"⟩, ⟨"r"⟩, ⟨"a"⟩] ⟨"a"⟩ ⟨"b"⟩ ∧
      ¬ ∀ hops, publicBetween.PreferredRoute ⟨"a"⟩ ⟨"b"⟩ hops →
        ThroughRelays publicBetween.reach hops := by
  constructor
  · refine (transit_relay_iff relayFleet.reach ⟨"a"⟩ ⟨"b"⟩).1.2 (.inr (.inl ?_)) relayFleet.rtt _
      (by decide +kernel)
    intro n r hna hnb hr
    have hall : ∀ e ∈ HashMap.pairs relayFleet.reach, e.1 ≠ ⟨"a"⟩ → e.1 ≠ ⟨"b"⟩ → e.2 = .relay := by
      decide +kernel
    exact hall (n, r) (HashMap.mem_pairs.2 hr) hna hnb
  · intro h
    have hrtt : ∀ e ms, publicBetween.rtt.lookup e = some ms → 0 ≤ ms := by
      intro e ms he
      cases he
    have hok := ((transit_relay_iff publicBetween.reach ⟨"a"⟩ ⟨"b"⟩).2 publicBetween.rtt hrtt).2 h
      _ (.refl _)
    have hp : publicBetween.floatPath publicBetween.reach.keys ⟨"a"⟩ ⟨"b"⟩ =
        some [⟨"p"⟩, ⟨"b"⟩] := by decide +kernel
    exact absurd (hok.1 _ hp ⟨"p"⟩ (by decide)) (by decide)

end OCF.Fabric
