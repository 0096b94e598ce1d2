import OCF.Api.LbBackends

/-!
# The latency policy and the nodes nobody measured

A backend is stamped with the round-trip time measured to its node. When there is none, it keeps the
latency a new backend has, which is zero: the policy takes a node it knows nothing about for the
nearest one.

`latency_measured_iff` says when the backend chosen is the measured one with the least round-trip
time. As round-trip times are positive, this is so only when every candidate is measured.
-/

namespace OCF.Api

open OCF.Fabric OCF.Lb OCF.Runtime OCF.Topology

variable {σ : Type*}

namespace WgNode

variable (n : WgNode) (publicKeyOf : String → Bytes)

/-- The round-trip time measured to the node a backend is hosted on. -/
def measuredRtt (b : Backend) : Option ℚ :=
  b.scope.machine.bind fun id =>
    (n.machine id).bind fun m => n.membership.rtt (nodeIdOf publicKeyOf m.metadata.name)

/-- A number of milliseconds as a float. -/
def milliseconds (ms : ℚ) : WithBot (WithTop ℚ) := ((ms : WithTop ℚ) : WithBot (WithTop ℚ))

/-- The latency of a backend of the pool is the one measured, or zero. -/
theorem latencyMs_of_mem {runtimes : List (RuntimeProvider σ)} {lb : LoadBalancer} {s : σ}
    {b : Backend} (hb : b ∈ (n.resolveLbBackends publicKeyOf runtimes lb s).1) :
    b.latencyMs = .num (milliseconds ((n.measuredRtt publicKeyOf b).getD 0)) := by
  simp only [resolveLbBackends, lbBackendsFor] at hb
  split_ifs at hb
  · exact absurd hb List.not_mem_nil
  obtain ⟨w, -, hwb⟩ := List.mem_filterMap.1 hb
  obtain ⟨node, -, haddr⟩ := Option.bind_eq_some_iff.1 hwb
  obtain ⟨addr, hsome, rfl⟩ := Option.map_eq_some_iff.1 haddr
  have hin := n.nodeLbAddr_isSome_iff.1 (Option.isSome_of_mem hsome)
  rw [measuredRtt, lbBackend_scope, n.nodeScope_machine hin, Option.bind_some, nodeLatency]
  cases (n.machine node).bind fun m => n.membership.rtt (nodeIdOf publicKeyOf m.metadata.name) with
  | none => rfl
  | some ms => rfl

theorem milliseconds_lt_iff {x y : ℚ} : milliseconds x < milliseconds y ↔ x < y := by
  rw [milliseconds, milliseconds, WithBot.coe_lt_coe, WithTop.coe_lt_coe]

/-- The candidates of a load balancer for a client, from the pool this node builds. -/
def lbCandidates (runtimes : List (RuntimeProvider σ)) (lb : LoadBalancer) (client : ClientContext)
    (s : σ) : List Backend :=
  lb.candidates client (n.resolveLbBackends publicKeyOf runtimes lb s).1

end WgNode

/-- **The latency policy.** For every load balancer with this policy and every pool built for it of
which some candidate is on a node with a positive measured round-trip time: the backend chosen is on
a measured node, with the least round-trip time of all measured candidates, if and only if every
candidate on a node that was never measured is beaten, by a negative round-trip time or by an
earlier candidate with the round-trip time zero. -/
theorem latency_measured_iff (publicKeyOf : String → Bytes) (n : WgNode)
    (runtimes : List (RuntimeProvider σ)) (lb : LoadBalancer) (s : σ) (c : LoadBalancerController)
    (cursor : UInt64) (id : Id) (client : ClientContext)
    (hlb : c.loadBalancers.lookup id = some lb) (hpolicy : lb.policy = .latency)
    (hmeasured : ∃ b ∈ n.lbCandidates publicKeyOf runtimes lb client s,
      ∃ ms ∈ n.measuredRtt publicKeyOf b, 0 < ms) :
    (∃ b, (c.resolve cursor id client (n.resolveLbBackends publicKeyOf runtimes lb s).1).1 =
        .ok (some b) ∧
      IsLeastKey (n.measuredRtt publicKeyOf) (n.lbCandidates publicKeyOf runtimes lb client s) b) ↔
    ∀ before u after, n.lbCandidates publicKeyOf runtimes lb client s = before ++ u :: after →
      n.measuredRtt publicKeyOf u = none →
        (∃ b ∈ n.lbCandidates publicKeyOf runtimes lb client s,
          ∃ ms ∈ n.measuredRtt publicKeyOf b, ms < 0) ∨
        ∃ b ∈ before, n.measuredRtt publicKeyOf b = some 0 := by
  have hpool : ∀ b ∈ n.lbCandidates publicKeyOf runtimes lb client s, b.latencyMs =
      .num (WgNode.milliseconds ((n.measuredRtt publicKeyOf b).getD 0)) := fun b hb =>
    n.latencyMs_of_mem publicKeyOf (List.mem_filter.1 (mem_of_mem_prefer hb)).1
  obtain ⟨b, hb⟩ : ∃ b, pickMinBy (n.lbCandidates publicKeyOf runtimes lb client s)
      Backend.latencyMs = some b := by
    obtain ⟨b, hb, -⟩ := hmeasured
    exact Option.ne_none_iff_exists'.1 (mt pickMinBy_eq_none_iff.1 (List.ne_nil_of_mem hb))
  have hmin : IsFirstMin (fun b => (n.measuredRtt publicKeyOf b).getD 0)
      (n.lbCandidates publicKeyOf runtimes lb client s) b := by
    refine minBy_isFirstMin (fun x hx y hy => ?_) hb
    rw [F64.partialCmp_gt_iff (by simp [hpool x hx]) (by simp [hpool y hy]), hpool x hx, hpool y hy]
    exact WgNode.milliseconds_lt_iff
  have hresolve :
      (c.resolve cursor id client (n.resolveLbBackends publicKeyOf runtimes lb s).1).1 =
        .ok (some b) := by
    rw [resolve_of_lookup hlb, selectBackend_eq, hpolicy, ← hb]
    rfl
  rw [← hmin.isLeastKey_iff, hresolve]
  simp

/-! ## A node that was never probed -/

/-- A node with the machines `m1` and `m2` that has measured some of them. -/
def probing (rtts : List (String × ℚ)) : WgNode :=
  ⟨"m0", [plainMachine "m1", plainMachine "m2"],
    rtts.foldl (fun t e => (t.join (.new (nodeIdOf spelledKey e.1) (spelledKey e.1) [e.1])
      0).2.recordRtt (nodeIdOf spelledKey e.1) e.2) (.new (nodeIdOf spelledKey "m0")), ∅⟩

/-- A labelled container on each of the two machines. -/
def hostingBoth : Hosted :=
  Function.update (fun _ => Kept.empty) "docker"
    ((Kept.empty.put labelledOnFirst).put { labelledOnFirst with
      metadata := ⟨⟨"web-1"⟩, "web-1", AList.insert "app" "web" ∅⟩, node := some ⟨"m2"⟩ })

def dockerOnly : List (RuntimeProvider Hosted) := [keeping (fun _ _ _ => none) .container "docker"]

/-- The load balancer, stored. -/
def frontedBy : LoadBalancerController := (LoadBalancerController.new.create fronting).2

/-- Both machines are measured: the nearer one is chosen. -/
theorem latency_measured_iff_both :
    ∃ b, (frontedBy.resolve 0 ⟨"web"⟩ anyClient
        ((probing [("m1", 5), ("m2", 3)]).resolveLbBackends spelledKey dockerOnly fronting
          hostingBoth).1).1 = .ok (some b) ∧
      IsLeastKey ((probing [("m1", 5), ("m2", 3)]).measuredRtt spelledKey)
        ((probing [("m1", 5), ("m2", 3)]).lbCandidates spelledKey dockerOnly fronting anyClient
          hostingBoth) b := by
  have hall : ∀ u ∈ (probing [("m1", 5), ("m2", 3)]).lbCandidates spelledKey dockerOnly fronting
      anyClient hostingBoth,
      ∃ ms ∈ (probing [("m1", 5), ("m2", 3)]).measuredRtt spelledKey u, 0 < ms := by
    decide +kernel
  refine (latency_measured_iff spelledKey _ dockerOnly fronting hostingBoth frontedBy 0 ⟨"web"⟩
    anyClient rfl rfl ?_).2 ?_
  · decide +kernel
  · intro before u after heq hu
    obtain ⟨ms, hms, -⟩ := hall u (by simp [heq])
    rw [hu] at hms
    cases hms

/-- The machine that was never probed is chosen over the one at 5 ms. -/
theorem unmeasured_preferred :
    (∃ b ∈ (probing [("m1", 5)]).lbCandidates spelledKey dockerOnly fronting anyClient hostingBoth,
      ∃ ms ∈ (probing [("m1", 5)]).measuredRtt spelledKey b, 0 < ms) ∧
    ¬∃ b, (frontedBy.resolve 0 ⟨"web"⟩ anyClient
        ((probing [("m1", 5)]).resolveLbBackends spelledKey dockerOnly fronting
          hostingBoth).1).1 = .ok (some b) ∧
      IsLeastKey ((probing [("m1", 5)]).measuredRtt spelledKey)
        ((probing [("m1", 5)]).lbCandidates spelledKey dockerOnly fronting anyClient
          hostingBoth) b := by
  have hresolve : (frontedBy.resolve 0 ⟨"web"⟩ anyClient
      ((probing [("m1", 5)]).resolveLbBackends spelledKey dockerOnly fronting hostingBoth).1).1 =
        .ok (some (Backend.new ⟨"web-1"⟩ "10.253.0.2" (plainMachine "m2").scope)) := by
    decide +kernel
  refine ⟨by decide +kernel, ?_⟩
  rintro ⟨b, hb, v, hv, -⟩
  obtain rfl : _ = b := Option.some.inj (Except.ok.inj (hresolve.symm.trans hb))
  have hnone : (probing [("m1", 5)]).measuredRtt spelledKey
      (Backend.new ⟨"web-1"⟩ "10.253.0.2" (plainMachine "m2").scope) = none := by
    decide +kernel
  rw [hnone] at hv
  cases hv

end OCF.Api
