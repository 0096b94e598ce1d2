import OCF.Foundations.FirstMin
import OCF.Lb.Controller
import Mathlib.Algebra.Order.Ring.Rat

/-!
# Choosing a backend

A request to a load balancer is routed in three steps: the placement of the load balancer drops the
backends it does not admit, the ingress scope of the client keeps the local ones if there are any,
and the policy picks one of those candidates. The round-robin cursor is a process-wide counter; it
is passed through.

The main result, `resolve_spec`, says which backend that is: `none` exactly when nothing is
admitted, and otherwise the earliest of the candidates with the least metric the policy looks at.
-/

namespace OCF.Lb

/-- A 64-bit float as comparisons see it: not a number, or a number, the infinities included. -/
inductive F64
  | nan
  | num (v : WithBot (WithTop ℚ))
  deriving DecidableEq

namespace F64

/-- Zero. -/
def zero : F64 := .num ((0 : ℚ) : WithTop ℚ)

/-- The comparison of two floats; a NaN compares with nothing. -/
def partialCmp : F64 → F64 → Option Ordering
  | .num v, .num w => some (if v < w then .lt else if v = w then .eq else .gt)
  | _, _ => none

/-- The number a float stands for. A NaN has none; it is given the greatest value. -/
def val : F64 → WithBot (WithTop ℚ)
  | .nan => ((⊤ : WithTop ℚ) : WithBot (WithTop ℚ))
  | .num v => v

/-- Between numbers, the comparison is the order of the numbers. -/
theorem partialCmp_gt_iff {x y : F64} (hx : x ≠ .nan) (hy : y ≠ .nan) :
    (partialCmp x y).getD .gt = .gt ↔ y.val < x.val := by
  cases x with
  | nan => exact absurd rfl hx
  | num v =>
    cases y with
    | nan => exact absurd rfl hy
    | num w =>
      simp only [partialCmp, val, Option.getD_some]
      rcases lt_trichotomy v w with h | h | h
      · simp [h, h.le]
      · simp [h]
      · simp [h, h.not_gt, h.ne']

end F64

/-- A concrete target a load balancer can route a client to. -/
structure Backend where
  workloadId : Id
  /-- Reachable address of the target. -/
  address : String
  /-- Where this backend lives in the fleet. -/
  scope : Scope
  load : F64
  /-- Most recently observed round-trip latency. -/
  latencyMs : F64
  /-- Coarse geography tag, if known. -/
  geo : Option String
  deriving DecidableEq

namespace Backend

/-- A backend that nothing was measured of. -/
def new (workloadId : Id) (address : String) (scope : Scope) : Backend :=
  ⟨workloadId, address, scope, .zero, .zero, none⟩

/-- The backend with a latency. -/
def withLatency (b : Backend) (latencyMs : F64) : Backend := { b with latencyMs := latencyMs }

/-- Neither metric is NaN. -/
def Comparable (b : Backend) : Prop := b.load ≠ .nan ∧ b.latencyMs ≠ .nan

end Backend

/-- The request-side context the routing policy consults. -/
structure ClientContext where
  srcIp : Option String
  /-- Scope through which the request entered the fabric. -/
  ingressScope : Option Scope
  geo : Option String
  deriving DecidableEq

/-- Whether a backend is allowed to serve a load balancer, given its placement. -/
def LoadBalancer.admits (lb : LoadBalancer) (backend : Backend) : Bool :=
  match lb.placement with
  | none => true
  | some scope => scope.contains backend.scope

/-! ## The routing core -/

/-- The backends inside the client's ingress scope, or all of them when no ingress scope is set or
none is in it. -/
def ingressLocalCandidates (backends : List Backend) (client : ClientContext) : List Backend :=
  match client.ingressScope with
  | some ingress =>
    let localOnes := backends.filter fun b => ingress.contains b.scope
    if !localOnes.isEmpty then localOnes else backends
  | none => backends

/-- Advance the shared cursor and return the selected backend. -/
def pickRoundRobin (cursor : UInt64) (candidates : List Backend) : Option Backend × UInt64 :=
  if candidates.isEmpty then (none, cursor)
  else (candidates[cursor.toNat % candidates.length]?, cursor + 1)

/-- The backend minimizing a metric. Ties keep the earliest candidate. -/
def pickMinBy (candidates : List Backend) (metric : Backend → F64) : Option Backend :=
  minBy (fun a b => ((metric a).partialCmp (metric b)).getD .gt) candidates

/-- Prefer a backend whose geography matches the client's, else the lowest latency. -/
def pickGeo (candidates : List Backend) (client : ClientContext) : Option Backend :=
  match client.geo with
  | some clientGeo =>
    let matched := candidates.filter fun b => b.geo = some clientGeo
    if !matched.isEmpty then pickMinBy matched Backend.latencyMs
    else pickMinBy candidates Backend.latencyMs
  | none => pickMinBy candidates Backend.latencyMs

/-- Choose a backend for a request under a policy. -/
def selectBackend (cursor : UInt64) (policy : RoutingPolicy) (backends : List Backend)
    (client : ClientContext) : Option Backend × UInt64 :=
  if backends.isEmpty then (none, cursor)
  else
    let candidates := ingressLocalCandidates backends client
    match policy with
    | .roundRobin => pickRoundRobin cursor candidates
    | .leastLoad => (pickMinBy candidates Backend.load, cursor)
    | .latency => (pickMinBy candidates Backend.latencyMs, cursor)
    | .geo => (pickGeo candidates client, cursor)

/-- Resolve a request to a concrete backend. -/
def LoadBalancerController.resolve (c : LoadBalancerController) (cursor : UInt64) (id : Id)
    (client : ClientContext) (backends : List Backend) : Result (Option Backend) × UInt64 :=
  match c.get id with
  | .error e => (.error e, cursor)
  | .ok lb =>
    let r := selectBackend cursor lb.policy (backends.filter lb.admits) client
    (.ok r.1, r.2)

/-! ## What is chosen -/

/-- A backend lies in the scope through which the client's request entered. -/
def ClientContext.inIngress (client : ClientContext) (b : Backend) : Bool :=
  client.ingressScope.any fun ingress => ingress.contains b.scope

/-- A backend's geography is known and is the client's. -/
def ClientContext.sameGeo (client : ClientContext) (b : Backend) : Bool :=
  client.geo.any fun g => b.geo = some g

/-- The backends the policy chooses from: the admitted ones, narrowed to the ingress scope. -/
def LoadBalancer.candidates (lb : LoadBalancer) (client : ClientContext) (backends : List Backend) :
    List Backend :=
  prefer client.inIngress (backends.filter lb.admits)

theorem ingressLocalCandidates_eq (backends : List Backend) (client : ClientContext) :
    ingressLocalCandidates backends client = prefer client.inIngress backends := by
  rw [prefer_eq_filter]
  unfold ingressLocalCandidates ClientContext.inIngress
  cases client.ingressScope with
  | none => simp
  | some ingress => simp

theorem pickGeo_eq (candidates : List Backend) (client : ClientContext) :
    pickGeo candidates client =
      pickMinBy (prefer client.sameGeo candidates) Backend.latencyMs := by
  rw [prefer_eq_filter]
  unfold pickGeo ClientContext.sameGeo
  cases client.geo with
  | none => simp
  | some g =>
    simp only [Option.any_some]
    split_ifs <;> rfl

theorem pickMinBy_eq_none_iff {candidates : List Backend} {metric : Backend → F64} :
    pickMinBy candidates metric = none ↔ candidates = [] :=
  minBy_eq_none_iff

theorem mem_of_pickMinBy {candidates : List Backend} {metric : Backend → F64} {b : Backend}
    (h : pickMinBy candidates metric = some b) : b ∈ candidates :=
  mem_of_minBy h

/-- With comparable metrics, the backend picked is the earliest with the least metric. -/
theorem pickMinBy_isFirstMin {candidates : List Backend} {metric : Backend → F64} {b : Backend}
    (hnum : ∀ c ∈ candidates, metric c ≠ .nan) (h : pickMinBy candidates metric = some b) :
    IsFirstMin (fun c => (metric c).val) candidates b :=
  minBy_isFirstMin (fun x hx y hy => F64.partialCmp_gt_iff (hnum x hx) (hnum y hy)) h

theorem pickRoundRobin_eq_none_iff {cursor : UInt64} {candidates : List Backend} :
    (pickRoundRobin cursor candidates).1 = none ↔ candidates = [] := by
  cases candidates with
  | nil => simp [pickRoundRobin]
  | cons b l =>
    have hlt : cursor.toNat % (b :: l).length < (b :: l).length := Nat.mod_lt _ (by simp)
    simp only [pickRoundRobin, List.isEmpty_cons, Bool.false_eq_true, if_false,
      List.getElem?_eq_getElem hlt, reduceCtorEq]

theorem mem_of_pickRoundRobin {cursor : UInt64} {candidates : List Backend} {b : Backend}
    (h : (pickRoundRobin cursor candidates).1 = some b) : b ∈ candidates := by
  unfold pickRoundRobin at h
  split_ifs at h
  exact List.mem_of_getElem? h

/-- Selection is one of the four picks among the ingress-local candidates. -/
theorem selectBackend_eq (cursor : UInt64) (policy : RoutingPolicy) (backends : List Backend)
    (client : ClientContext) :
    (selectBackend cursor policy backends client).1 =
      match policy with
      | .roundRobin => (pickRoundRobin cursor (prefer client.inIngress backends)).1
      | .leastLoad => pickMinBy (prefer client.inIngress backends) Backend.load
      | .latency => pickMinBy (prefer client.inIngress backends) Backend.latencyMs
      | .geo =>
        pickMinBy (prefer client.sameGeo (prefer client.inIngress backends)) Backend.latencyMs := by
  unfold selectBackend
  split_ifs with h
  · obtain rfl := List.isEmpty_iff.1 h
    cases policy <;> rfl
  · rw [ingressLocalCandidates_eq]
    cases policy with
    | roundRobin => rfl
    | leastLoad => rfl
    | latency => rfl
    | geo => exact pickGeo_eq _ client

/-- Nothing is selected exactly when there is no backend. -/
theorem selectBackend_eq_none_iff {cursor : UInt64} {policy : RoutingPolicy}
    {backends : List Backend} {client : ClientContext} :
    (selectBackend cursor policy backends client).1 = none ↔ backends = [] := by
  rw [selectBackend_eq]
  cases policy with
  | roundRobin => exact pickRoundRobin_eq_none_iff.trans prefer_eq_nil_iff
  | leastLoad => exact pickMinBy_eq_none_iff.trans prefer_eq_nil_iff
  | latency => exact pickMinBy_eq_none_iff.trans prefer_eq_nil_iff
  | geo => exact pickMinBy_eq_none_iff.trans (prefer_eq_nil_iff.trans prefer_eq_nil_iff)

/-- What is selected is one of the candidates. -/
theorem mem_of_selectBackend {cursor : UInt64} {policy : RoutingPolicy} {backends : List Backend}
    {client : ClientContext} {b : Backend}
    (h : (selectBackend cursor policy backends client).1 = some b) :
    b ∈ prefer client.inIngress backends := by
  rw [selectBackend_eq] at h
  cases policy with
  | roundRobin => exact mem_of_pickRoundRobin h
  | leastLoad => exact mem_of_pickMinBy h
  | latency => exact mem_of_pickMinBy h
  | geo => exact mem_of_mem_prefer (mem_of_pickMinBy h)

theorem resolve_of_lookup {c : LoadBalancerController} {id : Id} {lb : LoadBalancer}
    (hlb : c.loadBalancers.lookup id = some lb) (cursor : UInt64) (client : ClientContext)
    (backends : List Backend) :
    (c.resolve cursor id client backends).1 =
      .ok (selectBackend cursor lb.policy (backends.filter lb.admits) client).1 := by
  simp only [LoadBalancerController.resolve, LoadBalancerController.get, hlb]

/-- The resolution of a stored load balancer, for comparable metrics: `none` exactly when no
backend is admitted; otherwise an admitted backend, inside the ingress scope if an admitted one is,
and the earliest of the candidates with the least load or latency, among those of the client's
geography if there are some under the geographic policy. -/
theorem resolve_spec (c : LoadBalancerController) (cursor : UInt64) (id : Id) (lb : LoadBalancer)
    (client : ClientContext) (backends : List Backend) (hlb : c.loadBalancers.lookup id = some lb)
    (hnum : ∀ b ∈ backends, b.Comparable) :
    ∃ r, (c.resolve cursor id client backends).1 = .ok r ∧
      (r = none ↔ ∀ b ∈ backends, lb.admits b = false) ∧
      ∀ b, r = some b →
        (b ∈ backends ∧ lb.admits b) ∧
        ((∃ b' ∈ backends, lb.admits b' ∧ client.inIngress b') → client.inIngress b) ∧
        b ∈ lb.candidates client backends ∧
        (lb.policy = .leastLoad →
          IsFirstMin (fun b => b.load.val) (lb.candidates client backends) b) ∧
        (lb.policy = .latency →
          IsFirstMin (fun b => b.latencyMs.val) (lb.candidates client backends) b) ∧
        (lb.policy = .geo →
          IsFirstMin (fun b => b.latencyMs.val)
            (prefer client.sameGeo (lb.candidates client backends)) b) := by
  refine ⟨_, resolve_of_lookup hlb cursor client backends, ?_, fun b hb => ?_⟩
  · rw [selectBackend_eq_none_iff, List.filter_eq_nil_iff]
    simp only [Bool.not_eq_true]
  · have hmem : b ∈ lb.candidates client backends := mem_of_selectBackend hb
    have hadm := List.mem_filter.1 (mem_of_mem_prefer hmem)
    have hcand : ∀ d ∈ lb.candidates client backends, d.Comparable := fun d hd =>
      hnum d (List.mem_filter.1 (mem_of_mem_prefer hd)).1
    rw [selectBackend_eq] at hb
    refine ⟨hadm, ?_, hmem, ?_, ?_, ?_⟩
    · rintro ⟨b', hb', hadm', hin⟩
      exact prefer_holds hmem ⟨b', List.mem_filter.2 ⟨hb', hadm'⟩, hin⟩
    · intro hp
      rw [hp] at hb
      exact pickMinBy_isFirstMin (fun d hd => (hcand d hd).1) hb
    · intro hp
      rw [hp] at hb
      exact pickMinBy_isFirstMin (fun d hd => (hcand d hd).2) hb
    · intro hp
      rw [hp] at hb
      exact pickMinBy_isFirstMin (fun d hd => (hcand d (mem_of_mem_prefer hd)).2) hb

/-- A load balancer for one region that prefers the least loaded backend. -/
def regional : LoadBalancer :=
  ⟨Metadata.named "web", .application, [⟨443, true⟩], ∅, .leastLoad,
    some ⟨some ⟨"us"⟩, none, none, none⟩, false, []⟩

/-- A backend in a region and datacenter with a load. -/
def backendAt (address region datacenter : String) (load : ℚ) : Backend :=
  { Backend.new ⟨address⟩ address ⟨some ⟨region⟩, some ⟨datacenter⟩, none, none⟩ with
    load := .num ((load : WithTop ℚ) : WithBot (WithTop ℚ)) }

/-- A client of which nothing is known. -/
def anyClient : ClientContext := ⟨none, none, none⟩

/-- The client's request enters in the second datacenter. -/
def entersAtDc2 : ClientContext := ⟨none, some ⟨some ⟨"us"⟩, some ⟨"dc2"⟩, none, none⟩, none⟩

/-- The least loaded backend of all is in another region and is not admitted; of the admitted ones,
the second is the only one where the client enters. -/
theorem resolve_spec_regional :
    ∃ r, ((LoadBalancerController.new.create regional).2.resolve 0 ⟨"web"⟩ entersAtDc2
        [backendAt "a" "us" "dc1" 1, backendAt "b" "us" "dc2" 2, backendAt "c" "eu" "dc2" 0]).1 =
          .ok r ∧
      r = some (backendAt "b" "us" "dc2" 2) ∧
      ∀ b, r = some b → b ∈ regional.candidates entersAtDc2
        [backendAt "a" "us" "dc1" 1, backendAt "b" "us" "dc2" 2, backendAt "c" "eu" "dc2" 0] := by
  have hlookup : (LoadBalancerController.new.create regional).2.loadBalancers.lookup ⟨"web"⟩ =
      some regional := rfl
  obtain ⟨r, hr, -, hspec⟩ := resolve_spec _ 0 _ regional entersAtDc2
    [backendAt "a" "us" "dc1" 1, backendAt "b" "us" "dc2" 2, backendAt "c" "eu" "dc2" 0] hlookup
    (by simp [Backend.Comparable, backendAt, Backend.new, F64.zero])
  refine ⟨r, hr, ?_, fun b hb => (hspec b hb).2.2.1⟩
  rw [resolve_of_lookup hlookup] at hr
  rw [← Except.ok.inj hr]
  decide

end OCF.Lb
