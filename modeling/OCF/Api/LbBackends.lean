import OCF.Api.Addressing
import OCF.Api.WorkloadRestore
import OCF.Lb.Routing

/-!
# The backends of a load balancer

The backends of a load balancer are the workloads that its selector matches, each at the address of
its machine on the load-balancer plane. The workloads come from the listings of the providers and
the machines from the topology. The membership table contributes the round-trip times; the liveness
of the members is not looked at, so a machine stays in the pools when its member is suspect, dead or
has left.

`pools_live_iff` says for which fleets no such machine is in the pool of a load balancer: those in
which no workload the load balancer fronts is placed on one.
-/

namespace OCF.Api

open OCF.Fabric OCF.Lb OCF.Runtime OCF.Topology

variable {σ : Type*}

/-- The backend of a workload: its latency is stamped when it is known. -/
def lbBackend (w : Workload) (addr : String) (scope : Scope) (latency : Option F64) : Backend :=
  let backend := Backend.new w.metadata.id addr scope
  match latency with
  | some rtt => backend.withLatency rtt
  | none => backend

@[simp] theorem lbBackend_scope (w : Workload) (addr : String) (scope : Scope)
    (latency : Option F64) : (lbBackend w addr scope latency).scope = scope := by
  cases latency <;> rfl

/-- The backends for a selector. An empty selector has none. -/
def lbBackendsFor (workloads : List Workload) (selector : HashMap String String)
    (nodeLbAddr : Id → Option String) (nodeScope : Id → Scope) (nodeLatency : Id → Option F64) :
    List Backend :=
  if selector.entries.isEmpty then []
  else
    (workloads.filter fun w => w.metadata.matchesLabels selector).filterMap fun w =>
      w.node.bind fun node => (nodeLbAddr node).map fun addr =>
        lbBackend w addr (nodeScope node) (nodeLatency node)

namespace WgNode

variable (n : WgNode) (publicKeyOf : String → Bytes)

/-- The first machine with an id. -/
def machine (id : Id) : Option Machine := n.machines.find? fun m => m.metadata.id = id

/-- The address of a machine on the load-balancer plane, by its index in the plan. -/
def nodeLbAddr (id : Id) : Option String := (n.planIndex id).map wgLb.ip

def nodeScope (id : Id) : Scope := ((n.machine id).map Machine.scope).getD .fleet

/-- The last round-trip time measured to a machine. -/
def nodeLatency (id : Id) : Option F64 :=
  ((n.machine id).bind fun m => n.membership.rtt (nodeIdOf publicKeyOf m.metadata.name)).map
    fun ms => .num ((ms : WithTop ℚ) : WithBot (WithTop ℚ))

/-- The live backend set of a load balancer: the workloads its selector matches, on their
machines. -/
def resolveLbBackends (runtimes : List (RuntimeProvider σ)) (lb : LoadBalancer) (s : σ) :
    List Backend × σ :=
  let (workloads, s) := listAll runtimes s
  (lbBackendsFor workloads lb.targetSelector n.nodeLbAddr n.nodeScope (n.nodeLatency publicKeyOf), s)

/-! ## Who is in a pool -/

/-- A workload the load balancer fronts, placed on a machine of the topology. -/
def Fronts (runtimes : List (RuntimeProvider σ)) (lb : LoadBalancer) (s : σ) (w : Workload)
    (id : Id) : Prop :=
  lb.targetSelector.entries ≠ [] ∧ w ∈ (listAll runtimes s).1 ∧
    w.metadata.matchesLabels lb.targetSelector ∧ w.node = some id ∧
    ∃ m ∈ n.machines, m.metadata.id = id

/-- The machines with an address are those of the topology. -/
theorem nodeLbAddr_isSome_iff {id : Id} :
    (n.nodeLbAddr id).isSome ↔ ∃ m ∈ n.machines, m.metadata.id = id := by
  rw [nodeLbAddr, Option.isSome_map, planIndex_eq, List.findIdx?_isSome, List.any_eq_true]
  simp [byName]

/-- The scope of a machine of the topology names the machine. -/
theorem nodeScope_machine {id : Id} (h : ∃ m ∈ n.machines, m.metadata.id = id) :
    (n.nodeScope id).machine = some id := by
  obtain ⟨m, hm⟩ : ∃ m, n.machine id = some m :=
    Option.isSome_iff_exists.1 (List.find?_isSome.2 (by simpa using h))
  have hid : m.metadata.id = id := by simpa using List.find?_some hm
  simp [nodeScope, hm, Machine.scope, hid]

/-- The machines a pool is hosted on are those of the workloads it fronts. -/
theorem exists_mem_resolveLbBackends_iff {runtimes : List (RuntimeProvider σ)} {lb : LoadBalancer}
    {s : σ} {id : Id} :
    (∃ b ∈ (n.resolveLbBackends publicKeyOf runtimes lb s).1, b.scope.machine = some id) ↔
      ∃ w, n.Fronts runtimes lb s w id := by
  simp only [resolveLbBackends, lbBackendsFor]
  constructor
  · rintro ⟨b, hb, hmachine⟩
    split_ifs at hb with hsel
    · exact absurd hb List.not_mem_nil
    obtain ⟨w, hw, hwb⟩ := List.mem_filterMap.1 hb
    obtain ⟨hlisted, hlabels⟩ := List.mem_filter.1 hw
    obtain ⟨node, hnode, haddr⟩ := Option.bind_eq_some_iff.1 hwb
    obtain ⟨addr, hsome, rfl⟩ := Option.map_eq_some_iff.1 haddr
    have hin := n.nodeLbAddr_isSome_iff.1 (Option.isSome_of_mem hsome)
    rw [lbBackend_scope, n.nodeScope_machine hin] at hmachine
    obtain rfl := Option.some.inj hmachine
    exact ⟨w, by simpa using hsel, hlisted, hlabels, hnode, hin⟩
  · rintro ⟨w, hsel, hlisted, hlabels, hnode, hin⟩
    obtain ⟨addr, haddr⟩ := Option.isSome_iff_exists.1 (n.nodeLbAddr_isSome_iff.2 hin)
    rw [if_neg (by simpa using hsel)]
    have hmem : lbBackend w addr (n.nodeScope id) (n.nodeLatency publicKeyOf id) ∈
        ((listAll runtimes s).1.filter fun w => w.metadata.matchesLabels
          lb.targetSelector).filterMap fun w => w.node.bind fun node =>
            (n.nodeLbAddr node).map fun addr =>
              lbBackend w addr (n.nodeScope node) (n.nodeLatency publicKeyOf node) :=
      List.mem_filterMap.2 ⟨w, List.mem_filter.2 ⟨hlisted, hlabels⟩, by simp [hnode, haddr]⟩
    refine ⟨_, hmem, ?_⟩
    rw [lbBackend_scope, n.nodeScope_machine hin]

end WgNode

/-! ## Dead machines in the pools -/

/-- A member of the table backs the machine and is suspect, dead or has left. -/
def Unavailable (t : Membership) (id : Id) : Prop :=
  ∃ m ∈ HashMap.values t.members, m.node.machineId = some id ∧ m.liveness.isAvailable = false

/-- A backend is hosted on a machine whose member is not available. -/
def OnUnavailable (t : Membership) (b : Backend) : Prop :=
  ∃ id, b.scope.machine = some id ∧ Unavailable t id

/-- What a resolution picks from a list of backends is one of them. -/
theorem mem_of_resolve {c : LoadBalancerController} {cursor : UInt64} {id : Id}
    {client : ClientContext} {backends : List Backend} {b : Backend}
    (h : (c.resolve cursor id client backends).1 = .ok (some b)) : b ∈ backends := by
  unfold LoadBalancerController.resolve at h
  cases hget : c.get id with
  | error e => simp [hget] at h
  | ok lb =>
    simp only [hget] at h
    have hmem := mem_of_selectBackend (Except.ok.inj h)
    exact (List.mem_filter.1 (mem_of_mem_prefer hmem)).1

/-- No backend of the pool, and none that a resolution picks from it, is on a machine whose member
is suspect, dead or has left, if and only if no workload the load balancer fronts is placed on such
a machine. -/
theorem pools_live_iff (publicKeyOf : String → Bytes) (n : WgNode)
    (runtimes : List (RuntimeProvider σ)) (lb : LoadBalancer) (s : σ) :
    (∀ b ∈ (n.resolveLbBackends publicKeyOf runtimes lb s).1, ¬OnUnavailable n.membership b) ∧
      (∀ (c : LoadBalancerController) cursor id client b,
        (c.resolve cursor id client (n.resolveLbBackends publicKeyOf runtimes lb s).1).1 =
          .ok (some b) → ¬OnUnavailable n.membership b) ↔
      ∀ w id, n.Fronts runtimes lb s w id → ¬Unavailable n.membership id := by
  constructor
  · rintro ⟨hpool, -⟩ w id hw hdead
    obtain ⟨b, hb, hmachine⟩ := (n.exists_mem_resolveLbBackends_iff publicKeyOf).2 ⟨w, hw⟩
    exact hpool b hb ⟨id, hmachine, hdead⟩
  · intro h
    have hpool : ∀ b ∈ (n.resolveLbBackends publicKeyOf runtimes lb s).1,
        ¬OnUnavailable n.membership b := by
      rintro b hb ⟨id, hmachine, hdead⟩
      obtain ⟨w, hw⟩ := (n.exists_mem_resolveLbBackends_iff publicKeyOf).1 ⟨b, hb, hmachine⟩
      exact h w id hw hdead
    exact ⟨hpool, fun c cursor id client b hb => hpool b (mem_of_resolve hb)⟩

/-! ## A pool with a dead machine -/

/-- A container labelled for a load balancer, on the machine `m1`. -/
def labelledOnFirst : Workload :=
  { Workload.container ⟨⟨"web-0"⟩, "web-0", AList.insert "app" "web" ∅⟩ "nginx:1.27" with
    node := some ⟨"m1"⟩ }

/-- A node that has seen the member of `m1` join and fall silent until the detector declared it
dead. -/
def seesFirstDead : WgNode :=
  ⟨"m0", [plainMachine "m1"], ((Membership.new ⟨"m0"⟩).join
    { FabricNode.new ⟨"n1"⟩ [] ["192.0.2.1:7000"] with machineId := some ⟨"m1"⟩ } 0).2.tick 10000 |>.2,
    ∅⟩

/-- A load balancer for the workloads labelled `app=web`. -/
def fronting : LoadBalancer :=
  ⟨Metadata.named "web", .tcp, [⟨80, false⟩], AList.insert "app" "web" ∅, .latency, none, false, []⟩

/-- The containers of one engine. -/
def hostingFirst : Hosted :=
  Function.update (fun _ => Kept.empty) "docker" (Kept.empty.put labelledOnFirst)

theorem nodeLatency_seesFirstDead (publicKeyOf : String → Bytes) :
    seesFirstDead.nodeLatency publicKeyOf = fun _ => none := by
  have hrtt : ∀ id, seesFirstDead.membership.rtt id = none := by
    intro id
    refine Option.bind_eq_none_iff.2 fun m hm => ?_
    obtain rfl := List.mem_singleton.1 (HashMap.mem_values.2 ⟨id, hm⟩)
    rfl
  funext id
  simp [WgNode.nodeLatency, hrtt]

/-- The workload on the dead machine is the pool, and a resolution picks it. -/
theorem dead_machine_in_pool :
    seesFirstDead.membership.liveness ⟨"n1"⟩ = some .dead ∧
    ∃ b, OnUnavailable seesFirstDead.membership b ∧ ∀ publicKeyOf,
      (seesFirstDead.resolveLbBackends publicKeyOf
        [keeping (fun _ _ _ => none) .container "docker"] fronting hostingFirst).1 = [b] ∧
      ((LoadBalancerController.new.create fronting).2.resolve 0 ⟨"web"⟩ ⟨none, none, none⟩
        (seesFirstDead.resolveLbBackends publicKeyOf
          [keeping (fun _ _ _ => none) .container "docker"] fronting hostingFirst).1).1 =
        .ok (some b) := by
  refine ⟨rfl, Backend.new ⟨"web-0"⟩ "10.253.0.1" (plainMachine "m1").scope, ?_, ?_⟩
  · exact ⟨⟨"m1"⟩, rfl, _, List.mem_singleton.2 rfl, rfl, rfl⟩
  · intro publicKeyOf
    simp only [WgNode.resolveLbBackends, nodeLatency_seesFirstDead]
    exact ⟨rfl, rfl⟩

end OCF.Api
