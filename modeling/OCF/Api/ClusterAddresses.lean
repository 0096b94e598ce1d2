import OCF.Api.Addressing
import OCF.Api.Join
import OCF.Foundations.Utf8

/-!
# The addresses of the Raft members

A fleet starts with a node that boots without seeds and forms a cluster of one, and grows by nodes
that boot with seeds and an empty store, advertise their Raft endpoint to a seed and are admitted by
the leader (`OCF.Api.Join`). The membership maps every member to the address the others dial.

The first node enters itself under the loopback address. A joining node works its endpoint out from
the machines it has in memory; it has none, so it falls back to the loopback address too.
`members_loopback` follows this through every interleaving of boots and joins.
-/

namespace OCF.Api

open OCF.Fabric OCF.Topology Admission

/-- The part of the configuration that decides how a node enters the cluster. -/
structure ControllerConfig where
  nodeId : String
  seeds : List String
  fabricRaftPort : UInt16
  deriving DecidableEq

/-- The Raft id of a node name (FNV-1a), never zero. -/
def raftNodeId (nodeId : String) : UInt64 :=
  (utf8 nodeId).foldl (fun hash b => (hash ^^^ b.toUInt64) * 0x100000001b3) 0xcbf29ce484222325 ||| 1

/-- The machines a node has in memory once it has booted: the stored ones, else the demo fleet on a
node without seeds. A joining node starts empty. -/
def bootMachines (config : ControllerConfig) (stored demo : List Machine) : List Machine :=
  if stored ≠ [] then stored else if config.seeds = [] then demo else []

/-- A node after its boot. -/
def bootNode (config : ControllerConfig) (stored demo : List Machine) : WgNode :=
  ⟨config.nodeId, bootMachines config stored demo, .new ⟨config.nodeId⟩, ∅⟩

/-- What a node that boots with seeds advertises to them. -/
def joinCluster (config : ControllerConfig) (stored demo : List Machine) : JoinRequest :=
  ⟨raftNodeId config.nodeId, (bootNode config stored demo).raftEndpoint config.fabricRaftPort⟩

/-- The address under which a node without seeds enters itself. -/
def selfAddr (raftPort : UInt16) : String := "127.0.0.1:" ++ toString raftPort.toNat

/-- The cluster while it grows: what joining nodes advertise, the addresses of the members, and the
admission of joiners. -/
structure Cluster where
  requests : List JoinRequest
  nodes : HashMap UInt64 String
  admission : Admission

inductive ClusterAction
  /-- A node boots with seeds and an empty store and starts to join. -/
  | boot (config : ControllerConfig)
  /-- A step of the admission of joiners. -/
  | join (a : JoinAction)

/-- The request that a call of `handle_join` is about. -/
def JoinPhase.request : JoinPhase → Option JoinRequest
  | .received body => body
  | .addLearner req => some req
  | .readVoters req => some req
  | .changeMembership req _ => some req
  | .answered body _ => body

namespace Cluster

/-- A node without seeds has formed a cluster of one. -/
def standalone (config : ControllerConfig) : Cluster where
  requests := []
  nodes := (∅ : HashMap UInt64 String).insert (raftNodeId config.nodeId)
    (selfAddr config.fabricRaftPort)
  admission := idle true {raftNodeId config.nodeId}

/-- Remove members from the map. -/
def dropNodes (nodes : HashMap UInt64 String) (ids : List UInt64) : HashMap UInt64 String :=
  ids.foldl (fun nodes id => nodes.erase id) nodes

/-- The address map after a step. The library enters a new learner with its address and leaves the
entry of a node it knows; a change of the voters drops the voters that are not in the new set. -/
def nodesAfter (c : Cluster) : JoinAction → HashMap UInt64 String
  | .resume j true =>
    match c.admission.joins.lookup j with
    | some (.addLearner req) =>
      if req.raftId ∈ c.nodes then c.nodes else c.nodes.insert req.raftId req.raftAddr
    | some (.changeMembership _ voters) =>
      dropNodes c.nodes (c.nodes.keys.filter fun id => id ∈ c.admission.voters ∧ id ∉ voters)
    | _ => c.nodes
  | _ => c.nodes

/-- A request that comes in is one that a joining node advertises, and the voters can only be set to
nodes that the membership has. -/
def Enabled (c : Cluster) : JoinAction → Prop
  | .arrive _ (some req) => req ∈ c.requests
  | .resume j true => ∀ req voters,
    c.admission.joins.lookup j = some (.changeMembership req voters) → ∀ id ∈ voters, id ∈ c.nodes
  | _ => True

/-- The voters are gone through one by one, not all ids. -/
instance (c : Cluster) (voters : Finset UInt64) : Decidable (∀ id ∈ voters, id ∈ c.nodes) :=
  Finset.decidableDforallFinset

instance (c : Cluster) (a : JoinAction) : Decidable (c.Enabled a) :=
  match a with
  | .arrive _ (some req) => inferInstanceAs (Decidable (req ∈ c.requests))
  | .arrive _ none => .isTrue trivial
  | .lead _ => .isTrue trivial
  | .resume _ false => .isTrue trivial
  | .resume j true =>
    match h : c.admission.joins.lookup j with
    | some (.changeMembership req voters) =>
      decidable_of_iff (∀ id ∈ voters, id ∈ c.nodes)
        ⟨fun hv req' voters' hj => by
          obtain ⟨rfl, rfl⟩ := JoinPhase.changeMembership.inj (Option.some.inj (h.symm.trans hj))
          exact hv, fun he => he req voters h⟩
    | some (.received _) => .isTrue fun _ _ hj => by simp [h] at hj
    | some (.addLearner _) => .isTrue fun _ _ hj => by simp [h] at hj
    | some (.readVoters _) => .isTrue fun _ _ hj => by simp [h] at hj
    | some (.answered _ _) => .isTrue fun _ _ hj => by simp [h] at hj
    | none => .isTrue fun _ _ hj => by simp [h] at hj

/-- A node boots, or the admission takes a step. All nodes use one Raft port; `demo` is the fleet a
node without seeds would have. -/
def step (raftPort : UInt16) (demo : List Machine) (c : Cluster) : ClusterAction → Option Cluster
  | .boot config =>
    if config.seeds ≠ [] ∧ config.fabricRaftPort = raftPort then
      some { c with requests := joinCluster config [] demo :: c.requests }
    else none
  | .join a =>
    if c.Enabled a then
      (c.admission.step a).map fun admission => { c with nodes := c.nodesAfter a, admission }
    else none

end Cluster

/-! ## The addresses -/

/-- The address is one that only the node itself can reach. -/
def IsLoopback (addr : String) : Prop := ∃ rest, addr = "127." ++ rest

/-- Distinct members have distinct addresses, and none is a loopback address. -/
def AddressesOk (nodes : HashMap UInt64 String) : Prop :=
  (∀ id id' addr, nodes.lookup id = some addr → nodes.lookup id' = some addr → id = id') ∧
    ∀ id addr, nodes.lookup id = some addr → ¬ IsLoopback addr

theorem isLoopback_selfAddr (raftPort : UInt16) : IsLoopback (selfAddr raftPort) :=
  ⟨"0.0.1:" ++ toString raftPort.toNat, by rw [selfAddr, ← String.append_assoc]; rfl⟩

/-- A joining node has no machine in memory, so it advertises the loopback address. -/
theorem joinCluster_raftAddr {config : ControllerConfig} (h : config.seeds ≠ [])
    (demo : List Machine) :
    (joinCluster config [] demo).raftAddr = selfAddr config.fabricRaftPort := by
  have hempty : bootMachines config [] demo = [] := by simp [bootMachines, h]
  rw [joinCluster, WgNode.raftEndpoint_eq, WgNode.byName, bootNode, hempty]
  rfl

section Requests

variable {s s' : Admission} {j : ℕ} {p : JoinPhase}

theorem request_handleJoin {ok : Bool} {q : JoinPhase} (h : s.handleJoin j ok q = some s') :
    ∃ p, s'.joins = s.joins.insert j p ∧ p.request = q.request := by
  cases q with
  | received body =>
    cases body with
    | none =>
      obtain rfl := Option.some.inj h
      exact ⟨_, rfl, rfl⟩
    | some req =>
      simp only [handleJoin] at h
      split_ifs at h
      · obtain rfl := Option.some.inj h
        exact ⟨_, rfl, rfl⟩
      · obtain rfl := Option.some.inj h
        exact ⟨_, rfl, rfl⟩
  | addLearner req =>
    simp only [handleJoin] at h
    split_ifs at h
    · obtain rfl := Option.some.inj h
      exact ⟨_, rfl, rfl⟩
    · obtain rfl := Option.some.inj h
      exact ⟨_, rfl, rfl⟩
  | readVoters req =>
    obtain rfl := Option.some.inj h
    exact ⟨_, rfl, rfl⟩
  | changeMembership req voters =>
    simp only [handleJoin] at h
    split_ifs at h
    · obtain rfl := Option.some.inj h
      exact ⟨_, rfl, rfl⟩
    · obtain rfl := Option.some.inj h
      exact ⟨_, rfl, rfl⟩
  | answered body reply => cases h

/-- A call is about the request it came with. -/
theorem request_step {a : JoinAction} (h : s.step a = some s')
    (hp : s'.joins.lookup j = some p) :
    (∃ q, s.joins.lookup j = some q ∧ q.request = p.request) ∨ a = .arrive j p.request := by
  cases a with
  | arrive i body =>
    simp only [step] at h
    split_ifs at h
    obtain rfl := Option.some.inj h
    rw [setPhase] at hp
    obtain ⟨hj, rfl⟩ | ⟨-, hp⟩ := HashMap.lookup_insert_eq_some.1 hp
    · exact .inr (by rw [hj]; rfl)
    · exact .inl ⟨p, hp, rfl⟩
  | lead isLeader =>
    obtain rfl := Option.some.inj h
    exact .inl ⟨p, hp, rfl⟩
  | resume i ok =>
    obtain ⟨q, hq, h⟩ := Option.bind_eq_some_iff.1 h
    obtain ⟨p', hjoins, hreq⟩ := request_handleJoin h
    rw [hjoins] at hp
    obtain ⟨hj, rfl⟩ | ⟨-, hp⟩ := HashMap.lookup_insert_eq_some.1 hp
    · exact .inl ⟨q, hj ▸ hq, hreq.symm⟩
    · exact .inl ⟨p, hp, rfl⟩

end Requests

namespace Cluster

variable {raftPort : UInt16} {demo : List Machine} {c c' : Cluster} {V : Finset UInt64}

theorem lookup_dropNodes {nodes : HashMap UInt64 String} {ids : List UInt64} {id : UInt64} :
    (dropNodes nodes ids).lookup id = if id ∈ ids then none else nodes.lookup id := by
  induction ids generalizing nodes with
  | nil => rfl
  | cons x ids ih =>
    change (dropNodes (nodes.erase x) ids).lookup id = _
    rw [ih, HashMap.lookup_erase_eq]
    by_cases hid : id ∈ ids
    · simp [hid]
    · by_cases hx : id = x
      · simp [hx]
      · simp [hid, hx]

/-- All members and all joiners are known by the loopback address. -/
structure AllLoopback (raftPort : UInt16) (V : Finset UInt64) (c : Cluster) : Prop where
  nodes : ∀ id addr, c.nodes.lookup id = some addr → addr = selfAddr raftPort
  requests : ∀ req ∈ c.requests, req.raftAddr = selfAddr raftPort
  joins : ∀ j p, c.admission.joins.lookup j = some p → ∀ req, p.request = some req →
    req.raftAddr = selfAddr raftPort
  accounted : Admission.Accounted V c.admission
  nonempty : ∃ id, id ∈ c.nodes

theorem allLoopback_standalone (config : ControllerConfig) :
    AllLoopback config.fabricRaftPort {raftNodeId config.nodeId} (standalone config) where
  nodes id addr h := by
    rw [standalone, HashMap.lookup_insert_eq] at h
    split_ifs at h
    · exact (Option.some.inj h).symm
    · cases h
  requests := by simp [standalone]
  joins j p h := by simp [standalone, idle] at h
  accounted := accounted_idle true
  nonempty := ⟨raftNodeId config.nodeId, (AList.mem_insert _).2 (.inl rfl)⟩

/-- An address after a step was there before, or it is that of the request a learner is added for. -/
theorem lookup_nodesAfter {a : JoinAction} {id : UInt64} {addr : String}
    (h : (c.nodesAfter a).lookup id = some addr) :
    c.nodes.lookup id = some addr ∨
      ∃ j req, c.admission.joins.lookup j = some (.addLearner req) ∧ addr = req.raftAddr := by
  unfold nodesAfter at h
  split at h
  · next j =>
    split at h
    · next req hj =>
      split_ifs at h
      · exact .inl h
      · rw [HashMap.lookup_insert_eq] at h
        split_ifs at h
        · exact .inr ⟨j, req, hj, (Option.some.inj h).symm⟩
        · exact .inl h
    · rw [lookup_dropNodes] at h
      split_ifs at h
      exact .inl h
    · exact .inl h
  · exact .inl h

/-- The membership never becomes empty: the voters that are set are members, and there are some. -/
theorem exists_mem_nodesAfter (h : AllLoopback raftPort V c) {a : JoinAction} (he : c.Enabled a) :
    ∃ id, id ∈ c.nodesAfter a := by
  unfold nodesAfter
  split
  · next j =>
    split
    · next req hj =>
      split_ifs
      · exact h.nonempty
      · exact ⟨req.raftId, (AList.mem_insert _).2 (.inl rfl)⟩
    · next req voters hj =>
      have hreq := (h.accounted.written j req voters hj).1
      refine ⟨req.raftId, ?_⟩
      rw [HashMap.mem_iff_exists_lookup, lookup_dropNodes, if_neg (by simp [hreq])]
      exact HashMap.mem_iff_exists_lookup.1 (he req voters hj req.raftId hreq)
    · exact h.nonempty
  · exact h.nonempty

theorem AllLoopback.step (h : AllLoopback raftPort V c) {a : ClusterAction}
    (hs : c.step raftPort demo a = some c') : AllLoopback raftPort V c' := by
  cases a with
  | boot config =>
    simp only [Cluster.step] at hs
    split_ifs at hs with hcfg
    obtain rfl := Option.some.inj hs
    refine ⟨h.nodes, fun req hreq => ?_, h.joins, h.accounted, h.nonempty⟩
    rcases List.mem_cons.1 hreq with rfl | hreq
    · rw [joinCluster_raftAddr hcfg.1, hcfg.2]
    · exact h.requests req hreq
  | join a =>
    simp only [Cluster.step] at hs
    split_ifs at hs with he
    obtain ⟨s', hs', rfl⟩ := Option.map_eq_some_iff.1 hs
    refine ⟨fun id addr hid => ?_, h.requests, fun j p hp req hreq => ?_, h.accounted.step hs',
      exists_mem_nodesAfter h he⟩
    · obtain hold | ⟨j, req, hj, rfl⟩ := lookup_nodesAfter hid
      · exact h.nodes id addr hold
      · exact h.joins j _ hj req rfl
    · obtain ⟨q, hq, hqp⟩ | rfl := request_step hs' hp
      · exact h.joins j q hq req (hqp.trans hreq)
      · rw [hreq] at he
        exact h.requests req he

end Cluster

open Cluster

/-- In every cluster that a node without seeds forms and that nodes with seeds and empty stores join,
after any number of boots and steps of joins: all members have one address, the loopback address, so
the addresses are never right. -/
theorem members_loopback (config : ControllerConfig) (demo : List Machine)
    (as : List ClusterAction) (c : Cluster)
    (hrun : run (Cluster.step config.fabricRaftPort demo) (standalone config) as = some c) :
    (∃ id, id ∈ c.nodes) ∧
    (∀ id addr, c.nodes.lookup id = some addr → addr = selfAddr config.fabricRaftPort) ∧
    ¬ AddressesOk c.nodes := by
  have h : AllLoopback config.fabricRaftPort {raftNodeId config.nodeId} c :=
    run_invariant (fun _ _ _ h hs => AllLoopback.step h hs) (allLoopback_standalone config) hrun
  refine ⟨h.nonempty, h.nodes, fun hok => ?_⟩
  obtain ⟨id, hid⟩ := h.nonempty
  obtain ⟨addr, hl⟩ := HashMap.mem_iff_exists_lookup.1 hid
  refine hok.2 id addr hl ?_
  rw [h.nodes id addr hl]
  exact isLoopback_selfAddr _

/-- The first node of a fleet. -/
def firstNode : ControllerConfig := ⟨"node-1", [], 51901⟩

/-- A second node boots with a seed and is admitted. -/
def secondJoins : List ClusterAction :=
  let config : ControllerConfig := ⟨"node-2", ["192.0.2.1:51900"], 51901⟩
  [.boot config, .join (.arrive 0 (some (joinCluster config [] []))), .join (.resume 0 true),
    .join (.resume 0 true), .join (.resume 0 true), .join (.resume 0 true)]

theorem run_secondJoins :
    ∃ c, run (Cluster.step 51901 []) (standalone firstNode) secondJoins = some c ∧
      c.admission.voters = {raftNodeId "node-1", raftNodeId "node-2"} ∧
      c.nodes.lookup (raftNodeId "node-1") = some "127.0.0.1:51901" ∧
      c.nodes.lookup (raftNodeId "node-2") = some "127.0.0.1:51901" := by
  have heval : (run (Cluster.step 51901 []) (standalone firstNode) secondJoins).map (fun c =>
      (c.admission.voters, c.nodes.lookup (raftNodeId "node-1"),
        c.nodes.lookup (raftNodeId "node-2"))) =
      some ({raftNodeId "node-1", raftNodeId "node-2"}, some "127.0.0.1:51901",
        some "127.0.0.1:51901") := by
    decide +kernel
  obtain ⟨c, hrun, hc⟩ := Option.map_eq_some_iff.1 heval
  obtain ⟨hvoters, hnodes⟩ := Prod.mk.inj hc
  exact ⟨c, hrun, hvoters, Prod.mk.inj hnodes⟩

/-- The two voters have different ids and one address, at which each of them finds itself. -/
theorem second_member_same_address :
    ¬ ∀ (config : ControllerConfig) (demo : List Machine) (as : List ClusterAction) (c : Cluster),
      config.seeds = [] →
      (∀ joiner, .boot joiner ∈ as → raftNodeId joiner.nodeId ≠ raftNodeId config.nodeId) →
      run (Cluster.step config.fabricRaftPort demo) (standalone config) as = some c →
      AddressesOk c.nodes := by
  intro h
  obtain ⟨c, hrun, -, h₁, h₂⟩ := run_secondJoins
  have hne : raftNodeId "node-2" ≠ raftNodeId "node-1" := by decide +kernel
  refine hne ((h firstNode [] secondJoins c rfl ?_ hrun).1 _ _ _ h₂ h₁)
  intro joiner hjoiner
  obtain rfl : joiner = ⟨"node-2", ["192.0.2.1:51900"], 51901⟩ := by
    simpa [secondJoins] using hjoiner
  exact hne

theorem members_loopback_secondJoins :
    ∃ c, run (Cluster.step 51901 []) (standalone firstNode) secondJoins = some c ∧
      c.admission.voters = {raftNodeId "node-1", raftNodeId "node-2"} ∧ ¬ AddressesOk c.nodes := by
  obtain ⟨c, hrun, hvoters, -⟩ := run_secondJoins
  exact ⟨c, hrun, hvoters, (members_loopback firstNode [] secondJoins c hrun).2.2⟩

end OCF.Api
