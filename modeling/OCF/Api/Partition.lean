import OCF.Api.Failover
import Mathlib.Data.Finset.Card

/-!
# Rescheduling across partitions

Drop-out handling runs on the node that the local Raft metrics report as the leader. The gate reads
a cached belief and commits nothing through Raft, so a former leader that is cut off from the
majority passes it for as long as it has not noticed, and a new leader passes it again for a death
that the old one has acted on when its own detector reports the death late. An operator can also
declare a machine failed, on any node and without the gate (`failMachine`).

A fleet here has voters, a partition into sides, and the leader that a majority has elected last. The
nodes' steps are numbered. Two executions for one node are for two deaths only when that node ran
in between: the later of the two nodes has heard from it after the earlier execution and before its
own detector reported the death (`AtMostOnce`). A message that a node sent before it failed and that
arrives late is no such sign of life. `LeadershipCurrent` is the condition on the steps of a run, and
`rescheduled_at_most_once` is the result for every run under it.
-/

namespace OCF.Api

open OCF.Fabric

/-- An execution of drop-out handling. -/
structure Reschedule where
  node : NodeId
  dead : NodeId
  /-- The step at which it runs. -/
  time : ℕ
  /-- The step at which the node had last heard from the dead one when it took it for dead. -/
  silentSince : ℕ
  /-- The side of the node held a majority of the voters. -/
  majority : Bool
  deriving DecidableEq

namespace FleetNode

/-- The dead node for which handling the next transition runs drop-out handling. -/
def reschedules (n : FleetNode) (self : NodeId) : Option NodeId :=
  match n.pending with
  | .died d :: _ => if n.isLeader self ∧ (n.machineOf d).isSome then some d else none
  | _ => none

/-- Declare the node behind a machine dead and run drop-out handling for it, whoever leads. -/
def failMachine (n : FleetNode) (step : ℕ) (machineId : Id) : Option (NodeId × FleetNode) :=
  (n.membership.memberForMachine machineId).map fun m =>
    (m.node.nodeId, { n with
      membership := (n.membership.forceDead m.node.nodeId).2
      acted := ⟨m.node.nodeId, some machineId, step⟩ :: n.acted })

/-- A heartbeat of `x` arrives that it sent before it failed. -/
def hearLate (n : FleetNode) (x : NodeId) (now : ℤ) : FleetNode :=
  { n with membership := (n.membership.heartbeatAt x now).2 }

/-- What the node does not act on a second time, once `d` was acted on elsewhere at step `t`: a report
of `d` that is left to handle is of a later death, and `d` is held as dead unless it was heard
since. -/
def Knows (n : FleetNode) (d : NodeId) (t : ℕ) : Prop :=
  (.died d ∈ n.pending → t < n.silent d) ∧
    (n.heard d ≤ t → n.membership.liveness d = some .dead)

instance (n : FleetNode) (d : NodeId) (t : ℕ) : Decidable (n.Knows d t) :=
  inferInstanceAs (Decidable (_ ∧ _))

end FleetNode

/-- A fleet whose nodes may be cut off from each other. -/
structure PartitionedFleet where
  fleet : Fleet
  voters : Finset NodeId
  /-- Nodes with the same label can reach each other. -/
  side : NodeId → ℕ
  /-- The node that a majority has elected last. -/
  elected : Option NodeId
  acts : List Reschedule

/-- A step of such a fleet. -/
inductive PartitionAction
  | fail (i : NodeId)
  /-- A node that has failed restarts with a new table. -/
  | reboot (i : NodeId) (now : ℤ)
  | partition (side : NodeId → ℕ)
  | elect (i : NodeId)
  /-- The Raft metrics of `i` report another leader. -/
  | observe (i : NodeId) (leader : Option NodeId)
  | detect (i : NodeId) (refreshed : NodeId → ℤ) (now : ℤ) (events : List MembershipEvent)
  | handle (i : NodeId)
  /-- A heartbeat of `x` arrives at `i`, perhaps after `x` has failed. -/
  | heartbeat (i x : NodeId) (now : ℤ)
  /-- An operator declares a machine failed on `i`. -/
  | failMachine (i : NodeId) (machineId : Id)

namespace PartitionedFleet

/-- Every member runs, on one side, and nobody is elected. -/
def boot (members : List FabricNode) (voters : Finset NodeId) (now : NodeId → ℤ) :
    PartitionedFleet :=
  ⟨.boot members now, voters, fun _ => 0, none, []⟩

variable (s : PartitionedFleet)

/-- The voters that run on the side of a node are a majority of all. -/
def hasMajority (i : NodeId) : Bool :=
  s.voters.card < 2 * (s.voters.filter fun v => v ∉ s.fleet.failed ∧ s.side v = s.side i).card

/-- The node is the elected leader and can still reach a majority. -/
def leads (i : NodeId) : Bool := s.elected = some i && s.hasMajority i

/-- `i` runs drop-out handling for `d`, from which it has not heard since step `silent`. -/
def record (i d : NodeId) (silent : ℕ) : PartitionedFleet :=
  { s with acts := ⟨i, d, s.fleet.clock, silent, s.hasMajority i⟩ :: s.acts }

/-- The node that restarts does not lead. -/
def reboot (members : List FabricNode) (i : NodeId) (now : ℤ) : Option PartitionedFleet :=
  (s.fleet.reboot members i now).map fun fleet =>
    { s with fleet := fleet, elected := if s.elected = some i then none else s.elected }

/-- A running node takes a step of its own. -/
def act (i : NodeId) (f : FleetNode → Option FleetNode) : Option PartitionedFleet :=
  (s.fleet.act i f).map fun fleet => { s with fleet := fleet }

/-- One action. A majority elects, and metrics come to report a node as the leader on that node
itself only while it is elected; how long they keep reporting it is open. -/
def step (members : List FabricNode) (s : PartitionedFleet) :
    PartitionAction → Option PartitionedFleet
  | .fail i => some { s with fleet := s.fleet.fail i }
  | .reboot i now => s.reboot members i now
  | .partition side => some { s with side := side }
  | .elect i =>
    if i ∈ s.voters ∧ i ∉ s.fleet.failed ∧ s.hasMajority i then some { s with elected := some i }
    else none
  | .observe i leader =>
    if leader = some i ∧ s.elected ≠ some i then none
    else s.act i fun n => some { n with currentLeader := leader }
  | .detect i refreshed now events => s.act i fun n => n.detect s.fleet.clock refreshed now events
  | .handle i =>
    (s.fleet.nodes.lookup i).bind fun n =>
      let s := ((n.reschedules i).map fun d => s.record i d (n.silent d)).getD s
      s.act i fun n => n.handle i
  | .heartbeat i x now =>
    if x ∈ s.fleet.failed then s.act i fun n => some (n.hearLate x now)
    else s.act i fun n => some (n.hear s.fleet.clock x now)
  | .failMachine i machineId =>
    (s.fleet.nodes.lookup i).bind fun n =>
      (n.failMachine s.fleet.clock machineId).bind fun (d, n') =>
        (s.record i d (n.heard d)).act i fun _ => some n'

/-- Every death is acted on by at most one node, on the side of a majority. Of two executions for one
node the later is for another death only when its node has heard from the dead one after the
earlier. -/
def AtMostOnce : Prop :=
  (∀ a ∈ s.acts, ∀ b ∈ s.acts, a.dead = b.dead → a.time ≤ b.time → b.silentSince ≤ a.time →
      a.node = b.node) ∧
    ∀ a ∈ s.acts, a.majority

/-- `i` knows of every death that another node has acted on. -/
def UpToDate (i : NodeId) : Prop :=
  ∀ a ∈ s.acts, a.node ≠ i → ∀ n ∈ s.fleet.nodes.lookup i, n.Knows a.dead a.time

/-- The condition on a step. Who passes the gate is still the leader. A new leader knows of the deaths
that others have acted on. A leader gets no heartbeat of a failed node for whose death it relies on
another node's act. An operator declares a machine failed on the leader, which does not hold it as
dead yet. -/
def LeadershipCurrent (s : PartitionedFleet) : PartitionAction → Prop
  | .elect i => s.UpToDate i
  | .handle i => ((s.fleet.nodes.lookup i).bind fun n => n.reschedules i).isSome → s.leads i
  | .heartbeat i x _ => x ∈ s.fleet.failed → s.elected = some i → ∀ a ∈ s.acts, a.node ≠ i →
      a.dead = x → ∀ n ∈ s.fleet.nodes.lookup i, a.time < n.heard x
  | .failMachine i machineId => s.leads i ∧
      ∀ n ∈ s.fleet.nodes.lookup i, ∀ m ∈ n.membership.memberForMachine machineId,
        n.membership.liveness m.node.nodeId ≠ some .dead
  | _ => True

instance (i : NodeId) : Decidable (s.UpToDate i) := inferInstanceAs (Decidable (∀ a ∈ s.acts, _))

instance : ∀ a, Decidable (s.LeadershipCurrent a)
  | .elect i => inferInstanceAs (Decidable (s.UpToDate i))
  | .handle i => inferInstanceAs (Decidable
      (((s.fleet.nodes.lookup i).bind fun n => n.reschedules i).isSome → s.leads i))
  | .heartbeat i x _ => inferInstanceAs (Decidable (x ∈ s.fleet.failed → s.elected = some i →
      ∀ a ∈ s.acts, a.node ≠ i → a.dead = x → ∀ n ∈ s.fleet.nodes.lookup i, a.time < n.heard x))
  | .failMachine i _ => inferInstanceAs (Decidable (s.leads i ∧ _))
  | .fail _ | .reboot .. | .partition _ | .observe .. | .detect .. => .isTrue trivial

end PartitionedFleet

/-! ## One node -/

namespace FleetNode

variable {n n' : FleetNode} {d : NodeId} {t : ℕ}

/-- The gate lets through exactly what `handle` acts on with a machine. -/
theorem reschedules_eq_some {self : NodeId} (h : n.handle self = some n') :
    n.reschedules self = some d ↔ ∃ m, n'.acted = ⟨d, some m, n.round⟩ :: n.acted := by
  obtain ⟨e, es, hp, ⟨x, rfl, hl, rfl⟩ | ⟨hne, rfl⟩⟩ := handle_cases h
  · unfold reschedules
    rw [hp]
    cases hm : n.machineOf x <;> simp [isLeader, hl, hm]
  · unfold reschedules
    rw [hp]
    cases e with
    | died x => simp [isLeader, hne x rfl]
    | _ => simp

theorem died_mem_of_reschedules {self : NodeId} (h : n.reschedules self = some d) :
    .died d ∈ n.pending := by
  unfold reschedules at h
  split at h
  · next hp =>
    split_ifs at h
    obtain rfl := Option.some.inj h
    rw [hp]
    exact List.mem_cons_self
  · contradiction

theorem keyed_bootTable (members : List FabricNode) (self : NodeId) (now : ℤ) :
    (bootTable members self now).Keyed :=
  List.foldlRecOn (motive := Membership.Keyed) members _ (Membership.keyed_new self)
    fun _ h x _ => h.join x now

/-- Refreshing the alive members concerns no dead one. -/
theorem liveness_refresh_of_dead (hk : n.membership.Keyed) (refreshed : NodeId → ℤ)
    (h : n.membership.liveness d = some .dead) :
    (n.refresh refreshed).liveness d = some .dead := by
  refine List.foldlRecOn (motive := fun t => Membership.liveness t d = some .dead)
    n.membership.alive _ h fun t ht x hx => ?_
  rw [Membership.liveness_heartbeatAt_of_ne _ (hk.ne_of_mem_alive hx h)]
  exact ht

theorem keyed_refresh (hk : n.membership.Keyed) (refreshed : NodeId → ℤ) :
    (n.refresh refreshed).Keyed :=
  List.foldlRecOn (motive := Membership.Keyed) n.membership.alive _ hk
    fun _ h _ _ => h.heartbeatAt _ _

theorem keyed_detect {step : ℕ} {refreshed : NodeId → ℤ} {now : ℤ} {events : List MembershipEvent}
    (hk : n.membership.Keyed) (hn : n.detect step refreshed now events = some n') :
    n'.membership.Keyed := by
  obtain ⟨-, -, rfl⟩ := detect_eq_some hn
  exact (keyed_refresh hk refreshed).tick now

theorem keyed_handle {self : NodeId} (hk : n.membership.Keyed) (hn : n.handle self = some n') :
    n'.membership.Keyed := by
  obtain ⟨_, _, -, ⟨_, -, -, rfl⟩ | ⟨-, rfl⟩⟩ := handle_cases hn
  · exact hk
  · exact hk

/-- A round reports a death only when the node was not held as dead, so it was heard since. -/
theorem Knows.detect {step : ℕ} {refreshed : NodeId → ℤ} {now : ℤ} {events : List MembershipEvent}
    (hk : n.membership.Keyed) (hn : n.detect step refreshed now events = some n')
    (h : n.Knows d t) : n'.Knows d t := by
  obtain ⟨-, hperm, rfl⟩ := detect_eq_some hn
  refine ⟨fun hd => ?_, fun hle => ?_⟩
  · obtain ⟨hnot, -⟩ := (Membership.died_mem_tick ..).1 (hperm.mem_iff.1 hd)
    by_contra hle
    exact hnot (liveness_refresh_of_dead hk refreshed (h.2 (not_lt.1 hle)))
  · exact Membership.liveness_tick_of_dead _ (liveness_refresh_of_dead hk refreshed (h.2 hle))

theorem Knows.handle {self : NodeId} (hn : n.handle self = some n') (h : n.Knows d t) :
    n'.Knows d t := by
  obtain ⟨e, es, hp, ⟨_, -, -, rfl⟩ | ⟨-, rfl⟩⟩ := handle_cases hn
  · exact ⟨fun hd => h.1 (hp ▸ List.mem_cons_of_mem e hd), h.2⟩
  · exact ⟨fun hd => h.1 (hp ▸ List.mem_cons_of_mem e hd), h.2⟩

/-- A heartbeat is either of another node or a sign of life after `t`. -/
theorem Knows.hear {step : ℕ} {x : NodeId} {now : ℤ} (ht : t < step) (h : n.Knows d t) :
    (n.hear step x now).Knows d t := by
  refine ⟨h.1, fun hle => ?_⟩
  by_cases hdx : d = x
  · subst hdx
    rw [heard_hear_self] at hle
    exact absurd ht (not_lt.2 hle)
  · rw [heard_hear_of_ne hdx] at hle
    exact (Membership.liveness_heartbeatAt_of_ne _ hdx).trans (h.2 hle)

/-- A late heartbeat does no harm when its sender was heard after `t` anyway. -/
theorem Knows.hearLate {x : NodeId} {now : ℤ} (hx : d = x → t < n.heard x) (h : n.Knows d t) :
    (n.hearLate x now).Knows d t := by
  refine ⟨h.1, fun hle => ?_⟩
  have hdx : d ≠ x := by
    rintro rfl
    exact absurd (hx rfl) (not_lt.2 hle)
  exact (Membership.liveness_heartbeatAt_of_ne _ hdx).trans (h.2 hle)

end FleetNode

/-! ## The invariant -/

namespace PartitionedFleet

variable {s s' : PartitionedFleet} {t : ℕ}

/-- Deaths are acted on once and by a majority, all before step `t`, and the elected leader knows of
the deaths that others have acted on. -/
structure Gated (s : PartitionedFleet) (t : ℕ) : Prop where
  once : s.AtMostOnce
  past : ∀ a ∈ s.acts, a.time < t
  upToDate : ∀ i, s.elected = some i → s.UpToDate i
  keyed : ∀ i n, s.fleet.nodes.lookup i = some n → n.membership.Keyed

theorem gated_boot (members : List FabricNode) (voters : Finset NodeId) (now : NodeId → ℤ) :
    (boot members voters now).Gated 0 where
  once := ⟨fun a ha => by simp [boot] at ha, fun a ha => by simp [boot] at ha⟩
  past a ha := by simp [boot] at ha
  upToDate i hi := by simp [boot] at hi
  keyed i n hn := by
    obtain ⟨x, -, rfl, hl⟩ | ⟨-, hl⟩ := HashMap.lookup_foldl_insert FabricNode.nodeId
      (fun x => FleetNode.boot members x.nodeId (now x.nodeId)) members ∅ i
    · rw [Option.some.inj (hn.symm.trans hl)]
      exact FleetNode.keyed_bootTable _ _ _
    · exact absurd (hn.symm.trans hl) (by simp)

namespace Gated

/-- A step of one node that, when it is the leader, forgets no death which others have acted on. -/
theorem act (h : s.Gated (s.fleet.clock + 1)) {i : NodeId} {f : FleetNode → Option FleetNode}
    (hs : s.act i f = some s')
    (hk : ∀ n n', s.fleet.nodes.lookup i = some n → f n = some n' → n'.membership.Keyed)
    (hf : ∀ n n', s.fleet.nodes.lookup i = some n → f n = some n' → s.elected = some i →
      ∀ a ∈ s.acts, a.node ≠ i → n.Knows a.dead a.time → n'.Knows a.dead a.time) :
    s'.Gated s'.fleet.clock := by
  obtain ⟨fleet, hfleet, rfl⟩ := Option.map_eq_some_iff.1 hs
  obtain ⟨-, n, n', hn, hn', rfl⟩ := Fleet.act_eq_some hfleet
  refine ⟨h.once, h.past, fun j hj a ha hne m hm => ?_, fun j m hj => ?_⟩
  · obtain ⟨rfl, rfl⟩ | ⟨-, hm⟩ := HashMap.lookup_insert_eq_some.1 hm
    · exact hf n n' hn hn' hj a ha hne (h.upToDate j hj a ha hne n hn)
    · exact h.upToDate j hj a ha hne m hm
  · obtain ⟨rfl, rfl⟩ | ⟨-, hj⟩ := HashMap.lookup_insert_eq_some.1 hj
    · exact hk n n' hn hn'
    · exact h.keyed j m hj

theorem mono {t' : ℕ} (h : s.Gated t) (ht : t ≤ t') : s.Gated t' :=
  ⟨h.once, fun a ha => (h.past a ha).trans_le ht, h.upToDate, h.keyed⟩

/-- The leader acts on a death later than those that other nodes have acted on. -/
theorem record (h : s.Gated s.fleet.clock) {i d : NodeId} {silent : ℕ} (hl : s.leads i)
    (hd : ∀ a ∈ s.acts, a.dead = d → a.node ≠ i → a.time < silent) :
    (s.record i d silent).Gated (s.fleet.clock + 1) := by
  obtain ⟨he, hm⟩ : s.elected = some i ∧ s.hasMajority i := by simpa [leads] using hl
  refine ⟨⟨fun a ha b hb hdead htime hsilent => ?_, fun a ha => ?_⟩, fun a ha => ?_,
    fun j hj a ha hne => ?_, h.keyed⟩
  · obtain rfl | ha := List.mem_cons.1 ha <;> obtain rfl | hb := List.mem_cons.1 hb
    · rfl
    · exact absurd htime (not_le.2 (h.past b hb))
    · by_contra hne
      exact absurd (hd a ha hdead hne) (not_lt.2 hsilent)
    · exact h.once.1 a ha b hb hdead htime hsilent
  · obtain rfl | ha := List.mem_cons.1 ha
    · exact hm
    · exact h.once.2 a ha
  · obtain rfl | ha := List.mem_cons.1 ha
    · exact Nat.lt_succ_self _
    · exact Nat.lt_succ_of_lt (h.past a ha)
  · obtain rfl := Option.some.inj (he.symm.trans hj)
    obtain rfl | ha := List.mem_cons.1 ha
    · exact absurd rfl hne
    · exact h.upToDate i he a ha hne

theorem fail (h : s.Gated s.fleet.clock) (i : NodeId) :
    Gated { s with fleet := s.fleet.fail i } (s.fleet.fail i).clock :=
  have hnext := h.mono (Nat.le_succ _)
  ⟨hnext.once, hnext.past, hnext.upToDate, hnext.keyed⟩

theorem reboot (h : s.Gated s.fleet.clock) {members : List FabricNode} {i : NodeId} {now : ℤ}
    (hs : s.reboot members i now = some s') : s'.Gated s'.fleet.clock := by
  obtain ⟨fleet, hf, rfl⟩ := Option.map_eq_some_iff.1 hs
  unfold Fleet.reboot at hf
  split_ifs at hf
  obtain ⟨n, hn, rfl⟩ := Option.map_eq_some_iff.1 hf
  refine ⟨h.once, (h.mono (Nat.le_succ _)).past, fun j hj a ha hne m hm => ?_, fun j m hj => ?_⟩
  · dsimp only at hj
    split_ifs at hj with he
    obtain ⟨rfl, -⟩ | ⟨-, hm⟩ := HashMap.lookup_insert_eq_some.1 hm
    · exact absurd hj he
    · exact h.upToDate j hj a ha hne m hm
  · obtain ⟨rfl, rfl⟩ | ⟨-, hj⟩ := HashMap.lookup_insert_eq_some.1 hj
    · exact FleetNode.keyed_bootTable _ _ _
    · exact h.keyed j m hj

/-- What the leader has not heard since another node's act is no news to it. -/
theorem knows (h : s.Gated t) {i : NodeId} {n : FleetNode} (hl : s.leads i)
    (hn : s.fleet.nodes.lookup i = some n) {a : Reschedule} (ha : a ∈ s.acts) (hne : a.node ≠ i) :
    n.Knows a.dead a.time := by
  have he : s.elected = some i := by
    simp only [leads, Bool.and_eq_true, decide_eq_true_eq] at hl
    exact hl.1
  exact h.upToDate i he a ha hne n hn

/-- The leader acts on what its detector has reported; whoever does not lead drops it. -/
theorem handle {members : List FabricNode} {i : NodeId} (h : s.Gated s.fleet.clock)
    (hg : s.LeadershipCurrent (.handle i)) (hs : s.step members (.handle i) = some s') :
    s'.Gated s'.fleet.clock := by
  obtain ⟨n, hn, hs⟩ := Option.bind_eq_some_iff.1 hs
  have hrec : (((n.reschedules i).map fun d => s.record i d (n.silent d)).getD s).Gated
        (s.fleet.clock + 1) ∧
      (((n.reschedules i).map fun d => s.record i d (n.silent d)).getD s).fleet = s.fleet := by
    cases hr : n.reschedules i with
    | none => exact ⟨h.mono (Nat.le_succ _), rfl⟩
    | some d =>
      have hl : s.leads i := hg (by simp [hn, hr])
      refine ⟨h.record hl fun a ha hd hne => ?_, rfl⟩
      have hreported : .died a.dead ∈ n.pending := hd ▸ FleetNode.died_mem_of_reschedules hr
      exact hd ▸ (h.knows hl hn ha hne).1 hreported
  obtain ⟨hrec, hfleet⟩ := hrec
  rw [← hfleet] at hrec
  refine hrec.act hs (fun m m' hm hf => ?_) fun m m' _ hf _ a _ _ hold => hold.handle hf
  exact FleetNode.keyed_handle (h.keyed i m (hfleet ▸ hm)) hf

/-- A sign of life at the leader begins a new death; a late heartbeat is covered by the condition. -/
theorem heartbeat {members : List FabricNode} {i x : NodeId} {now : ℤ} (h : s.Gated s.fleet.clock)
    (hg : s.LeadershipCurrent (.heartbeat i x now))
    (hs : s.step members (.heartbeat i x now) = some s') : s'.Gated s'.fleet.clock := by
  have hnext := h.mono (Nat.le_succ _)
  simp only [PartitionedFleet.step] at hs
  split_ifs at hs with hx
  · refine hnext.act hs (fun n n' hn hf => ?_) fun n n' hn hf he a ha hne hold => ?_
    · obtain rfl := Option.some.inj hf
      exact (h.keyed i n hn).heartbeatAt x now
    · obtain rfl := Option.some.inj hf
      exact hold.hearLate fun hd => hg hx he a ha hne hd n hn
  · refine hnext.act hs (fun n n' hn hf => ?_) fun n n' _ hf _ a ha _ hold => ?_
    · obtain rfl := Option.some.inj hf
      exact (h.keyed i n hn).heartbeatAt x now
    · obtain rfl := Option.some.inj hf
      exact hold.hear (h.past a ha)

theorem failMachine {members : List FabricNode} {i : NodeId} {machineId : Id}
    (h : s.Gated s.fleet.clock) (hg : s.LeadershipCurrent (.failMachine i machineId))
    (hs : s.step members (.failMachine i machineId) = some s') : s'.Gated s'.fleet.clock := by
  obtain ⟨n, hn, hs⟩ := Option.bind_eq_some_iff.1 hs
  obtain ⟨⟨d, n'⟩, hf, hs⟩ := Option.bind_eq_some_iff.1 hs
  obtain ⟨m, hm, hmd⟩ := Option.map_eq_some_iff.1 hf
  obtain ⟨rfl, rfl⟩ := Prod.mk.inj hmd
  obtain ⟨hl, hnot⟩ := hg
  have hrec : (s.record i m.node.nodeId (n.heard m.node.nodeId)).Gated (s.fleet.clock + 1) := by
    refine h.record hl fun a ha hd hne => ?_
    by_contra hle
    exact hnot n hn m hm (hd ▸ (h.knows hl hn ha hne).2 (not_lt.1 (hd ▸ hle)))
  refine hrec.act hs (fun k k' hk hf => ?_) fun k k' hk hf _ a _ _ hold => ?_
  · obtain rfl := Option.some.inj hf
    exact (h.keyed i n hn).forceDead _
  · obtain rfl := Option.some.inj hf
    obtain rfl := Option.some.inj (hn.symm.trans hk)
    exact ⟨hold.1, fun hle => Membership.liveness_forceDead_of_dead _ (hold.2 hle)⟩

/-- **A step under the condition.** -/
theorem step {members : List FabricNode} {a : PartitionAction} (h : s.Gated s.fleet.clock)
    (hg : s.LeadershipCurrent a) (hs : s.step members a = some s') : s'.Gated s'.fleet.clock := by
  cases a with
  | fail i => exact Option.some.inj hs ▸ h.fail i
  | reboot i now => exact h.reboot hs
  | partition side =>
    obtain rfl := Option.some.inj hs
    exact ⟨h.once, h.past, h.upToDate, h.keyed⟩
  | elect i =>
    simp only [PartitionedFleet.step] at hs
    split_ifs at hs
    obtain rfl := Option.some.inj hs
    refine ⟨h.once, h.past, fun j hj => ?_, h.keyed⟩
    obtain rfl := Option.some.inj hj
    exact hg
  | observe i leader =>
    simp only [PartitionedFleet.step] at hs
    split_ifs at hs
    refine (h.mono (Nat.le_succ _)).act hs (fun n n' hn hf => ?_) fun n n' _ hf _ a _ _ hold => ?_
    · obtain rfl := Option.some.inj hf
      exact h.keyed i n hn
    · obtain rfl := Option.some.inj hf
      exact hold
  | detect i refreshed now events =>
    exact (h.mono (Nat.le_succ _)).act hs
      (fun n n' hn hf => FleetNode.keyed_detect (h.keyed i n hn) hf)
      fun n n' hn hf _ a _ _ hold => hold.detect (h.keyed i n hn) hf
  | handle i => exact h.handle hg hs
  | heartbeat i x now => exact h.heartbeat hg hs
  | failMachine i machineId => exact h.failMachine hg hs

end Gated

/-! ## Runs -/

/-- **Rescheduling is gated by the quorum.** In every state of a run from boot, under any partitions,
elections and delays of the metrics, whose steps meet the condition: each death of a node is acted on
by at most one node, and that node's side held a majority of the voters. -/
theorem rescheduled_at_most_once (members : List FabricNode) (voters : Finset NodeId)
    (now : NodeId → ℤ) (as : List PartitionAction)
    (hg : Guarded (step members) LeadershipCurrent (boot members voters now) as) :
    ∀ n t, run (step members) (boot members voters now) (as.take n) = some t → t.AtMostOnce := by
  intro n t ht
  have hgated : t.Gated t.fleet.clock :=
    (hg.take n).invariant (I := fun s => s.Gated s.fleet.clock) (fun _ _ _ h hg hs => h.step hg hs)
      (gated_boot members voters now) ht
  exact hgated.once

/-- Three voters and a fourth node. -/
def fourNodes : List FabricNode :=
  ["n1", "n2", "n3", "n4"].map fun name =>
    { FabricNode.new ⟨name⟩ [] [name ++ ":7946"] with machineId := some ⟨"m-" ++ name⟩ }

/-- The fourth node has no vote. -/
def threeVoters : Finset NodeId := {⟨"n1"⟩, ⟨"n2"⟩, ⟨"n3"⟩}

/-- A clock that stalls for half a minute after the refresh of `n4`. -/
def stallsAtFour (now : ℤ) (id : NodeId) : ℤ := if id = ⟨"n4"⟩ then now - 30000 else now

/-- `n1` is cut off from the others. -/
def withoutFirst (i : NodeId) : ℕ := if i = ⟨"n1"⟩ then 1 else 0

/-- `n4` fails; `n1` leads and acts on the death, which `n2` has dropped. Then `n1` is cut off, `n2` is
elected, `n4` restarts, is heard by `n2` and fails again, and `n2` acts on this second death. -/
def handover : List PartitionAction :=
  [.elect ⟨"n1"⟩, .observe ⟨"n1"⟩ (some ⟨"n1"⟩), .fail ⟨"n4"⟩,
    .detect ⟨"n1"⟩ (stallsAtFour 30000) 30000 [.died ⟨"n4"⟩],
    .detect ⟨"n2"⟩ (stallsAtFour 30000) 30000 [.died ⟨"n4"⟩], .handle ⟨"n2"⟩, .handle ⟨"n1"⟩,
    .partition withoutFirst, .elect ⟨"n2"⟩, .observe ⟨"n2"⟩ (some ⟨"n2"⟩), .reboot ⟨"n4"⟩ 40000,
    .heartbeat ⟨"n2"⟩ ⟨"n4"⟩ 40000, .fail ⟨"n4"⟩,
    .detect ⟨"n2"⟩ (stallsAtFour 80000) 80000 [.died ⟨"n4"⟩], .handle ⟨"n2"⟩]

/-- The act of `n2` is for a silence that began at step 8, after the act of `n1` at step 5. -/
theorem rescheduled_at_most_once_handover :
    ∃ s, run (step fourNodes) (boot fourNodes threeVoters fun _ => 0) handover = some s ∧
      s.acts = [⟨⟨"n2"⟩, ⟨"n4"⟩, 11, 8, true⟩, ⟨⟨"n1"⟩, ⟨"n4"⟩, 5, 0, true⟩] ∧ s.AtMostOnce :=
  ⟨_, rfl, by decide,
    rescheduled_at_most_once fourNodes threeVoters (fun _ => 0) handover (by decide)
      handover.length _ rfl⟩

/-- `n1` leads and is cut off, `n2` is elected by the majority, and both detectors see `n4` die. -/
def isolatedLeader : List PartitionAction :=
  [.elect ⟨"n1"⟩, .observe ⟨"n1"⟩ (some ⟨"n1"⟩), .partition withoutFirst, .fail ⟨"n4"⟩,
    .elect ⟨"n2"⟩, .observe ⟨"n2"⟩ (some ⟨"n2"⟩),
    .detect ⟨"n1"⟩ (stallsAtFour 30000) 30000 [.died ⟨"n4"⟩], .handle ⟨"n1"⟩,
    .detect ⟨"n2"⟩ (stallsAtFour 30000) 30000 [.died ⟨"n4"⟩], .handle ⟨"n2"⟩]

/-- Both reschedule the workloads of `n4`, the former leader without a majority. -/
theorem isolated_leader_reschedules_too :
    ∃ s, run (step fourNodes) (boot fourNodes threeVoters fun _ => 0) isolatedLeader = some s ∧
      s.acts = [⟨⟨"n2"⟩, ⟨"n4"⟩, 6, 0, true⟩, ⟨⟨"n1"⟩, ⟨"n4"⟩, 4, 0, false⟩] ∧
      (¬∀ a ∈ s.acts, a.majority) ∧ ¬s.AtMostOnce := by
  refine ⟨_, rfl, by decide, by decide, fun h => ?_⟩
  have hnode := h.1 ⟨⟨"n1"⟩, ⟨"n4"⟩, 4, 0, false⟩ (by decide) ⟨⟨"n2"⟩, ⟨"n4"⟩, 6, 0, true⟩ (by decide)
    rfl (by decide) (by decide)
  exact absurd hnode (by decide)

end PartitionedFleet

end OCF.Api
