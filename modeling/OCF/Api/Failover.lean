import OCF.Fabric.Membership
import OCF.Foundations.Run
import Mathlib.Data.Finset.Erase

/-!
# Failover

Every node runs the failure detector on its own table and handles the transitions of a tick one by
one. A death is acted on only by the node that Raft reports as the leader at that moment
(`onNodeDead`); on every other node it is dropped, with the intent that the leader takes care of
it. A tick reports a death once, so a node that has dropped a death and becomes the leader later
never acts on it.

A fleet is the nodes with what their Raft metrics report, and a run is any interleaving of failures,
restarts, ticks, handled transitions, heartbeats and changes of the reported leader. A node can die
more than once, or be taken for dead while it runs, so the steps of a run are numbered and two deaths
are told apart by what was heard between them: an act answers a death of `d` when `d` was not heard
after the round of the detector that the act is for (`Fleet.ActedOn`). `ElectionGuard` is the
condition on the steps, and `no_missed_failover` is the result for every run under it.
-/

namespace OCF.Api

open OCF.Fabric

/-- An execution of drop-out handling past the gate. -/
structure Act where
  dead : NodeId
  /-- The machine whose workloads are rescheduled. -/
  machineId : Option Id
  /-- The step at which the detector reported the death. -/
  reported : ℕ

/-- A node of the fleet. -/
structure FleetNode where
  membership : Membership
  /-- The transitions of the last tick that are not handled yet. -/
  pending : List MembershipEvent
  /-- The leader that the node's Raft metrics report. -/
  currentLeader : Option NodeId
  /-- The step at which the node last heard from each of the others. -/
  heard : NodeId → ℕ
  /-- The step of the last round of the detector. -/
  round : ℕ
  /-- What `heard` was at that round. -/
  silent : NodeId → ℕ
  acted : List Act

namespace FleetNode

/-- The table of a node that has registered the members of the fleet. -/
def bootTable (members : List FabricNode) (self : NodeId) (now : ℤ) : Membership :=
  members.foldl (fun t x => (t.join x now).2) (.new self)

/-- A node that has registered the members of the fleet. -/
def boot (members : List FabricNode) (self : NodeId) (now : ℤ) : FleetNode :=
  ⟨bootTable members self now, [], none, fun _ => 0, 0, fun _ => 0, []⟩

/-- The process starts again with a new table; what happened before stays on record. -/
def reboot (n : FleetNode) (members : List FabricNode) (self : NodeId) (now : ℤ) : FleetNode :=
  { n with membership := bootTable members self now, pending := [], currentLeader := none }

/-- Raft's metrics report the node itself as the leader. -/
def isLeader (n : FleetNode) (self : NodeId) : Bool := n.currentLeader = some self

/-- The machine behind a member. -/
def machineOf (n : FleetNode) (d : NodeId) : Option Id :=
  (n.membership.listMembers.find? fun m => m.node.nodeId = d).bind fun m => m.node.machineId

/-- Run drop-out handling for a dead node, on the leader only. -/
def onNodeDead (n : FleetNode) (self d : NodeId) : FleetNode :=
  if !n.isLeader self then n else { n with acted := ⟨d, n.machineOf d, n.round⟩ :: n.acted }

/-- The members that are alive are refreshed. The clock is read anew for each of them. -/
def refresh (n : FleetNode) (refreshed : NodeId → ℤ) : Membership :=
  n.membership.alive.foldl (fun t x => (t.heartbeatAt x.nodeId (refreshed x.nodeId)).2) n.membership

/-- One round of the detector, when the last one is handled: refresh the members, then tick the
table. `events` are the transitions in the order in which the table is iterated. -/
def detect (n : FleetNode) (step : ℕ) (refreshed : NodeId → ℤ) (now : ℤ)
    (events : List MembershipEvent) : Option FleetNode :=
  let ticked := (n.refresh refreshed).tick now
  if n.pending = [] ∧ events.Perm ticked.1 then
    some { n with membership := ticked.2, pending := events, round := step, silent := n.heard }
  else none

/-- Handle the next transition of the last tick. -/
def handle (n : FleetNode) (self : NodeId) : Option FleetNode :=
  match n.pending with
  | [] => none
  | .died d :: es => some ({ n with pending := es }.onNodeDead self d)
  | _ :: es => some { n with pending := es }

/-- A heartbeat of `x` arrives. -/
def hear (n : FleetNode) (step : ℕ) (x : NodeId) (now : ℤ) : FleetNode :=
  { n with
    membership := (n.membership.heartbeatAt x now).2
    heard := Function.update n.heard x step }

end FleetNode

/-! ## One node -/

namespace FleetNode

variable {n n' : FleetNode}

@[simp]
theorem heard_hear_self {step : ℕ} {x : NodeId} {now : ℤ} : (n.hear step x now).heard x = step :=
  Function.update_self ..

theorem heard_hear_of_ne {step : ℕ} {x d : NodeId} {now : ℤ} (h : d ≠ x) :
    (n.hear step x now).heard d = n.heard d :=
  Function.update_of_ne h ..

theorem liveness_join_ne_dead {t : Membership} {x : FabricNode} {now : ℤ}
    (h : ∀ d, t.liveness d ≠ some .dead) (d : NodeId) : (t.join x now).2.liveness d ≠ some .dead := by
  unfold Membership.join
  dsimp only
  split <;>
  · rw [Membership.liveness, HashMap.lookup_insert_eq]
    split_ifs
    · simp
    · exact h d

/-- A new table holds nobody as dead. -/
theorem liveness_bootTable (members : List FabricNode) (self : NodeId) (now : ℤ) (d : NodeId) :
    (bootTable members self now).liveness d ≠ some .dead := by
  refine List.foldlRecOn (motive := fun t => ∀ d, Membership.liveness t d ≠ some .dead)
    members _ ?_ (fun t ht x _ => liveness_join_ne_dead ht) d
  intro d
  simp [Membership.new, Membership.withTimeouts, Membership.liveness]

/-- Refreshing members makes nobody dead. -/
theorem liveness_of_foldl_heartbeatAt {xs : List FabricNode} {refreshed : NodeId → ℤ}
    {t : Membership} {d : NodeId}
    (h : (xs.foldl (fun t x => (t.heartbeatAt x.nodeId (refreshed x.nodeId)).2) t).liveness d =
      some .dead) : t.liveness d = some .dead := by
  induction xs generalizing t with
  | nil => exact h
  | cons x xs ih => exact t.liveness_of_heartbeatAt (ih h)

/-- What a round of the detector does. -/
theorem detect_eq_some {step : ℕ} {refreshed : NodeId → ℤ} {now : ℤ}
    {events : List MembershipEvent} (h : n.detect step refreshed now events = some n') :
    n.pending = [] ∧ events.Perm ((n.refresh refreshed).tick now).1 ∧
      n' = { n with
        membership := ((n.refresh refreshed).tick now).2
        pending := events
        round := step
        silent := n.heard } := by
  simp only [FleetNode.detect] at h
  split_ifs at h with hif
  exact ⟨hif.1, hif.2, (Option.some.inj h).symm⟩

/-- A member that a round of the detector finds dead was dead before, or its death is reported. -/
theorem dead_of_detect {step : ℕ} {refreshed : NodeId → ℤ} {now : ℤ}
    {events : List MembershipEvent} (h : n.detect step refreshed now events = some n') {d : NodeId}
    (hd : n'.membership.liveness d = some .dead) :
    n.membership.liveness d = some .dead ∨ .died d ∈ n'.pending := by
  obtain ⟨-, hperm, rfl⟩ := detect_eq_some h
  by_cases hold : (n.refresh refreshed).liveness d = some .dead
  · exact .inl (liveness_of_foldl_heartbeatAt hold)
  · exact .inr (hperm.mem_iff.2 ((Membership.died_mem_tick ..).2 ⟨hold, hd⟩))

/-- What handling a transition does: a death is acted on by the leader and dropped by the others,
anything else is only taken off the list. -/
theorem handle_cases {self : NodeId} (h : n.handle self = some n') :
    ∃ e es, n.pending = e :: es ∧
      ((∃ d, e = .died d ∧ n.currentLeader = some self ∧ n' = { n with
          pending := es
          acted := ⟨d, n.machineOf d, n.round⟩ :: n.acted }) ∨
        ((∀ d, e = .died d → n.currentLeader ≠ some self) ∧ n' = { n with pending := es })) := by
  unfold handle at h
  split at h
  · simp at h
  · next d es hp =>
    obtain rfl := Option.some.inj h
    refine ⟨_, es, hp, ?_⟩
    by_cases hl : n.currentLeader = some self
    · refine .inl ⟨d, rfl, hl, ?_⟩
      simp [onNodeDead, isLeader, hl, machineOf]
    · refine .inr ⟨fun _ _ => hl, ?_⟩
      simp [onNodeDead, isLeader, hl]
  · next e es hne hp =>
    obtain rfl := Option.some.inj h
    exact ⟨e, es, hp, .inr ⟨fun d hd => absurd hd (hne d), rfl⟩⟩

end FleetNode

/-! ## The fleet -/

/-- The nodes, those of them that have failed, and the number of steps taken. -/
structure Fleet where
  nodes : HashMap NodeId FleetNode
  failed : Finset NodeId
  clock : ℕ

/-- A step of the fleet. -/
inductive FleetAction
  | fail (i : NodeId)
  /-- A node that has failed restarts with a new table. -/
  | reboot (i : NodeId) (now : ℤ)
  | detect (i : NodeId) (refreshed : NodeId → ℤ) (now : ℤ) (events : List MembershipEvent)
  | handle (i : NodeId)
  /-- A heartbeat of `x` arrives at `i`. -/
  | heartbeat (i x : NodeId) (now : ℤ)
  /-- The Raft metrics of `i` report another leader. -/
  | observe (i : NodeId) (leader : Option NodeId)

namespace Fleet

/-- Every member runs and has registered all of them. -/
def boot (members : List FabricNode) (now : NodeId → ℤ) : Fleet :=
  ⟨members.foldl (fun ns x => ns.insert x.nodeId (.boot members x.nodeId (now x.nodeId))) ∅, ∅, 0⟩

/-- The nodes that have not failed are a majority. -/
def hasQuorum (s : Fleet) : Bool :=
  s.nodes.keys.length < 2 * (s.nodes.keys.filter fun i => i ∉ s.failed).length

/-- A surviving node takes a step of its own. -/
def act (s : Fleet) (i : NodeId) (f : FleetNode → Option FleetNode) : Option Fleet :=
  if i ∈ s.failed then none
  else ((s.nodes.lookup i).bind f).map fun n =>
    { s with nodes := s.nodes.insert i n, clock := s.clock + 1 }

/-- A node fails. -/
def fail (s : Fleet) (i : NodeId) : Fleet :=
  { s with failed := insert i s.failed, clock := s.clock + 1 }

/-- A node that has failed restarts. -/
def reboot (s : Fleet) (members : List FabricNode) (i : NodeId) (now : ℤ) : Option Fleet :=
  if i ∈ s.failed then
    (s.nodes.lookup i).map fun n =>
      ⟨s.nodes.insert i (n.reboot members i now), s.failed.erase i, s.clock + 1⟩
  else none

/-- A node that has failed takes no step and sends nothing until it restarts, and Raft elects a leader
only while a majority survives. -/
def step (members : List FabricNode) (s : Fleet) : FleetAction → Option Fleet
  | .fail i => some (s.fail i)
  | .reboot i now => s.reboot members i now
  | .detect i refreshed now events => s.act i fun n => n.detect s.clock refreshed now events
  | .handle i => s.act i fun n => n.handle i
  | .heartbeat i x now =>
    if x ∈ s.failed then none else s.act i fun n => some (n.hear s.clock x now)
  | .observe i leader =>
    if leader = some i ∧ !s.hasQuorum then none
    else s.act i fun n => some { n with currentLeader := leader }

/-! ## Deaths that are answered -/

variable {s s' : Fleet}

/-- No node has heard from `d` after step `r`. -/
def Unheard (s : Fleet) (d : NodeId) (r : ℕ) : Prop :=
  ∀ j m, s.nodes.lookup j = some m → m.heard d ≤ r

/-- `d` was not heard after step `r`: nowhere when it has failed, and not at `l` when it runs. -/
def SilentSince (s : Fleet) (l d : NodeId) (r : ℕ) : Prop :=
  ∀ j m, s.nodes.lookup j = some m → (d ∈ s.failed ∨ j = l) → m.heard d ≤ r

/-- Drop-out handling has run past the gate for `d`, on another node, for a report made at a step that
meets `P`. -/
def ActedOn (s : Fleet) (d : NodeId) (P : ℕ → Prop) : Prop :=
  ∃ i n, i ≠ d ∧ s.nodes.lookup i = some n ∧ ∃ a ∈ n.acted, a.dead = d ∧ P a.reported

/-- The death of `d`, reported at a step that meets `P`, is still to be handled by `l` or was acted
on. -/
def Answered (s : Fleet) (l d : NodeId) (P : ℕ → Prop) : Prop :=
  (∃ n, s.nodes.lookup l = some n ∧ .died d ∈ n.pending ∧ P n.round) ∨ s.ActedOn d P

/-- Nothing is heard in the future, and every death that a surviving leader knows of is answered. -/
structure Covered (s : Fleet) : Prop where
  heard_le : ∀ j m, s.nodes.lookup j = some m → ∀ d, m.heard d ≤ s.clock
  answered : ∀ l n, s.nodes.lookup l = some n → l ∉ s.failed → n.currentLeader = some l →
    ∀ d, d ≠ l → n.membership.liveness d = some .dead → s.Answered l d (s.SilentSince l d)

/-- The condition on a step. A node becomes the leader only when every death it knows of is answered.
When a node fails that a leader holds as dead already, that death is answered and nobody has heard
from the node since. -/
def ElectionGuard (s : Fleet) : FleetAction → Prop
  | .observe i leader => leader = some i → ∀ n, s.nodes.lookup i = some n →
      ∀ d, d ≠ i → n.membership.liveness d = some .dead → s.Answered i d (s.SilentSince i d)
  | .fail d => ∀ l n, s.nodes.lookup l = some n → l ∉ s.failed → n.currentLeader = some l →
      d ≠ l → n.membership.liveness d = some .dead → s.Answered l d (s.Unheard d)
  | _ => True

theorem act_eq_some {i : NodeId} {f : FleetNode → Option FleetNode} (h : s.act i f = some s') :
    i ∉ s.failed ∧ ∃ n n', s.nodes.lookup i = some n ∧ f n = some n' ∧
      s' = { s with nodes := s.nodes.insert i n', clock := s.clock + 1 } := by
  unfold act at h
  split_ifs at h with hi
  obtain ⟨n', hn', rfl⟩ := Option.map_eq_some_iff.1 h
  obtain ⟨n, hn, hf⟩ := Option.bind_eq_some_iff.1 hn'
  exact ⟨hi, n, n', hn, hf, rfl⟩

section Update

-- the step of one node: `i` goes from `n` to `n'`, and of the failed nodes at most `i` restarts
variable {i : NodeId} {n n' : FleetNode} {failed : Finset NodeId} {d l : NodeId}

theorem SilentSince.update {r : ℕ} (h : s.SilentSince l d r) (hn : s.nodes.lookup i = some n)
    (hfailed : failed ⊆ s.failed) (hheard : d ∈ s.failed ∨ i = l → n'.heard d = n.heard d) :
    SilentSince ⟨s.nodes.insert i n', failed, s.clock + 1⟩ l d r := by
  intro j m hj hd
  have hd' : d ∈ s.failed ∨ j = l := hd.imp_left fun hf => hfailed hf
  obtain ⟨rfl, rfl⟩ | ⟨-, hj⟩ := HashMap.lookup_insert_eq_some.1 hj
  · rw [hheard hd']
    exact h j n hn hd'
  · exact h j m hj hd'

theorem ActedOn.update {P Q : ℕ → Prop} (h : s.ActedOn d P) (hn : s.nodes.lookup i = some n)
    (hacted : n.acted ⊆ n'.acted) (hPQ : ∀ r, P r → Q r) :
    ActedOn ⟨s.nodes.insert i n', failed, s.clock + 1⟩ d Q := by
  obtain ⟨j, m, hne, hj, a, ha, had, hP⟩ := h
  by_cases hji : j = i
  · subst hji
    obtain rfl := Option.some.inj (hn.symm.trans hj)
    exact ⟨j, n', hne, AList.lookup_insert _, a, hacted ha, had, hPQ _ hP⟩
  · exact ⟨j, m, hne, (AList.lookup_insert_ne hji).trans hj, a, ha, had, hPQ _ hP⟩

/-- A step of one node that forgets no act and hears from no failed node. The deaths that the node
knows of as a leader are the obligation that is left. -/
theorem Covered.update (h : s.Covered) (hn : s.nodes.lookup i = some n)
    (hfailed : failed ⊆ s.failed) (hother : ∀ l, l ≠ i → l ∉ failed → l ∉ s.failed)
    (hacted : n.acted ⊆ n'.acted) (hheard : ∀ d ∈ s.failed, n'.heard d = n.heard d)
    (hclock : ∀ d, n'.heard d ≤ s.clock)
    (hlead : n'.currentLeader = some i → ∀ d, d ≠ i → n'.membership.liveness d = some .dead →
      Answered ⟨s.nodes.insert i n', failed, s.clock + 1⟩ i d
        (SilentSince ⟨s.nodes.insert i n', failed, s.clock + 1⟩ i d)) :
    Covered ⟨s.nodes.insert i n', failed, s.clock + 1⟩ := by
  refine ⟨fun j m hj d => ?_, fun l m hl hs hm d hd hdead => ?_⟩
  · obtain ⟨rfl, rfl⟩ | ⟨-, hj⟩ := HashMap.lookup_insert_eq_some.1 hj
    · exact Nat.le_succ_of_le (hclock d)
    · exact Nat.le_succ_of_le (h.heard_le j m hj d)
  · obtain ⟨rfl, rfl⟩ | ⟨hli, hl⟩ := HashMap.lookup_insert_eq_some.1 hl
    · exact hlead hm d hd hdead
    · have hsilent : ∀ r, s.SilentSince l d r →
          SilentSince ⟨s.nodes.insert i n', failed, s.clock + 1⟩ l d r := fun r hr =>
        hr.update hn hfailed fun hor => hheard d (hor.resolve_right (Ne.symm hli))
      obtain ⟨m', hm', hp, hr⟩ | hact := h.answered l m hl (hother l hli hs) hm d hd hdead
      · exact .inl ⟨m', (AList.lookup_insert_ne hli).trans hm', hp, hsilent _ hr⟩
      · exact .inr (hact.update hn hacted hsilent)

end Update

theorem covered_boot (members : List FabricNode) (now : NodeId → ℤ) :
    (boot members now).Covered := by
  have hnode : ∀ i n, (boot members now).nodes.lookup i = some n → ∃ t, n = .boot members i t := by
    intro i n hn
    obtain ⟨x, -, rfl, hl⟩ | ⟨-, hl⟩ := HashMap.lookup_foldl_insert FabricNode.nodeId
      (fun x => FleetNode.boot members x.nodeId (now x.nodeId)) members ∅ i
    · exact ⟨_, Option.some.inj (hn.symm.trans hl)⟩
    · exact absurd (hn.symm.trans hl) (by simp)
  refine ⟨fun i n hn d => ?_, fun i n hn _ hl => ?_⟩
  · obtain ⟨t, rfl⟩ := hnode i n hn
    exact le_rfl
  · obtain ⟨t, rfl⟩ := hnode i n hn
    simp [FleetNode.boot] at hl

/-! ## Steps -/

namespace Covered

/-- A failure leaves the deaths of the other nodes as they are. -/
theorem fail (h : s.Covered) {x : NodeId} (hg : ElectionGuard s (.fail x)) : (s.fail x).Covered := by
  refine ⟨fun j m hj d => Nat.le_succ_of_le (h.heard_le j m hj d),
    fun l n hl hs hlead d hd hdead => ?_⟩
  have hs' : l ∉ s.failed := fun hf => hs (Finset.mem_insert_of_mem hf)
  by_cases hdx : d = x
  · subst hdx
    have hunheard : ∀ r, s.Unheard d r → (s.fail d).SilentSince l d r :=
      fun r hr j m hj _ => hr j m hj
    obtain ⟨n', hn', hp, hr⟩ | ⟨i, m, hne, hi, a, ha, had, hr⟩ := hg l n hl hs' hlead hd hdead
    · exact .inl ⟨n', hn', hp, hunheard _ hr⟩
    · exact .inr ⟨i, m, hne, hi, a, ha, had, hunheard _ hr⟩
  · have hsilent : ∀ r, s.SilentSince l d r → (s.fail x).SilentSince l d r := by
      intro r hr j m hj hor
      exact hr j m hj (hor.imp_left fun hf => (Finset.mem_insert.1 hf).resolve_left hdx)
    obtain ⟨n', hn', hp, hr⟩ | ⟨i, m, hne, hi, a, ha, had, hr⟩ :=
      h.answered l n hl hs' hlead d hd hdead
    · exact .inl ⟨n', hn', hp, hsilent _ hr⟩
    · exact .inr ⟨i, m, hne, hi, a, ha, had, hsilent _ hr⟩

theorem reboot (h : s.Covered) {members : List FabricNode} {i : NodeId} {now : ℤ}
    (hs : s.reboot members i now = some s') : s'.Covered := by
  unfold Fleet.reboot at hs
  split_ifs at hs
  obtain ⟨n, hn, rfl⟩ := Option.map_eq_some_iff.1 hs
  refine h.update hn (Finset.erase_subset _ _) (fun l hl hf hmem => ?_) (List.Subset.refl _)
    (fun d _ => rfl) (h.heard_le i n hn) fun hlead => ?_
  · exact hf (Finset.mem_erase.2 ⟨hl, hmem⟩)
  · simp [FleetNode.reboot] at hlead

/-- A death that is news to the leader is reported at this step; the others it knew of were acted on,
since nothing is left of the last round. -/
theorem detect (h : s.Covered) {i : NodeId} {refreshed : NodeId → ℤ} {now : ℤ}
    {events : List MembershipEvent}
    (hs : (s.act i fun n => n.detect s.clock refreshed now events) = some s') : s'.Covered := by
  obtain ⟨hi, n, n', hn, hf, rfl⟩ := act_eq_some hs
  obtain ⟨hp, -, hn'⟩ := FleetNode.detect_eq_some hf
  have hheard : n'.heard = n.heard := by rw [hn']
  have hacted : n'.acted = n.acted := by rw [hn']
  refine h.update hn (Finset.Subset.refl _) (fun l _ hl => hl) (hacted ▸ List.Subset.refl _)
    (fun d _ => congrFun hheard d) (fun d => hheard ▸ h.heard_le i n hn d) fun hlead d hd hdead => ?_
  obtain hold | hnew := FleetNode.dead_of_detect hf hdead
  · have hlead' : n.currentLeader = some i := by rw [← hlead, hn']
    obtain ⟨m, hm, hpend, -⟩ | hact := h.answered i n hn hi hlead' d hd hold
    · obtain rfl := Option.some.inj (hn.symm.trans hm)
      rw [hp] at hpend
      exact absurd hpend List.not_mem_nil
    · exact .inr (hact.update hn (hacted ▸ List.Subset.refl _)
        fun r hr => hr.update hn (Finset.Subset.refl _) fun _ => congrFun hheard d)
  · refine .inl ⟨n', AList.lookup_insert _, hnew, fun j m hj _ => ?_⟩
    have hround : n'.round = s.clock := by rw [hn']
    rw [hround]
    obtain ⟨-, rfl⟩ | ⟨-, hj⟩ := HashMap.lookup_insert_eq_some.1 hj
    · exact hheard ▸ h.heard_le i n hn d
    · exact h.heard_le j m hj d

/-- The leader acts on the death it takes off its list. -/
theorem handle (h : s.Covered) {i : NodeId} (hs : (s.act i fun n => n.handle i) = some s') :
    s'.Covered := by
  obtain ⟨hi, n, n', hn, hf, rfl⟩ := act_eq_some hs
  obtain ⟨e, es, hp, hcases⟩ := FleetNode.handle_cases hf
  have hframe : n'.heard = n.heard ∧ n'.currentLeader = n.currentLeader ∧
      n'.membership = n.membership ∧ n'.pending = es ∧ n'.round = n.round ∧ n.acted ⊆ n'.acted := by
    obtain ⟨_, -, -, rfl⟩ | ⟨-, rfl⟩ := hcases
    · exact ⟨rfl, rfl, rfl, rfl, rfl, List.subset_cons_self _ _⟩
    · exact ⟨rfl, rfl, rfl, rfl, rfl, List.Subset.refl _⟩
  obtain ⟨hheard, hleader, hmem, hpend', hround, hacted⟩ := hframe
  have hsilent : ∀ d r, s.SilentSince i d r → SilentSince
      { s with nodes := s.nodes.insert i n', clock := s.clock + 1 } i d r := fun d r hr =>
    hr.update hn (Finset.Subset.refl _) fun _ => congrFun hheard d
  refine h.update hn (Finset.Subset.refl _) (fun l _ hl => hl) hacted (fun d _ => congrFun hheard d)
    (fun d => hheard ▸ h.heard_le i n hn d) fun hlead d hd hdead => ?_
  rw [hleader] at hlead
  rw [hmem] at hdead
  obtain ⟨m, hm, hpend, hr⟩ | hact := h.answered i n hn hi hlead d hd hdead
  · obtain rfl := Option.some.inj (hn.symm.trans hm)
    rw [hp] at hpend
    obtain rfl | hes := List.mem_cons.1 hpend
    · obtain ⟨x, hx, -, hact⟩ | ⟨hne, -⟩ := hcases
      · obtain rfl := MembershipEvent.died.inj hx
        refine .inr ⟨i, n', hd.symm, AList.lookup_insert _, ⟨d, n.machineOf d, n.round⟩, ?_, rfl,
          hsilent d _ hr⟩
        rw [hact]
        exact List.mem_cons_self
      · exact absurd hlead (hne d rfl)
    · exact .inl ⟨n', AList.lookup_insert _, hpend' ▸ hes, hround ▸ hsilent d _ hr⟩
  · exact .inr (hact.update hn hacted (hsilent d))

/-- A node that is heard is not dead in the hearer's table, and for the deaths that the others know of
it counts only what they hear themselves, while the node runs. -/
theorem heartbeat (h : s.Covered) {i x : NodeId} {now : ℤ} (hx : x ∉ s.failed)
    (hs : (s.act i fun n => some (n.hear s.clock x now)) = some s') : s'.Covered := by
  obtain ⟨hi, n, n', hn, hf, rfl⟩ := act_eq_some hs
  obtain rfl := Option.some.inj hf
  refine h.update hn (Finset.Subset.refl _) (fun l _ hl => hl) (List.Subset.refl _)
    (fun d hd => FleetNode.heard_hear_of_ne fun hdx => hx (hdx ▸ hd)) (fun d => ?_)
    fun hlead d hd hdead => ?_
  · by_cases hdx : d = x
    · subst hdx
      exact FleetNode.heard_hear_self.le
    · exact (FleetNode.heard_hear_of_ne hdx).le.trans (h.heard_le i n hn d)
  · have hdx : d ≠ x := by
      rintro rfl
      exact Membership.liveness_heartbeatAt_self_ne_dead _ hdead
    have hdead' : n.membership.liveness d = some .dead := n.membership.liveness_of_heartbeatAt hdead
    have hsilent : ∀ r, s.SilentSince i d r → SilentSince { s with
        nodes := s.nodes.insert i (n.hear s.clock x now), clock := s.clock + 1 } i d r := fun r hr =>
      hr.update hn (Finset.Subset.refl _) fun _ => FleetNode.heard_hear_of_ne hdx
    obtain ⟨m, hm, hpend, hr⟩ | hact := h.answered i n hn hi hlead d hd hdead'
    · obtain rfl := Option.some.inj (hn.symm.trans hm)
      exact .inl ⟨_, AList.lookup_insert _, hpend, hsilent _ hr⟩
    · exact .inr (hact.update hn (List.Subset.refl _) hsilent)

/-- A node becomes the leader with its deaths answered. -/
theorem observe (h : s.Covered) {i : NodeId} {leader : Option NodeId}
    (hg : ElectionGuard s (.observe i leader))
    (hs : (s.act i fun n => some { n with currentLeader := leader }) = some s') : s'.Covered := by
  obtain ⟨-, n, n', hn, hf, rfl⟩ := act_eq_some hs
  obtain rfl := Option.some.inj hf
  refine h.update hn (Finset.Subset.refl _) (fun l _ hl => hl) (List.Subset.refl _) (fun d _ => rfl)
    (h.heard_le i n hn) fun hlead d hd hdead => ?_
  have hsilent : ∀ r, s.SilentSince i d r → SilentSince { s with
      nodes := s.nodes.insert i { n with currentLeader := leader }, clock := s.clock + 1 } i d r :=
    fun r hr => hr.update hn (Finset.Subset.refl _) fun _ => rfl
  obtain ⟨m, hm, hpend, hr⟩ | hact := hg hlead n hn d hd hdead
  · obtain rfl := Option.some.inj (hn.symm.trans hm)
    exact .inl ⟨_, AList.lookup_insert _, hpend, hsilent _ hr⟩
  · exact .inr (hact.update hn (List.Subset.refl _) hsilent)

/-- **Every step under the condition** keeps the deaths covered. -/
theorem step {members : List FabricNode} (h : s.Covered) {a : FleetAction} (hg : ElectionGuard s a)
    (hs : s.step members a = some s') : s'.Covered := by
  cases a with
  | fail i => exact Option.some.inj hs ▸ h.fail hg
  | reboot i now => exact h.reboot hs
  | detect i refreshed now events => exact h.detect hs
  | handle i => exact h.handle hs
  | heartbeat i x now =>
    simp only [Fleet.step] at hs
    split_ifs at hs with hx
    exact h.heartbeat hx hs
  | observe i leader =>
    simp only [Fleet.step] at hs
    split_ifs at hs
    exact h.observe hg hs

end Covered

end Fleet

/-! ## Runs -/

open Fleet

/-- **No missed failover.** In every state of a run from boot whose steps meet the condition: when a
surviving node `l` is the leader, its table holds another node `d` as dead, and no survivor has a
death of `d` left to handle, then drop-out handling has run past its gate for this death of `d` on a
node other than `d`. It is this death because `d` was not heard after the report that was acted on:
by no node at all when `d` has failed, and not by `l` when `d` runs. -/
theorem no_missed_failover (members : List FabricNode) (now : NodeId → ℤ) (as : List FleetAction)
    (s : Fleet) (hg : Guarded (Fleet.step members) ElectionGuard (boot members now) as)
    (hrun : run (Fleet.step members) (boot members now) as = some s) (l d : NodeId) (n : FleetNode)
    (hl : s.nodes.lookup l = some n) (hne : l ≠ d) (hlead : n.isLeader l)
    (hdead : n.membership.liveness d = some .dead)
    (hdone : ∀ i m, i ∉ s.failed → s.nodes.lookup i = some m → .died d ∉ m.pending)
    (hsurvives : l ∉ s.failed) :
    ∃ i m, i ≠ d ∧ s.nodes.lookup i = some m ∧ ∃ a ∈ m.acted, a.dead = d ∧
      ∀ j k, s.nodes.lookup j = some k → (d ∈ s.failed ∨ j = l) → k.heard d ≤ a.reported := by
  have hcov : s.Covered := hg.invariant (I := Covered) (fun _ _ _ h hgd hs => h.step hgd hs)
    (covered_boot members now) hrun
  obtain ⟨m, hm, hpend, -⟩ | hact := hcov.answered l n hl hsurvives
    (by simpa [FleetNode.isLeader] using hlead) d hne.symm hdead
  · exact absurd hpend (hdone l m hsurvives hm)
  · exact hact

/-- Three nodes. -/
def threeNodes : List FabricNode :=
  ["n1", "n2", "n3"].map fun name => .new ⟨name⟩ [] [name ++ ":7946"]

/-- A clock that stalls after the refresh of `n1`, the first member of the round. -/
def stalledClock (now : ℤ) (id : NodeId) : ℤ := if id = ⟨"n1"⟩ then now - 20000 else now

/-- `n1` leads and fails, `n2` is elected, and only then do the survivors' detectors see the
death. Later `n1` restarts, is heard by `n2`, and fails once more. -/
def electionFirst : List FleetAction :=
  [.observe ⟨"n1"⟩ (some ⟨"n1"⟩), .fail ⟨"n1"⟩, .observe ⟨"n2"⟩ (some ⟨"n2"⟩),
    .detect ⟨"n2"⟩ (stalledClock 20000) 20000 [.died ⟨"n1"⟩],
    .detect ⟨"n3"⟩ (stalledClock 20000) 20000 [.died ⟨"n1"⟩], .handle ⟨"n3"⟩, .handle ⟨"n2"⟩,
    .reboot ⟨"n1"⟩ 30000, .heartbeat ⟨"n2"⟩ ⟨"n1"⟩ 30000, .fail ⟨"n1"⟩,
    .detect ⟨"n2"⟩ (stalledClock 60000) 60000 [.died ⟨"n1"⟩], .handle ⟨"n2"⟩]

/-- The new leader acts on both deaths; the second act is for a report made after `n1` was heard. -/
theorem no_missed_failover_electionFirst :
    ∃ s, run (Fleet.step threeNodes) (boot threeNodes fun _ => 0) electionFirst = some s ∧
      ∃ i m, i ≠ ⟨"n1"⟩ ∧ s.nodes.lookup i = some m ∧ ∃ a ∈ m.acted, a.dead = ⟨"n1"⟩ ∧
        ∀ j k, s.nodes.lookup j = some k → (⟨"n1"⟩ ∈ s.failed ∨ j = ⟨"n2"⟩) →
          k.heard ⟨"n1"⟩ ≤ a.reported := by
  have hg : Guarded (Fleet.step threeNodes) ElectionGuard (boot threeNodes fun _ => 0)
      electionFirst := by
    refine .cons ?_ rfl (.cons ?_ rfl (.cons ?_ rfl (.cons trivial rfl (.cons trivial rfl
      (.cons trivial rfl (.cons trivial rfl (.cons trivial rfl (.cons trivial rfl (.cons ?_ rfl
      (.cons trivial rfl (.cons trivial rfl trivial)))))))))))
    · intro _ n hn d _ hdead
      obtain rfl := Option.some.inj hn
      exact absurd hdead (FleetNode.liveness_bootTable threeNodes ⟨"n1"⟩ 0 d)
    · intro l n hl _ _ _ hdead
      exact absurd hdead (HashMap.forall_lookup
        (P := fun n => n.membership.liveness ⟨"n1"⟩ ≠ some .dead) (by decide) hl)
    · intro _ n hn d _ hdead
      obtain rfl := Option.some.inj hn
      exact absurd hdead (FleetNode.liveness_bootTable threeNodes ⟨"n2"⟩ 0 d)
    · -- `n3` still holds `n1` as dead, but it does not lead
      intro l n hl _ hlead _ hdead
      have hnone : n.currentLeader = none := HashMap.forall_lookup (P := fun n =>
        n.membership.liveness ⟨"n1"⟩ = some .dead → n.currentLeader = none) (by decide) hl hdead
      simp [hnone] at hlead
  refine ⟨_, rfl, ?_⟩
  refine no_missed_failover threeNodes (fun _ => 0) electionFirst _ hg rfl ⟨"n2"⟩ ⟨"n1"⟩ _ rfl
    (by decide) (by decide) (by decide) (fun i m _ hi => ?_) (by decide)
  exact HashMap.forall_lookup (P := fun m => .died ⟨"n1"⟩ ∉ m.pending) (by decide) hi

/-- `n1` leads and fails, both survivors see the death while they still know `n1` as the leader,
and then `n2` is elected. -/
def deathFirst : List FleetAction :=
  [.observe ⟨"n1"⟩ (some ⟨"n1"⟩), .observe ⟨"n2"⟩ (some ⟨"n1"⟩), .observe ⟨"n3"⟩ (some ⟨"n1"⟩),
    .fail ⟨"n1"⟩, .detect ⟨"n2"⟩ (stalledClock 20000) 20000 [.died ⟨"n1"⟩], .handle ⟨"n2"⟩,
    .detect ⟨"n3"⟩ (stalledClock 20000) 20000 [.died ⟨"n1"⟩], .handle ⟨"n3"⟩,
    .observe ⟨"n2"⟩ (some ⟨"n2"⟩)]

/-- The leader holds `n1` as dead and nothing is left to handle, but nobody has acted. -/
theorem dropped_death_is_missed :
    ∃ s, run (Fleet.step threeNodes) (boot threeNodes fun _ => 0) deathFirst = some s ∧
      (∃ n, s.nodes.lookup ⟨"n2"⟩ = some n ∧ ⟨"n2"⟩ ∉ s.failed ∧ n.isLeader ⟨"n2"⟩ ∧
        n.membership.liveness ⟨"n1"⟩ = some .dead) ∧
      (∀ i m, s.nodes.lookup i = some m → .died ⟨"n1"⟩ ∉ m.pending) ∧
      ∀ i m, s.nodes.lookup i = some m → m.acted.map Act.dead = [] := by
  refine ⟨_, rfl, ⟨_, rfl, by decide, by decide, by decide⟩, fun i m hi => ?_, fun i m hi => ?_⟩
  · exact HashMap.forall_lookup (P := fun m => .died ⟨"n1"⟩ ∉ m.pending) (by decide) hi
  · exact HashMap.forall_lookup (P := fun m => m.acted.map Act.dead = []) (by decide) hi

end OCF.Api
