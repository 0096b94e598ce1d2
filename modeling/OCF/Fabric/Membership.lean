import OCF.Fabric.Node
import Mathlib.Data.Rat.Defs

/-!
# Membership and failure detection

A node's table of its peers and the failure detector on it. A peer is alive while its heartbeats
arrive; one that is silent for `suspectTimeout` becomes suspect, and after a further `deadTimeout`
it is declared dead. A graceful departure is final as well.

`tick` advances every member and returns the transitions. A death is reported once, on the tick
that makes the member dead (`died_mem_tick`): dead members are skipped from then on.

Times are integers and may go backwards; round-trip times are rationals, as in the route graph.
-/

namespace OCF.Fabric

/-- A member's liveness in the local view of the fleet. -/
inductive Liveness
  | alive
  | suspect
  | dead
  | left
  deriving DecidableEq

namespace Liveness

/-- Whether a node in this state should receive traffic. -/
def isAvailable (l : Liveness) : Bool := l = .alive

/-- Terminal states the failure detector no longer transitions. -/
def isTerminal (l : Liveness) : Bool := l = .dead || l = .left

end Liveness

/-- The local view of one fleet member. -/
structure MemberState where
  node : FabricNode
  liveness : Liveness
  lastHeartbeat : ℤ
  incarnation : UInt64
  rttMs : Option ℚ

/-- A transition the failure detector observed. -/
inductive MembershipEvent
  | joined (id : NodeId)
  | recovered (id : NodeId)
  | suspected (id : NodeId)
  | died (id : NodeId)
  | left (id : NodeId)
  deriving DecidableEq

/-- A node's membership table and failure detector. -/
structure Membership where
  self : NodeId
  members : HashMap NodeId MemberState
  suspectTimeout : ℤ
  deadTimeout : ℤ

/-- A member after a tick and the transition, if there is one. -/
def MemberState.tick (suspectTimeout deadTimeout now : ℤ) (id : NodeId) (m : MemberState) :
    Option MembershipEvent × MemberState :=
  if m.liveness.isTerminal then (none, m)
  else
    let silent := now - m.lastHeartbeat
    if suspectTimeout + deadTimeout ≤ silent then
      if m.liveness ≠ .dead then (some (.died id), { m with liveness := .dead }) else (none, m)
    else if suspectTimeout ≤ silent ∧ m.liveness = .alive then
      (some (.suspected id), { m with liveness := .suspect })
    else (none, m)

/-- A member's death is reported when its liveness becomes dead. -/
theorem MemberState.tick_eq_died {s d now : ℤ} {id x : NodeId} {m : MemberState} :
    (m.tick s d now id).1 = some (.died x) ↔
      id = x ∧ m.liveness ≠ .dead ∧ (m.tick s d now id).2.liveness = .dead := by
  unfold MemberState.tick
  dsimp only
  split_ifs <;> simp_all [Liveness.isTerminal]

namespace Membership

/-- A table with timeouts of its own. -/
def withTimeouts (self : NodeId) (suspectTimeout deadTimeout : ℤ) : Membership :=
  ⟨self, ∅, suspectTimeout, deadTimeout⟩

/-- A detector with the default timeouts, five seconds each, in milliseconds. -/
def new (self : NodeId) : Membership := withTimeouts self 5000 5000

/-- Add, or refresh, a peer as alive. -/
def join (t : Membership) (node : FabricNode) (now : ℤ) : MembershipEvent × Membership :=
  let id := node.nodeId
  match t.members.lookup id with
  | some m =>
    (if m.liveness ≠ .alive then .recovered id else .joined id,
      { t with members := t.members.insert id { m with
        node := node
        liveness := .alive
        lastHeartbeat := now
        incarnation := m.incarnation + 1 } })
  | none => (.joined id, { t with members := t.members.insert id ⟨node, .alive, now, 0, none⟩ })

/-- Record a heartbeat, reviving a member that is not alive; one that has left stays so. -/
def heartbeatAt (t : Membership) (id : NodeId) (now : ℤ) : Option MembershipEvent × Membership :=
  match t.members.lookup id with
  | none => (none, t)
  | some m =>
    if m.liveness = .left then (none, t)
    else
      (if m.liveness ≠ .alive then some (.recovered id) else none,
        { t with members := t.members.insert id { m with lastHeartbeat := now, liveness := .alive } })

/-- Declare a member dead at once, unless its state is terminal. -/
def forceDead (t : Membership) (id : NodeId) : Option MembershipEvent × Membership :=
  match t.members.lookup id with
  | none => (none, t)
  | some m =>
    if m.liveness.isTerminal then (none, t)
    else (some (.died id), { t with members := t.members.insert id { m with liveness := .dead } })

/-- The member that backs a fleet machine. -/
def memberForMachine (t : Membership) (machineId : Id) : Option MemberState :=
  (HashMap.values t.members).find? fun m => m.node.machineId = some machineId

/-- Record a measured round-trip time of a member. -/
def recordRtt (t : Membership) (id : NodeId) (rttMs : ℚ) : Membership :=
  match t.members.lookup id with
  | none => t
  | some m => { t with members := t.members.insert id { m with rttMs := some rttMs } }

/-- The round-trip time of a member, if one was measured. -/
def rtt (t : Membership) (id : NodeId) : Option ℚ := (t.members.lookup id).bind MemberState.rttMs

/-- Mark a member as having left the fleet. -/
def leave (t : Membership) (id : NodeId) : Result MembershipEvent × Membership :=
  match t.members.lookup id with
  | none => (.error (.notFound ("member " ++ id.name)), t)
  | some m =>
    (.ok (.left id), { t with members := t.members.insert id { m with liveness := .left } })

/-- Advance the failure detector, returning every transition. -/
def tick (t : Membership) (now : ℤ) : List MembershipEvent × Membership :=
  let step := fun (id : NodeId) (m : MemberState) =>
    m.tick t.suspectTimeout t.deadTimeout now id
  ((HashMap.pairs t.members).filterMap fun e => (step e.1 e.2).1,
    { t with members := HashMap.mapVal (fun id m => (step id m).2) t.members })

/-- Remove the members in a terminal state, returning their ids. -/
def reap (t : Membership) : List NodeId × Membership :=
  let reaped := ((HashMap.pairs t.members).filter fun e => e.2.liveness.isTerminal).map Prod.fst
  (reaped, { t with members := reaped.foldl (fun ms id => ms.erase id) t.members })

/-- How a member is held, if it is known. -/
def liveness (t : Membership) (id : NodeId) : Option Liveness :=
  (t.members.lookup id).map MemberState.liveness

/-- All members. -/
def listMembers (t : Membership) : List MemberState := HashMap.values t.members

/-- The records of the alive members. -/
def alive (t : Membership) : List FabricNode :=
  ((HashMap.values t.members).filter fun m => m.liveness = .alive).map MemberState.node

/-! ## What the operations do to a liveness -/

variable (t : Membership)

theorem liveness_tick (now : ℤ) (id : NodeId) :
    (t.tick now).2.liveness id = (t.members.lookup id).map fun m =>
      (m.tick t.suspectTimeout t.deadTimeout now id).2.liveness := by
  simp only [liveness, tick, HashMap.lookup_mapVal, Option.map_map]
  rfl

/-- A death is reported on the tick that makes the member dead, and on no other. -/
theorem died_mem_tick (now : ℤ) (id : NodeId) :
    .died id ∈ (t.tick now).1 ↔
      t.liveness id ≠ some .dead ∧ (t.tick now).2.liveness id = some .dead := by
  rw [liveness_tick]
  simp only [tick, liveness, List.mem_filterMap, Prod.exists, HashMap.mem_pairs,
    MemberState.tick_eq_died]
  constructor
  · rintro ⟨x, m, hm, rfl, hne, hdead⟩
    simp [hm, hne, hdead]
  · rintro ⟨hne, hdead⟩
    obtain ⟨m, hm, hm'⟩ := Option.map_eq_some_iff.1 hdead
    refine ⟨id, m, hm, rfl, ?_, hm'⟩
    simpa [hm] using hne

/-- A heartbeat makes nobody dead. -/
theorem liveness_of_heartbeatAt {x id : NodeId} {now : ℤ}
    (h : (t.heartbeatAt x now).2.liveness id = some .dead) : t.liveness id = some .dead := by
  unfold heartbeatAt at h
  split at h
  · exact h
  · split at h
    · exact h
    · rw [liveness, HashMap.lookup_insert_eq] at h
      split_ifs at h
      · simp at h
      · exact h

/-- A heartbeat concerns one member. -/
theorem liveness_heartbeatAt_of_ne {x id : NodeId} {now : ℤ} (h : id ≠ x) :
    (t.heartbeatAt x now).2.liveness id = t.liveness id := by
  unfold heartbeatAt
  split
  · rfl
  · split
    · rfl
    · rw [liveness, HashMap.lookup_insert_eq, if_neg h]
      rfl

/-- A member that is heard is not dead. -/
theorem liveness_heartbeatAt_self_ne_dead {x : NodeId} {now : ℤ} :
    (t.heartbeatAt x now).2.liveness x ≠ some .dead := by
  unfold heartbeatAt
  split
  · next h => simp [liveness, h]
  · next m h =>
    split
    · next hleft => simp [liveness, h, hleft]
    · rw [liveness, HashMap.lookup_insert_eq, if_pos rfl]
      simp

/-- A tick leaves a dead member dead. -/
theorem liveness_tick_of_dead {now : ℤ} {id : NodeId} (h : t.liveness id = some .dead) :
    (t.tick now).2.liveness id = some .dead := by
  obtain ⟨m, hm, hdead⟩ := Option.map_eq_some_iff.1 h
  have hterminal : m.liveness.isTerminal = true := by simp [Liveness.isTerminal, hdead]
  rw [liveness_tick, hm, Option.map_some, MemberState.tick, if_pos hterminal, hdead]

theorem liveness_forceDead_of_dead {x id : NodeId} (h : t.liveness id = some .dead) :
    (t.forceDead x).2.liveness id = some .dead := by
  unfold forceDead
  split
  · exact h
  · split
    · exact h
    · rw [liveness, HashMap.lookup_insert_eq]
      split_ifs
      · rfl
      · exact h

/-! ## The records of a table -/

variable {t}

/-- Every record is under its own id. -/
def Keyed (t : Membership) : Prop := ∀ id m, t.members.lookup id = some m → m.node.nodeId = id

/-- A record is put under its id. -/
theorem Keyed.insert (h : t.Keyed) {id : NodeId} {m : MemberState} (hm : m.node.nodeId = id) :
    Keyed { t with members := t.members.insert id m } := by
  intro x m' hx
  rw [HashMap.lookup_insert_eq] at hx
  split_ifs at hx with hid
  · rw [hid, ← hm, Option.some.inj hx]
  · exact h x m' hx

theorem keyed_new (self : NodeId) : (new self).Keyed := by
  intro id m h
  simp [new, withTimeouts] at h

theorem Keyed.join (h : t.Keyed) (x : FabricNode) (now : ℤ) : (t.join x now).2.Keyed := by
  unfold Membership.join
  dsimp only
  split
  · exact h.insert rfl
  · exact h.insert rfl

theorem Keyed.heartbeatAt (h : t.Keyed) (x : NodeId) (now : ℤ) : (t.heartbeatAt x now).2.Keyed := by
  unfold Membership.heartbeatAt
  split
  · exact h
  · next m hm =>
    split
    · exact h
    · exact h.insert (h x m hm)

theorem Keyed.forceDead (h : t.Keyed) (x : NodeId) : (t.forceDead x).2.Keyed := by
  unfold Membership.forceDead
  split
  · exact h
  · next m hm =>
    split
    · exact h
    · exact h.insert (h x m hm)

theorem Keyed.tick (h : t.Keyed) (now : ℤ) : (t.tick now).2.Keyed := by
  intro id m' hm'
  simp only [Membership.tick, HashMap.lookup_mapVal] at hm'
  obtain ⟨m, hm, rfl⟩ := Option.map_eq_some_iff.1 hm'
  have hnode : (m.tick t.suspectTimeout t.deadTimeout now id).2.node = m.node := by
    unfold MemberState.tick
    dsimp only
    split_ifs <;> rfl
  rw [hnode]
  exact h id m hm

/-- The alive members of a table are not dead. -/
theorem Keyed.ne_of_mem_alive (h : t.Keyed) {x : FabricNode} (hx : x ∈ t.alive) {id : NodeId}
    (hid : t.liveness id = some .dead) : id ≠ x.nodeId := by
  obtain ⟨m, hm, rfl⟩ := List.mem_map.1 hx
  obtain ⟨hm, hal⟩ := List.mem_filter.1 hm
  obtain ⟨k, hk⟩ := HashMap.mem_values.1 hm
  rw [h k m hk]
  rintro rfl
  rw [liveness, hk, Option.map_some, of_decide_eq_true hal] at hid
  simp at hid

end Membership

end OCF.Fabric
