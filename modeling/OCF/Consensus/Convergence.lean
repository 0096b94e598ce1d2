import OCF.Consensus.Snapshot
import OCF.Foundations.Run

/-!
# Replicas converge

A cluster of replicas shares one sequence of committed entries. Each replica advances by applying
the next entries in batches of any size, or by installing a snapshot that some replica built at a
position not behind its own; the snapshots built so far may be delivered to anyone, in any order
and repeatedly.

The abstract state of a state machine (`SmState`) is what its commands have made of it. At every
point a replica at position `k` has the abstract state that replaying the first `k` entries gives
(`Cluster.Inv`), so two replicas at the same position agree (`replicas_converge`).
-/

namespace OCF.Consensus

open Std Store StateMachineStore

variable {V B : Type*}

/-! ## The abstract state -/

/-- What the commands have made of a state machine. -/
@[ext] structure SmState (V : Type*) where
  store : StateStore V
  collections : BTreeSet String
  lastApplied : Option LogId
  lastMembership : StoredMembership

namespace StateMachineStore

/-- The abstract state of a state machine. -/
def view (sm : StateMachineStore V B) : SmState V :=
  ⟨sm.store, sm.inner.smCollections, sm.inner.smLastApplied, sm.inner.smLastMembership⟩

theorem view_applyEntry_congr {sm sm' : StateMachineStore V B} (h : sm.view = sm'.view)
    (e : Entry V) : (sm.applyEntry e).2.view = (sm'.applyEntry e).2.view := by
  obtain ⟨hs, hc, -, hm⟩ := SmState.ext_iff.1 h
  simp only [view] at hs hc hm
  obtain ⟨id, p⟩ := e
  cases p with
  | blank => simp only [applyEntry, view, hs, hc, hm]
  | membership m => simp only [applyEntry, view, hs, hc]
  | normal cmd => cases cmd <;> simp only [applyEntry, applyCommand, view, hs, hc, hm]

theorem view_after_congr {sm sm' : StateMachineStore V B} (h : sm.view = sm'.view)
    (es : List (Entry V)) : (sm.after es).view = (sm'.after es).view := by
  induction es generalizing sm sm' with
  | nil => exact h
  | cons e es ih => exact ih (view_applyEntry_congr h e)

theorem buildPayload_congr {sm sm' : StateMachineStore V B} (h : sm.view = sm'.view) :
    sm.buildPayload = sm'.buildPayload := by
  obtain ⟨hs, hc, ha, hm⟩ := SmState.ext_iff.1 h
  simp only [view] at hs hc ha hm
  simp only [buildPayload, hs, hc, ha, hm]

theorem covered_congr {sm sm' : StateMachineStore V B} (h : sm.view = sm'.view) :
    sm.Covered ↔ sm'.Covered := by
  obtain ⟨hs, hc, -, -⟩ := SmState.ext_iff.1 h
  simp only [view] at hs hc
  simp only [Covered, hs, hc]

/-- Installing the snapshot of a covered state machine over a covered one copies its state. -/
theorem view_restorePayload_buildPayload {sm sm' : StateMachineStore V B} (h : sm.Covered)
    (h' : sm'.Covered) : (sm'.restorePayload sm.buildPayload).view = sm.view :=
  SmState.ext (store_restorePayload_buildPayload h h')
    (smCollections_restorePayload_buildPayload sm sm') rfl rfl

end StateMachineStore

/-- A state machine that started over an empty store and has applied the first `k` entries. -/
def replay (B : Type*) (log : List (Entry V)) (k : ℕ) : StateMachineStore V B :=
  (newStorage .empty).after (log.take k)

theorem covered_replay (log : List (Entry V)) (k : ℕ) : (replay B log k).Covered :=
  covered_newStorage.after _

/-- Replaying up to `k` and then the next `n` entries is replaying up to `k + n`. -/
theorem after_replay (log : List (Entry V)) (k n : ℕ) :
    (replay B log k).after ((log.drop k).take n) = replay B log (k + n) := by
  rw [replay, replay, ← after_append, List.take_add]

/-! ## The cluster -/

section Cluster

variable (codec : SnapshotCodec V) {ι : Type*} [DecidableEq ι] (log : List (Entry V))

/-- A replica and the position in the log it has reached. -/
structure Replica where
  sm : StateMachineStore V codec.Bytes
  position : ℕ

/-- The replicas, and the snapshots built so far with the position of each. -/
structure Cluster (ι : Type*) where
  replicas : ι → Replica codec
  snapshots : List (StoredSnapshot codec.Bytes × ℕ)

/-- What a replica may do. -/
inductive ReplicaAction (ι : Type*)
  /-- Apply the next `n` committed entries as one batch. -/
  | apply (r : ι) (n : ℕ)
  /-- Build a snapshot. -/
  | build (r : ι)
  /-- Install the `i`-th snapshot built so far. -/
  | install (r : ι) (i : ℕ)

/-- Every replica starts with fresh bookkeeping over an empty store. -/
def Cluster.init (ι : Type*) : Cluster codec ι := ⟨fun _ => ⟨newStorage .empty, 0⟩, []⟩

variable {codec} in
/-- Give a replica a new state. -/
def Cluster.set (c : Cluster codec ι) (r : ι) (x : Replica codec) : Cluster codec ι :=
  { c with replicas := Function.update c.replicas r x }

/-- One action. A batch must be committed, and a snapshot must not be behind the replica. -/
def clusterStep (c : Cluster codec ι) : ReplicaAction ι → Option (Cluster codec ι)
  | .apply r n =>
    let x := c.replicas r
    if x.position + n ≤ log.length then
      some (c.set r ⟨x.sm.after ((log.drop x.position).take n), x.position + n⟩)
    else none
  | .build r =>
    let x := c.replicas r
    let (snapshot, sm) := buildSnapshot codec x.sm
    some { c.set r ⟨sm, x.position⟩ with
      snapshots := c.snapshots ++ [(snapshot, x.position)] }
  | .install r i =>
    let x := c.replicas r
    match c.snapshots[i]? with
    | none => none
    | some (snapshot, position) =>
      if position < x.position then none
      else (installSnapshot codec x.sm snapshot).map fun sm => c.set r ⟨sm, position⟩

/-- Replicas have replayed the log up to their position, and snapshots were taken of such
states. -/
structure Cluster.Inv (c : Cluster codec ι) : Prop where
  replica : ∀ r, (c.replicas r).sm.view = (replay codec.Bytes log (c.replicas r).position).view
  snapshot : ∀ s ∈ c.snapshots, s.1.data = codec.encode (replay codec.Bytes log s.2).buildPayload

omit [DecidableEq ι] in
theorem Cluster.inv_init : (Cluster.init codec ι).Inv codec log where
  replica _ := by simp [Cluster.init, replay]
  snapshot s hs := by simp [Cluster.init] at hs

variable {codec log}

theorem Cluster.Inv.set {c : Cluster codec ι} (h : c.Inv codec log) (r : ι) {x : Replica codec}
    (hx : x.sm.view = (replay codec.Bytes log x.position).view) : (c.set r x).Inv codec log where
  replica r' := by
    by_cases hr : r' = r
    · simpa [Cluster.set, hr] using hx
    · simpa [Cluster.set, hr] using h.replica r'
  snapshot := h.snapshot

/-- **Every action keeps the replicas on the log.** -/
theorem Cluster.Inv.step {c c' : Cluster codec ι} {a : ReplicaAction ι} (h : c.Inv codec log)
    (hs : clusterStep codec log c a = some c') : c'.Inv codec log := by
  cases a with
  | apply r n =>
    simp only [clusterStep, Option.ite_none_right_eq_some, Option.some.injEq] at hs
    obtain ⟨-, rfl⟩ := hs
    refine h.set r ?_
    rw [← after_replay]
    exact view_after_congr (h.replica r) _
  | build r =>
    obtain rfl := Option.some.inj hs
    have hset := h.set r (x := ⟨(buildSnapshot codec (c.replicas r).sm).2, (c.replicas r).position⟩)
      (h.replica r)
    refine ⟨hset.replica, fun s hmem => ?_⟩
    rcases List.mem_append.1 hmem with hmem | hmem
    · exact h.snapshot s hmem
    · obtain rfl := List.mem_singleton.1 hmem
      exact congrArg codec.encode (buildPayload_congr (h.replica r))
  | install r i =>
    simp only [clusterStep] at hs
    cases hi : c.snapshots[i]? with
    | none => simp [hi] at hs
    | some s =>
      simp only [hi, Option.ite_none_left_eq_some, Option.map_eq_some_iff] at hs
      obtain ⟨-, sm, hsm, rfl⟩ := hs
      refine h.set r ?_
      rw [installSnapshot, h.snapshot s (List.mem_of_getElem? hi), codec.decode_encode] at hsm
      obtain rfl := Option.some.inj hsm
      exact view_restorePayload_buildPayload (covered_replay log s.2)
        ((covered_congr (h.replica r)).2 (covered_replay log _))

/-- **Replica convergence.** In every state that any mix of batches, snapshots and installs reaches
from empty replicas, two replicas at the same position have the same store, the same last applied
log id and the same membership. -/
theorem replicas_converge (codec : SnapshotCodec V) (log : List (Entry V))
    (actions : List (ReplicaAction ι)) (c : Cluster codec ι)
    (hrun : run (clusterStep codec log) (Cluster.init codec ι) actions = some c) (r r' : ι)
    (hpos : (c.replicas r).position = (c.replicas r').position) :
    (c.replicas r).sm.store = (c.replicas r').sm.store ∧
      (c.replicas r).sm.inner.smLastApplied = (c.replicas r').sm.inner.smLastApplied ∧
      (c.replicas r).sm.inner.smLastMembership = (c.replicas r').sm.inner.smLastMembership := by
  have hinv : c.Inv codec log :=
    run_invariant (I := Cluster.Inv codec log) (fun _ _ _ h hs => h.step hs)
      (Cluster.inv_init codec log) hrun
  have hview : (c.replicas r).sm.view = (c.replicas r').sm.view := by
    rw [hinv.replica r, hinv.replica r', hpos]
  obtain ⟨hs, -, ha, hm⟩ := SmState.ext_iff.1 hview
  exact ⟨hs, ha, hm⟩

/-- Three committed entries: a write, a change of membership and a delete. -/
def sampleLog : List (Entry (List UInt8)) :=
  [⟨⟨⟨1, 1⟩, 0⟩, .normal (.put "vpcs" "vpc-a" [1])⟩, ⟨⟨⟨1, 1⟩, 1⟩, .membership ⟨[[1, 2]], []⟩⟩,
    ⟨⟨⟨1, 1⟩, 2⟩, .normal (.delete "vpcs" "vpc-a")⟩]

/-- One replica applies the entries one by one and builds a snapshot after the first; the other
installs it and applies the rest as one batch. -/
theorem replicas_converge_sampleLog :
    ∃ c, run (clusterStep (.plain _) sampleLog) (Cluster.init (.plain _) ℕ)
        [.apply 0 1, .build 0, .apply 0 1, .install 1 0, .apply 0 1, .apply 1 2] = some c ∧
      (c.replicas 0).position = 3 ∧ (c.replicas 0).sm.store = (c.replicas 1).sm.store := by
  refine ⟨_, rfl, rfl, ?_⟩
  exact (replicas_converge (.plain _) sampleLog
    [.apply 0 1, .build 0, .apply 0 1, .install 1 0, .apply 0 1, .apply 1 2] _ rfl 0 1 rfl).1

end Cluster

end OCF.Consensus
