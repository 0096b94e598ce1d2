import OCF.Api.Join
import OCF.Consensus.Storage
import Mathlib.Data.Finset.Card
import Mathlib.Tactic.SplitIfs

/-!
# The authority over the fleet

The node that boots without seeds forms a Raft cluster of its own (`initializeCluster`), and the
others are admitted to it by its leader (`Admission.handleJoin`). The vote, the log and the
membership of a node live in memory: `newStorage` starts them empty at every boot, over whatever the
durable store holds. A seedless node that restarts therefore forms a cluster again, whether or not
the others still run the one it formed before.

Raft itself is a library and appears by what is assumed of it. Initialising storage without a vote
and a log forms a fresh cluster; a cluster has one set of voters at a time, and what it does is
decided by a majority of them that hold its log. What a node writes to its storage on the way is
part of the action.

`NoVoterLeft` says that the seedless node forms a cluster only when no running node is a voter of
one, and `single_authority` is the result for every run under it.
-/

namespace OCF.Api

open OCF.Store OCF.Consensus

variable {V B : Type*}

/-! ## Nodes -/

/-- The storage has neither a vote nor a log. -/
def isPristine (i : Consensus.Inner V B) : Bool :=
  i.vote.isNone && i.log.isEmpty && i.lastPurged.isNone

/-- What openraft writes when a node takes part in a cluster: a vote, entries, and what it applies
of them. -/
structure RaftWrite (V : Type*) where
  vote : Vote
  entries : List (Entry V)
  applied : List (Entry V)

/-- What a running node has in memory. -/
structure RaftProcess (V B : Type*) where
  inner : Consensus.Inner V B
  /-- The cluster whose log the storage holds. -/
  cluster : Option ℕ
  /-- The node has seeds, and no leader has answered it `ok` yet. -/
  joining : Bool
  /-- The joins the node is serving. -/
  joins : HashMap ℕ JoinPhase

/-- A node: the durable store of its data directory, and its process while it runs. -/
structure RaftNode (V B : Type*) where
  store : StateStore V
  process : Option (RaftProcess V B)

namespace RaftNode

/-- Start the node over its data directory. -/
def start (n : RaftNode V B) (seeds : List String) : RaftNode V B :=
  let storage : StateMachineStore V B := newStorage n.store
  { n with process := some ⟨storage.inner, none, seeds ≠ [], ∅⟩ }

/-- The process ends; only the durable store is left. -/
def crash (n : RaftNode V B) : RaftNode V B := { n with process := none }

/-- Take part in a cluster. -/
def enter (n : RaftNode V B) (k : ℕ) (w : RaftWrite V) : RaftNode V B :=
  match n.process with
  | none => n
  | some p =>
    let sm : StateMachineStore V B := ⟨(p.inner.saveVote w.vote).append w.entries, n.store⟩
    let sm := (sm.apply w.applied).2
    ⟨sm.store, some { p with inner := sm.inner, cluster := some k }⟩

/-- `ok` reaches the task that joins. -/
def joined (n : RaftNode V B) : RaftNode V B :=
  { n with process := n.process.map fun p => { p with joining := false } }

/-- The node with its joins in progress replaced. -/
def serve (n : RaftNode V B) (joins : HashMap ℕ JoinPhase) : RaftNode V B :=
  { n with process := n.process.map fun p => { p with joins := joins } }

/-- The cluster that the node is in. -/
def cluster (n : RaftNode V B) : Option ℕ := n.process.bind RaftProcess.cluster

/-- The node runs, with storage that has neither a vote nor a log. -/
def pristine (n : RaftNode V B) : Bool := n.process.any fun p => isPristine p.inner

end RaftNode

/-! ## The fleet -/

/-- The membership of a cluster. -/
structure RaftCluster where
  voters : Finset UInt64
  learners : HashMap UInt64 String

/-- The configuration of the fleet: exactly one node has no seeds. -/
structure Deployment where
  seeds : UInt64 → List String
  first : UInt64
  seeds_eq_nil : ∀ i, seeds i = [] ↔ i = first

/-- The nodes by Raft id, and the clusters formed so far. -/
structure RaftFleet (V B : Type*) where
  nodes : UInt64 → RaftNode V B
  clusters : ℕ → RaftCluster
  formed : ℕ

/-- What can happen in the fleet. -/
inductive RaftAction (V : Type*)
  | start (i : UInt64)
  | crash (i : UInt64)
  /-- The boot of a node without seeds comes to `initialize_cluster`. -/
  | bootstrap (i : UInt64) (w : RaftWrite V)
  /-- `join_cluster` of `i` sends its request to `l`, behind one of its seeds. -/
  | ask (i l : UInt64) (j : ℕ) (raftAddr : String)
  /-- A join goes on at `l`; `ok` is what the metrics report or the library call comes to. -/
  | resume (l : UInt64) (j : ℕ) (ok : Bool) (w : RaftWrite V)
  /-- The answer of a join is sent back. -/
  | answer (l : UInt64) (j : ℕ) (delivered : Bool)
  /-- A candidate or the leader `a` reaches a member of its cluster that has restarted. -/
  | contact (a i : UInt64) (w : RaftWrite V)

namespace RaftFleet

/-- Nobody runs, over the given data directories. -/
def boot (B : Type*) (stores : UInt64 → StateStore V) : RaftFleet V B :=
  ⟨fun i => ⟨stores i, none⟩, fun _ => ⟨∅, ∅⟩, 0⟩

variable (s : RaftFleet V B)

/-- The fleet with one node replaced. -/
def set (i : UInt64) (n : RaftNode V B) : RaftFleet V B :=
  { s with nodes := Function.update s.nodes i n }

/-- Set the membership of a cluster. -/
def commit (k : ℕ) (c : RaftCluster) : RaftFleet V B :=
  { s with clusters := Function.update s.clusters k c }

/-- The cluster that a node is in. -/
def cluster (i : UInt64) : Option ℕ := (s.nodes i).cluster

/-- The voters of a cluster that run and hold its log. -/
def holders (k : ℕ) : Finset UInt64 := (s.clusters k).voters.filter fun v => s.cluster v = some k

/-- The cluster of which a node can be the leader. -/
def leads (l : UInt64) : Option ℕ :=
  (s.cluster l).filter fun k =>
    l ∈ s.holders k ∧ (s.clusters k).voters.card < 2 * (s.holders k).card

/-- Form a single-voter cluster; storage that was initialised before is left as it is. -/
def initializeCluster (i : UInt64) (w : RaftWrite V) : RaftFleet V B :=
  if (s.nodes i).pristine then
    { (s.set i ((s.nodes i).enter s.formed w)).commit s.formed ⟨{i}, ∅⟩ with
      formed := s.formed + 1 }
  else s

/-- A process as the node that handles joins. -/
def admission (p : RaftProcess V B) (isLeader : Bool) : Admission :=
  let c := (p.cluster.map s.clusters).getD ⟨∅, ∅⟩
  ⟨isLeader, c.voters, c.learners, p.joins⟩

/-- A join goes on. A library call takes effect only on the leader; a learner is added when its log
is up to date. -/
def resume (l : UInt64) (j : ℕ) (ok : Bool) (w : RaftWrite V) : Option (RaftFleet V B) :=
  (s.nodes l).process.bind fun p =>
  (p.joins.lookup j).bind fun phase =>
  ((s.admission p ok).handleJoin j ok phase).bind fun adm =>
    let served := s.set l ((s.nodes l).serve adm.joins)
    match phase, ok with
    | .addLearner req, true =>
      (s.leads l).bind fun k =>
        if (s.nodes req.raftId).process.isSome then
          let t := served.commit k ⟨adm.voters, adm.learners⟩
          some (t.set req.raftId ((t.nodes req.raftId).enter k w))
        else none
    | .changeMembership _ _, true =>
      (s.leads l).map fun k => served.commit k ⟨adm.voters, adm.learners⟩
    | _, _ => some served

/-- A join is answered. The task that asked stops when it is told `ok`. -/
def answer (l : UInt64) (j : ℕ) (delivered : Bool) : Option (RaftFleet V B) :=
  (s.nodes l).process.bind fun p =>
    match p.joins.lookup j with
    | some (.answered (some req) .ok) =>
      let t := s.set l ((s.nodes l).serve (p.joins.erase j))
      some (if delivered then t.set req.raftId (t.nodes req.raftId).joined else t)
    | some (.answered _ _) => some (s.set l ((s.nodes l).serve (p.joins.erase j)))
    | _ => none

/-- One action. A node starts when it does not run, and it asks to be admitted when it has seeds. -/
def step (d : Deployment) (s : RaftFleet V B) : RaftAction V → Option (RaftFleet V B)
  | .start i =>
    if (s.nodes i).process.isNone then some (s.set i ((s.nodes i).start (d.seeds i))) else none
  | .crash i => some (s.set i (s.nodes i).crash)
  | .bootstrap i w =>
    if d.seeds i = [] ∧ (s.nodes i).process.isSome then some (s.initializeCluster i w) else none
  | .ask i l j raftAddr =>
    (s.nodes l).process.bind fun p =>
      if (s.nodes i).process.any RaftProcess.joining ∧ j ∉ p.joins then
        some (s.set l ((s.nodes l).serve (p.joins.insert j (.received (some ⟨i, raftAddr⟩)))))
      else none
  | .resume l j ok w => s.resume l j ok w
  | .answer l j delivered => s.answer l j delivered
  | .contact a i w =>
    (s.cluster a).bind fun k =>
      if a ∈ s.holders k ∧ (i ∈ (s.clusters k).voters ∨ i ∈ (s.clusters k).learners) ∧
          (s.nodes i).pristine then
        some (s.set i ((s.nodes i).enter k w))
      else none

/-- `i` can get a put acknowledged by the nodes of `Q`: they are a majority of the voters of its
cluster, and each of them holds the log. -/
def CanPut (i : UInt64) (Q : Finset UInt64) : Prop :=
  ∃ k, s.leads i = some k ∧ Q ⊆ s.holders k ∧ (s.clusters k).voters.card < 2 * Q.card

/-- Any two puts that can be acknowledged now go through one cluster and are seen by a common node,
and no two clusters have disjoint sets of voters. -/
def SingleAuthority : Prop :=
  (∀ i j Q R, s.CanPut i Q → s.CanPut j R → s.cluster i = s.cluster j ∧ (Q ∩ R).Nonempty) ∧
    ∀ k l, k < s.formed → l < s.formed →
      ((s.clusters k).voters ∩ (s.clusters l).voters).Nonempty

/-- When storage without a vote and a log is initialised, no running node is a voter of the cluster
whose log it holds. -/
def NoVoterLeft (s : RaftFleet V B) : RaftAction V → Prop
  | .bootstrap i _ => (s.nodes i).pristine → ∀ k < s.formed, s.holders k = ∅
  | _ => True

instance (s : RaftFleet V B) : ∀ a, Decidable (s.NoVoterLeft a)
  | .bootstrap i _ =>
    inferInstanceAs (Decidable ((s.nodes i).pristine → ∀ k < s.formed, s.holders k = ∅))
  | .start _ | .crash _ | .ask .. | .resume .. | .answer .. | .contact .. => .isTrue trivial

end RaftFleet

/-! ## One node -/

namespace RaftNode

variable {n : RaftNode V B} {first : UInt64}

/-- A join that is about to read the voters runs on a node with a log, and the voters a join has
read include the seedless node. -/
def Admits (first : UInt64) (n : RaftNode V B) : Prop :=
  ∀ p, n.process = some p → ∀ j,
    (∀ req, p.joins.lookup j = some (.readVoters req) → p.cluster.isSome) ∧
      ∀ req vs, p.joins.lookup j = some (.changeMembership req vs) → first ∈ vs

@[simp] theorem cluster_joined : n.joined.cluster = n.cluster := by
  unfold joined cluster
  cases n.process <;> rfl

@[simp] theorem cluster_serve (joins : HashMap ℕ JoinPhase) :
    (n.serve joins).cluster = n.cluster := by
  unfold serve cluster
  cases n.process <;> rfl

/-- Who enters a cluster holds its log and no other. -/
theorem cluster_enter {k : ℕ} {w : RaftWrite V} {j : ℕ} (h : (n.enter k w).cluster = some j) :
    j = k := by
  unfold enter at h
  split at h
  · next hp => simp [cluster, hp] at h
  · exact (Option.some.inj h).symm

theorem admits_start (seeds : List String) : (n.start seeds).Admits first := by
  intro p hp j
  obtain rfl := Option.some.inj hp
  exact ⟨fun req h => by simp at h, fun req vs h => by simp at h⟩

theorem admits_crash : n.crash.Admits first := by
  intro p hp
  simp [crash] at hp

theorem Admits.enter (h : n.Admits first) (k : ℕ) (w : RaftWrite V) :
    (n.enter k w).Admits first := by
  unfold RaftNode.enter
  split
  · exact h
  · next q hq =>
    intro p hp j
    obtain rfl := Option.some.inj hp
    exact ⟨fun _ _ => rfl, (h q hq j).2⟩

theorem Admits.joined (h : n.Admits first) : n.joined.Admits first := by
  intro p hp
  obtain ⟨q, hq, rfl⟩ := Option.map_eq_some_iff.1 hp
  exact h q hq

/-- A join moves on to a phase that the voters of its cluster allow. -/
theorem Admits.serve_insert (h : n.Admits first) {p : RaftProcess V B} (hp : n.process = some p)
    {j : ℕ} {phase : JoinPhase} (hread : ∀ req, phase = .readVoters req → p.cluster.isSome)
    (hset : ∀ req vs, phase = .changeMembership req vs → first ∈ vs) :
    (n.serve (p.joins.insert j phase)).Admits first := by
  intro q hq i
  obtain ⟨p', hp', rfl⟩ := Option.map_eq_some_iff.1 hq
  obtain rfl := Option.some.inj (hp.symm.trans hp')
  simp only [HashMap.lookup_insert_eq]
  split_ifs with hi
  · exact ⟨fun req e => hread req (Option.some.inj e),
      fun req vs e => hset req vs (Option.some.inj e)⟩
  · exact h p hp i

theorem Admits.serve_erase (h : n.Admits first) {p : RaftProcess V B} (hp : n.process = some p)
    (j : ℕ) : (n.serve (p.joins.erase j)).Admits first := by
  intro q hq i
  obtain ⟨p', hp', rfl⟩ := Option.map_eq_some_iff.1 hq
  obtain rfl := Option.some.inj (hp.symm.trans hp')
  simp only [HashMap.lookup_erase_eq]
  split_ifs with hi
  · exact ⟨fun req e => by simp at e, fun req vs e => by simp at e⟩
  · exact h p hp i

end RaftNode

/-! ## The invariant -/

namespace RaftFleet

variable {s : RaftFleet V B} {d : Deployment}

/-- The voters that run and hold a log are all of the cluster formed last, and the seedless node is
a voter of every cluster. -/
structure Sole (d : Deployment) (s : RaftFleet V B) : Prop where
  latest : ∀ i k, s.cluster i = some k → i ∈ (s.clusters k).voters → k + 1 = s.formed
  formed : ∀ i k, s.cluster i = some k → k < s.formed
  first : ∀ k, k < s.formed → d.first ∈ (s.clusters k).voters
  admits : ∀ i, (s.nodes i).Admits d.first

theorem sole_boot (d : Deployment) (stores : UInt64 → StateStore V) : (boot B stores).Sole d where
  latest i k h := by simp [boot, cluster, RaftNode.cluster] at h
  formed i k h := by simp [boot, cluster, RaftNode.cluster] at h
  first k h := absurd h (Nat.not_lt_zero k)
  admits i p h := by simp [boot] at h

theorem nodes_set (i : UInt64) (n : RaftNode V B) (j : UInt64) :
    (s.set i n).nodes j = if j = i then n else s.nodes j := Function.update_apply ..

theorem cluster_set (i : UInt64) (n : RaftNode V B) (j : UInt64) :
    (s.set i n).cluster j = if j = i then n.cluster else s.cluster j := by
  unfold cluster
  rw [nodes_set]
  split_ifs <;> rfl

theorem mem_holders {k : ℕ} {v : UInt64} :
    v ∈ s.holders k ↔ v ∈ (s.clusters k).voters ∧ s.cluster v = some k := Finset.mem_filter

/-- A node that leads a cluster is one of its voters and holds its log. -/
theorem mem_holders_of_leads {l : UInt64} {k : ℕ} (h : s.leads l = some k) : l ∈ s.holders k := by
  obtain ⟨-, h⟩ := Option.filter_eq_some_iff.1 h
  exact (of_decide_eq_true h).1

namespace Sole

/-- A voter that runs and holds a log holds that of the last cluster. -/
theorem of_mem_holders (h : s.Sole d) {v : UInt64} {k : ℕ} (hv : v ∈ s.holders k) :
    k + 1 = s.formed :=
  h.latest v k (mem_holders.1 hv).2 (mem_holders.1 hv).1

/-- A node changes its memory and holds no other log than before, or that of the last cluster. -/
theorem set (h : s.Sole d) {i : UInt64} {n : RaftNode V B}
    (hn : ∀ k, n.cluster = some k → s.cluster i = some k ∨ k + 1 = s.formed)
    (ha : n.Admits d.first) : (s.set i n).Sole d where
  latest j k hk hv := by
    rw [cluster_set] at hk
    split_ifs at hk with hj
    · subst hj
      obtain hold | hlast := hn k hk
      · exact h.latest j k hold hv
      · exact hlast
    · exact h.latest j k hk hv
  formed j k hk := by
    rw [cluster_set] at hk
    split_ifs at hk with hj
    · obtain hold | hlast := hn k hk
      · exact h.formed i k hold
      · exact Nat.lt_of_succ_le hlast.le
    · exact h.formed j k hk
  first := h.first
  admits j := by
    rw [nodes_set]
    split_ifs
    · exact ha
    · exact h.admits j

/-- The membership of the last cluster changes and keeps the seedless node. -/
theorem commit (h : s.Sole d) {k : ℕ} (hk : k + 1 = s.formed) {c : RaftCluster}
    (hc : d.first ∈ c.voters) : (s.commit k c).Sole d where
  latest i j hj hv := by
    by_cases hjk : j = k
    · exact hjk ▸ hk
    · have hold : (s.commit k c).clusters j = s.clusters j := Function.update_of_ne hjk ..
      exact h.latest i j hj (hold ▸ hv)
  formed := h.formed
  first j hj := by
    by_cases hjk : j = k
    · have hnew : (s.commit k c).clusters j = c := hjk ▸ Function.update_self ..
      rw [hnew]
      exact hc
    · have hold : (s.commit k c).clusters j = s.clusters j := Function.update_of_ne hjk ..
      exact hold ▸ h.first j hj
  admits := h.admits

theorem enter (h : s.Sole d) {k : ℕ} (hk : k + 1 = s.formed) (i : UInt64) (w : RaftWrite V) :
    (s.set i ((s.nodes i).enter k w)).Sole d :=
  h.set (fun _ hj => .inr (RaftNode.cluster_enter hj ▸ hk)) ((h.admits i).enter k w)

theorem serve (h : s.Sole d) {l : UInt64} {joins : HashMap ℕ JoinPhase}
    (ha : ((s.nodes l).serve joins).Admits d.first) :
    (s.set l ((s.nodes l).serve joins)).Sole d :=
  h.set (fun k hk => .inl (by rwa [RaftNode.cluster_serve] at hk)) ha

/-- The voters a join reads include the seedless node. -/
theorem first_mem_admission (h : s.Sole d) {l : UInt64} {p : RaftProcess V B}
    (hp : (s.nodes l).process = some p) (hc : p.cluster.isSome) (isLeader : Bool) :
    d.first ∈ (s.admission p isLeader).voters := by
  obtain ⟨k, hk⟩ := Option.isSome_iff_exists.1 hc
  have hcl : s.cluster l = some k := by rw [cluster, RaftNode.cluster, hp, Option.bind_some, hk]
  have hvoters : (s.admission p isLeader).voters = (s.clusters k).voters := by
    simp [admission, hk]
  rw [hvoters]
  exact h.first k (h.formed l k hcl)

/-- Only a leader, a voter that holds the log, changes the membership. -/
theorem resume {s' : RaftFleet V B} {l : UInt64} {j : ℕ} {ok : Bool} {w : RaftWrite V}
    (h : s.Sole d) (hs : s.resume l j ok w = some s') : s'.Sole d := by
  obtain ⟨p, hp, hs⟩ := Option.bind_eq_some_iff.1 hs
  obtain ⟨phase, hphase, hs⟩ := Option.bind_eq_some_iff.1 hs
  obtain ⟨adm, hadm, hs⟩ := Option.bind_eq_some_iff.1 hs
  have hserve : ∀ phase', (∀ req, phase' = .readVoters req → p.cluster.isSome) →
      (∀ req vs, phase' = .changeMembership req vs → d.first ∈ vs) →
      (s.set l ((s.nodes l).serve (p.joins.insert j phase'))).Sole d := fun phase' hread hset =>
    h.serve ((h.admits l).serve_insert hp hread hset)
  have hlog : ∀ k, s.leads l = some k → p.cluster.isSome := fun k hk => by
    have hcl := (mem_holders.1 (mem_holders_of_leads hk)).2
    rw [cluster, RaftNode.cluster, hp, Option.bind_some] at hcl
    simp [hcl]
  cases phase with
  | received body =>
    obtain rfl := Option.some.inj hs
    cases body with
    | none =>
      obtain rfl := Option.some.inj hadm
      exact hserve _ (by simp) (by simp)
    | some req =>
      cases ok <;> obtain rfl := Option.some.inj hadm <;> exact hserve _ (by simp) (by simp)
  | addLearner req =>
    cases ok with
    | false =>
      obtain rfl := Option.some.inj hs
      obtain rfl := Option.some.inj hadm
      exact hserve _ (by simp) (by simp)
    | true =>
      obtain rfl := Option.some.inj hadm
      obtain ⟨k, hk, hs⟩ := Option.bind_eq_some_iff.1 hs
      split_ifs at hs
      obtain rfl := Option.some.inj hs
      have hlast := h.of_mem_holders (mem_holders_of_leads hk)
      have hserved := hserve (.readVoters req) (fun _ _ => hlog k hk) (by simp)
      exact (hserved.commit hlast (c := ⟨_, _⟩)
        (h.first_mem_admission hp (hlog k hk) true)).enter hlast _ w
  | readVoters req =>
    obtain rfl := Option.some.inj hs
    obtain rfl := Option.some.inj hadm
    refine hserve _ (by simp) fun req' vs e => ?_
    obtain ⟨-, rfl⟩ := JoinPhase.changeMembership.inj e
    have hlog := (h.admits l p hp j).1 req hphase
    exact Finset.mem_insert_of_mem (h.first_mem_admission hp hlog ok)
  | changeMembership req vs =>
    cases ok with
    | false =>
      obtain rfl := Option.some.inj hs
      obtain rfl := Option.some.inj hadm
      exact hserve _ (by simp) (by simp)
    | true =>
      obtain rfl := Option.some.inj hadm
      obtain ⟨k, hk, rfl⟩ := Option.map_eq_some_iff.1 hs
      have hlast := h.of_mem_holders (mem_holders_of_leads hk)
      have hserved := hserve (.answered (some req) .ok) (by simp) (by simp)
      exact hserved.commit hlast ((h.admits l p hp j).2 req vs hphase)
  | answered body reply => simp [Admission.handleJoin] at hadm

theorem answer {s' : RaftFleet V B} {l : UInt64} {j : ℕ} {delivered : Bool} (h : s.Sole d)
    (hs : s.answer l j delivered = some s') : s'.Sole d := by
  obtain ⟨p, hp, hs⟩ := Option.bind_eq_some_iff.1 hs
  have hserved := h.serve ((h.admits l).serve_erase hp j)
  dsimp only at hs
  split at hs
  · obtain rfl := Option.some.inj hs
    split_ifs
    · refine hserved.set (fun k hk => .inl ?_) (hserved.admits _).joined
      rwa [RaftNode.cluster_joined] at hk
    · exact hserved
  · obtain rfl := Option.some.inj hs
    exact hserved
  · contradiction

/-- A cluster is formed only when no voter of another one is left. -/
theorem initializeCluster (h : s.Sole d) {w : RaftWrite V}
    (hg : s.NoVoterLeft (.bootstrap d.first w)) : (s.initializeCluster d.first w).Sole d := by
  unfold RaftFleet.initializeCluster
  split_ifs with hp
  · have hcl : ∀ j k, (s.set d.first ((s.nodes d.first).enter s.formed w)).cluster j = some k →
        k = s.formed ∨ s.cluster j = some k := fun j k hk => by
      rw [cluster_set] at hk
      split_ifs at hk
      · exact .inl (RaftNode.cluster_enter hk)
      · exact .inr hk
    have hold : ∀ k, k ≠ s.formed → Function.update s.clusters s.formed ⟨{d.first}, ∅⟩ k =
        s.clusters k := fun k hk => Function.update_of_ne hk ..
    refine ⟨fun j k hk hv => ?_, fun j k hk => ?_, fun k hk => ?_, fun j => ?_⟩
    · obtain rfl | hj := hcl j k hk
      · rfl
      · have hmem : j ∈ (Function.update s.clusters s.formed ⟨{d.first}, ∅⟩ k).voters := hv
        rw [hold k (h.formed j k hj).ne] at hmem
        have hheld := mem_holders.2 ⟨hmem, hj⟩
        rw [hg hp k (h.formed j k hj)] at hheld
        simp at hheld
    · obtain rfl | hj := hcl j k hk
      · exact Nat.lt_succ_self _
      · exact (h.formed j k hj).trans (Nat.lt_succ_self _)
    · change d.first ∈ (Function.update s.clusters s.formed ⟨{d.first}, ∅⟩ k).voters
      obtain hlt | rfl := Nat.lt_succ_iff_lt_or_eq.1 hk
      · rw [hold k hlt.ne]
        exact h.first k hlt
      · rw [Function.update_self]
        exact Finset.mem_singleton_self _
    · change ((s.set d.first ((s.nodes d.first).enter s.formed w)).nodes j).Admits d.first
      rw [nodes_set]
      split_ifs
      · exact (h.admits _).enter _ _
      · exact h.admits j
  · exact h

/-- **A step under the condition.** -/
theorem step {s' : RaftFleet V B} {a : RaftAction V} (h : s.Sole d) (hg : s.NoVoterLeft a)
    (hs : s.step d a = some s') : s'.Sole d := by
  cases a with
  | start i =>
    simp only [RaftFleet.step] at hs
    split_ifs at hs
    obtain rfl := Option.some.inj hs
    exact h.set (fun k hk => by cases hk) (RaftNode.admits_start _)
  | crash i =>
    obtain rfl := Option.some.inj hs
    exact h.set (fun k hk => by cases hk) RaftNode.admits_crash
  | bootstrap i w =>
    simp only [RaftFleet.step] at hs
    split_ifs at hs with hi
    obtain rfl := Option.some.inj hs
    obtain rfl := (d.seeds_eq_nil i).1 hi.1
    exact h.initializeCluster hg
  | ask i l j raftAddr =>
    obtain ⟨p, hp, hs⟩ := Option.bind_eq_some_iff.1 hs
    split_ifs at hs
    obtain rfl := Option.some.inj hs
    exact h.serve ((h.admits l).serve_insert hp (by simp) (by simp))
  | resume l j ok w => exact h.resume hs
  | answer l j delivered => exact h.answer hs
  | contact a i w =>
    obtain ⟨k, hk, hs⟩ := Option.bind_eq_some_iff.1 hs
    split_ifs at hs with hif
    obtain rfl := Option.some.inj hs
    exact h.enter (h.of_mem_holders hif.1) i w

/-- Both majorities are among the voters of the last cluster. -/
theorem singleAuthority (h : s.Sole d) : s.SingleAuthority := by
  refine ⟨?_, fun k l hk hl => ⟨d.first, Finset.mem_inter.2 ⟨h.first k hk, h.first l hl⟩⟩⟩
  rintro i j Q R ⟨k, hi, hQ, hcard⟩ ⟨l, hj, hR, hcard'⟩
  have hmi := mem_holders_of_leads hi
  have hmj := mem_holders_of_leads hj
  obtain rfl : k = l := Nat.succ.inj ((h.of_mem_holders hmi).trans (h.of_mem_holders hmj).symm)
  refine ⟨(mem_holders.1 hmi).2.trans (mem_holders.1 hmj).2.symm, ?_⟩
  have hsub : s.holders k ⊆ (s.clusters k).voters := Finset.filter_subset ..
  exact Finset.inter_nonempty_of_card_lt_card_add_card (hQ.trans hsub) (hR.trans hsub) (by omega)

end Sole

/-! ## Runs -/

/-- **Single authority.** Any nodes boot, crash, restart over their data directories and join, in any
order. In every state of a run under the condition, two puts that can be acknowledged go through one
cluster and are seen by a common node, and no two clusters have disjoint voters. -/
theorem single_authority (d : Deployment) (stores : UInt64 → StateStore V)
    (as : List (RaftAction V)) (hg : Guarded (step (B := B) d) NoVoterLeft (boot B stores) as) :
    ∀ n t, run (step d) (boot B stores) (as.take n) = some t → t.SingleAuthority := by
  intro n t ht
  have hsole : t.Sole d := (hg.take n).invariant (I := Sole d)
    (fun _ _ _ h hg hs => h.step hg hs) (sole_boot d stores) ht
  exact hsole.singleAuthority

/-- Node 1 has no seeds; the others have its address. -/
def seededBy1 : Deployment where
  seeds i := if i = 1 then [] else ["10.0.0.1:7000"]
  first := 1
  seeds_eq_nil := by
    intro i
    split_ifs with h <;> simp [h]

/-- The vote of a leader and the blank entry of its term. -/
def firstTerm (leader : ℕ) : RaftWrite (List UInt8) :=
  ⟨⟨⟨1, leader⟩, true⟩, [⟨⟨⟨1, leader⟩, 1⟩, .blank⟩], []⟩

/-- Node `i` boots, asks node 1 and is admitted. -/
def admitted (i : UInt64) : List (RaftAction (List UInt8)) :=
  [.start i, .ask i 1 0 "10.255.0.2:7000", .resume 1 0 true (firstTerm 1),
    .resume 1 0 true (firstTerm 1), .resume 1 0 true (firstTerm 1), .resume 1 0 true (firstTerm 1),
    .answer 1 0 true]

/-- Node 1 forms a cluster and admits two others. -/
def formation : List (RaftAction (List UInt8)) :=
  [.start 1, .bootstrap 1 (firstTerm 1)] ++ admitted 2 ++ admitted 3

/-- A member restarts and is reached by the leader; then every node fails, and the fleet is formed
anew once node 1 is back. -/
def outage : List (RaftAction (List UInt8)) :=
  [.crash 2, .start 2, .contact 1 2 (firstTerm 1), .crash 1, .crash 2, .crash 3, .start 1,
    .bootstrap 1 (firstTerm 1)] ++ admitted 2

theorem single_authority_outage :
    ∃ t, run (step seededBy1) (boot Unit fun _ => .empty) (formation ++ outage) = some t ∧
      t.formed = 2 ∧ t.CanPut 1 {1, 2} ∧ t.CanPut 2 {1, 2} ∧ t.SingleAuthority := by
  have hg : Guarded (step (B := Unit) seededBy1) NoVoterLeft (boot Unit fun _ => .empty)
      (formation ++ outage) := by
    decide +kernel
  have hend : (run (step seededBy1) (boot Unit fun _ => .empty) (formation ++ outage)).any
      fun t => t.formed = 2 ∧ t.leads 1 = some 1 ∧ t.leads 2 = some 1 ∧ t.holders 1 = {1, 2} ∧
        (t.clusters 1).voters.card = 2 := by
    decide +kernel
  obtain ⟨t, ht, hend⟩ := (Option.any_eq_true _ _).1 hend
  obtain ⟨hformed, h₁, h₂, hheld, hcard⟩ := of_decide_eq_true hend
  have hmajority : (t.clusters 1).voters.card < 2 * ({1, 2} : Finset UInt64).card := by
    rw [hcard]
    decide
  refine ⟨t, ht, hformed, ⟨1, h₁, hheld.ge, hmajority⟩, ⟨1, h₂, hheld.ge, hmajority⟩, ?_⟩
  refine single_authority seededBy1 _ _ hg (formation ++ outage).length t ?_
  rwa [List.take_length]

/-- Node 1 restarts while the other two run. -/
def restart : List (RaftAction (List UInt8)) := [.crash 1, .start 1, .bootstrap 1 (firstTerm 1)]

/-- The restarted node gets puts acknowledged by itself, and the other two by each other. -/
theorem restart_splits_authority :
    ∃ t, run (step seededBy1) (boot Unit fun _ => .empty) (formation ++ restart) = some t ∧
      t.CanPut 1 {1} ∧ t.CanPut 2 {2, 3} ∧ t.cluster 1 ≠ t.cluster 2 ∧ ¬t.SingleAuthority := by
  have hend : (run (step seededBy1) (boot Unit fun _ => .empty) (formation ++ restart)).any
      fun t => t.leads 1 = some 1 ∧ t.holders 1 = {1} ∧ (t.clusters 1).voters.card = 1 ∧
        t.leads 2 = some 0 ∧ t.holders 0 = {2, 3} ∧ (t.clusters 0).voters.card = 3 := by
    decide +kernel
  obtain ⟨t, ht, hend⟩ := (Option.any_eq_true _ _).1 hend
  obtain ⟨h₁, hheld₁, hcard₁, h₂, hheld₂, hcard₂⟩ := of_decide_eq_true hend
  have hput₁ : t.CanPut 1 {1} := ⟨1, h₁, hheld₁.ge, by rw [hcard₁]; decide⟩
  have hput₂ : t.CanPut 2 {2, 3} := ⟨0, h₂, hheld₂.ge, by rw [hcard₂]; decide⟩
  have hne : t.cluster 1 ≠ t.cluster 2 := by
    rw [(mem_holders.1 (mem_holders_of_leads h₁)).2, (mem_holders.1 (mem_holders_of_leads h₂)).2]
    decide
  exact ⟨t, ht, hput₁, hput₂, hne, fun h => hne (h.1 1 2 _ _ hput₁ hput₂).1⟩

end RaftFleet

end OCF.Api
