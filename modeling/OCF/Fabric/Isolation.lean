import OCF.Fabric.Transport
import OCF.Foundations.Fair
import Mathlib.Data.Finset.Insert
import Mathlib.Data.List.Nodup

/-!
# Isolation of the peers of a transport

A request first connects, then fetches the session from the cache, then runs its exchange. The cache
is behind one lock of the transport and every session behind a lock of its own; the locks are
granted in the order in which they are asked for. `connect` keeps the lock of the cache while it
dials, so a peer that accepts a connection and never answers the handshake keeps it forever.

A task is a request under way, and a trace is any schedule of any number of them. `IsolationGuard`
says that no dial to the silent peer begins while a request to another peer waits for the cache, and
that no such request is made while that dial lasts. `peers_isolated_iff` says that this is exactly
when, in every fair trace, all requests to the other peers return.
-/

namespace OCF.Fabric

/-- The locks of a transport: that of the cache, and one for each session. -/
inductive TransportLock
  | conns
  | session (node : NodeId)
  deriving DecidableEq

/-- How far a request has come. -/
inductive RequestPhase
  /-- `connect` asks for the cache, to look for a session. -/
  | connecting
  /-- `connect` dials and shakes hands, with the lock of the cache. -/
  | dialing
  /-- The request asks for the cache again, to fetch the session. -/
  | fetching
  /-- The request asks for the session. -/
  | locking
  | exchanging
  | returned (r : Result Bytes)

namespace RequestPhase

/-- The lock that is waited for or held. -/
def lock (node : NodeId) : RequestPhase → Option TransportLock
  | .connecting | .dialing | .fetching => some .conns
  | .locking | .exchanging => some (.session node)
  | .returned _ => none

/-- The request holds its lock and waits for the peer. -/
def busy : RequestPhase → Bool
  | .dialing | .exchanging => true
  | _ => false

/-- How many times a lock is still to be given back. -/
def stage : RequestPhase → ℕ
  | .connecting | .dialing => 3
  | .fetching => 2
  | .locking | .exchanging => 1
  | .returned _ => 0

end RequestPhase

/-- A request under way. -/
structure RequestTask where
  node : NodeId
  phase : RequestPhase

/-- The lock that a task waits for or holds. -/
def RequestTask.lock (k : RequestTask) : Option TransportLock := k.phase.lock k.node

/-- A transport with the requests on it. The first task at a lock holds it or is given it next. -/
structure SharedTransport where
  /-- The nodes with a session in the cache. -/
  cached : Finset NodeId
  queue : TransportLock → List ℕ
  tasks : HashMap ℕ RequestTask

/-- What can happen next. -/
inductive RequestAction
  /-- A request is made and runs up to its first lock. -/
  | request (c : ℕ) (node : FabricNode)
  /-- A task goes on; `r` is what a dial or an exchange that it waits for comes to. -/
  | resume (c : ℕ) (r : Result Bytes)

namespace SharedTransport

/-- A transport with no requests under way. -/
def idle (cached : Finset NodeId) : SharedTransport := ⟨cached, fun _ => [], ∅⟩

variable (s : SharedTransport)

/-- Give a task a phase, with the lock it has. -/
def hold (c : ℕ) (k : RequestTask) : SharedTransport := { s with tasks := s.tasks.insert c k }

/-- Ask for the lock of a phase. -/
def enqueue (c : ℕ) (k : RequestTask) : SharedTransport :=
  match k.lock with
  | none => s.hold c k
  | some l => { s.hold c k with queue := Function.update s.queue l (s.queue l ++ [c]) }

/-- Give a lock back. -/
def pop (l : TransportLock) : SharedTransport :=
  { s with queue := Function.update s.queue l (s.queue l).tail }

/-- Give a lock back and go on to a phase. -/
def release (l : TransportLock) (c : ℕ) (k : RequestTask) : SharedTransport := (s.pop l).enqueue c k

/-- A task that has its lock goes on to where it waits next. -/
def resume (c : ℕ) (node : NodeId) (r : Result Bytes) : RequestPhase → Option SharedTransport
  | .connecting =>
    if node ∈ s.cached then some (s.release .conns c ⟨node, .fetching⟩)
    else some (s.hold c ⟨node, .dialing⟩)
  | .dialing =>
    match r with
    | .error e => some (s.release .conns c ⟨node, .returned (.error e)⟩)
    | .ok _ =>
      some ({ s with cached := insert node s.cached }.release .conns c ⟨node, .fetching⟩)
  | .fetching =>
    if node ∈ s.cached then some (s.release .conns c ⟨node, .locking⟩)
    else some (s.release .conns c ⟨node, .returned (.error (.internal "noise session vanished"))⟩)
  | .locking => some (s.hold c ⟨node, .exchanging⟩)
  | .exchanging => some (s.release (.session node) c ⟨node, .returned r⟩)
  | .returned _ => none

/-- One action. -/
def step (s : SharedTransport) : RequestAction → Option SharedTransport
  | .request c node =>
    if c ∈ s.tasks then none
    else
      match node.primaryEndpoint with
      | none =>
        let e := .invalidArgument ("node " ++ node.nodeId.name ++ " has no endpoint")
        some (s.hold c ⟨node.nodeId, .returned (.error e)⟩)
      | some _ => some (s.enqueue c ⟨node.nodeId, .connecting⟩)
  | .resume c r =>
    (s.tasks.lookup c).bind fun k =>
      k.lock.bind fun l => if (s.queue l).head? = some c then s.resume c k.node r k.phase else none

/-- The task waits for the peer `p`. -/
def awaits (p : NodeId) (c : ℕ) : Bool :=
  (s.tasks.lookup c).any fun k => k.node = p && k.phase.busy

/-- The peer `p` never completes a dial or an exchange. -/
def Silent (p : NodeId) (s : SharedTransport) : RequestAction → Prop
  | .request _ _ => True
  | .resume c _ => s.awaits p c = false

instance (p : NodeId) : ∀ a, Decidable (s.Silent p a)
  | .request _ _ => .isTrue trivial
  | .resume c _ => inferInstanceAs (Decidable (s.awaits p c = false))

/-- The task has its lock and does not wait for the peer `p`. -/
def ready (p : NodeId) (c : ℕ) : Bool :=
  (s.tasks.lookup c).any fun k =>
    k.lock.any (fun l => (s.queue l).head? = some c) && !(k.node = p && k.phase.busy)

/-- A dial to `p` is under way. -/
def Dials (p : NodeId) : Prop := ∃ c, s.tasks.lookup c = some ⟨p, .dialing⟩

/-- Every task at the lock of the cache is a request to `p`. -/
def OnlyWaits (p : NodeId) : Prop :=
  ∀ c ∈ s.queue .conns, ∀ k, s.tasks.lookup c = some k → k.node = p

/-- The condition on a step: no dial to `p` begins while a request to another node is at the lock of
the cache, and no such request is made while a dial to `p` is under way. -/
def IsolationGuard (p : NodeId) (s : SharedTransport) : RequestAction → Prop
  | .request _ node => node.nodeId ≠ p → node.primaryEndpoint ≠ none → ¬s.Dials p
  | .resume c _ => s.tasks.lookup c = some ⟨p, .connecting⟩ → p ∉ s.cached → s.OnlyWaits p

/-! ## What a step does -/

variable {s s' : SharedTransport} {a : RequestAction}

theorem queue_enqueue (c : ℕ) (k : RequestTask) (l : TransportLock) :
    (s.enqueue c k).queue l = if k.lock = some l then s.queue l ++ [c] else s.queue l := by
  unfold enqueue
  split
  · next h =>
    rw [h, if_neg (by simp)]
    rfl
  · next m h =>
    dsimp only
    rw [h, Function.update_apply]
    by_cases hl : l = m
    · rw [if_pos hl, if_pos (by rw [hl]), hl]
    · rw [if_neg hl, if_neg fun e => hl (Option.some.inj e).symm]

theorem queue_pop {l : TransportLock} {c : ℕ} {rest : List ℕ} (h : s.queue l = c :: rest)
    (m : TransportLock) : (s.pop l).queue m = if m = l then rest else s.queue m := by
  change Function.update s.queue l (s.queue l).tail m = _
  rw [Function.update_apply, h, List.tail_cons]

theorem tasks_enqueue (c : ℕ) (k : RequestTask) : (s.enqueue c k).tasks = s.tasks.insert c k := by
  unfold enqueue
  split <;> rfl

/-- What a step can do: make a request, keep a lock and wait for the peer, or give a lock back and
go on to the next stage. -/
theorem step_cases (h : s.step a = some s') :
    (∃ c node phase, a = .request c node ∧ c ∉ s.tasks ∧
      ((node.primaryEndpoint = none ∧ ∃ r, phase = .returned r) ∨
        (node.primaryEndpoint ≠ none ∧ phase = .connecting)) ∧
      s' = s.enqueue c ⟨node.nodeId, phase⟩) ∨
    ∃ c r k l phase, a = .resume c r ∧ s.tasks.lookup c = some k ∧ k.lock = some l ∧
      (s.queue l).head? = some c ∧
      ((k.phase.busy = false ∧ phase.busy ∧ phase.stage = k.phase.stage ∧
          phase.lock k.node = some l ∧
          (phase = .dialing → k.phase = .connecting ∧ k.node ∉ s.cached) ∧
          s' = s.hold c ⟨k.node, phase⟩) ∨
        (phase.busy = false ∧ phase.stage < k.phase.stage ∧
          (phase.lock k.node = some .conns → l = .conns) ∧
          s'.queue = (s.release l c ⟨k.node, phase⟩).queue ∧
          s'.tasks = s.tasks.insert c ⟨k.node, phase⟩)) := by
  cases a with
  | request c node =>
    simp only [step] at h
    split_ifs at h with hc
    refine .inl ⟨c, node, ?_⟩
    split at h
    · next he => exact ⟨_, rfl, hc, .inl ⟨he, _, rfl⟩, (Option.some.inj h).symm⟩
    · next e he => exact ⟨.connecting, rfl, hc, .inr ⟨by simp [he], rfl⟩, (Option.some.inj h).symm⟩
  | resume c r =>
    obtain ⟨k, hk, h⟩ := Option.bind_eq_some_iff.1 h
    obtain ⟨l, hl, h⟩ := Option.bind_eq_some_iff.1 h
    split_ifs at h with hhead
    refine .inr ⟨c, r, k, l, ?_⟩
    obtain ⟨node, phase⟩ := k
    cases phase with
    | connecting =>
      obtain rfl := Option.some.inj hl
      simp only [resume] at h
      split_ifs at h with hcached <;> obtain rfl := Option.some.inj h
      · exact ⟨.fetching, rfl, hk, rfl, hhead, .inr ⟨rfl, by simp [RequestPhase.stage],
          fun _ => rfl, rfl, tasks_enqueue ..⟩⟩
      · exact ⟨.dialing, rfl, hk, rfl, hhead, .inl ⟨rfl, rfl, rfl, rfl,
          fun _ => ⟨rfl, hcached⟩, rfl⟩⟩
    | dialing =>
      obtain rfl := Option.some.inj hl
      cases r with
      | error e =>
        obtain rfl := Option.some.inj h
        exact ⟨.returned (.error e), rfl, hk, rfl, hhead, .inr ⟨rfl, by simp [RequestPhase.stage],
          fun e => by simp [RequestPhase.lock] at e, rfl, tasks_enqueue ..⟩⟩
      | ok bytes =>
        obtain rfl := Option.some.inj h
        exact ⟨.fetching, rfl, hk, rfl, hhead, .inr ⟨rfl, by simp [RequestPhase.stage],
          fun _ => rfl, rfl, tasks_enqueue ..⟩⟩
    | fetching =>
      obtain rfl := Option.some.inj hl
      simp only [resume] at h
      split_ifs at h <;> obtain rfl := Option.some.inj h
      · exact ⟨.locking, rfl, hk, rfl, hhead, .inr ⟨rfl, by simp [RequestPhase.stage],
          fun _ => rfl, rfl, tasks_enqueue ..⟩⟩
      · exact ⟨.returned (.error (.internal "noise session vanished")), rfl, hk, rfl, hhead,
          .inr ⟨rfl, by simp [RequestPhase.stage], fun _ => rfl, rfl, tasks_enqueue ..⟩⟩
    | locking =>
      obtain rfl := Option.some.inj hl
      obtain rfl := Option.some.inj h
      exact ⟨.exchanging, rfl, hk, rfl, hhead, .inl ⟨rfl, rfl, rfl, rfl,
        fun e => by simp at e, rfl⟩⟩
    | exchanging =>
      obtain rfl := Option.some.inj hl
      obtain rfl := Option.some.inj h
      exact ⟨.returned r, rfl, hk, rfl, hhead, .inr ⟨rfl, by simp [RequestPhase.stage],
        fun e => by simp [RequestPhase.lock] at e, rfl, tasks_enqueue ..⟩⟩
    | returned r' => simp [RequestTask.lock, RequestPhase.lock] at hl

/-! ## The locks -/

/-- The tasks at a lock are in its queue, once, and one that waits for a peer is the first. -/
structure Wf (s : SharedTransport) : Prop where
  nodup : ∀ l, (s.queue l).Nodup
  mem : ∀ l c, c ∈ s.queue l ↔ ∃ k, s.tasks.lookup c = some k ∧ k.lock = some l
  first : ∀ c k l, s.tasks.lookup c = some k → k.phase.busy → k.lock = some l →
    (s.queue l).head? = some c

theorem wf_idle (cached : Finset NodeId) : (idle cached).Wf where
  nodup l := List.nodup_nil
  mem l c := by simp [idle]
  first c k l h := by simp [idle] at h

/-- As `Wf`, but for a task that is at no lock. -/
structure WfBut (c : ℕ) (s : SharedTransport) : Prop where
  nodup : ∀ l, (s.queue l).Nodup
  out : ∀ l, c ∉ s.queue l
  mem : ∀ l i, i ≠ c → (i ∈ s.queue l ↔ ∃ k, s.tasks.lookup i = some k ∧ k.lock = some l)
  first : ∀ i k l, i ≠ c → s.tasks.lookup i = some k → k.phase.busy → k.lock = some l →
    (s.queue l).head? = some i

/-- The task asks for the lock of its next phase. -/
theorem WfBut.enqueue {c : ℕ} (h : s.WfBut c) {k : RequestTask} (hk : k.phase.busy = false) :
    (s.enqueue c k).Wf where
  nodup l := by
    rw [queue_enqueue]
    split_ifs
    · exact List.nodup_append.2 ⟨h.nodup l, List.nodup_singleton c,
        fun i hi j hj => by
          rw [List.mem_singleton.1 hj]
          rintro rfl
          exact h.out l hi⟩
    · exact h.nodup l
  mem l i := by
    rw [queue_enqueue, tasks_enqueue, HashMap.lookup_insert_eq]
    by_cases hi : i = c
    · subst hi
      by_cases hl : k.lock = some l <;> simp [hl, h.out l]
    · rw [if_neg hi, ← h.mem l i hi]
      split_ifs <;> simp [hi]
  first i k' l hi hbusy hl := by
    rw [tasks_enqueue, HashMap.lookup_insert_eq] at hi
    split_ifs at hi with hic
    · rw [← Option.some.inj hi, hk] at hbusy
      contradiction
    · have hhead := h.first i k' l hic hi hbusy hl
      rw [queue_enqueue]
      split_ifs
      · rw [List.head?_append, hhead, Option.some_or]
      · exact hhead

namespace Wf

theorem lock_unique (h : s.Wf) {c : ℕ} {k : RequestTask} (hk : s.tasks.lookup c = some k)
    {l : TransportLock} (hc : c ∈ s.queue l) : k.lock = some l := by
  obtain ⟨k', hk', hl⟩ := (h.mem l c).1 hc
  rwa [Option.some.inj (hk.symm.trans hk')]

theorem of_not_mem (h : s.Wf) {c : ℕ} (hc : c ∉ s.tasks) : s.WfBut c where
  nodup := h.nodup
  out l hl := by
    obtain ⟨k, hk, -⟩ := (h.mem l c).1 hl
    exact hc (HashMap.mem_iff_exists_lookup.2 ⟨k, hk⟩)
  mem l i _ := h.mem l i
  first i k l _ := h.first i k l

/-- The first task at a lock gives it back. -/
theorem popped (h : s.Wf) {c : ℕ} {l : TransportLock} (hhead : (s.queue l).head? = some c) :
    (s.pop l).WfBut c := by
  obtain ⟨rest, hq⟩ : ∃ rest, s.queue l = c :: rest := List.head?_eq_some_iff.1 hhead
  have hnd := h.nodup l
  rw [hq, List.nodup_cons] at hnd
  have hqueue := queue_pop hq
  have hc : c ∈ s.queue l := hq ▸ List.mem_cons_self
  refine ⟨fun m => ?_, fun m => ?_, fun m i hi => ?_, fun i k m hi hk hbusy hm => ?_⟩
  · rw [hqueue]
    split_ifs
    · exact hnd.2
    · exact h.nodup m
  · rw [hqueue]
    split_ifs with hm
    · exact hnd.1
    · intro hcm
      obtain ⟨k, hk, hkl⟩ := (h.mem l c).1 hc
      exact hm (Option.some.inj ((h.lock_unique hk hcm).symm.trans hkl))
  · have hmem := h.mem m i
    rw [hqueue]
    split_ifs with hm
    · rw [hm, hq, List.mem_cons, or_iff_right hi] at hmem
      exact hm ▸ hmem
    · exact hmem
  · have hfirst := h.first i k m hk hbusy hm
    rw [hqueue, if_neg, hfirst]
    rintro rfl
    exact hi (Option.some.inj (hfirst.symm.trans hhead))

/-- The first task at a lock goes on without giving it back. -/
theorem hold (h : s.Wf) {c : ℕ} {k k' : RequestTask} {l : TransportLock}
    (hhead : (s.queue l).head? = some c) (hk : s.tasks.lookup c = some k) (hl : k.lock = some l)
    (hl' : k'.lock = some l) : (s.hold c k').Wf where
  nodup := h.nodup
  mem m i := by
    change i ∈ s.queue m ↔ ∃ k, (s.tasks.insert c k').lookup i = some k ∧ k.lock = some m
    rw [h.mem, HashMap.lookup_insert_eq]
    split_ifs with hi
    · subst hi
      simp [hk, hl, hl']
    · rfl
  first i k₁ m hi hbusy hm := by
    change (s.tasks.insert c k').lookup i = some k₁ at hi
    obtain ⟨hic, rfl⟩ | ⟨-, hi⟩ := HashMap.lookup_insert_eq_some.1 hi
    · obtain rfl := Option.some.inj (hl'.symm.trans hm)
      rw [hic]
      exact hhead
    · exact h.first i k₁ m hi hbusy hm

theorem step (h : s.Wf) (hs : s.step a = some s') : s'.Wf := by
  obtain ⟨c, node, phase, -, hc, hphase, rfl⟩ | ⟨c, r, k, l, phase, -, hk, hl, hhead,
    ⟨-, -, -, hl', -, rfl⟩ | ⟨hbusy, -, -, hqueue, htasks⟩⟩ := step_cases hs
  · refine (h.of_not_mem hc).enqueue ?_
    obtain ⟨-, r, rfl⟩ | ⟨-, rfl⟩ := hphase <;> rfl
  · exact h.hold hhead hk hl hl'
  · have hrel : (s.release l c ⟨k.node, phase⟩).Wf := (h.popped hhead).enqueue hbusy
    have htasks' : (s.release l c ⟨k.node, phase⟩).tasks = s'.tasks := by
      rw [htasks]
      exact tasks_enqueue ..
    refine ⟨hqueue ▸ hrel.nodup, fun m i => ?_, fun i k m => ?_⟩
    · rw [hqueue, ← htasks']
      exact hrel.mem m i
    · rw [hqueue, ← htasks']
      exact hrel.first i k m

end Wf

/-! ## Progress at a lock -/

/-- The first task at the lock holds it and waits for its peer. -/
def headBusy (s : SharedTransport) (l : TransportLock) : Bool :=
  (s.queue l).head?.any fun h => (s.tasks.lookup h).any fun k => k.phase.busy

/-- How far a task is from having been given a lock and giving it back: every task before it is
still to wait for its peer and to leave. -/
def rank (s : SharedTransport) (l : TransportLock) (c : ℕ) : ℕ :=
  2 * (s.queue l).idxOf c + if s.headBusy l then 0 else 1

/-- The task that the lock is with. -/
def turn (s : SharedTransport) (l : TransportLock) (c : ℕ) : ℕ := (s.queue l).head?.getD c

theorem head?_eq_turn {l : TransportLock} {c : ℕ} (hc : c ∈ s.queue l) :
    (s.queue l).head? = some (s.turn l c) := by
  obtain ⟨h, rest, hq⟩ := List.exists_cons_of_ne_nil (List.ne_nil_of_mem hc)
  rw [turn, hq]
  rfl

/-- More tasks come to the lock and its first task stays as it is. -/
theorem rank_append {l : TransportLock} {c : ℕ} {xs : List ℕ} (hc : c ∈ s.queue l)
    (hq : s'.queue l = s.queue l ++ xs)
    (ht : ∀ h, (s.queue l).head? = some h → s'.tasks.lookup h = s.tasks.lookup h) :
    (s'.queue l).head? = (s.queue l).head? ∧ s'.rank l c = s.rank l c := by
  have hturn := head?_eq_turn hc
  have hhead : (s'.queue l).head? = (s.queue l).head? := by
    rw [hq, List.head?_append, hturn, Option.some_or]
  have hbusy : s'.headBusy l = s.headBusy l := by
    rw [headBusy, headBusy, hhead, hturn, Option.any_some, Option.any_some, ht _ hturn]
  refine ⟨hhead, ?_⟩
  rw [rank, rank, hbusy, hq, List.idxOf_append_of_mem hc]

/-- The first task leaves a lock, and perhaps asks for it again. -/
theorem rank_popped {l : TransportLock} {c h : ℕ} {rest xs : List ℕ} (hne : c ≠ h)
    (hc : c ∈ s.queue l) (hq : s.queue l = h :: rest) (hq' : s'.queue l = rest ++ xs) :
    s'.rank l c < s.rank l c := by
  have hrest : c ∈ rest := (List.mem_cons.1 (hq ▸ hc)).resolve_left hne
  rw [rank, rank, hq, hq', List.idxOf_append_of_mem hrest, List.idxOf_cons_ne _ hne.symm]
  split_ifs <;> omega

/-- What a step can do to a task at a lock: the task gives the lock back, or it comes closer to that,
or the step is not one of the task that the lock is with. -/
def Advances (s : SharedTransport) (a : RequestAction) (s' : SharedTransport) (l : TransportLock)
    (c : ℕ) (k : RequestTask) : Prop :=
  ∃ k', s'.tasks.lookup c = some k' ∧ k'.node = k.node ∧ (k'.phase.stage < k.phase.stage ∨
    (k'.phase.stage = k.phase.stage ∧ k'.lock = some l ∧ (s'.rank l c < s.rank l c ∨
      (s'.rank l c = s.rank l c ∧ (s'.queue l).head? = (s.queue l).head? ∧
        ∀ x r, a = .resume x r → (s.queue l).head? ≠ some x))))

section Advance

variable {c x : ℕ} {k kx : RequestTask} {l lx : TransportLock}

/-- A step of a task that is not at the lock. -/
theorem Advances.of_append {xs : List ℕ} (hk : s.tasks.lookup c = some k) (hl : k.lock = some l)
    (hc : c ∈ s.queue l) (hq : s'.queue l = s.queue l ++ xs)
    (ht : ∀ i ∈ s.queue l, s'.tasks.lookup i = s.tasks.lookup i)
    (ha : ∀ x r, a = .resume x r → x ∉ s.queue l) : Advances s a s' l c k := by
  obtain ⟨hsame, hrank⟩ := rank_append hc hq fun i hi => ht i (List.mem_of_head? hi)
  refine ⟨k, (ht c hc).trans hk, rfl, .inr ⟨rfl, hl, .inr ⟨hrank, hsame, fun x r e hx => ?_⟩⟩⟩
  exact ha x r e (List.mem_of_head? hx)

/-- A new request is not at any lock yet. -/
theorem Wf.advances_request (h : s.Wf) {node : FabricNode} {k' : RequestTask} (hx : x ∉ s.tasks)
    (hk : s.tasks.lookup c = some k) (hl : k.lock = some l) :
    Advances s (.request x node) (s.enqueue x k') l c k := by
  have hne : ∀ i ∈ s.queue l, i ≠ x := by
    rintro i hi rfl
    obtain ⟨ki, hki, -⟩ := (h.mem l i).1 hi
    exact hx (HashMap.mem_iff_exists_lookup.2 ⟨ki, hki⟩)
  obtain ⟨xs, hq⟩ : ∃ xs, (s.enqueue x k').queue l = s.queue l ++ xs := by
    rw [queue_enqueue]
    split_ifs
    · exact ⟨[x], rfl⟩
    · exact ⟨[], (List.append_nil _).symm⟩
  refine .of_append hk hl ((h.mem l c).2 ⟨k, hk, hl⟩) hq (fun i hi => ?_) (by simp)
  rw [tasks_enqueue, HashMap.lookup_insert_eq, if_neg (hne i hi)]

/-- A task is at one lock only. -/
theorem Wf.ne_of_mem_queue (h : s.Wf) (hkx : s.tasks.lookup x = some kx) (hlx : kx.lock = some lx)
    (hne : l ≠ lx) : ∀ i ∈ s.queue l, i ≠ x := by
  rintro i hi rfl
  exact hne (Option.some.inj ((h.lock_unique hkx hi).symm.trans hlx))

/-- The first task at a lock goes on to wait for its peer. -/
theorem Wf.advances_hold (h : s.Wf) {phase : RequestPhase} {r : Result Bytes}
    (hkx : s.tasks.lookup x = some kx) (hlx : kx.lock = some lx)
    (hhead : (s.queue lx).head? = some x) (hidle : kx.phase.busy = false) (hbusy : phase.busy)
    (hstage : phase.stage = kx.phase.stage) (hlock : phase.lock kx.node = some lx)
    (hk : s.tasks.lookup c = some k) (hl : k.lock = some l) :
    Advances s (.resume x r) (s.hold x ⟨kx.node, phase⟩) l c k := by
  have hlook : ∀ i, (s.hold x ⟨kx.node, phase⟩).tasks.lookup i =
      if i = x then some ⟨kx.node, phase⟩ else s.tasks.lookup i :=
    fun i => HashMap.lookup_insert_eq ..
  by_cases hll : l = lx
  · subst hll
    have hrank : (s.hold x ⟨kx.node, phase⟩).rank l c < s.rank l c := by
      have hb : s.headBusy l = false := by
        rw [headBusy, hhead, Option.any_some, hkx, Option.any_some, hidle]
      have hb' : (s.hold x ⟨kx.node, phase⟩).headBusy l = true := by
        change (s.queue l).head?.any _ = true
        rw [hhead, Option.any_some, hlook, if_pos rfl, Option.any_some]
        exact hbusy
      rw [rank, rank, hb, hb']
      exact Nat.lt_succ_self _
    by_cases hcx : c = x
    · subst hcx
      obtain rfl := Option.some.inj (hk.symm.trans hkx)
      exact ⟨⟨k.node, phase⟩, by rw [hlook, if_pos rfl], rfl, .inr ⟨hstage, hlock, .inl hrank⟩⟩
    · exact ⟨k, by rw [hlook, if_neg hcx, hk], rfl, .inr ⟨rfl, hl, .inl hrank⟩⟩
  · have hne := h.ne_of_mem_queue hkx hlx hll
    refine .of_append hk hl ((h.mem l c).2 ⟨k, hk, hl⟩) (List.append_nil _).symm (fun i hi => ?_)
      fun y r' e hy => ?_
    · rw [hlook, if_neg (hne i hi)]
    · obtain ⟨rfl, -⟩ := RequestAction.resume.inj e
      exact hne x hy rfl

/-- The first task at a lock gives it back. -/
theorem Wf.advances_release (h : s.Wf) {phase : RequestPhase} {r : Result Bytes}
    (hkx : s.tasks.lookup x = some kx) (hlx : kx.lock = some lx)
    (hhead : (s.queue lx).head? = some x) (hstage : phase.stage < kx.phase.stage)
    (hqueue : s'.queue = (s.release lx x ⟨kx.node, phase⟩).queue)
    (htasks : s'.tasks = s.tasks.insert x ⟨kx.node, phase⟩) (hk : s.tasks.lookup c = some k)
    (hl : k.lock = some l) : Advances s (.resume x r) s' l c k := by
  have hc : c ∈ s.queue l := (h.mem l c).2 ⟨k, hk, hl⟩
  have hlook : ∀ i, s'.tasks.lookup i =
      if i = x then some ⟨kx.node, phase⟩ else s.tasks.lookup i := fun i => by
    rw [htasks, HashMap.lookup_insert_eq]
  obtain ⟨rest, hq⟩ : ∃ rest, s.queue lx = x :: rest := List.head?_eq_some_iff.1 hhead
  obtain ⟨xs, hq'⟩ : ∃ xs, s'.queue l = (if l = lx then rest else s.queue l) ++ xs := by
    rw [hqueue, release, queue_enqueue, queue_pop hq]
    by_cases hpl : RequestTask.lock ⟨kx.node, phase⟩ = some l
    · exact ⟨[x], if_pos hpl⟩
    · exact ⟨[], by rw [if_neg hpl, List.append_nil]⟩
  by_cases hcx : c = x
  · subst hcx
    obtain rfl := Option.some.inj (hk.symm.trans hkx)
    exact ⟨⟨k.node, phase⟩, by rw [hlook, if_pos rfl], rfl, .inl hstage⟩
  · by_cases hll : l = lx
    · subst hll
      rw [if_pos rfl] at hq'
      have hrank := rank_popped hcx hc hq hq'
      exact ⟨k, by rw [hlook, if_neg hcx, hk], rfl, .inr ⟨rfl, hl, .inl hrank⟩⟩
    · have hne := h.ne_of_mem_queue hkx hlx hll
      rw [if_neg hll] at hq'
      refine .of_append hk hl hc hq' (fun i hi => ?_) fun y r' e hy => ?_
      · rw [hlook, if_neg (hne i hi)]
      · obtain ⟨rfl, -⟩ := RequestAction.resume.inj e
        exact hne x hy rfl

/-- **A step and a task at a lock.** -/
theorem Wf.advances (h : s.Wf) (hs : s.step a = some s') (hk : s.tasks.lookup c = some k)
    (hl : k.lock = some l) : Advances s a s' l c k := by
  obtain ⟨x, node, phase, rfl, hx, -, rfl⟩ | ⟨x, r, kx, lx, phase, rfl, hkx, hlx, hhead,
    ⟨hidle, hbusy, hstage, hlock, -, rfl⟩ | ⟨-, hstage, -, hqueue, htasks⟩⟩ := step_cases hs
  · exact h.advances_request hx hk hl
  · exact h.advances_hold hkx hlx hhead hidle hbusy hstage hlock hk hl
  · exact h.advances_release hkx hlx hhead hstage hqueue htasks hk hl

end Advance

/-! ## The silent peer -/

section SilentPeer

variable {p : NodeId}

/-- While a dial to `p` is under way, only requests to `p` are at the lock of the cache. -/
def Clear (p : NodeId) (s : SharedTransport) : Prop := s.Dials p → s.OnlyWaits p

theorem clear_idle (p : NodeId) (cached : Finset NodeId) : (idle cached).Clear p := by
  rintro ⟨c, hc⟩
  simp [idle] at hc

/-- The dial keeps the lock of the cache. -/
theorem Wf.head_of_dials (h : s.Wf) {c : ℕ} (hc : s.tasks.lookup c = some ⟨p, .dialing⟩) :
    (s.queue .conns).head? = some c :=
  h.first c _ .conns hc rfl rfl

/-- A task goes on and stays a request to the same node; who is at the lock of the cache was there
before. -/
theorem OnlyWaits.update (h : s.OnlyWaits p) {x : ℕ} {k : RequestTask} {phase : RequestPhase}
    (hk : s.tasks.lookup x = some k) (hq : ∀ c ∈ s'.queue .conns, c ∈ s.queue .conns)
    (ht : s'.tasks = s.tasks.insert x ⟨k.node, phase⟩) : s'.OnlyWaits p := by
  intro c hc kc hkc
  rw [ht, HashMap.lookup_insert_eq] at hkc
  split_ifs at hkc with hcx
  · rw [← Option.some.inj hkc]
    exact h x (hq x (hcx ▸ hc)) k hk
  · exact h c (hq c hc) kc hkc

/-- A task at a session leaves the lock of the cache alone. -/
theorem queue_conns_release {l : TransportLock} {x : ℕ} {node : NodeId} {phase : RequestPhase}
    (hhead : (s.queue l).head? = some x) (hne : l ≠ .conns)
    (hconns : phase.lock node = some .conns → l = .conns) :
    (s.release l x ⟨node, phase⟩).queue .conns = s.queue .conns := by
  obtain ⟨rest, hq⟩ : ∃ rest, s.queue l = x :: rest := List.head?_eq_some_iff.1 hhead
  have hlock : RequestTask.lock ⟨node, phase⟩ ≠ some .conns := fun e => hne (hconns e)
  rw [release, queue_enqueue, if_neg hlock, queue_pop hq, if_neg hne.symm]

theorem Clear.step (h : s.Clear p) (hw : s.Wf) (hg : s.IsolationGuard p a)
    (hs : s.step a = some s') : s'.Clear p := by
  rintro ⟨y, hy⟩
  obtain ⟨x, node, phase, rfl, hx, hphase, rfl⟩ | ⟨x, r, k, l, phase, rfl, hk, hl, hhead,
    ⟨-, hbusy, -, -, hdial, rfl⟩ | ⟨hbusy, -, hconns, hqueue, htasks⟩⟩ := step_cases hs
  · rw [tasks_enqueue, HashMap.lookup_insert_eq] at hy
    split_ifs at hy
    · obtain ⟨-, r, rfl⟩ | ⟨-, rfl⟩ := hphase <;> simp at hy
    have hdials : s.Dials p := ⟨y, hy⟩
    intro c hc kc hkc
    rw [tasks_enqueue, HashMap.lookup_insert_eq] at hkc
    split_ifs at hkc with hcx
    · -- a request that is made during the dial
      obtain rfl := Option.some.inj hkc
      by_contra hne
      obtain ⟨-, r, rfl⟩ | ⟨hep, -⟩ := hphase
      · rw [queue_enqueue, if_neg (by simp [RequestTask.lock, RequestPhase.lock])] at hc
        obtain ⟨kx, hkx, -⟩ := (hw.mem _ c).1 hc
        exact hx (hcx ▸ HashMap.mem_iff_exists_lookup.2 ⟨kx, hkx⟩)
      · exact hg hne hep hdials
    · refine h hdials c ?_ kc hkc
      rw [queue_enqueue] at hc
      split_ifs at hc
      · exact (List.mem_append.1 hc).resolve_right fun e => hcx (List.mem_singleton.1 e)
      · exact hc
  · have honly : s.OnlyWaits p := by
      change (s.tasks.insert x _).lookup y = _ at hy
      rw [HashMap.lookup_insert_eq] at hy
      split_ifs at hy
      · obtain ⟨hnode, rfl⟩ := RequestTask.mk.inj (Option.some.inj hy)
        obtain ⟨hconnecting, hcached⟩ := hdial rfl
        obtain ⟨node, kphase⟩ := k
        subst hnode hconnecting
        exact hg hk hcached
      · exact h ⟨y, hy⟩
    exact honly.update hk (fun _ hc => hc) rfl
  · rw [htasks, HashMap.lookup_insert_eq] at hy
    split_ifs at hy with hyx
    · rw [(RequestTask.mk.inj (Option.some.inj hy)).2] at hbusy
      contradiction
    · -- the dial keeps the lock, so this task is at another one
      have hne : l ≠ .conns := by
        rintro rfl
        exact hyx (Option.some.inj ((hw.head_of_dials hy).symm.trans hhead))
      have hsame : s'.queue .conns = s.queue .conns := by
        rw [hqueue, queue_conns_release hhead hne hconns]
      exact (h ⟨y, hy⟩).update hk (fun _ hc => hsame ▸ hc) htasks

/-- A request to another node is at the lock of the cache while a dial to `p` is under way. -/
def Blocked (p : NodeId) (c : ℕ) (s : SharedTransport) : Prop :=
  s.Dials p ∧ c ∈ s.queue .conns ∧ ∃ k, s.tasks.lookup c = some k ∧ k.node ≠ p

/-- The request stays where it is, for the dial never ends. -/
theorem Blocked.step {c : ℕ} (h : s.Blocked p c) (hw : s.Wf)
    (hsilent : s.Silent p a) (hs : s.step a = some s') : s'.Blocked p c := by
  obtain ⟨⟨y, hy⟩, hc, k, hk, hne⟩ := h
  have hyhead := hw.head_of_dials hy
  have hyawaits : s.awaits p y = true := by simp [awaits, hy, RequestPhase.busy]
  -- neither of the two tasks takes the step
  have hkeep : ∀ x kx, x ≠ y → x ≠ c → s'.tasks = s.tasks.insert x kx →
      (∀ i ∈ s.queue .conns, i ∈ s'.queue .conns) → s'.Blocked p c := by
    intro x kx hxy hxc ht hq
    refine ⟨⟨y, ?_⟩, hq c hc, k, ?_, hne⟩
    · rw [ht, HashMap.lookup_insert_eq, if_neg hxy.symm, hy]
    · rw [ht, HashMap.lookup_insert_eq, if_neg hxc.symm, hk]
  obtain ⟨x, node, phase, rfl, hx, -, rfl⟩ | ⟨x, r, kx, l, phase, rfl, hkx, hlx, hhead,
    ⟨hidle, -, -, -, -, rfl⟩ | ⟨-, -, hconns, hqueue, htasks⟩⟩ := step_cases hs
  · have hold : ∀ i ki, s.tasks.lookup i = some ki → x ≠ i := by
      rintro i ki hi rfl
      exact hx (HashMap.mem_iff_exists_lookup.2 ⟨ki, hi⟩)
    refine hkeep x _ (hold y _ hy) (hold c k hk) (tasks_enqueue ..) fun i hi => ?_
    rw [queue_enqueue]
    split_ifs
    · exact List.mem_append_left _ hi
    · exact hi
  · have hll : .conns ≠ l := by
      rintro rfl
      obtain rfl := Option.some.inj (hyhead.symm.trans hhead)
      rw [Option.some.inj (hkx.symm.trans hy)] at hidle
      contradiction
    have hother := hw.ne_of_mem_queue hkx hlx hll
    exact hkeep x _ (hother y (List.mem_of_head? hyhead)).symm (hother c hc).symm rfl fun _ hi => hi
  · have hll : .conns ≠ l := by
      rintro rfl
      obtain rfl := Option.some.inj (hyhead.symm.trans hhead)
      rw [show s.awaits p y = false from hsilent] at hyawaits
      contradiction
    have hother := hw.ne_of_mem_queue hkx hlx hll
    refine hkeep x _ (hother y (List.mem_of_head? hyhead)).symm (hother c hc).symm htasks
      fun i hi => ?_
    rw [hqueue, queue_conns_release hhead hll.symm hconns]
    exact hi

/-- A step against the condition blocks a request. -/
theorem blocked_of_not_guard (hg : ¬s.IsolationGuard p a) (hs : s.step a = some s') :
    ∃ c, s'.Blocked p c := by
  cases a with
  | request x node =>
    simp only [IsolationGuard, not_forall, not_not] at hg
    obtain ⟨hne, hep, y, hy⟩ := hg
    obtain ⟨x', node', phase, e, hx, hphase, rfl⟩ | ⟨_, _, _, _, _, e, -⟩ := step_cases hs
    · obtain ⟨rfl, rfl⟩ := RequestAction.request.inj e
      obtain ⟨hnone, -⟩ | ⟨-, rfl⟩ := hphase
      · exact absurd hnone hep
      have hxy : y ≠ x := by
        rintro rfl
        exact hx (HashMap.mem_iff_exists_lookup.2 ⟨_, hy⟩)
      refine ⟨x, ⟨y, ?_⟩, ?_, ⟨node.nodeId, .connecting⟩, ?_, hne⟩
      · rw [tasks_enqueue, HashMap.lookup_insert_eq, if_neg hxy, hy]
      · have hlock : RequestTask.lock ⟨node.nodeId, .connecting⟩ = some .conns := rfl
        rw [queue_enqueue, if_pos hlock]
        exact List.mem_append_right _ (List.mem_singleton_self x)
      · rw [tasks_enqueue, HashMap.lookup_insert_eq, if_pos rfl]
    · contradiction
  | resume x r =>
    simp only [IsolationGuard, OnlyWaits, not_forall] at hg
    obtain ⟨hx, hcached, c, hc, k, hk, hne⟩ := hg
    have hstep : s' = s.hold x ⟨p, .dialing⟩ := by
      obtain ⟨kx, hkx, hs⟩ := Option.bind_eq_some_iff.1 hs
      obtain rfl := Option.some.inj (hx.symm.trans hkx)
      obtain ⟨l, -, hs⟩ := Option.bind_eq_some_iff.1 hs
      split_ifs at hs
      simp only [resume, if_neg hcached] at hs
      exact (Option.some.inj hs).symm
    have hcx : c ≠ x := by
      rintro rfl
      exact hne (congrArg RequestTask.node (Option.some.inj (hk.symm.trans hx)))
    have hlook : ∀ i, s'.tasks.lookup i = if i = x then some ⟨p, .dialing⟩ else s.tasks.lookup i :=
      fun i => by rw [hstep, hold, HashMap.lookup_insert_eq]
    refine ⟨c, ⟨x, by rw [hlook, if_pos rfl]⟩, ?_, k, by rw [hlook, if_neg hcx, hk], hne⟩
    rw [hstep]
    exact hc

/-- A request that is blocked has not returned. -/
theorem Blocked.not_returned {c : ℕ} (h : s.Blocked p c) (hw : s.Wf) {node : NodeId}
    {r : Result Bytes} : s.tasks.lookup c ≠ some ⟨node, .returned r⟩ := by
  intro hret
  have hlock := hw.lock_unique hret h.2.1
  contradiction

/-- The task that a lock is with, when a request to another node is at it, does not wait for
`p`. -/
theorem ready_turn (hw : s.Wf) (h : s.Clear p) {c : ℕ} {k : RequestTask} {l : TransportLock}
    (hk : s.tasks.lookup c = some k) (hl : k.lock = some l) (hne : k.node ≠ p) :
    s.ready p (s.turn l c) := by
  have hc : c ∈ s.queue l := (hw.mem l c).2 ⟨k, hk, hl⟩
  have hhead := head?_eq_turn hc
  obtain ⟨kx, hkx, hlx⟩ := (hw.mem l _).1 (List.mem_of_head? hhead)
  have hfree : ¬(kx.node = p ∧ kx.phase.busy) := by
    rintro ⟨hnode, hbusy⟩
    obtain ⟨node, phase⟩ := kx
    cases phase with
    | dialing =>
      obtain rfl := Option.some.inj hlx
      subst hnode
      exact hne (h ⟨_, hkx⟩ c hc k hk)
    | exchanging =>
      -- everyone at a session is a request to its node
      obtain rfl := Option.some.inj hlx
      obtain ⟨node', phase'⟩ := k
      cases phase' <;> simp_all [RequestTask.lock, RequestPhase.lock]
    | _ => contradiction
  rw [ready, hkx, Option.any_some, hlx, Option.any_some, hhead]
  simpa [imp_iff_not_or] using hfree

end SilentPeer

end SharedTransport

/-! ## Traces -/

open SharedTransport

section Traces

variable {p : NodeId} {t : Trace SharedTransport.step}

/-- A request to another node gives back the lock it is at. -/
theorem leaves_lock (hfair : Fair t (fun s c => s.ready p c) fun c a => ∃ r, a = .resume c r)
    (hinv : ∀ n, (t.state n).Wf ∧ (t.state n).Clear p) {n c : ℕ} {k : RequestTask}
    {l : TransportLock} (hk : (t.state n).tasks.lookup c = some k) (hl : k.lock = some l)
    (hne : k.node ≠ p) :
    ∃ m, n ≤ m ∧ ∃ k', (t.state m).tasks.lookup c = some k' ∧ k'.node = k.node ∧
      k'.phase.stage < k.phase.stage := by
  refine hfair.eventually (W := fun s => ∃ k', s.tasks.lookup c = some k' ∧ k'.node = k.node ∧
      k'.phase.stage = k.phase.stage ∧ k'.lock = some l)
    (G := fun s => ∃ k', s.tasks.lookup c = some k' ∧ k'.node = k.node ∧
      k'.phase.stage < k.phase.stage)
    (fun s => s.rank l c) (fun s => s.turn l c) ?_ ?_ ⟨k, hk, rfl, rfl, hl⟩
  · rintro m ⟨k', hk', hnode, -, hl'⟩
    exact ready_turn (hinv m).1 (hinv m).2 hk' hl' (hnode ▸ hne)
  · rintro m a ⟨k', hk', hnode, hst', hl'⟩ ha
    have hc : c ∈ (t.state m).queue l := ((hinv m).1.mem l c).2 ⟨k', hk', hl'⟩
    obtain ⟨k₁, hk₁, hnode₁, hlt | ⟨heq, hl₁, hrank⟩⟩ :=
      (hinv m).1.advances (t.next m a ha) hk' hl'
    · exact .inl ⟨k₁, hk₁, hnode₁.trans hnode, hst' ▸ hlt⟩
    refine .inr ⟨⟨k₁, hk₁, hnode₁.trans hnode, heq.trans hst', hl₁⟩, ?_⟩
    obtain hlt | ⟨hsame, hhead, hother⟩ := hrank
    · exact .inl hlt
    · refine .inr ⟨hsame, by rw [turn, turn, hhead], ?_⟩
      rintro ⟨r, rfl⟩
      exact hother _ r rfl (head?_eq_turn hc)

/-- **Every request to another node returns**, whatever stage it is at. -/
theorem request_returns (hfair : Fair t (fun s c => s.ready p c) fun c a => ∃ r, a = .resume c r)
    (hinv : ∀ n, (t.state n).Wf ∧ (t.state n).Clear p) {n c : ℕ} {k : RequestTask}
    (hk : (t.state n).tasks.lookup c = some k) (hne : k.node ≠ p) :
    ∃ m r, n ≤ m ∧ (t.state m).tasks.lookup c = some ⟨k.node, .returned r⟩ := by
  -- induction on how many times a lock is still to be given back
  induction hst : k.phase.stage using Nat.strong_induction_on generalizing n k with
  | _ stage ih =>
    cases hl : k.lock with
    | none =>
      obtain ⟨node, phase⟩ := k
      cases phase with
      | returned r => exact ⟨n, r, Nat.le_refl n, hk⟩
      | _ => simp [RequestTask.lock, RequestPhase.lock] at hl
    | some l =>
      obtain ⟨m, hm, k', hk', hnode, hlt⟩ := leaves_lock hfair hinv hk hl hne
      obtain ⟨m', r, hm', hret⟩ := ih _ (hst ▸ hlt) hk' (hnode ▸ hne) rfl
      exact ⟨m', r, Nat.le_trans hm hm', hnode ▸ hret⟩

/-- **Peers are isolated** exactly under the condition. Take any trace of requests on a transport,
in which the peer `p` never completes a dial or an exchange, and every task that can go on without
`p` does so at some point. All requests to other nodes return if and only if no dial to `p` begins
while one of them is at the lock of the cache, and none is made while a dial to `p` is under way. -/
theorem peers_isolated_iff (p : NodeId) (cached : Finset NodeId) (t : Trace SharedTransport.step)
    (hstart : t.state 0 = idle cached)
    (hsilent : ∀ n a, t.sched n = some a → (t.state n).Silent p a)
    (hfair : Fair t (fun s c => s.ready p c) fun c a => ∃ r, a = .resume c r) :
    (∀ n c k, (t.state n).tasks.lookup c = some k → k.node ≠ p →
      ∃ m r, n ≤ m ∧ (t.state m).tasks.lookup c = some ⟨k.node, .returned r⟩) ↔
      ∀ n a, t.sched n = some a → (t.state n).IsolationGuard p a := by
  have hwf : ∀ n, (t.state n).Wf := Trace.invariant (hstart ▸ wf_idle cached)
    fun m a h ha => h.step (t.next m a ha)
  constructor
  · intro hret n a ha
    by_contra hg
    obtain ⟨c, hblocked⟩ := blocked_of_not_guard hg (t.next n a ha)
    have hstable : ∀ m, n + 1 ≤ m → (t.state m).Blocked p c := Trace.stable hblocked
      fun m a _ h ha => h.step (hwf m) (hsilent m a ha) (t.next m a ha)
    obtain ⟨-, -, k, hk, hne⟩ := hblocked
    obtain ⟨m, r, hm, hdone⟩ := hret (n + 1) c k hk hne
    exact (hstable m hm).not_returned (hwf m) hdone
  · intro hg
    have hclear : ∀ n, (t.state n).Clear p := Trace.invariant (hstart ▸ clear_idle p cached)
      fun m a h ha => h.step (hwf m) (hg m a ha) (t.next m a ha)
    exact fun n c k hk hne => request_returns hfair (fun n => ⟨hwf n, hclear n⟩) hk hne

end Traces

/-- Only tasks can be ready. -/
theorem not_ready_of_keys {p : NodeId} {s : SharedTransport}
    (h : ∀ c ∈ s.tasks.keys, s.ready p c = false) (c : ℕ) : ¬s.ready p c := by
  by_cases hc : c ∈ s.tasks
  · simp [h c (AList.mem_keys.1 hc)]
  · simp [ready, AList.lookup_eq_none.2 hc]

/-- A node that answers and one that does not. -/
def answeringNode : FabricNode := .new ⟨"q"⟩ [] ["10.0.0.2:7000"]

/-- A node that never answers. -/
def silentNode : FabricNode := .new ⟨"p"⟩ [] ["10.0.0.3:7000"]

/-- The dial to the silent node begins when the other request is at its session already. -/
def dialLater : List RequestAction :=
  [.request 0 answeringNode, .resume 0 (.ok []), .resume 0 (.ok []), .resume 0 (.ok []),
    .resume 0 (.ok []), .request 1 silentNode, .resume 1 (.ok []), .resume 0 (.ok [1])]

theorem peers_isolated_iff_dialLater :
    ∃ t : Trace SharedTransport.step, t.state 0 = idle ∅ ∧ (∃ n, (t.state n).Dials ⟨"p"⟩) ∧
      (t.state 1).tasks.lookup 0 = some ⟨⟨"q"⟩, .connecting⟩ ∧
      ∀ n c k, (t.state n).tasks.lookup c = some k → k.node ≠ ⟨"p"⟩ →
        ∃ m r, n ≤ m ∧ (t.state m).tasks.lookup c = some ⟨k.node, .returned r⟩ := by
  have hguard : Guarded SharedTransport.step (IsolationGuard ⟨"p"⟩) (idle ∅) dialLater := by
    refine .cons (fun _ _ => ?_) rfl (.cons ?_ rfl (.cons ?_ rfl (.cons ?_ rfl (.cons ?_ rfl
      (.cons (fun hne => absurd rfl hne) rfl (.cons ?_ rfl (.cons ?_ rfl trivial)))))))
    · rintro ⟨c, hc⟩
      simp [idle] at hc
    on_goal 5 =>
      -- only the dialing request itself is at the lock of the cache
      intro _ _ c hc k hk
      obtain rfl := List.mem_singleton.1 hc
      obtain rfl := Option.some.inj hk
      rfl
    all_goals exact fun h => absurd (congrArg (Option.map RequestTask.node) h) (by decide)
  refine ⟨.ofRun (show run SharedTransport.step (idle ∅) dialLater = some _ from rfl), rfl,
    ⟨7, 1, rfl⟩, rfl, ?_⟩
  exact (peers_isolated_iff ⟨"p"⟩ ∅ _ rfl (Trace.ofRun_guarded _ (by decide))
    (.ofRun _ (not_ready_of_keys (by decide)))).2 (Trace.ofRun_guarded _ hguard)

/-- A request to the answering node is made while the dial to the silent one is under way. -/
def dialFirst : List RequestAction :=
  [.request 0 silentNode, .resume 0 (.ok []), .request 1 answeringNode]

/-- The dial keeps the lock of the cache, and the other request waits for it forever. -/
theorem silent_peer_blocks_others :
    ∃ t : Trace SharedTransport.step, t.state 0 = idle ∅ ∧
      (∀ n a, t.sched n = some a → (t.state n).Silent ⟨"p"⟩ a) ∧
      (Fair t (fun s c => s.ready ⟨"p"⟩ c) fun c a => ∃ r, a = .resume c r) ∧
      (∀ n, 3 ≤ n → (t.state n).tasks.lookup 1 = some ⟨⟨"q"⟩, .connecting⟩) ∧
      ¬∀ n c k, (t.state n).tasks.lookup c = some k → k.node ≠ ⟨"p"⟩ →
        ∃ m r, n ≤ m ∧ (t.state m).tasks.lookup c = some ⟨k.node, .returned r⟩ := by
  let t : Trace SharedTransport.step :=
    .ofRun (show run SharedTransport.step (idle ∅) dialFirst = some _ from rfl)
  have hwait : ∀ n, 3 ≤ n → (t.state n).tasks.lookup 1 = some ⟨⟨"q"⟩, .connecting⟩ := fun n hn =>
    congrArg (fun s : SharedTransport => s.tasks.lookup 1) (Trace.ofRun_of_length_le _ hn)
  refine ⟨t, rfl, Trace.ofRun_guarded _ (by decide), .ofRun _ (not_ready_of_keys (by decide)), hwait,
    fun hret => ?_⟩
  obtain ⟨m, r, hm, hdone⟩ := hret 3 1 _ (hwait 3 (Nat.le_refl 3)) (by decide)
  have hphase := congrArg (Option.map RequestTask.phase) ((hwait m hm).symm.trans hdone)
  simp at hphase

end OCF.Fabric
