import OCF.Foundations.Run
import OCF.Foundations.HashMap
import Mathlib.Data.Finset.Insert

/-!
# Joining the Raft cluster

The leader admits a node in four steps with other tasks running in between: check that it leads,
add the node as a learner, read the voters, and set the voters to those it read and the new node.
The control server runs one task for each connection, so any number of joins are under way at once
and their steps interleave in any order.

Adding a learner and setting the voters are calls into the Raft library that take effect or fail;
which of the two is part of the action. Setting the voters replaces the whole set, so a join that
read the voters before another one set them takes that other node out again. `JoinGuard` is the
condition that no current voter is missing from a set that is written, and `joins_safe_iff` says
that it is exactly what keeps admitted nodes and earlier voters in.
-/

namespace OCF.Api

/-- A node's request to be admitted. -/
structure JoinRequest where
  raftId : UInt64
  raftAddr : String
  deriving DecidableEq

/-- What the joiner is told. -/
inductive JoinReply
  | ok | notleader | error
  deriving DecidableEq

/-- How far a call of `handle_join` has come. -/
inductive JoinPhase
  /-- The body was received; it is a request if it decodes. -/
  | received (body : Option JoinRequest)
  | addLearner (req : JoinRequest)
  | readVoters (req : JoinRequest)
  /-- The membership is to be set to the voters that were read and the joiner. -/
  | changeMembership (req : JoinRequest) (voters : Finset UInt64)
  | answered (body : Option JoinRequest) (reply : JoinReply)
  deriving DecidableEq

/-- The node that handles joins. -/
structure Admission where
  isLeader : Bool
  voters : Finset UInt64
  /-- The learners that were added, with their addresses. -/
  learners : HashMap UInt64 String
  joins : HashMap ℕ JoinPhase

/-- What can happen next. -/
inductive JoinAction
  /-- A join request comes in on a new connection. -/
  | arrive (j : ℕ) (body : Option JoinRequest)
  /-- The node becomes the leader or stops being it. -/
  | lead (isLeader : Bool)
  /-- A call goes on; `ok` is what the library call it is at comes to. -/
  | resume (j : ℕ) (ok : Bool)

namespace Admission

/-- A node before any join. -/
def idle (isLeader : Bool) (voters : Finset UInt64) : Admission := ⟨isLeader, voters, ∅, ∅⟩

/-- The state with a join in another phase. -/
def setPhase (s : Admission) (j : ℕ) (p : JoinPhase) : Admission :=
  { s with joins := s.joins.insert j p }

/-- A call of `handle_join` runs from one await point to the next. -/
def handleJoin (s : Admission) (j : ℕ) (ok : Bool) : JoinPhase → Option Admission
  | .received none => some (s.setPhase j (.answered none .error))
  | .received (some req) =>
    if s.isLeader then some (s.setPhase j (.addLearner req))
    else some (s.setPhase j (.answered (some req) .notleader))
  | .addLearner req =>
    if ok then
      some ({ s with learners := s.learners.insert req.raftId req.raftAddr }.setPhase j
        (.readVoters req))
    else some (s.setPhase j (.answered (some req) .error))
  | .readVoters req =>
    some (s.setPhase j (.changeMembership req (insert req.raftId s.voters)))
  | .changeMembership req voters =>
    if ok then some ({ s with voters := voters }.setPhase j (.answered (some req) .ok))
    else some (s.setPhase j (.answered (some req) .error))
  | .answered _ _ => none

/-- One action. -/
def step (s : Admission) : JoinAction → Option Admission
  | .arrive j body => if j ∈ s.joins then none else some (s.setPhase j (.received body))
  | .lead isLeader => some { s with isLeader := isLeader }
  | .resume j ok => (s.joins.lookup j).bind (s.handleJoin j ok)

/-! ## What a step does -/

variable {s s' : Admission} {V : Finset UInt64}

/-- The node with the id was told that it is in. -/
def Admitted (s : Admission) (id : UInt64) : Prop :=
  ∃ j req, s.joins.lookup j = some (.answered (some req) .ok) ∧ req.raftId = id

/-- The nodes that were told that they are in are voters, and so are the voters from before. -/
def Safe (V : Finset UInt64) (s : Admission) : Prop :=
  (∀ id, s.Admitted id → id ∈ s.voters) ∧ V ⊆ s.voters

/-- Every voter, and every voter a join is about to set, is one from before, is admitted, or is the
joiner of that join. -/
structure Accounted (V : Finset UInt64) (s : Admission) : Prop where
  voters : ∀ id ∈ s.voters, id ∈ V ∨ s.Admitted id
  written : ∀ j req vs, s.joins.lookup j = some (.changeMembership req vs) →
    req.raftId ∈ vs ∧ ∀ id ∈ vs, id = req.raftId ∨ id ∈ V ∨ s.Admitted id

/-- The condition on a step: when a join sets the voters, no current voter is missing. -/
def JoinGuard (s : Admission) : JoinAction → Prop
  | .resume j true => ∀ req vs, s.joins.lookup j = some (.changeMembership req vs) → s.voters ⊆ vs
  | _ => True

/-- A call moves on to a phase; the voters stay and no join is answered `ok`. -/
structure Moves (s : Admission) (j : ℕ) (p : JoinPhase) (s' : Admission) : Prop where
  voters : s'.voters = s.voters
  joins : s'.joins = s.joins.insert j p
  old : ∀ body, s.joins.lookup j ≠ some (.answered body .ok)
  new : ∀ body, p ≠ .answered body .ok
  read : ∀ req vs, p = .changeMembership req vs → vs = insert req.raftId s.voters

/-- A step lets a join set the voters, or it moves one call on, or it touches no call. -/
theorem step_cases {a : JoinAction} (h : s.step a = some s') :
    (∃ j req vs, a = .resume j true ∧ s.joins.lookup j = some (.changeMembership req vs) ∧
      s'.voters = vs ∧ s'.joins = s.joins.insert j (.answered (some req) .ok)) ∨
    (JoinGuard s a ∧ ((s'.voters = s.voters ∧ s'.joins = s.joins) ∨ ∃ j p, Moves s j p s')) := by
  cases a with
  | arrive j body =>
    simp only [step] at h
    split_ifs at h with hj
    obtain rfl := Option.some.inj h
    refine .inr ⟨trivial, .inr ⟨j, _, rfl, rfl, fun b hb => hj ?_, by simp, by simp⟩⟩
    exact HashMap.mem_iff_exists_lookup.2 ⟨_, hb⟩
  | lead isLeader =>
    obtain rfl := Option.some.inj h
    exact .inr ⟨trivial, .inl ⟨rfl, rfl⟩⟩
  | resume j ok =>
    obtain ⟨phase, hj, h⟩ := Option.bind_eq_some_iff.1 h
    have hguard (hne : ∀ req vs, phase ≠ .changeMembership req vs) :
        JoinGuard s (.resume j ok) := by
      cases ok with
      | false => trivial
      | true => exact fun req vs hl => absurd (Option.some.inj (hj.symm.trans hl)) (hne req vs)
    have hold (hne : ∀ body, phase ≠ .answered body .ok) (body : Option JoinRequest) :
        s.joins.lookup j ≠ some (.answered body .ok) :=
      fun hb => hne body (Option.some.inj (hj.symm.trans hb))
    cases phase with
    | received body =>
      refine .inr ⟨hguard (by simp), .inr ⟨j, ?_⟩⟩
      cases body with
      | none =>
        obtain rfl := Option.some.inj h
        exact ⟨_, rfl, rfl, hold (by simp), by simp, by simp⟩
      | some req =>
        simp only [handleJoin] at h
        split_ifs at h <;> obtain rfl := Option.some.inj h
        · exact ⟨_, rfl, rfl, hold (by simp), by simp, by simp⟩
        · exact ⟨_, rfl, rfl, hold (by simp), by simp, by simp⟩
    | addLearner req =>
      refine .inr ⟨hguard (by simp), .inr ⟨j, ?_⟩⟩
      simp only [handleJoin] at h
      split_ifs at h <;> obtain rfl := Option.some.inj h
      · exact ⟨_, rfl, rfl, hold (by simp), by simp, by simp⟩
      · exact ⟨_, rfl, rfl, hold (by simp), by simp, by simp⟩
    | readVoters req =>
      obtain rfl := Option.some.inj h
      refine .inr ⟨hguard (by simp), .inr ⟨j, _, rfl, rfl, hold (by simp), by simp, ?_⟩⟩
      rintro req' vs hp
      obtain ⟨rfl, rfl⟩ := JoinPhase.changeMembership.inj hp
      rfl
    | changeMembership req vs =>
      cases ok with
      | true =>
        obtain rfl := Option.some.inj h
        exact .inl ⟨j, req, vs, rfl, hj, rfl, rfl⟩
      | false =>
        obtain rfl := Option.some.inj h
        exact .inr ⟨trivial, .inr ⟨j, _, rfl, rfl, hold (by simp), by simp, by simp⟩⟩
    | answered body r => simp [handleJoin] at h

/-! ## Safety -/

/-- A join that sets the voters is the only one a step admits. -/
theorem admitted_insert {j : ℕ} {p : JoinPhase} (hjoins : s'.joins = s.joins.insert j p)
    (hold : ∀ body, s.joins.lookup j ≠ some (.answered body .ok)) (id : UInt64) :
    s'.Admitted id ↔ s.Admitted id ∨ ∃ req, p = .answered (some req) .ok ∧ req.raftId = id := by
  unfold Admitted
  rw [hjoins]
  constructor
  · rintro ⟨i, req, hi, hid⟩
    rw [HashMap.lookup_insert_eq] at hi
    split_ifs at hi
    · exact .inr ⟨req, Option.some.inj hi, hid⟩
    · exact .inl ⟨i, req, hi, hid⟩
  · rintro (⟨i, req, hi, hid⟩ | ⟨req, rfl, hid⟩)
    · refine ⟨i, req, ?_, hid⟩
      rw [HashMap.lookup_insert_eq, if_neg, hi]
      rintro rfl
      exact hold _ hi
    · exact ⟨j, req, by rw [HashMap.lookup_insert_eq, if_pos rfl], hid⟩

theorem accounted_idle (isLeader : Bool) : Accounted V (idle isLeader V) where
  voters id hid := .inl hid
  written j req vs h := by simp [idle] at h

/-- **Every step accounts for the voters.** -/
theorem Accounted.step (h : Accounted V s) {a : JoinAction} (hs : s.step a = some s') :
    Accounted V s' := by
  obtain ⟨j, req, vs, -, hj, hv, hjoins⟩ | ⟨-, ⟨hv, hjoins⟩ | ⟨j, p, hv, hjoins, hold, hnew, hread⟩⟩ :=
    step_cases hs
  · have hadm := admitted_insert hjoins (by simp [hj])
    obtain ⟨hreq, hvs⟩ := h.written j req vs hj
    refine ⟨fun id hid => ?_, fun i req' vs' hi => ?_⟩
    · rw [hv] at hid
      rw [hadm]
      obtain rfl | hV | hA := hvs id hid
      · exact .inr (.inr ⟨req, rfl, rfl⟩)
      · exact .inl hV
      · exact .inr (.inl hA)
    · rw [hjoins, HashMap.lookup_insert_eq] at hi
      split_ifs at hi
      · simp at hi
      obtain ⟨hreq', hvs'⟩ := h.written i req' vs' hi
      exact ⟨hreq', fun id hid => (hvs' id hid).imp_right (.imp_right fun hA =>
        (hadm id).2 (.inl hA))⟩
  · have hadm : ∀ id, s'.Admitted id ↔ s.Admitted id := fun id => by rw [Admitted, hjoins]; rfl
    refine ⟨fun id hid => ?_, fun i req vs hi => ?_⟩
    · rw [hadm]
      exact h.voters id (hv ▸ hid)
    · simp only [hadm]
      exact h.written i req vs (hjoins ▸ hi)
  · have hadm : ∀ id, s'.Admitted id ↔ s.Admitted id := fun id => by
      rw [admitted_insert hjoins hold]
      exact or_iff_left fun ⟨req, hp, _⟩ => hnew _ hp
    refine ⟨fun id hid => ?_, fun i req vs hi => ?_⟩
    · rw [hadm]
      exact h.voters id (hv ▸ hid)
    · simp only [hadm]
      rw [hjoins, HashMap.lookup_insert_eq] at hi
      split_ifs at hi
      · -- the voters that were just read
        obtain rfl := hread req vs (Option.some.inj hi)
        refine ⟨Finset.mem_insert_self .., fun id hid => ?_⟩
        exact (Finset.mem_insert.1 hid).imp_right (h.voters id)
      · exact h.written i req vs hi

/-- **A step under the condition** keeps earlier voters and admitted nodes in. -/
theorem Safe.step (h : Safe V s) (hacc : Accounted V s) {a : JoinAction} (hg : JoinGuard s a)
    (hs : s.step a = some s') : Safe V s' := by
  obtain ⟨j, req, vs, rfl, hj, hv, hjoins⟩ | ⟨-, ⟨hv, hjoins⟩ | ⟨j, p, hv, hjoins, hold, hnew, -⟩⟩ :=
    step_cases hs
  · have hsub : s.voters ⊆ vs := hg req vs hj
    refine ⟨fun id hid => ?_, hv ▸ h.2.trans hsub⟩
    rw [hv]
    obtain hA | ⟨req', hp, rfl⟩ := (admitted_insert hjoins (by simp [hj]) id).1 hid
    · exact hsub (h.1 id hA)
    · obtain rfl : req = req' := by simpa using hp
      exact (hacc.written j req vs hj).1
  · refine ⟨fun id hid => ?_, hv ▸ h.2⟩
    rw [hv]
    refine h.1 id ?_
    rwa [Admitted, hjoins] at hid
  · refine ⟨fun id hid => ?_, hv ▸ h.2⟩
    rw [hv]
    obtain hA | ⟨req, hp, -⟩ := (admitted_insert hjoins hold id).1 hid
    · exact h.1 id hA
    · exact absurd hp (hnew _)

/-- A step that keeps them in meets the condition. -/
theorem joinGuard_of_safe (hacc : Accounted V s) (hsafe : Safe V s') {a : JoinAction}
    (hs : s.step a = some s') : JoinGuard s a := by
  obtain ⟨j, req, vs, rfl, hj, hv, hjoins⟩ | ⟨hg, -⟩ := step_cases hs
  · intro req' vs' hj'
    obtain ⟨rfl, rfl⟩ := JoinPhase.changeMembership.inj (Option.some.inj (hj.symm.trans hj'))
    intro id hid
    rw [← hv]
    obtain hV | hA := hacc.voters id hid
    · exact hsafe.2 hV
    · exact hsafe.1 id ((admitted_insert hjoins (by simp [hj]) id).2 (.inl hA))
  · exact hg

end Admission

/-! ## Runs -/

open Admission

/-- **Concurrent joins.** In every run from a node with voters `V`, the nodes that were admitted
and the voters `V` are voters in every state of the run if and only if every join that sets the
voters does so with a set that contains the voters of that moment. -/
theorem joins_safe_iff (isLeader : Bool) (V : Finset UInt64) (as : List JoinAction) (s : Admission)
    (hrun : run Admission.step (idle isLeader V) as = some s) :
    (∀ n t, run Admission.step (idle isLeader V) (as.take n) = some t →
      (∀ id, t.Admitted id → id ∈ t.voters) ∧ V ⊆ t.voters) ↔
      Guarded Admission.step JoinGuard (idle isLeader V) as := by
  have hstart : Accounted V (idle isLeader V) ∧ Safe V (idle isLeader V) := by
    refine ⟨accounted_idle isLeader, fun id ⟨j, req, hj, _⟩ => ?_, Finset.Subset.refl V⟩
    simp [idle] at hj
  exact (Guarded.iff_forall_states (I := fun s => Accounted V s ∧ Safe V s) (fun _ h => h.2)
    (fun _ _ _ h hg hs => ⟨h.1.step hs, h.2.step h.1 hg hs⟩)
    (fun _ _ _ h hs hsafe => joinGuard_of_safe h.1 hsafe hs) hstart hrun).symm

/-- One join after the other: the second reads the voters the first has set. -/
def serialJoins : List JoinAction :=
  [.arrive 0 (some ⟨2, "10.255.0.2:7000"⟩), .resume 0 true, .resume 0 true, .resume 0 true,
    .resume 0 true, .arrive 1 (some ⟨3, "10.255.0.3:7000"⟩), .resume 1 true, .resume 1 true,
    .resume 1 true, .resume 1 true]

/-- The joins do not overlap, so nobody is taken out and both nodes are voters. -/
theorem joins_safe_iff_serialJoins :
    ∃ s, run Admission.step (idle true {1}) serialJoins = some s ∧ s.voters = {1, 2, 3} ∧
      ∀ n t, run Admission.step (idle true {1}) (serialJoins.take n) = some t →
        (∀ id, t.Admitted id → id ∈ t.voters) ∧ {1} ⊆ t.voters := by
  have hg : Guarded Admission.step JoinGuard (idle true {1}) serialJoins := by
    refine .cons trivial rfl (.cons ?_ rfl (.cons ?_ rfl (.cons ?_ rfl (.cons ?_ rfl
      (.cons trivial rfl (.cons ?_ rfl (.cons ?_ rfl (.cons ?_ rfl (.cons ?_ rfl trivial))))))))) <;>
      intro req vs h <;> cases h <;> decide
  exact ⟨_, rfl, by decide, (joins_safe_iff true {1} serialJoins _ rfl).2 hg⟩

/-- Two joins read the voters before either sets them. -/
def overlappingJoins : List JoinAction :=
  [.arrive 0 (some ⟨2, "10.255.0.2:7000"⟩), .arrive 1 (some ⟨3, "10.255.0.3:7000"⟩),
    .resume 0 true, .resume 1 true, .resume 0 true, .resume 1 true, .resume 0 true, .resume 1 true,
    .resume 0 true, .resume 1 true]

/-- Both are answered `ok`; the second takes the first one out again. -/
theorem overlapping_join_removes_voter :
    ∃ s, run Admission.step (idle true {1}) overlappingJoins = some s ∧
      s.joins.lookup 0 = some (.answered (some ⟨2, "10.255.0.2:7000"⟩) .ok) ∧
      s.joins.lookup 1 = some (.answered (some ⟨3, "10.255.0.3:7000"⟩) .ok) ∧
      s.voters = {1, 3} ∧ (2 : UInt64) ∉ s.voters :=
  ⟨_, rfl, by decide, by decide, by decide, by decide⟩

end OCF.Api
