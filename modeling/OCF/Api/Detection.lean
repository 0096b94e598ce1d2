import OCF.Fabric.Detector
import OCF.Foundations.Fair
import Mathlib.Data.Nat.Find

/-!
# The failure detector in the daemon

The daemon runs the failure detector forever. In each round it first refreshes the members that it
finds alive, on behalf of machines that have no agent of their own, and ticks the table then. While
it does so, other tasks register members, pass on heartbeats, declare members dead on request and
record round-trip times.

A silent peer is therefore heard from in every round that finds it alive. `silent_peer` says what
becomes of it: once a round finds it not alive, it is dead by a tick no later than both timeouts and
one interval after it was last heard from; and while every round ticks within the first timeout of
its beginning and nobody declares the peer dead, it stays alive.
-/

namespace OCF.Api

open OCF.Fabric

/-- The table of the daemon and the round of the detector that is under way: the members it still has
to refresh before its tick. -/
structure Daemon where
  membership : Membership
  round : Option (List NodeId)

/-- An action of the daemon's tasks. -/
inductive DaemonAct
  /-- A round begins: the alive members are listed, in some order. -/
  | begin (ids : List NodeId)
  /-- The round refreshes its next member. -/
  | refresh
  /-- The round ticks the table and ends. -/
  | tick
  | join (node : FabricNode)
  | heartbeat (id : NodeId)
  | fail (id : NodeId)
  | recordRtt (id : NodeId) (rttMs : ℚ)

namespace Daemon

/-- One action at a time of the clock. -/
def step (s : Daemon) : ℤ × DaemonAct → Option Daemon
  | (_, .begin ids) =>
    if s.round = none ∧ ids.Perm (s.membership.alive.map FabricNode.nodeId) then
      some { s with round := some ids }
    else none
  | (now, .refresh) =>
    match s.round with
    | some (id :: rest) => some ⟨(s.membership.heartbeatAt id now).2, some rest⟩
    | _ => none
  | (now, .tick) =>
    match s.round with
    | some [] => some ⟨(s.membership.tick now).2, none⟩
    | _ => none
  | (now, .join node) => some { s with membership := (s.membership.join node now).2 }
  | (now, .heartbeat id) => some { s with membership := (s.membership.heartbeatAt id now).2 }
  | (_, .fail id) => some { s with membership := (s.membership.forceDead id).2 }
  | (_, .recordRtt id ms) => some { s with membership := s.membership.recordRtt id ms }

/-- What an action does, by cases. -/
inductive Steps (st : Daemon) (now : ℤ) : DaemonAct → Daemon → Prop
  | begin {ids : List NodeId} (hround : st.round = none)
      (hids : ids.Perm (st.membership.alive.map FabricNode.nodeId)) :
      Steps st now (.begin ids) { st with round := some ids }
  | refresh {id : NodeId} {rest : List NodeId} (hround : st.round = some (id :: rest)) :
      Steps st now .refresh ⟨(st.membership.heartbeatAt id now).2, some rest⟩
  | tick (hround : st.round = some []) : Steps st now .tick ⟨(st.membership.tick now).2, none⟩
  | join (node : FabricNode) :
      Steps st now (.join node) { st with membership := (st.membership.join node now).2 }
  | heartbeat (id : NodeId) :
      Steps st now (.heartbeat id) { st with membership := (st.membership.heartbeatAt id now).2 }
  | fail (id : NodeId) :
      Steps st now (.fail id) { st with membership := (st.membership.forceDead id).2 }
  | recordRtt (id : NodeId) (ms : ℚ) :
      Steps st now (.recordRtt id ms) { st with membership := st.membership.recordRtt id ms }

theorem steps_of_step {st st' : Daemon} {now : ℤ} {a : DaemonAct}
    (h : st.step (now, a) = some st') : Steps st now a st' := by
  cases a with
  | begin ids =>
    simp only [step] at h
    split_ifs at h with hbegin
    exact Option.some.inj h ▸ .begin hbegin.1 hbegin.2
  | refresh =>
    simp only [step] at h
    split at h
    · next id rest hround => exact Option.some.inj h ▸ .refresh hround
    · cases h
  | tick =>
    simp only [step] at h
    split at h
    · next hround => exact Option.some.inj h ▸ .tick hround
    · cases h
  | join node => exact Option.some.inj h ▸ .join node
  | heartbeat id => exact Option.some.inj h ▸ .heartbeat id
  | fail id => exact Option.some.inj h ▸ .fail id
  | recordRtt id ms => exact Option.some.inj h ▸ .recordRtt id ms

/-- The action is a message from the member. -/
def Message (p : NodeId) : DaemonAct → Prop
  | .join node => node.nodeId = p
  | .heartbeat id => id = p
  | _ => False

/-- The member is heard from: by a message, or because the round refreshes it. -/
def Hears (s : Daemon) (p : NodeId) (a : DaemonAct) : Prop :=
  Message p a ∨ a = .refresh ∧ ∃ rest, s.round = some (p :: rest)

end Daemon

/-- A run of the daemon with a clock that does not go back and passes every bound, in which the
detector ticks again within an interval of every moment. -/
structure DaemonRun (me : NodeId) (s d interval : ℤ) extends Trace Daemon.step where
  clock : ℕ → ℤ
  start : state 0 = ⟨.withTimeouts me s d, none⟩
  at_clock : ∀ n a, sched n = some a → a.1 = clock n
  mono : ∀ n, clock n ≤ clock (n + 1)
  diverges : ∀ x, ∃ n, x ≤ clock n
  ticks : ∀ n, ∃ m, n < m ∧ sched m = some (clock m, .tick) ∧ clock m ≤ clock n + interval

/-! ## One action -/

/-- What may become of a member that is not heard from. -/
structure Ages (m m' : MemberState) : Prop where
  last : m'.lastHeartbeat = m.lastHeartbeat
  not_left : m.liveness ≠ .left → m'.liveness ≠ .left
  not_alive : m.liveness ≠ .alive → m'.liveness ≠ .alive
  dead : m.liveness = .dead → m'.liveness = .dead

theorem Ages.refl (m : MemberState) : Ages m m := ⟨rfl, id, id, id⟩

theorem Ages.trans {m m' m'' : MemberState} (h : Ages m m') (h' : Ages m' m'') : Ages m m'' where
  last := h'.last.trans h.last
  not_left := h'.not_left ∘ h.not_left
  not_alive := h'.not_alive ∘ h.not_alive
  dead := h'.dead ∘ h.dead

theorem ages_tick (s d now : ℤ) (id : NodeId) (m : MemberState) : Ages m (m.tick s d now id).2 := by
  rw [MemberState.tick_snd]
  constructor
  · rfl
  · intro h
    dsimp only [Liveness.age]
    split_ifs <;> simp_all
  · intro h
    dsimp only [Liveness.age]
    split_ifs <;> simp_all
  · intro h
    simp [Liveness.age, Liveness.isTerminal, h]

/-- Every record of a table is replaced by one that has aged, and none is added. -/
def AgesAt (p : NodeId) (t t' : Membership) : Prop :=
  ∃ f : MemberState → MemberState, (∀ m, Ages m (f m)) ∧
    t'.members.lookup p = (t.members.lookup p).map f

theorem AgesAt.of_eq {p : NodeId} {t t' : Membership}
    (h : t'.members.lookup p = t.members.lookup p) : AgesAt p t t' :=
  ⟨id, .refl, by simp [h]⟩

theorem AgesAt.trans {p : NodeId} {t t' t'' : Membership} (h : AgesAt p t t') (h' : AgesAt p t' t'') :
    AgesAt p t t'' := by
  obtain ⟨f, hf, hlookup⟩ := h
  obtain ⟨g, hg, hlookup'⟩ := h'
  refine ⟨g ∘ f, fun m => (hf m).trans (hg (f m)), ?_⟩
  rw [hlookup', hlookup, Option.map_map]

theorem agesAt_tick (p : NodeId) (t : Membership) (now : ℤ) : AgesAt p t (t.tick now).2 :=
  ⟨fun m => (m.tick t.suspectTimeout t.deadTimeout now p).2, fun m => ages_tick _ _ now p m,
    by simp [Membership.tick, HashMap.lookup_mapVal]⟩

/-- Declaring a member dead changes its liveness at most. -/
theorem agesAt_forceDead (p : NodeId) (t : Membership) (x : NodeId) :
    AgesAt p t (t.forceDead x).2 := by
  by_cases hx : p = x
  · subst hx
    cases hm : t.members.lookup p with
    | none => exact .of_eq (by simp [Membership.forceDead, hm])
    | some m =>
      by_cases hterminal : m.liveness.isTerminal
      · exact .of_eq (by simp [Membership.forceDead, hm, hterminal])
      · refine ⟨fun m => { m with liveness := .dead }, fun m => ⟨rfl, ?_, ?_, fun _ => rfl⟩, ?_⟩
        · simp
        · simp
        · simp only [Membership.forceDead, hm, if_neg hterminal]
          exact AList.lookup_insert _
  · exact .of_eq (Membership.lookup_exec_of_ne hx).2.2.1

/-- A measured round-trip time says nothing about liveness. -/
theorem agesAt_recordRtt (p : NodeId) (t : Membership) (x : NodeId) (ms : ℚ) :
    AgesAt p t (t.recordRtt x ms) := by
  by_cases hx : p = x
  · subst hx
    cases hm : t.members.lookup p with
    | none => exact .of_eq (by simp [Membership.recordRtt, hm])
    | some m =>
      refine ⟨fun m => { m with rttMs := some ms }, fun m => ⟨rfl, id, id, id⟩, ?_⟩
      simp only [Membership.recordRtt, hm]
      exact AList.lookup_insert _
  · refine .of_eq ?_
    unfold Membership.recordRtt
    split
    · rfl
    · exact AList.lookup_insert_ne hx

namespace Daemon

variable {st st' : Daemon} {now : ℤ} {a : DaemonAct} {p : NodeId} {m : MemberState}

/-- **One action that does not hear from a member.** -/
theorem Steps.ages (h : Steps st now a st') (hp : ¬st.Hears p a) :
    AgesAt p st.membership st'.membership := by
  cases h with
  | begin => exact .of_eq rfl
  | @refresh id rest hround =>
    have hne : p ≠ id := by
      rintro rfl
      exact hp (.inr ⟨rfl, rest, hround⟩)
    exact .of_eq ((Membership.lookup_exec_of_ne hne).2.1 now)
  | tick => exact agesAt_tick p st.membership now
  | join node =>
    have hne : p ≠ node.nodeId := fun he => hp (.inl he.symm)
    exact .of_eq ((Membership.lookup_exec_of_ne hne).1 node now rfl)
  | heartbeat id =>
    have hne : p ≠ id := fun he => hp (.inl he.symm)
    exact .of_eq ((Membership.lookup_exec_of_ne hne).2.1 now)
  | fail id => exact agesAt_forceDead p st.membership id
  | recordRtt id ms => exact agesAt_recordRtt p st.membership id ms

/-- A heartbeat of a member that has not left makes it alive. -/
theorem heard_of_heartbeatAt {t : Membership} {m' : MemberState}
    (hleft : ∀ m, t.members.lookup p = some m → m.liveness ≠ .left)
    (hm' : (t.heartbeatAt p now).2.members.lookup p = some m') :
    m'.liveness = .alive ∧ m'.lastHeartbeat = now := by
  cases hm : t.members.lookup p with
  | none => simp [Membership.heartbeatAt, hm] at hm'
  | some m =>
    rw [Membership.lookup_heartbeatAt_self now hm (hleft m hm)] at hm'
    obtain rfl := Option.some.inj hm'
    exact ⟨rfl, rfl⟩

/-- **One action that hears from a member.** -/
theorem Steps.hears {m' : MemberState} (h : Steps st now a st') (hp : st.Hears p a)
    (hleft : ∀ m, st.membership.members.lookup p = some m → m.liveness ≠ .left)
    (hm' : st'.membership.members.lookup p = some m') :
    m'.liveness = .alive ∧ m'.lastHeartbeat = now := by
  cases h with
  | @refresh id rest hround =>
    obtain ⟨rest', hround'⟩ : ∃ rest', st.round = some (p :: rest') :=
      hp.elim (fun hmsg => hmsg.elim) And.right
    obtain rfl := (List.cons.inj (Option.some.inj (hround.symm.trans hround'))).1
    exact heard_of_heartbeatAt hleft hm'
  | join node =>
    obtain rfl : node.nodeId = p := hp.resolve_right (by simp)
    obtain ⟨m, hm, hlast, halive⟩ := st.membership.lookup_join_self node now
    obtain rfl := Option.some.inj (hm.symm.trans hm')
    exact ⟨halive, hlast⟩
  | heartbeat id =>
    obtain rfl : id = p := hp.resolve_right (by simp)
    exact heard_of_heartbeatAt hleft hm'
  | begin => exact (hp.resolve_right (by simp)).elim
  | tick => exact (hp.resolve_right (by simp)).elim
  | fail => exact (hp.resolve_right (by simp)).elim
  | recordRtt => exact (hp.resolve_right (by simp)).elim

/-- The table lists its members under their ids, has the timeouts, and nobody in it has left. -/
structure Sound (s d : ℤ) (st : Daemon) : Prop where
  keyed : st.membership.Keyed
  suspectTimeout : st.membership.suspectTimeout = s
  deadTimeout : st.membership.deadTimeout = d
  not_left : ∀ p m, st.membership.members.lookup p = some m → m.liveness ≠ .left

theorem keyed_recordRtt {t : Membership} (h : t.Keyed) (x : NodeId) (ms : ℚ) :
    (t.recordRtt x ms).Keyed := by
  unfold Membership.recordRtt
  split
  · exact h
  · next m hm => exact h.insert (h x m hm)

theorem recordRtt_timeouts (t : Membership) (x : NodeId) (ms : ℚ) :
    (t.recordRtt x ms).suspectTimeout = t.suspectTimeout ∧
      (t.recordRtt x ms).deadTimeout = t.deadTimeout := by
  unfold Membership.recordRtt
  split <;> exact ⟨rfl, rfl⟩

theorem Steps.keyed (h : Steps st now a st') (hk : st.membership.Keyed) : st'.membership.Keyed := by
  cases h with
  | begin => exact hk
  | refresh => exact hk.heartbeatAt _ now
  | tick => exact hk.tick now
  | join node => exact hk.join node now
  | heartbeat id => exact hk.heartbeatAt id now
  | fail id => exact hk.forceDead id
  | recordRtt id ms => exact keyed_recordRtt hk id ms

theorem Steps.timeouts (h : Steps st now a st') :
    st'.membership.suspectTimeout = st.membership.suspectTimeout ∧
      st'.membership.deadTimeout = st.membership.deadTimeout := by
  cases h with
  | begin => exact ⟨rfl, rfl⟩
  | refresh => exact st.membership.exec_timeouts (.heartbeatAt _ now)
  | tick => exact ⟨rfl, rfl⟩
  | join node => exact st.membership.exec_timeouts (.join node now)
  | heartbeat id => exact st.membership.exec_timeouts (.heartbeatAt id now)
  | fail id => exact st.membership.exec_timeouts (.forceDead id)
  | recordRtt id ms => exact recordRtt_timeouts st.membership id ms

theorem Sound.step {s d : ℤ} (hs : Sound s d st) (h : Steps st now a st') : Sound s d st' := by
  refine ⟨h.keyed hs.keyed, h.timeouts.1.trans hs.suspectTimeout, h.timeouts.2.trans hs.deadTimeout,
    fun p m' hm' => ?_⟩
  by_cases hp : st.Hears p a
  · rw [(h.hears hp (hs.not_left p) hm').1]
    simp
  · obtain ⟨f, hf, hlookup⟩ := h.ages hp
    obtain ⟨m, hm, rfl⟩ := Option.map_eq_some_iff.1 (hlookup.symm.trans hm')
    exact (hf m).not_left (hs.not_left p m hm)

theorem mem_alive_iff {t : Membership} (h : t.Keyed) :
    p ∈ t.alive.map FabricNode.nodeId ↔ t.liveness p = some .alive := by
  simp only [Membership.alive, List.map_map, List.mem_map, List.mem_filter, HashMap.mem_values,
    decide_eq_true_eq, Function.comp_apply]
  constructor
  · rintro ⟨m, ⟨⟨k, hk⟩, halive⟩, rfl⟩
    rw [h k m hk, Membership.liveness, hk, Option.map_some, halive]
  · intro hlive
    obtain ⟨m, hm, halive⟩ := Option.map_eq_some_iff.1 hlive
    exact ⟨m, ⟨⟨p, hm⟩, halive⟩, h p m hm⟩

/-! ## Members that are not alive -/

/-- The member is not alive, and the round under way is not about to refresh it. -/
def Quiet (p : NodeId) (st : Daemon) : Prop :=
  st.membership.liveness p ≠ some .alive ∧ ∀ rest, st.round = some rest → p ∉ rest

theorem Quiet.not_hears (hq : Quiet p st) (hmsg : ¬Message p a) : ¬st.Hears p a := by
  rintro (hm | ⟨-, rest, hround⟩)
  · exact hmsg hm
  · exact hq.2 _ hround List.mem_cons_self

/-- Without a message from the member, a quiet daemon stays so. -/
theorem Quiet.step (hq : Quiet p st) (hkeyed : st.membership.Keyed) (hmsg : ¬Message p a)
    (h : Steps st now a st') : Quiet p st' := by
  refine ⟨?_, fun rest hrest => ?_⟩
  · obtain ⟨f, hf, hlookup⟩ := h.ages (hq.not_hears hmsg)
    rw [Membership.liveness, hlookup]
    intro hlive
    obtain ⟨m', hm', halive⟩ := Option.map_eq_some_iff.1 hlive
    obtain ⟨m, hm, rfl⟩ := Option.map_eq_some_iff.1 hm'
    refine (hf m).not_alive (fun he => hq.1 ?_) halive
    rw [Membership.liveness, hm, Option.map_some, he]
  · cases h with
    | begin hround hids =>
      obtain rfl := Option.some.inj hrest
      rw [hids.mem_iff, mem_alive_iff hkeyed]
      exact hq.1
    | @refresh id rest' hround =>
      obtain rfl := Option.some.inj hrest
      exact fun hmem => hq.2 _ hround (List.mem_cons_of_mem id hmem)
    | tick => cases hrest
    | join => exact hq.2 rest hrest
    | heartbeat => exact hq.2 rest hrest
    | fail => exact hq.2 rest hrest
    | recordRtt => exact hq.2 rest hrest

/-- A tick finds a member that was silent for both timeouts dead. -/
theorem Steps.dead_of_silent {s d : ℤ} (h : Steps st now .tick st') (hs : Sound s d st)
    (hm : st.membership.members.lookup p = some m) (hsilent : s + d ≤ now - m.lastHeartbeat) :
    ∃ m', st'.membership.members.lookup p = some m' ∧ m'.liveness = .dead := by
  cases h with
  | tick =>
    refine ⟨(m.tick s d now p).2, ?_, ?_⟩
    · simp [Membership.tick, HashMap.lookup_mapVal, hm, hs.suspectTimeout, hs.deadTimeout]
    · have hleft := hs.not_left p m hm
      rw [MemberState.tick_snd]
      simp only [Liveness.age, if_pos hsilent]
      cases hlive : m.liveness with
      | alive => rfl
      | suspect => rfl
      | dead => rfl
      | left => exact absurd hlive hleft

/-! ## Members that are alive -/

/-- A heartbeat leaves an alive member alive. -/
theorem alive_heartbeatAt {t : Membership} (x : NodeId) (now : ℤ) (hm : t.members.lookup p = some m)
    (halive : m.liveness = .alive) :
    ∃ m', (t.heartbeatAt x now).2.members.lookup p = some m' ∧ m'.liveness = .alive ∧
      (m'.lastHeartbeat = now ∨ x ≠ p ∧ m'.lastHeartbeat = m.lastHeartbeat) := by
  by_cases hx : p = x
  · subst hx
    exact ⟨_, Membership.lookup_heartbeatAt_self now hm (by simp [halive]), rfl, .inl rfl⟩
  · exact ⟨m, ((Membership.lookup_exec_of_ne hx).2.1 now).trans hm, halive, .inr ⟨Ne.symm hx, rfl⟩⟩

/-- The member is alive; the round under way began at a time of the clock, and it is about to refresh
the member or the member was heard from since. -/
def Kept (p : NodeId) (began : ℤ) (st : Daemon) : Prop :=
  ∃ m, st.membership.members.lookup p = some m ∧ m.liveness = .alive ∧
    ∀ rest, st.round = some rest → p ∈ rest ∨ began ≤ m.lastHeartbeat

theorem Kept.liveness {began : ℤ} (h : Kept p began st) : st.membership.liveness p = some .alive := by
  obtain ⟨m, hm, halive, -⟩ := h
  rw [Membership.liveness, hm, Option.map_some, halive]

/-- A round that begins lists the alive member. -/
theorem Steps.kept_of_begin {ids : List NodeId} (h : Steps st now (.begin ids) st')
    (hkeyed : st.membership.Keyed) (hlive : st.membership.liveness p = some .alive) :
    Kept p now st' := by
  obtain ⟨m, hm, halive⟩ := Option.map_eq_some_iff.1 hlive
  cases h with
  | begin hround hids =>
    refine ⟨m, hm, halive, fun rest hrest => .inl ?_⟩
    obtain rfl := Option.some.inj hrest
    rw [hids.mem_iff, mem_alive_iff hkeyed]
    exact hlive

/-- Only the beginning of a round puts one under way. -/
theorem Steps.round_ne_none (h : Steps st now a st') (hbegin : ∀ ids, a ≠ .begin ids)
    (hround' : st'.round ≠ none) : st.round ≠ none := by
  cases h with
  | begin => exact absurd rfl (hbegin _)
  | refresh hround => simp [hround]
  | tick => exact absurd rfl hround'
  | join => exact hround'
  | heartbeat => exact hround'
  | fail => exact hround'
  | recordRtt => exact hround'

/-- A round begins when none is under way. -/
theorem Steps.round_of_begin {ids : List NodeId} (h : Steps st now (.begin ids) st') :
    st.round = none := by
  cases h with
  | begin hround => exact hround

/-- A tick ends the round under way. -/
theorem Steps.round_of_tick (h : Steps st now .tick st') : st.round = some [] ∧ st'.round = none := by
  cases h with
  | tick hround => exact ⟨hround, rfl⟩

/-- Between the beginning of a round and its tick, an alive member stays alive. -/
theorem Kept.step {began : ℤ} (hk : Kept p began st) (hnow : began ≤ now)
    (h : Steps st now a st') (hbegin : ∀ ids, a ≠ .begin ids) (htick : a ≠ .tick)
    (hfail : a ≠ .fail p) : Kept p began st' := by
  obtain ⟨m, hm, halive, hround⟩ := hk
  cases h with
  | begin => exact absurd rfl (hbegin _)
  | tick => exact absurd rfl htick
  | @refresh id rest hr =>
    obtain ⟨m', hm', halive', hlast⟩ := alive_heartbeatAt id now hm halive
    refine ⟨m', hm', halive', fun rest' hrest => ?_⟩
    obtain rfl := Option.some.inj hrest
    rcases hlast with hlast | ⟨hne, hlast⟩
    · exact .inr (hlast ▸ hnow)
    · rcases hround _ hr with hmem | hle
      · exact .inl ((List.mem_cons.1 hmem).resolve_left (Ne.symm hne))
      · exact .inr (hlast ▸ hle)
  | heartbeat id =>
    obtain ⟨m', hm', halive', hlast⟩ := alive_heartbeatAt id now hm halive
    refine ⟨m', hm', halive', fun rest hrest => (hround rest hrest).imp_right fun hle => ?_⟩
    rcases hlast with hlast | ⟨-, hlast⟩
    · exact hlast ▸ hnow
    · exact hlast ▸ hle
  | join node =>
    by_cases hp : p = node.nodeId
    · subst hp
      obtain ⟨m', hm', hlast, halive'⟩ := st.membership.lookup_join_self node now
      exact ⟨m', hm', halive', fun _ _ => .inr (hlast ▸ hnow)⟩
    · exact ⟨m, ((Membership.lookup_exec_of_ne hp).1 node now rfl).trans hm, halive, hround⟩
  | fail id =>
    have hne : p ≠ id := by
      rintro rfl
      exact hfail rfl
    exact ⟨m, (Membership.lookup_exec_of_ne hne).2.2.1.trans hm, halive, hround⟩
  | recordRtt id ms =>
    by_cases hp : p = id
    · subst hp
      refine ⟨{ m with rttMs := some ms }, ?_, halive, hround⟩
      simp only [Membership.recordRtt, hm]
      exact AList.lookup_insert _
    · refine ⟨m, ?_, halive, hround⟩
      simp only [Membership.recordRtt]
      split
      · exact hm
      · exact (AList.lookup_insert_ne hp).trans hm

/-- A tick within the first timeout of the round's beginning leaves an alive member alive. -/
theorem Kept.tick {s d began : ℤ} (hd : 0 ≤ d) (hs : Sound s d st) (hk : Kept p began st)
    (h : Steps st now .tick st') (hprompt : now - began < s) : Kept p began st' := by
  obtain ⟨m, hm, halive, hround⟩ := hk
  cases h with
  | tick hr =>
    have hle : began ≤ m.lastHeartbeat := (hround [] hr).resolve_left List.not_mem_nil
    refine ⟨(m.tick s d now p).2, ?_, ?_, fun rest hrest => by cases hrest⟩
    · simp [Membership.tick, HashMap.lookup_mapVal, hm, hs.suspectTimeout, hs.deadTimeout]
    · have h1 : ¬s + d ≤ now - m.lastHeartbeat := by omega
      have h2 : ¬s ≤ now - m.lastHeartbeat := by omega
      rw [MemberState.tick_snd, halive]
      simp [Liveness.age, Liveness.isTerminal, h1, h2]

end Daemon

/-! ## Runs -/

namespace DaemonRun

open Daemon

variable {me : NodeId} {s d interval : ℤ} (r : DaemonRun me s d interval) {p : NodeId}

/-- The step that is taken at a moment. -/
theorem step_at {n : ℕ} {a : ℤ × DaemonAct} (ha : r.sched n = some a) :
    Steps (r.state n) (r.clock n) a.2 (r.state (n + 1)) := by
  have hstep := r.next n a ha
  rw [← Prod.mk.eta (p := a), r.at_clock n a ha] at hstep
  exact steps_of_step hstep

theorem sound (n : ℕ) : Sound s d (r.state n) := by
  refine r.toTrace.invariant ?_ (fun m a hs ha => hs.step (r.step_at ha)) n
  rw [r.start]
  exact ⟨by simp [Membership.Keyed, Membership.withTimeouts], rfl, rfl,
    by simp [Membership.withTimeouts]⟩

/-- The member is heard from at a moment. -/
def HearsAt (p : NodeId) (n : ℕ) : Prop := ∃ a, r.sched n = some a ∧ (r.state n).Hears p a.2

theorem clock_mono {m n : ℕ} (h : m ≤ n) : r.clock m ≤ r.clock n :=
  monotone_nat_of_le_succ r.mono h

/-- From one moment to the next without being heard from, a member ages. -/
theorem ages_succ {n : ℕ} (hp : ¬r.HearsAt p n) :
    AgesAt p (r.state n).membership (r.state (n + 1)).membership := by
  cases ha : r.sched n with
  | none =>
    rw [r.idle n ha]
    exact .of_eq rfl
  | some a => exact (r.step_at ha).ages fun hears => hp ⟨a, ha, hears⟩

/-- The table records when a member is heard from. -/
theorem lastHeartbeat_of_hearsAt {l : ℕ} {m : MemberState} (hears : r.HearsAt p l)
    (hm : (r.state (l + 1)).membership.members.lookup p = some m) : m.lastHeartbeat = r.clock l := by
  obtain ⟨a, ha, hears⟩ := hears
  exact ((r.step_at ha).hears hears ((r.sound l).not_left p) hm).2

/-- **A member was heard from before.** -/
theorem exists_last_heard {n : ℕ} {m : MemberState}
    (hm : (r.state n).membership.members.lookup p = some m) :
    ∃ l < n, r.HearsAt p l ∧ ∀ j, l < j → j < n → ¬r.HearsAt p j := by
  induction n generalizing m with
  | zero =>
    rw [r.start] at hm
    simp [Membership.withTimeouts] at hm
  | succ n ih =>
    by_cases hp : r.HearsAt p n
    · exact ⟨n, n.lt_succ_self, hp, fun j hj hj' => by omega⟩
    · obtain ⟨f, -, hlookup⟩ := r.ages_succ hp
      obtain ⟨m₀, hm₀, rfl⟩ := Option.map_eq_some_iff.1 (hlookup.symm.trans hm)
      obtain ⟨l, hl, hears, hnone⟩ := ih hm₀
      refine ⟨l, by omega, hears, fun j hj hj' => ?_⟩
      rcases Nat.lt_succ_iff_lt_or_eq.1 hj' with hlt | rfl
      · exact hnone j hj hlt
      · exact hp

/-- A member that is not heard from for a while ages. -/
theorem ages_of_unheard {i n : ℕ} (hin : i ≤ n) (hp : ∀ j, i ≤ j → j < n → ¬r.HearsAt p j) :
    AgesAt p (r.state i).membership (r.state n).membership := by
  induction n, hin using Nat.le_induction with
  | base => exact .of_eq rfl
  | succ n hin ih =>
    exact (ih fun j hj hj' => hp j hj (by omega)).trans (r.ages_succ (hp n hin (by omega)))

/-- A member that is not heard from for a while was one before. -/
theorem member_of_unheard {i n : ℕ} (hin : i ≤ n) {m : MemberState}
    (hm : (r.state n).membership.members.lookup p = some m)
    (hp : ∀ j, i ≤ j → j < n → ¬r.HearsAt p j) :
    ∃ m', (r.state i).membership.members.lookup p = some m' := by
  obtain ⟨f, -, hlookup⟩ := r.ages_of_unheard hin hp
  obtain ⟨m', hm', -⟩ := Option.map_eq_some_iff.1 (hlookup.symm.trans hm)
  exact ⟨m', hm'⟩

/-- There is a tick between two bounds that are an interval apart. -/
theorem exists_tick (hsd : 0 ≤ s + d) (l : ℕ) :
    ∃ m, l < m ∧ r.sched m = some (r.clock m, .tick) ∧ r.clock l + (s + d) ≤ r.clock m ∧
      r.clock m ≤ r.clock l + (s + d) + interval := by
  have hex : ∃ n, l < n ∧ r.clock l + (s + d) ≤ r.clock n := by
    obtain ⟨n, hn⟩ := r.diverges (r.clock l + (s + d))
    exact ⟨max n (l + 1), by omega, hn.trans (r.clock_mono (le_max_left _ _))⟩
  classical
  -- the moment before the bound is passed for the first time
  obtain ⟨hlt, hbound⟩ := Nat.find_spec hex
  obtain ⟨k, hk⟩ : ∃ k, Nat.find hex = k + 1 := ⟨Nat.find hex - 1, by omega⟩
  have hbefore : r.clock k ≤ r.clock l + (s + d) := by
    by_cases hkl : k = l
    · subst hkl
      omega
    · have hmin := Nat.find_min hex (m := k) (by omega)
      have hnot : ¬r.clock l + (s + d) ≤ r.clock k := fun hle => hmin ⟨by omega, hle⟩
      omega
  obtain ⟨m, hm, htick, hle⟩ := r.ticks k
  rw [hk] at hbound
  exact ⟨m, by omega, htick, hbound.trans (r.clock_mono hm), by omega⟩

/-- The member is dead by a tick no later than both timeouts and an interval after a moment, and stays
so. -/
def DeadWithin (p : NodeId) (l : ℕ) : Prop :=
  ∃ i, l < i ∧ r.sched i = some (r.clock i, .tick) ∧ r.clock i ≤ r.clock l + s + d + interval ∧
    ∀ n, i < n → (r.state n).membership.liveness p = some .dead

/-- **The bound.** A member that is not heard from again is dead within the bound. -/
theorem dead_of_unheard (hsd : 0 ≤ s + d) {l : ℕ} {m : MemberState}
    (hm : (r.state (l + 1)).membership.members.lookup p = some m) (hlast : m.lastHeartbeat = r.clock l)
    (hnone : ∀ j, l < j → ¬r.HearsAt p j) : r.DeadWithin p l := by
  obtain ⟨i, hli, htick, hge, hle⟩ := r.exists_tick hsd l
  refine ⟨i, hli, htick, by omega, fun n hn => ?_⟩
  obtain ⟨f, hf, hlookup⟩ := r.ages_of_unheard (p := p) (show l + 1 ≤ i by omega)
    fun j hj _ => hnone j (by omega)
  rw [hm, Option.map_some] at hlookup
  have hsilent : s + d ≤ r.clock i - (f m).lastHeartbeat := by
    rw [(hf m).last, hlast]
    omega
  obtain ⟨m', hm', hdead⟩ := (r.step_at htick).dead_of_silent (r.sound i) hlookup hsilent
  obtain ⟨g, hg, hlookup'⟩ := r.ages_of_unheard (p := p) (show i + 1 ≤ n by omega)
    fun j hj _ => hnone j (by omega)
  rw [Membership.liveness, hlookup', hm', Option.map_some, Option.map_some, (hg m').dead hdead]

/-- No message from the member arrives from a moment on. -/
def SilentFrom (p : NodeId) (n : ℕ) : Prop := ∀ j a, n ≤ j → r.sched j = some a → ¬Message p a.2

/-- A silent member that is not alive when a round begins is not heard from again. -/
theorem not_hearsAt_of_quiet {k : ℕ} (hsilent : r.SilentFrom p k) (hq : Quiet p (r.state k)) :
    ∀ n, k ≤ n → ¬r.HearsAt p n := by
  have hquiet : ∀ n, k ≤ n → Quiet p (r.state n) :=
    r.toTrace.stable hq fun m a hm hq ha =>
      hq.step (r.sound m).keyed (hsilent m a hm ha) (r.step_at ha)
  rintro n hn ⟨a, ha, hears⟩
  exact (hquiet n hn).not_hears (hsilent n a hn ha) hears

/-- Every round ticks less than the first timeout after it began. -/
def Prompt : Prop :=
  ∀ i j ids, i < j → r.sched i = some (r.clock i, .begin ids) → r.sched j = some (r.clock j, .tick) →
    (∀ l, i < l → l < j → r.sched l ≠ some (r.clock l, .tick)) → r.clock j - r.clock i < s

theorem sched_eq {n : ℕ} {a : ℤ × DaemonAct} (ha : r.sched n = some a) :
    r.sched n = some (r.clock n, a.2) := by
  rw [ha, ← r.at_clock n a ha]

/-- After a round has found the member alive: some round has begun last, the member is alive since, and
that round has not ticked yet if it is under way. -/
theorem exists_kept (hd : 0 ≤ d) (hprompt : r.Prompt) {k : ℕ} {ids : List NodeId}
    (hk : r.sched k = some (r.clock k, .begin ids))
    (halive : (r.state k).membership.liveness p = some .alive)
    (hfail : ∀ j, k ≤ j → r.sched j ≠ some (r.clock j, .fail p)) {n : ℕ} (hn : k < n) :
    ∃ i < n, (∃ ids, r.sched i = some (r.clock i, .begin ids)) ∧ Kept p (r.clock i) (r.state n) ∧
      ((r.state n).round ≠ none → ∀ l, i < l → l < n → r.sched l ≠ some (r.clock l, .tick)) := by
  induction n, hn using Nat.le_induction with
  | base =>
    refine ⟨k, k.lt_succ_self, ⟨ids, hk⟩, (r.step_at hk).kept_of_begin (r.sound k).keyed halive, ?_⟩
    exact fun _ l hl hl' => by omega
  | succ n hn ih =>
    obtain ⟨i, hi, hbegin, hkept, hnone⟩ := ih
    cases ha : r.sched n with
    | none =>
      rw [r.idle n ha]
      refine ⟨i, by omega, hbegin, hkept, fun hround l hl hl' => ?_⟩
      rcases Nat.lt_succ_iff_lt_or_eq.1 hl' with hlt | rfl
      · exact hnone hround l hl hlt
      · simp [ha]
    | some a =>
      have hstep := r.step_at ha
      have hsched := r.sched_eq ha
      by_cases hb : ∃ ids, a.2 = .begin ids
      · obtain ⟨ids', hids⟩ := hb
        rw [hids] at hstep hsched
        refine ⟨n, n.lt_succ_self, ⟨ids', hsched⟩,
          hstep.kept_of_begin (r.sound n).keyed hkept.liveness, ?_⟩
        exact fun _ l hl hl' => by omega
      by_cases ht : a.2 = .tick
      · rw [ht] at hstep hsched
        obtain ⟨hround, hround'⟩ := hstep.round_of_tick
        obtain ⟨ids', hids⟩ := hbegin
        have hlt := hprompt i n ids' hi hids hsched (hnone (by simp [hround]))
        exact ⟨i, by omega, ⟨ids', hids⟩, hkept.tick hd (r.sound n) hstep hlt,
          fun hne => absurd hround' hne⟩
      · have hb' : ∀ ids, a.2 ≠ .begin ids := fun ids' hids => hb ⟨ids', hids⟩
        have hf : a.2 ≠ .fail p := fun he => hfail n (by omega) (he ▸ hsched)
        refine ⟨i, by omega, hbegin, hkept.step (r.clock_mono hi.le) hstep hb' ht hf, ?_⟩
        intro hround l hl hl'
        rcases Nat.lt_succ_iff_lt_or_eq.1 hl' with hlt | rfl
        · exact hnone (hstep.round_ne_none hb' hround) l hl hlt
        · rw [hsched]
          simpa using ht

/-- **Staying alive.** A member that is alive when a round begins stays alive while every round is
prompt and nobody declares the member dead. -/
theorem alive_of_prompt (hd : 0 ≤ d) (hprompt : r.Prompt) {k : ℕ} {ids : List NodeId}
    (hk : r.sched k = some (r.clock k, .begin ids))
    (halive : (r.state k).membership.liveness p = some .alive)
    (hfail : ∀ j, k ≤ j → r.sched j ≠ some (r.clock j, .fail p)) {n : ℕ} (hn : k ≤ n) :
    (r.state n).membership.liveness p = some .alive := by
  rcases eq_or_lt_of_le hn with rfl | hn
  · exact halive
  · obtain ⟨i, -, -, hkept, -⟩ := r.exists_kept hd hprompt hk halive hfail hn
    exact hkept.liveness

end DaemonRun

/-- **A silent peer.** In every run of the daemon, for a member from which no message arrives after
some moment: if it is not heard from again after a moment, it is dead within the bound of that moment;
if a round finds it not alive, it was heard from for the last time before, and is dead within the
bound; and if a round finds it alive, it stays alive while every round is prompt and nobody declares
it dead. -/
theorem silent_peer {me : NodeId} {s d interval : ℤ} (r : DaemonRun me s d interval) (hs : 0 ≤ s)
    (hd : 0 ≤ d) (p : NodeId) (start : ℕ) (hsilent : r.SilentFrom p start) :
    (∀ l, r.HearsAt p l → (∀ j, l < j → ¬r.HearsAt p j) →
      (r.state (l + 1)).membership.liveness p ≠ none → r.DeadWithin p l) ∧
    ∀ k ids, start ≤ k → r.sched k = some (r.clock k, .begin ids) →
      (∀ live, (r.state k).membership.liveness p = some live → live ≠ .alive →
        ∃ l < k, r.HearsAt p l ∧ (∀ j, l < j → ¬r.HearsAt p j) ∧ r.DeadWithin p l) ∧
      ((r.state k).membership.liveness p = some .alive → r.Prompt →
        (∀ j, k ≤ j → r.sched j ≠ some (r.clock j, .fail p)) →
        ∀ n, k ≤ n → (r.state n).membership.liveness p = some .alive) := by
  have hsd : 0 ≤ s + d := by omega
  refine ⟨fun l hears hnone hmember => ?_, fun k ids hk hbegin => ⟨fun live hlive hdown => ?_, ?_⟩⟩
  · obtain ⟨live, hlive⟩ := Option.ne_none_iff_exists'.1 hmember
    obtain ⟨m, hm, -⟩ := Option.map_eq_some_iff.1 hlive
    exact r.dead_of_unheard hsd hm (r.lastHeartbeat_of_hearsAt hears hm) hnone
  · obtain ⟨m, hm, rfl⟩ := Option.map_eq_some_iff.1 hlive
    obtain ⟨l, hl, hears, hunheard⟩ := r.exists_last_heard hm
    have hquiet : Daemon.Quiet p (r.state k) := by
      refine ⟨fun halive => hdown (Option.some.inj (hlive.symm.trans halive)), fun rest hrest => ?_⟩
      rw [(r.step_at hbegin).round_of_begin] at hrest
      cases hrest
    have hafter := r.not_hearsAt_of_quiet (fun j a hj => hsilent j a (hk.trans hj)) hquiet
    have hnone : ∀ j, l < j → ¬r.HearsAt p j := fun j hj =>
      (lt_or_ge j k).elim (hunheard j hj) (hafter j)
    obtain ⟨m', hm'⟩ := r.member_of_unheard (show l + 1 ≤ k by omega) hm fun j hj _ => hnone j hj
    exact ⟨l, hl, hears, hnone,
      r.dead_of_unheard hsd hm' (r.lastHeartbeat_of_hearsAt hears hm') hnone⟩
  · exact fun halive hprompt hfail n hn => r.alive_of_prompt hd hprompt hbegin halive hfail hn

/-! ## A peer that is kept alive -/

/-- The table of a node with one peer, alive and heard from at the given time. -/
def onePeer (last : ℤ) : Membership :=
  ⟨⟨"n0"⟩, AList.insert ⟨"n1"⟩ ⟨.new ⟨"n1"⟩ [] [], .alive, last, 0, none⟩ ∅, 5000, 5000⟩

theorem onePeer_tick (now : ℤ) : ((onePeer now).tick now).2 = onePeer now := by
  have hsnd : (MemberState.tick 5000 5000 now ⟨"n1"⟩ ⟨.new ⟨"n1"⟩ [] [], .alive, now, 0, none⟩).2 =
      ⟨.new ⟨"n1"⟩ [] [], .alive, now, 0, none⟩ := by
    rw [MemberState.tick_snd]
    simp [Liveness.age, Liveness.isTerminal]
  have hmembers : HashMap.mapVal (fun id m => (MemberState.tick 5000 5000 now id m).2)
      (onePeer now).members = (onePeer now).members :=
    AList.ext (congrArg (fun m => [(⟨⟨"n1"⟩, m⟩ : (_ : NodeId) × MemberState)]) hsnd)
  exact congrArg (fun ms => (⟨⟨"n0"⟩, ms, 5000, 5000⟩ : Membership)) hmembers

/-- The rounds of the detector, one every two seconds: it begins, refreshes the peer and ticks. -/
def lonelyAct (j : ℕ) : DaemonAct :=
  if j % 3 = 0 then .begin [⟨"n1"⟩] else if j % 3 = 1 then .refresh else .tick

theorem lonelyAct_cases (j : ℕ) :
    lonelyAct j = .begin [⟨"n1"⟩] ∨ lonelyAct j = .refresh ∨ lonelyAct j = .tick := by
  unfold lonelyAct
  split_ifs <;> simp

/-- The daemon during these rounds. -/
def lonelyState (j : ℕ) : Daemon :=
  if j % 3 = 0 then ⟨onePeer (2000 * (j / 3 - 1 : ℕ)), none⟩
  else if j % 3 = 1 then ⟨onePeer (2000 * (j / 3 - 1 : ℕ)), some [⟨"n1"⟩]⟩
  else ⟨onePeer (2000 * (j / 3 : ℕ)), some []⟩

/-- The three moments of a round. -/
theorem lonely_round (k : ℕ) :
    (lonelyAct (3 * k) = .begin [⟨"n1"⟩] ∧
      lonelyState (3 * k) = ⟨onePeer (2000 * (k - 1 : ℕ)), none⟩) ∧
    (lonelyAct (3 * k + 1) = .refresh ∧
      lonelyState (3 * k + 1) = ⟨onePeer (2000 * (k - 1 : ℕ)), some [⟨"n1"⟩]⟩) ∧
    lonelyAct (3 * k + 2) = .tick ∧ lonelyState (3 * k + 2) = ⟨onePeer (2000 * k), some []⟩ := by
  have h0 : 3 * k % 3 = 0 ∧ 3 * k / 3 = k := by omega
  have h1 : (3 * k + 1) % 3 = 1 ∧ (3 * k + 1) / 3 = k := by omega
  have h2 : (3 * k + 2) % 3 = 2 ∧ (3 * k + 2) / 3 = k := by omega
  simp [lonelyAct, lonelyState, h0, h1, h2]

/-- Every moment is one of a round. -/
theorem exists_round (j : ℕ) : ∃ k, j = 3 * k ∨ j = 3 * k + 1 ∨ j = 3 * k + 2 :=
  ⟨j / 3, by omega⟩

theorem lonelyState_step (j : ℕ) :
    (lonelyState j).step (2000 * (j / 3 : ℕ), lonelyAct j) = some (lonelyState (j + 1)) := by
  obtain ⟨k, rfl | rfl | rfl⟩ := exists_round j
  · obtain ⟨⟨hact, hstate⟩, ⟨-, hstate'⟩, -⟩ := lonely_round k
    rw [hact, hstate, hstate']
    have hids : [(⟨"n1"⟩ : NodeId)].Perm
        ((onePeer (2000 * (k - 1 : ℕ))).alive.map FabricNode.nodeId) := .refl _
    simp only [Daemon.step, hids, and_self, if_true]
  · obtain ⟨-, ⟨hact, hstate⟩, -, hstate'⟩ := lonely_round k
    rw [hact, hstate, hstate', show (3 * k + 1) / 3 = k by omega]
    rfl
  · obtain ⟨-, -, hact, hstate⟩ := lonely_round k
    obtain ⟨⟨-, hstate'⟩, -⟩ := lonely_round (k + 1)
    rw [hact, hstate, show 3 * k + 2 + 1 = 3 * (k + 1) by omega, hstate',
      show (3 * k + 2) / 3 = k by omega]
    simp only [Daemon.step, onePeer_tick, Nat.add_sub_cancel]

/-- The peer joins and is silent from then on. -/
def lonelyRun : DaemonRun ⟨"n0"⟩ 5000 5000 2000 where
  state
    | 0 => ⟨.withTimeouts ⟨"n0"⟩ 5000 5000, none⟩
    | j + 1 => lonelyState j
  sched
    | 0 => some (0, .join (.new ⟨"n1"⟩ [] []))
    | j + 1 => some (2000 * (j / 3 : ℕ), lonelyAct j)
  clock n := 2000 * ((n - 1) / 3 : ℕ)
  idle n hn := by cases n <;> cases hn
  next n a ha := by
    cases n with
    | zero =>
      obtain rfl := Option.some.inj ha
      rfl
    | succ j =>
      obtain rfl := Option.some.inj ha
      exact lonelyState_step j
  start := rfl
  at_clock n a ha := by
    cases n with
    | zero =>
      obtain rfl := Option.some.inj ha
      rfl
    | succ j =>
      obtain rfl := Option.some.inj ha
      rfl
  mono n := by omega
  diverges x := ⟨3 * x.toNat + 1, by omega⟩
  ticks n := by
    obtain ⟨-, -, htick, -⟩ := lonely_round ((n + 2) / 3)
    refine ⟨3 * ((n + 2) / 3) + 2 + 1, by omega, ?_, by omega⟩
    dsimp only
    rw [htick]
    rfl

theorem lonelyRun_silent : lonelyRun.SilentFrom ⟨"n1"⟩ 1 := by
  intro n a hn ha
  cases n with
  | zero => omega
  | succ j =>
    obtain rfl := Option.some.inj ha
    rcases lonelyAct_cases j with hact | hact | hact <;> simp [hact, Daemon.Message]

/-- A round ticks when it began. -/
theorem lonelyRun_prompt : lonelyRun.Prompt := by
  intro i j ids hij hbegin htick hnone
  cases i with
  | zero => cases hbegin
  | succ i =>
    have hact : lonelyAct i = .begin ids := congrArg Prod.snd (Option.some.inj hbegin)
    obtain ⟨k, rfl | rfl | rfl⟩ := exists_round i
    · -- the tick is the first one since, at the third moment of the round
      have hle : j ≤ 3 * k + 3 := by
        by_contra hlt
        refine hnone (3 * k + 3) (by omega) (by omega) ?_
        exact congrArg (fun a => some (lonelyRun.clock (3 * k + 3), a)) (lonely_round k).2.2.1
      change (2000 * ((j - 1) / 3 : ℕ) : ℤ) - 2000 * ((3 * k + 1 - 1) / 3 : ℕ) < 5000
      omega
    · rw [(lonely_round k).2.1.1] at hact
      cases hact
    · rw [(lonely_round k).2.2.1] at hact
      cases hact

theorem lonelyRun_not_fail (j : ℕ) (hj : 1 ≤ j) :
    lonelyRun.sched j ≠ some (lonelyRun.clock j, .fail ⟨"n1"⟩) := by
  cases j with
  | zero => omega
  | succ j =>
    intro hfail
    have hact : lonelyAct j = .fail ⟨"n1"⟩ := congrArg Prod.snd (Option.some.inj hfail)
    rcases lonelyAct_cases j with h | h | h <;> simp [h] at hact

/-- The first round of this run finds the peer alive. -/
theorem silent_peer_lonelyRun :
    lonelyRun.Prompt ∧ ∀ n, 1 ≤ n → (lonelyRun.state n).membership.liveness ⟨"n1"⟩ = some .alive :=
  ⟨lonelyRun_prompt,
    ((silent_peer lonelyRun (by decide) (by decide) ⟨"n1"⟩ 1 lonelyRun_silent).2 1 [⟨"n1"⟩]
      le_rfl rfl).2 rfl lonelyRun_prompt fun j hj => lonelyRun_not_fail j hj⟩

/-- A peer that is silent forever, with a round every two seconds and timeouts of five seconds, is
never declared dead. -/
theorem silent_peer_kept_alive :
    lonelyRun.SilentFrom ⟨"n1"⟩ 1 ∧
      ∀ n, 1 ≤ n → (lonelyRun.state n).membership.liveness ⟨"n1"⟩ = some .alive := by
  refine ⟨lonelyRun_silent, fun n hn => ?_⟩
  cases n with
  | zero => omega
  | succ j =>
    change (lonelyState j).membership.liveness ⟨"n1"⟩ = some .alive
    obtain ⟨k, rfl | rfl | rfl⟩ := exists_round j
    · rw [(lonely_round k).1.2]
      rfl
    · rw [(lonely_round k).2.1.2]
      rfl
    · rw [(lonely_round k).2.2.2]
      rfl

end OCF.Api
