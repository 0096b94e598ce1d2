import OCF.Api.Detection

/-!
# The underlay and the membership table

The failure detector programs the underlay again at the end of a round in which the topology changed.
It learns of changes from one call only, the tick, which reports members that fall silent. A member
that joins, is heard from again, leaves or is declared dead changes the table in another task, and the
event of that call is dropped; a member that the round itself revives is dropped as well.

`underlay_follows_iff` says which runs have every transition followed by programming no later than the
end of the next round: those in which every transition but a death by timeout meets one. Either a
round that has reported a death has not ended yet, or at the tick of the round under way, or of the
next one, a member is overdue.
-/

namespace OCF.Api

open OCF.Fabric

/-! ## The loop -/

/-- Where the detector is in its loop. -/
inductive DetectorPhase
  | waiting
  /-- The alive members that are still to be refreshed. -/
  | refreshing (ids : List NodeId)
  /-- The events of the tick that are still to be acted on, and whether the topology has changed. -/
  | reacting (events : List MembershipEvent) (changed : Bool)
  deriving DecidableEq

/-- The membership table of the daemon and its detector. -/
structure Watcher where
  membership : Membership
  phase : DetectorPhase

/-- An action of the detector, or a call of another task on the table. -/
inductive WatchAct
  /-- A round begins: the alive members are listed, in some order. -/
  | begin (ids : List NodeId)
  /-- The round refreshes its next member. -/
  | refresh (now : ℤ)
  /-- The round ticks the table, which lists the events in some order. -/
  | tick (now : ℤ) (events : List MembershipEvent)
  /-- The round acts on the next event. -/
  | react
  /-- The round ends, programming the underlay if the topology has changed. -/
  | finish
  | call (op : MembershipOp)

/-- The detector takes the event for a change of the topology. -/
def changesTopology : MembershipEvent → Bool
  | .suspected _ => false
  | .died _ => true
  | .recovered _ | .joined _ | .left _ => true

/-- The calls that other tasks make: all but the tick, and nobody reaps. -/
def fromTasks : MembershipOp → Bool
  | .join .. | .heartbeatAt .. | .forceDead _ | .leave _ => true
  | .tick _ | .reap => false

namespace Watcher

/-- One action. -/
def step (w : Watcher) : WatchAct → Option Watcher
  | .begin ids =>
    if w.phase = .waiting ∧ ids.Perm (w.membership.alive.map FabricNode.nodeId) then
      some { w with phase := .refreshing ids }
    else none
  | .refresh now =>
    match w.phase with
    | .refreshing (id :: rest) => some ⟨(w.membership.heartbeatAt id now).2, .refreshing rest⟩
    | _ => none
  | .tick now events =>
    if w.phase = .refreshing [] ∧ events.Perm (w.membership.tick now).1 then
      some ⟨(w.membership.tick now).2, .reacting events false⟩
    else none
  | .react =>
    match w.phase with
    | .reacting (e :: events) changed =>
      some { w with phase := .reacting events (changed || changesTopology e) }
    | _ => none
  | .finish =>
    match w.phase with
    | .reacting [] _ => some { w with phase := .waiting }
    | _ => none
  | .call op => if fromTasks op then some { w with membership := (w.membership.exec op).2 } else none

/-- The events that the calls of an action on the table return. -/
def events (w : Watcher) : WatchAct → List MembershipEvent
  | .refresh now =>
    match w.phase with
    | .refreshing (id :: _) => (w.membership.exec (.heartbeatAt id now)).1
    | _ => []
  | .tick _ events => events
  | .call op => (w.membership.exec op).1
  | _ => []

/-- The action is a membership transition: a member joins, recovers, leaves or dies. -/
def Transition (w : Watcher) (a : WatchAct) : Prop :=
  ∃ e ∈ w.events a, changesTopology e ∧ w.membership.liveness e.subject ≠ some e.liveness

/-- A member that is neither dead nor gone has been silent for both timeouts. -/
def Overdue (w : Watcher) (now : ℤ) : Prop :=
  ∃ id m, w.membership.members.lookup id = some m ∧ ¬m.liveness.isTerminal ∧
    w.membership.suspectTimeout + w.membership.deadTimeout ≤ now - m.lastHeartbeat

/-- What an action does, by cases. -/
inductive Steps (w : Watcher) : WatchAct → Watcher → Prop
  | begin {ids : List NodeId} (hphase : w.phase = .waiting)
      (hids : ids.Perm (w.membership.alive.map FabricNode.nodeId)) :
      Steps w (.begin ids) { w with phase := .refreshing ids }
  | refresh {now : ℤ} {id : NodeId} {rest : List NodeId} (hphase : w.phase = .refreshing (id :: rest)) :
      Steps w (.refresh now) ⟨(w.membership.heartbeatAt id now).2, .refreshing rest⟩
  | tick {now : ℤ} {events : List MembershipEvent} (hphase : w.phase = .refreshing [])
      (hevents : events.Perm (w.membership.tick now).1) :
      Steps w (.tick now events) ⟨(w.membership.tick now).2, .reacting events false⟩
  | react {e : MembershipEvent} {events : List MembershipEvent} {changed : Bool}
      (hphase : w.phase = .reacting (e :: events) changed) :
      Steps w .react { w with phase := .reacting events (changed || changesTopology e) }
  | finish {changed : Bool} (hphase : w.phase = .reacting [] changed) :
      Steps w .finish { w with phase := .waiting }
  | call {op : MembershipOp} (hop : fromTasks op) :
      Steps w (.call op) { w with membership := (w.membership.exec op).2 }

theorem steps_of_step {w w' : Watcher} {a : WatchAct} (h : w.step a = some w') : Steps w a w' := by
  cases a with
  | begin ids =>
    simp only [step] at h
    split_ifs at h with hbegin
    exact Option.some.inj h ▸ .begin hbegin.1 hbegin.2
  | refresh now =>
    simp only [step] at h
    split at h
    · next id rest hphase => exact Option.some.inj h ▸ .refresh hphase
    · cases h
  | tick now events =>
    simp only [step] at h
    split_ifs at h with htick
    exact Option.some.inj h ▸ .tick htick.1 htick.2
  | react =>
    simp only [step] at h
    split at h
    · next e events changed hphase => exact Option.some.inj h ▸ .react hphase
    · cases h
  | finish =>
    simp only [step] at h
    split at h
    · next changed hphase => exact Option.some.inj h ▸ .finish hphase
    · cases h
  | call op =>
    simp only [step] at h
    split_ifs at h with hop
    exact Option.some.inj h ▸ .call hop

/-! ## What a tick reports -/

/-- **A tick reports a change exactly when a member is overdue.** -/
theorem exists_changesTopology_iff {w : Watcher} {now : ℤ} {events : List MembershipEvent}
    (hevents : events.Perm (w.membership.tick now).1) :
    (∃ e ∈ events, changesTopology e) ↔ w.Overdue now := by
  simp only [hevents.mem_iff, Membership.tick, List.mem_filterMap, Prod.exists, HashMap.mem_pairs]
  constructor
  · rintro ⟨e, ⟨id, m, hm, he⟩, hchange⟩
    refine ⟨id, m, hm, ?_⟩
    unfold MemberState.tick at he
    dsimp only at he
    split_ifs at he with hterminal hdead halive hsuspect
    · exact ⟨hterminal, hdead⟩
    · obtain rfl := Option.some.inj he
      cases hchange
  · rintro ⟨id, m, hm, hterminal, hdead⟩
    refine ⟨.died id, ⟨id, m, hm, ?_⟩, rfl⟩
    have hne : m.liveness ≠ .dead := fun h => hterminal (by simp [Liveness.isTerminal, h])
    rw [MemberState.tick, if_neg hterminal]
    dsimp only
    rw [if_pos hdead, if_pos hne]

end Watcher

/-! ## Runs -/

/-- A run of the daemon from the moment the detector is spawned, with any table. The detector goes
through its loop forever. -/
structure WatchRun extends Trace Watcher.step where
  start : (state 0).phase = .waiting
  rounds : ∀ n, ∃ m, n ≤ m ∧ sched m = some .finish

namespace WatchRun

variable (r : WatchRun)

/-- The underlay is programmed: a round ends with the topology changed. -/
def Programs (k : ℕ) : Prop :=
  r.sched k = some .finish ∧ (r.state k).phase = .reacting [] true

/-- The next round after a moment begins at `b` and ends at `j`. -/
structure NextRound (n b j : ℕ) : Prop where
  after : n < b
  lt : b < j
  begins : ∃ ids, r.sched b = some (.begin ids)
  first : ∀ i, n < i → i < b → ∀ ids, r.sched i ≠ some (.begin ids)
  ends : r.sched j = some .finish
  unfinished : ∀ i, b < i → i < j → r.sched i ≠ some .finish

/-- **The underlay follows membership**: after every transition it is programmed no later than at the
end of the next round. -/
def Follows : Prop :=
  ∀ n a, r.sched n = some a → (r.state n).Transition a →
    ∃ b j, r.NextRound n b j ∧ ∃ k, n < k ∧ k ≤ j ∧ r.Programs k

/-- The tick at `t` finds a member overdue, and its round has not ended by the moment `n`. -/
def OverdueTick (n t : ℕ) : Prop :=
  ∃ now events, r.sched t = some (.tick now events) ∧ (r.state t).Overdue now ∧
    ∀ i, t < i → i ≤ n → r.sched i ≠ some .finish

variable {r} {n t : ℕ}

theorem step_at {a : WatchAct} (h : r.sched n = some a) :
    ∃ w', r.state (n + 1) = w' ∧ Watcher.Steps (r.state n) a w' :=
  ⟨_, rfl, Watcher.steps_of_step (r.next n a h)⟩

/-- **From its tick to its end a round acts on the events of the tick.** The topology has changed, or
an event that is still to come changes it, exactly when a member was overdue. -/
theorem reacting_since {now : ℤ} {events : List MembershipEvent}
    (htick : r.sched t = some (.tick now events)) (hn : t < n)
    (hunfinished : ∀ i, t < i → i < n → r.sched i ≠ some .finish) :
    ∃ es changed, (r.state n).phase = .reacting es changed ∧
      ((changed = true ∨ ∃ e ∈ es, changesTopology e) ↔ (r.state t).Overdue now) := by
  induction n, hn using Nat.le_induction with
  | base =>
    obtain ⟨w', hw', hstep⟩ := step_at htick
    rw [hw']
    cases hstep with
    | tick _ hevents =>
      exact ⟨events, false, rfl, by simpa using Watcher.exists_changesTopology_iff hevents⟩
  | succ n hn ih =>
    obtain ⟨es, changed, hphase, hiff⟩ := ih fun i hi hin => hunfinished i hi (by omega)
    cases ha : r.sched n with
    | none => exact ⟨es, changed, by rw [r.idle n ha, hphase], hiff⟩
    | some a =>
      obtain ⟨w', hw', hstep⟩ := step_at ha
      rw [hw']
      cases hstep with
      | begin hphase' => simp [hphase] at hphase'
      | refresh hphase' => simp [hphase] at hphase'
      | tick hphase' => simp [hphase] at hphase'
      | @react e es' changed' hphase' =>
        obtain ⟨rfl, rfl⟩ : es = e :: es' ∧ changed = changed' := by simpa [hphase] using hphase'
        refine ⟨es', _, rfl, ?_⟩
        rw [← hiff]
        simp [or_assoc]
      | finish => exact absurd ha (hunfinished n hn (by omega))
      | call => exact ⟨es, changed, hphase, hiff⟩

/-- A round that acts on events has ticked and not ended since. -/
theorem exists_tick {es : List MembershipEvent} {changed : Bool}
    (hphase : (r.state n).phase = .reacting es changed) :
    ∃ t now events, t < n ∧ r.sched t = some (.tick now events) ∧
      ∀ i, t < i → i < n → r.sched i ≠ some .finish := by
  induction n generalizing es changed with
  | zero => simp [r.start] at hphase
  | succ n ih =>
    -- the same tick, if this moment is not the end of the round
    have hlater : ∀ {es changed}, (r.state n).phase = .reacting es changed →
        r.sched n ≠ some .finish → ∃ t now events, t < n + 1 ∧
          r.sched t = some (.tick now events) ∧ ∀ i, t < i → i < n + 1 → r.sched i ≠ some .finish := by
      intro es changed hphase hne
      obtain ⟨t, now, events, ht, htick, hunfinished⟩ := ih hphase
      refine ⟨t, now, events, by omega, htick, fun i hi hin => ?_⟩
      obtain rfl | hlt := Nat.eq_or_lt_of_le (Nat.le_of_lt_succ hin)
      · exact hne
      · exact hunfinished i hi hlt
    cases ha : r.sched n with
    | none => exact hlater (by rw [← r.idle n ha, hphase]) (by simp [ha])
    | some a =>
      obtain ⟨w', hw', hstep⟩ := step_at ha
      rw [hw'] at hphase
      cases hstep with
      | begin => cases hphase
      | refresh => cases hphase
      | @tick now events =>
        exact ⟨n, now, events, Nat.lt_succ_self n, ha, fun i hi hin => by omega⟩
      | react hphase' => exact hlater hphase' (by simp [ha])
      | finish => cases hphase
      | call => exact hlater hphase (by simp [ha])

/-- **The end of a round programs the underlay exactly when its tick found a member overdue.** -/
theorem programs_iff {k : ℕ} (hk : r.sched k = some .finish) :
    r.Programs k ↔ ∃ t now events, t < k ∧ r.sched t = some (.tick now events) ∧
      (r.state t).Overdue now ∧ ∀ i, t < i → i < k → r.sched i ≠ some .finish := by
  constructor
  · rintro ⟨-, hphase⟩
    obtain ⟨t, now, events, ht, htick, hunfinished⟩ := exists_tick hphase
    obtain ⟨es, changed, hphase', hiff⟩ := reacting_since htick ht hunfinished
    obtain ⟨rfl, rfl⟩ : [] = es ∧ true = changed := by simpa [hphase] using hphase'
    exact ⟨t, now, events, ht, htick, hiff.1 (.inl rfl), hunfinished⟩
  · rintro ⟨t, now, events, ht, htick, hoverdue, hunfinished⟩
    obtain ⟨es, changed, hphase, hiff⟩ := reacting_since htick ht hunfinished
    obtain ⟨changed', hphase'⟩ : ∃ changed', (r.state k).phase = .reacting [] changed' := by
      obtain ⟨w', -, hstep⟩ := step_at hk
      cases hstep with
      | finish hphase' => exact ⟨_, hphase'⟩
    obtain ⟨rfl, rfl⟩ : es = [] ∧ changed = changed' := by simpa [hphase] using hphase'
    have hchanged : changed = true := by simpa using hiff.2 hoverdue
    exact ⟨hk, by rw [hphase, hchanged]⟩

/-- The first end of a round after a moment. -/
theorem exists_first_finish (r : WatchRun) (n : ℕ) :
    ∃ k, n < k ∧ r.sched k = some .finish ∧ ∀ i, n < i → i < k → r.sched i ≠ some .finish := by
  classical
  have hex : ∃ k, n < k ∧ r.sched k = some .finish := by
    obtain ⟨k, hk, hfinish⟩ := r.rounds (n + 1)
    exact ⟨k, hk, hfinish⟩
  obtain ⟨hlt, hfinish⟩ := Nat.find_spec hex
  exact ⟨Nat.find hex, hlt, hfinish, fun i hi hik h => Nat.find_min hex hik ⟨hi, h⟩⟩

/-- A round begins after every moment: one ends, and before the next end one has to begin. -/
theorem exists_begin (r : WatchRun) (n : ℕ) : ∃ b ids, n < b ∧ r.sched b = some (.begin ids) := by
  obtain ⟨k, hk, hfinish, -⟩ := r.exists_first_finish n
  obtain ⟨j, hj, hfinish', -⟩ := r.exists_first_finish k
  by_contra hnone
  push Not at hnone
  have hwaiting : (r.state (k + 1)).phase = .waiting := by
    obtain ⟨w', hw', hstep⟩ := step_at hfinish
    rw [hw']
    cases hstep with
    | finish => rfl
  have hstays : (r.state j).phase = .waiting := by
    refine r.toTrace.stable (I := fun w => w.phase = .waiting) hwaiting (fun m a hm hphase ha => ?_) j hj
    obtain ⟨w', hw', hstep⟩ := step_at ha
    rw [hw']
    cases hstep with
    | begin => exact absurd ha (hnone m _ (by omega))
    | refresh hphase' => simp [hphase] at hphase'
    | tick hphase' => simp [hphase] at hphase'
    | react hphase' => simp [hphase] at hphase'
    | finish => rfl
    | call => exact hphase
  obtain ⟨w', -, hstep⟩ := step_at hfinish'
  cases hstep with
  | finish hphase => simp [hstays] at hphase

theorem exists_nextRound (r : WatchRun) (n : ℕ) : ∃ b j, r.NextRound n b j := by
  classical
  have hex : ∃ b, n < b ∧ ∃ ids, r.sched b = some (.begin ids) := by
    obtain ⟨b, ids, hb, hbegin⟩ := r.exists_begin n
    exact ⟨b, hb, ids, hbegin⟩
  obtain ⟨hb, hbegin⟩ := Nat.find_spec hex
  obtain ⟨j, hj, hfinish, hunfinished⟩ := r.exists_first_finish (Nat.find hex)
  exact ⟨Nat.find hex, j, hb, hj, hbegin, fun i hi hib ids h => Nat.find_min hex hib ⟨hi, ids, h⟩,
    hfinish, hunfinished⟩

/-- A tick that finds a member overdue has the underlay programmed at the end of its round. -/
theorem programs_of_overdueTick (h : r.OverdueTick n t) {j : ℕ} (htj : t < j)
    (hj : r.sched j = some .finish) : ∃ k, n < k ∧ k ≤ j ∧ r.Programs k := by
  obtain ⟨now, events, htick, hoverdue, hunended⟩ := h
  obtain ⟨k, hk, hfinish, hunfinished⟩ := r.exists_first_finish t
  refine ⟨k, ?_, ?_, (programs_iff hfinish).2 ⟨t, now, events, hk, htick, hoverdue, hunfinished⟩⟩
  · by_contra hle
    exact hunended k hk (by omega) hfinish
  · by_contra hlt
    exact hunfinished j htj (by omega) hj

end WatchRun

open WatchRun

/-- **When the underlay follows membership.** In every run of the daemon: every transition is followed
by programming no later than at the end of the next round, if and only if for every transition that is
not a death by timeout there is a tick that finds a member overdue, of a round that has not ended
before the transition and does not end after the next one. -/
theorem underlay_follows_iff (r : WatchRun) :
    r.Follows ↔ ∀ n a, r.sched n = some a → (r.state n).Transition a →
      (∀ now events, a ≠ .tick now events) →
        ∃ b j, r.NextRound n b j ∧ ∃ t < j, r.OverdueTick n t := by
  constructor
  · intro h n a ha htransition _
    obtain ⟨b, j, hround, k, hnk, hkj, hprograms⟩ := h n a ha htransition
    obtain ⟨t, now, events, ht, htick, hoverdue, hunfinished⟩ := (programs_iff hprograms.1).1 hprograms
    exact ⟨b, j, hround, t, by omega, now, events, htick, hoverdue,
      fun i hi hin => hunfinished i hi (by omega)⟩
  · intro h n a ha htransition
    by_cases htick : ∃ now events, a = .tick now events
    · obtain ⟨now, events, rfl⟩ := htick
      obtain ⟨b, j, hround⟩ := r.exists_nextRound n
      -- the transition is a death, which the tick itself reports
      have hoverdue : (r.state n).Overdue now := by
        obtain ⟨e, he, hchange, -⟩ := htransition
        obtain ⟨w', -, hstep⟩ := step_at ha
        cases hstep with
        | tick _ hevents => exact (Watcher.exists_changesTopology_iff hevents).1 ⟨e, he, hchange⟩
      have hnj : n < j := hround.after.trans hround.lt
      exact ⟨b, j, hround, programs_of_overdueTick ⟨now, events, ha, hoverdue,
        fun i hi hin => by omega⟩ hnj hround.ends⟩
    · push Not at htick
      obtain ⟨b, j, hround, t, htj, hoverdue⟩ := h n a ha htransition htick
      exact ⟨b, j, hround, programs_of_overdueTick hoverdue htj hround.ends⟩

/-! ## A peer that is declared dead -/

/-- The table of a node with one peer, after the peer was declared dead. -/
def failedPeer : Membership := ((onePeer 0).forceDead ⟨"n1"⟩).2

/-- The rounds of the detector on that table: it begins, ticks and ends. -/
def failedAct (j : ℕ) : WatchAct :=
  if j % 3 = 0 then .begin [] else if j % 3 = 1 then .tick (2000 * (j / 3 : ℕ)) [] else .finish

/-- The states in which the peer has failed. -/
def failedState (j : ℕ) : Watcher :=
  ⟨failedPeer, if j % 3 = 0 then .waiting else if j % 3 = 1 then .refreshing [] else .reacting [] false⟩

theorem failedState_step (j : ℕ) : (failedState j).step (failedAct j) = some (failedState (j + 1)) := by
  obtain ⟨k, rfl | rfl | rfl⟩ := exists_round j
  · have h0 : 3 * k % 3 = 0 ∧ (3 * k + 1) % 3 = 1 := by omega
    simp only [failedState, failedAct, h0, if_true, if_false, one_ne_zero]
    rfl
  · have h1 : (3 * k + 1) % 3 = 1 ∧ (3 * k + 1 + 1) % 3 = 2 := by omega
    simp only [failedState, failedAct, h1, if_true, if_false, one_ne_zero, OfNat.ofNat_ne_zero,
      OfNat.ofNat_ne_one]
    rfl
  · have h2 : (3 * k + 2) % 3 = 2 ∧ (3 * k + 2 + 1) % 3 = 0 := by omega
    simp only [failedState, failedAct, h2, if_true, if_false, OfNat.ofNat_ne_zero, OfNat.ofNat_ne_one]
    rfl

/-- The states of the run: the peer is declared dead first. -/
def declaredState : ℕ → Watcher
  | 0 => ⟨onePeer 0, .waiting⟩
  | j + 1 => failedState j

/-- The actions of the run. -/
def declaredAct : ℕ → WatchAct
  | 0 => .call (.forceDead ⟨"n1"⟩)
  | j + 1 => failedAct j

theorem declaredState_step (n : ℕ) (a : WatchAct) (ha : some (declaredAct n) = some a) :
    (declaredState n).step a = some (declaredState (n + 1)) := by
  obtain rfl := Option.some.inj ha
  cases n with
  | zero => rfl
  | succ j => exact failedState_step j

theorem exists_declaredAct_finish (n : ℕ) : ∃ m, n ≤ m ∧ some (declaredAct m) = some .finish := by
  refine ⟨3 * n + 2 + 1, by omega, ?_⟩
  have h2 : (3 * n + 2) % 3 = 2 := by omega
  simp [declaredAct, failedAct, h2]

/-- The peer is declared dead, and rounds follow. -/
def failedRun : WatchRun where
  state := declaredState
  sched n := some (declaredAct n)
  idle _ := nofun
  next := declaredState_step
  start := rfl
  rounds := exists_declaredAct_finish

/-- The peer dies when it is declared dead, and the underlay is never programmed. -/
theorem forced_death_not_followed :
    (failedRun.state 0).Transition (.call (.forceDead ⟨"n1"⟩)) ∧
      (∀ k, ¬failedRun.Programs k) ∧ ¬failedRun.Follows := by
  have htransition : (failedRun.state 0).Transition (.call (.forceDead ⟨"n1"⟩)) :=
    ⟨.died ⟨"n1"⟩, List.mem_singleton_self _, rfl, by decide⟩
  have hnever : ∀ k, ¬failedRun.Programs k := by
    rintro k ⟨-, hphase⟩
    cases k with
    | zero => cases hphase
    | succ j =>
      change (failedState j).phase = _ at hphase
      simp only [failedState] at hphase
      split_ifs at hphase
      simp at hphase
  refine ⟨htransition, hnever, fun h => ?_⟩
  obtain ⟨_, _, -, k, -, -, hprograms⟩ := h 0 _ rfl htransition
  exact hnever k hprograms

end OCF.Api
