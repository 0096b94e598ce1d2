import OCF.Fabric.MembershipEvents
import Mathlib.Algebra.Order.Group.Int

/-!
# The failure detector as a function of time

A tick looks at the state its predecessor left behind, skips the members in a terminal state, and a
heartbeat revives a member. This module shows that nothing of this history matters: with times that
do not go back and timeouts that are not negative, the liveness of a member right after a tick is
decided by how long ago it last joined or sent a heartbeat (`verdict`), however many ticks there were
before and whenever they came. The members concerned are those that nobody marks as left or declares
dead.

* `MemberState.tick_tick`: of two ticks in a row the second alone has the same effect.
* `Fair` is the invariant: a member is not held for worse than it would be at any later time.
* `tick_memoryless`: the comparison over every run.
-/

namespace OCF.Fabric

/-- What a member deserves that has been silent for so long. -/
def verdict (s d silent : ℤ) : Liveness :=
  if silent < s then .alive else if silent < s + d then .suspect else .dead

/-- The liveness of a member after a tick that finds it silent for so long. -/
def Liveness.age (s d silent : ℤ) (l : Liveness) : Liveness :=
  if l.isTerminal then l
  else if s + d ≤ silent then .dead
  else if s ≤ silent ∧ l = .alive then .suspect
  else l

/-- Of two looks at a member, the later one alone has the same effect. -/
theorem Liveness.age_age {s d silent silent' : ℤ} (hle : silent ≤ silent') (l : Liveness) :
    (l.age s d silent).age s d silent' = l.age s d silent' := by
  cases l with
  | left => rfl
  | dead => rfl
  | suspect =>
    by_cases hlong : s + d ≤ silent
    · have hlong' : s + d ≤ silent' := hlong.trans hle
      simp [Liveness.age, Liveness.isTerminal, hlong, hlong']
    · simp [Liveness.age, Liveness.isTerminal, hlong]
  | alive =>
    by_cases hlong : s + d ≤ silent
    · have hlong' : s + d ≤ silent' := hlong.trans hle
      simp [Liveness.age, Liveness.isTerminal, hlong, hlong']
    · by_cases hshort : s ≤ silent
      · have hshort' : s ≤ silent' := hshort.trans hle
        simp [Liveness.age, Liveness.isTerminal, hlong, hshort, hshort']
      · simp [Liveness.age, Liveness.isTerminal, hlong, hshort]

namespace MemberState

variable {s d now now' : ℤ} {id : NodeId} {m : MemberState}

/-- A tick changes the liveness only. -/
theorem tick_snd : (m.tick s d now id).2 =
    { m with liveness := m.liveness.age s d (now - m.lastHeartbeat) } := by
  unfold MemberState.tick Liveness.age
  dsimp only
  split_ifs with hterminal hlong hdead hshort
  · rfl
  · rfl
  · exact absurd (by simp [Liveness.isTerminal, not_not.1 hdead]) hterminal
  · rfl
  · rfl

/-- Of two ticks in a row, the later one alone has the same effect. -/
theorem tick_tick (hle : now ≤ now') :
    ((m.tick s d now id).2.tick s d now' id).2 = (m.tick s d now' id).2 := by
  rw [tick_snd, tick_snd, tick_snd]
  dsimp only
  rw [Liveness.age_age (by omega)]

/-- A member is not held for worse than it deserves at the given time. -/
structure Fair (s d now : ℤ) (m : MemberState) : Prop where
  suspect : m.liveness = .suspect → s ≤ now - m.lastHeartbeat
  dead : m.liveness = .dead → s + d ≤ now - m.lastHeartbeat

theorem Fair.mono (h : m.Fair s d now) (hle : now ≤ now') : m.Fair s d now' where
  suspect hm := (h.suspect hm).trans (by omega)
  dead hm := (h.dead hm).trans (by omega)

theorem fair_of_alive (h : m.liveness = .alive) : m.Fair s d now := by
  constructor <;> simp [h]

/-- A tick gives a fairly held member what it deserves. -/
theorem Fair.age_eq (hd : 0 ≤ d) (h : m.Fair s d now) (hleft : m.liveness ≠ .left) :
    m.liveness.age s d (now - m.lastHeartbeat) = verdict s d (now - m.lastHeartbeat) := by
  obtain ⟨hsuspect, hdead⟩ := h
  generalize now - m.lastHeartbeat = silent at hsuspect hdead ⊢
  cases hm : m.liveness with
  | left => exact absurd hm hleft
  | dead =>
    have hlong : s + d ≤ silent := hdead hm
    have hs : ¬silent < s := by omega
    simp [Liveness.age, Liveness.isTerminal, verdict, hs, not_lt.2 hlong]
  | suspect =>
    have hshort : s ≤ silent := hsuspect hm
    by_cases hlong : s + d ≤ silent
    · simp [Liveness.age, Liveness.isTerminal, verdict, hlong, not_lt.2 hshort, not_lt.2 hlong]
    · simp [Liveness.age, Liveness.isTerminal, verdict, hlong, not_lt.2 hshort, not_le.1 hlong]
  | alive =>
    by_cases hlong : s + d ≤ silent
    · have hs : ¬silent < s := by omega
      simp [Liveness.age, Liveness.isTerminal, verdict, hlong, hs, not_lt.2 hlong]
    · by_cases hshort : s ≤ silent
      · simp [Liveness.age, Liveness.isTerminal, verdict, hlong, hshort, not_lt.2 hshort,
          not_le.1 hlong]
      · simp [Liveness.age, Liveness.isTerminal, verdict, hlong, hshort, not_le.1 hshort]

/-- What a member deserves is fair. -/
theorem fair_verdict (hlive : m.liveness = verdict s d (now - m.lastHeartbeat)) :
    m.liveness ≠ .left ∧ m.Fair s d now := by
  refine ⟨?_, ?_, ?_⟩
  · rw [hlive, verdict]
    split_ifs <;> simp
  · rw [hlive, verdict]
    split_ifs <;> simp_all
  · rw [hlive, verdict]
    split_ifs <;> simp_all

end MemberState

/-! ## Runs -/

namespace MembershipOp

/-- The time of a call that takes one. -/
def time : MembershipOp → Option ℤ
  | join _ now | heartbeatAt _ now | tick now => some now
  | forceDead _ | leave _ | reap => none

/-- The time at which a call hears from a member. -/
def heard (id : NodeId) : MembershipOp → Option ℤ
  | join node now => if node.nodeId = id then some now else none
  | heartbeatAt x now => if x = id then some now else none
  | forceDead _ | leave _ | tick _ | reap => none

/-- The call neither marks the member as left, nor declares it dead, nor removes members. -/
def Spares (id : NodeId) : MembershipOp → Prop
  | forceDead x | leave x => x ≠ id
  | reap => False
  | join _ _ | heartbeatAt _ _ | tick _ => True

/-- The call adds the member. -/
def Joins (id : NodeId) : MembershipOp → Prop
  | join node _ => node.nodeId = id
  | _ => False

/-- The times of the calls do not go back. -/
def Chronological (ops : List MembershipOp) : Prop := (ops.filterMap time).Pairwise (· ≤ ·)

instance (ops : List MembershipOp) : Decidable (Chronological ops) :=
  inferInstanceAs (Decidable (List.Pairwise _ _))

/-- When a member was last heard from. -/
def lastHeard (id : NodeId) (ops : List MembershipOp) : Option ℤ := (ops.filterMap (heard id)).getLast?

theorem chronological_append {ops ops' : List MembershipOp} :
    Chronological (ops ++ ops') ↔ Chronological ops ∧ Chronological ops' ∧
      ∀ a ∈ ops.filterMap time, ∀ b ∈ ops'.filterMap time, a ≤ b := by
  rw [Chronological, List.filterMap_append, List.pairwise_append]
  rfl

theorem lastHeard_concat (id : NodeId) (ops : List MembershipOp) (op : MembershipOp) :
    lastHeard id (ops ++ [op]) = (op.heard id).or (lastHeard id ops) := by
  cases h : op.heard id with
  | none => simp [lastHeard, h]
  | some now => simp [lastHeard, h]

end MembershipOp

namespace Membership

open MembershipOp

theorem execAll_append (t : Membership) (ops ops' : List MembershipOp) :
    (t.execAll (ops ++ ops')).2 = ((t.execAll ops).2.execAll ops').2 := by
  induction ops generalizing t with
  | nil => rfl
  | cons op ops ih => exact ih _

theorem execAll_concat (t : Membership) (ops : List MembershipOp) (op : MembershipOp) :
    (t.execAll (ops ++ [op])).2 = ((t.execAll ops).2.exec op).2 :=
  execAll_append t ops [op]

/-- The table after a run, as far as one member goes: it is there once it has joined, its last
heartbeat is when it was last heard from, and it is held fairly at every time not before the run's. -/
structure Tracks (s d : ℤ) (id : NodeId) (ops : List MembershipOp) (t : Membership) : Prop where
  suspectTimeout : t.suspectTimeout = s
  deadTimeout : t.deadTimeout = d
  joined : (∃ op ∈ ops, op.Joins id) → ∃ m, t.members.lookup id = some m
  member : ∀ m, t.members.lookup id = some m →
    lastHeard id ops = some m.lastHeartbeat ∧ m.liveness ≠ .left ∧
      ∀ now, (∀ τ ∈ ops.filterMap time, τ ≤ now) → m.Fair s d now

/-- A call that leaves the member's record alone and does not hear from it. -/
theorem Tracks.of_lookup_eq {s d : ℤ} {id : NodeId} {ops : List MembershipOp} {op : MembershipOp}
    {t t' : Membership} (h : Tracks s d id ops t) (hs : t'.suspectTimeout = t.suspectTimeout)
    (hd : t'.deadTimeout = t.deadTimeout) (hlookup : t'.members.lookup id = t.members.lookup id)
    (hheard : op.heard id = none) (hjoins : ¬op.Joins id) : Tracks s d id (ops ++ [op]) t' where
  suspectTimeout := hs.trans h.suspectTimeout
  deadTimeout := hd.trans h.deadTimeout
  joined := by
    rintro ⟨op', hmem, hj⟩
    rw [hlookup]
    rcases List.mem_append.1 hmem with hmem | hmem
    · exact h.joined ⟨op', hmem, hj⟩
    · rw [List.mem_singleton.1 hmem] at hj
      exact absurd hj hjoins
  member m hm := by
    rw [hlookup] at hm
    rw [lastHeard_concat, hheard, Option.none_or]
    obtain ⟨hlast, hleft, hfair⟩ := h.member m hm
    refine ⟨hlast, hleft, fun now hnow => hfair now fun τ hτ => hnow τ ?_⟩
    rw [List.filterMap_append]
    exact List.mem_append_left _ hτ

/-- A call that hears from the member and makes it alive. -/
theorem Tracks.of_heard {s d now : ℤ} {id : NodeId} {ops : List MembershipOp} {op : MembershipOp}
    {t t' : Membership} {m : MemberState} (h : Tracks s d id ops t)
    (hs : t'.suspectTimeout = t.suspectTimeout) (hd : t'.deadTimeout = t.deadTimeout)
    (hlookup : t'.members.lookup id = some m) (hheard : op.heard id = some now)
    (hlast : m.lastHeartbeat = now) (halive : m.liveness = .alive) :
    Tracks s d id (ops ++ [op]) t' where
  suspectTimeout := hs.trans h.suspectTimeout
  deadTimeout := hd.trans h.deadTimeout
  joined _ := ⟨m, hlookup⟩
  member m' hm' := by
    obtain rfl := Option.some.inj (hlookup.symm.trans hm')
    rw [lastHeard_concat, hheard, Option.some_or, hlast]
    exact ⟨rfl, by simp [halive], fun now _ => MemberState.fair_of_alive halive⟩

/-- A tick at a time not before the run's leaves the member held fairly. -/
theorem Tracks.tick {s d now : ℤ} {id : NodeId} {ops : List MembershipOp} {t : Membership}
    (hd : 0 ≤ d) (h : Tracks s d id ops t) (hnow : ∀ τ ∈ ops.filterMap time, τ ≤ now) :
    Tracks s d id (ops ++ [.tick now]) (t.tick now).2 where
  suspectTimeout := h.suspectTimeout
  deadTimeout := h.deadTimeout
  joined := by
    rintro ⟨op, hmem, hj⟩
    rcases List.mem_append.1 hmem with hmem | hmem
    · obtain ⟨m, hm⟩ := h.joined ⟨op, hmem, hj⟩
      simp [Membership.tick, HashMap.lookup_mapVal, hm]
    · rw [List.mem_singleton.1 hmem] at hj
      exact hj.elim
  member m' hm' := by
    simp only [Membership.tick, HashMap.lookup_mapVal, h.suspectTimeout, h.deadTimeout] at hm'
    obtain ⟨m, hm, rfl⟩ := Option.map_eq_some_iff.1 hm'
    obtain ⟨hlast, hleft, hfair⟩ := h.member m hm
    have hage := (hfair now hnow).age_eq hd hleft
    rw [MemberState.tick_snd]
    obtain ⟨hleft', hfair'⟩ := MemberState.fair_verdict (m := { m with
      liveness := m.liveness.age s d (now - m.lastHeartbeat) }) hage
    refine ⟨by rwa [lastHeard_concat], hleft', fun now' hnow' => hfair'.mono (hnow' now ?_)⟩
    simp [MembershipOp.time]

/-- A call on the record of one member leaves the others alone. -/
theorem lookup_exec_of_ne {t : Membership} {id x : NodeId} (hne : id ≠ x) :
    (∀ node now, node.nodeId = x →
      (t.join node now).2.members.lookup id = t.members.lookup id) ∧
    (∀ now, (t.heartbeatAt x now).2.members.lookup id = t.members.lookup id) ∧
    (t.forceDead x).2.members.lookup id = t.members.lookup id ∧
    (t.leave x).2.members.lookup id = t.members.lookup id := by
  have hinsert : ∀ m, (t.members.insert x m).lookup id = t.members.lookup id := fun m =>
    AList.lookup_insert_ne hne
  refine ⟨?_, fun now => ?_, ?_, ?_⟩
  · rintro node now rfl
    unfold Membership.join
    dsimp only
    split
    · exact hinsert _
    · exact hinsert _
  · unfold heartbeatAt
    split
    · rfl
    · split
      · rfl
      · exact hinsert _
  · unfold forceDead
    split
    · rfl
    · split_ifs
      · rfl
      · exact hinsert _
  · unfold leave
    split
    · rfl
    · exact hinsert _

/-- The calls keep the timeouts. -/
theorem exec_timeouts (t : Membership) (op : MembershipOp) :
    (t.exec op).2.suspectTimeout = t.suspectTimeout ∧ (t.exec op).2.deadTimeout = t.deadTimeout := by
  cases op with
  | join node now =>
    simp only [exec, Membership.join]
    split <;> exact ⟨rfl, rfl⟩
  | heartbeatAt x now =>
    simp only [exec, heartbeatAt]
    split
    · exact ⟨rfl, rfl⟩
    · split_ifs <;> exact ⟨rfl, rfl⟩
  | forceDead x =>
    simp only [exec, forceDead]
    split
    · exact ⟨rfl, rfl⟩
    · split_ifs <;> exact ⟨rfl, rfl⟩
  | leave x =>
    simp only [exec, leave]
    split <;> exact ⟨rfl, rfl⟩
  | tick now => exact ⟨rfl, rfl⟩
  | reap => exact ⟨rfl, rfl⟩

/-- A member is alive when it joins. -/
theorem lookup_join_self (t : Membership) (node : FabricNode) (now : ℤ) :
    ∃ m, (t.join node now).2.members.lookup node.nodeId = some m ∧ m.lastHeartbeat = now ∧
      m.liveness = .alive := by
  unfold Membership.join
  dsimp only
  split
  · exact ⟨_, AList.lookup_insert _, rfl, rfl⟩
  · exact ⟨_, AList.lookup_insert _, rfl, rfl⟩

/-- A member that has not left is alive after its heartbeat. -/
theorem lookup_heartbeatAt_self {t : Membership} {id : NodeId} {m : MemberState} (now : ℤ)
    (hm : t.members.lookup id = some m) (hleft : m.liveness ≠ .left) :
    (t.heartbeatAt id now).2.members.lookup id =
      some { m with lastHeartbeat := now, liveness := .alive } := by
  simp only [heartbeatAt, hm, if_neg hleft]
  exact AList.lookup_insert _

/-- **One call.** -/
theorem Tracks.exec {s d : ℤ} {id : NodeId} {ops : List MembershipOp} {op : MembershipOp}
    {t : Membership} (hd : 0 ≤ d) (h : Tracks s d id ops t) (hspares : op.Spares id)
    (htime : ∀ τ ∈ ops.filterMap time, ∀ now, op.time = some now → τ ≤ now) :
    Tracks s d id (ops ++ [op]) (t.exec op).2 := by
  obtain ⟨hst, hdt⟩ := t.exec_timeouts op
  cases op with
  | join node now =>
    by_cases hid : node.nodeId = id
    · subst hid
      obtain ⟨m, hm, hlast, halive⟩ := t.lookup_join_self node now
      exact h.of_heard hst hdt hm (if_pos rfl) hlast halive
    · exact h.of_lookup_eq hst hdt ((lookup_exec_of_ne (Ne.symm hid)).1 node now rfl) (if_neg hid) hid
  | heartbeatAt x now =>
    by_cases hid : x = id
    · subst hid
      cases hm : t.members.lookup x with
      | none =>
        -- a heartbeat of somebody who has not joined is dropped
        have hsame : (t.exec (.heartbeatAt x now)).2 = t := by simp [Membership.exec, heartbeatAt, hm]
        rw [hsame]
        refine ⟨h.suspectTimeout, h.deadTimeout, ?_, fun m hm' => ?_⟩
        · rintro ⟨op, hmem, hj⟩
          rcases List.mem_append.1 hmem with hmem | hmem
          · exact h.joined ⟨op, hmem, hj⟩
          · rw [List.mem_singleton.1 hmem] at hj
            exact hj.elim
        · rw [hm] at hm'
          cases hm'
      | some m =>
        have hleft := (h.member m hm).2.1
        exact h.of_heard hst hdt (lookup_heartbeatAt_self now hm hleft) (if_pos rfl) rfl rfl
    · exact h.of_lookup_eq hst hdt ((lookup_exec_of_ne (Ne.symm hid)).2.1 now) (if_neg hid) not_false
  | forceDead x =>
    exact h.of_lookup_eq hst hdt (lookup_exec_of_ne (Ne.symm hspares)).2.2.1 rfl not_false
  | leave x =>
    exact h.of_lookup_eq hst hdt (lookup_exec_of_ne (Ne.symm hspares)).2.2.2 rfl not_false
  | tick now => exact h.tick hd fun τ hτ => htime τ hτ now rfl
  | reap => exact hspares.elim

/-- **A run.** -/
theorem tracks_execAll {self : NodeId} {s d : ℤ} (hd : 0 ≤ d) {id : NodeId}
    {ops : List MembershipOp} (hspares : ∀ op ∈ ops, op.Spares id) (hops : Chronological ops) :
    Tracks s d id ops ((withTimeouts self s d).execAll ops).2 := by
  induction ops using List.reverseRecOn with
  | nil => exact ⟨rfl, rfl, by simp, by simp [execAll, withTimeouts]⟩
  | append_singleton ops op ih =>
    obtain ⟨hpre, -, hle⟩ := chronological_append.1 hops
    rw [execAll_concat]
    refine (ih (fun o ho => hspares o (List.mem_append_left _ ho)) hpre).exec hd
      (hspares op (by simp)) fun τ hτ now hnow => hle τ hτ now ?_
    simp [hnow]

/-- Of two ticks in a row, the later one alone has the same effect. -/
theorem tick_tick (t : Membership) {now now' : ℤ} (hle : now ≤ now') :
    ((t.tick now).2.tick now').2 = (t.tick now').2 := by
  have hentries : HashMap.mapVal (fun id m => (m.tick t.suspectTimeout t.deadTimeout now' id).2)
      (HashMap.mapVal (fun id m => (m.tick t.suspectTimeout t.deadTimeout now id).2) t.members) =
        HashMap.mapVal (fun id m => (m.tick t.suspectTimeout t.deadTimeout now' id).2) t.members := by
    refine AList.ext ?_
    simp only [HashMap.mapVal, List.map_map]
    refine List.map_congr_left fun e _ => ?_
    simp only [Function.comp_apply, Sigma.map, id_eq, MemberState.tick_tick hle]
  simp only [tick, hentries]

/-- A sequence of ticks has the effect of its last one. -/
theorem execAll_ticks (t : Membership) {ticks : List ℤ} {now : ℤ}
    (hticks : (ticks ++ [now]).Pairwise (· ≤ ·)) :
    (t.execAll ((ticks ++ [now]).map .tick)).2 = (t.tick now).2 := by
  induction ticks generalizing t with
  | nil => rfl
  | cons τ ticks ih =>
    obtain ⟨hle, hrest⟩ := List.pairwise_cons.1 hticks
    change ((t.tick τ).2.execAll ((ticks ++ [now]).map .tick)).2 = _
    rw [ih _ hrest, t.tick_tick (hle now (by simp))]

/-- **Detector accuracy.** For every run of calls whose times do not go back, with timeouts that are
not negative: right after a tick, every member that nobody has marked as left or declared dead has
the liveness that the time since it was last heard from deserves, and a sequence of ticks has the
same effect as its last one. -/
theorem tick_memoryless (self : NodeId) (s d : ℤ) (hd : 0 ≤ d) (ops : List MembershipOp)
    (ticks : List ℤ) (now : ℤ) (hops : Chronological (ops ++ (ticks ++ [now]).map .tick)) :
    (∀ id, (∀ op ∈ ops, op.Spares id) → (∃ op ∈ ops, op.Joins id) →
      ∃ last, lastHeard id ops = some last ∧
        ((withTimeouts self s d).execAll (ops ++ (ticks ++ [now]).map .tick)).2.liveness id =
          some (verdict s d (now - last))) ∧
    ((withTimeouts self s d).execAll (ops ++ (ticks ++ [now]).map .tick)).2 =
      ((withTimeouts self s d).execAll (ops ++ [.tick now])).2 := by
  obtain ⟨hpre, hticks, hle⟩ := chronological_append.1 hops
  have hlast : ((withTimeouts self s d).execAll (ops ++ (ticks ++ [now]).map .tick)).2 =
      ((withTimeouts self s d).execAll (ops ++ [.tick now])).2 := by
    rw [execAll_append, execAll_append, execAll_ticks]
    · rfl
    · simpa [Chronological, List.filterMap_map, Function.comp_def, MembershipOp.time] using hticks
  refine ⟨fun id hspares hjoins => ?_, hlast⟩
  have htracks : Tracks s d id ops ((withTimeouts self s d).execAll ops).2 :=
    tracks_execAll hd hspares hpre
  obtain ⟨m, hm⟩ := htracks.joined hjoins
  obtain ⟨hheard, hleft, hfair⟩ := htracks.member m hm
  refine ⟨m.lastHeartbeat, hheard, ?_⟩
  have hnow : ∀ τ ∈ ops.filterMap time, τ ≤ now := fun τ hτ => hle τ hτ now (by
    simp [MembershipOp.time])
  rw [hlast, execAll_concat]
  change (((withTimeouts self s d).execAll ops).2.tick now).2.liveness id = _
  rw [liveness_tick, hm, Option.map_some, MemberState.tick_snd, htracks.suspectTimeout,
    htracks.deadTimeout, (hfair now hnow).age_eq hd hleft]

/-- A member joins, is suspected, sends a heartbeat and falls silent; another one is declared dead. -/
def silentRun : List MembershipOp :=
  [.join (.new ⟨"n1"⟩ [] []) 0, .join (.new ⟨"n2"⟩ [] []) 0, .tick 6000, .heartbeatAt ⟨"n1"⟩ 7000,
    .forceDead ⟨"n2"⟩]

theorem tick_memoryless_silentRun :
    ∃ last, lastHeard ⟨"n1"⟩ silentRun = some last ∧ last = 7000 ∧
      ((withTimeouts ⟨"n0"⟩ 5000 5000).execAll
        (silentRun ++ [(8000 : ℤ), 13000].map .tick)).2.liveness ⟨"n1"⟩ = some .suspect := by
  have hops : Chronological (silentRun ++ ([(8000 : ℤ)] ++ [13000]).map .tick) := by decide
  obtain ⟨last, hlast, hlive⟩ := (tick_memoryless ⟨"n0"⟩ 5000 5000 (by decide) silentRun [8000] 13000
    hops).1 ⟨"n1"⟩ (by simp [silentRun, Spares]) ⟨_, List.mem_cons_self, rfl⟩
  have h7000 : last = 7000 := Option.some.inj (hlast.symm.trans (by decide))
  subst h7000
  exact ⟨7000, hlast, rfl, hlive⟩

end Membership

end OCF.Fabric
