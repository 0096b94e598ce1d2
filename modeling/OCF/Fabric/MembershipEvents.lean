import OCF.Fabric.Membership

/-!
# The events of a membership table

The controller acts on the events that the calls on its membership table return, and not on the
table. This module compares the two. A call lists the events of a tick in the order of the hash map,
so a run (`Calls`) may list the events of each call in any order.

* `told` says what one call says about one member: nothing, and then the call leaves the member as it
  is or removes it, or one event, and then the member is afterwards what the event says.
* `events_tell_liveness` is the comparison over every run: the events of the run, recorded one after
  the other, give the liveness of every member of the table, and a call says of a member that changes
  just what it became.

A call that changes nothing says nothing, but for two that repeat themselves (`Repeats`): joining an
alive member and leaving twice.
-/

namespace OCF

/-- The values that a function of the entries of a map yields for one key. -/
theorem HashMap.filter_filterMap_pairs {K V β : Type*} [DecidableEq K] {f : K × V → Option β}
    (key : β → K) (hkey : ∀ k v b, f (k, v) = some b → key b = k) (m : HashMap K V) (k : K) :
    ((pairs m).filterMap f).filter (fun b => key b = k) =
      ((m.lookup k).bind fun v => f (k, v)).toList := by
  obtain ⟨entries, hnodup⟩ := m
  simp only [pairs, AList.lookup]
  induction entries with
  | nil => rfl
  | cons e entries ih =>
    obtain ⟨x, v⟩ := e
    have hrest := ih (List.nodupKeys_cons.1 hnodup).2
    rw [List.map_cons, List.filterMap_cons]
    by_cases hx : x = k
    · subst hx
      -- no other entry has the key
      have hnone : entries.dlookup x = none := List.dlookup_eq_none.2 (List.nodupKeys_cons.1 hnodup).1
      rw [hnone] at hrest
      rw [List.dlookup_cons_eq]
      cases hf : f (x, v) with
      | none => simpa [hf] using hrest
      | some b =>
        rw [List.filter_cons_of_pos (by simp [hkey x v b hf]), hrest]
        simp [hf]
    · rw [List.dlookup_cons_ne _ _ (Ne.symm hx)]
      cases hf : f (x, v) with
      | none => exact hrest
      | some b => rw [List.filter_cons_of_neg (by simp [hkey x v b hf, hx]), hrest]

namespace Fabric

namespace MembershipEvent

/-- The member that an event is about. -/
def subject : MembershipEvent → NodeId
  | joined id | recovered id | suspected id | died id | left id => id

/-- The liveness that an event says its member has. -/
def liveness : MembershipEvent → Liveness
  | joined _ | recovered _ => .alive
  | suspected _ => .suspect
  | died _ => .dead
  | left _ => .left

/-- Record an event in a table of what was last said of each member. -/
def record (view : NodeId → Option Liveness) (e : MembershipEvent) : NodeId → Option Liveness :=
  Function.update view e.subject (some e.liveness)

/-- The events about one member. -/
def about (id : NodeId) (events : List MembershipEvent) : List MembershipEvent :=
  events.filter fun e => e.subject = id

/-- What is recorded of a member is decided by the events about it. -/
theorem foldl_record_about (events : List MembershipEvent) (view : NodeId → Option Liveness)
    (id : NodeId) :
    events.foldl record view id = ((about id events).getLast?.map liveness).or (view id) := by
  induction events using List.reverseRecOn with
  | nil => rfl
  | append_singleton events e ih =>
    rw [List.foldl_concat, record, about, List.filter_append]
    by_cases he : e.subject = id
    · simp [he]
    · rw [Function.update_of_ne (Ne.symm he), ih, List.filter_cons_of_neg (by simp [he])]
      simp [about]

end MembershipEvent

open MembershipEvent (about record)

/-- A call on a membership table. -/
inductive MembershipOp
  | join (node : FabricNode) (now : ℤ)
  | heartbeatAt (id : NodeId) (now : ℤ)
  | forceDead (id : NodeId)
  | leave (id : NodeId)
  | tick (now : ℤ)
  | reap

namespace Membership

/-- The events a call returns and the table after it. Leaving returns an error for an unknown member,
and reaping returns ids, no events. -/
def exec (t : Membership) : MembershipOp → List MembershipEvent × Membership
  | .join node now => ([(t.join node now).1], (t.join node now).2)
  | .heartbeatAt id now => ((t.heartbeatAt id now).1.toList, (t.heartbeatAt id now).2)
  | .forceDead id => ((t.forceDead id).1.toList, (t.forceDead id).2)
  | .leave id => ((t.leave id).1.toOption.toList, (t.leave id).2)
  | .tick now => t.tick now
  | .reap => ([], t.reap.2)

/-- A call that may say again what the table has: an alive member joins, or one that has left
leaves. -/
def Repeats (t : Membership) : MembershipOp → NodeId → Prop
  | .join node _, id => node.nodeId = id ∧ t.liveness id = some .alive
  | .leave x, id => x = id ∧ t.liveness id = some .left
  | _, _ => False

/-- What a call says of a member: nothing, when the member stays as it is or is removed, or one event
that says what the member is afterwards, which is new unless the call repeats itself. -/
inductive Tells (t : Membership) (op : MembershipOp) (id : NodeId) (events : List MembershipEvent) :
    Prop
  | nothing (hevents : about id events = [])
      (hliveness : (t.exec op).2.liveness id = t.liveness id ∨ (t.exec op).2.liveness id = none)
      (hrepeats : ¬t.Repeats op id)
  | event (e : MembershipEvent) (hevents : about id events = [e])
      (hliveness : (t.exec op).2.liveness id = some e.liveness)
      (hrepeats : t.liveness id = some e.liveness ↔ t.Repeats op id)
      (hagain : t.Repeats op id → e = .joined id ∨ e = .left id)

variable {t : Membership} {op : MembershipOp} {id x : NodeId} {events : List MembershipEvent}

theorem liveness_insert (t : Membership) (x id : NodeId) (m : MemberState) :
    liveness { t with members := t.members.insert x m } id =
      if id = x then some m.liveness else t.liveness id := by
  rw [liveness, HashMap.lookup_insert_eq]
  split_ifs <;> rfl

/-- A call that writes the record of one member and returns an event about it. -/
theorem Tells.of_insert {m : MemberState} {e : MembershipEvent} (he : e.subject = x)
    (hm : m.liveness = e.liveness)
    (hexec : t.exec op = ([e], { t with members := t.members.insert x m }))
    (hx : t.liveness x = some e.liveness ↔ t.Repeats op x)
    (hagain : t.Repeats op x → e = .joined x ∨ e = .left x) (hne : id ≠ x → ¬t.Repeats op id) :
    t.Tells op id (t.exec op).1 := by
  by_cases hid : id = x
  · subst hid
    refine .event e ?_ ?_ hx hagain
    · simp [hexec, about, he]
    · rw [hexec, liveness_insert, if_pos rfl, hm]
  · refine .nothing ?_ (.inl ?_) (hne hid)
    · simp [hexec, about, he, Ne.symm hid]
    · rw [hexec, liveness_insert, if_neg hid]

/-- A call that returns no event and changes no liveness. -/
theorem Tells.of_silent (hevents : (t.exec op).1 = [])
    (hliveness : (t.exec op).2.liveness id = t.liveness id) (hrepeats : ¬t.Repeats op id) :
    t.Tells op id (t.exec op).1 :=
  .nothing (by rw [hevents]; rfl) (.inl hliveness) hrepeats

theorem told_join (t : Membership) (node : FabricNode) (now : ℤ) (id : NodeId) :
    t.Tells (.join node now) id (t.exec (.join node now)).1 := by
  have hne : id ≠ node.nodeId → ¬t.Repeats (.join node now) id := fun hid h => hid h.1.symm
  cases hm : t.members.lookup node.nodeId with
  | none =>
    refine .of_insert (x := node.nodeId) (e := .joined node.nodeId)
      (m := ⟨node, .alive, now, 0, none⟩) rfl rfl ?_ ?_ (fun _ => .inl rfl) hne
    · simp only [exec, join, hm]
    · simp [Repeats, MembershipEvent.liveness]
  | some m =>
    refine .of_insert (x := node.nodeId) (m := { m with
        node := node
        liveness := .alive
        lastHeartbeat := now
        incarnation := m.incarnation + 1 })
      (e := if m.liveness ≠ .alive then .recovered node.nodeId else .joined node.nodeId)
      ?_ ?_ ?_ ?_ ?_ hne
    · split_ifs <;> rfl
    · split_ifs <;> rfl
    · simp only [exec, join, hm]
    · split_ifs <;> simp [Repeats, MembershipEvent.liveness]
    · rintro ⟨-, halive⟩
      have hm' : m.liveness = .alive := by simpa [liveness, hm] using halive
      exact .inl (if_neg (not_not_intro hm'))

theorem told_heartbeatAt (t : Membership) (x : NodeId) (now : ℤ) (id : NodeId) :
    t.Tells (.heartbeatAt x now) id (t.exec (.heartbeatAt x now)).1 := by
  cases hm : t.members.lookup x with
  | none => exact .of_silent (by simp [exec, heartbeatAt, hm]) (by simp [exec, heartbeatAt, hm]) not_false
  | some m =>
    have hx : t.liveness x = some m.liveness := by rw [liveness, hm, Option.map_some]
    by_cases hleft : m.liveness = .left
    · refine .of_silent ?_ ?_ not_false <;> simp [exec, heartbeatAt, hm, hleft]
    · by_cases halive : m.liveness = .alive
      · refine .of_silent ?_ ?_ not_false
        · simp [exec, heartbeatAt, hm, halive]
        · simp only [exec, heartbeatAt, hm, if_neg hleft, liveness_insert]
          split_ifs with hid
          · rw [hid, hx, halive]
          · rfl
      · refine .of_insert (x := x) (e := .recovered x)
          (m := { m with lastHeartbeat := now, liveness := .alive }) rfl rfl ?_ ?_ False.elim
          fun _ => not_false
        · simp [exec, heartbeatAt, hm, hleft, halive]
        · simp [hx, halive, Repeats, MembershipEvent.liveness]

theorem told_forceDead (t : Membership) (x id : NodeId) :
    t.Tells (.forceDead x) id (t.exec (.forceDead x)).1 := by
  cases hm : t.members.lookup x with
  | none => exact .of_silent (by simp [exec, forceDead, hm]) (by simp [exec, forceDead, hm]) not_false
  | some m =>
    cases hterminal : m.liveness.isTerminal with
    | true => refine .of_silent ?_ ?_ not_false <;> simp [exec, forceDead, hm, hterminal]
    | false =>
      refine .of_insert (x := x) (e := .died x) (m := { m with liveness := .dead }) rfl rfl ?_ ?_
        False.elim fun _ => not_false
      · simp [exec, forceDead, hm, hterminal]
      · have hdead : m.liveness ≠ .dead := by
          intro h
          simp [h, Liveness.isTerminal] at hterminal
        simp [liveness, hm, hdead, Repeats, MembershipEvent.liveness]

theorem told_leave (t : Membership) (x id : NodeId) :
    t.Tells (.leave x) id (t.exec (.leave x)).1 := by
  cases hm : t.members.lookup x with
  | none =>
    refine .of_silent ?_ ?_ ?_
    · simp [exec, leave, hm, Except.toOption]
    · simp [exec, leave, hm]
    · rintro ⟨rfl, h⟩
      simp [liveness, hm] at h
  | some m =>
    refine .of_insert (x := x) (e := .left x) (m := { m with liveness := .left }) rfl rfl ?_ ?_
      (fun _ => .inr rfl) ?_
    · simp [exec, leave, hm, Except.toOption]
    · simp [Repeats, MembershipEvent.liveness]
    · exact fun hid h => hid h.1.symm

/-- A tick returns an event for a member just when it changes the member's liveness. -/
theorem tick_cases (s d now : ℤ) (id : NodeId) (m : MemberState) :
    (m.tick s d now id).1 = none ∧ (m.tick s d now id).2.liveness = m.liveness ∨
      ∃ e, (m.tick s d now id).1 = some e ∧ e.subject = id ∧
        (m.tick s d now id).2.liveness = e.liveness ∧ m.liveness ≠ e.liveness := by
  unfold MemberState.tick
  dsimp only
  split_ifs with hterminal hdead hne hsuspect
  · exact .inl ⟨rfl, rfl⟩
  · exact .inr ⟨_, rfl, rfl, rfl, hne⟩
  · exact .inl ⟨rfl, rfl⟩
  · refine .inr ⟨_, rfl, rfl, rfl, ?_⟩
    rw [hsuspect.2]
    exact Liveness.noConfusion
  · exact .inl ⟨rfl, rfl⟩

theorem about_tick (t : Membership) (now : ℤ) (id : NodeId) :
    about id (t.tick now).1 =
      ((t.members.lookup id).bind fun m => (m.tick t.suspectTimeout t.deadTimeout now id).1).toList := by
  refine HashMap.filter_filterMap_pairs MembershipEvent.subject ?_ t.members id
  intro x m e he
  obtain ⟨hnone, -⟩ | ⟨e', he', hsubject, -⟩ := tick_cases t.suspectTimeout t.deadTimeout now x m
  · rw [hnone] at he
    cases he
  · rw [he'] at he
    rw [← Option.some.inj he, hsubject]

theorem told_tick (t : Membership) (now : ℤ) (id : NodeId) :
    t.Tells (.tick now) id (t.exec (.tick now)).1 := by
  have habout := t.about_tick now id
  have hafter := t.liveness_tick now id
  cases hm : t.members.lookup id with
  | none =>
    rw [hm] at habout hafter
    exact .nothing habout (.inr hafter) not_false
  | some m =>
    rw [hm] at habout hafter
    have hid : t.liveness id = some m.liveness := by rw [liveness, hm, Option.map_some]
    obtain ⟨hnone, hsame⟩ | ⟨e, he, -, hnew, hne⟩ :=
      tick_cases t.suspectTimeout t.deadTimeout now id m
    · rw [Option.bind_some, hnone] at habout
      rw [Option.map_some, hsame, ← hid] at hafter
      exact .nothing habout (.inl hafter) not_false
    · rw [Option.bind_some, he] at habout
      rw [Option.map_some, hnew] at hafter
      refine .event e habout hafter ?_ False.elim
      simp [hid, hne, Repeats]

theorem liveness_foldl_erase (ids : List NodeId) (members : HashMap NodeId MemberState)
    (id : NodeId) :
    (ids.foldl (fun ms id => ms.erase id) members).lookup id = members.lookup id ∨
      (ids.foldl (fun ms id => ms.erase id) members).lookup id = none := by
  induction ids generalizing members with
  | nil => exact .inl rfl
  | cons x ids ih =>
    rw [List.foldl_cons]
    have herase := HashMap.lookup_erase_eq members x id
    split_ifs at herase
    · obtain h | h := ih (members.erase x)
      · exact .inr (h.trans herase)
      · exact .inr h
    · rw [← herase]
      exact ih (members.erase x)

theorem told_reap (t : Membership) (id : NodeId) : t.Tells .reap id (t.exec .reap).1 := by
  refine .nothing rfl ?_ not_false
  obtain h | h := liveness_foldl_erase
    (((HashMap.pairs t.members).filter fun e => e.2.liveness.isTerminal).map Prod.fst) t.members id
  · exact .inl (congrArg (Option.map MemberState.liveness) h)
  · exact .inr (congrArg (Option.map MemberState.liveness) h)

/-- **What one call says of one member.** -/
theorem told (t : Membership) (op : MembershipOp) (id : NodeId) : t.Tells op id (t.exec op).1 := by
  cases op with
  | join node now => exact t.told_join node now id
  | heartbeatAt x now => exact t.told_heartbeatAt x now id
  | forceDead x => exact t.told_forceDead x id
  | leave x => exact t.told_leave x id
  | tick now => exact t.told_tick now id
  | reap => exact t.told_reap id

/-- The events of a call listed in another order say the same. -/
theorem Tells.perm (h : t.Tells op id (t.exec op).1) (hperm : events.Perm (t.exec op).1) :
    t.Tells op id events := by
  have habout : (about id events).Perm (about id (t.exec op).1) := hperm.filter _
  cases h with
  | nothing hevents hliveness hrepeats =>
    rw [hevents, List.perm_nil] at habout
    exact .nothing habout hliveness hrepeats
  | event e hevents hliveness hrepeats hagain =>
    rw [hevents, List.perm_singleton] at habout
    exact .event e habout hliveness hrepeats hagain

/-! ## Runs -/

/-- A run of calls: the events they return, those of each call in any order, and the table at the
end. -/
inductive Calls : Membership → List MembershipOp → List MembershipEvent → Membership → Prop
  | nil (t : Membership) : Calls t [] [] t
  | cons {t t' : Membership} {op : MembershipOp} {ops : List MembershipOp}
      {events log : List MembershipEvent} (hevents : events.Perm (t.exec op).1)
      (hrest : Calls (t.exec op).2 ops log t') : Calls t (op :: ops) (events ++ log) t'

/-- The calls of a list, with the events as the model lists them. -/
def execAll : Membership → List MembershipOp → List MembershipEvent × Membership
  | t, [] => ([], t)
  | t, op :: ops =>
    let (log, t') := execAll (t.exec op).2 ops
    ((t.exec op).1 ++ log, t')

theorem calls_execAll (t : Membership) (ops : List MembershipOp) :
    Calls t ops (t.execAll ops).1 (t.execAll ops).2 := by
  induction ops generalizing t with
  | nil => exact .nil t
  | cons op ops ih => exact .cons (.refl _) (ih _)

/-- What was recorded of the members of a table is their liveness. -/
def Recorded (view : NodeId → Option Liveness) (t : Membership) : Prop :=
  ∀ id l, t.liveness id = some l → view id = some l

theorem Recorded.exec {view : NodeId → Option Liveness} (h : Recorded view t)
    (hperm : events.Perm (t.exec op).1) : Recorded (events.foldl record view) (t.exec op).2 := by
  intro id l hl
  rw [MembershipEvent.foldl_record_about]
  cases (t.told op id).perm hperm with
  | nothing hevents hliveness =>
    rw [hevents]
    obtain hsame | hnone := hliveness
    · exact h id l (hsame.symm.trans hl)
    · rw [hnone] at hl
      cases hl
  | event e hevents hliveness =>
    rw [hevents]
    exact hliveness.symm.trans hl

theorem Recorded.calls {view : NodeId → Option Liveness} {ops : List MembershipOp}
    {log : List MembershipEvent} {t' : Membership} (hcalls : Calls t ops log t')
    (h : Recorded view t) : Recorded (log.foldl record view) t' := by
  induction hcalls generalizing view with
  | nil t => exact h
  | cons hevents hrest ih =>
    rw [List.foldl_append]
    exact ih (h.exec hevents)

/-- **The events tell the liveness of every member.** After every run of calls, at any times, the
recorded events give the liveness of each member of the table. The next call, whichever it is, says
of a member whose liveness it changes just what it became, in one event; of a member that it leaves
as it is, or removes, it says nothing, unless an alive member joins, or one that has left leaves,
again. -/
theorem events_tell_liveness {self : NodeId} {suspectTimeout deadTimeout : ℤ}
    {ops : List MembershipOp} {log : List MembershipEvent} {t : Membership}
    (h : Calls (withTimeouts self suspectTimeout deadTimeout) ops log t) :
    (∀ id l, t.liveness id = some l → log.foldl record (fun _ => none) id = some l) ∧
      ∀ op events, events.Perm (t.exec op).1 → ∀ id,
        (∀ l, (t.exec op).2.liveness id = some l → t.liveness id ≠ some l →
          ∃ e, about id events = [e] ∧ e.liveness = l) ∧
        ((t.exec op).2.liveness id = t.liveness id ∨ (t.exec op).2.liveness id = none →
          ¬t.Repeats op id → about id events = []) ∧
        (t.Repeats op id → ∃ e, about id events = [e] ∧ (e = .joined id ∨ e = .left id) ∧
          t.liveness id = some e.liveness ∧ (t.exec op).2.liveness id = some e.liveness) := by
  constructor
  · have hempty : Recorded (fun _ => none) (withTimeouts self suspectTimeout deadTimeout) := by
      intro id l hl
      simp [liveness, withTimeouts] at hl
    exact hempty.calls h
  · intro op events hperm id
    cases (t.told op id).perm hperm with
    | nothing hevents hliveness hrepeats =>
      refine ⟨fun l hl hne => ?_, fun _ _ => hevents, fun hr => absurd hr hrepeats⟩
      obtain hsame | hnone := hliveness
      · exact absurd (hsame.symm.trans hl) hne
      · rw [hnone] at hl
        cases hl
    | event e hevents hliveness hrepeats hagain =>
      refine ⟨fun l hl _ => ⟨e, hevents, Option.some.inj (hliveness.symm.trans hl)⟩,
        fun hor hr => ?_, fun hr => ⟨e, hevents, hagain hr, hrepeats.2 hr, hliveness⟩⟩
      -- the event would say what the member was before, so the call would repeat itself
      obtain hsame | hnone := hor
      · exact absurd (hrepeats.1 (hsame.symm.trans hliveness)) hr
      · rw [hnone] at hliveness
        cases hliveness

/-- A peer that joins, is suspected, comes back, is declared dead and is reaped, and then joins and
leaves. -/
def flappingPeer : List MembershipOp :=
  let peer := FabricNode.new ⟨"peer"⟩ [] []
  [.join peer 0, .tick 6000, .heartbeatAt ⟨"peer"⟩ 4000, .forceDead ⟨"peer"⟩, .reap, .join peer 3000,
    .leave ⟨"peer"⟩]

theorem events_tell_liveness_flappingPeer :
    ((new ⟨"self"⟩).execAll flappingPeer).1 =
      [.joined ⟨"peer"⟩, .suspected ⟨"peer"⟩, .recovered ⟨"peer"⟩, .died ⟨"peer"⟩, .joined ⟨"peer"⟩,
        .left ⟨"peer"⟩] ∧
      ((new ⟨"self"⟩).execAll flappingPeer).1.foldl record (fun _ => none) ⟨"peer"⟩ = some .left :=
  ⟨by decide +kernel, (events_tell_liveness (calls_execAll _ flappingPeer)).1 ⟨"peer"⟩ .left
    (by decide +kernel)⟩

end Membership

end Fabric

end OCF
