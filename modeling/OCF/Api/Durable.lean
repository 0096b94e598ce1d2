import OCF.Api.Restart

/-!
# Acknowledged changes

Attaching a workload, detaching it and setting the egress of a subnet persist the state last, and
return before they look at what became of that. A persist proposes one record after the other and
ends with the first proposal that fails, so what reaches the store is a first part of the proposals
(`written`), in which the changed record may be missing. Nothing is ever deleted from the store, so a
detachment does not reach it at all.

`acknowledged_durable_iff` says for every history and every pattern of failures when each call that
returned ok shows after a restart: `Reaches` asks for the changed record among the writes that were
applied, unless the store had it already, and for a detachment that nothing was stored.
-/

namespace OCF.Api

open OCF.Network OCF.Runtime OCF.Store FabricController

/-! ## The writes that are applied -/

/-- The proposals that are applied when the outcomes from an index on are as given: all before the
first one that fails, and that one too if it fails after it was applied. -/
def written {α : Type} (outcome : ℕ → PutOutcome) : ℕ → List α → List α
  | _, [] => []
  | i, p :: ps =>
    match outcome i with
    | .committed => p :: written outcome (i + 1) ps
    | .failed _ applied => if applied then [p] else []

theorem persistPuts_store (outcome : ℕ → PutOutcome) (i : ℕ) (ps : List (String × Record))
    (s : StateStore Record) :
    (persistPuts outcome i ps s).2 = (written outcome i ps).foldl putRecord s := by
  induction ps generalizing i s with
  | nil => rfl
  | cons p ps ih =>
    unfold persistPuts written
    cases outcome i with
    | committed => exact ih (i + 1) (putRecord s p)
    | failed e applied => cases applied <;> rfl

theorem mem_of_mem_written {α : Type} {outcome : ℕ → PutOutcome} {i : ℕ} {ps : List α} {p : α}
    (h : p ∈ written outcome i ps) : p ∈ ps := by
  induction ps generalizing i with
  | nil => cases h
  | cons q ps ih =>
    unfold written at h
    split at h
    · obtain rfl | h := List.mem_cons.1 h
      · exact List.mem_cons_self ..
      · exact List.mem_cons_of_mem _ (ih h)
    · split_ifs at h
      · rw [List.mem_singleton.1 h]
        exact List.mem_cons_self ..
      · cases h

namespace FabricController

variable {c : FabricController} {env : PersistEnv}

/-- A record reaches the store when the controller is persisted: it is written, or it is there. -/
def Stores (c : FabricController) (env : PersistEnv) (kind : Kind) (k : String) (r : Record) : Prop :=
  (k, r) ∈ written env.outcome 0 (c.proposals env) ∨ c.store.get kind.collection k = some r

/-- **What is stored under a live key after a persist**, wherever it stops. -/
theorem get_persist_iff_stores (env : PersistEnv) (h : c.WellKeyed) {kind : Kind} {k : String}
    {r : Record} (hl : c.live kind k = some r) :
    (c.persist env).2.store.get kind.collection k = some r ↔ c.Stores env kind k r := by
  have hstore : (c.persist env).2.store =
      (written env.outcome 0 (c.proposals env)).foldl putRecord c.store :=
    persistPuts_store env.outcome 0 (c.proposals env) c.store
  rw [hstore, Stores]
  obtain ⟨r', hr', hkind, hget⟩ | ⟨hne, hget⟩ :=
    get_foldl_putRecord (written env.outcome 0 (c.proposals env)) c.store kind k
  · have hlive := live_of_mem_proposals h (mem_of_mem_written hr') hkind
    obtain rfl := Option.some.inj (hlive.symm.trans hl)
    exact ⟨fun _ => .inl hr', fun _ => hget⟩
  · rw [hget]
    refine ⟨.inr, fun hor => hor.resolve_left fun hw => ?_⟩
    exact hne r hw (h.underKey hl).1

/-- What is stored under a key that is not live after a persist is what was stored before. -/
theorem get_persist_of_not_live (env : PersistEnv) (h : c.WellKeyed) {kind : Kind} {k : String}
    (hl : c.live kind k = none) :
    (c.persist env).2.store.get kind.collection k = c.store.get kind.collection k := by
  obtain ⟨hget, -⟩ | ⟨r, hlive, -⟩ := get_persist h env kind k
  · exact hget
  · rw [hl] at hlive
    cases hlive

/-! ## Acknowledged changes -/

/-- The controller that attaching a workload persists: an address is taken out of the pool, the
attachment is recorded and the subnet programmed. -/
def attaching (c : FabricController) (w s : Id) (att : NetworkAttachment) (a : SubnetAllocator) :
    FabricController :=
  { c with
    network := { c.releasePrior w with ipam := (c.releasePrior w).ipam.insert s a }
    attachments := c.attachments.insert w att }.refreshEgress s

/-- The controller that detaching a workload persists. -/
def detaching (c : FabricController) (w : Id) (att : NetworkAttachment) : FabricController :=
  { c with
    network := c.network.releaseAddress att.subnetId (att.address.getD "")
    attachments := c.attachments.erase w }.refreshEgress att.subnetId

/-- The restart of a node over the store that a controller leaves. -/
def afterRestart (c : FabricController) : FabricController := (fresh c.store).restore.2

/-- A call that returns ok shows after a restart: the attachment is the one that was returned, a
detached workload has none, and the subnet is the one that was returned. -/
def Durable (c : FabricController) : ControllerOp → Prop
  | .attachWorkload env w s egress => ∀ att, (c.attachWorkload env w s egress).1 = .ok att →
      (c.attachWorkload env w s egress).2.afterRestart.attachments.lookup w = some att
  | .detachWorkload env w => (c.detachWorkload env w).afterRestart.attachments.lookup w = none
  | .setSubnetEgress env s mode => ∀ subnet, (c.setSubnetEgress env s mode).1 = .ok subnet →
      (c.setSubnetEgress env s mode).2.afterRestart.network.subnets.lookup s = some subnet
  | _ => True

/-- The change of a call reaches the store: the attachment that gets an address and the subnet that
gets a mode are stored, and for a detached workload nothing is. -/
def Reaches (c : FabricController) : ControllerOp → Prop
  | .attachWorkload env w s egress => s ∈ c.network.subnets → ∀ a addr a',
      (c.releasePrior w).ipam.lookup s = some a → a.allocate = .ok (addr, a') →
      (c.attaching w s ⟨s, egress, some addr⟩ a').Stores env .attachment w.name
        (.attachment ⟨s, egress, some addr⟩)
  | .detachWorkload _ w => c.store.get "workload_networks" w.name = none
  | .setSubnetEgress env s mode => ∀ subnet, c.network.subnets.lookup s = some subnet →
      { c with network := (c.network.setSubnetEgress s mode (c.subnetEgressAllowed s)).2 }.Stores env
        .subnet s.name (.subnet { subnet with egress := mode })
  | _ => True

/-- An attachment that is refused returns an error; one that is accepted is persisted. -/
theorem attachWorkload_result (c : FabricController) (env : PersistEnv) (w s : Id) (egress : Bool) :
    (¬(s ∈ c.network.subnets ∧ (c.releasePrior w).CanAllocate s) ∧
      ∃ e, (c.attachWorkload env w s egress).1 = .error e) ∨
    ∃ a addr a', s ∈ c.network.subnets ∧ (c.releasePrior w).ipam.lookup s = some a ∧
      a.allocate = .ok (addr, a') ∧ c.attachWorkload env w s egress =
        (.ok ⟨s, egress, some addr⟩, ((c.attaching w s ⟨s, egress, some addr⟩ a').persist env).2) := by
  unfold attachWorkload NetworkController.getSubnet
  cases hs : c.network.subnets.lookup s with
  | none => exact .inl ⟨fun h => AList.lookup_eq_none.1 hs h.1, _, rfl⟩
  | some subnet =>
    have hmem : s ∈ c.network.subnets := HashMap.mem_iff_exists_lookup.2 ⟨subnet, hs⟩
    obtain ⟨hcan, e, he⟩ | ⟨a, addr, a', ha, halloc, he⟩ :=
      (c.releasePrior w).allocateAddress_cases s
    · exact .inl ⟨fun h => hcan h.2, e, by simp only [he]⟩
    · refine .inr ⟨a, addr, a', hmem, ha, halloc, ?_⟩
      simp only [he]
      rfl

theorem lookup_attachments_afterRestart (h : StoredWf c.store) {w : Id} {att : NetworkAttachment} :
    c.afterRestart.attachments.lookup w = some att ↔
      c.store.get "workload_networks" w.name = some (.attachment att) := by
  have hlive : (c.afterRestart.attachments.lookup w).map Record.attachment =
      c.store.get "workload_networks" w.name :=
    (live_restore h .attachment w.name).trans (Option.or_none ..)
  rw [← hlive]
  simp

theorem lookup_subnets_afterRestart (h : StoredWf c.store) {id : Id} {subnet : Subnet} :
    c.afterRestart.network.subnets.lookup id = some subnet ↔
      c.store.get "subnets" id.name = some (.subnet subnet) := by
  have hlive : (c.afterRestart.network.subnets.lookup id).map Record.subnet =
      c.store.get "subnets" id.name :=
    (live_restore h .subnet id.name).trans (Option.or_none ..)
  rw [← hlive]
  simp

/-- The attachment that is persisted is recorded. -/
theorem live_attaching (w s : Id) (att : NetworkAttachment) (a : SubnetAllocator) :
    (c.attaching w s att a).live .attachment w.name = some (.attachment att) := by
  simp [live, attaching]

theorem detachWorkload_eq {w : Id} {att : NetworkAttachment} (h : c.attachments.lookup w = some att)
    (env : PersistEnv) : c.detachWorkload env w = ((c.detaching w att).persist env).2 := by
  simp only [detachWorkload, h]
  rfl

theorem live_detaching (w : Id) (att : NetworkAttachment) :
    (c.detaching w att).live .attachment w.name = none := by
  simp [live, detaching]

/-- The keys of the controller that is persisted are those of the one that is left behind. -/
theorem WellKeyed.of_persist (h : (c.persist env).2.WellKeyed) : c.WellKeyed :=
  ⟨h.network, h.rbac, h.lbs⟩

theorem durable_attachWorkload_iff (h : Consistent c) (w s : Id) (egress : Bool) :
    c.Durable (.attachWorkload env w s egress) ↔ c.Reaches (.attachWorkload env w s egress) := by
  have hkeyed : (c.attachWorkload env w s egress).2.WellKeyed :=
    h.1.exec (.attachWorkload env w s egress)
  have hstored : StoredWf (c.attachWorkload env w s egress).2.store :=
    storedWf_exec h.2 h.1 (.attachWorkload env w s egress)
  dsimp only [Durable, Reaches]
  obtain ⟨hno, e, he⟩ | ⟨a, addr, a', hs, ha, halloc, he⟩ := c.attachWorkload_result env w s egress
  · constructor
    · intro _ hs a addr a' ha halloc
      exact absurd ⟨hs, (c.releasePrior w).canAllocate_of_allocate ha halloc⟩ hno
    · intro _ att hok
      rw [he] at hok
      cases hok
  · rw [he] at hkeyed hstored ⊢
    have hget := get_persist_iff_stores env hkeyed.of_persist
      (live_attaching w s ⟨s, egress, some addr⟩ a')
    have hiff := (lookup_attachments_afterRestart hstored).trans hget
    constructor
    · intro hdur _ b addr' b' hb hballoc
      obtain rfl := Option.some.inj (ha.symm.trans hb)
      obtain ⟨rfl, rfl⟩ := Prod.mk.inj (Except.ok.inj (halloc.symm.trans hballoc))
      exact hiff.1 (hdur _ rfl)
    · intro hreach att hok
      obtain rfl := Except.ok.inj hok
      exact hiff.2 (hreach hs a addr a' ha halloc)

theorem durable_setSubnetEgress_iff (h : Consistent c) (s : Id) (mode : EgressMode) :
    c.Durable (.setSubnetEgress env s mode) ↔ c.Reaches (.setSubnetEgress env s mode) := by
  have hkeyed : (c.setSubnetEgress env s mode).2.WellKeyed := h.1.exec (.setSubnetEgress env s mode)
  have hstored : StoredWf (c.setSubnetEgress env s mode).2.store :=
    storedWf_exec h.2 h.1 (.setSubnetEgress env s mode)
  dsimp only [Durable, Reaches]
  cases hs : c.network.subnets.lookup s with
  | none =>
    have he : (c.setSubnetEgress env s mode).1 = .error (.notFound ("subnet " ++ s.name)) := by
      simp [setSubnetEgress, NetworkController.setSubnetEgress, hs]
    simp [he]
  | some subnet =>
    have hset : c.network.setSubnetEgress s mode (c.subnetEgressAllowed s) =
        (.ok { subnet with egress := mode },
          (c.network.setSubnetEgress s mode (c.subnetEgressAllowed s)).2) := by
      simp [NetworkController.setSubnetEgress, hs]
    generalize hn : (c.network.setSubnetEgress s mode (c.subnetEgressAllowed s)).2 = n at hset ⊢
    have he : c.setSubnetEgress env s mode = (.ok { subnet with egress := mode },
        ({ c with network := n }.persist env).2) := by
      simp only [setSubnetEgress, hset]
    rw [he] at hkeyed hstored ⊢
    have hlook : n.subnets.lookup s = some { subnet with egress := mode } := by
      rw [← hn]
      simp [NetworkController.setSubnetEgress, hs, NetworkController.fanOutEgress]
    have hlive : live { c with network := n } .subnet s.name =
        some (.subnet { subnet with egress := mode }) :=
      congrArg (Option.map Record.subnet) hlook
    have hget := get_persist_iff_stores env hkeyed.of_persist hlive
    have hiff := (lookup_subnets_afterRestart hstored).trans hget
    constructor
    · intro hdur x hx
      obtain rfl := Option.some.inj hx
      exact hiff.1 (hdur _ rfl)
    · intro hreach x hok
      obtain rfl := Except.ok.inj hok
      exact hiff.2 (hreach subnet rfl)

theorem durable_detachWorkload_iff (h : Consistent c) (w : Id) :
    c.Durable (.detachWorkload env w) ↔ c.Reaches (.detachWorkload env w) := by
  have hkeyed : (c.detachWorkload env w).WellKeyed := h.1.exec (.detachWorkload env w)
  have hstored : StoredWf (c.detachWorkload env w).store :=
    storedWf_exec h.2 h.1 (.detachWorkload env w)
  -- the workload has no attachment any more, so nothing is written for it
  have hget : (c.detachWorkload env w).store.get "workload_networks" w.name =
      c.store.get "workload_networks" w.name := by
    cases ha : c.attachments.lookup w with
    | none => simp only [detachWorkload, ha]
    | some att =>
      rw [detachWorkload_eq ha] at hkeyed ⊢
      have hsame := get_persist_of_not_live env hkeyed.of_persist (live_detaching w att)
      exact hsame
  have hlive : ((c.detachWorkload env w).afterRestart.attachments.lookup w).map Record.attachment =
      (c.detachWorkload env w).store.get "workload_networks" w.name :=
    (live_restore hstored .attachment w.name).trans (Option.or_none ..)
  dsimp only [Durable, Reaches]
  rw [← hget, ← hlive, Option.map_eq_none_iff]

/-- **A call is durable if and only if its change reaches the store.** -/
theorem durable_iff_reaches (h : Consistent c) (op : ControllerOp) : c.Durable op ↔ c.Reaches op := by
  cases op with
  | attachWorkload env w s egress => exact durable_attachWorkload_iff h w s egress
  | detachWorkload env w => exact durable_detachWorkload_iff h w
  | setSubnetEgress env s mode => exact durable_setSubnetEgress_iff h s mode
  | _ => exact Iff.rfl

end FabricController

/-! ## Histories -/

/-- The change of a call reaches the store; a restart changes nothing. -/
def ReachesStore (c : FabricController) : NodeEvent → Prop
  | .call op => c.Reaches op
  | .restart => True

/-- **Acknowledged changes.** In a history of calls, with any pattern of failed proposals, and of
restarts, every attachment, detachment and change of egress that returned ok shows after a restart if
and only if the change of each reaches the store. -/
theorem acknowledged_durable_iff (events : List NodeEvent) :
    (∀ i t op, run nodeStep (fresh .empty) (events.take i) = some t →
      events[i]? = some (.call op) → t.Durable op) ↔
    Guarded nodeStep ReachesStore (fresh .empty) events := by
  have hconsistent : ∀ i t, run nodeStep (fresh .empty) (events.take i) = some t → Consistent t :=
    fun i t ht => run_invariant (I := Consistent) (fun _ _ _ h hs => consistent_step h hs)
      consistent_fresh ht
  rw [Guarded.iff_forall_take]
  constructor
  · intro h i t e ht he
    cases e with
    | restart => trivial
    | call op => exact (durable_iff_reaches (hconsistent i t ht) op).1 (h i t op ht he)
  · intro h i t op ht he
    exact (durable_iff_reaches (hconsistent i t ht) op).2 (h i t (.call op) ht he)

/-- A persist whose proposals are all refused, as on a node that is not the leader. -/
def followerEnv : PersistEnv :=
  { quietEnv with outcome := fun _ => .failed (.conflict "not leader; current leader is node 2") false }

/-- One workload is attached, and all of it is committed. -/
def attachedHistory : List NodeEvent :=
  [.call (.createVpc sampleVpc), .call (.createSubnet (sampleSubnet "s1" "10.0.1.0/24" .isolated)),
    .call (.attachWorkload quietEnv ⟨"a"⟩ ⟨"s1"⟩ false)]

/-- On a follower an attachment and a change of egress return ok and are gone after a restart; on the
leader, with every proposal committed, a detached workload is attached again. -/
theorem acknowledged_changes_are_lost :
    ∃ c, run nodeStep (fresh .empty) attachedHistory = some c ∧
      (c.attachWorkload followerEnv ⟨"b"⟩ ⟨"s1"⟩ false).1 = .ok ⟨⟨"s1"⟩, false, some "10.0.1.3"⟩ ∧
      (c.attachWorkload followerEnv ⟨"b"⟩ ⟨"s1"⟩ false).2.afterRestart.attachments.lookup ⟨"b"⟩ =
        none ∧
      (c.setSubnetEgress followerEnv ⟨"s1"⟩ .nat).1 =
        .ok (sampleSubnet "s1" "10.0.1.0/24" .nat) ∧
      ((c.setSubnetEgress followerEnv ⟨"s1"⟩ .nat).2.afterRestart.network.subnets.lookup
        ⟨"s1"⟩).map Subnet.egress = some .isolated ∧
      (c.detachWorkload quietEnv ⟨"a"⟩).afterRestart.attachments.lookup ⟨"a"⟩ =
        some ⟨⟨"s1"⟩, false, some "10.0.1.2"⟩ ∧
      ¬c.Durable (.attachWorkload followerEnv ⟨"b"⟩ ⟨"s1"⟩ false) ∧
      ¬c.Durable (.setSubnetEgress followerEnv ⟨"s1"⟩ .nat) ∧
      ¬c.Durable (.detachWorkload quietEnv ⟨"a"⟩) := by
  refine ⟨_, rfl, rfl, by decide +kernel, rfl, by decide +kernel, by decide +kernel, fun h => ?_,
    fun h => ?_, fun h => ?_⟩
  · have hb := h _ rfl
    revert hb
    decide +kernel
  · have hs := congrArg (Option.map Subnet.egress) (h _ rfl)
    revert hs
    decide +kernel
  · have ha : (FabricController.detachWorkload _ quietEnv ⟨"a"⟩).afterRestart.attachments.lookup
        ⟨"a"⟩ = none := h
    revert ha
    decide +kernel

end OCF.Api
