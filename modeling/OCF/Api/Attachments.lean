import OCF.Api.Controller
import OCF.Foundations.Run

/-!
# Addresses of attached workloads

The binding of a workload to an address lives in two places, the attachment map and the allocator
of the subnet, and an attachment updates them in several steps: release the prior address, allocate
a new one, record it. `AddressInv` ties the two together. A detach is the release half
(`AddressInv.release`), an attachment is a release followed by an allocation
(`AddressInv.allocate`).

The halves can come apart: the allocation may fail after the release. An attachment therefore keeps
the invariant when a workload that moves to another subnet finds a free address there
(`MoveFinds`), and `attachments_hold_addresses_iff` says that a run keeps the addresses sound
exactly when its attachments all do. `failed_move_shares_address` is a run in which one does not.
-/

namespace OCF.Api

open OCF.Network OCF.Runtime OCF.Store

/-! ## The invariant -/

/-- The allocator holds the address `n` for a workload. -/
structure Holds (a : SubnetAllocator) (n : UInt32) : Prop where
  used : n ∈ a.used
  first : a.firstHost ≤ n
  last : n ≤ a.lastHost
  gateway : checkedHost a.base a.prefixLen 1 ≠ some n

/-- The allocators of a network hold the address of every recorded attachment, for one workload
each. -/
structure AddressInv (n : NetworkController) (atts : Id → Option NetworkAttachment) : Prop where
  subnet : ∀ id, id ∈ n.ipam → id ∈ n.subnets
  gateway : ∀ id a gw, n.ipam.lookup id = some a → checkedHost a.base a.prefixLen 1 = some gw →
    gw ∈ a.used
  bound : ∀ w att, atts w = some att → ∃ a m, n.ipam.lookup att.subnetId = some a ∧
    att.address = some (formatIpv4 m) ∧ Holds a m
  unique : ∀ w w' att att', atts w = some att → atts w' = some att' →
    att.subnetId = att'.subnetId → att.address = att'.address → w = w'

namespace AddressInv

variable {n n' : NetworkController} {atts atts' : Id → Option NetworkAttachment}

/-- The invariant depends on the allocators and on which subnets there are. -/
theorem congr (h : AddressInv n atts) (hi : n'.ipam = n.ipam)
    (hs : ∀ id, id ∈ n.subnets → id ∈ n'.subnets) : AddressInv n' atts where
  subnet id hid := hs id (h.subnet id (hi ▸ hid))
  gateway id a gw ha := h.gateway id a gw (hi ▸ ha)
  bound w att hw := hi ▸ h.bound w att hw
  unique := h.unique

/-- A new subnet gets an allocator that holds its gateway; no attachment names it yet. -/
theorem createSubnet (h : AddressInv n atts) (subnet : Subnet) :
    AddressInv (n.createSubnet subnet).2 atts := by
  obtain he | ⟨-, hnew, -, hsub, hipam, -⟩ := n.createSubnet_cases subnet
  · rwa [he]
  have hgrow : ∀ id, id ∈ n.subnets → id ∈ (n.createSubnet subnet).2.subnets := fun id hid => by
    rw [hsub, AList.mem_insert]
    exact .inr hid
  obtain hi | ⟨a, hnewa, hi⟩ := hipam
  · exact h.congr hi hgrow
  have hfresh : subnet.metadata.id ∉ n.ipam := fun hm => hnew (h.subnet _ hm)
  refine ⟨fun id hid => ?_, fun id b gw hb hgw => ?_, fun w att hw => ?_, h.unique⟩
  · rw [hi, AList.mem_insert] at hid
    rw [hsub, AList.mem_insert]
    exact hid.imp_right (h.subnet id)
  · rw [hi] at hb
    obtain ⟨-, rfl⟩ | ⟨-, hb⟩ := HashMap.lookup_insert_eq_some.1 hb
    · unfold SubnetAllocator.new at hnewa
      split at hnewa
      · simp at hnewa
      · obtain rfl := Except.ok.inj hnewa
        dsimp only at hgw ⊢
        rw [hgw]
        exact Finset.mem_singleton_self gw
    · exact h.gateway id b gw hb hgw
  · obtain ⟨b, m, hb, haddr, hm⟩ := h.bound w att hw
    refine ⟨b, m, ?_, haddr, hm⟩
    rw [hi, HashMap.lookup_insert_eq, if_neg, hb]
    exact fun he => hfresh (HashMap.mem_iff_exists_lookup.2 ⟨b, he ▸ hb⟩)

/-- Forgetting an attachment and releasing its address. -/
theorem release (h : AddressInv n atts) {w : Id} {att : NetworkAttachment}
    (hw : atts w = some att) :
    AddressInv (n.releaseAddress att.subnetId (att.address.getD ""))
      (Function.update atts w none) := by
  obtain ⟨a, m, ha, haddr, hm⟩ := h.bound w att hw
  rw [haddr, Option.getD_some]
  have hlook := n.lookup_ipam_release_host ha hm.gateway
  have hother : ∀ x y, Function.update atts w none x = some y → atts x = some y ∧ x ≠ w :=
    fun x y hx => by
      rw [Function.update_apply] at hx
      split_ifs at hx with hxw
      exact ⟨hx, hxw⟩
  refine ⟨fun id hid => ?_, NetworkController.GatewaysInUse.release n h.gateway ha hm.gateway,
    fun x y hx => ?_, fun x x' y y' hx hx' => ?_⟩
  · rw [NetworkController.releaseAddress_subnets]
    obtain ⟨b, hb⟩ := HashMap.mem_iff_exists_lookup.1 hid
    rw [hlook] at hb
    split_ifs at hb with hid
    · exact h.subnet id (HashMap.mem_iff_exists_lookup.2 ⟨a, hid ▸ ha⟩)
    · exact h.subnet id (HashMap.mem_iff_exists_lookup.2 ⟨b, hb⟩)
  · -- another workload of the same subnet holds another address, which stays in use
    obtain ⟨hx, hxw⟩ := hother x y hx
    obtain ⟨b, k, hb, hyaddr, hk⟩ := h.bound x y hx
    rw [hlook]
    split_ifs with hid
    · rw [hid, ha] at hb
      obtain rfl := Option.some.inj hb
      have hne : k ≠ m := fun e =>
        hxw (h.unique x w y att hx hw hid (by rw [hyaddr, haddr, e]))
      exact ⟨_, k, rfl, hyaddr, Finset.mem_erase.2 ⟨hne, hk.used⟩, hk.first, hk.last, hk.gateway⟩
    · exact ⟨b, k, hb, hyaddr, hk⟩
  · exact h.unique x x' y y' (hother x y hx).1 (hother x' y' hx').1

/-- Allocating an address and recording it for a workload. -/
theorem allocate (h : AddressInv n atts) (w : Id) {s : Id} {a a' : SubnetAllocator} {addr : String}
    (ha : n.ipam.lookup s = some a) (halloc : a.allocate = .ok (addr, a')) (egress : Bool) :
    AddressInv { n with ipam := n.ipam.insert s a' }
      (Function.update atts w (some ⟨s, egress, some addr⟩)) := by
  obtain ⟨m, rfl, rfl, hfree, hlo, hhi, -⟩ := SubnetAllocator.allocate_ok halloc
  have hgw : checkedHost a.base a.prefixLen 1 ≠ some m := fun e => hfree (h.gateway s a m ha e)
  have hlook : ∀ x, (n.ipam.insert s { a with used := insert m a.used }).lookup x =
      if x = s then some { a with used := insert m a.used } else n.ipam.lookup x :=
    fun x => HashMap.lookup_insert_eq ..
  have hnew : ∀ x y, atts x = some y → y.subnetId = s → y.address ≠ some (formatIpv4 m) := by
    intro x y hx hy he
    obtain ⟨b, k, hb, hyaddr, hk⟩ := h.bound x y hx
    rw [hy, ha] at hb
    obtain rfl := Option.some.inj hb
    obtain rfl := formatIpv4_injective (Option.some.inj (hyaddr.symm.trans he))
    exact hfree hk.used
  refine ⟨fun id hid => ?_, NetworkController.GatewaysInUse.allocate n h.gateway ha, fun x y hx => ?_,
    fun x x' y y' hx hx' hs haddr => ?_⟩
  · rcases (AList.mem_insert _).1 hid with rfl | hid
    · exact h.subnet _ (HashMap.mem_iff_exists_lookup.2 ⟨a, ha⟩)
    · exact h.subnet id hid
  · rw [Function.update_apply] at hx
    rw [hlook]
    split_ifs at hx with hxw
    · obtain rfl := Option.some.inj hx
      exact ⟨_, m, if_pos rfl, rfl, Finset.mem_insert_self m a.used, hlo, hhi, hgw⟩
    · obtain ⟨b, k, hb, hyaddr, hk⟩ := h.bound x y hx
      split_ifs with hid
      · rw [hid, ha] at hb
        obtain rfl := Option.some.inj hb
        exact ⟨_, k, rfl, hyaddr, Finset.mem_insert_of_mem hk.used, hk.first, hk.last, hk.gateway⟩
      · exact ⟨b, k, hb, hyaddr, hk⟩
  · rw [Function.update_apply] at hx hx'
    split_ifs at hx hx' with h₁ h₂ h₂
    · rw [h₁, h₂]
    · obtain rfl := Option.some.inj hx
      exact absurd haddr.symm (hnew x' y' hx' hs.symm)
    · obtain rfl := Option.some.inj hx'
      exact absurd haddr (hnew x y hx hs)
    · exact h.unique x x' y y' hx hx' hs haddr

end AddressInv

/-! ## One call -/

namespace FabricController

/-- The invariant of a controller. -/
def AddressesHeld (c : FabricController) : Prop := AddressInv c.network (c.attachments.lookup ·)

/-- A workload that moves to another subnet finds a free address there. -/
def MoveFinds (c : FabricController) (w s : Id) : Prop :=
  ∀ att, c.attachments.lookup w = some att → s ∈ c.network.subnets → att.subnetId ≠ s →
    c.network.CanAllocate s

theorem moveFinds_of_detached {c : FabricController} {w : Id} (h : c.attachments.lookup w = none)
    (s : Id) : c.MoveFinds w s := fun att hatt => by
  rw [h] at hatt
  simp at hatt

theorem lookup_insert_fun (m : HashMap Id NetworkAttachment) (w : Id) (att : NetworkAttachment) :
    ((m.insert w att).lookup ·) = Function.update (m.lookup ·) w (some att) := by
  funext x
  rw [HashMap.lookup_insert_eq, Function.update_apply]

theorem lookup_erase_fun (m : HashMap Id NetworkAttachment) (w : Id) :
    ((m.erase w).lookup ·) = Function.update (m.lookup ·) w none := by
  funext x
  rw [HashMap.lookup_erase_eq, Function.update_apply]

variable {c : FabricController}

theorem AddressesHeld.releasePrior (h : c.AddressesHeld) (w : Id) :
    AddressInv (c.releasePrior w) (Function.update (c.attachments.lookup ·) w none) := by
  unfold FabricController.releasePrior
  cases hw : c.attachments.lookup w with
  | none =>
    rw [Function.update_eq_self_iff.2 hw.symm]
    exact h
  | some att => exact h.release hw

/-- Re-attaching to the same subnet always finds an address: the one just released. -/
theorem AddressesHeld.canAllocate_releasePrior (h : c.AddressesHeld) {w s : Id}
    {att : NetworkAttachment} (hw : c.attachments.lookup w = some att)
    (hmove : att.subnetId ≠ s → c.network.CanAllocate s) : (c.releasePrior w).CanAllocate s := by
  by_cases hs : att.subnetId = s
  · obtain ⟨a, m, ha, haddr, hm⟩ := h.bound w att hw
    refine ⟨a.release (formatIpv4 m), ?_, m, ?_⟩
    · rw [FabricController.releasePrior, hw]
      refine (NetworkController.lookup_ipam_releaseAddress ..).trans ?_
      rw [if_pos hs.symm, ha, haddr]
      rfl
    · rw [SubnetAllocator.release_formatIpv4, if_pos hm.gateway]
      exact ⟨hm.first, hm.last, Finset.notMem_erase m a.used⟩
  · exact (c.canAllocate_releasePrior_iff hw hs).2 (hmove hs)

theorem AddressesHeld.attachWorkload (h : c.AddressesHeld) {w s : Id} (hg : c.MoveFinds w s)
    (env : PersistEnv) (egress : Bool) : (c.attachWorkload env w s egress).2.AddressesHeld := by
  obtain ⟨-, he⟩ | ⟨hs, hcan, he⟩ | ⟨a, addr, a', -, ha, halloc, he⟩ :=
    c.attachWorkload_cases env w s egress
  · rwa [he]
  · -- the allocation fails only for a workload without an attachment, which released nothing
    cases hw : c.attachments.lookup w with
    | none =>
      have hprior : c.releasePrior w = c.network := by
        unfold FabricController.releasePrior
        rw [hw]
      rw [he, hprior]
      exact h
    | some att => exact absurd (h.canAllocate_releasePrior hw (hg att hw hs)) hcan
  · have hnew := (h.releasePrior w).allocate w ha halloc egress
    rw [Function.update_idem, ← lookup_insert_fun] at hnew
    rw [he]
    refine hnew.congr ?_ fun id hid => ?_
    · simp
    · simpa using hid

theorem AddressesHeld.detachWorkload (h : c.AddressesHeld) (env : PersistEnv) (w : Id) :
    (c.detachWorkload env w).AddressesHeld := by
  unfold FabricController.detachWorkload
  cases hw : c.attachments.lookup w with
  | none => exact h
  | some att =>
    have hrel := h.release hw
    rw [← lookup_erase_fun] at hrel
    refine hrel.congr ?_ fun id hid => ?_
    · simp
    · simpa using hid

/-- Calls that leave the attachments and the allocators alone. -/
theorem AddressesHeld.congr {c' : FabricController} (h : c.AddressesHeld)
    (ha : c'.attachments = c.attachments) (hi : c'.network.ipam = c.network.ipam)
    (hs : ∀ id, id ∈ c.network.subnets → id ∈ c'.network.subnets) : c'.AddressesHeld := by
  unfold AddressesHeld
  rw [ha]
  exact AddressInv.congr h hi hs

theorem AddressesHeld.setSubnetEgress (h : c.AddressesHeld) (env : PersistEnv) (s : Id)
    (mode : EgressMode) : (c.setSubnetEgress env s mode).2.AddressesHeld := by
  obtain ⟨hnet, hatt, -⟩ := c.setSubnetEgress_frame env s mode
  refine h.congr hatt ?_ fun id hid => ?_
  · rw [hnet]
    obtain he | ⟨t, -, he⟩ := c.network.setSubnetEgress_cases s mode (c.subnetEgressAllowed s) <;>
      rw [he]
    rfl
  · rw [hnet]
    obtain he | ⟨t, -, he⟩ := c.network.setSubnetEgress_cases s mode (c.subnetEgressAllowed s) <;>
      rw [he]
    · exact hid
    · exact (AList.mem_insert _).2 (.inr hid)

/-- The condition on a call: an attachment that moves a workload finds an address. -/
def AttachGuard (c : FabricController) : ControllerOp → Prop
  | .attachWorkload _ w s _ => c.MoveFinds w s
  | _ => True

/-- **Every call under the condition keeps the addresses held.** -/
theorem AddressesHeld.exec (h : c.AddressesHeld) {op : ControllerOp} (hg : c.AttachGuard op) :
    (c.exec op).AddressesHeld := by
  have same : ∀ {n' : NetworkController}, c.network.SameSubnets n' →
      AddressesHeld { c with network := n' } := fun hs =>
    h.congr rfl hs.2.1 fun _ hid => hs.1 ▸ hid
  cases op with
  | createVpc vpc => exact same (c.network.sameSubnets_createVpc vpc)
  | deleteVpc id => exact same (c.network.sameSubnets_deleteVpc id)
  | createSubnet subnet => exact AddressInv.createSubnet h subnet
  | addRoute route fanned => exact same (c.network.sameSubnets_addRoute route fanned)
  | applyPolicy policy fanned => exact same (c.network.sameSubnets_applyPolicy policy fanned)
  | deletePolicy id => exact same (c.network.sameSubnets_deletePolicy id)
  | attachWorkload env w s egress => exact h.attachWorkload hg env egress
  | detachWorkload env w => exact h.detachWorkload env w
  | setSubnetEgress env s mode => exact h.setSubnetEgress env s mode
  | _ => exact h.congr rfl rfl fun _ hid => hid

/-- No two workloads have the same address in the same subnet, and every recorded address is in use
in the allocator of its subnet. -/
def AddressesSound (c : FabricController) : Prop :=
  (∀ w w' att att', c.attachments.lookup w = some att → c.attachments.lookup w' = some att' →
    att.subnetId = att'.subnetId → att.address = att'.address → w = w') ∧
  ∀ w att addr, c.attachments.lookup w = some att → att.address = some addr →
    ∃ a n, c.network.ipam.lookup att.subnetId = some a ∧ parseIpv4 addr = some n ∧ n ∈ a.used

theorem AddressesHeld.sound (h : c.AddressesHeld) : c.AddressesSound := by
  refine ⟨h.unique, fun w att addr hw haddr => ?_⟩
  obtain ⟨a, n, ha, hn, hheld⟩ := h.bound w att hw
  obtain rfl := Option.some.inj (haddr.symm.trans hn)
  exact ⟨a, n, ha, parseIpv4_formatIpv4 n, hheld.used⟩

/-- An attachment that leaves the addresses sound meets the condition: otherwise the workload would
keep an address that was released. -/
theorem AddressesHeld.moveFinds (h : c.AddressesHeld) {env : PersistEnv} {w s : Id} {egress : Bool}
    (hsound : (c.attachWorkload env w s egress).2.AddressesSound) : c.MoveFinds w s := by
  intro att hw hs hne
  obtain ⟨hns, -⟩ | ⟨-, -, he⟩ | ⟨a, addr, a', -, ha, halloc, -⟩ :=
    c.attachWorkload_cases env w s egress
  · exact absurd hs hns
  · rw [he] at hsound
    obtain ⟨a, m, ha, haddr, hm⟩ := h.bound w att hw
    obtain ⟨a', n, ha', hn, hused⟩ := hsound.2 w att _ hw haddr
    obtain rfl := Option.some.inj ((parseIpv4_formatIpv4 m).symm.trans hn)
    have hrel : (c.releasePrior w).ipam.lookup att.subnetId = some (a.release (formatIpv4 m)) := by
      rw [FabricController.releasePrior, hw]
      refine (NetworkController.lookup_ipam_releaseAddress ..).trans ?_
      rw [if_pos rfl, ha, haddr]
      rfl
    obtain rfl := Option.some.inj (hrel.symm.trans ha')
    rw [SubnetAllocator.release_formatIpv4, if_pos hm.gateway] at hused
    exact absurd hused (Finset.notMem_erase m a.used)
  · exact (c.canAllocate_releasePrior_iff hw hne).1
      (NetworkController.canAllocate_of_allocate _ ha halloc)

theorem AddressesHeld.attachGuard (h : c.AddressesHeld) {op : ControllerOp}
    (hsound : (c.exec op).AddressesSound) : c.AttachGuard op := by
  cases op with
  | attachWorkload env w s egress => exact h.moveFinds hsound
  | _ => trivial

theorem addressesHeld_fresh (store : StateStore Record) : (fresh store).AddressesHeld where
  subnet id hid := by simp [fresh, NetworkController.new] at hid
  gateway id a gw ha := by simp [fresh, NetworkController.new] at ha
  bound w att hw := by simp [fresh] at hw
  unique w w' att att' hw := by simp [fresh] at hw

end FabricController

/-! ## Runs -/

open FabricController

/-- **Attached workloads hold distinct addresses.** In every state that a run of calls passes
through from an empty controller no two workloads have the same address in the same subnet and every
recorded address is in use in the allocator of its subnet, if and only if every attachment of the
run that moves a workload finds a free address. -/
theorem attachments_hold_addresses_iff (store : StateStore Record) (ops : List ControllerOp)
    (c : FabricController) (hrun : run execStep (fresh store) ops = some c) :
    (∀ n t, run execStep (fresh store) (ops.take n) = some t → t.AddressesSound) ↔
      Guarded execStep AttachGuard (fresh store) ops :=
  (Guarded.iff_forall_states (I := AddressesHeld) (fun _ h => h.sound)
    (fun _ _ _ h hg hs => Option.some.inj hs ▸ h.exec hg)
    (fun _ _ _ h hs hsound => h.attachGuard (Option.some.inj hs ▸ hsound))
    (addressesHeld_fresh store) hrun).symm

/-- Nothing runs, there are no disks, and every proposal is committed. -/
def quietEnv : PersistEnv := ⟨[], [], fun l => l, fun l => .refl l, fun _ => .committed⟩

def sampleVpc : Vpc := ⟨.named "vpc", "10.0.0.0/16", 1001⟩

/-- A subnet of the sample VPC. -/
def sampleSubnet (name cidr : String) (egress : EgressMode) : Subnet :=
  ⟨.named name, ⟨"vpc"⟩, cidr, "ns-" ++ name, egress⟩

/-- Two subnets with room; `a` moves from the first to the second and `b` takes its place. -/
def movingOps : List ControllerOp :=
  [.createVpc sampleVpc, .createSubnet (sampleSubnet "s1" "10.0.1.0/24" .isolated),
    .createSubnet (sampleSubnet "s2" "10.0.2.0/24" .isolated),
    .attachWorkload quietEnv ⟨"a"⟩ ⟨"s1"⟩ false, .attachWorkload quietEnv ⟨"a"⟩ ⟨"s2"⟩ false,
    .attachWorkload quietEnv ⟨"b"⟩ ⟨"s1"⟩ false]

/-- Moving finds an address in the second subnet, so the run is covered: `b` gets the address that
`a` gave up, and they do not share one. -/
theorem attachments_hold_addresses_iff_movingOps :
    ∃ c, run execStep (fresh .empty) movingOps = some c ∧
      c.attachments.lookup ⟨"b"⟩ = some ⟨⟨"s1"⟩, false, some "10.0.1.2"⟩ ∧
      ∀ n t, run execStep (fresh .empty) (movingOps.take n) = some t → t.AddressesSound := by
  have hg : Guarded execStep AttachGuard (fresh .empty) movingOps := by
    refine .cons trivial rfl (.cons trivial rfl (.cons trivial rfl (.cons ?_ rfl (.cons ?_ rfl
      (.cons ?_ rfl trivial)))))
    · exact moveFinds_of_detached rfl _
    · exact fun _ _ _ _ => ⟨_, rfl, 0x0A000202, by decide, by decide, by decide⟩
    · exact moveFinds_of_detached rfl _
  exact ⟨_, rfl, by decide, (attachments_hold_addresses_iff .empty movingOps _ rfl).2 hg⟩

/-- The second subnet has a CIDR that does not parse, so it has no allocator. -/
def failedMoveOps : List ControllerOp :=
  [.createVpc sampleVpc, .createSubnet (sampleSubnet "s1" "10.0.1.0/24" .isolated),
    .createSubnet (sampleSubnet "s2" "10.0.2.0" .isolated),
    .attachWorkload quietEnv ⟨"a"⟩ ⟨"s1"⟩ false, .attachWorkload quietEnv ⟨"a"⟩ ⟨"s2"⟩ false,
    .attachWorkload quietEnv ⟨"b"⟩ ⟨"s1"⟩ false]

/-- The move of `a` fails after its address was released; its attachment stays, and `b` is given
the same address. -/
theorem failed_move_shares_address :
    ∃ c, run execStep (fresh .empty) failedMoveOps = some c ∧
      c.attachments.lookup ⟨"a"⟩ = some ⟨⟨"s1"⟩, false, some "10.0.1.2"⟩ ∧
      c.attachments.lookup ⟨"b"⟩ = some ⟨⟨"s1"⟩, false, some "10.0.1.2"⟩ ∧ ¬c.AddressesSound := by
  refine ⟨_, rfl, by decide, by decide, fun h => ?_⟩
  exact absurd (h.1 ⟨"a"⟩ ⟨"b"⟩ ⟨⟨"s1"⟩, false, some "10.0.1.2"⟩ ⟨⟨"s1"⟩, false, some "10.0.1.2"⟩
    (by decide) (by decide) rfl rfl) (by decide)

end OCF.Api
