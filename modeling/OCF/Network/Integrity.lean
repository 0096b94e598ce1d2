import OCF.Foundations.Run
import OCF.Network.Controller

/-!
# Referential integrity

The resources of the controller refer to each other: a subnet to its VPC, a route to its subnet, a
policy to the VPC or subnet it is scoped to. Every operation that records a reference checks its
target, and deleting a VPC checks the subnets, but not the policies. `Integrity` is the property
that nothing refers to a resource that does not exist, and that a subnet whose CIDR parses has an
allocator.

The allocator of a subnet shifts by 32 bits when the prefix length is zero. Where arithmetic is
checked this ends `create_subnet`, after the subnet was recorded; whether it is checked is a
parameter of a step.

`integrity_iff` says which runs keep integrity in every state: those that delete no VPC with a
policy and without subnets, and, where arithmetic is checked, create no subnet of prefix length
zero.
-/

namespace OCF.Network

/-- A call of the controller. One that hands something to the backends carries what they return. -/
inductive NetOp
  | createVpc (vpc : Vpc)
  | deleteVpc (id : Id)
  | createSubnet (subnet : Subnet)
  | addRoute (route : Route) (fanned : Result Unit)
  | applyPolicy (policy : FirewallPolicy) (fanned : Result Unit)
  | deletePolicy (id : Id)

/-- The prefix length of a CIDR that parses is zero. -/
def PrefixZero (cidr : String) : Prop := (parseCidr cidr).map Prod.snd = some 0

instance (cidr : String) : Decidable (PrefixZero cidr) := inferInstanceAs (Decidable (_ = _))

namespace NetworkController

/-- The checks of `createSubnet` pass. -/
def Accepts (n : NetworkController) (subnet : Subnet) : Prop :=
  subnet.vpcId ∈ n.vpcs ∧ subnet.metadata.id ∉ n.subnets

instance (n : NetworkController) (subnet : Subnet) : Decidable (n.Accepts subnet) :=
  inferInstanceAs (Decidable (_ ∧ _))

/-- One call; a call that fails is a step too. -/
def step (checked : Bool) (n : NetworkController) : NetOp → Option NetworkController
  | .createVpc vpc => some (n.createVpc vpc).2
  | .deleteVpc id => some (n.deleteVpc id).2
  | .createSubnet subnet =>
    if checked ∧ n.Accepts subnet ∧ PrefixZero subnet.cidr then
      -- the allocator panics, with the subnet recorded
      some { n with subnets := n.subnets.insert subnet.metadata.id subnet }
    else some (n.createSubnet subnet).2
  | .addRoute route fanned => some (n.addRoute route fanned).2
  | .applyPolicy policy fanned => some (n.applyPolicy policy fanned).2
  | .deletePolicy id => some (n.deletePolicy id).2

/-- The target of a scope exists. -/
def HasTarget (n : NetworkController) : AclScope → Prop
  | .vpc id => id ∈ n.vpcs
  | .subnet id => id ∈ n.subnets

/-- **Referential integrity.** -/
structure Integrity (n : NetworkController) : Prop where
  subnets : ∀ k s, n.subnets.lookup k = some s → s.vpcId ∈ n.vpcs
  routes : ∀ k r, n.routes.lookup k = some r → r.subnetId ∈ n.subnets
  policies : ∀ k p, n.policies.lookup k = some p → n.HasTarget p.scope
  allocators : ∀ k s, n.subnets.lookup k = some s → (parseCidr s.cidr).isSome → k ∈ n.ipam

/-- What a call must not do: delete a VPC without subnets that a policy is scoped to or, where
arithmetic is checked, create a subnet of prefix length zero. -/
def Keeps (checked : Bool) (n : NetworkController) : NetOp → Prop
  | .deleteVpc id => (∃ s ∈ HashMap.values n.subnets, s.vpcId = id) ∨
      ∀ p ∈ HashMap.values n.policies, p.scope ≠ .vpc id
  | .createSubnet subnet => ¬(checked ∧ n.Accepts subnet ∧ PrefixZero subnet.cidr)
  | _ => True

instance (checked : Bool) (n : NetworkController) : ∀ op, Decidable (n.Keeps checked op)
  | .deleteVpc _ => inferInstanceAs (Decidable (_ ∨ _))
  | .createSubnet _ => inferInstanceAs (Decidable (¬_))
  | .createVpc _ | .addRoute _ _ | .applyPolicy _ _ | .deletePolicy _ => .isTrue trivial

theorem integrity_new : new.Integrity := by
  constructor <;> intro k x hx <;> cases hx

/-- More VPCs and subnets do no harm to a scope. -/
theorem HasTarget.mono {n n' : NetworkController} {scope : AclScope} (ht : n.HasTarget scope)
    (hvpcs : ∀ id ∈ n.vpcs, id ∈ n'.vpcs) (hsubnets : ∀ id ∈ n.subnets, id ∈ n'.subnets) :
    n'.HasTarget scope := by
  cases scope with
  | vpc id => exact hvpcs id ht
  | subnet id => exact hsubnets id ht

theorem hasTarget_of_checkScope {n : NetworkController} {scope : AclScope} {u : Unit}
    (h : n.checkScope scope = .ok u) : n.HasTarget scope := by
  cases scope with
  | vpc id =>
    by_contra hid
    simp only [checkScope, if_neg (show id ∉ n.vpcs from hid)] at h
    cases h
  | subnet id =>
    by_contra hid
    simp only [checkScope, if_neg (show id ∉ n.subnets from hid)] at h
    cases h

/-- Every allocator belongs to a subnet. -/
def Owned (n : NetworkController) : Prop := ∀ k ∈ n.ipam, k ∈ n.subnets

theorem owned_new : new.Owned := by
  intro k hk
  cases hk

theorem Owned.congr {n n' : NetworkController} (h : n.Owned) (hsame : n.SameSubnets n') :
    n'.Owned := by
  intro k hk
  rw [hsame.1]
  rw [hsame.2.1] at hk
  exact h k hk

theorem Owned.step {checked : Bool} {n n' : NetworkController} {op : NetOp} (h : n.Owned)
    (hs : n.step checked op = some n') : n'.Owned := by
  cases op with
  | createVpc vpc => exact Option.some.inj hs ▸ h.congr (n.sameSubnets_createVpc vpc)
  | deleteVpc id => exact Option.some.inj hs ▸ h.congr (n.sameSubnets_deleteVpc id)
  | createSubnet subnet =>
    simp only [NetworkController.step] at hs
    split_ifs at hs
    · obtain rfl := Option.some.inj hs
      exact fun k hk => (AList.mem_insert _).2 (.inr (h k hk))
    · obtain rfl := Option.some.inj hs
      obtain hn | ⟨-, -, -, hsub, hipam, -⟩ := n.createSubnet_cases subnet
      · rw [hn]
        exact h
      · intro k hk
        rw [hsub, AList.mem_insert]
        obtain hipam | ⟨a, -, hipam⟩ := hipam
        · exact .inr (h k (hipam ▸ hk))
        · rw [hipam, AList.mem_insert] at hk
          exact hk.imp_right (h k)
  | addRoute route fanned =>
    exact Option.some.inj hs ▸ h.congr (n.sameSubnets_addRoute route fanned)
  | applyPolicy policy fanned =>
    exact Option.some.inj hs ▸ h.congr (n.sameSubnets_applyPolicy policy fanned)
  | deletePolicy id => exact Option.some.inj hs ▸ h.congr (n.sameSubnets_deletePolicy id)

theorem exists_step (checked : Bool) (n : NetworkController) (op : NetOp) :
    ∃ n', n.step checked op = some n' := by
  cases op <;> simp only [step]
  case createSubnet => split_ifs <;> exact ⟨_, rfl⟩
  all_goals exact ⟨_, rfl⟩

namespace Integrity

variable {n : NetworkController} (h : n.Integrity)
include h

/-! ## One call at a time -/

theorem createVpc (vpc : Vpc) : (n.createVpc vpc).2.Integrity := by
  unfold NetworkController.createVpc
  dsimp only
  split_ifs with hid
  · exact h
  · have hmono : ∀ id ∈ n.vpcs, id ∈ n.vpcs.insert vpc.metadata.id vpc := fun id hmem =>
      (AList.mem_insert _).2 (.inr hmem)
    exact ⟨fun k s hs => hmono _ (h.subnets k s hs), h.routes,
      fun k p hp => (h.policies k p hp).mono hmono fun _ hmem => hmem, h.allocators⟩

/-- A VPC that neither a subnet nor a policy refers to can go. -/
theorem deleteVpc {id : Id} (hp : (∃ s ∈ HashMap.values n.subnets, s.vpcId = id) ∨
    ∀ p ∈ HashMap.values n.policies, p.scope ≠ .vpc id) : (n.deleteVpc id).2.Integrity := by
  unfold NetworkController.deleteVpc
  split_ifs with hs hid
  · exact h
  · have hfree : ∀ s ∈ HashMap.values n.subnets, s.vpcId ≠ id := by simpa using hs
    have hp' := hp.resolve_left fun ⟨s, hmem, e⟩ => hfree s hmem e
    refine ⟨fun k s hk => ?_, h.routes, fun k p hk => ?_, h.allocators⟩
    · exact AList.mem_erase.2 ⟨HashMap.forall_lookup hfree hk, h.subnets k s hk⟩
    · have hne := HashMap.forall_lookup hp' hk
      have ht := h.policies k p hk
      cases hscope : p.scope with
      | vpc v =>
        rw [hscope] at hne ht
        exact AList.mem_erase.2 ⟨fun e => hne (e ▸ rfl), ht⟩
      | subnet v =>
        rw [hscope] at ht
        exact ht
  · exact h

/-- A subnet is recorded with its VPC and gets its allocator. -/
theorem createSubnet (subnet : Subnet) : (n.createSubnet subnet).2.Integrity := by
  by_cases hacc : n.Accepts subnet
  · rw [n.createSubnet_of_accepted hacc.1 hacc.2]
    have hmono : ∀ id ∈ n.subnets, id ∈ n.subnets.insert subnet.metadata.id subnet := fun id hmem =>
      (AList.mem_insert _).2 (.inr hmem)
    refine ⟨fun k s hs => ?_, fun k r hr => hmono _ (h.routes k r hr),
      fun k p hp => (h.policies k p hp).mono (fun _ hmem => hmem) hmono, fun k s hs hparse => ?_⟩
    · obtain ⟨-, rfl⟩ | ⟨-, hs⟩ := HashMap.lookup_insert_eq_some.1 hs
      · exact hacc.1
      · exact h.subnets k s hs
    · dsimp only at hs ⊢
      obtain ⟨hk, rfl⟩ | ⟨-, hs⟩ := HashMap.lookup_insert_eq_some.1 hs
      · obtain ⟨⟨base, len⟩, hcidr⟩ := Option.isSome_iff_exists.1 hparse
        rw [SubnetAllocator.new, hcidr]
        exact (AList.mem_insert _).2 (.inl hk)
      · have hk' := h.allocators k s hs hparse
        cases SubnetAllocator.new subnet.cidr with
        | ok a => exact (AList.mem_insert _).2 (.inr hk')
        | error e => exact hk'
  · obtain ⟨e, he⟩ := n.createSubnet_of_refused hacc
    rw [he]
    exact h

theorem addRoute (route : Route) (fanned : Result Unit) :
    (n.addRoute route fanned).2.Integrity := by
  unfold NetworkController.addRoute
  split_ifs with hs
  · refine ⟨h.subnets, fun k r hr => ?_, h.policies, h.allocators⟩
    obtain ⟨-, rfl⟩ | ⟨-, hr⟩ := HashMap.lookup_insert_eq_some.1 hr
    · exact hs
    · exact h.routes k r hr
  · exact h

theorem applyPolicy (policy : FirewallPolicy) (fanned : Result Unit) :
    (n.applyPolicy policy fanned).2.Integrity := by
  unfold NetworkController.applyPolicy
  cases hscope : n.checkScope policy.scope with
  | error e => exact h
  | ok u =>
    refine ⟨h.subnets, h.routes, fun k p hp => ?_, h.allocators⟩
    obtain ⟨-, rfl⟩ | ⟨-, hp⟩ := HashMap.lookup_insert_eq_some.1 hp
    · exact hasTarget_of_checkScope hscope
    · exact h.policies k p hp

theorem deletePolicy (id : Id) : (n.deletePolicy id).2.Integrity := by
  unfold NetworkController.deletePolicy
  split_ifs
  · refine ⟨h.subnets, h.routes, fun k p hp => ?_, h.allocators⟩
    dsimp only at hp
    rw [HashMap.lookup_erase_eq] at hp
    split_ifs at hp
    exact h.policies k p hp
  · exact h

theorem step {checked : Bool} {op : NetOp} {n' : NetworkController} (hop : n.Keeps checked op)
    (hs : n.step checked op = some n') : n'.Integrity := by
  cases op with
  | createVpc vpc =>
    obtain rfl := Option.some.inj hs
    exact h.createVpc vpc
  | deleteVpc id =>
    obtain rfl := Option.some.inj hs
    exact h.deleteVpc hop
  | createSubnet subnet =>
    simp only [NetworkController.step] at hs
    rw [if_neg hop] at hs
    obtain rfl := Option.some.inj hs
    exact h.createSubnet subnet
  | addRoute route fanned =>
    obtain rfl := Option.some.inj hs
    exact h.addRoute route fanned
  | applyPolicy policy fanned =>
    obtain rfl := Option.some.inj hs
    exact h.applyPolicy policy fanned
  | deletePolicy id =>
    obtain rfl := Option.some.inj hs
    exact h.deletePolicy id

/-- A call after which integrity still holds is one that keeps it. -/
theorem keeps {checked : Bool} {op : NetOp} {n' : NetworkController} (ho : n.Owned)
    (hs : n.step checked op = some n') (h' : n'.Integrity) : n.Keeps checked op := by
  cases op with
  | deleteVpc id =>
    obtain rfl := Option.some.inj hs
    by_cases hsub : ∃ s ∈ HashMap.values n.subnets, s.vpcId = id
    · exact .inl hsub
    · refine .inr fun p hp hscope => ?_
      obtain ⟨k, hk⟩ := HashMap.mem_values.1 hp
      have hany : ¬(HashMap.values n.subnets).any (fun s => s.vpcId = id) := by simpa using hsub
      have hid : id ∈ n.vpcs := by simpa [HasTarget, hscope] using h.policies k p hk
      unfold NetworkController.deleteVpc at h'
      rw [if_neg hany, if_pos hid] at h'
      have herased : id ∈ n.vpcs.erase id := by simpa [HasTarget, hscope] using h'.policies k p hk
      exact (AList.mem_erase.1 herased).1 rfl
  | createSubnet subnet =>
    rintro ⟨hchecked, hacc, hzero⟩
    simp only [NetworkController.step] at hs
    rw [if_pos ⟨hchecked, hacc, hzero⟩] at hs
    obtain rfl := Option.some.inj hs
    have hparse : (parseCidr subnet.cidr).isSome := by
      rw [← Option.isSome_map, hzero]
      rfl
    exact hacc.2 (ho _ (h'.allocators _ subnet (AList.lookup_insert _) hparse))
  | createVpc | addRoute | applyPolicy | deletePolicy => trivial

end Integrity

/-! ## Whole runs -/

/-- **Referential integrity.** It holds in every state of a run if and only if no call of the run
deletes a VPC that has no subnets and that a policy is scoped to and, where arithmetic is checked,
none creates a subnet of prefix length zero. -/
theorem integrity_iff (checked : Bool) (ops : List NetOp) :
    (∀ k n, run (step checked) new (ops.take k) = some n → n.Integrity) ↔
      Guarded (step checked) (Keeps checked) new ops := by
  obtain ⟨u, hu⟩ : ∃ u, run (step checked) new ops = some u :=
    exists_run (fun op _ n => exists_step checked n op) new
  exact (Guarded.iff_forall_states (I := fun n => n.Integrity ∧ n.Owned) (P := Integrity)
    (fun n h => h.1) (fun n op n' h hop hs => ⟨h.1.step hop hs, h.2.step hs⟩)
    (fun n op n' h hs h' => h.1.keeps h.2 hs h') ⟨integrity_new, owned_new⟩ hu).symm

def denyAll (scope : AclScope) : FirewallPolicy :=
  ⟨⟨"deny"⟩, scope, [⟨⟨"rule"⟩, .deny, .ingress, "any", "0.0.0.0/0", none⟩]⟩

/-- A VPC with a subnet and a policy is not deleted, and one with neither is. -/
def tidyRun : List NetOp :=
  [.createVpc prodVpc, .createSubnet prodSubnet,
    .applyPolicy (denyAll (.vpc prodVpc.metadata.id)) (.ok ()), .deleteVpc prodVpc.metadata.id,
    .createVpc ⟨.named "test", "10.1.0.0/16", 43⟩, .deleteVpc ⟨"test"⟩]

theorem integrity_tidyRun : ∃ n, run (step true) new tidyRun = some n ∧ n.Integrity := by
  have hkeeps : Guarded (step true) (Keeps true) new tidyRun := by decide +kernel
  exact ⟨_, rfl, (integrity_iff true tidyRun).2 hkeeps 6 _ rfl⟩

/-- After the VPC of a policy is deleted, the policy refers to nothing. -/
theorem not_integrity_policy_of_deleted_vpc :
    ¬∀ (checked : Bool) (ops : List NetOp) (k : ℕ) (n : NetworkController),
      run (step checked) new (ops.take k) = some n → n.Integrity := by
  intro h
  let policy := denyAll (.vpc prodVpc.metadata.id)
  have hint := h false
    [.createVpc prodVpc, .applyPolicy policy (.ok ()), .deleteVpc prodVpc.metadata.id] 3
    ⟨∅, ∅, ∅, (∅ : HashMap Id FirewallPolicy).insert policy.id policy, ∅, ∅⟩ rfl
  exact absurd (hint.policies policy.id policy rfl) (AList.notMem_empty _)

end NetworkController

end OCF.Network
