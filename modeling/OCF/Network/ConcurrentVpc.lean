import OCF.Foundations.Run
import OCF.Network.Controller
import Mathlib.Data.Finset.Card
import Mathlib.Logic.Relation

/-!
# Concurrent VPC and subnet calls

`create_vpc`, `create_subnet` and `delete_vpc` check first and act later, under locks that they take
one after the other. Each step of a call here holds one lock, and between two steps of a call any
other call can run. A call that is left alone does what the controller's operation does in one go
(`createVpc_alone`, `createSubnet_alone`, `deleteVpc_alone`).

`Serial` says what callers can rely on: a subnet refers to an existing VPC, and of the creates of
one id one succeeds and the others find the id taken. To be exact about ids that are deleted and
created again, it counts: the creates of a VPC that succeeded are as many as the deletes that did,
and one more while the VPC exists.

`serial_iff` says which interleavings are serial in every state: those in which what a call has
checked still holds when it acts. `serial_of_undisturbed` gives that condition in terms of the other
calls alone: none of them acts between a check and the act that relies on it.
-/

namespace OCF.Network

/-! ## Calls in steps -/

/-- How far a `create_vpc` has come. -/
inductive CreateVpcPhase
  | called
  | checked
  | done (r : Result Vpc)

/-- How far a `create_subnet` has come. -/
inductive CreateSubnetPhase
  | called
  | vpcFound
  | checked
  | recorded
  | done (r : Result Subnet)

/-- How far a `delete_vpc` has come. -/
inductive DeleteVpcPhase
  | called
  | checked
  | done (r : Result Unit)

/-- A call. -/
inductive VpcCall
  | createVpc (vpc : Vpc) (phase : CreateVpcPhase)
  | createSubnet (subnet : Subnet) (phase : CreateSubnetPhase)
  | deleteVpc (id : Id) (phase : DeleteVpcPhase)

namespace NetworkController

/-- The next step of a `create_vpc`. What follows the insertion takes no lock. -/
def stepCreateVpc (n : NetworkController) (vpc : Vpc) :
    CreateVpcPhase → Option (NetworkController × CreateVpcPhase)
  | .called =>
    let id := vpc.metadata.id
    if id ∈ n.vpcs then some (n, .done (.error (.alreadyExists ("vpc " ++ id.name))))
    else some (n, .checked)
  | .checked => some ({ n with vpcs := n.vpcs.insert vpc.metadata.id vpc }, .done (.ok vpc))
  | .done _ => none

/-- The next step of a `create_subnet`: find the VPC, check the id, record the subnet, stand up its
allocator. -/
def stepCreateSubnet (n : NetworkController) (subnet : Subnet) :
    CreateSubnetPhase → Option (NetworkController × CreateSubnetPhase)
  | .called =>
    if subnet.vpcId ∉ n.vpcs then
      some (n, .done (.error (.notFound ("vpc " ++ subnet.vpcId.name))))
    else some (n, .vpcFound)
  | .vpcFound =>
    let id := subnet.metadata.id
    if id ∈ n.subnets then some (n, .done (.error (.alreadyExists ("subnet " ++ id.name))))
    else some (n, .checked)
  | .checked => some ({ n with subnets := n.subnets.insert subnet.metadata.id subnet }, .recorded)
  | .recorded =>
    let n := match SubnetAllocator.new subnet.cidr with
      | .ok alloc => { n with ipam := n.ipam.insert subnet.metadata.id alloc }
      | .error _ => n
    some (if subnet.egress.providesEgress then n.fanOutEgress subnet [] else n, .done (.ok subnet))
  | .done _ => none

/-- The next step of a `delete_vpc`. -/
def stepDeleteVpc (n : NetworkController) (id : Id) :
    DeleteVpcPhase → Option (NetworkController × DeleteVpcPhase)
  | .called =>
    if (HashMap.values n.subnets).any fun s => s.vpcId = id then
      some (n, .done (.error (.conflict ("vpc " ++ id.name ++ " still has subnets"))))
    else some (n, .checked)
  | .checked =>
    if id ∈ n.vpcs then some ({ n with vpcs := n.vpcs.erase id }, .done (.ok ()))
    else some (n, .done (.error (.notFound ("vpc " ++ id.name))))
  | .done _ => none

/-- The next step of a call: the controller and the call afterwards. -/
def stepCall (n : NetworkController) : VpcCall → Option (NetworkController × VpcCall)
  | .createVpc vpc phase => (n.stepCreateVpc vpc phase).map fun r => (r.1, .createVpc vpc r.2)
  | .createSubnet subnet phase =>
    (n.stepCreateSubnet subnet phase).map fun r => (r.1, .createSubnet subnet r.2)
  | .deleteVpc id phase => (n.stepDeleteVpc id phase).map fun r => (r.1, .deleteVpc id r.2)

/-! A call that is left alone takes its steps to the end. -/

/-- One step of a call that is left alone. -/
def StepsTo (x y : NetworkController × VpcCall) : Prop := x.1.stepCall x.2 = some y

section Alone

open Relation

variable (n : NetworkController)

theorem createVpc_alone (vpc : Vpc) : ReflTransGen StepsTo (n, .createVpc vpc .called)
    ((n.createVpc vpc).2, .createVpc vpc (.done (n.createVpc vpc).1)) := by
  by_cases hid : vpc.metadata.id ∈ n.vpcs
  · refine .single ?_
    simp [StepsTo, stepCall, stepCreateVpc, createVpc, hid]
  · have hcheck : StepsTo (n, .createVpc vpc .called) (n, .createVpc vpc .checked) := by
      simp [StepsTo, stepCall, stepCreateVpc, hid]
    refine .head hcheck (.single ?_)
    simp [StepsTo, stepCall, stepCreateVpc, createVpc, hid]

theorem deleteVpc_alone (id : Id) : ReflTransGen StepsTo (n, .deleteVpc id .called)
    ((n.deleteVpc id).2, .deleteVpc id (.done (n.deleteVpc id).1)) := by
  by_cases hsub : (HashMap.values n.subnets).any fun s => s.vpcId = id
  · refine .single ?_
    simp [StepsTo, stepCall, stepDeleteVpc, deleteVpc, hsub]
  · have hcheck : StepsTo (n, .deleteVpc id .called) (n, .deleteVpc id .checked) := by
      simp [StepsTo, stepCall, stepDeleteVpc, hsub]
    refine .head hcheck (.single ?_)
    by_cases hid : id ∈ n.vpcs <;> simp [StepsTo, stepCall, stepDeleteVpc, deleteVpc, hsub, hid]

theorem createSubnet_alone (subnet : Subnet) :
    ReflTransGen StepsTo (n, .createSubnet subnet .called)
      ((n.createSubnet subnet).2, .createSubnet subnet (.done (n.createSubnet subnet).1)) := by
  by_cases hvpc : subnet.vpcId ∈ n.vpcs
  · have hfound : StepsTo (n, .createSubnet subnet .called)
        (n, .createSubnet subnet .vpcFound) := by
      simp [StepsTo, stepCall, stepCreateSubnet, hvpc]
    refine .head hfound ?_
    by_cases hid : subnet.metadata.id ∈ n.subnets
    · refine .single ?_
      simp [StepsTo, stepCall, stepCreateSubnet, createSubnet, hvpc, hid]
    · have hcheck : StepsTo (n, .createSubnet subnet .vpcFound)
          (n, .createSubnet subnet .checked) := by
        simp [StepsTo, stepCall, stepCreateSubnet, hid]
      have hrecord : StepsTo (n, .createSubnet subnet .checked)
          ({ n with subnets := n.subnets.insert subnet.metadata.id subnet },
            .createSubnet subnet .recorded) := rfl
      refine .head hcheck (.head hrecord (.single ?_))
      cases halloc : SubnetAllocator.new subnet.cidr <;>
        simp [StepsTo, stepCall, stepCreateSubnet, createSubnet, hvpc, hid, halloc]
  · refine .single ?_
    simp [StepsTo, stepCall, stepCreateSubnet, createSubnet, hvpc]

end Alone

end NetworkController

/-- A controller and the calls on it, those that have returned included. -/
structure VpcCalls where
  controller : NetworkController
  calls : HashMap ℕ VpcCall

/-- What can happen next: a call begins or goes on. -/
inductive VpcAction
  | createVpc (c : ℕ) (vpc : Vpc)
  | createSubnet (c : ℕ) (subnet : Subnet)
  | deleteVpc (c : ℕ) (id : Id)
  /-- The call takes its next step. -/
  | step (c : ℕ)

namespace VpcCalls

/-- No calls on a controller without any resource. -/
def new : VpcCalls := ⟨.new, ∅⟩

/-- A new call. -/
def call (s : VpcCalls) (c : ℕ) (k : VpcCall) : Option VpcCalls :=
  if c ∈ s.calls then none else some { s with calls := s.calls.insert c k }

/-- One action. -/
def step (s : VpcCalls) : VpcAction → Option VpcCalls
  | .createVpc c vpc => s.call c (.createVpc vpc .called)
  | .createSubnet c subnet => s.call c (.createSubnet subnet .called)
  | .deleteVpc c id => s.call c (.deleteVpc id .called)
  | .step c =>
    (s.calls.lookup c).bind fun k => (s.controller.stepCall k).map fun r =>
      ⟨r.1, s.calls.insert c r.2⟩

end VpcCalls

/-! ## What callers can rely on -/

namespace VpcCall

/-- A `create_vpc` of the id that has succeeded. -/
def wonVpc (x : Id) : VpcCall → Bool
  | .createVpc vpc (.done (.ok _)) => vpc.metadata.id = x
  | _ => false

/-- A `delete_vpc` of the id that has succeeded. -/
def deletedVpc (x : Id) : VpcCall → Bool
  | .deleteVpc id (.done (.ok _)) => id = x
  | _ => false

/-- A `create_subnet` of the id that has recorded its subnet. -/
def wonSubnet (k : Id) : VpcCall → Bool
  | .createSubnet subnet .recorded => subnet.metadata.id = k
  | .createSubnet subnet (.done (.ok _)) => subnet.metadata.id = k
  | _ => false

/-- What the call has checked, if it is about to act, is still so. -/
def StillTrue (n : NetworkController) : VpcCall → Prop
  | .createVpc vpc .checked => vpc.metadata.id ∉ n.vpcs
  | .createSubnet subnet .checked => subnet.vpcId ∈ n.vpcs ∧ subnet.metadata.id ∉ n.subnets
  | .deleteVpc id .checked => ∀ s ∈ HashMap.values n.subnets, s.vpcId ≠ id
  | _ => True

end VpcCall

/-- Of the calls that have returned one has succeeded, and the others found the id taken. -/
def OneWins {α : Type*} (returned : ℕ → Result α → Prop) (taken : Error) : Prop :=
  ∃ c, (∃ a, returned c (.ok a)) ∧ ∀ c' r, c' ≠ c → returned c' r → r = .error taken

namespace VpcCalls

open VpcCall (wonVpc deletedVpc wonSubnet)

variable (s : VpcCalls)

/-- The calls with a property. -/
def callsWith (p : VpcCall → Bool) : Finset ℕ := HashMap.keysWith p s.calls

/-- The call creates a VPC of the id and has come to the phase. -/
def CreatesVpc (x : Id) (c : ℕ) (phase : CreateVpcPhase) : Prop :=
  ∃ vpc, s.calls.lookup c = some (.createVpc vpc phase) ∧ vpc.metadata.id = x

/-- The call creates a subnet of the id and has come to the phase. -/
def CreatesSubnet (k : Id) (c : ℕ) (phase : CreateSubnetPhase) : Prop :=
  ∃ subnet, s.calls.lookup c = some (.createSubnet subnet phase) ∧ subnet.metadata.id = k

/-- The create of a subnet has returned something else than that there is no VPC. -/
def ReturnedSubnet (k : Id) (c : ℕ) (r : Result Subnet) : Prop :=
  s.CreatesSubnet k c (.done r) ∧ ∀ what, r ≠ .error (.notFound what)

/-- **Serial outcomes.** Subnets refer to existing VPCs, and of the creates of one id, once all of
them have returned, one has succeeded and the others found the id taken. Creates of a VPC compete
until it is deleted, and creates of a subnet compete when they found the VPC. -/
structure Serial : Prop where
  subnets : ∀ k subnet, s.controller.subnets.lookup k = some subnet →
    subnet.vpcId ∈ s.controller.vpcs
  oneVpc : ∀ x, (∀ c phase, s.CreatesVpc x c phase → ∃ r, phase = .done r) →
    s.callsWith (deletedVpc x) = ∅ → (∃ c r, s.CreatesVpc x c (.done r)) →
    OneWins (fun c r => s.CreatesVpc x c (.done r)) (.alreadyExists ("vpc " ++ x.name))
  oneSubnet : ∀ k, (∀ c phase, s.CreatesSubnet k c phase → ∃ r, phase = .done r) →
    (∃ c r, s.ReturnedSubnet k c r) →
    OneWins (s.ReturnedSubnet k) (.alreadyExists ("subnet " ++ k.name))
  vpcCount : ∀ x, (s.callsWith (wonVpc x)).card =
    (s.callsWith (deletedVpc x)).card + if x ∈ s.controller.vpcs then 1 else 0
  subnetCount : ∀ k, (s.callsWith (wonSubnet k)).card = if k ∈ s.controller.subnets then 1 else 0

/-- A call acts only while what it has checked is still so. -/
def ActsOnTruth : VpcAction → Prop
  | .step c => ∀ k, s.calls.lookup c = some k → k.StillTrue s.controller
  | _ => True

/-! ## The invariant -/

/-- What a create has returned, if it failed. -/
def Answers : VpcCall → Prop
  | .createVpc vpc (.done (.error e)) => e = .alreadyExists ("vpc " ++ vpc.metadata.id.name) ∧
      (s.callsWith (wonVpc vpc.metadata.id)).Nonempty
  | .createSubnet subnet (.done (.error e)) => e = .notFound ("vpc " ++ subnet.vpcId.name) ∨
      e = .alreadyExists ("subnet " ++ subnet.metadata.id.name) ∧
        (s.callsWith (wonSubnet subnet.metadata.id)).Nonempty
  | _ => True

/-- What keeps a state serial, whatever calls are still under way. -/
structure Inv : Prop where
  subnets : ∀ k subnet, s.controller.subnets.lookup k = some subnet →
    subnet.vpcId ∈ s.controller.vpcs
  vpcCount : ∀ x, (s.callsWith (wonVpc x)).card =
    (s.callsWith (deletedVpc x)).card + if x ∈ s.controller.vpcs then 1 else 0
  subnetCount : ∀ k, (s.callsWith (wonSubnet k)).card = if k ∈ s.controller.subnets then 1 else 0
  answers : ∀ c k, s.calls.lookup c = some k → s.Answers k

variable {s} {n : NetworkController} {c : ℕ} {k k' : VpcCall} {p : VpcCall → Bool} {vpc : Vpc}
  {subnet : Subnet} {id : Id}

theorem mem_callsWith : c ∈ s.callsWith p ↔ ∃ k, s.calls.lookup c = some k ∧ p k :=
  HashMap.mem_keysWith

/-- One that is counted before and after a step, or neither, changes nothing. -/
theorem callsWith_insert_same (h : c ∈ s.callsWith p ↔ p k') :
    callsWith ⟨n, s.calls.insert c k'⟩ p = s.callsWith p := by
  ext c'
  rw [callsWith, HashMap.mem_keysWith_insert]
  split_ifs with hc
  · rw [hc, h]
  · rfl

section Step

variable (hc : s.calls.lookup c = some k)
include hc

theorem mem_callsWith_self : c ∈ s.callsWith p ↔ p k := by
  rw [mem_callsWith, hc]
  simp

/-- What is counted stays counted. -/
theorem subset_callsWith_insert (hp : p k → p k') :
    s.callsWith p ⊆ callsWith ⟨n, s.calls.insert c k'⟩ p := by
  intro c' hc'
  rw [callsWith, HashMap.mem_keysWith_insert]
  split_ifs with e
  · exact hp ((mem_callsWith_self hc).1 (e ▸ hc'))
  · exact hc'

/-- One that was not counted is one more if it is counted now. -/
theorem card_callsWith_insert (hp : p k = false) :
    (callsWith ⟨n, s.calls.insert c k'⟩ p).card = (s.callsWith p).card + if p k' then 1 else 0 := by
  have hnot : c ∉ s.callsWith p := by simp [mem_callsWith_self hc, hp]
  split_ifs with hp'
  · rw [← Finset.card_insert_of_notMem hnot]
    congr 1
    ext c'
    rw [callsWith, HashMap.mem_keysWith_insert, Finset.mem_insert]
    split_ifs with e
    · simp [e, hp']
    · simp [e, callsWith]
  · rw [callsWith_insert_same (by simp [hnot, hp'])]
    rfl

end Step

theorem Answers.mono {s' : VpcCalls} (h : s.Answers k)
    (hwon : ∀ x, s.callsWith (wonVpc x) ⊆ s'.callsWith (wonVpc x))
    (hsub : ∀ x, s.callsWith (wonSubnet x) ⊆ s'.callsWith (wonSubnet x)) : s'.Answers k := by
  unfold Answers at h ⊢
  split
  · exact ⟨h.1, h.2.mono (hwon _)⟩
  · exact h.imp_right fun h => ⟨h.1, h.2.mono (hsub _)⟩
  · trivial

/-- The answers after a step of a call. -/
theorem answers_insert (h : s.Inv) (hans : Answers ⟨n, s.calls.insert c k'⟩ k')
    (hwon : ∀ x, s.callsWith (wonVpc x) ⊆ callsWith ⟨n, s.calls.insert c k'⟩ (wonVpc x))
    (hsub : ∀ x, s.callsWith (wonSubnet x) ⊆ callsWith ⟨n, s.calls.insert c k'⟩ (wonSubnet x))
    (c₁ : ℕ) (k₁ : VpcCall) (h₁ : (s.calls.insert c k').lookup c₁ = some k₁) :
    Answers ⟨n, s.calls.insert c k'⟩ k₁ := by
  rw [HashMap.lookup_insert_eq] at h₁
  split_ifs at h₁
  · exact Option.some.inj h₁ ▸ hans
  · exact (h.answers c₁ k₁ h₁).mono hwon hsub

/-- A step that leaves VPCs, subnets and the counts as they are. -/
theorem Inv.quiet (h : s.Inv) (hv : n.vpcs = s.controller.vpcs)
    (hs : n.subnets = s.controller.subnets) (hwon : ∀ x, c ∈ s.callsWith (wonVpc x) ↔ wonVpc x k')
    (hdel : ∀ x, c ∈ s.callsWith (deletedVpc x) ↔ deletedVpc x k')
    (hsub : ∀ x, c ∈ s.callsWith (wonSubnet x) ↔ wonSubnet x k') (hans : s.Answers k') :
    Inv ⟨n, s.calls.insert c k'⟩ := by
  have hwon' := fun x => callsWith_insert_same (n := n) (hwon x)
  have hdel' := fun x => callsWith_insert_same (n := n) (hdel x)
  have hsub' := fun x => callsWith_insert_same (n := n) (hsub x)
  have hwon₁ := fun x => (hwon' x).symm.subset
  have hsub₁ := fun x => (hsub' x).symm.subset
  refine ⟨fun x subnet hx => ?_, fun x => ?_, fun x => ?_,
    answers_insert h (hans.mono hwon₁ hsub₁) hwon₁ hsub₁⟩
  · dsimp only at hx ⊢
    rw [hs] at hx
    rw [hv]
    exact h.subnets x subnet hx
  · dsimp only
    rw [hwon', hdel', hv]
    exact h.vpcCount x
  · dsimp only
    rw [hsub', hs]
    exact h.subnetCount x

/-- A VPC that is recorded while there is none of its id. -/
theorem Inv.insertVpc (h : s.Inv) (hc : s.calls.lookup c = some (.createVpc vpc .checked))
    (hnew : vpc.metadata.id ∉ s.controller.vpcs) :
    Inv ⟨{ s.controller with vpcs := s.controller.vpcs.insert vpc.metadata.id vpc },
      s.calls.insert c (.createVpc vpc (.done (.ok vpc)))⟩ := by
  refine ⟨fun x subnet hx => ?_, fun x => ?_, fun x => ?_, answers_insert h trivial
    (fun x => subset_callsWith_insert hc (by simp [wonVpc]))
    fun x => subset_callsWith_insert hc (by simp [wonSubnet])⟩
  · exact (AList.mem_insert _).2 (.inr (h.subnets x subnet hx))
  · have hcount := h.vpcCount x
    rw [card_callsWith_insert hc rfl, card_callsWith_insert hc rfl]
    by_cases hx : vpc.metadata.id = x
    · subst hx
      simpa [wonVpc, deletedVpc, hnew] using hcount
    · simpa [wonVpc, deletedVpc, hx, Ne.symm hx] using hcount
  · rw [card_callsWith_insert hc rfl]
    simpa [wonSubnet] using h.subnetCount x

/-- A subnet that is recorded while its VPC exists and there is none of its id. -/
theorem Inv.insertSubnet (h : s.Inv) (hc : s.calls.lookup c = some (.createSubnet subnet .checked))
    (hvpc : subnet.vpcId ∈ s.controller.vpcs)
    (hnew : subnet.metadata.id ∉ s.controller.subnets) :
    Inv ⟨{ s.controller with
        subnets := s.controller.subnets.insert subnet.metadata.id subnet },
      s.calls.insert c (.createSubnet subnet .recorded)⟩ := by
  refine ⟨fun x sub hx => ?_, fun x => ?_, fun x => ?_, answers_insert h trivial
    (fun x => subset_callsWith_insert hc (by simp [wonVpc]))
    fun x => subset_callsWith_insert hc (by simp [wonSubnet])⟩
  · obtain ⟨-, rfl⟩ | ⟨-, hx⟩ := HashMap.lookup_insert_eq_some.1 hx
    · exact hvpc
    · exact h.subnets x sub hx
  · rw [card_callsWith_insert hc rfl, card_callsWith_insert hc rfl]
    simpa [wonVpc, deletedVpc] using h.vpcCount x
  · have hcount := h.subnetCount x
    rw [card_callsWith_insert hc rfl]
    by_cases hx : subnet.metadata.id = x
    · subst hx
      simpa [wonSubnet, hnew] using hcount
    · simpa [wonSubnet, hx, Ne.symm hx] using hcount

/-- A VPC that is removed while no subnet refers to it. -/
theorem Inv.eraseVpc (h : s.Inv) (hc : s.calls.lookup c = some (.deleteVpc id .checked))
    (hid : id ∈ s.controller.vpcs)
    (hfree : ∀ sub ∈ HashMap.values s.controller.subnets, sub.vpcId ≠ id) :
    Inv ⟨{ s.controller with vpcs := s.controller.vpcs.erase id },
      s.calls.insert c (.deleteVpc id (.done (.ok ())))⟩ := by
  refine ⟨fun x sub hx => ?_, fun x => ?_, fun x => ?_, answers_insert h trivial
    (fun x => subset_callsWith_insert hc (by simp [wonVpc]))
    fun x => subset_callsWith_insert hc (by simp [wonSubnet])⟩
  · exact AList.mem_erase.2 ⟨HashMap.forall_lookup hfree hx, h.subnets x sub hx⟩
  · have hcount := h.vpcCount x
    rw [card_callsWith_insert hc rfl, card_callsWith_insert hc rfl]
    by_cases hx : id = x
    · subst hx
      simpa [wonVpc, deletedVpc, hid] using hcount
    · simpa [wonVpc, deletedVpc, hx, Ne.symm hx] using hcount
  · rw [card_callsWith_insert hc rfl]
    simpa [wonSubnet] using h.subnetCount x

theorem inv_new : new.Inv := by
  refine ⟨fun x sub hx => ?_, fun x => rfl, fun x => rfl, fun c k hk => ?_⟩
  · cases hx
  · cases hk

theorem Inv.call {s' : VpcCalls} (h : s.Inv) (hs : s.call c k = some s')
    (hwon : ∀ x, wonVpc x k = false) (hdel : ∀ x, deletedVpc x k = false)
    (hsub : ∀ x, wonSubnet x k = false) (hans : s.Answers k) :
    s'.Inv := by
  unfold VpcCalls.call at hs
  split_ifs at hs with hc
  obtain rfl := Option.some.inj hs
  have hnew : ∀ p, c ∉ s.callsWith p := by
    intro p hp
    obtain ⟨k', hk', -⟩ := mem_callsWith.1 hp
    exact hc (HashMap.mem_iff_exists_lookup.2 ⟨k', hk'⟩)
  exact h.quiet rfl rfl (fun x => by simp [hnew, hwon]) (fun x => by simp [hnew, hdel])
    (fun x => by simp [hnew, hsub]) hans

/-- A step of a call that changes neither what is recorded nor what is counted. -/
theorem Inv.quietStep (h : s.Inv) (hc : s.calls.lookup c = some k) (hv : n.vpcs = s.controller.vpcs)
    (hs : n.subnets = s.controller.subnets) (hwon : ∀ x, wonVpc x k = wonVpc x k')
    (hdel : ∀ x, deletedVpc x k = deletedVpc x k') (hsub : ∀ x, wonSubnet x k = wonSubnet x k')
    (hans : s.Answers k') : Inv ⟨n, s.calls.insert c k'⟩ :=
  h.quiet hv hs (fun x => by rw [mem_callsWith_self hc, hwon])
    (fun x => by rw [mem_callsWith_self hc, hdel])
    (fun x => by rw [mem_callsWith_self hc, hsub]) hans

/-- A VPC that exists was created. -/
theorem Inv.nonempty_wonVpc (h : s.Inv) (hid : id ∈ s.controller.vpcs) :
    (s.callsWith (wonVpc id)).Nonempty := by
  rw [← Finset.card_pos, h.vpcCount, if_pos hid]
  omega

theorem Inv.nonempty_wonSubnet (h : s.Inv) (hid : id ∈ s.controller.subnets) :
    (s.callsWith (wonSubnet id)).Nonempty := by
  rw [← Finset.card_pos, h.subnetCount, if_pos hid]
  omega

theorem Inv.stepCreateVpc (h : s.Inv) {phase phase' : CreateVpcPhase}
    (hc : s.calls.lookup c = some (.createVpc vpc phase))
    (ht : (VpcCall.createVpc vpc phase).StillTrue s.controller)
    (hs : s.controller.stepCreateVpc vpc phase = some (n, phase')) :
    Inv ⟨n, s.calls.insert c (.createVpc vpc phase')⟩ := by
  cases phase with
  | called =>
    simp only [NetworkController.stepCreateVpc] at hs
    split_ifs at hs with hid
    · obtain ⟨rfl, rfl⟩ := Prod.mk.inj (Option.some.inj hs)
      exact h.quietStep hc rfl rfl (fun _ => rfl) (fun _ => rfl) (fun _ => rfl)
        ⟨rfl, h.nonempty_wonVpc hid⟩
    · obtain ⟨rfl, rfl⟩ := Prod.mk.inj (Option.some.inj hs)
      exact h.quietStep hc rfl rfl (fun _ => rfl) (fun _ => rfl) (fun _ => rfl) trivial
  | checked =>
    obtain ⟨rfl, rfl⟩ := Prod.mk.inj (Option.some.inj hs)
    exact h.insertVpc hc ht
  | done r => cases hs

theorem Inv.stepCreateSubnet (h : s.Inv) {phase phase' : CreateSubnetPhase}
    (hc : s.calls.lookup c = some (.createSubnet subnet phase))
    (ht : (VpcCall.createSubnet subnet phase).StillTrue s.controller)
    (hs : s.controller.stepCreateSubnet subnet phase = some (n, phase')) :
    Inv ⟨n, s.calls.insert c (.createSubnet subnet phase')⟩ := by
  cases phase with
  | called =>
    simp only [NetworkController.stepCreateSubnet] at hs
    split_ifs at hs with hid
    all_goals
      obtain ⟨rfl, rfl⟩ := Prod.mk.inj (Option.some.inj hs)
      exact h.quietStep hc rfl rfl (fun _ => rfl) (fun _ => rfl) (fun _ => rfl) (by simp [Answers])
  | vpcFound =>
    simp only [NetworkController.stepCreateSubnet] at hs
    split_ifs at hs with hid
    · obtain ⟨rfl, rfl⟩ := Prod.mk.inj (Option.some.inj hs)
      exact h.quietStep hc rfl rfl (fun _ => rfl) (fun _ => rfl) (fun _ => rfl)
        (.inr ⟨rfl, h.nonempty_wonSubnet hid⟩)
    · obtain ⟨rfl, rfl⟩ := Prod.mk.inj (Option.some.inj hs)
      exact h.quietStep hc rfl rfl (fun _ => rfl) (fun _ => rfl) (fun _ => rfl) trivial
  | checked =>
    obtain ⟨rfl, rfl⟩ := Prod.mk.inj (Option.some.inj hs)
    exact h.insertSubnet hc ht.1 ht.2
  | recorded =>
    obtain ⟨rfl, rfl⟩ := Prod.mk.inj (Option.some.inj hs)
    refine h.quietStep hc ?_ ?_ (fun _ => rfl) (fun _ => rfl) (fun _ => rfl) trivial
    all_goals cases SubnetAllocator.new subnet.cidr <;> cases subnet.egress <;> rfl
  | done r => cases hs

theorem Inv.stepDeleteVpc (h : s.Inv) {phase phase' : DeleteVpcPhase}
    (hc : s.calls.lookup c = some (.deleteVpc id phase))
    (ht : (VpcCall.deleteVpc id phase).StillTrue s.controller)
    (hs : s.controller.stepDeleteVpc id phase = some (n, phase')) :
    Inv ⟨n, s.calls.insert c (.deleteVpc id phase')⟩ := by
  cases phase with
  | called =>
    simp only [NetworkController.stepDeleteVpc] at hs
    split_ifs at hs with hid
    all_goals
      obtain ⟨rfl, rfl⟩ := Prod.mk.inj (Option.some.inj hs)
      exact h.quietStep hc rfl rfl (fun _ => rfl) (fun _ => rfl) (fun _ => rfl) trivial
  | checked =>
    simp only [NetworkController.stepDeleteVpc] at hs
    split_ifs at hs with hid
    · obtain ⟨rfl, rfl⟩ := Prod.mk.inj (Option.some.inj hs)
      exact h.eraseVpc hc hid ht
    · obtain ⟨rfl, rfl⟩ := Prod.mk.inj (Option.some.inj hs)
      exact h.quietStep hc rfl rfl (fun _ => rfl) (fun _ => rfl) (fun _ => rfl) trivial
  | done r => cases hs

theorem Inv.step {s' : VpcCalls} {a : VpcAction} (h : s.Inv) (hg : s.ActsOnTruth a)
    (hs : s.step a = some s') : s'.Inv := by
  cases a with
  | createVpc c vpc => exact h.call hs (fun _ => rfl) (fun _ => rfl) (fun _ => rfl) trivial
  | createSubnet c subnet => exact h.call hs (fun _ => rfl) (fun _ => rfl) (fun _ => rfl) trivial
  | deleteVpc c id => exact h.call hs (fun _ => rfl) (fun _ => rfl) (fun _ => rfl) trivial
  | step c =>
    obtain ⟨k, hk, hs⟩ := Option.bind_eq_some_iff.1 hs
    obtain ⟨⟨n, k'⟩, hr, rfl⟩ := Option.map_eq_some_iff.1 hs
    have ht := hg k hk
    cases k with
    | createVpc vpc phase =>
      obtain ⟨⟨n, phase'⟩, hp, e⟩ := Option.map_eq_some_iff.1 hr
      obtain ⟨rfl, rfl⟩ := Prod.mk.inj e
      exact h.stepCreateVpc hk ht hp
    | createSubnet subnet phase =>
      obtain ⟨⟨n, phase'⟩, hp, e⟩ := Option.map_eq_some_iff.1 hr
      obtain ⟨rfl, rfl⟩ := Prod.mk.inj e
      exact h.stepCreateSubnet hk ht hp
    | deleteVpc id phase =>
      obtain ⟨⟨n, phase'⟩, hp, e⟩ := Option.map_eq_some_iff.1 hr
      obtain ⟨rfl, rfl⟩ := Prod.mk.inj e
      exact h.stepDeleteVpc hk ht hp

/-! ## Outcomes -/

theorem wonVpc_iff {x : Id} : wonVpc x k ↔
    ∃ vpc v, k = .createVpc vpc (.done (.ok v)) ∧ vpc.metadata.id = x := by
  constructor
  · intro h
    unfold wonVpc at h
    split at h
    · exact ⟨_, _, rfl, of_decide_eq_true h⟩
    · contradiction
  · rintro ⟨vpc, v, rfl, rfl⟩
    simp [wonVpc]

theorem wonSubnet_iff {x : Id} : wonSubnet x k ↔ ∃ subnet phase,
    k = .createSubnet subnet phase ∧ subnet.metadata.id = x ∧
      (phase = .recorded ∨ ∃ v, phase = .done (.ok v)) := by
  constructor
  · intro h
    unfold wonSubnet at h
    split at h
    · exact ⟨_, _, rfl, of_decide_eq_true h, .inl rfl⟩
    · exact ⟨_, _, rfl, of_decide_eq_true h, .inr ⟨_, rfl⟩⟩
    · contradiction
  · rintro ⟨subnet, phase, rfl, rfl, rfl | ⟨v, rfl⟩⟩ <;> simp [wonSubnet]

/-- At most one call succeeds, one does as soon as another fails, and a failed one found the id
taken. -/
theorem oneWins_of_card {α : Type*} {returned : ℕ → Result α → Prop} {taken : Error}
    (won : Finset ℕ) (hcard : won.card ≤ 1) (hwon : ∀ c, c ∈ won ↔ ∃ a, returned c (.ok a))
    (herr : ∀ c e, returned c (.error e) → e = taken ∧ won.Nonempty) (hex : ∃ c r, returned c r) :
    OneWins returned taken := by
  obtain ⟨c, hc⟩ : won.Nonempty := by
    obtain ⟨c, r, hr⟩ := hex
    cases r with
    | ok a => exact ⟨c, (hwon c).2 ⟨a, hr⟩⟩
    | error e => exact (herr c e hr).2
  refine ⟨c, (hwon c).1 hc, fun c' r hne hr => ?_⟩
  cases r with
  | ok a => exact absurd (Finset.card_le_one.1 hcard c' ((hwon c').2 ⟨a, hr⟩) c hc) hne
  | error e => rw [(herr c' e hr).1]

theorem Inv.oneVpc (h : s.Inv) {x : Id} (hdel : s.callsWith (deletedVpc x) = ∅)
    (hex : ∃ c r, s.CreatesVpc x c (.done r)) :
    OneWins (fun c r => s.CreatesVpc x c (.done r)) (.alreadyExists ("vpc " ++ x.name)) := by
  refine oneWins_of_card (s.callsWith (wonVpc x)) ?_ (fun c => ?_) (fun c e hr => ?_) hex
  · rw [h.vpcCount, hdel]
    split_ifs <;> simp
  · rw [mem_callsWith]
    constructor
    · rintro ⟨k, hk, hp⟩
      obtain ⟨vpc, v, rfl, hx⟩ := wonVpc_iff.1 hp
      exact ⟨v, vpc, hk, hx⟩
    · rintro ⟨v, vpc, hk, hx⟩
      exact ⟨_, hk, wonVpc_iff.2 ⟨vpc, v, rfl, hx⟩⟩
  · obtain ⟨vpc, hk, rfl⟩ := hr
    exact h.answers c _ hk

theorem Inv.oneSubnet (h : s.Inv) {x : Id}
    (hdone : ∀ c phase, s.CreatesSubnet x c phase → ∃ r, phase = .done r)
    (hex : ∃ c r, s.ReturnedSubnet x c r) :
    OneWins (s.ReturnedSubnet x) (.alreadyExists ("subnet " ++ x.name)) := by
  refine oneWins_of_card (s.callsWith (wonSubnet x)) ?_ (fun c => ?_) (fun c e hr => ?_) hex
  · rw [h.subnetCount]
    split_ifs <;> simp
  · rw [mem_callsWith]
    constructor
    · rintro ⟨k, hk, hp⟩
      obtain ⟨subnet, phase, rfl, hx, rfl | ⟨v, rfl⟩⟩ := wonSubnet_iff.1 hp
      · obtain ⟨r, hr⟩ := hdone c .recorded ⟨subnet, hk, hx⟩
        cases hr
      · exact ⟨v, ⟨subnet, hk, hx⟩, fun what e => by cases e⟩
    · rintro ⟨v, ⟨subnet, hk, hx⟩, -⟩
      exact ⟨_, hk, wonSubnet_iff.2 ⟨subnet, _, rfl, hx, .inr ⟨v, rfl⟩⟩⟩
  · obtain ⟨⟨subnet, hk, rfl⟩, hfound⟩ := hr
    obtain he | he := h.answers c _ hk
    · exact absurd (congrArg Except.error he) (hfound _)
    · exact he

theorem Inv.serial (h : s.Inv) : s.Serial :=
  ⟨h.subnets, fun _ _ => h.oneVpc, fun _ => h.oneSubnet, h.vpcCount, h.subnetCount⟩

/-- A second VPC of one id would be one create too many. -/
theorem Inv.notMem_of_insertVpc (h : s.Inv) (hc : s.calls.lookup c = some (.createVpc vpc .checked))
    (h' : Serial ⟨{ s.controller with vpcs := s.controller.vpcs.insert vpc.metadata.id vpc },
      s.calls.insert c (.createVpc vpc (.done (.ok vpc)))⟩) :
    vpc.metadata.id ∉ s.controller.vpcs := by
  intro hid
  have hcount := h.vpcCount vpc.metadata.id
  have hcount' := h'.vpcCount vpc.metadata.id
  rw [card_callsWith_insert hc rfl, card_callsWith_insert hc rfl] at hcount'
  simp only [wonVpc, deletedVpc, decide_true, if_true, Bool.false_eq_true, if_false, if_pos hid,
    AList.mem_insert, true_or] at hcount hcount'
  omega

theorem Inv.notMem_of_insertSubnet (h : s.Inv)
    (hc : s.calls.lookup c = some (.createSubnet subnet .checked))
    (h' : Serial ⟨{ s.controller with
        subnets := s.controller.subnets.insert subnet.metadata.id subnet },
      s.calls.insert c (.createSubnet subnet .recorded)⟩) :
    subnet.metadata.id ∉ s.controller.subnets := by
  intro hid
  have hcount := h.subnetCount subnet.metadata.id
  have hcount' := h'.subnetCount subnet.metadata.id
  rw [card_callsWith_insert hc rfl] at hcount'
  simp only [wonSubnet, decide_true, if_true, if_pos hid, AList.mem_insert, true_or]
    at hcount hcount'
  omega

/-- A call that acts and leaves serial outcomes behind has acted on what is still so. -/
theorem Inv.actsOnTruth {s' : VpcCalls} {a : VpcAction} (h : s.Inv) (hs : s.step a = some s')
    (h' : s'.Serial) : s.ActsOnTruth a := by
  cases a with
  | createVpc | createSubnet | deleteVpc => trivial
  | step c =>
    intro k hk
    simp only [VpcCalls.step, hk, Option.bind_some] at hs
    obtain ⟨⟨n, k'⟩, hr, rfl⟩ := Option.map_eq_some_iff.1 hs
    unfold VpcCall.StillTrue
    split
    · obtain ⟨rfl, rfl⟩ := Prod.mk.inj (Option.some.inj hr)
      exact h.notMem_of_insertVpc hk h'
    · obtain ⟨rfl, rfl⟩ := Prod.mk.inj (Option.some.inj hr)
      exact ⟨h'.subnets _ _ (AList.lookup_insert _), h.notMem_of_insertSubnet hk h'⟩
    · next id =>
      intro sub hsub hid
      obtain ⟨x, hx⟩ := HashMap.mem_values.1 hsub
      have hvpc : id ∈ s.controller.vpcs := hid ▸ h.subnets x sub hx
      simp only [NetworkController.stepCall, NetworkController.stepDeleteVpc, if_pos hvpc,
        Option.map_some] at hr
      obtain ⟨rfl, rfl⟩ := Prod.mk.inj (Option.some.inj hr)
      exact (AList.mem_erase.1 (h'.subnets x sub hx)).1 hid
    · trivial

/-- **Concurrent calls.** In every state of an interleaving the outcomes are serial if and only if
every call acts on what is still so: `create_vpc` records a VPC while its id is free,
`create_subnet` a subnet while its VPC exists and its id is free, and `delete_vpc` removes a VPC
while no subnet refers to it. -/
theorem serial_iff {acts : List VpcAction} {u : VpcCalls} (hr : run step new acts = some u) :
    (∀ i s, run step new (acts.take i) = some s → s.Serial) ↔ Guarded step ActsOnTruth new acts :=
  (Guarded.iff_forall_states (I := Inv) (P := Serial) (fun _ h => h.serial)
    (fun _ _ _ h hg hs => h.step hg hs) (fun _ _ _ h hs h' => h.actsOnTruth hs h') inv_new hr).symm

instance (n : NetworkController) : ∀ k : VpcCall, Decidable (k.StillTrue n)
  | .createVpc _ .checked => inferInstanceAs (Decidable (_ ∉ _))
  | .createSubnet _ .checked => inferInstanceAs (Decidable (_ ∧ _))
  | .deleteVpc _ .checked => inferInstanceAs (Decidable (∀ _ ∈ HashMap.values _, _))
  | .createVpc _ .called | .createVpc _ (.done _) | .createSubnet _ .called
  | .createSubnet _ .vpcFound | .createSubnet _ .recorded | .createSubnet _ (.done _)
  | .deleteVpc _ .called | .deleteVpc _ (.done _) => .isTrue trivial

instance (s : VpcCalls) : ∀ a, Decidable (s.ActsOnTruth a)
  | .createVpc .. | .createSubnet .. | .deleteVpc .. => .isTrue trivial
  | .step c => inferInstanceAs (Decidable (∀ k ∈ s.calls.lookup c, _))

/-- Two creates of a VPC, the second of which begins after the first has acted, then a subnet and a
refused delete. -/
def orderlyRun : List VpcAction :=
  [.createVpc 0 prodVpc, .createVpc 1 prodVpc, .step 0, .step 0, .step 1, .createSubnet 2 prodSubnet,
    .deleteVpc 3 prodVpc.metadata.id, .step 2, .step 2, .step 2, .step 3, .step 2]

theorem serial_orderlyRun : ∃ u, run step new orderlyRun = some u ∧ u.Serial := by
  have hguard : Guarded step ActsOnTruth new orderlyRun := by decide +kernel
  exact ⟨_, rfl, (serial_iff rfl).2 hguard 12 _ rfl⟩

/-- Both creates find the id free, and both succeed. -/
def bothCreate : List VpcAction :=
  [.createVpc 0 prodVpc, .createVpc 1 prodVpc, .step 0, .step 1, .step 0, .step 1]

/-- The subnet finds its VPC, the delete finds no subnet, and both go on. -/
def createWhileDeleting : List VpcAction :=
  [.createVpc 0 prodVpc, .step 0, .step 0, .createSubnet 1 prodSubnet,
    .deleteVpc 2 prodVpc.metadata.id, .step 1, .step 2, .step 2, .step 1, .step 1]

/-- Two creates of one VPC can both succeed, and a subnet can outlive its VPC. -/
theorem not_serial_interleavings :
    ∃ u v, run step new bothCreate = some u ∧ run step new createWhileDeleting = some v ∧
      (∀ c ∈ [0, 1], u.CreatesVpc prodVpc.metadata.id c (.done (.ok prodVpc))) ∧ ¬u.Serial ∧
      v.controller.subnets.lookup prodSubnet.metadata.id = some prodSubnet ∧
      prodSubnet.vpcId ∉ v.controller.vpcs ∧ ¬v.Serial := by
  have hgone : prodSubnet.vpcId ∉ (∅ : HashMap Id Vpc) := AList.notMem_empty _
  refine ⟨_, _, rfl, rfl, ?_, fun h => ?_, rfl, hgone, fun h => ?_⟩
  · simp only [List.mem_cons, List.not_mem_nil, or_false]
    rintro c (rfl | rfl)
    · exact ⟨prodVpc, rfl, rfl⟩
    · exact ⟨prodVpc, rfl, rfl⟩
  · exact absurd (h.vpcCount prodVpc.metadata.id) (by decide)
  · exact hgone (h.subnets prodSubnet.metadata.id prodSubnet rfl)

/-! ## Calls that keep out of each other's way -/

end VpcCalls

namespace VpcCall

/-- The first call is about to change what the second has checked. -/
def Spoils : VpcCall → VpcCall → Prop
  | .createVpc vpc .checked, .createVpc vpc' .checked => vpc'.metadata.id = vpc.metadata.id
  | .createSubnet subnet .checked, .createSubnet subnet' .checked =>
    subnet'.metadata.id = subnet.metadata.id
  | .createSubnet subnet .checked, .deleteVpc id .checked => subnet.vpcId = id
  | .deleteVpc id .checked, .createSubnet subnet .vpcFound => subnet.vpcId = id
  | .deleteVpc id .checked, .createSubnet subnet .checked => subnet.vpcId = id
  | _, _ => False

/-- What the call has checked so far is still so. -/
def Fresh (n : NetworkController) : VpcCall → Prop
  | .createSubnet subnet .vpcFound => subnet.vpcId ∈ n.vpcs
  | k => k.StillTrue n

variable {n n' : NetworkController} {k k₁ k' : VpcCall}

theorem Fresh.stillTrue (h : k.Fresh n) : k.StillTrue n := by
  unfold Fresh at h
  split at h
  · trivial
  · exact h

theorem Fresh.congr (h : k.Fresh n) (hv : n'.vpcs = n.vpcs) (hs : n'.subnets = n.subnets) :
    k.Fresh n' := by
  unfold Fresh StillTrue at h ⊢
  rw [hv, hs]
  exact h

/-- A step leaves VPCs and subnets as they are, or it is one of the three acts. -/
theorem stepCall_cases (hs : n.stepCall k = some (n', k')) :
    (n'.vpcs = n.vpcs ∧ n'.subnets = n.subnets) ∨
    (∃ vpc, k = .createVpc vpc .checked ∧ n'.vpcs = n.vpcs.insert vpc.metadata.id vpc ∧
      n'.subnets = n.subnets) ∨
    (∃ subnet, k = .createSubnet subnet .checked ∧ n'.vpcs = n.vpcs ∧
      n'.subnets = n.subnets.insert subnet.metadata.id subnet) ∨
    ∃ id, k = .deleteVpc id .checked ∧ n'.vpcs = n.vpcs.erase id ∧ n'.subnets = n.subnets := by
  cases k with
  | createVpc vpc phase =>
    obtain ⟨⟨m, phase'⟩, hp, e⟩ := Option.map_eq_some_iff.1 hs
    obtain ⟨rfl, -⟩ := Prod.mk.inj e
    cases phase with
    | called =>
      simp only [NetworkController.stepCreateVpc] at hp
      split_ifs at hp
      all_goals
        obtain ⟨rfl, -⟩ := Prod.mk.inj (Option.some.inj hp)
        exact .inl ⟨rfl, rfl⟩
    | checked =>
      obtain ⟨rfl, -⟩ := Prod.mk.inj (Option.some.inj hp)
      exact .inr (.inl ⟨vpc, rfl, rfl, rfl⟩)
    | done r => cases hp
  | createSubnet subnet phase =>
    obtain ⟨⟨m, phase'⟩, hp, e⟩ := Option.map_eq_some_iff.1 hs
    obtain ⟨rfl, -⟩ := Prod.mk.inj e
    cases phase with
    | called | vpcFound =>
      simp only [NetworkController.stepCreateSubnet] at hp
      split_ifs at hp
      all_goals
        obtain ⟨rfl, -⟩ := Prod.mk.inj (Option.some.inj hp)
        exact .inl ⟨rfl, rfl⟩
    | checked =>
      obtain ⟨rfl, -⟩ := Prod.mk.inj (Option.some.inj hp)
      exact .inr (.inr (.inl ⟨subnet, rfl, rfl, rfl⟩))
    | recorded =>
      obtain ⟨rfl, -⟩ := Prod.mk.inj (Option.some.inj hp)
      refine .inl ⟨?_, ?_⟩
      all_goals cases SubnetAllocator.new subnet.cidr <;> cases subnet.egress <;> rfl
    | done r => cases hp
  | deleteVpc id phase =>
    obtain ⟨⟨m, phase'⟩, hp, e⟩ := Option.map_eq_some_iff.1 hs
    obtain ⟨rfl, -⟩ := Prod.mk.inj e
    cases phase with
    | called =>
      simp only [NetworkController.stepDeleteVpc] at hp
      split_ifs at hp
      all_goals
        obtain ⟨rfl, -⟩ := Prod.mk.inj (Option.some.inj hp)
        exact .inl ⟨rfl, rfl⟩
    | checked =>
      simp only [NetworkController.stepDeleteVpc] at hp
      split_ifs at hp <;> obtain ⟨rfl, -⟩ := Prod.mk.inj (Option.some.inj hp)
      · exact .inr (.inr (.inr ⟨id, rfl, rfl, rfl⟩))
      · exact .inl ⟨rfl, rfl⟩
    | done r => cases hp

/-- A VPC that is recorded spoils the creates of its id only. -/
theorem Fresh.insertVpc {vpc : Vpc} (h : k.Fresh n) (hk : ¬(createVpc vpc .checked).Spoils k) :
    k.Fresh { n with vpcs := n.vpcs.insert vpc.metadata.id vpc } := by
  cases k with
  | createVpc vpc' phase =>
    cases phase with
    | checked =>
      intro hid
      obtain e | hid := (AList.mem_insert _).1 hid
      · exact hk e
      · exact h hid
    | called | done => trivial
  | createSubnet subnet phase =>
    cases phase with
    | vpcFound => exact (AList.mem_insert _).2 (.inr h)
    | checked => exact ⟨(AList.mem_insert _).2 (.inr h.1), h.2⟩
    | called | recorded | done => trivial
  | deleteVpc id phase => cases phase <;> exact h

theorem Fresh.insertSubnet {subnet : Subnet} (h : k.Fresh n)
    (hk : ¬(createSubnet subnet .checked).Spoils k) :
    k.Fresh { n with subnets := n.subnets.insert subnet.metadata.id subnet } := by
  cases k with
  | createVpc vpc phase => cases phase <;> exact h
  | createSubnet subnet' phase =>
    cases phase with
    | checked =>
      refine ⟨h.1, fun hid => ?_⟩
      obtain e | hid := (AList.mem_insert _).1 hid
      · exact hk e
      · exact h.2 hid
    | called | vpcFound | recorded | done => exact h
  | deleteVpc id phase =>
    cases phase with
    | checked =>
      intro sub hsub
      obtain ⟨x, hx⟩ := HashMap.mem_values.1 hsub
      obtain ⟨-, rfl⟩ | ⟨-, hx⟩ := HashMap.lookup_insert_eq_some.1 hx
      · exact hk
      · exact HashMap.forall_lookup h hx
    | called | done => trivial

theorem Fresh.eraseVpc {id : Id} (h : k.Fresh n) (hk : ¬(deleteVpc id .checked).Spoils k) :
    k.Fresh { n with vpcs := n.vpcs.erase id } := by
  cases k with
  | createVpc vpc phase =>
    cases phase with
    | checked => exact fun hid => h (AList.mem_erase.1 hid).2
    | called | done => trivial
  | createSubnet subnet phase =>
    cases phase with
    | vpcFound => exact AList.mem_erase.2 ⟨hk, h⟩
    | checked => exact ⟨AList.mem_erase.2 ⟨hk, h.1⟩, h.2⟩
    | called | recorded | done => trivial
  | deleteVpc id' phase => cases phase <;> exact h

/-- A call leaves what another has checked as it is, unless it spoils it. -/
theorem Fresh.of_step (h : k.Fresh n) (hk : ¬k₁.Spoils k) (hs : n.stepCall k₁ = some (n', k')) :
    k.Fresh n' := by
  obtain ⟨hv, hsub⟩ | ⟨vpc, rfl, hv, hsub⟩ | ⟨subnet, rfl, hv, hsub⟩ | ⟨id, rfl, hv, hsub⟩ :=
    stepCall_cases hs
  · exact h.congr hv hsub
  · exact (h.insertVpc hk).congr hv hsub
  · exact (h.insertSubnet hk).congr hv hsub
  · exact (h.eraseVpc hk).congr hv hsub

/-- What a call has just checked is so. -/
theorem Fresh.next (h : k.Fresh n) (hs : n.stepCall k = some (n', k')) : k'.Fresh n' := by
  cases k with
  | createVpc vpc phase =>
    obtain ⟨⟨m, phase'⟩, hp, e⟩ := Option.map_eq_some_iff.1 hs
    obtain ⟨rfl, rfl⟩ := Prod.mk.inj e
    cases phase with
    | called =>
      simp only [NetworkController.stepCreateVpc] at hp
      split_ifs at hp with hid <;> obtain ⟨rfl, rfl⟩ := Prod.mk.inj (Option.some.inj hp)
      · trivial
      · exact hid
    | checked =>
      obtain ⟨rfl, rfl⟩ := Prod.mk.inj (Option.some.inj hp)
      trivial
    | done r => cases hp
  | createSubnet subnet phase =>
    obtain ⟨⟨m, phase'⟩, hp, e⟩ := Option.map_eq_some_iff.1 hs
    obtain ⟨rfl, rfl⟩ := Prod.mk.inj e
    cases phase with
    | called =>
      simp only [NetworkController.stepCreateSubnet] at hp
      split_ifs at hp with hvpc <;> obtain ⟨rfl, rfl⟩ := Prod.mk.inj (Option.some.inj hp)
      · exact hvpc
      · trivial
    | vpcFound =>
      simp only [NetworkController.stepCreateSubnet] at hp
      split_ifs at hp with hid <;> obtain ⟨rfl, rfl⟩ := Prod.mk.inj (Option.some.inj hp)
      · trivial
      · exact ⟨h, hid⟩
    | checked | recorded =>
      obtain ⟨rfl, rfl⟩ := Prod.mk.inj (Option.some.inj hp)
      trivial
    | done r => cases hp
  | deleteVpc id phase =>
    obtain ⟨⟨m, phase'⟩, hp, e⟩ := Option.map_eq_some_iff.1 hs
    obtain ⟨rfl, rfl⟩ := Prod.mk.inj e
    cases phase with
    | called =>
      simp only [NetworkController.stepDeleteVpc] at hp
      split_ifs at hp with hany <;> obtain ⟨rfl, rfl⟩ := Prod.mk.inj (Option.some.inj hp)
      · trivial
      · intro sub hsub hid
        exact hany (List.any_eq_true.2 ⟨sub, hsub, decide_eq_true hid⟩)
    | checked =>
      simp only [NetworkController.stepDeleteVpc] at hp
      split_ifs at hp <;> obtain ⟨rfl, rfl⟩ := Prod.mk.inj (Option.some.inj hp) <;> trivial
    | done r => cases hp

end VpcCall

namespace VpcCalls

variable {s s' : VpcCalls} {c : ℕ} {k : VpcCall} {a : VpcAction}

/-- No call acts while another is under way that has checked what the act changes. -/
def Undisturbed (s : VpcCalls) : VpcAction → Prop
  | .step c => ∀ k, s.calls.lookup c = some k → ∀ c' k', c' ≠ c → s.calls.lookup c' = some k' →
      ¬k.Spoils k'
  | _ => True

/-- What the calls have checked so far is still so. -/
def AllFresh (s : VpcCalls) : Prop := ∀ c k, s.calls.lookup c = some k → k.Fresh s.controller

theorem AllFresh.call (h : s.AllFresh) (hs : s.call c k = some s') (hk : k.Fresh s.controller) :
    s'.AllFresh := by
  unfold VpcCalls.call at hs
  split_ifs at hs
  obtain rfl := Option.some.inj hs
  intro c' k' hc'
  obtain ⟨-, rfl⟩ | ⟨-, hc'⟩ := HashMap.lookup_insert_eq_some.1 hc'
  · exact hk
  · exact h c' k' hc'

theorem AllFresh.step (h : s.AllFresh) (hg : s.Undisturbed a) (hs : s.step a = some s') :
    s'.AllFresh := by
  cases a with
  | createVpc | createSubnet | deleteVpc => exact h.call hs trivial
  | step c =>
    obtain ⟨k, hk, hs⟩ := Option.bind_eq_some_iff.1 hs
    obtain ⟨⟨n, k'⟩, hr, rfl⟩ := Option.map_eq_some_iff.1 hs
    intro c' k₁ hc'
    obtain ⟨-, rfl⟩ | ⟨hne, hc'⟩ := HashMap.lookup_insert_eq_some.1 hc'
    · exact (h c k hk).next hr
    · exact (h c' k₁ hc').of_step (hg k hk c' k₁ hne hc') hr

theorem AllFresh.actsOnTruth (h : s.AllFresh) : s.ActsOnTruth a := by
  cases a with
  | createVpc | createSubnet | deleteVpc => trivial
  | step c => exact fun k hk => (h c k hk).stillTrue

/-- **A lock that is held from the check to the act would do.** The outcomes are serial whenever no
call acts between the check and the act of a call that has checked what it changes. -/
theorem serial_of_undisturbed {acts : List VpcAction} {u : VpcCalls}
    (hr : run step new acts = some u) (hg : Guarded step Undisturbed new acts) : u.Serial := by
  have hfresh : new.AllFresh := fun c k hc => by cases hc
  have htrue : Guarded step ActsOnTruth new acts :=
    hg.imp (I := AllFresh) (fun _ _ _ h hg hs => h.step hg hs) (fun _ _ h _ => h.actsOnTruth) hfresh
  exact (htrue.invariant (I := Inv) (fun _ _ _ h hg hs => h.step hg hs) inv_new hr).serial

end VpcCalls

end OCF.Network
