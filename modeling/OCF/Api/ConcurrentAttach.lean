import OCF.Api.Attachments

/-!
# Concurrent attachments

Attaching a workload takes four steps (read the prior attachment, release its address, allocate an
address, record it), and detaching takes two (remove the attachment, release its address). Each step
holds one lock; between two steps of a call any other call can run. `attach_alone` and
`detach_alone` are the steps of a call that is left alone, which is what the controller's operations
do in one go.

The proof keeps a ledger of who holds which address: a workload holds the address recorded for it,
until an attachment in progress has released it, and a call holds an address between taking it and
passing it on. Every step moves, returns or takes one entry of the ledger. What an attachment in
progress has read must not change under it, so a run is sound when no call on a workload begins
while an attachment of the same workload is in progress (`concurrent_attachments_consistent`).
-/

namespace OCF.Api

open OCF.Network OCF.Runtime OCF.Store

/-! ## Accounting for addresses -/

/-- The addresses of a subnet that are in use, its gateway apart. -/
def hostsInUse (n : NetworkController) (subnetId : Id) : Set UInt32 :=
  {m | ∃ a, n.ipam.lookup subnetId = some a ∧ m ∈ a.used ∧
    checkedHost a.base a.prefixLen 1 ≠ some m}

/-- The owners hold exactly the addresses in use, each for itself. -/
structure Accounted {O : Type*} (n : NetworkController) (own : O → Option (Id × String)) : Prop where
  gateway : ∀ id a gw, n.ipam.lookup id = some a → checkedHost a.base a.prefixLen 1 = some gw →
    gw ∈ a.used
  inUse : ∀ id, {addr | ∃ o, own o = some (id, addr)} = formatIpv4 '' (hostsInUse n id)
  unique : ∀ o o' x, own o = some x → own o' = some x → o = o'

/-- What an attachment holds: an address in a subnet. -/
def held (att : NetworkAttachment) : Option (Id × String) :=
  att.address.map fun addr => (att.subnetId, addr)

/-- Return what a removed or replaced attachment holds. -/
def releaseHeld (n : NetworkController) : Option NetworkAttachment → NetworkController
  | some att => n.releaseAddress att.subnetId (att.address.getD "")
  | none => n

namespace Accounted

variable {O : Type*} {n n' : NetworkController} {own : O → Option (Id × String)}

theorem congr (h : Accounted n own) (hi : ∀ id, n'.ipam.lookup id = n.ipam.lookup id) :
    Accounted n' own := by
  refine ⟨fun id a gw ha => h.gateway id a gw (hi id ▸ ha), fun id => ?_, h.unique⟩
  rw [h.inUse]
  simp only [hostsInUse, hi]

theorem exists_owner (h : Accounted n own) {id : Id} {a : SubnetAllocator} {m : UInt32}
    (ha : n.ipam.lookup id = some a) (hm : m ∈ a.used)
    (hgw : checkedHost a.base a.prefixLen 1 ≠ some m) : ∃ o, own o = some (id, formatIpv4 m) := by
  have hmem : formatIpv4 m ∈ formatIpv4 '' (hostsInUse n id) := ⟨m, ⟨a, ha, hm, hgw⟩, rfl⟩
  rwa [← h.inUse] at hmem

theorem of_owner (h : Accounted n own) {o : O} {id : Id} {addr : String}
    (ho : own o = some (id, addr)) : ∃ a m, n.ipam.lookup id = some a ∧ m ∈ a.used ∧
      checkedHost a.base a.prefixLen 1 ≠ some m ∧ addr = formatIpv4 m := by
  have hmem : addr ∈ {addr | ∃ o, own o = some (id, addr)} := ⟨o, ho⟩
  rw [h.inUse] at hmem
  obtain ⟨m, ⟨a, ha, hm, hgw⟩, rfl⟩ := hmem
  exact ⟨a, m, ha, hm, hgw, rfl⟩

/-- An accounting from its two directions. -/
theorem of_iff (hg : ∀ id a gw, n.ipam.lookup id = some a →
      checkedHost a.base a.prefixLen 1 = some gw → gw ∈ a.used)
    (hof : ∀ o id addr, own o = some (id, addr) → ∃ a m, n.ipam.lookup id = some a ∧ m ∈ a.used ∧
      checkedHost a.base a.prefixLen 1 ≠ some m ∧ addr = formatIpv4 m)
    (hex : ∀ id a m, n.ipam.lookup id = some a → m ∈ a.used →
      checkedHost a.base a.prefixLen 1 ≠ some m → ∃ o, own o = some (id, formatIpv4 m))
    (hu : ∀ o o' x, own o = some x → own o' = some x → o = o') : Accounted n own := by
  refine ⟨hg, fun id => Set.ext fun addr => ⟨?_, ?_⟩, hu⟩
  · rintro ⟨o, ho⟩
    obtain ⟨a, m, ha, hm, hgw, rfl⟩ := hof o id addr ho
    exact ⟨m, ⟨a, ha, hm, hgw⟩, rfl⟩
  · rintro ⟨m, ⟨a, ha, hm, hgw⟩, rfl⟩
    exact hex id a m ha hm hgw

variable [DecidableEq O]

/-- An owner returns its address. -/
theorem release (h : Accounted n own) {o : O} {id : Id} {addr : String}
    (ho : own o = some (id, addr)) :
    Accounted (n.releaseAddress id addr) (Function.update own o none) := by
  obtain ⟨a, m, ha, hm, hgw, rfl⟩ := h.of_owner ho
  have hlook := n.lookup_ipam_release_host ha hgw
  have hother : ∀ x y, Function.update own o none x = some y → own x = some y ∧ x ≠ o :=
    fun x y hx => by
      rw [Function.update_apply] at hx
      split_ifs at hx with hxo
      exact ⟨hx, hxo⟩
  refine of_iff (NetworkController.GatewaysInUse.release n h.gateway ha hgw) (fun x id' addr' hx => ?_)
    (fun x b k hb hk hgwk => ?_)
    fun x x' y hx hx' => h.unique x x' y (hother x y hx).1 (hother x' y hx').1
  · -- another owner in the subnet holds another address, which stays in use
    obtain ⟨hx, hxo⟩ := hother x _ hx
    obtain ⟨b, k, hb, hk, hgwk, rfl⟩ := h.of_owner hx
    rw [hlook]
    split_ifs with hid
    · subst hid
      obtain rfl := Option.some.inj (ha.symm.trans hb)
      have hne : k ≠ m := fun e => hxo (h.unique x o _ hx (e ▸ ho))
      exact ⟨_, k, rfl, Finset.mem_erase.2 ⟨hne, hk⟩, hgwk, rfl⟩
    · exact ⟨b, k, hb, hk, hgwk, rfl⟩
  · have hold : ∃ o', own o' = some (x, formatIpv4 k) ∧ (x, formatIpv4 k) ≠ (id, formatIpv4 m) := by
      rw [hlook] at hb
      split_ifs at hb with hid
      · obtain rfl := Option.some.inj hb
        obtain ⟨hkm, hk⟩ := Finset.mem_erase.1 hk
        obtain ⟨o', ho'⟩ := h.exists_owner ha hk hgwk
        exact ⟨o', hid ▸ ho', fun e => hkm (formatIpv4_injective (congrArg Prod.snd e))⟩
      · obtain ⟨o', ho'⟩ := h.exists_owner hb hk hgwk
        exact ⟨o', ho', fun e => hid (congrArg Prod.fst e)⟩
    obtain ⟨o', ho', hne⟩ := hold
    refine ⟨o', ?_⟩
    rw [Function.update_of_ne, ho']
    rintro rfl
    exact hne (Option.some.inj (ho'.symm.trans ho))

/-- Releasing what an attachment holds, if it holds anything. -/
theorem releaseHeld (h : Accounted n own) {o : O} {att : Option NetworkAttachment}
    (ho : own o = att.bind held) : Accounted (releaseHeld n att) (Function.update own o none) := by
  rcases att with - | ⟨id, egress, - | addr⟩
  · rw [← show own o = none from ho, Function.update_eq_self]
    exact h
  · rw [← show own o = none from ho, Function.update_eq_self]
    refine h.congr fun x => ?_
    have hnone : ∀ a : SubnetAllocator, a.release "" = a := fun a => by
      unfold SubnetAllocator.release
      rw [show parseIpv4 "" = none by decide]
    rw [Api.releaseHeld, NetworkController.lookup_ipam_releaseAddress]
    split_ifs with hx
    · rw [hx, Option.getD_none, funext hnone]
      exact Option.map_id'
    · rfl
  · exact h.release ho

/-- A new owner is given an address that was free. -/
theorem allocate (h : Accounted n own) {o : O} (ho : own o = none) {id : Id}
    {a a' : SubnetAllocator} {addr : String} (ha : n.ipam.lookup id = some a)
    (halloc : a.allocate = .ok (addr, a')) :
    Accounted { n with ipam := n.ipam.insert id a' } (Function.update own o (some (id, addr))) := by
  obtain ⟨m, rfl, rfl, hfree, -⟩ := SubnetAllocator.allocate_ok halloc
  have hgw : checkedHost a.base a.prefixLen 1 ≠ some m := fun e => hfree (h.gateway id a m ha e)
  have hlook : ∀ x, (n.ipam.insert id { a with used := insert m a.used }).lookup x =
      if x = id then some { a with used := insert m a.used } else n.ipam.lookup x :=
    fun x => HashMap.lookup_insert_eq ..
  have hnew : ∀ x, own x ≠ some (id, formatIpv4 m) := fun x hx => by
    obtain ⟨b, k, hb, hk, -, e⟩ := h.of_owner hx
    obtain rfl := Option.some.inj (ha.symm.trans hb)
    exact hfree (formatIpv4_injective e ▸ hk)
  refine of_iff (NetworkController.GatewaysInUse.allocate n h.gateway ha) (fun x id' addr' hx => ?_)
    (fun x b k hb hk hgwk => ?_) fun x x' y hx hx' => ?_
  · rw [Function.update_apply] at hx
    dsimp only
    rw [hlook]
    split_ifs at hx with hxo
    · obtain ⟨rfl, rfl⟩ := Prod.mk.inj (Option.some.inj hx)
      exact ⟨_, m, if_pos rfl, Finset.mem_insert_self m a.used, hgw, rfl⟩
    · obtain ⟨b, k, hb, hk, hgwk, rfl⟩ := h.of_owner hx
      split_ifs with hid
      · subst hid
        obtain rfl := Option.some.inj (ha.symm.trans hb)
        exact ⟨_, k, rfl, Finset.mem_insert_of_mem hk, hgwk, rfl⟩
      · exact ⟨b, k, hb, hk, hgwk, rfl⟩
  · have hkeep : ∀ o' y, own o' = some y → Function.update own o (some (id, formatIpv4 m)) o' =
        some y := fun o' y hy => by
      rw [Function.update_of_ne, hy]
      rintro rfl
      rw [ho] at hy
      contradiction
    dsimp only at hb
    rw [hlook] at hb
    split_ifs at hb with hid
    · obtain rfl := Option.some.inj hb
      obtain rfl | hk := Finset.mem_insert.1 hk
      · exact ⟨o, by rw [Function.update_self, hid]⟩
      · obtain ⟨o', ho'⟩ := h.exists_owner ha hk hgwk
        exact ⟨o', hkeep o' _ (hid ▸ ho')⟩
    · obtain ⟨o', ho'⟩ := h.exists_owner hb hk hgwk
      exact ⟨o', hkeep o' _ ho'⟩
  · rw [Function.update_apply] at hx hx'
    split_ifs at hx hx' with h₁ h₂ h₂
    · rw [h₁, h₂]
    · exact absurd (hx'.trans hx.symm) (hnew x')
    · exact absurd (hx.trans hx'.symm) (hnew x)
    · exact h.unique x x' y hx hx'

/-- An owner passes what it holds on to one that holds nothing. -/
theorem transfer (h : Accounted n own) {o o' : O} (hne : o ≠ o') (ho' : own o' = none) :
    Accounted n (Function.update (Function.update own o none) o' (own o)) := by
  have hmoved : ∀ x y, Function.update (Function.update own o none) o' (own o) x = some y ↔
      (x = o' ∧ own o = some y) ∨ (x ≠ o' ∧ x ≠ o ∧ own x = some y) := by
    intro x y
    rw [Function.update_apply, Function.update_apply]
    split_ifs with h₁ h₂
    · simp [h₁]
    · simp [h₂, hne]
    · simp [h₁, h₂]
  refine ⟨h.gateway, fun id => ?_, fun x x' y hx hx' => ?_⟩
  · rw [← h.inUse]
    refine Set.ext fun addr => ⟨?_, ?_⟩
    · rintro ⟨x, hx⟩
      obtain ⟨-, hx⟩ | ⟨-, -, hx⟩ := (hmoved x _).1 hx
      · exact ⟨o, hx⟩
      · exact ⟨x, hx⟩
    · rintro ⟨x, hx⟩
      by_cases hxo : x = o
      · exact ⟨o', (hmoved o' _).2 (.inl ⟨rfl, hxo ▸ hx⟩)⟩
      · refine ⟨x, (hmoved x _).2 (.inr ⟨?_, hxo, hx⟩)⟩
        rintro rfl
        rw [ho'] at hx
        contradiction
  · obtain ⟨e, ho⟩ | ⟨-, hxo, hx⟩ := (hmoved x y).1 hx <;>
      obtain ⟨e', ho'⟩ | ⟨-, hxo', hx'⟩ := (hmoved x' y).1 hx'
    · exact e.trans e'.symm
    · exact absurd (h.unique _ _ y hx' ho) hxo'
    · exact absurd (h.unique _ _ y hx ho') hxo
    · exact h.unique _ _ y hx hx'

end Accounted

/-! ## Calls in steps -/

/-- How far an attachment has come. -/
inductive AttachPhase
  | called
  | read (prev : Option NetworkAttachment)
  | released
  | allocated (address : String)
  | done

/-- How far a detachment has come. -/
inductive DetachPhase
  | called
  | removed (att : Option NetworkAttachment)
  | done

/-- A call in progress. -/
inductive AttachmentCall
  | attach (workloadId subnetId : Id) (egress : Bool) (phase : AttachPhase)
  | detach (workloadId : Id) (phase : DetachPhase)

namespace AttachmentCall

/-- The workload of a call. -/
def workload : AttachmentCall → Id
  | .attach w _ _ _ => w
  | .detach w _ => w

/-- The call has not taken a step. -/
def starting : AttachmentCall → Bool
  | .attach _ _ _ .called => true
  | .detach _ .called => true
  | _ => false

/-- The call has returned. -/
def finished : AttachmentCall → Bool
  | .attach _ _ _ .done => true
  | .detach _ .done => true
  | _ => false

/-- An attachment of the workload that has read the prior attachment and not yet recorded its own. -/
def inProgress (w : Id) : AttachmentCall → Bool
  | .attach w' _ _ (.read _) => w' = w
  | .attach w' _ _ .released => w' = w
  | .attach w' _ _ (.allocated _) => w' = w
  | _ => false

/-- An attachment in progress that has released the prior address of the workload. -/
def withdraws (w : Id) : AttachmentCall → Bool
  | .attach w' _ _ .released => w' = w
  | .attach w' _ _ (.allocated _) => w' = w
  | _ => false

/-- What a call holds itself. -/
def holding : AttachmentCall → Option (Id × String)
  | .attach _ s _ (.allocated addr) => some (s, addr)
  | .detach _ (.removed att) => att.bind held
  | _ => none

end AttachmentCall

/-- A controller and the calls on it. -/
structure Concurrent where
  controller : FabricController
  calls : HashMap ℕ AttachmentCall

/-- What can happen next: a call begins or goes on. -/
inductive ConcurrentAction
  | attach (c : ℕ) (workloadId subnetId : Id) (egress : Bool)
  | detach (c : ℕ) (workloadId : Id)
  /-- The call takes its next step. -/
  | step (c : ℕ)

namespace Concurrent

/-- The next step of an attachment; none when the call would fail there. What follows the recording
(egress, overlay, persist) does not concern the addresses. -/
def stepAttach (ctl : FabricController) (w s : Id) (egress : Bool) :
    AttachPhase → Option (FabricController × AttachPhase)
  | .called => if s ∈ ctl.network.subnets then some (ctl, .read (ctl.attachments.lookup w)) else none
  | .read prev => some ({ ctl with network := releaseHeld ctl.network prev }, .released)
  | .released =>
    match ctl.network.allocateAddress s with
    | (.ok address, network) => some ({ ctl with network := network }, .allocated address)
    | (.error _, _) => none
  | .allocated address =>
    let attachment := ((NetworkAttachment.new s).withEgress egress).withAddress address
    some ({ ctl with attachments := ctl.attachments.insert w attachment }, .done)
  | .done => none

/-- The next step of a detachment. -/
def stepDetach (ctl : FabricController) (w : Id) :
    DetachPhase → Option (FabricController × DetachPhase)
  | .called => some ({ ctl with attachments := ctl.attachments.erase w },
      .removed (ctl.attachments.lookup w))
  | .removed att => some ({ ctl with network := releaseHeld ctl.network att }, .done)
  | .done => none

/-- The next step of a call: the controller and the call afterwards. -/
def stepCall (ctl : FabricController) : AttachmentCall → Option (FabricController × AttachmentCall)
  | .attach w s egress phase =>
    (stepAttach ctl w s egress phase).map fun r => (r.1, .attach w s egress r.2)
  | .detach w phase => (stepDetach ctl w phase).map fun r => (r.1, .detach w r.2)

/-- One action. -/
def step (s : Concurrent) : ConcurrentAction → Option Concurrent
  | .attach c w id egress =>
    if c ∈ s.calls then none else some { s with calls := s.calls.insert c (.attach w id egress .called) }
  | .detach c w =>
    if c ∈ s.calls then none else some { s with calls := s.calls.insert c (.detach w .called) }
  | .step c =>
    (s.calls.lookup c).bind fun call => (stepCall s.controller call).map fun r =>
      ⟨r.1, s.calls.insert c r.2⟩

/-- Every call has run to its end. -/
def Finished (s : Concurrent) : Prop := ∀ c call, s.calls.lookup c = some call → call.finished

/-- A call takes its first step only while no attachment of the same workload is in progress. -/
def BeginsAlone (s : Concurrent) : ConcurrentAction → Prop
  | .step c => ∀ call, s.calls.lookup c = some call → call.starting →
      ∀ c' call', s.calls.lookup c' = some call' → ¬call'.inProgress call.workload
  | _ => True

instance (s : Concurrent) : ∀ a, Decidable (s.BeginsAlone a)
  | .attach .. | .detach .. => .isTrue trivial
  | .step c => decidable_of_iff (∀ call ∈ s.calls.lookup c, call.starting →
      ∀ call' ∈ HashMap.values s.calls, ¬call'.inProgress call.workload) <| by
    simp only [BeginsAlone, HashMap.mem_values, Option.mem_def]
    exact ⟨fun h call hc hs c' k hk => h call hc hs k ⟨c', hk⟩,
      fun h call hc hs k ⟨c', hk⟩ => h call hc hs c' k hk⟩

end Concurrent

/-- The addresses in use are the recorded ones, each recorded for one workload. -/
def FabricController.AddressesConsistent (c : FabricController) : Prop :=
  Accounted c.network fun w => (c.attachments.lookup w).bind held

/-! ## The ledger -/

namespace Concurrent

/-- The prior address of the workload has been released by an attachment in progress. -/
def Withdrawn (s : Concurrent) (w : Id) : Prop :=
  ∃ c call, s.calls.lookup c = some call ∧ call.withdraws w

open Classical in
/-- Who holds which address: the workloads by their records, and the calls. -/
noncomputable def ledger (s : Concurrent) : Id ⊕ ℕ → Option (Id × String)
  | .inl w => if s.Withdrawn w then none else (s.controller.attachments.lookup w).bind held
  | .inr c => (s.calls.lookup c).bind AttachmentCall.holding

variable {s s' : Concurrent} {c : ℕ} {call call' : AttachmentCall} {ctl : FabricController}

theorem withdraws_workload {w : Id} (h : call.withdraws w) : w = call.workload := by
  unfold AttachmentCall.withdraws at h
  split at h
  · exact (of_decide_eq_true h).symm
  · exact (of_decide_eq_true h).symm
  · contradiction

theorem inProgress_workload {w : Id} (h : call.inProgress w) : w = call.workload := by
  unfold AttachmentCall.inProgress at h
  split at h
  · exact (of_decide_eq_true h).symm
  · exact (of_decide_eq_true h).symm
  · exact (of_decide_eq_true h).symm
  · contradiction

theorem inProgress_of_withdraws {w : Id} (h : call.withdraws w) : call.inProgress w := by
  unfold AttachmentCall.withdraws at h
  split at h
  · exact h
  · exact h
  · contradiction

theorem withdrawn_insert {x : Id} : Withdrawn ⟨ctl, s.calls.insert c call'⟩ x ↔
    call'.withdraws x ∨ ∃ c' k, c' ≠ c ∧ s.calls.lookup c' = some k ∧ k.withdraws x := by
  constructor
  · rintro ⟨c', k, hk, hw⟩
    rw [HashMap.lookup_insert_eq] at hk
    split_ifs at hk with hc
    · exact .inl (Option.some.inj hk ▸ hw)
    · exact .inr ⟨c', k, hc, hk, hw⟩
  · rintro (hw | ⟨c', k, hc, hk, hw⟩)
    · exact ⟨c, call', AList.lookup_insert _, hw⟩
    · exact ⟨c', k, (AList.lookup_insert_ne hc).trans hk, hw⟩

theorem ledger_insert_inr (c' : ℕ) : ledger ⟨ctl, s.calls.insert c call'⟩ (.inr c') =
    if c' = c then call'.holding else s.ledger (.inr c') := by
  unfold ledger
  dsimp only
  rw [HashMap.lookup_insert_eq]
  split_ifs <;> rfl

/-- A step that leaves the records, and what is withdrawn, as they are changes at most what the call
holds. -/
theorem ledger_call (hatt : ctl.attachments = s.controller.attachments)
    (hw : ∀ x, call'.withdraws x ↔ ∃ k, s.calls.lookup c = some k ∧ k.withdraws x) :
    ledger ⟨ctl, s.calls.insert c call'⟩ = Function.update s.ledger (.inr c) call'.holding := by
  have hsame : ∀ x, Withdrawn ⟨ctl, s.calls.insert c call'⟩ x ↔ s.Withdrawn x := by
    intro x
    rw [withdrawn_insert, hw]
    constructor
    · rintro (⟨k, hk, hx⟩ | ⟨c', k, -, hk, hx⟩)
      · exact ⟨c, k, hk, hx⟩
      · exact ⟨c', k, hk, hx⟩
    · rintro ⟨c', k, hk, hx⟩
      by_cases hc : c' = c
      · exact .inl ⟨k, hc ▸ hk, hx⟩
      · exact .inr ⟨c', k, hc, hk, hx⟩
  funext o
  cases o with
  | inl x =>
    rw [Function.update_of_ne (by simp)]
    by_cases hx : s.Withdrawn x <;> simp [ledger, hsame, hx, hatt]
  | inr c' =>
    rw [ledger_insert_inr, Function.update_apply]
    simp

section Record

variable {w : Id} (hc : s.calls.lookup c = some call)
  (halone : ∀ c' k, s.calls.lookup c' = some k → c' ≠ c → ¬k.inProgress w)

include hc halone

/-- What a workload holds while at most one call on it is in progress. -/
theorem ledger_inl : s.ledger (.inl w) =
    if call.withdraws w then none else (s.controller.attachments.lookup w).bind held := by
  have hold : s.Withdrawn w ↔ call.withdraws w := by
    constructor
    · rintro ⟨c', k, hk, hx⟩
      by_cases hcc : c' = c
      · rw [hcc, hc] at hk
        exact Option.some.inj hk ▸ hx
      · exact absurd (inProgress_of_withdraws hx) (halone c' k hk hcc)
    · exact fun h => ⟨c, call, hc, h⟩
  simp only [ledger, hold]

/-- A step of this call that changes the record of the workload, or withdraws it. -/
theorem ledger_record (ctl : FabricController) (call' : AttachmentCall) (hw : call.workload = w)
    (hw' : call'.workload = w)
    (hatt : ∀ x ≠ w, ctl.attachments.lookup x = s.controller.attachments.lookup x) :
    ledger ⟨ctl, s.calls.insert c call'⟩ = Function.update (Function.update s.ledger (.inl w)
      (if call'.withdraws w then none else (ctl.attachments.lookup w).bind held))
        (.inr c) call'.holding := by
  have halone' : ∀ c' k, (s.calls.insert c call').lookup c' = some k → c' ≠ c → ¬k.inProgress w :=
    fun c' k hk hne => halone c' k (by rwa [AList.lookup_insert_ne hne] at hk) hne
  funext o
  cases o with
  | inl x =>
    rw [Function.update_of_ne (by simp), Function.update_apply]
    by_cases hx : x = w
    · rw [hx, if_pos rfl]
      exact ledger_inl (AList.lookup_insert _) halone'
    · have hsame : Withdrawn ⟨ctl, s.calls.insert c call'⟩ x ↔ s.Withdrawn x := by
        rw [withdrawn_insert]
        constructor
        · rintro (h | ⟨c', k, -, hk, h⟩)
          · exact absurd ((withdraws_workload h).trans hw') hx
          · exact ⟨c', k, hk, h⟩
        · rintro ⟨c', k, hk, h⟩
          refine .inr ⟨c', k, ?_, hk, h⟩
          rintro rfl
          obtain rfl := Option.some.inj (hk.symm.trans hc)
          exact hx ((withdraws_workload h).trans hw)
      rw [if_neg (by simpa using hx)]
      by_cases hxw : s.Withdrawn x <;> simp [ledger, hsame, hxw, hatt x hx]
  | inr c' =>
    rw [ledger_insert_inr, Function.update_apply]
    simp

end Record

/-! ## One step -/

/-- Every address in use is on the ledger, at most one attachment per workload is in progress, and
what an attachment has read is still so. -/
structure Inv (s : Concurrent) : Prop where
  accounted : Accounted s.controller.network s.ledger
  sole : ∀ c c' k k' w, s.calls.lookup c = some k → s.calls.lookup c' = some k' →
    k.inProgress w → k'.inProgress w → c = c'
  fresh : ∀ c w id egress prev, s.calls.lookup c = some (.attach w id egress (.read prev)) →
    s.controller.attachments.lookup w = prev

/-- A step of a call keeps the invariant when it keeps the ledger balanced, when the call was in
progress before or is alone, and when it changes at most the record of its own workload, which no
other attachment has read. -/
theorem Inv.of_step (h : s.Inv) {w : Id} (hw' : call'.workload = w)
    {own : Id ⊕ ℕ → Option (Id × String)} (hown : ledger ⟨ctl, s.calls.insert c call'⟩ = own)
    (hacc : Accounted ctl.network own)
    (halone : call'.inProgress w → ∀ c' k, s.calls.lookup c' = some k → c' ≠ c → ¬k.inProgress w)
    (hfresh : ∀ id egress prev, call' = .attach w id egress (.read prev) →
      ctl.attachments.lookup w = prev)
    (hatt : ∀ x, ctl.attachments.lookup x = s.controller.attachments.lookup x ∨
      x = w ∧ ∀ c' k, s.calls.lookup c' = some k → c' ≠ c → ¬k.inProgress w) :
    Inv ⟨ctl, s.calls.insert c call'⟩ := by
  refine ⟨hown ▸ hacc, fun c₁ c₂ k₁ k₂ x h₁ h₂ hk₁ hk₂ => ?_, fun c₁ x id egress prev h₁ => ?_⟩
  · dsimp only at h₁ h₂
    rw [HashMap.lookup_insert_eq] at h₁ h₂
    split_ifs at h₁ h₂ with e₁ e₂ e₂
    · exact e₁.trans e₂.symm
    · obtain rfl := Option.some.inj h₁
      obtain rfl := (inProgress_workload hk₁).trans hw'
      exact absurd hk₂ (halone hk₁ c₂ k₂ h₂ e₂)
    · obtain rfl := Option.some.inj h₂
      obtain rfl := (inProgress_workload hk₂).trans hw'
      exact absurd hk₁ (halone hk₂ c₁ k₁ h₁ e₁)
    · exact h.sole c₁ c₂ k₁ k₂ x h₁ h₂ hk₁ hk₂
  · dsimp only at h₁ ⊢
    obtain ⟨-, rfl⟩ | ⟨e₁, h₁⟩ := HashMap.lookup_insert_eq_some.1 h₁
    · obtain rfl : x = w := hw'
      exact hfresh id egress prev rfl
    · obtain hsame | ⟨rfl, hnone⟩ := hatt x
      · rw [hsame]
        exact h.fresh c₁ x id egress prev h₁
      · exact absurd (by simp [AttachmentCall.inProgress]) (hnone c₁ _ h₁ e₁)

theorem Inv.alone (h : s.Inv) {w : Id} (hc : s.calls.lookup c = some call)
    (hp : call.inProgress w) (c' : ℕ) (k : AttachmentCall) (hk : s.calls.lookup c' = some k)
    (hne : c' ≠ c) : ¬k.inProgress w :=
  fun hkp => hne (h.sole c' c k call w hk hc hkp hp)

theorem Inv.stepAttach (h : s.Inv) {w id : Id} {egress : Bool} {phase phase' : AttachPhase}
    (hc : s.calls.lookup c = some (.attach w id egress phase))
    (hg : s.BeginsAlone (.step c))
    (hs : Concurrent.stepAttach s.controller w id egress phase = some (ctl, phase')) :
    Inv ⟨ctl, s.calls.insert c (.attach w id egress phase')⟩ := by
  have hmine : s.ledger (.inr c) = AttachmentCall.holding (.attach w id egress phase) := by
    simp [ledger, hc]
  cases phase with
  | called =>
    simp only [Concurrent.stepAttach] at hs
    split_ifs at hs
    obtain ⟨rfl, rfl⟩ := Prod.mk.inj (Option.some.inj hs)
    have halone : ∀ c' k, s.calls.lookup c' = some k → c' ≠ c → ¬k.inProgress w :=
      fun c' k hk _ => hg _ hc rfl c' k hk
    refine h.of_step rfl (ledger_call rfl (by simp [hc, AttachmentCall.withdraws])) ?_
      (fun _ => halone) (fun _ _ _ e => ?_) fun _ => .inl rfl
    · rw [Function.update_eq_self_iff.2 hmine.symm]
      exact h.accounted
    · simp only [AttachmentCall.attach.injEq, AttachPhase.read.injEq] at e
      exact e.2.2.2
  | read prev =>
    obtain ⟨rfl, rfl⟩ := Prod.mk.inj (Option.some.inj hs)
    have halone := h.alone hc (w := w) (by simp [AttachmentCall.inProgress])
    refine h.of_step rfl (ledger_record hc halone _ _ rfl rfl fun _ _ => rfl) ?_
      (fun _ => halone) (by simp) fun _ => .inl rfl
    -- the record is as it was read, and what it holds is released
    have hown : s.ledger (.inl w) = prev.bind held := by
      rw [ledger_inl hc halone, h.fresh c w id egress prev hc]
      simp [AttachmentCall.withdraws]
    rw [if_pos (by simp [AttachmentCall.withdraws]), Function.update_eq_self_iff.2]
    · exact h.accounted.releaseHeld hown
    · rw [Function.update_of_ne (by simp), hmine]
      rfl
  | released =>
    obtain ⟨-, e, he⟩ | ⟨a, addr, a', ha, halloc, he⟩ :=
      s.controller.network.allocateAddress_cases id
    · simp [Concurrent.stepAttach, he] at hs
    · simp only [Concurrent.stepAttach, he, Option.some.injEq, Prod.mk.injEq] at hs
      obtain ⟨rfl, rfl⟩ := hs
      have halone := h.alone hc (w := w) (by simp [AttachmentCall.inProgress])
      exact h.of_step rfl (ledger_call rfl (by simp [hc, AttachmentCall.withdraws]))
        (h.accounted.allocate hmine ha halloc) (fun _ => halone) (by simp) fun _ => .inl rfl
  | allocated addr =>
    obtain ⟨rfl, rfl⟩ := Prod.mk.inj (Option.some.inj hs)
    have halone := h.alone hc (w := w) (by simp [AttachmentCall.inProgress])
    have hrec : ∀ x, (s.controller.attachments.insert w ⟨id, egress, some addr⟩).lookup x =
        s.controller.attachments.lookup x ∨ x = w := fun x => by
      rw [HashMap.lookup_insert_eq]
      split_ifs with hx
      · exact .inr hx
      · exact .inl rfl
    refine h.of_step rfl
      (ledger_record hc halone _ _ rfl rfl fun x hx => (hrec x).resolve_right hx) ?_
      (by simp [AttachmentCall.inProgress]) (by simp)
      fun x => (hrec x).imp_right fun hx => ⟨hx, halone⟩
    -- the workload takes over what the call holds
    have hown : s.ledger (.inl w) = none :=
      (ledger_inl hc halone).trans (if_pos (by simp [AttachmentCall.withdraws]))
    have hmoved := h.accounted.transfer (o := .inr c) Sum.inr_ne_inl hown
    rw [hmine, Function.update_comm (by simp)] at hmoved
    simpa [AttachmentCall.withdraws, held, AttachmentCall.holding, NetworkAttachment.new,
      NetworkAttachment.withEgress, NetworkAttachment.withAddress] using hmoved
  | done => simp [Concurrent.stepAttach] at hs

theorem Inv.stepDetach (h : s.Inv) {w : Id} {phase phase' : DetachPhase}
    (hc : s.calls.lookup c = some (.detach w phase)) (hg : s.BeginsAlone (.step c))
    (hs : Concurrent.stepDetach s.controller w phase = some (ctl, phase')) :
    Inv ⟨ctl, s.calls.insert c (.detach w phase')⟩ := by
  have hmine : s.ledger (.inr c) = AttachmentCall.holding (.detach w phase) := by
    simp [ledger, hc]
  cases phase with
  | called =>
    obtain ⟨rfl, rfl⟩ := Prod.mk.inj (Option.some.inj hs)
    have halone : ∀ c' k, s.calls.lookup c' = some k → c' ≠ c → ¬k.inProgress w :=
      fun c' k hk _ => hg _ hc rfl c' k hk
    have hrec : ∀ x, (s.controller.attachments.erase w).lookup x =
        s.controller.attachments.lookup x ∨ x = w := fun x => by
      rw [HashMap.lookup_erase_eq]
      split_ifs with hx
      · exact .inr hx
      · exact .inl rfl
    refine h.of_step rfl
      (ledger_record hc halone _ _ rfl rfl fun x hx => (hrec x).resolve_right hx) ?_
      (by simp [AttachmentCall.inProgress]) (by simp)
      fun x => (hrec x).imp_right fun hx => ⟨hx, halone⟩
    -- the call takes over what the workload holds
    have hmoved := h.accounted.transfer (o := .inl w) Sum.inl_ne_inr hmine
    rw [ledger_inl hc halone] at hmoved
    simpa [AttachmentCall.withdraws, AttachmentCall.holding] using hmoved
  | removed att =>
    obtain ⟨rfl, rfl⟩ := Prod.mk.inj (Option.some.inj hs)
    exact h.of_step rfl (ledger_call rfl (by simp [hc, AttachmentCall.withdraws]))
      (h.accounted.releaseHeld hmine) (by simp [AttachmentCall.inProgress]) (by simp)
      fun _ => .inl rfl
  | done => simp [Concurrent.stepDetach] at hs

/-- **Every step under the condition keeps the invariant.** -/
theorem Inv.step (h : s.Inv) {a : ConcurrentAction} (hg : s.BeginsAlone a)
    (hs : s.step a = some s') : s'.Inv := by
  have hcall : ∀ c ∉ s.calls, ∀ k : AttachmentCall, k.starting →
      Inv { s with calls := s.calls.insert c k } := by
    intro c hc k hk
    have hnew : s.calls.lookup c = none := AList.lookup_eq_none.2 hc
    have hidle : k.holding = none ∧ ∀ x, k.withdraws x = false ∧ k.inProgress x = false := by
      rcases k with ⟨w, id, egress, phase⟩ | ⟨w, phase⟩ <;> cases phase <;>
        simp_all [AttachmentCall.starting, AttachmentCall.holding, AttachmentCall.withdraws,
          AttachmentCall.inProgress]
    refine h.of_step rfl (ledger_call rfl (by simp [hnew, hidle])) ?_ (by simp [hidle])
      (fun id egress prev e => ?_) fun _ => .inl rfl
    · rw [hidle.1, Function.update_eq_self_iff.2]
      · exact h.accounted
      · simp [ledger, hnew]
    · rw [e] at hk
      simp [AttachmentCall.starting] at hk
  cases a with
  | attach c w id egress =>
    simp only [Concurrent.step] at hs
    split_ifs at hs with hc
    obtain rfl := Option.some.inj hs
    exact hcall c hc _ rfl
  | detach c w =>
    simp only [Concurrent.step] at hs
    split_ifs at hs with hc
    obtain rfl := Option.some.inj hs
    exact hcall c hc _ rfl
  | step c =>
    simp only [Concurrent.step, Option.bind_eq_some_iff, Option.map_eq_some_iff] at hs
    obtain ⟨call, hc, ⟨ctl, call'⟩, hstep, rfl⟩ := hs
    cases call with
    | attach w id egress phase =>
      obtain ⟨⟨ctl, phase'⟩, hphase, he⟩ := Option.map_eq_some_iff.1 hstep
      obtain ⟨rfl, rfl⟩ := Prod.mk.inj he
      exact h.stepAttach hc hg hphase
    | detach w phase =>
      obtain ⟨⟨ctl, phase'⟩, hphase, he⟩ := Option.map_eq_some_iff.1 hstep
      obtain ⟨rfl, rfl⟩ := Prod.mk.inj he
      exact h.stepDetach hc hg hphase

theorem inv_of_consistent {ctl : FabricController} (h : ctl.AddressesConsistent) : Inv ⟨ctl, ∅⟩ := by
  have hlook : ∀ c, (∅ : HashMap ℕ AttachmentCall).lookup c = none := fun c => AList.lookup_empty c
  have hidle : ∀ w, ¬Withdrawn ⟨ctl, ∅⟩ w := by
    rintro w ⟨c, k, hk, -⟩
    simp [hlook] at hk
  have hw : ∀ w, ledger ⟨ctl, ∅⟩ (.inl w) = (ctl.attachments.lookup w).bind held :=
    fun w => if_neg (hidle w)
  have hof : ∀ o x, ledger ⟨ctl, ∅⟩ o = some x → ∃ w, o = .inl w ∧
      (ctl.attachments.lookup w).bind held = some x := by
    rintro (w | c) x hx
    · exact ⟨w, rfl, (hw w).symm.trans hx⟩
    · simp [ledger, hlook] at hx
  refine ⟨Accounted.of_iff h.gateway (fun o id addr ho => ?_) (fun id a m ha hm hgw => ?_)
    fun o o' x ho ho' => ?_, by simp [hlook], by simp [hlook]⟩
  · obtain ⟨w, -, hx⟩ := hof o _ ho
    exact Accounted.of_owner h hx
  · obtain ⟨w, hx⟩ := Accounted.exists_owner h ha hm hgw
    exact ⟨.inl w, (hw w).trans hx⟩
  · obtain ⟨w, rfl, hx⟩ := hof o x ho
    obtain ⟨w', rfl, hx'⟩ := hof o' x ho'
    exact congrArg _ (Accounted.unique h w w' x hx hx')

/-- Once all calls have finished, the ledger lists the records. -/
theorem Inv.consistent (h : s.Inv) (hs : s.Finished) : s.controller.AddressesConsistent := by
  have hidle : ∀ c k, s.calls.lookup c = some k →
      k.holding = none ∧ ∀ x, k.withdraws x = false := by
    intro c k hk
    have hfin := hs c k hk
    rcases k with ⟨w, id, egress, phase⟩ | ⟨w, phase⟩ <;> cases phase <;>
      simp_all [AttachmentCall.finished, AttachmentCall.holding, AttachmentCall.withdraws]
  have hw : ∀ w, s.ledger (.inl w) = (s.controller.attachments.lookup w).bind held := by
    refine fun w => if_neg ?_
    rintro ⟨c, k, hk, hx⟩
    simp [(hidle c k hk).2] at hx
  refine Accounted.of_iff h.accounted.gateway (fun w id addr ho => ?_) (fun id a m ha hm hgw => ?_)
    fun w w' x ho ho' => ?_
  · exact h.accounted.of_owner ((hw w).trans ho)
  · obtain ⟨w | c, ho⟩ := h.accounted.exists_owner ha hm hgw
    · exact ⟨w, (hw w).symm.trans ho⟩
    · obtain ⟨k, hk, hx⟩ := Option.bind_eq_some_iff.1 ho
      rw [(hidle c k hk).1] at hx
      contradiction
  · exact Sum.inl.inj (h.accounted.unique _ _ x ((hw w).trans ho) ((hw w').trans ho'))

/-! ## A call that is left alone -/

/-- An attachment that succeeds leaves the addresses and the records as its steps do. -/
theorem attach_alone {ctl : FabricController} {env : PersistEnv} {w id : Id} {egress : Bool}
    {att : NetworkAttachment} (hok : (ctl.attachWorkload env w id egress).1 = .ok att)
    {calls : HashMap ℕ AttachmentCall} (hc : c ∉ calls) :
    ∃ s, run Concurrent.step ⟨ctl, calls⟩
        [.attach c w id egress, .step c, .step c, .step c, .step c] = some s ∧
      s.controller.attachments = (ctl.attachWorkload env w id egress).2.attachments ∧
      s.controller.network.ipam = (ctl.attachWorkload env w id egress).2.network.ipam := by
  have hprior : ctl.releasePrior w = releaseHeld ctl.network (ctl.attachments.lookup w) := by
    unfold FabricController.releasePrior
    cases ctl.attachments.lookup w <;> rfl
  unfold FabricController.attachWorkload NetworkController.getSubnet at hok ⊢
  cases hs : ctl.network.subnets.lookup id with
  | none => simp [hs] at hok
  | some subnet =>
    have hmem : id ∈ ctl.network.subnets := HashMap.mem_iff_exists_lookup.2 ⟨subnet, hs⟩
    obtain ⟨-, e, he⟩ | ⟨a, addr, a', -, -, he⟩ := (ctl.releasePrior w).allocateAddress_cases id
    · simp [hs, he] at hok
    · rw [hprior] at he ⊢
      simp only [he]
      refine ⟨_, by
        simp only [run_cons, Concurrent.step, hc, if_false, Option.bind_some, AList.lookup_insert,
          stepCall, stepAttach, hmem, if_true, Option.map_some, he]
        rfl, rfl, by simp⟩

/-- So does a detachment. -/
theorem detach_alone (ctl : FabricController) (env : PersistEnv) (w : Id)
    {calls : HashMap ℕ AttachmentCall} (hc : c ∉ calls) :
    ∃ s, run Concurrent.step ⟨ctl, calls⟩ [.detach c w, .step c, .step c] = some s ∧
      (∀ x, s.controller.attachments.lookup x = (ctl.detachWorkload env w).attachments.lookup x) ∧
      s.controller.network.ipam = (ctl.detachWorkload env w).network.ipam := by
  refine ⟨_, by
    simp only [run_cons, Concurrent.step, hc, if_false, Option.bind_some, AList.lookup_insert,
      stepCall, stepDetach, Option.map_some]
    rfl, fun x => ?_, ?_⟩
  · unfold FabricController.detachWorkload
    cases hw : ctl.attachments.lookup w with
    | none =>
      dsimp only
      rw [HashMap.lookup_erase_eq]
      split_ifs with hx
      · rw [hx, hw]
      · rfl
    | some att => rfl
  · unfold FabricController.detachWorkload
    cases ctl.attachments.lookup w with
    | none => rfl
    | some att => simp [releaseHeld]

end Concurrent

/-! ## Runs -/

open Concurrent FabricController

/-- **Concurrent attachments.** Any number of attachments and detachments, interleaved in any way
from a consistent state, leave a consistent state when all have finished, provided no call on a
workload takes its first step while an attachment of the same workload is in progress. -/
theorem concurrent_attachments_consistent (ctl : FabricController) (hctl : ctl.AddressesConsistent)
    (as : List ConcurrentAction) (s : Concurrent)
    (hguard : Guarded Concurrent.step BeginsAlone ⟨ctl, ∅⟩ as)
    (hrun : run Concurrent.step ⟨ctl, ∅⟩ as = some s) (hdone : s.Finished) :
    s.controller.AddressesConsistent :=
  (hguard.invariant (fun _ _ _ h hg hs => h.step hg hs) (inv_of_consistent hctl) hrun).consistent
    hdone

/-- A controller with one subnet and no attachments. -/
def oneSubnet : FabricController :=
  ((fresh .empty).exec (.createVpc sampleVpc)).exec
    (.createSubnet (sampleSubnet "s1" "10.0.1.0/24" .isolated))

/-- Only the gateway is in use. -/
theorem consistent_oneSubnet : oneSubnet.AddressesConsistent := by
  have hipam : ∀ id a, oneSubnet.network.ipam.lookup id = some a →
      a = ⟨0x0A000100, 24, {0x0A000101}⟩ := by
    intro id a ha
    have hlook : oneSubnet.network.ipam.lookup id = if id = ⟨"s1"⟩ then
        some ⟨0x0A000100, 24, {0x0A000101}⟩ else none := HashMap.lookup_insert_eq ..
    rw [hlook] at ha
    split_ifs at ha
    exact (Option.some.inj ha).symm
  refine Accounted.of_iff (fun id a gw ha hgw => ?_) (fun w id addr hw => ?_)
    (fun id a m ha hm hgw => ?_) fun w w' x hw => ?_
  · obtain rfl := hipam id a ha
    have hfirst : checkedHost 0x0A000100 24 1 = some 0x0A000101 := by decide
    obtain rfl := Option.some.inj (hfirst.symm.trans hgw)
    exact Finset.mem_singleton_self _
  · have hnone : (none : Option (Id × String)) = some (id, addr) := hw
    contradiction
  · obtain rfl := hipam id a ha
    rw [Finset.mem_singleton.1 hm] at hgw
    exact absurd (by decide) hgw
  · have hnone : (none : Option (Id × String)) = some x := hw
    contradiction

/-- Two workloads are attached at the same time; then one is detached and attached again, the
attachment beginning before the detachment has released its address. -/
def interleaved : List ConcurrentAction :=
  [.attach 0 ⟨"a"⟩ ⟨"s1"⟩ false, .attach 1 ⟨"b"⟩ ⟨"s1"⟩ false, .step 0, .step 1, .step 0, .step 1,
    .step 1, .step 0, .step 0, .step 1, .detach 2 ⟨"a"⟩, .attach 3 ⟨"a"⟩ ⟨"s1"⟩ true, .step 2, .step 3,
    .step 3, .step 2, .step 3, .step 3]

theorem concurrent_attachments_consistent_interleaved :
    ∃ s, run Concurrent.step ⟨oneSubnet, ∅⟩ interleaved = some s ∧
      s.controller.attachments.lookup ⟨"a"⟩ = some ⟨⟨"s1"⟩, true, some "10.0.1.3"⟩ ∧
      s.controller.attachments.lookup ⟨"b"⟩ = some ⟨⟨"s1"⟩, false, some "10.0.1.2"⟩ ∧
      s.controller.AddressesConsistent := by
  refine ⟨_, rfl, rfl, rfl, concurrent_attachments_consistent oneSubnet consistent_oneSubnet
    interleaved _ (by decide) rfl fun c k hk => ?_⟩
  exact HashMap.forall_lookup (P := fun k : AttachmentCall => k.finished) (by decide) hk

/-- Two attachments of one workload, each reading before the other records. -/
def sameWorkload : List ConcurrentAction :=
  [.attach 0 ⟨"a"⟩ ⟨"s1"⟩ false, .attach 1 ⟨"a"⟩ ⟨"s1"⟩ false, .step 0, .step 1, .step 0, .step 1,
    .step 0, .step 1, .step 0, .step 1]

/-- Both succeed, and one address stays in use without being recorded for anybody. -/
theorem concurrent_attachments_leak_address :
    ∃ s a, oneSubnet.AddressesConsistent ∧ run Concurrent.step ⟨oneSubnet, ∅⟩ sameWorkload = some s ∧
      s.Finished ∧ s.controller.attachments.lookup ⟨"a"⟩ = some ⟨⟨"s1"⟩, false, some "10.0.1.3"⟩ ∧
      s.controller.network.ipam.lookup ⟨"s1"⟩ = some a ∧
      a.used = {0x0A000103, 0x0A000102, 0x0A000101} ∧ ¬s.controller.AddressesConsistent := by
  refine ⟨_, _, consistent_oneSubnet, rfl, fun c k hk => ?_, rfl, rfl, rfl, fun h => ?_⟩
  · exact HashMap.forall_lookup (P := fun k : AttachmentCall => k.finished) (by decide) hk
  · -- nobody has the address that the first call allocated
    obtain ⟨w, hw⟩ := @Accounted.exists_owner _ _ _ h ⟨"s1"⟩ _ 0x0A000102 rfl (by decide) (by decide)
    obtain ⟨att, hatt, hheld⟩ := Option.bind_eq_some_iff.1 hw
    exact HashMap.forall_lookup (P := fun att => held att ≠ some (⟨"s1"⟩, formatIpv4 0x0A000102))
      (by decide) hatt hheld

end OCF.Api
