import OCF.Api.Attachments

/-!
# Egress allow-lists

A NAT subnet lets only the addresses on its allow-list out, and the controller programs that list
whenever an operation touches the subnet. `EgressInv` says that the list programmed last is the set
of addresses of the workloads that are opted in on the subnet.

An operation that changes who is opted in on a subnet without programming that subnet breaks it: an
attachment programs the subnet a workload comes to, not the one it leaves, and a restore programs
new subnets before it records the stored attachments. `EgressGuard` excludes these, and
`egress_allow_lists` is the result for every run of calls and restores under it.
-/

namespace OCF.Api

open OCF.Network OCF.Runtime OCF.Store

/-- The address belongs to a workload that is opted in to egress on the subnet. -/
def OptedIn (atts : HashMap Id NetworkAttachment) (id : Id) (addr : String) : Prop :=
  ∃ w att, atts.lookup w = some att ∧ att.subnetId = id ∧ att.egress ∧ att.address = some addr

/-- The subnet exists and provides egress. -/
def IsNat (n : NetworkController) (id : Id) : Prop :=
  ∃ s, n.subnets.lookup id = some s ∧ s.egress = .nat

/-- The allow-list last programmed for every NAT subnet is the set of addresses opted in on it. -/
structure EgressInv (n : NetworkController) (atts : HashMap Id NetworkAttachment) : Prop where
  ownId : ∀ id s, n.subnets.lookup id = some s → s.metadata.id = id
  allowed : ∀ id s, n.subnets.lookup id = some s → s.egress = .nat →
    ∃ mode l, n.egress.lookup id = some (mode, l) ∧ ∀ addr, addr ∈ l ↔ OptedIn atts id addr

theorem FabricController.mem_subnetEgressAllowed (c : FabricController) (id : Id) (addr : String) :
    addr ∈ c.subnetEgressAllowed id ↔ OptedIn c.attachments id addr := by
  simp only [subnetEgressAllowed, List.mem_filterMap, List.mem_filter, HashMap.mem_values,
    Bool.and_eq_true, decide_eq_true_eq, OptedIn]
  constructor
  · rintro ⟨att, ⟨⟨w, hw⟩, hid, he⟩, ha⟩
    exact ⟨w, att, hw, hid, he, ha⟩
  · rintro ⟨w, att, hw, hid, he, ha⟩
    exact ⟨att, ⟨⟨w, hw⟩, hid, he⟩, ha⟩

/-- Writing an attachment that is already recorded changes nothing. -/
theorem optedIn_insert_self {atts : HashMap Id NetworkAttachment} {w : Id} {att : NetworkAttachment}
    (h : atts.lookup w = some att) (id : Id) (addr : String) :
    OptedIn (atts.insert w att) id addr ↔ OptedIn atts id addr := by
  have hlook : ∀ x, (atts.insert w att).lookup x = atts.lookup x := fun x => by
    rw [HashMap.lookup_insert_eq]
    split_ifs with hx
    · rw [hx, h]
    · rfl
  simp only [OptedIn, hlook]

/-- A write to the attachments changes who is opted in only where the old or the new attachment
is. -/
theorem optedIn_insert {atts : HashMap Id NetworkAttachment} {w : Id} {att : NetworkAttachment}
    {id : Id} (hnew : att.egress → att.subnetId ≠ id)
    (hold : ∀ prev, atts.lookup w = some prev → prev.egress → prev.subnetId ≠ id) (addr : String) :
    OptedIn (atts.insert w att) id addr ↔ OptedIn atts id addr := by
  constructor
  · rintro ⟨x, y, hx, hid, he, ha⟩
    obtain ⟨-, rfl⟩ | ⟨-, hx⟩ := HashMap.lookup_insert_eq_some.1 hx
    · exact absurd hid (hnew he)
    · exact ⟨x, y, hx, hid, he, ha⟩
  · rintro ⟨x, y, hx, hid, he, ha⟩
    refine ⟨x, y, ?_, hid, he, ha⟩
    rw [HashMap.lookup_insert_eq, if_neg, hx]
    rintro rfl
    exact hold y hx he hid

theorem optedIn_erase {atts : HashMap Id NetworkAttachment} {w : Id} {id : Id}
    (hold : ∀ prev, atts.lookup w = some prev → prev.egress → prev.subnetId ≠ id) (addr : String) :
    OptedIn (atts.erase w) id addr ↔ OptedIn atts id addr := by
  constructor
  · rintro ⟨x, y, hx, hid, he, ha⟩
    rw [HashMap.lookup_erase_eq] at hx
    split_ifs at hx
    exact ⟨x, y, hx, hid, he, ha⟩
  · rintro ⟨x, y, hx, hid, he, ha⟩
    refine ⟨x, y, ?_, hid, he, ha⟩
    rw [HashMap.lookup_erase_eq, if_neg, hx]
    rintro rfl
    exact hold y hx he hid

namespace EgressInv

variable {n n' : NetworkController} {atts atts' : HashMap Id NetworkAttachment}

/-- The invariant depends on the subnets, the programmed lists and who is opted in on NAT
subnets. -/
theorem congr (h : EgressInv n atts) (hs : n'.subnets = n.subnets) (he : n'.egress = n.egress)
    (ha : ∀ id addr, IsNat n id → (OptedIn atts' id addr ↔ OptedIn atts id addr)) :
    EgressInv n' atts' where
  ownId id s hl := h.ownId id s (hs ▸ hl)
  allowed id s hl hnat := by
    rw [hs] at hl
    obtain ⟨mode, l, hp, hiff⟩ := h.allowed id s hl hnat
    exact ⟨mode, l, he ▸ hp, fun addr => (hiff addr).trans (ha id addr ⟨s, hl, hnat⟩).symm⟩

/-- Programming a subnet with its current list settles that subnet, whatever happened to it. -/
theorem program (hown : ∀ id s, n.subnets.lookup id = some s → s.metadata.id = id) {id : Id}
    {allowed : List String} (hallowed : ∀ addr, addr ∈ allowed ↔ OptedIn atts id addr)
    (hother : ∀ x s, x ≠ id → n.subnets.lookup x = some s → s.egress = .nat →
      ∃ mode l, n.egress.lookup x = some (mode, l) ∧ ∀ addr, addr ∈ l ↔ OptedIn atts x addr) :
    EgressInv (n.refreshSubnetEgress id allowed).2 atts := by
  rw [NetworkController.refreshSubnetEgress_eq]
  cases hid : n.subnets.lookup id with
  | none =>
    refine ⟨hown, fun x s hl hnat => hother x s ?_ hl hnat⟩
    rintro rfl
    rw [hid] at hl
    simp at hl
  | some t =>
    refine ⟨hown, fun x s hl hnat => ?_⟩
    have hlook : (n.fanOutEgress t allowed).egress.lookup x =
        if x = id then some (t.egress, allowed) else n.egress.lookup x := by
      rw [← hown id t hid]
      exact HashMap.lookup_insert_eq ..
    by_cases hx : x = id
    · exact ⟨t.egress, allowed, by rw [hlook, if_pos hx], hx ▸ hallowed⟩
    · obtain ⟨mode, l, hp, hiff⟩ := hother x s hx hl hnat
      exact ⟨mode, l, by rw [hlook, if_neg hx, hp], hiff⟩

/-- A new NAT subnet starts with an empty list, so nobody may be opted in on it yet. -/
theorem createSubnet (h : EgressInv n atts) {subnet : Subnet}
    (hnone : subnet.egress = .nat → subnet.vpcId ∈ n.vpcs → subnet.metadata.id ∉ n.subnets →
      ∀ addr, ¬OptedIn atts subnet.metadata.id addr) :
    EgressInv (n.createSubnet subnet).2 atts := by
  obtain he | ⟨hvpc, hnew, -, hsub, -, hegress⟩ := n.createSubnet_cases subnet
  · rwa [he]
  refine ⟨fun id s hl => ?_, fun id s hl hnat => ?_⟩
  · rw [hsub] at hl
    obtain ⟨hid, rfl⟩ | ⟨-, hl⟩ := HashMap.lookup_insert_eq_some.1 hl
    · exact hid.symm
    · exact h.ownId id s hl
  · rw [hsub] at hl
    obtain ⟨hid, rfl⟩ | ⟨hid, hl⟩ := HashMap.lookup_insert_eq_some.1 hl
    · refine ⟨.nat, [], ?_, fun addr => ?_⟩
      · rw [hegress, hnat, if_pos (show EgressMode.nat.providesEgress from rfl),
          HashMap.lookup_insert_eq, if_pos hid]
      · simp only [List.not_mem_nil, false_iff]
        exact hid ▸ hnone hnat hvpc hnew addr
    · obtain ⟨mode, l, hp, hiff⟩ := h.allowed id s hl hnat
      refine ⟨mode, l, ?_, hiff⟩
      rw [hegress]
      split_ifs
      · rw [HashMap.lookup_insert_eq, if_neg hid, hp]
      · exact hp

end EgressInv

/-! ## One call -/

namespace FabricController

/-- The allow-lists of a controller are right. -/
def ListsRight (c : FabricController) : Prop := EgressInv c.network c.attachments

/-- The attachment opts in to egress on a NAT subnet. -/
def OptsIn (c : FabricController) (att : NetworkAttachment) : Prop :=
  att.egress ∧ IsNat c.network att.subnetId

variable {c : FabricController}

/-- Programming a subnet from the attachments leaves only the other subnets to account for. -/
theorem listsRight_refresh (hown : ∀ id s, c.network.subnets.lookup id = some s → s.metadata.id = id)
    {s : Id} (hother : ∀ x t, x ≠ s → c.network.subnets.lookup x = some t → t.egress = .nat →
      ∃ mode l, c.network.egress.lookup x = some (mode, l) ∧
        ∀ addr, addr ∈ l ↔ OptedIn c.attachments x addr) (env : PersistEnv) :
    ((c.refreshEgress s).persist env).2.ListsRight :=
  EgressInv.program hown (c.mem_subnetEgressAllowed s) hother

/-- The subnet a workload comes to is programmed; the one it leaves must not need to be. -/
theorem ListsRight.attachWorkload (h : c.ListsRight) {w s : Id}
    (hg : c.network.CanAllocate s → ∀ prev, c.attachments.lookup w = some prev →
      prev.subnetId ≠ s → ¬c.OptsIn prev) (env : PersistEnv) (egress : Bool) :
    (c.attachWorkload env w s egress).2.ListsRight := by
  obtain ⟨-, hsub, heg⟩ := c.releasePrior_frame w
  obtain ⟨-, he⟩ | ⟨-, -, he⟩ | ⟨a, addr, a', -, ha, halloc, he⟩ :=
    c.attachWorkload_cases env w s egress
  · rwa [he]
  · rw [he]
    exact EgressInv.congr h hsub heg fun _ _ _ => Iff.rfl
  rw [he]
  refine listsRight_refresh (fun id t hl => h.ownId id t (hsub ▸ hl)) (fun x t hx hl hnat => ?_) env
  change (c.releasePrior w).subnets.lookup x = some t at hl
  rw [hsub] at hl
  obtain ⟨mode, l, hp, hiff⟩ := h.allowed x t hl hnat
  refine ⟨mode, l, heg ▸ hp, fun y => (hiff y).trans (optedIn_insert ?_ ?_ y).symm⟩
  · exact fun _ => Ne.symm hx
  · rintro prev hprev hegress rfl
    -- the prior subnet is another one, so its release leaves the pool of `s` as it was
    have hcan := NetworkController.canAllocate_of_allocate _ ha halloc
    rw [c.canAllocate_releasePrior_iff hprev hx] at hcan
    exact hg hcan prev hprev hx ⟨hegress, t, hl, hnat⟩

theorem ListsRight.detachWorkload (h : c.ListsRight) (env : PersistEnv) (w : Id) :
    (c.detachWorkload env w).ListsRight := by
  unfold FabricController.detachWorkload
  cases hw : c.attachments.lookup w with
  | none => exact h
  | some att =>
    refine listsRight_refresh (fun id t hl => h.ownId id t (by simpa using hl))
      (fun x t hx hl hnat => ?_) env
    obtain ⟨mode, l, hp, hiff⟩ := h.allowed x t (by simpa using hl) hnat
    refine ⟨mode, l, by simpa using hp, fun y => (hiff y).trans (optedIn_erase ?_ y).symm⟩
    rintro prev hprev - rfl
    obtain rfl := Option.some.inj (hw.symm.trans hprev)
    exact hx rfl

theorem ListsRight.setSubnetEgress (h : c.ListsRight) (env : PersistEnv) (s : Id)
    (mode : EgressMode) : (c.setSubnetEgress env s mode).2.ListsRight := by
  obtain ⟨hnet, hatt, -⟩ := c.setSubnetEgress_frame env s mode
  unfold ListsRight
  rw [hnet, hatt]
  obtain he | ⟨t, ht, he⟩ := c.network.setSubnetEgress_cases s mode (c.subnetEgressAllowed s)
  · rw [he]
    exact h
  have hid : t.metadata.id = s := h.ownId s t ht
  rw [he]
  refine ⟨fun id u hl => ?_, fun id u hl hnat => ?_⟩
  · change (c.network.subnets.insert s _).lookup id = some u at hl
    obtain ⟨hx, rfl⟩ | ⟨-, hl⟩ := HashMap.lookup_insert_eq_some.1 hl
    · exact hid.trans hx.symm
    · exact h.ownId id u hl
  · change (c.network.subnets.insert s _).lookup id = some u at hl
    change ∃ m l, (c.network.egress.insert t.metadata.id _).lookup id = some (m, l) ∧ _
    rw [HashMap.lookup_insert_eq] at hl
    rw [hid, HashMap.lookup_insert_eq]
    split_ifs at hl with hx
    · refine ⟨mode, c.subnetEgressAllowed s, by rw [if_pos hx], fun addr => ?_⟩
      rw [hx]
      exact c.mem_subnetEgressAllowed s addr
    · rw [if_neg hx]
      exact h.allowed id u hl hnat

/-! ## A restore -/

/-- The subnet is a NAT subnet of the controller, or the store holds it as one. -/
def NatAfterRestore (c : FabricController) (id : Id) : Prop :=
  IsNat c.network id ∨
    ∃ s ∈ listJson c.store "subnets" Record.asSubnet, s.metadata.id = id ∧ s.egress = .nat

/-- The VPC is one of the controller, or the store holds it. -/
def VpcAfterRestore (c : FabricController) (id : Id) : Prop :=
  id ∈ c.network.vpcs ∨ ∃ v ∈ listJson c.store "vpcs" Record.asVpc, v.metadata.id = id

/-- The condition on a restore: a stored attachment that is not already the recorded one is not
opted in on a NAT subnet and replaces none that is, and no NAT subnet that the restore creates has
recorded workloads opted in on it. -/
structure RestoreGuard (c : FabricController) : Prop where
  stored : ∀ e ∈ storedAttachments c.store, c.attachments.lookup e.1 ≠ some e.2 → e.2.egress →
    ¬c.NatAfterRestore e.2.subnetId
  replaced : ∀ e ∈ storedAttachments c.store, ∀ prev, c.attachments.lookup e.1 = some prev →
    prev ≠ e.2 → prev.egress → ¬c.NatAfterRestore prev.subnetId
  created : ∀ s ∈ listJson c.store "subnets" Record.asSubnet, s.egress = .nat →
    c.VpcAfterRestore s.vpcId → s.metadata.id ∉ c.network.subnets →
    ∀ addr, ¬OptedIn c.attachments s.metadata.id addr

theorem sameSubnets_foldl_createVpc (vs : List Vpc) (n : NetworkController) :
    n.SameSubnets (vs.foldl (fun n v => (n.createVpc v).2) n) := by
  induction vs generalizing n with
  | nil => exact ⟨rfl, rfl, rfl⟩
  | cons v vs ih =>
    obtain ⟨h₁, h₂, h₃⟩ := ih (n.createVpc v).2
    obtain ⟨k₁, k₂, k₃⟩ := n.sameSubnets_createVpc v
    exact ⟨h₁.trans k₁, h₂.trans k₂, h₃.trans k₃⟩

theorem mem_vpcs_foldl_createVpc {vs : List Vpc} {n : NetworkController} {id : Id}
    (h : id ∈ (vs.foldl (fun n v => (n.createVpc v).2) n).vpcs) :
    id ∈ n.vpcs ∨ ∃ v ∈ vs, v.metadata.id = id := by
  induction vs generalizing n with
  | nil => exact .inl h
  | cons v vs ih =>
    obtain hm | ⟨x, hx, hid⟩ := ih h
    · unfold NetworkController.createVpc at hm
      dsimp only at hm
      split_ifs at hm
      · exact .inl hm
      · obtain hid | hm := (AList.mem_insert _).1 hm
        · exact .inr ⟨v, List.mem_cons_self .., hid.symm⟩
        · exact .inl hm
    · exact .inr ⟨x, List.mem_cons_of_mem _ hx, hid⟩

/-- Creating subnets only adds subnets, each under its own id. -/
theorem lookup_subnets_foldl_createSubnet {ss : List Subnet} {n : NetworkController} {id : Id}
    {t : Subnet} (h : (ss.foldl (fun n s => (n.createSubnet s).2) n).subnets.lookup id = some t) :
    n.subnets.lookup id = some t ∨ t ∈ ss ∧ t.metadata.id = id := by
  induction ss generalizing n with
  | nil => exact .inl h
  | cons s ss ih =>
    obtain hl | ⟨hm, hid⟩ := ih h
    · obtain he | ⟨-, -, -, hsub, -⟩ := n.createSubnet_cases s
      · exact .inl (he ▸ hl)
      · rw [hsub] at hl
        obtain ⟨hx, rfl⟩ | ⟨-, hl⟩ := HashMap.lookup_insert_eq_some.1 hl
        · exact .inr ⟨List.mem_cons_self .., hx.symm⟩
        · exact .inl hl
    · exact .inr ⟨List.mem_cons_of_mem _ hm, hid⟩

theorem mem_subnets_createSubnet {n : NetworkController} {s : Subnet} {id : Id}
    (h : id ∈ n.subnets) : id ∈ (n.createSubnet s).2.subnets := by
  obtain he | ⟨-, -, -, hsub, -⟩ := n.createSubnet_cases s
  · rwa [he]
  · rw [hsub, AList.mem_insert]
    exact .inr h

theorem egressInv_foldl_createSubnet {atts : HashMap Id NetworkAttachment} {ss : List Subnet}
    {n : NetworkController} (h : EgressInv n atts)
    (hnone : ∀ s ∈ ss, s.egress = .nat → s.vpcId ∈ n.vpcs → s.metadata.id ∉ n.subnets →
      ∀ addr, ¬OptedIn atts s.metadata.id addr) :
    EgressInv (ss.foldl (fun n s => (n.createSubnet s).2) n) atts := by
  induction ss generalizing n with
  | nil => exact h
  | cons s ss ih =>
    refine ih (h.createSubnet (hnone s (List.mem_cons_self ..))) fun t ht hnat hvpc hnew => ?_
    rw [n.createSubnet_vpcs s] at hvpc
    exact hnone t (List.mem_cons_of_mem _ ht) hnat hvpc fun hm => hnew (mem_subnets_createSubnet hm)

/-- Recording stored attachments: one that changes anything opts in on no NAT subnet and replaces
none that does. -/
theorem ListsRight.foldl_restoreAttachment {es : List (Id × NetworkAttachment)}
    (h : c.ListsRight)
    (hnew : ∀ e ∈ es, c.attachments.lookup e.1 ≠ some e.2 → ¬c.OptsIn e.2)
    (hold : ∀ e ∈ es, ∀ prev, c.attachments.lookup e.1 = some prev → prev ≠ e.2 →
      ¬c.OptsIn prev) :
    (es.foldl restoreAttachment c).ListsRight := by
  induction es generalizing c with
  | nil => exact h
  | cons e es ih =>
    have hsub : (c.restoreAttachment e).network.subnets = c.network.subnets := by
      unfold restoreAttachment
      dsimp only
      split <;> simp
    have heg : (c.restoreAttachment e).network.egress = c.network.egress := by
      unfold restoreAttachment
      dsimp only
      split <;> simp
    have hopt : ∀ att, (c.restoreAttachment e).OptsIn att ↔ c.OptsIn att := fun att => by
      simp only [OptsIn, IsNat, hsub]
    have hself := List.mem_cons_self (a := e) (l := es)
    have hlook : ∀ x, (c.restoreAttachment e).attachments.lookup x =
        if x = e.1 then some e.2 else c.attachments.lookup x := fun x => HashMap.lookup_insert_eq ..
    refine ih ?_ ?_ ?_
    · refine EgressInv.congr h hsub heg fun id addr hnat => ?_
      by_cases hrec : c.attachments.lookup e.1 = some e.2
      · exact optedIn_insert_self hrec id addr
      refine optedIn_insert ?_ ?_ addr
      · rintro he rfl
        exact hnew e hself hrec ⟨he, hnat⟩
      · rintro prev hprev he rfl
        exact hold e hself prev hprev (fun heq => hrec (heq ▸ hprev)) ⟨he, hnat⟩
    · intro x hx hne
      rw [hopt]
      rw [hlook] at hne
      split_ifs at hne with hxe
      · -- the same workload is stored twice: `e` stands where `x` is written, or stood before
        have hne : e.2 ≠ x.2 := fun heq => hne (congrArg some heq)
        by_cases hrec : c.attachments.lookup x.1 = some x.2
        · exact hold e hself x.2 (hxe ▸ hrec) hne.symm
        · exact hnew x (List.mem_cons_of_mem _ hx) hrec
      · exact hnew x (List.mem_cons_of_mem _ hx) hne
    · intro x hx prev hprev hne
      rw [hopt]
      rw [hlook] at hprev
      split_ifs at hprev with hxe
      · obtain rfl := Option.some.inj hprev
        by_cases hrec : c.attachments.lookup e.1 = some e.2
        · exact hold x (List.mem_cons_of_mem _ hx) e.2 (hxe ▸ hrec) hne
        · exact hnew e hself hrec
      · exact hold x (List.mem_cons_of_mem _ hx) prev hprev hne

theorem ListsRight.restore (h : c.ListsRight) (hg : c.RestoreGuard) : c.restore.2.ListsRight := by
  obtain ⟨hs, -, he⟩ := sameSubnets_foldl_createVpc (listJson c.store "vpcs" Record.asVpc) c.network
  have hnet : EgressInv (restoreNetwork c.store c.network) c.attachments := by
    refine egressInv_foldl_createSubnet (h.congr hs he fun _ _ _ => Iff.rfl) ?_
    rw [hs]
    exact fun s hm hnat hvpc => hg.created s hm hnat (mem_vpcs_foldl_createVpc hvpc)
  have hnat : ∀ {id}, IsNat (restoreNetwork c.store c.network) id → c.NatAfterRestore id := by
    rintro id ⟨t, ht, hn⟩
    obtain hl | ⟨hm, hid⟩ := lookup_subnets_foldl_createSubnet ht
    · exact .inl ⟨t, hs ▸ hl, hn⟩
    · exact .inr ⟨t, hm, hid, hn⟩
  unfold FabricController.restore
  dsimp only
  split
  · exact hnet
  · refine ListsRight.foldl_restoreAttachment (by exact hnet) ?_ ?_
    · exact fun e he hrec hopt => hg.stored e he hrec hopt.1 (hnat hopt.2)
    · exact fun e he prev hprev hne hopt => hg.replaced e he prev hprev hne hopt.1 (hnat hopt.2)

end FabricController

/-! ## Runs -/

open FabricController

/-- A call of an operation, or a restore from the store. -/
inductive ControllerEvent
  | call (op : ControllerOp)
  | restore

/-- The controller after an event; every event is enabled. -/
def eventStep (c : FabricController) : ControllerEvent → Option FabricController
  | .call op => some (c.exec op)
  | .restore => some c.restore.2

/-- The condition on an event: an attachment that gets an address takes no workload away from
another NAT subnet on which it is opted in, and a new NAT subnet has nobody opted in on it. -/
def EgressGuard (c : FabricController) : ControllerEvent → Prop
  | .call (.attachWorkload _ w s _) => c.network.CanAllocate s →
      ∀ prev, c.attachments.lookup w = some prev → prev.subnetId ≠ s → ¬c.OptsIn prev
  | .call (.createSubnet subnet) => subnet.egress = .nat → subnet.vpcId ∈ c.network.vpcs →
      subnet.metadata.id ∉ c.network.subnets → ∀ addr, ¬OptedIn c.attachments subnet.metadata.id addr
  | .call _ => True
  | .restore => c.RestoreGuard

/-- **Every event under the condition keeps the allow-lists right.** -/
theorem listsRight_step {c c' : FabricController} {e : ControllerEvent} (h : c.ListsRight)
    (hg : EgressGuard c e) (hs : eventStep c e = some c') : c'.ListsRight := by
  have same : ∀ {n' : NetworkController}, c.network.SameSubnets n' →
      ListsRight { c with network := n' } := fun hs =>
    EgressInv.congr h hs.1 hs.2.2 fun _ _ _ => Iff.rfl
  cases e with
  | restore =>
    obtain rfl := Option.some.inj hs
    exact h.restore hg
  | call op =>
    obtain rfl := Option.some.inj hs
    cases op with
    | createVpc vpc => exact same (c.network.sameSubnets_createVpc vpc)
    | deleteVpc id => exact same (c.network.sameSubnets_deleteVpc id)
    | createSubnet subnet => exact EgressInv.createSubnet h hg
    | addRoute route fanned => exact same (c.network.sameSubnets_addRoute route fanned)
    | applyPolicy policy fanned => exact same (c.network.sameSubnets_applyPolicy policy fanned)
    | deletePolicy id => exact same (c.network.sameSubnets_deletePolicy id)
    | attachWorkload env w s egress => exact h.attachWorkload hg env egress
    | detachWorkload env w => exact h.detachWorkload env w
    | setSubnetEgress env s mode => exact h.setSubnetEgress env s mode
    | _ => exact h

theorem listsRight_fresh (store : StateStore Record) : (fresh store).ListsRight where
  ownId id s hl := by simp [fresh, NetworkController.new] at hl
  allowed id s hl := by simp [fresh, NetworkController.new] at hl

/-- **Egress allow-lists.** In every state that a run of calls and restores under the condition
reaches from an empty controller over any store, the allow-list programmed last for a NAT subnet
holds exactly the addresses of the workloads attached to it that are opted in. -/
theorem egress_allow_lists (store : StateStore Record) (events : List ControllerEvent)
    (c : FabricController) (hg : Guarded eventStep EgressGuard (fresh store) events)
    (hrun : run eventStep (fresh store) events = some c) (id : Id) (subnet : Subnet)
    (hsub : c.network.subnets.lookup id = some subnet) (hnat : subnet.egress = .nat) :
    ∃ mode allowed, c.network.egress.lookup id = some (mode, allowed) ∧
      ∀ addr, addr ∈ allowed ↔ OptedIn c.attachments id addr :=
  EgressInv.allowed (hg.invariant (I := ListsRight)
    (fun _ _ _ h hgd hs => listsRight_step h hgd hs) (listsRight_fresh store) hrun) id subnet hsub hnat

/-- Two workloads are opted in on a NAT subnet, and one of them is detached. -/
def detachingEvents : List ControllerEvent :=
  [.call (.createVpc sampleVpc), .call (.createSubnet (sampleSubnet "s1" "10.0.1.0/24" .nat)),
    .call (.attachWorkload quietEnv ⟨"a"⟩ ⟨"s1"⟩ true),
    .call (.attachWorkload quietEnv ⟨"b"⟩ ⟨"s1"⟩ true), .call (.detachWorkload quietEnv ⟨"a"⟩)]

/-- Nobody moves, so the run is covered; the address of the other workload stays on the list. -/
theorem egress_allow_lists_detachingEvents :
    ∃ c, run eventStep (fresh .empty) detachingEvents = some c ∧
      c.network.egress.lookup ⟨"s1"⟩ = some (.nat, ["10.0.1.3"]) ∧
      ∃ mode allowed, c.network.egress.lookup ⟨"s1"⟩ = some (mode, allowed) ∧
        ∀ addr, addr ∈ allowed ↔ OptedIn c.attachments ⟨"s1"⟩ addr := by
  have hg : Guarded eventStep EgressGuard (fresh .empty) detachingEvents := by
    refine .cons trivial rfl (.cons ?_ rfl (.cons ?_ rfl (.cons ?_ rfl (.cons trivial rfl trivial))))
    · rintro - - - addr ⟨w, att, hw, -⟩
      exact absurd hw (by simp [fresh, exec])
    · exact fun _ prev hprev => absurd (hprev.symm.trans (rfl : _ = none)) (by simp)
    · exact fun _ prev hprev => absurd (hprev.symm.trans (rfl : _ = none)) (by simp)
  refine ⟨_, rfl, by decide, ?_⟩
  exact egress_allow_lists .empty detachingEvents _ hg rfl ⟨"s1"⟩
    (sampleSubnet "s1" "10.0.1.0/24" .nat) rfl rfl

/-- A workload that is opted in on a NAT subnet moves to another subnet. -/
def leavingEvents : List ControllerEvent :=
  [.call (.createVpc sampleVpc), .call (.createSubnet (sampleSubnet "s1" "10.0.1.0/24" .nat)),
    .call (.createSubnet (sampleSubnet "s2" "10.0.2.0/24" .isolated)),
    .call (.attachWorkload quietEnv ⟨"a"⟩ ⟨"s1"⟩ true),
    .call (.attachWorkload quietEnv ⟨"a"⟩ ⟨"s2"⟩ false)]

/-- The address it gave up stays on the allow-list of the NAT subnet, where nobody is opted in
any more. -/
theorem leaving_keeps_address_allowed :
    ∃ c, run eventStep (fresh .empty) leavingEvents = some c ∧
      c.network.subnets.lookup ⟨"s1"⟩ = some (sampleSubnet "s1" "10.0.1.0/24" .nat) ∧
      c.network.egress.lookup ⟨"s1"⟩ = some (.nat, ["10.0.1.2"]) ∧
      ¬OptedIn c.attachments ⟨"s1"⟩ "10.0.1.2" := by
  refine ⟨_, rfl, rfl, by decide, ?_⟩
  rw [← mem_subnetEgressAllowed]
  decide

end OCF.Api
