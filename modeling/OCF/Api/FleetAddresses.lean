import OCF.Api.Attachments
import OCF.Api.Persist

/-!
# Addresses across a fleet

The nodes of a cluster share a replicated store, but an address is allocated from the memory of the
node that is the leader when the call is made. A node loads its memory from the store when it boots
and never again, so what another leader has recorded since then, or what has been detached and stays
in the store, is not in it.

A fleet is its nodes, each with its own memory and with the same store. Every call is made on the
leader of the moment, and everything it proposes is committed and applied on all nodes.
`fleet_addresses_unique` says that the recorded addresses stay unique as long as each leader's
memory agrees with the store where the call depends on it.
-/

namespace OCF.Api

open OCF.Network OCF.Runtime OCF.Store FabricController

/-! ## The records of the attachments -/

/-- The recorded attachment of a workload. -/
def recorded (store : StateStore Record) (w : Id) : Option Record :=
  store.get "workload_networks" w.name

/-- No two workloads are recorded with the same address in the same subnet. -/
def RecordsUnique (store : StateStore Record) : Prop :=
  ∀ w w' att att' addr, recorded store w = some (.attachment att) →
    recorded store w' = some (.attachment att') → att.subnetId = att'.subnetId →
    att.address = some addr → att'.address = some addr → w = w'

/-- The environment with every proposal committed. -/
def PersistEnv.committed (env : PersistEnv) : PersistEnv :=
  { env with outcome := fun _ => .committed }

theorem persistPuts_committed (i : ℕ) (ps : List (String × Record)) (s : StateStore Record) :
    persistPuts (fun _ => .committed) i ps s = (.ok (), ps.foldl putRecord s) := by
  induction ps generalizing i s with
  | nil => rfl
  | cons p ps ih => exact ih (i + 1) (putRecord s p)

/-- The attachments are proposed under their workloads, and no other record is of their kind. -/
theorem mem_proposals_attachment {c : FabricController} {env : PersistEnv} {k : String}
    {r : Record} : (k, r) ∈ c.proposals env ∧ r.kind = some .attachment ↔
      ∃ att, r = .attachment att ∧ c.attachments.lookup ⟨k⟩ = some att := by
  constructor
  · rintro ⟨hp, hkind⟩
    simp only [proposals, List.mem_append] at hp
    rcases hp with (((((hp | hp) | hp) | hp) | hp) | hp) | hp
    · simp [kind_of_mem_topologyProposals hp] at hkind
    · obtain ⟨w, -, e⟩ := List.mem_map.1 hp
      obtain ⟨-, rfl⟩ := Prod.mk.inj e
      simp [Record.kind] at hkind
    · simp only [networkProposals, List.mem_flatMap, List.mem_cons, List.mem_map,
        Prod.mk.injEq] at hp
      obtain ⟨v, -, ⟨-, rfl⟩ | ⟨t, -, -, rfl⟩⟩ := hp <;> simp [Record.kind] at hkind
    · obtain ⟨lb, -, e⟩ := List.mem_map.1 hp
      obtain ⟨-, rfl⟩ := Prod.mk.inj e
      simp [Record.kind] at hkind
    · simp only [rbacProposals, List.mem_append, List.mem_map, Prod.mk.injEq] at hp
      obtain ((⟨x, -, -, rfl⟩ | ⟨x, -, -, rfl⟩) | ⟨x, -, -, rfl⟩) | ⟨x, -, -, rfl⟩ := hp <;>
        simp [Record.kind] at hkind
    · obtain ⟨d, -, e⟩ := List.mem_map.1 hp
      obtain ⟨-, rfl⟩ := Prod.mk.inj e
      simp [Record.kind] at hkind
    · obtain ⟨⟨w, att⟩, hw, e⟩ := List.mem_map.1 hp
      obtain ⟨rfl, rfl⟩ := Prod.mk.inj e
      exact ⟨att, rfl, HashMap.mem_pairs.1 (env.mem_order.1 hw)⟩
  · rintro ⟨att, rfl, hatt⟩
    refine ⟨?_, rfl⟩
    simp only [proposals, List.mem_append]
    exact .inr (List.mem_map.2 ⟨(⟨k⟩, att), env.mem_order.2 (HashMap.mem_pairs.2 hatt), rfl⟩)

/-- A committed persist writes the attachments in memory over the recorded ones; the others stay. -/
theorem recorded_persist (c : FabricController) (env : PersistEnv) (w : Id) :
    recorded (c.persist env.committed).2.store w =
      ((c.attachments.lookup w).map .attachment).or (recorded c.store w) := by
  have hstore : (c.persist env.committed).2.store =
      (c.proposals env.committed).foldl putRecord c.store := by
    change (persistPuts _ 0 _ c.store).2 = _
    exact congrArg Prod.snd (persistPuts_committed ..)
  rw [recorded, hstore]
  obtain ⟨r, hr, hkind, hget⟩ | ⟨hne, hget⟩ := get_foldl_putRecord (c.proposals env.committed)
    c.store .attachment w.name
  · obtain ⟨att, rfl, hatt⟩ := mem_proposals_attachment.1 ⟨hr, hkind⟩
    rw [show c.attachments.lookup w = some att from hatt]
    exact hget
  · cases hatt : c.attachments.lookup w with
    | none => exact hget
    | some att =>
      obtain ⟨hmem, hkind⟩ := mem_proposals_attachment.2 ⟨att, rfl, hatt⟩
      exact absurd hkind (hne _ hmem)

theorem RecordsUnique.congr {store store' : StateStore Record} (h : RecordsUnique store)
    (hrec : ∀ x, recorded store' x = recorded store x) : RecordsUnique store' :=
  fun x x' att att' addr hx hx' => h x x' att att' addr (hrec x ▸ hx) (hrec x' ▸ hx')

/-- A new record that shares its address with no other keeps the records unique. -/
theorem RecordsUnique.insert {store store' : StateStore Record} (h : RecordsUnique store)
    (w s : Id) (egress : Bool) (addr : String)
    (hrec : ∀ x, recorded store' x =
      if x = w then some (.attachment ⟨s, egress, some addr⟩) else recorded store x)
    (hclash : ∀ x att, x ≠ w → recorded store x = some (.attachment att) → att.subnetId = s →
      att.address ≠ some addr) : RecordsUnique store' := by
  intro x x' att att' addr' hx hx' hsub haddr haddr'
  rw [hrec] at hx hx'
  split_ifs at hx hx' with e e' e'
  · exact e.trans e'.symm
  · obtain rfl := Record.attachment.inj (Option.some.inj hx)
    exact absurd (haddr'.trans haddr.symm) (hclash x' att' e' hx' hsub.symm)
  · obtain rfl := Record.attachment.inj (Option.some.inj hx')
    exact absurd (haddr.trans haddr'.symm) (hclash x att e hx hsub)
  · exact h x x' att att' addr' hx hx' hsub haddr haddr'

/-! ## The fleet -/

/-- The nodes of a cluster. -/
structure ControlPlane where
  nodes : ℕ → FabricController

/-- A call, on the leader of the moment. -/
inductive ControlPlaneOp
  | attachWorkload (leader : ℕ) (env : PersistEnv) (workloadId subnetId : Id) (egress : Bool)
  | detachWorkload (leader : ℕ) (env : PersistEnv) (workloadId : Id)

namespace ControlPlane

/-- All nodes boot from the same persisted state; a node that cannot restore it does not boot. -/
def boot (store : StateStore Record) : Option ControlPlane :=
  match (fresh store).restore with
  | (.error _, _) => none
  | (.ok _, c) => some ⟨fun _ => c⟩

/-- The fleet after a call has left the leader as `c`: what it wrote is applied on all nodes. -/
def commit (f : ControlPlane) (leader : ℕ) (c : FabricController) : ControlPlane :=
  ⟨fun i => if i = leader then c else { f.nodes i with store := c.store }⟩

def step (f : ControlPlane) : ControlPlaneOp → Option ControlPlane
  | .attachWorkload l env w s egress =>
    some (f.commit l ((f.nodes l).attachWorkload env.committed w s egress).2)
  | .detachWorkload l env w => some (f.commit l ((f.nodes l).detachWorkload env.committed w))

/-- The records are unique on every node. -/
def AddressesUnique (f : ControlPlane) : Prop := ∀ i, RecordsUnique (f.nodes i).store

@[simp] theorem commit_store (f : ControlPlane) (l : ℕ) (c : FabricController) (i : ℕ) :
    ((f.commit l c).nodes i).store = c.store := by
  unfold commit
  dsimp only
  split_ifs <;> rfl

theorem addressesUnique_commit {f : ControlPlane} {l : ℕ} {c : FabricController} :
    (f.commit l c).AddressesUnique ↔ RecordsUnique c.store := by
  simp only [AddressesUnique, commit_store, forall_const]

/-! ## One call -/

/-- What the node has in memory for other workloads is what is recorded. -/
def OthersRecorded (c : FabricController) (w : Id) : Prop :=
  ∀ w' att, w' ≠ w → c.attachments.lookup w' = some att →
    recorded c.store w' = some (.attachment att)

/-- Every address recorded for another workload in the subnet is in use in the node's allocator,
once the prior address of the workload is released. -/
def RecordedInUse (c : FabricController) (w s : Id) : Prop :=
  ∀ w' att addr a, w' ≠ w → recorded c.store w' = some (.attachment att) → att.subnetId = s →
    att.address = some addr → (c.releasePrior w).ipam.lookup s = some a →
    ∃ m ∈ a.used, parseIpv4 addr = some m

/-- The memory of the leader agrees with the store where the call depends on it. -/
def LeaderCurrent (f : ControlPlane) : ControlPlaneOp → Prop
  | .attachWorkload l _ w s _ => s ∈ (f.nodes l).network.subnets →
      ((f.nodes l).releasePrior w).CanAllocate s →
      OthersRecorded (f.nodes l) w ∧ RecordedInUse (f.nodes l) w s
  | .detachWorkload l _ w => w ∈ (f.nodes l).attachments → OthersRecorded (f.nodes l) w

variable {f f' : ControlPlane} {c c' : FabricController} {w : Id}

/-- When the memory of a node differs from the records only in one workload, persisting writes
this one. -/
theorem recorded_persist_of_others {env : PersistEnv} (hc : OthersRecorded c w)
    (hatt : ∀ x ≠ w, c'.attachments.lookup x = c.attachments.lookup x)
    (hstore : c'.store = c.store) {x : Id} (hx : x ≠ w) :
    recorded (c'.persist env.committed).2.store x = recorded c.store x := by
  rw [recorded_persist, hatt x hx, hstore]
  cases hl : c.attachments.lookup x with
  | none => rfl
  | some att => exact (hc x att hx hl).symm

theorem recordsUnique_attach (h : RecordsUnique c.store) {s : Id} (env : PersistEnv) (egress : Bool)
    (hg : s ∈ c.network.subnets → (c.releasePrior w).CanAllocate s →
      OthersRecorded c w ∧ RecordedInUse c w s) :
    RecordsUnique (c.attachWorkload env.committed w s egress).2.store := by
  obtain ⟨-, he⟩ | ⟨-, -, he⟩ | ⟨a, addr, a', hs, ha, halloc, he⟩ :=
    c.attachWorkload_cases env.committed w s egress
  · rwa [he]
  · rwa [he]
  · obtain ⟨hothers, huse⟩ := hg hs (NetworkController.canAllocate_of_allocate _ ha halloc)
    obtain ⟨n, rfl, -, hfree, -⟩ := SubnetAllocator.allocate_ok halloc
    obtain ⟨t, he, hatt, hstore⟩ : ∃ t : FabricController,
        (c.attachWorkload env.committed w s egress).2 = (t.persist env.committed).2 ∧
          t.attachments = c.attachments.insert w ⟨s, egress, some (formatIpv4 n)⟩ ∧
          t.store = c.store := ⟨_, he, rfl, rfl⟩
    rw [he]
    refine h.insert w s egress (formatIpv4 n) (fun x => ?_) fun x att hx hrec hsub haddr => ?_
    · split_ifs with hx
      · rw [recorded_persist, hatt, hx, AList.lookup_insert]
        rfl
      · exact recorded_persist_of_others hothers
          (fun y hy => by rw [hatt, AList.lookup_insert_ne hy]) hstore hx
    · obtain ⟨m, hm, hparse⟩ := huse x att _ a hx hrec hsub haddr ha
      obtain rfl := Option.some.inj ((parseIpv4_formatIpv4 n).symm.trans hparse)
      exact hfree hm

theorem recordsUnique_detach (h : RecordsUnique c.store) (env : PersistEnv)
    (hg : w ∈ c.attachments → OthersRecorded c w) :
    RecordsUnique (c.detachWorkload env.committed w).store := by
  cases hw : c.attachments.lookup w with
  | none =>
    rw [show c.detachWorkload env.committed w = c by simp only [detachWorkload, hw]]
    exact h
  | some att =>
    have hothers := hg (HashMap.mem_iff_exists_lookup.2 ⟨att, hw⟩)
    obtain ⟨t, he, hatt, hstore⟩ : ∃ t : FabricController,
        c.detachWorkload env.committed w = (t.persist env.committed).2 ∧
          t.attachments = c.attachments.erase w ∧ t.store = c.store := by
      refine ⟨FabricController.refreshEgress { c with
        network := c.network.releaseAddress att.subnetId (att.address.getD "")
        attachments := c.attachments.erase w } att.subnetId, ?_, rfl, rfl⟩
      simp only [detachWorkload, hw]
    rw [he]
    refine h.congr fun x => ?_
    by_cases hx : x = w
    · -- the record of the workload itself stays behind
      rw [recorded_persist, hatt, hx, AList.lookup_erase, hstore]
      rfl
    · exact recorded_persist_of_others hothers
        (fun y hy => by rw [hatt, AList.lookup_erase_ne hy]) hstore hx

/-- **A call on a leader whose memory is current keeps the records unique.** -/
theorem AddressesUnique.step (h : f.AddressesUnique) {op : ControlPlaneOp} (hg : f.LeaderCurrent op)
    (hs : f.step op = some f') : f'.AddressesUnique := by
  cases op with
  | attachWorkload l env w s egress =>
    obtain rfl := Option.some.inj hs
    exact addressesUnique_commit.2 (recordsUnique_attach (h l) env egress hg)
  | detachWorkload l env w =>
    obtain rfl := Option.some.inj hs
    exact addressesUnique_commit.2 (recordsUnique_detach (h l) env hg)

theorem restore_store (c : FabricController) : c.restore.2.store = c.store := by
  unfold restore
  dsimp only
  split
  · rfl
  · exact List.foldlRecOn (motive := fun t : FabricController => t.store = c.store) _ _ rfl
      fun _ ht _ _ => ht

theorem addressesUnique_boot {store : StateStore Record} (hboot : boot store = some f)
    (h : RecordsUnique store) : f.AddressesUnique := by
  unfold boot at hboot
  split at hboot
  · contradiction
  · next c hr =>
    obtain rfl := Option.some.inj hboot
    intro i
    have hstore := restore_store (fresh store)
    rw [hr] at hstore
    exact (hstore : c.store = store) ▸ h

end ControlPlane

open ControlPlane

/-- **Addresses across a fleet.** All nodes boot from one persisted state whose records are unique,
and every call is made on some leader. In every state of a run whose leaders are current, no two
workloads are recorded with the same address in the same subnet. -/
theorem fleet_addresses_unique (store : StateStore Record) (hstore : RecordsUnique store) (f : ControlPlane)
    (hboot : boot store = some f) (ops : List ControlPlaneOp)
    (hguard : Guarded ControlPlane.step LeaderCurrent f ops) (n : ℕ) (f' : ControlPlane)
    (hrun : run ControlPlane.step f (ops.take n) = some f') : f'.AddressesUnique :=
  (hguard.take n).invariant (fun _ _ _ h hg hs => h.step hg hs) (addressesUnique_boot hboot hstore)
    hrun

/-- Two subnets and nothing attached, persisted. -/
def twoSubnets : StateStore Record :=
  (((((fresh .empty).exec (.createVpc sampleVpc)).exec
    (.createSubnet (sampleSubnet "s1" "10.0.1.0/24" .isolated))).exec
    (.createSubnet (sampleSubnet "s2" "10.0.2.0/24" .isolated))).exec (.persist quietEnv)).store

/-- Whether some record places a workload in the subnet. -/
def occupied (store : StateStore Record) (s : Id) : Bool :=
  (store.list "workload_networks").any fun e => e.2.asAttachment.any fun att => att.subnetId = s

theorem recordedInUse_of_not_occupied {c : FabricController} {s : Id} (w : Id)
    (h : occupied c.store s = false) : RecordedInUse c w s := by
  intro x att addr a _ hx hsub
  have hmem : (x.name, Record.attachment att) ∈ c.store.list "workload_networks" :=
    StateStore.mem_list.2 hx
  have hno := List.any_eq_false.1 h _ hmem
  simp [Record.asAttachment, hsub] at hno

/-- The leadership moves, and each leader attaches to a subnet of its own. -/
def apart : List ControlPlaneOp :=
  [.attachWorkload 0 quietEnv ⟨"a"⟩ ⟨"s1"⟩ false, .attachWorkload 1 quietEnv ⟨"b"⟩ ⟨"s2"⟩ false]

theorem fleet_addresses_unique_apart :
    ∃ f, boot twoSubnets = some f ∧ ∀ n f', run ControlPlane.step f (apart.take n) = some f' →
      f'.AddressesUnique := by
  have hstore : RecordsUnique twoSubnets := by
    intro w w' att att' addr hw
    have hmem := StateStore.mem_list.2 hw
    have hempty : (twoSubnets.list "workload_networks").isEmpty := by decide +kernel
    rw [List.isEmpty_iff.1 hempty] at hmem
    exact absurd hmem List.not_mem_nil
  refine ⟨_, rfl, fun n f' hrun => fleet_addresses_unique twoSubnets hstore _ rfl apart ?_ n f' hrun⟩
  -- neither leader has an attachment in memory when it is called
  refine .cons (fun _ _ => ⟨fun x att _ hx => ?_, ?_⟩) rfl
    (.cons (fun _ _ => ⟨fun x att _ hx => ?_, ?_⟩) rfl trivial)
  · have hx' : (none : Option NetworkAttachment) = some att := hx
    cases hx'
  · exact recordedInUse_of_not_occupied _ (by decide +kernel)
  · have hx' : (none : Option NetworkAttachment) = some att := hx
    cases hx'
  · exact recordedInUse_of_not_occupied _ (by decide +kernel)

/-- The leadership moves, and the next leader attaches to the same subnet. -/
def handover : List ControlPlaneOp :=
  [.attachWorkload 0 quietEnv ⟨"a"⟩ ⟨"s1"⟩ false, .attachWorkload 1 quietEnv ⟨"b"⟩ ⟨"s1"⟩ false]

/-- The second leader does not have the first attachment in memory and gives out the same address,
and both are recorded on every node. -/
theorem handover_duplicates_address :
    ∃ f f', boot twoSubnets = some f ∧ run ControlPlane.step f handover = some f' ∧
      (∀ i, recorded (f'.nodes i).store ⟨"a"⟩ =
          some (.attachment ⟨⟨"s1"⟩, false, some "10.0.1.2"⟩) ∧
        recorded (f'.nodes i).store ⟨"b"⟩ =
          some (.attachment ⟨⟨"s1"⟩, false, some "10.0.1.2"⟩)) ∧
      ¬f'.AddressesUnique := by
  refine ⟨_, _, rfl, rfl, fun i => ?_, fun h => ?_⟩
  · rw [commit_store]
    exact ⟨rfl, rfl⟩
  · exact absurd (addressesUnique_commit.1 h ⟨"a"⟩ ⟨"b"⟩ ⟨⟨"s1"⟩, false, some "10.0.1.2"⟩
      ⟨⟨"s1"⟩, false, some "10.0.1.2"⟩ "10.0.1.2" rfl rfl rfl rfl rfl) (by decide)

end OCF.Api
