import OCF.Api.Addressing
import OCF.Foundations.Lists
import OCF.Host.Disks

/-!
# The disks of the fleet

The controller lists the disks of the fleet machine by machine. The listing of each machine runs on
the node that answers the request, so that every machine of the topology is given the disks of that
node, and disks that share a serial are one.

`allDisks_listedOnce_iff` says for which topologies, records and outputs of `lsblk` every disk of
the node is returned once, on the node, and was then last seen there.
-/

namespace OCF.Api

open OCF.Disks

/-- The surroundings of a listing: what `lsblk` prints on the node, the time at which each machine
is listed, and the order in which maps are read. -/
structure Enumeration where
  lsblk : Result String
  now : Id → ℤ
  order : Arrangement PhysicalDisk

/-- The disks of every machine. A machine whose disks cannot be listed is skipped. -/
def allDisks (env : Enumeration) :
    List Topology.Machine → DiskService → List PhysicalDisk × DiskService
  | [], service => ([], service)
  | m :: machines, service =>
    match service.list m.metadata.id env.lsblk (env.now m.metadata.id) env.order with
    | (.ok disks, service) =>
      let (rest, service) := allDisks env machines service
      (disks ++ rest, service)
    | (.error _, service) => allDisks env machines service

/-- The node's disks are returned once each, on the node, and were last seen there. -/
structure ListedOnce (node : Id) (rows : List LsblkRow) (answer : List PhysicalDisk × DiskService) :
    Prop where
  once : (answer.1.map PhysicalDisk.place).Perm (rows.map fun r => (node, r.serial, r.devPath))
  lastMachine : ∀ r ∈ rows, DiskService.lastMachine answer.2.records r.serial = some node

/-- The node is the only machine that anything is listed for: there are no other machines, or there
are neither disks nor records of theirs. The node's disks have serials that are told apart, and its
records are of disks that it has, at the same device. -/
structure SoleLister (mgr : SysfsDiskManager) (ids : List Id) (node : Id) (rows : List LsblkRow) :
    Prop where
  others : ∀ id ∈ ids, id ≠ node → rows = [] ∧ ∀ d ∈ HashMap.values mgr.disks, d.machineId ≠ id
  present : rows ≠ [] → node ∈ ids ∧ (rows.map LsblkRow.serial).Nodup
  records : node ∈ ids → ∀ d ∈ HashMap.values mgr.disks, d.machineId = node →
    ∃ r ∈ rows, r.serial = d.serial ∧ r.devPath = d.devPath

/-! ## One machine -/

/-- What is listed for a machine. -/
def listing (mgr : SysfsDiskManager) (rows : List LsblkRow) (now : Id → ℤ) (id : Id) :
    List (Id × String × String) :=
  (HashMap.values (mgr.bySerial id (.ok (lsblkOutput rows)) (now id))).map PhysicalDisk.place

variable {mgr : SysfsDiskManager} {rows : List LsblkRow} {now : Id → ℤ} {id node : Id}
  {p : Id × String × String}

theorem mem_listing : p ∈ listing mgr rows now id ↔
    (∃ d ∈ HashMap.values mgr.disks, d.machineId = id ∧ p = d.place) ∨
      ∃ r, (∀ d ∈ HashMap.values mgr.disks, d.serial = r.serial → d.machineId ≠ id) ∧
        rows.find? (fun r' => r'.serial = r.serial) = some r ∧ p = (id, r.serial, r.devPath) :=
  mgr.mem_bySerial id rows (now id) p

/-- Everything is listed as a disk of the machine that is asked about. -/
theorem fst_of_mem_listing (h : p ∈ listing mgr rows now id) : p.1 = id := by
  rcases mem_listing.1 h with ⟨d, -, rfl, rfl⟩ | ⟨r, -, -, rfl⟩ <;> rfl

/-- Every disk of the node has its serial in the listing of every machine. -/
theorem exists_mem_listing {r : LsblkRow} (hr : r ∈ rows) :
    ∃ p ∈ listing mgr rows now id, p.2.1 = r.serial := by
  by_cases hrecord : ∃ d ∈ HashMap.values mgr.disks, d.serial = r.serial ∧ d.machineId = id
  · obtain ⟨d, hd, hserial, hmachine⟩ := hrecord
    exact ⟨d.place, mem_listing.2 (.inl ⟨d, hd, hmachine, rfl⟩), hserial⟩
  · obtain ⟨r', hr'⟩ : ∃ r', rows.find? (fun r' => r'.serial = r.serial) = some r' :=
      Option.isSome_iff_exists.1 (List.find?_isSome.2 ⟨r, hr, by simp⟩)
    have hserial : r'.serial = r.serial := by simpa using List.find?_some hr'
    refine ⟨(id, r'.serial, r'.devPath), mem_listing.2 (.inr ⟨r', ?_, hserial ▸ hr', rfl⟩), hserial⟩
    exact fun d hd hs hm => hrecord ⟨d, hd, hs.trans hserial, hm⟩

theorem nodup_serials_listing (mgr : SysfsDiskManager) (rows : List LsblkRow) (now : Id → ℤ)
    (id : Id) :
    ((listing mgr rows now id).map fun p => p.2.1).Nodup := by
  rw [listing, List.map_map]
  exact HashMap.nodup_map_values fun serial d h => mgr.keyed_bySerial id rows (now id) h

/-- Nothing is listed for a machine without records when the node has no disks. -/
theorem listing_eq_nil (hrows : rows = [])
    (hrecords : ∀ d ∈ HashMap.values mgr.disks, d.machineId ≠ id) :
    listing mgr rows now id = [] := by
  rw [List.eq_nil_iff_forall_not_mem]
  intro p hp
  rcases mem_listing.1 hp with ⟨d, hd, hmachine, -⟩ | ⟨r, -, hr, -⟩
  · exact hrecords d hd hmachine
  · simp [hrows] at hr

/-! ## All machines -/

/-- Where one list of places is the disks of the node, the node is the only lister. -/
theorem soleLister_of_perm {ids : List Id} (hids : ids.Nodup)
    (h : (ids.flatMap (listing mgr rows now)).Perm (rows.map fun r => (node, r.serial, r.devPath))) :
    SoleLister mgr ids node rows := by
  have hnode : ∀ id ∈ ids, ∀ p ∈ listing mgr rows now id, id = node := by
    intro id hid p hp
    obtain ⟨r, -, rfl⟩ := List.mem_map.1 (h.mem_iff.1 (List.mem_flatMap.2 ⟨id, hid, hp⟩))
    exact (fst_of_mem_listing hp).symm
  refine ⟨fun id hid hne => ⟨?_, fun d hd hmachine => ?_⟩, fun hrows => ?_,
    fun hmem d hd hmachine => ?_⟩
  · rw [List.eq_nil_iff_forall_not_mem]
    intro r hr
    obtain ⟨p, hp, -⟩ : ∃ p ∈ listing mgr rows now id, p.2.1 = r.serial := exists_mem_listing hr
    exact hne (hnode id hid p hp)
  · exact hne (hnode id hid d.place (mem_listing.2 (.inl ⟨d, hd, hmachine, rfl⟩)))
  · obtain ⟨r, hr⟩ := List.exists_mem_of_ne_nil rows hrows
    have hplace := h.mem_iff.2 (List.mem_map_of_mem (f := fun r => (node, r.serial, r.devPath)) hr)
    obtain ⟨id, hid, hp⟩ := List.mem_flatMap.1 hplace
    obtain rfl := hnode id hid _ hp
    refine ⟨hid, ?_⟩
    have hflat : ids.flatMap (listing mgr rows now) = listing mgr rows now id :=
      flatMap_eq_of_forall_ne hids hid fun b hb hne =>
        List.eq_nil_iff_forall_not_mem.2 fun q hq => hne (hnode b hb q hq)
    have hserials := h.map fun p => p.2.1
    rw [hflat, List.map_map] at hserials
    exact hserials.nodup_iff.1 (nodup_serials_listing mgr rows now id)
  · have hplace := h.mem_iff.1 (List.mem_flatMap.2
      ⟨node, hmem, mem_listing.2 (.inl ⟨d, hd, hmachine, rfl⟩)⟩)
    obtain ⟨r, hr, heq⟩ := List.mem_map.1 hplace
    simp only [PhysicalDisk.place, Prod.mk.injEq] at heq
    exact ⟨r, hr, heq.2.1, heq.2.2⟩

theorem perm_of_soleLister {ids : List Id} (hids : ids.Nodup) (h : SoleLister mgr ids node rows) :
    (ids.flatMap (listing mgr rows now)).Perm (rows.map fun r => (node, r.serial, r.devPath)) := by
  have hothers : ∀ id ∈ ids, id ≠ node → listing mgr rows now id = [] :=
    fun id hid hne => listing_eq_nil (h.others id hid hne).1 (h.others id hid hne).2
  by_cases hmem : node ∈ ids
  · have hserials : (rows.map LsblkRow.serial).Nodup := by
      by_cases hrows : rows = []
      · simp [hrows]
      · exact (h.present hrows).2
    have hinj : ∀ r ∈ rows, ∀ r' ∈ rows, r.serial = r'.serial → r = r' :=
      fun r hr r' hr' => List.inj_on_of_nodup_map hserials hr hr'
    rw [flatMap_eq_of_forall_ne hids hmem hothers, List.perm_ext_iff_of_nodup
      (nodup_serials_listing mgr rows now node).of_map]
    · intro p
      rw [mem_listing, List.mem_map]
      constructor
      · rintro (⟨d, hd, rfl, rfl⟩ | ⟨r, -, hr, rfl⟩)
        · obtain ⟨r, hr, hserial, hdev⟩ := h.records hmem d hd rfl
          exact ⟨r, hr, by rw [hserial, hdev]; rfl⟩
        · exact ⟨r, List.mem_of_find?_eq_some hr, rfl⟩
      · rintro ⟨r, hr, rfl⟩
        by_cases hrecord : ∃ d ∈ HashMap.values mgr.disks, d.serial = r.serial ∧ d.machineId = node
        · -- The record is of a disk of the node, which is this one since the serials differ.
          obtain ⟨d, hd, hserial, hmachine⟩ := hrecord
          obtain ⟨r', hr', hserial', hdev⟩ := h.records hmem d hd hmachine
          obtain rfl := hinj r' hr' r hr (hserial'.trans hserial)
          exact .inl ⟨d, hd, hmachine, by rw [PhysicalDisk.place, hmachine, hserial, hdev]⟩
        · obtain ⟨r', hr'⟩ : ∃ r', rows.find? (fun r' => r'.serial = r.serial) = some r' :=
            Option.isSome_iff_exists.1 (List.find?_isSome.2 ⟨r, hr, by simp⟩)
          have hserial : r'.serial = r.serial := by simpa using List.find?_some hr'
          obtain rfl := hinj r' (List.mem_of_find?_eq_some hr') r hr hserial
          exact .inr ⟨r', fun d hd hs hm => hrecord ⟨d, hd, hs, hm⟩, hr', rfl⟩
    · refine List.Nodup.of_map (fun p => p.2.1) ?_
      rw [List.map_map]
      exact hserials
  · have hrows : rows = [] := by
      by_contra hrows
      exact hmem (h.present hrows).1
    have hnil : ids.flatMap (listing mgr rows now) = [] :=
      List.flatMap_eq_nil_iff.2 fun id hid => hothers id hid fun e => hmem (e ▸ hid)
    rw [hnil, hrows]
    rfl

/-! ## The answer -/

/-- What one listing of the service returns and records. -/
theorem list_spec (service : DiskService) (rows : List LsblkRow) (now : Id → ℤ) (id : Id)
    (order : Arrangement PhysicalDisk) :
    ∃ disks records, service.list id (.ok (lsblkOutput rows)) (now id) order =
        (.ok disks, { service with records }) ∧
      (disks.map PhysicalDisk.place).Perm (listing service.manager rows now id) ∧
      ∀ serial, (∃ p ∈ disks.map PhysicalDisk.place, p.2.1 = serial ∧
          DiskService.lastMachine records serial = some p.1) ∨
        (∀ p ∈ disks.map PhysicalDisk.place, p.2.1 ≠ serial) ∧
          DiskService.lastMachine records serial =
            DiskService.lastMachine service.records serial := by
  set listed := order.list (HashMap.values
    (service.manager.bySerial id (.ok (lsblkOutput rows)) (now id))) with hlisted
  have hplace := DiskService.place_stampAll listed service.records
  refine ⟨(DiskService.stampAll listed service.records).1,
    (DiskService.stampAll listed service.records).2, rfl, ?_, fun serial => ?_⟩
  · rw [hplace]
    exact (order.perm _).map _
  · rw [hplace]
    rcases DiskService.lastMachine_stampAll listed service.records serial with
      ⟨d, hd, hs, hlast⟩ | ⟨hnone, hlast⟩
    · exact .inl ⟨d.place, List.mem_map_of_mem hd, hs, hlast⟩
    · refine .inr ⟨fun p hp => ?_, hlast⟩
      obtain ⟨d, hd, rfl⟩ := List.mem_map.1 hp
      exact hnone d hd

/-- The answer is made of the listings of the machines, and a serial in it was last seen on a
machine that it was listed for. -/
theorem allDisks_spec (rows : List LsblkRow) (now : Id → ℤ) (order : Arrangement PhysicalDisk)
    (machines : List Topology.Machine) (service : DiskService) :
    let answer := allDisks ⟨.ok (lsblkOutput rows), now, order⟩ machines service
    (answer.1.map PhysicalDisk.place).Perm
        ((machines.map fun m => m.metadata.id).flatMap (listing service.manager rows now)) ∧
      ∀ serial, (∃ p ∈ answer.1.map PhysicalDisk.place, p.2.1 = serial ∧
          DiskService.lastMachine answer.2.records serial = some p.1) ∨
        (∀ p ∈ answer.1.map PhysicalDisk.place, p.2.1 ≠ serial) ∧
          DiskService.lastMachine answer.2.records serial =
            DiskService.lastMachine service.records serial := by
  induction machines generalizing service with
  | nil => exact ⟨List.Perm.refl _, fun serial => .inr ⟨by simp [allDisks], rfl⟩⟩
  | cons m machines ih =>
    obtain ⟨disks, records, hlist, hperm, hlast⟩ := list_spec service rows now m.metadata.id order
    obtain ⟨hpermRest, hlastRest⟩ := ih { service with records }
    intro answer
    have hanswer : answer = (disks ++
        (allDisks ⟨.ok (lsblkOutput rows), now, order⟩ machines { service with records }).1,
        (allDisks ⟨.ok (lsblkOutput rows), now, order⟩ machines { service with records }).2) := by
      simp only [answer, allDisks, hlist]
    rw [hanswer]
    refine ⟨?_, fun serial => ?_⟩
    · rw [List.map_append, List.map_cons, List.flatMap_cons]
      exact hperm.append hpermRest
    · rw [List.map_append]
      rcases hlastRest serial with ⟨p, hp, hs, h⟩ | ⟨hnone, h⟩
      · exact .inl ⟨p, List.mem_append_right _ hp, hs, h⟩
      · rcases hlast serial with ⟨p, hp, hs, h'⟩ | ⟨hnone', h'⟩
        · exact .inl ⟨p, List.mem_append_left _ hp, hs, h.trans h'⟩
        · refine .inr ⟨fun p hp => ?_, h.trans h'⟩
          rcases List.mem_append.1 hp with hp | hp
          · exact hnone' p hp
          · exact hnone p hp

/-- Every disk of the node is returned once, on the node, and last seen there, if and only if the
node is the only machine that anything is listed for, its disks have different serials and its
records are of its disks. -/
theorem allDisks_listedOnce_iff (puts : List Topology.Machine)
    (machineOrder : Arrangement Topology.Machine) (service : DiskService) (rows : List LsblkRow)
    (now : Id → ℤ) (order : Arrangement PhysicalDisk) (node : Id) :
    let machines := machineOrder.list (putMachines .new puts).allMachines
    ListedOnce node rows (allDisks ⟨.ok (lsblkOutput rows), now, order⟩ machines service) ↔
      SoleLister service.manager (machines.map fun m => m.metadata.id) node rows := by
  intro machines
  have hids : (machines.map fun m => m.metadata.id).Nodup :=
    ((machineOrder.perm _).map _).nodup_iff.2 (keyedById_putMachines keyedById_new).nodup
  obtain ⟨hperm, hlast⟩ := allDisks_spec rows now order machines service
  constructor
  · intro h
    exact soleLister_of_perm hids (hperm.symm.trans h.once)
  · intro h
    have honce := hperm.trans (perm_of_soleLister hids h)
    refine ⟨honce, fun r hr => ?_⟩
    have hmem := honce.mem_iff.2 (List.mem_map_of_mem (f := fun r => (node, r.serial, r.devPath)) hr)
    rcases hlast r.serial with ⟨p, hp, -, h⟩ | ⟨hnone, -⟩
    · obtain ⟨r', -, rfl⟩ := List.mem_map.1 (honce.mem_iff.1 hp)
      exact h
    · exact absurd rfl (hnone _ hmem)

/-! ### A fleet of two machines -/

/-- A node with one disk. -/
def oneDisk : List LsblkRow :=
  [⟨"sda", "S1", "", "ST1000", "ATA", 1000, by decide, by decide⟩]

/-- The machines `n1` and `n2`. -/
def twoMachineFleet : List Topology.Machine :=
  ["n1", "n2"].map fun name =>
    ⟨⟨⟨name⟩, name, ∅⟩, ⟨"r"⟩, ⟨"d"⟩, ⟨"k"⟩, none, none, ⟨0, 0, 0⟩, .running, .healthy⟩

def asListed (α : Type*) : Arrangement α := ⟨fun l => l, fun _ => List.Perm.refl _⟩

/-- The one disk is returned for both machines, whichever of them the node is. -/
theorem allDisks_two_machines :
    let answer := allDisks ⟨.ok (lsblkOutput oneDisk), fun _ => 0, asListed _⟩
      ((asListed _).list (putMachines .new twoMachineFleet).allMachines) ⟨.new, ∅⟩
    answer.1.map PhysicalDisk.place = [(⟨"n2"⟩, "S1", "/dev/sda"), (⟨"n1"⟩, "S1", "/dev/sda")] ∧
      ¬ ListedOnce ⟨"n1"⟩ oneDisk answer ∧ ¬ ListedOnce ⟨"n2"⟩ oneDisk answer := by
  intro answer
  have hplaces : answer.1.map PhysicalDisk.place =
      [(⟨"n2"⟩, "S1", "/dev/sda"), (⟨"n1"⟩, "S1", "/dev/sda")] := by
    decide +kernel
  refine ⟨hplaces, fun h => ?_, fun h => ?_⟩
  · simpa [hplaces, oneDisk] using h.once.length_eq
  · simpa [hplaces, oneDisk] using h.once.length_eq

end OCF.Api
