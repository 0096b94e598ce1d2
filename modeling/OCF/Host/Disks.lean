import OCF.Host.Lsblk

/-!
# The disks of a machine

The disk manager lists the disks of a machine: the records it keeps for the machine (restored from a
snapshot, or made when a disk is marked for return) and the disks that `lsblk` finds. `lsblk` only
knows the host it runs on, so these are the disks of this host whatever machine is asked about. Both
are put into a map by serial, in which a record goes before a live disk and the first live disk
before the others of its serial. The disk service stamps what is listed with the history of the
serial and remembers on which machine it was seen.

`lookup_bySerial` says what the map holds. A hash map hands out its values in any order.
-/

namespace OCF

namespace Disks

/-- The order in which a hash map hands out what it holds. -/
structure Arrangement (α : Type*) where
  list : List α → List α
  perm : ∀ l, (list l).Perm l

/-- Which disk this is and where: its machine, its serial and its device. -/
def PhysicalDisk.place (d : PhysicalDisk) : Id × String × String :=
  (d.machineId, d.serial, d.devPath)

/-! ## The manager -/

/-- The records of the manager by serial. -/
structure SysfsDiskManager where
  disks : HashMap String PhysicalDisk
  keyed : ∀ serial d, disks.lookup serial = some d → d.serial = serial

namespace SysfsDiskManager

/-- A manager that knows no disk. -/
def new : SysfsDiskManager := ⟨∅, fun _ _ h => by simp at h⟩

theorem keyed_insert {disks : HashMap String PhysicalDisk}
    (h : ∀ serial d, disks.lookup serial = some d → d.serial = serial) {serial : String}
    {disk : PhysicalDisk} (hdisk : disk.serial = serial) :
    ∀ s d, (disks.insert serial disk).lookup s = some d → d.serial = s := by
  intro s d hd
  rcases HashMap.lookup_insert_eq_some.1 hd with ⟨rfl, rfl⟩ | ⟨-, hd⟩
  · exact hdisk
  · exact h s d hd

/-- Put a disk among the records, as a restart does for the disks of the snapshot. -/
def seed (mgr : SysfsDiskManager) (disk : PhysicalDisk) : SysfsDiskManager :=
  ⟨mgr.disks.insert disk.serial disk, keyed_insert mgr.keyed rfl⟩

variable (mgr : SysfsDiskManager) (machineId : Id)

/-- The records of a machine. -/
def tracked : HashMap String PhysicalDisk :=
  ((HashMap.values mgr.disks).filter fun d => d.machineId = machineId).foldl
    (fun m d => m.insert d.serial d) ∅

/-- Add a live disk whose serial is not there yet. -/
def addLive (m : HashMap String PhysicalDisk) (disk : PhysicalDisk) : HashMap String PhysicalDisk :=
  if disk.serial ∈ m then m else m.insert disk.serial disk

/-- A disk with the return mark of its serial's record. -/
def overlay (disk : PhysicalDisk) : PhysicalDisk :=
  match (mgr.disks.lookup disk.serial).bind PhysicalDisk.rmaDate with
  | some rma =>
    if disk.rmaDate = none then { disk with rmaDate := some rma, health := .failing } else disk
  | none => disk

/-- The disks of a machine by serial. Without `lsblk` these are the records alone. -/
def bySerial (lsblk : Result String) (now : ℤ) : HashMap String PhysicalDisk :=
  let live := match lsblk with
    | .ok output => parseLsblkPairs output machineId now
    | .error _ => []
  HashMap.mapVal (fun _ => mgr.overlay) (live.foldl addLive (mgr.tracked machineId))

/-- List the disks of a machine. -/
def list (lsblk : Result String) (now : ℤ) (order : Arrangement PhysicalDisk) :
    Result (List PhysicalDisk) :=
  .ok (order.list (HashMap.values (mgr.bySerial machineId lsblk now)))

/-- Mark a disk for return. A serial without a record gets one, on no machine. -/
def markRma (serial : String) (now : ℤ) : SysfsDiskManager :=
  let disk := (mgr.disks.lookup serial).getD (PhysicalDisk.new ⟨""⟩ serial now)
  have hdisk : disk.serial = serial := by
    cases h : mgr.disks.lookup serial with
    | none => simp [disk, h, PhysicalDisk.new]
    | some d => simpa [disk, h] using mgr.keyed serial d h
  if disk.rmaDate = none then
    ⟨mgr.disks.insert serial { disk with rmaDate := some now, health := .failing },
      keyed_insert mgr.keyed hdisk⟩
  else ⟨mgr.disks.insert serial disk, keyed_insert mgr.keyed hdisk⟩

/-! ### What the map holds -/

theorem lookup_tracked (serial : String) :
    (mgr.tracked machineId).lookup serial =
      (mgr.disks.lookup serial).filter fun d => d.machineId = machineId := by
  have hmem : ∀ d, d ∈ (HashMap.values mgr.disks).filter (fun d => d.machineId = machineId) ↔
      mgr.disks.lookup d.serial = some d ∧ d.machineId = machineId := by
    intro d
    rw [List.mem_filter, HashMap.mem_values, decide_eq_true_eq]
    refine and_congr_left fun _ => ⟨?_, fun h => ⟨_, h⟩⟩
    rintro ⟨s, hs⟩
    rw [mgr.keyed s d hs, hs]
  rcases HashMap.lookup_foldl_insert PhysicalDisk.serial id
      ((HashMap.values mgr.disks).filter fun d => d.machineId = machineId) ∅ serial with
    ⟨d, hd, rfl, hlookup⟩ | ⟨hnone, hlookup⟩
  · obtain ⟨hdisk, hmachine⟩ := (hmem d).1 hd
    refine hlookup.trans ?_
    simp [hdisk, hmachine, Option.filter]
  · refine hlookup.trans ?_
    cases hdisk : mgr.disks.lookup serial with
    | none => simp
    | some d =>
      have hserial := mgr.keyed serial d hdisk
      have hmachine : d.machineId ≠ machineId := fun h =>
        hnone d ((hmem d).2 ⟨hserial.symm ▸ hdisk, h⟩) hserial
      simp [hmachine, Option.filter]

theorem lookup_foldl_addLive (live : List PhysicalDisk) (m : HashMap String PhysicalDisk)
    (serial : String) :
    (live.foldl addLive m).lookup serial =
      (m.lookup serial).or (live.find? fun d => d.serial = serial) := by
  induction live generalizing m with
  | nil => simp
  | cons d live ih =>
    rw [List.foldl_cons, ih, addLive]
    by_cases hmem : d.serial ∈ m
    · rw [if_pos hmem]
      obtain ⟨d', hd'⟩ := HashMap.mem_iff_exists_lookup.1 hmem
      by_cases hs : d.serial = serial
      · subst hs
        simp [hd']
      · simp [hs]
    · rw [if_neg hmem, HashMap.lookup_insert_eq]
      by_cases hs : d.serial = serial
      · subst hs
        simp [AList.lookup_eq_none.2 hmem]
      · simp [hs, Ne.symm hs]

/-- The mark leaves a disk where it is. -/
theorem place_overlay (disk : PhysicalDisk) : (mgr.overlay disk).place = disk.place := by
  unfold overlay
  split
  · split_ifs <;> rfl
  · rfl

/-- A serial has the record of the machine, or else the first live disk. -/
theorem lookup_bySerial (rows : List LsblkRow) (now : ℤ) (serial : String) :
    (mgr.bySerial machineId (.ok (lsblkOutput rows)) now).lookup serial =
      (((mgr.disks.lookup serial).filter fun d => d.machineId = machineId).or
        ((rows.find? fun r => r.serial = serial).map fun r => r.disk machineId now)).map
          mgr.overlay := by
  rw [bySerial, HashMap.lookup_mapVal, parseLsblkPairs_output, lookup_foldl_addLive, lookup_tracked,
    List.find?_map]
  rfl

/-- The serials in the map are the keys. -/
theorem keyed_bySerial (rows : List LsblkRow) (now : ℤ) {serial : String} {d : PhysicalDisk}
    (h : (mgr.bySerial machineId (.ok (lsblkOutput rows)) now).lookup serial = some d) :
    d.serial = serial := by
  rw [lookup_bySerial] at h
  obtain ⟨d₀, hd₀, rfl⟩ := Option.map_eq_some_iff.1 h
  have hserial : (mgr.overlay d₀).serial = d₀.serial :=
    congrArg (fun p => p.2.1) (mgr.place_overlay d₀)
  rw [hserial]
  rcases Option.or_eq_some_iff.1 hd₀ with h₀ | ⟨-, h₀⟩
  · exact mgr.keyed serial d₀ (Option.filter_eq_some_iff.1 h₀).1
  · obtain ⟨r, hr, rfl⟩ := Option.map_eq_some_iff.1 h₀
    have hserial : r.serial = serial := by simpa using List.find?_some hr
    exact hserial

/-- What is listed for a machine: its records, and the first live disk of every serial that has
none. -/
theorem mem_bySerial (rows : List LsblkRow) (now : ℤ) (p : Id × String × String) :
    p ∈ (HashMap.values (mgr.bySerial machineId (.ok (lsblkOutput rows)) now)).map
      PhysicalDisk.place ↔
      (∃ d ∈ HashMap.values mgr.disks, d.machineId = machineId ∧ p = d.place) ∨
        ∃ r, (∀ d ∈ HashMap.values mgr.disks, d.serial = r.serial → d.machineId ≠ machineId) ∧
          rows.find? (fun r' => r'.serial = r.serial) = some r ∧
          p = (machineId, r.serial, r.devPath) := by
  simp only [List.mem_map, HashMap.mem_values, lookup_bySerial]
  constructor
  · rintro ⟨d, ⟨serial, hd⟩, rfl⟩
    obtain ⟨d₀, hd₀, rfl⟩ := Option.map_eq_some_iff.1 hd
    rw [place_overlay]
    rcases Option.or_eq_some_iff.1 hd₀ with h₀ | ⟨hnone, h₀⟩
    · obtain ⟨hlookup, hmachine⟩ := Option.filter_eq_some_iff.1 h₀
      exact .inl ⟨d₀, ⟨serial, hlookup⟩, of_decide_eq_true hmachine, rfl⟩
    · obtain ⟨r, hr, rfl⟩ := Option.map_eq_some_iff.1 h₀
      obtain rfl : r.serial = serial := by simpa using List.find?_some hr
      refine .inr ⟨r, ?_, hr, rfl⟩
      rintro d ⟨s, hs⟩ hserial hmachine
      rw [← mgr.keyed s d hs, hserial] at hs
      simp [hs, hmachine, Option.filter] at hnone
  · rintro (⟨d, ⟨serial, hd⟩, hmachine, rfl⟩ | ⟨r, hrecord, hr, rfl⟩)
    · refine ⟨mgr.overlay d, ⟨serial, ?_⟩, place_overlay ..⟩
      simp [hd, hmachine, Option.filter]
    · refine ⟨mgr.overlay (r.disk machineId now), ⟨r.serial, ?_⟩, place_overlay ..⟩
      have hnone : (mgr.disks.lookup r.serial).filter (fun d => d.machineId = machineId) = none := by
        cases hlookup : mgr.disks.lookup r.serial with
        | none => rfl
        | some d =>
          have hmachine := hrecord d ⟨_, hlookup⟩ (mgr.keyed _ d hlookup)
          simp [hmachine, Option.filter]
      rw [hnone, hr]
      rfl

end SysfsDiskManager

/-! ## The service -/

/-- What is kept about a serial. -/
structure DiskRecord where
  serial : String
  firstSeen : ℤ
  rmaDate : Option ℤ
  lastMachine : Option Id

/-- The manager, and what is recorded by serial number. -/
structure DiskService where
  manager : SysfsDiskManager
  records : HashMap String DiskRecord

namespace DiskService

/-- Stamp a listed disk with the history of its serial and record where it was seen. -/
def stamp (records : HashMap String DiskRecord) (disk : PhysicalDisk) :
    PhysicalDisk × HashMap String DiskRecord :=
  let record := (records.lookup disk.serial).getD ⟨disk.serial, disk.firstSeen, none, none⟩
  let record := { record with
    firstSeen := if disk.firstSeen < record.firstSeen then disk.firstSeen else record.firstSeen
    lastMachine := some disk.machineId }
  ({ disk with
      firstSeen := record.firstSeen
      rmaDate := if disk.rmaDate = none then record.rmaDate else disk.rmaDate },
    records.insert disk.serial record)

/-- Record disks one after the other. -/
def stampAll : List PhysicalDisk → HashMap String DiskRecord →
    List PhysicalDisk × HashMap String DiskRecord
  | [], records => ([], records)
  | disk :: disks, records =>
    let (disk, records) := stamp records disk
    let (disks, records) := stampAll disks records
    (disk :: disks, records)

/-- List the disks of a machine. -/
def list (service : DiskService) (machineId : Id) (lsblk : Result String) (now : ℤ)
    (order : Arrangement PhysicalDisk) : Result (List PhysicalDisk) × DiskService :=
  match service.manager.list machineId lsblk now order with
  | .error e => (.error e, service)
  | .ok disks =>
    let (disks, records) := stampAll disks service.records
    (.ok disks, { service with records })

theorem place_stampAll (disks : List PhysicalDisk) (records : HashMap String DiskRecord) :
    (stampAll disks records).1.map PhysicalDisk.place = disks.map PhysicalDisk.place := by
  induction disks generalizing records with
  | nil => rfl
  | cons disk disks ih =>
    rw [stampAll, List.map_cons, List.map_cons, ih]
    rfl

/-- The machine on which a serial was seen last. -/
def lastMachine (records : HashMap String DiskRecord) (serial : String) : Option Id :=
  (records.lookup serial).bind DiskRecord.lastMachine

theorem lastMachine_stamp (records : HashMap String DiskRecord) (disk : PhysicalDisk)
    (serial : String) :
    lastMachine (stamp records disk).2 serial =
      if serial = disk.serial then some disk.machineId else lastMachine records serial := by
  rw [lastMachine, stamp, HashMap.lookup_insert_eq]
  split_ifs <;> rfl

/-- A serial that was listed was seen on a machine it was listed for; another one is where it was.
-/
theorem lastMachine_stampAll (disks : List PhysicalDisk) (records : HashMap String DiskRecord)
    (serial : String) :
    (∃ d ∈ disks, d.serial = serial ∧
        lastMachine (stampAll disks records).2 serial = some d.machineId) ∨
      (∀ d ∈ disks, d.serial ≠ serial) ∧
        lastMachine (stampAll disks records).2 serial = lastMachine records serial := by
  induction disks generalizing records with
  | nil => exact .inr ⟨by simp, rfl⟩
  | cons disk disks ih =>
    rcases ih (stamp records disk).2 with ⟨d, hd, hs, hlast⟩ | ⟨hnone, hlast⟩
    · exact .inl ⟨d, List.mem_cons_of_mem _ hd, hs, hlast⟩
    · have hhead := hlast.trans (lastMachine_stamp records disk serial)
      by_cases hs : serial = disk.serial
      · rw [if_pos hs] at hhead
        exact .inl ⟨disk, List.mem_cons_self, hs.symm, hhead⟩
      · rw [if_neg hs] at hhead
        exact .inr ⟨List.forall_mem_cons.2 ⟨Ne.symm hs, hnone⟩, hhead⟩

end DiskService

end Disks

end OCF
