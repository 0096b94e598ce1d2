import OCF.Foundations.HashMap
import OCF.Host.InventoryCollector

/-!
# The ages of hardware parts

The inventory service keeps a ledger of the time at which each serial was first seen in the fleet,
and puts that time on every component it records. A serial that was made up from a local name is not
a part's own: two machines both have a `CPU0`, and the second one to be scanned gets the age of the
first one's.

A scan tells, beside what the host shows, which physical part each of the collected rows stands for.
For every sequence of scans `agesPerPart_iff` says when no part is dated before it was there and no
two parts share an entry of the ledger: when no two parts have rows with the same serial.
-/

namespace OCF

namespace Inventory

/-! ## The service -/

/-- The inventories by machine, and when each serial number was first seen. -/
structure InventoryService where
  inventories : HashMap Id MachineInventory
  firstSeen : HashMap String ℤ

/-- A service without inventories. -/
def InventoryService.new : InventoryService := ⟨∅, ∅⟩

/-- Date a component by the ledger, which takes in a serial that it does not have. -/
def enter (now : ℤ) (ledger : HashMap String ℤ) (c : HardwareComponent) :
    HardwareComponent × HashMap String ℤ :=
  match ledger.lookup c.serial with
  | some seen => ({ c with firstSeen := seen }, ledger)
  | none =>
    ({ c with firstSeen := min c.firstSeen now }, ledger.insert c.serial (min c.firstSeen now))

/-- Enter components into the ledger one after the other. -/
def enterAll (now : ℤ) : HashMap String ℤ → List HardwareComponent →
    List HardwareComponent × HashMap String ℤ
  | ledger, [] => ([], ledger)
  | ledger, c :: cs =>
    let (c, ledger) := enter now ledger c
    let (cs, ledger) := enterAll now ledger cs
    (c :: cs, ledger)

/-- Record an inventory, with its components dated by the ledger. -/
def InventoryService.record (service : InventoryService) (inventory : MachineInventory) (now : ℤ) :
    MachineInventory × InventoryService :=
  let (components, ledger) := enterAll now service.firstSeen inventory.components
  let inventory := { inventory with components }
  (inventory, ⟨service.inventories.insert inventory.machineId inventory, ledger⟩)

/-! ## Scans -/

/-- A call of `collect_and_record`: the machine, what its host shows, the clock while it is
collected and when it is recorded, and the physical part that each collected row stands for. -/
structure Scan (P : Type*) where
  machineId : Id
  surface : Surface
  clock : ℕ → ℤ
  now : ℤ
  part : ℕ → P

variable {P : Type*}

/-- Scan a host and record its inventory. -/
def InventoryService.collectAndRecord (service : InventoryService) (scan : Scan P) :
    MachineInventory × InventoryService :=
  service.record (collect scan.surface scan.machineId scan.clock) scan.now

/-- A component that a scan returned, the part that it stands for, and the time of the scan: the
earlier of the clock when it was collected and when it was recorded. -/
structure Report (P : Type*) where
  part : P
  time : ℤ
  component : HardwareComponent

/-- What a scan says of the parts it has met. -/
def Scan.reports (scan : Scan P) (components : List HardwareComponent) : List (Report P) :=
  components.mapIdx fun i c => ⟨scan.part i, min (scan.clock i) scan.now, c⟩

/-- Everything that a sequence of scans returns, in order. -/
def reports : InventoryService → List (Scan P) → List (Report P)
  | _, [] => []
  | service, scan :: scans =>
    scan.reports (service.collectAndRecord scan).1.components ++
      reports (service.collectAndRecord scan).2 scans

/-- The parts in a scan, each with its row. -/
def Scan.parts (scan : Scan P) : List (P × HardwareRow) :=
  (hardwareRows scan.surface scan.machineId).mapIdx fun i row => (scan.part i, row)

/-- Ages are per part: what is returned for a part is dated no earlier than a scan, up to this one,
in which the part was present; and components with one entry in the ledger are of one part. -/
structure AgesPerPart (rs : List (Report P)) : Prop where
  dated : ∀ l₁ r l₂, rs = l₁ ++ r :: l₂ →
    ∃ r' ∈ l₁ ++ [r], r'.part = r.part ∧ r'.time ≤ r.component.firstSeen
  apart : ∀ r ∈ rs, ∀ r' ∈ rs, r.component.serial = r'.component.serial → r.part = r'.part

/-! ## The ledger -/

/-- The times in the ledger are those of reports. -/
def Accounts (ledger : HashMap String ℤ) (rs : List (Report P)) : Prop :=
  ∀ serial t, ledger.lookup serial = some t → ∃ r ∈ rs, r.component.serial = serial ∧ r.time = t

/-- Every report is dated by one of its serial that is no later in the list. -/
def Dated (rs : List (Report P)) : Prop :=
  ∀ l₁ r l₂, rs = l₁ ++ r :: l₂ →
    ∃ r' ∈ l₁ ++ [r], r'.component.serial = r.component.serial ∧ r'.time = r.component.firstSeen

/-- The ledger keeps serials. -/
theorem serial_enter (now : ℤ) (ledger : HashMap String ℤ) (c : HardwareComponent) :
    (enter now ledger c).1.serial = c.serial := by
  unfold enter
  split <;> rfl

theorem Dated.concat {rs : List (Report P)} (h : Dated rs) {r : Report P}
    (hr : ∃ r' ∈ rs ++ [r], r'.component.serial = r.component.serial ∧
      r'.time = r.component.firstSeen) : Dated (rs ++ [r]) := by
  intro l₁ x l₂ hsplit
  rcases List.eq_nil_or_concat l₂ with rfl | ⟨l₂, y, rfl⟩
  · obtain ⟨rfl, hx⟩ := List.append_inj' hsplit rfl
    obtain rfl := List.singleton_inj.1 hx
    exact hr
  · rw [List.concat_eq_append, ← List.cons_append, ← List.append_assoc] at hsplit
    exact h l₁ x l₂ (List.append_inj' hsplit rfl).1

/-- One component: the new report is dated by a report of its serial. -/
theorem enter_dated {ledger : HashMap String ℤ} {rs : List (Report P)} (hacc : Accounts ledger rs)
    (hdated : Dated rs) (part : P) (now : ℤ) (c : HardwareComponent) :
    Accounts (enter now ledger c).2 (rs ++ [⟨part, min c.firstSeen now, (enter now ledger c).1⟩]) ∧
      Dated (rs ++ [⟨part, min c.firstSeen now, (enter now ledger c).1⟩]) := by
  have hold : ∀ r : Report P, Accounts ledger (rs ++ [r]) := by
    intro r serial t ht
    obtain ⟨r', hr', h⟩ := hacc serial t ht
    exact ⟨r', List.mem_append_left _ hr', h⟩
  cases hlookup : ledger.lookup c.serial with
  | some seen =>
    have henter : enter now ledger c = ({ c with firstSeen := seen }, ledger) := by
      simp [enter, hlookup]
    rw [henter]
    obtain ⟨r', hr', hserial, htime⟩ := hacc c.serial seen hlookup
    exact ⟨hold _, hdated.concat ⟨r', List.mem_append_left _ hr', hserial, htime⟩⟩
  | none =>
    have henter : enter now ledger c = ({ c with firstSeen := min c.firstSeen now },
        ledger.insert c.serial (min c.firstSeen now)) := by
      simp [enter, hlookup]
    rw [henter]
    refine ⟨fun serial t ht => ?_, hdated.concat ⟨_, by simp, rfl, rfl⟩⟩
    rcases HashMap.lookup_insert_eq_some.1 ht with ⟨rfl, rfl⟩ | ⟨-, ht⟩
    · exact ⟨_, List.mem_append_right _ List.mem_cons_self, rfl, rfl⟩
    · exact hold _ serial t ht

/-- The components of one scan. -/
theorem enterAll_dated (now : ℤ) {cs : List HardwareComponent} {clock : ℕ → ℤ}
    (hclock : ∀ i c, cs[i]? = some c → c.firstSeen = clock i) {ledger : HashMap String ℤ}
    {rs : List (Report P)} (hacc : Accounts ledger rs) (hdated : Dated rs) (part : ℕ → P) :
    let new := (enterAll now ledger cs).1.mapIdx fun i c => Report.mk (part i) (min (clock i) now) c
    Accounts (enterAll now ledger cs).2 (rs ++ new) ∧ Dated (rs ++ new) := by
  induction cs generalizing clock ledger rs part with
  | nil => simpa [enterAll] using ⟨hacc, hdated⟩
  | cons c cs ih =>
    obtain ⟨hacc', hdated'⟩ := enter_dated hacc hdated (part 0) now c
    have hclock' : ∀ i c', cs[i]? = some c' → c'.firstSeen = clock (i + 1) :=
      fun i c' hc' => hclock (i + 1) c' (by simpa using hc')
    have hrest := ih hclock' hacc' hdated' fun i => part (i + 1)
    rw [hclock 0 c rfl] at hrest
    simpa [enterAll, List.mapIdx_cons] using hrest

/-- Every sequence of scans dates its reports by reports of the same serial. -/
theorem reports_dated (scans : List (Scan P)) {service : InventoryService} {rs : List (Report P)}
    (hacc : Accounts service.firstSeen rs) (hdated : Dated rs) :
    Dated (rs ++ reports service scans) := by
  induction scans generalizing service rs with
  | nil => simpa [reports] using hdated
  | cons scan scans ih =>
    have hclock : ∀ i c, (collect scan.surface scan.machineId scan.clock).components[i]? = some c →
        c.firstSeen = scan.clock i := by
      intro i c hc
      simp only [collect, List.getElem?_mapIdx, Option.map_eq_some_iff] at hc
      obtain ⟨row, -, rfl⟩ := hc
      rfl
    obtain ⟨hacc', hdated'⟩ := enterAll_dated scan.now hclock hacc hdated scan.part
    rw [reports, ← List.append_assoc]
    exact ih hacc' hdated'

/-! ## The serials -/

theorem serials_enterAll (now : ℤ) (ledger : HashMap String ℤ) (cs : List HardwareComponent) :
    (enterAll now ledger cs).1.map HardwareComponent.serial = cs.map HardwareComponent.serial := by
  induction cs generalizing ledger with
  | nil => rfl
  | cons c cs ih => rw [enterAll, List.map_cons, List.map_cons, ih, serial_enter]

/-- One scan returns the rows under their own serials. -/
theorem serials_collectAndRecord (service : InventoryService) (scan : Scan P) :
    (service.collectAndRecord scan).1.components.map HardwareComponent.serial =
      (hardwareRows scan.surface scan.machineId).map HardwareRow.serial := by
  refine (serials_enterAll ..).trans (List.ext_getElem? fun i => ?_)
  simp only [collect, List.getElem?_map, List.getElem?_mapIdx, Option.map_map]
  exact congrArg (Option.map · _) (funext serial_component)

/-- The reports are of the parts in the scans, under the serials of their rows. -/
theorem map_reports (service : InventoryService) (scans : List (Scan P)) :
    (reports service scans).map (fun r => (r.part, r.component.serial)) =
      (scans.flatMap Scan.parts).map fun x => (x.1, x.2.serial) := by
  induction scans generalizing service with
  | nil => rfl
  | cons scan scans ih =>
    rw [reports, List.map_append, ih, List.flatMap_cons, List.map_append]
    congr 1
    refine List.ext_getElem? fun i => ?_
    have hserials := congrArg (·[i]?) (serials_collectAndRecord service scan)
    simp only [List.getElem?_map] at hserials
    have hpair := congrArg (Option.map fun s => (scan.part i, s)) hserials
    simpa only [Scan.reports, Scan.parts, List.getElem?_map, List.getElem?_mapIdx, Option.map_map,
      Function.comp_def] using hpair

/-- No part is dated before it was there and no two parts share an entry of the ledger, if and only
if no two parts in the scans have rows with the same serial. -/
theorem agesPerPart_iff (scans : List (Scan P)) :
    AgesPerPart (reports .new scans) ↔
      ∀ x ∈ scans.flatMap Scan.parts, ∀ y ∈ scans.flatMap Scan.parts,
        x.2.serial = y.2.serial → x.1 = y.1 := by
  have hmap := map_reports .new scans
  have hdated : Dated (reports .new scans) := by
    have h : Dated ([] ++ reports .new scans) :=
      reports_dated scans (by simp [Accounts, InventoryService.new]) (by simp [Dated])
    simpa using h
  -- What is returned under a serial is what has a row of that serial.
  have hreport : ∀ part serial,
      (∃ r ∈ reports .new scans, r.part = part ∧ r.component.serial = serial) ↔
      ∃ x ∈ scans.flatMap Scan.parts, x.1 = part ∧ x.2.serial = serial := by
    intro part serial
    have hmem : (part, serial) ∈ (reports .new scans).map (fun r => (r.part, r.component.serial)) ↔
        (part, serial) ∈ (scans.flatMap Scan.parts).map fun x => (x.1, x.2.serial) := by rw [hmap]
    simpa only [List.mem_map, Prod.mk.injEq] using hmem
  constructor
  · intro h x hx y hy hserial
    obtain ⟨r, hr, hpart, hrow⟩ := (hreport x.1 x.2.serial).2 ⟨x, hx, rfl, rfl⟩
    obtain ⟨r', hr', hpart', hrow'⟩ := (hreport y.1 y.2.serial).2 ⟨y, hy, rfl, rfl⟩
    rw [← hpart, ← hpart']
    exact h.apart r hr r' hr' (by rw [hrow, hrow', hserial])
  · intro h
    have hapart : ∀ r ∈ reports .new scans, ∀ r' ∈ reports .new scans,
        r.component.serial = r'.component.serial → r.part = r'.part := by
      intro r hr r' hr' hserial
      obtain ⟨x, hx, hpart, hrow⟩ := (hreport _ _).1 ⟨r, hr, rfl, rfl⟩
      obtain ⟨y, hy, hpart', hrow'⟩ := (hreport _ _).1 ⟨r', hr', rfl, rfl⟩
      rw [← hpart, ← hpart']
      exact h x hx y hy (by rw [hrow, hrow', hserial])
    refine ⟨fun l₁ r l₂ hsplit => ?_, hapart⟩
    obtain ⟨r', hr', hserial, htime⟩ := hdated l₁ r l₂ hsplit
    refine ⟨r', hr', hapart r' ?_ r ?_ hserial, htime.le⟩
    · rw [hsplit, List.append_cons]
      exact List.mem_append_left _ hr'
    · rw [hsplit]
      simp

/-! ### Two machines with a processor -/

/-- A host that shows nothing but one processor. -/
def oneCpu : Surface where
  run _ _ := .error (.provider "dmidecode" "not found")
  read path :=
    if path = "/proc/cpuinfo" then some "processor\t: 0\nmodel name\t: Cortex-A72\n" else none
  dir _ := none

/-- The machines `m1` and `m2`, scanned at the times 100 and 500. The parts of a machine are
numbered. -/
def twoScans : List (Scan (String × ℕ)) :=
  [⟨⟨"m1"⟩, oneCpu, fun _ => 100, 100, fun i => ("m1", i)⟩,
    ⟨⟨"m2"⟩, oneCpu, fun _ => 500, 500, fun i => ("m2", i)⟩]

/-- The processor of the second machine is dated to the scan of the first one. -/
theorem second_cpu_dated_early :
    (reports .new twoScans).map
      (fun r => (r.part, r.component.serial, r.time, r.component.firstSeen)) =
        [(("m1", 0), "BB-m1", 100, 100), (("m1", 1), "CPU0", 100, 100),
          (("m2", 0), "BB-m2", 500, 500),
          (("m2", 1), "CPU0", 500, 100)] ∧
      ¬ AgesPerPart (reports .new twoScans) := by
  have hreports : (reports .new twoScans).map
      (fun r => (r.part, r.component.serial, r.time, r.component.firstSeen)) =
      [(("m1", 0), "BB-m1", 100, 100), (("m1", 1), "CPU0", 100, 100), (("m2", 0), "BB-m2", 500, 500),
        (("m2", 1), "CPU0", 500, 100)] := by
    decide +kernel
  refine ⟨hreports, fun h => ?_⟩
  have hmem : ∀ x ∈ [(("m1", 1), "CPU0", (100 : ℤ), (100 : ℤ)), (("m2", 1), "CPU0", 500, 100)],
      ∃ r ∈ reports .new twoScans,
        (r.part, r.component.serial, r.time, r.component.firstSeen) = x := by
    intro x hx
    refine List.mem_map.1 ?_
    rw [hreports]
    revert x
    decide
  obtain ⟨r₁, hr₁, h₁⟩ := hmem (("m1", 1), "CPU0", 100, 100) (by decide)
  obtain ⟨r₂, hr₂, h₂⟩ := hmem (("m2", 1), "CPU0", 500, 100) (by decide)
  simp only [Prod.mk.injEq] at h₁ h₂
  have hpart := h.apart r₁ hr₁ r₂ hr₂ (h₁.2.1.trans h₂.2.1.symm)
  rw [h₁.1, h₂.1] at hpart
  simp at hpart

end Inventory

end OCF
