import OCF.Core.Resource
import OCF.Foundations.BTreeMap
import OCF.Foundations.Text
import Mathlib.Data.List.Sort

/-!
# The hardware of a machine

The collector reads what a host says about its hardware: DMI tables, `/proc/cpuinfo` and sysfs.
Every part it finds becomes a component with a serial. Where the hardware reports no serial of its
own one is made up from a local name: the slot of a memory module, the device name of a disk, the
machine id for the board, and for a processor always its package number.

The sources are read into rows first, and each row is turned into a component; `serial_component`
says what the serial of a row is.
-/

namespace OCF

namespace Inventory

open Text

/-- The kinds of hardware. -/
inductive ComponentKind
  | cpu
  | memoryModule
  | nic
  | disk
  | psu
  | baseboard
  | gpu
  | other
  deriving DecidableEq

/-- A discovered piece of hardware. -/
structure HardwareComponent where
  kind : ComponentKind
  vendor : String
  model : String
  serial : String
  firstSeen : ℤ
  attributes : BTreeMap String String

/-- The component with an attribute. -/
def HardwareComponent.withAttribute (c : HardwareComponent) (key value : String) :
    HardwareComponent :=
  { c with attributes := c.attributes.insert key value }

/-- An attribute that is only there when its value is. -/
def HardwareComponent.withOptional (c : HardwareComponent) (key : String) (value : Option String) :
    HardwareComponent :=
  value.elim c (c.withAttribute key)

/-- A component that has not been stamped yet. -/
def HardwareComponent.new (kind : ComponentKind) (vendor model serial : String) :
    HardwareComponent :=
  ⟨kind, vendor, model, serial, 0, ∅⟩

/-- The hardware of a machine. -/
structure MachineInventory where
  machineId : Id
  baseboardSerial : String
  components : List HardwareComponent

/-- What a host shows of itself: programs, files and directories. -/
structure Surface where
  run : String → List String → Result String
  read : String → Option String
  dir : String → Option (List String)

/-- The texts that firmware puts where it has no value. -/
def placeholders : List String :=
  ["to be filled by o.e.m.", "to be filled by o.e.m", "not specified", "default string", "none",
    "n/a",
    "0x00000000", "00000000"]

/-- A DMI value, unless it is blank or a placeholder. -/
def cleanDmiValue (raw : String) : Option String :=
  let v := trimmed raw
  if v = "" then none
  else if toAsciiLowercase v ∈ placeholders then none
  else some v

/-- A field of the DMI table, unless it holds a placeholder. -/
def readDmiId (s : Surface) (field : String) : Option String :=
  (s.read ("/sys/class/dmi/id/" ++ field)).bind cleanDmiValue

/-- The serial that the board reports, in the DMI tables or else in sysfs. -/
def reportedBoardSerial (s : Surface) : Option String :=
  ((s.run "dmidecode" ["-s", "baseboard-serial-number"]).toOption.bind cleanDmiValue).or
    ((s.read "/sys/class/dmi/id/board_serial").bind cleanDmiValue)

/-! ## Processors -/

/-- What is gathered about a physical package. -/
structure Package where
  vendor : String := ""
  model : String := ""
  cores : Option String := none
  mhz : Option String := none
  threads : ℕ := 0

/-- The block of the logical processor that is being read. -/
structure CpuBlock where
  phys : String := "0"
  vendor : String := ""
  model : String := ""
  cores : Option String := none
  mhz : Option String := none
  sawProcessor : Bool := false

/-- Commit a block to its package. -/
def CpuBlock.flush (b : CpuBlock) (packages : BTreeMap String Package) : BTreeMap String Package :=
  if b.sawProcessor then
    let pkg := packages[b.phys]?.getD {}
    packages.insert b.phys
      { vendor := if pkg.vendor = "" then b.vendor else pkg.vendor
        model := if pkg.model = "" then b.model else pkg.model
        cores := pkg.cores.or b.cores
        mhz := pkg.mhz.or b.mhz
        threads := pkg.threads + 1 }
  else packages

/-- Read a line of `/proc/cpuinfo`; a blank one ends the block. -/
def CpuBlock.readLine (s : CpuBlock × BTreeMap String Package) (line : List Char) :
    CpuBlock × BTreeMap String Package :=
  let line := line.rdropWhile isWhiteSpace
  if line = [] then ({}, s.1.flush s.2)
  else match splitOnce ':' line with
    | none => s
    | some (key, value) =>
      let value := String.ofList (trim value)
      let block := match String.ofList (trim key) with
        | "processor" => { s.1 with sawProcessor := true }
        | "physical id" => { s.1 with phys := value }
        | "vendor_id" => { s.1 with vendor := value }
        | "model name" => { s.1 with model := value }
        | "cpu cores" => { s.1 with cores := some value }
        | "cpu MHz" =>
          { s.1 with
            mhz := some (((splitOnce '.' value.toList).map fun p => String.ofList p.1).getD value) }
        | _ => s.1
      (block, s.2)

/-- The packages by physical id. -/
def cpuPackages (text : String) : List (String × Package) :=
  let (block, packages) := (lines text.toList).foldl CpuBlock.readLine ({}, ∅)
  (block.flush packages).toList

/-! ## Memory -/

/-- A populated memory slot. -/
structure MemoryDevice where
  size : String
  manufacturer : Option String
  part : Option String
  serial : Option String
  locator : Option String
  speed : Option String
  memType : Option String

/-- The lines under each handle. -/
def handleBlocks : List (List Char) → List (List (List Char))
  | [] => []
  | line :: rest =>
    if "Handle ".toList.isPrefixOf line then
      rest.takeWhile (fun l => !"Handle ".toList.isPrefixOf l) :: handleBlocks rest
    else handleBlocks rest

/-- The last value of a key in a block. -/
def lastValue (block : List (List Char)) (key : String) : Option String :=
  (block.filterMap fun line => (splitOnce ':' line).bind fun (k, v) =>
    if String.ofList (trim k) = key then some (String.ofList (trim v)) else none).getLast?

/-- The memory module of a block, unless it is none or the slot is empty. -/
def memoryDevice (block : List (List Char)) : Option MemoryDevice :=
  if block.any fun l => trim l = "Memory Device".toList then
    ((lastValue block "Size").filter fun s =>
        !eqIgnoreAsciiCase s "No Module Installed" && !eqIgnoreAsciiCase s "0").map fun size =>
      let value (key : String) := (lastValue block key).bind cleanDmiValue
      { size
        manufacturer := value "Manufacturer"
        part := value "Part Number"
        serial := value "Serial Number"
        locator := value "Locator"
        speed := value "Speed"
        memType := value "Type" }
  else none

/-- The memory modules that `dmidecode` lists. -/
def memoryDevices (text : String) : List MemoryDevice :=
  (handleBlocks (lines text.toList)).filterMap memoryDevice

/-! ## Interfaces and disks -/

/-- A network interface. -/
structure Nic where
  iface : String
  mac : String
  speedMbps : Option ℕ

/-- A disk. -/
structure BlockDevice where
  name : String
  serial : Option String
  vendor : Option String
  model : Option String
  sectors : Option UInt64
  rotational : Option String

/-- The names in a directory, in order. -/
def sortedNames (s : Surface) (path : String) : List String :=
  ((s.dir path).getD []).insertionSort fun a b => a ≤ b

/-- An interface with a hardware address that is not the loopback. -/
def readNic (s : Surface) (iface : String) : Option Nic :=
  if iface = "lo" then none
  else (s.read ("/sys/class/net/" ++ iface ++ "/address")).bind fun raw =>
    let mac := trimmed raw
    if mac = "" ∨ mac = "00:00:00:00:00:00" then none
    else some
      { iface
        mac
        speedMbps := ((s.read ("/sys/class/net/" ++ iface ++ "/speed")).bind fun raw =>
          parseUnsigned (2 ^ 63) (trim raw.toList)).filter (0 < ·) }

/-- The network interfaces with hardware behind them, by name. -/
def collectNics (s : Surface) : List Nic := (sortedNames s "/sys/class/net").filterMap (readNic s)

/-- A block device that is not a pseudo device. -/
def readDisk (s : Surface) (name : String) : Option BlockDevice :=
  if ["loop", "ram", "zram", "dm-", "md", "sr"].any fun p => p.toList.isPrefixOf name.toList
  then none
  else
    let file (path : String) := s.read ("/sys/block/" ++ name ++ "/" ++ path)
    some
      { name
        serial := ((file "device/serial").bind cleanDmiValue).or ((file "serial").bind cleanDmiValue)
        vendor := (file "device/vendor").bind cleanDmiValue
        model := (file "device/model").bind cleanDmiValue
        sectors := ((file "size").bind fun raw => parseUnsigned (2 ^ 64) (trim raw.toList)).map
          UInt64.ofNat
        rotational := (file "queue/rotational").map trimmed }

/-- The disks, by name. -/
def collectDisks (s : Surface) : List BlockDevice :=
  (sortedNames s "/sys/block").filterMap (readDisk s)

/-! ## Rows and components -/

/-- What the collector finds, by source. -/
inductive HardwareRow
  | baseboard (machineId : Id) (vendor name : String) (serial bios : Option String)
  | cpu (phys : String) (pkg : Package)
  | dimm (device : MemoryDevice)
  | nic (nic : Nic)
  | disk (device : BlockDevice)

/-- The serial of a row: the reported one, or one that is made up from a local name. -/
def HardwareRow.serial : HardwareRow → String
  | .baseboard machineId _ _ serial _ => serial.getD ("BB-" ++ machineId.name)
  | .cpu phys _ => "CPU" ++ phys
  | .dimm d => (d.serial.or (d.locator.map fun l => "DIMM-" ++ l)).getD "DIMM-unknown"
  | .nic n => n.mac
  | .disk d => d.serial.getD d.name

/-- A text, or the word that stands for a missing one. -/
def orUnknown (s : String) : String := if s = "" then "unknown" else s

/-- The component of a row. -/
def HardwareRow.component : HardwareRow → HardwareComponent
  | .baseboard machineId vendor name serial bios =>
    (HardwareComponent.new .baseboard vendor name
      (serial.getD ("BB-" ++ machineId.name))).withOptional
      "bios_version" bios
  | .cpu phys pkg =>
    (((HardwareComponent.new .cpu (orUnknown pkg.vendor) (orUnknown pkg.model)
      ("CPU" ++ phys)).withAttribute "threads" (toString pkg.threads)).withOptional
        "cores" pkg.cores).withOptional "clock_mhz" pkg.mhz
  | .dimm d =>
    let serial := (d.serial.or (d.locator.map fun l => "DIMM-" ++ l)).getD "DIMM-unknown"
    ((((HardwareComponent.new .memoryModule (d.manufacturer.getD "unknown") (d.part.getD "unknown")
      serial).withAttribute "size" d.size).withOptional "locator" d.locator).withOptional
        "speed" d.speed).withOptional "type" d.memType
  | .nic n =>
    (((HardwareComponent.new .nic "unknown" n.iface n.mac).withAttribute "interface"
      n.iface).withAttribute
      "mac" n.mac).withOptional "speed_mbps" (n.speedMbps.map toString)
  | .disk d =>
    (((HardwareComponent.new .disk (d.vendor.getD "unknown") (d.model.getD d.name)
      (d.serial.getD d.name)).withAttribute "device" d.name).withOptional
        "size_bytes" (d.sectors.map fun n => toString (n * 512).toNat)).withOptional
          "media" (d.rotational.map fun r => if r = "0" then "ssd" else "rotational")

/-- The rows of a machine, in the order in which they are collected. -/
def hardwareRows (s : Surface) (machineId : Id) : List HardwareRow :=
  .baseboard machineId ((readDmiId s "board_vendor").getD "unknown")
      ((readDmiId s "board_name").getD "unknown") (reportedBoardSerial s)
        (readDmiId s "bios_version") ::
    ((((s.read "/proc/cpuinfo").elim [] cpuPackages).map fun p => .cpu p.1 p.2) ++
      ((((s.run "dmidecode" ["-t", "17"]).toOption.elim [] memoryDevices).map .dimm) ++
        ((collectNics s).map .nic ++ (collectDisks s).map .disk)))

/-- Collect a machine. The clock is read once for each component. -/
def collect (s : Surface) (machineId : Id) (clock : ℕ → ℤ) : MachineInventory :=
  { machineId
    baseboardSerial := (reportedBoardSerial s).getD ("BB-" ++ machineId.name)
    components := (hardwareRows s machineId).mapIdx fun i row =>
      { row.component with firstSeen := clock i } }

theorem serial_withOptional (c : HardwareComponent) (key : String) (value : Option String) :
    (c.withOptional key value).serial = c.serial := by
  cases value <;> rfl

/-- The serial of the component of a row. -/
theorem serial_component (row : HardwareRow) : row.component.serial = row.serial := by
  cases row <;> simp [HardwareRow.component, HardwareRow.serial, serial_withOptional,
    HardwareComponent.withAttribute, HardwareComponent.new]

end Inventory

end OCF
