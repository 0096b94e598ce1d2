import OCF.Core.Resource

/-!
# The fleet topology

Regions hold datacenters, datacenters racks and racks machines. The store keeps each kind by id and
never removes one; the tree lists what hangs together from the regions down. A disk is identified
by its serial number.
-/

namespace OCF.Topology

/-- A region: the top of the hierarchy. -/
structure Region where
  metadata : Metadata
  locality : String
  deriving DecidableEq

/-- A datacenter of a region. -/
structure Datacenter where
  metadata : Metadata
  regionId : Id
  address : String
  deriving DecidableEq

/-- A rack of a datacenter. -/
structure Rack where
  metadata : Metadata
  regionId : Id
  datacenterId : Id
  units : UInt16
  deriving DecidableEq

/-- A node that runs workloads. -/
structure Machine where
  metadata : Metadata
  regionId : Id
  datacenterId : Id
  rackId : Id
  rackPosition : Option UInt16
  fabricAddress : Option String
  capacity : ResourceSpec
  state : LifecycleState
  health : Health
  deriving DecidableEq

/-- The place of a machine in the hierarchy. -/
def Machine.scope (m : Machine) : Scope :=
  ⟨some m.regionId, some m.datacenterId, some m.rackId, some m.metadata.id⟩

/-- A disk attached to a machine. -/
structure PhysicalDisk where
  metadata : Metadata
  machineId : Id
  devPath : String
  serial : String
  model : String
  vendor : String
  sizeBytes : ℕ
  deriving DecidableEq

/-- The in-memory topology store. -/
structure InMemoryTopology where
  regions : HashMap Id Region
  datacenters : HashMap Id Datacenter
  racks : HashMap Id Rack
  machines : HashMap Id Machine

namespace InMemoryTopology

/-- A store without records. -/
def new : InMemoryTopology := ⟨∅, ∅, ∅, ∅⟩

/-- Insert or replace a region. -/
def putRegion (t : InMemoryTopology) (r : Region) : InMemoryTopology :=
  { t with regions := t.regions.insert r.metadata.id r }

/-- Insert or replace a datacenter. -/
def putDatacenter (t : InMemoryTopology) (d : Datacenter) : InMemoryTopology :=
  { t with datacenters := t.datacenters.insert d.metadata.id d }

/-- Insert or replace a rack. -/
def putRack (t : InMemoryTopology) (r : Rack) : InMemoryTopology :=
  { t with racks := t.racks.insert r.metadata.id r }

/-- Insert or replace a machine. -/
def putMachine (t : InMemoryTopology) (m : Machine) : InMemoryTopology :=
  { t with machines := t.machines.insert m.metadata.id m }

/-- All regions. -/
def listRegions (t : InMemoryTopology) : List Region := HashMap.values t.regions

/-- The datacenters of a region. -/
def listDatacenters (t : InMemoryTopology) (regionId : Id) : List Datacenter :=
  (HashMap.values t.datacenters).filter fun d => d.regionId = regionId

/-- The racks of a datacenter. -/
def listRacks (t : InMemoryTopology) (datacenterId : Id) : List Rack :=
  (HashMap.values t.racks).filter fun r => r.datacenterId = datacenterId

/-- The machines of a rack. -/
def listMachines (t : InMemoryTopology) (rackId : Id) : List Machine :=
  (HashMap.values t.machines).filter fun m => m.rackId = rackId

/-- All machines. -/
def allMachines (t : InMemoryTopology) : List Machine := HashMap.values t.machines

end InMemoryTopology

end OCF.Topology
