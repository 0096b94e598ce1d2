import OCF.Topology.Store
import OCF.Foundations.LastWrite
import OCF.Foundations.Lists

/-!
# The topology tree

The drill-down view of the fleet is assembled with one listing for each node of the tree: the
regions, the datacenters of each region, the racks of each datacenter and the machines of each rack.
The store keeps the four kinds apart and checks no reference between them: a resource may be written
before its parent, written again or moved.

`tree_shows_iff`: after any writes, the tree shows a machine under a rack, a datacenter and a region
if and only if these are the resources written last under their ids and each names the one above
it, and it shows no machine twice.
-/

namespace OCF.Topology

/-! ## The tree -/

/-- A rack with its machines. -/
structure RackNode where
  rack : Rack
  machines : List Machine

/-- A datacenter with its racks. -/
structure DatacenterNode where
  datacenter : Datacenter
  racks : List RackNode

/-- A region with its datacenters. -/
structure RegionNode where
  region : Region
  datacenters : List DatacenterNode

/-- The whole hierarchy. -/
structure TopologyTree where
  regions : List RegionNode

namespace InMemoryTopology

variable (t : InMemoryTopology)

/-- The loops over the listings, from the inside out. -/
def rackNode (rack : Rack) : RackNode := ⟨rack, t.listMachines rack.metadata.id⟩

/-- A datacenter with what the store lists under it. -/
def datacenterNode (dc : Datacenter) : DatacenterNode :=
  ⟨dc, (t.listRacks dc.metadata.id).map t.rackNode⟩

/-- A region with what the store lists under it. -/
def regionNode (region : Region) : RegionNode :=
  ⟨region, (t.listDatacenters region.metadata.id).map t.datacenterNode⟩

/-- The whole tree of the fleet. -/
def tree : TopologyTree := ⟨t.listRegions.map t.regionNode⟩

/-- Look up a machine by its id. -/
def getMachine (id : Id) : Result Machine :=
  match t.machines.lookup id with
  | some m => .ok m
  | none => .error (.notFound ("machine " ++ id.name))

/-- The place of a machine that placement and authorization go by. -/
def machineScope (id : Id) : Result Scope := do
  return (← t.getMachine id).scope

end InMemoryTopology

/-- A machine and what it is shown under. -/
structure Place where
  region : Region
  datacenter : Datacenter
  rack : Rack
  machine : Machine
  deriving DecidableEq

/-- The machines a tree shows, each with the nodes above it. -/
def TopologyTree.places (tree : TopologyTree) : List Place :=
  tree.regions.flatMap fun rn => rn.datacenters.flatMap fun dn => dn.racks.flatMap fun kn =>
    kn.machines.map fun m => ⟨rn.region, dn.datacenter, kn.rack, m⟩

/-! ## The writes -/

/-- A write to the store. -/
inductive Put
  | region (r : Region)
  | datacenter (d : Datacenter)
  | rack (r : Rack)
  | machine (m : Machine)

namespace Put

/-- The region that is written, if it is one. -/
def region? : Put → Option Region
  | region r => some r
  | _ => none

/-- The datacenter that is written, if it is one. -/
def datacenter? : Put → Option Datacenter
  | datacenter d => some d
  | _ => none

/-- The rack that is written, if it is one. -/
def rack? : Put → Option Rack
  | rack r => some r
  | _ => none

/-- The machine that is written, if it is one. -/
def machine? : Put → Option Machine
  | machine m => some m
  | _ => none

end Put

namespace InMemoryTopology

/-- Write a record. -/
def put (t : InMemoryTopology) : Put → InMemoryTopology
  | .region r => t.putRegion r
  | .datacenter d => t.putDatacenter d
  | .rack r => t.putRack r
  | .machine m => t.putMachine m

/-- The store after these writes. -/
def puts (ws : List Put) : InMemoryTopology := ws.foldl put new

/-- One kind of resource: where the store keeps it, the writes of it, and its id. -/
structure Kind (V : Type) where
  kept : InMemoryTopology → HashMap Id V
  written : Put → Option V
  id : V → Id
  kept_new : kept new = ∅
  kept_put : ∀ t w, kept (t.put w) =
    (written w).elim (kept t) fun v => (kept t).insert (id v) v

/-- Regions. -/
def regionKind : Kind Region where
  kept := regions
  written := Put.region?
  id r := r.metadata.id
  kept_new := rfl
  kept_put t w := by cases w <;> rfl

/-- Datacenters. -/
def datacenterKind : Kind Datacenter where
  kept := datacenters
  written := Put.datacenter?
  id d := d.metadata.id
  kept_new := rfl
  kept_put t w := by cases w <;> rfl

/-- Racks. -/
def rackKind : Kind Rack where
  kept := racks
  written := Put.rack?
  id r := r.metadata.id
  kept_new := rfl
  kept_put t w := by cases w <;> rfl

/-- Machines. -/
def machineKind : Kind Machine where
  kept := machines
  written := Put.machine?
  id m := m.metadata.id
  kept_new := rfl
  kept_put t w := by cases w <;> rfl

/-- The resource of a kind that was written last under an id. -/
def Kind.last {V : Type} (kind : Kind V) (ws : List Put) (id : Id) : Option V :=
  lastWith kind.id (ws.filterMap kind.written) id

theorem puts_concat (ws : List Put) (w : Put) : puts (ws ++ [w]) = (puts ws).put w := by
  rw [puts, List.foldl_append]
  rfl

theorem Kind.last_concat {V : Type} (kind : Kind V) (ws : List Put) (w : Put) (id : Id) :
    kind.last (ws ++ [w]) id =
      (kind.written w).elim (kind.last ws id) fun v =>
        if kind.id v = id then some v else kind.last ws id := by
  rw [Kind.last, List.filterMap_append, List.filterMap_cons]
  cases kind.written w with
  | none => rw [List.filterMap_nil, List.append_nil]; rfl
  | some v => rw [List.filterMap_nil, lastWith_concat]; rfl

/-- The store keeps what was written last. -/
theorem Kind.lookup_puts {V : Type} (kind : Kind V) (ws : List Put) (id : Id) :
    (kind.kept (puts ws)).lookup id = kind.last ws id := by
  induction ws using List.reverseRecOn with
  | nil => rw [puts, List.foldl_nil, kind.kept_new]; rfl
  | append_singleton ws w ih =>
    rw [puts_concat, kind.kept_put, kind.last_concat, ← ih]
    cases kind.written w with
    | none => rfl
    | some v =>
      rw [Option.elim_some, Option.elim_some, HashMap.lookup_insert_eq]
      simp only [eq_comm]

theorem Kind.id_of_last {V : Type} (kind : Kind V) {ws : List Put} {id : Id} {v : V}
    (h : kind.last ws id = some v) : kind.id v = id :=
  (lastWith_eq_some_key h).2

/-- The values that are kept are those written last under their own id. -/
theorem Kind.mem_values_puts {V : Type} (kind : Kind V) {ws : List Put} {v : V} :
    v ∈ HashMap.values (kind.kept (puts ws)) ↔ kind.last ws (kind.id v) = some v := by
  rw [HashMap.mem_values]
  constructor
  · rintro ⟨id, h⟩
    rw [kind.lookup_puts] at h
    rwa [kind.id_of_last h]
  · intro h
    exact ⟨kind.id v, by rw [kind.lookup_puts, h]⟩

theorem Kind.nodup_values_puts {V : Type} (kind : Kind V) (ws : List Put) :
    ((HashMap.values (kind.kept (puts ws))).map kind.id).Nodup :=
  HashMap.nodup_map_values fun id v h => kind.id_of_last (by rwa [kind.lookup_puts] at h)

/-! ## What the tree shows -/

theorem places_tree (t : InMemoryTopology) : t.tree.places =
    t.listRegions.flatMap fun r => (t.listDatacenters r.metadata.id).flatMap fun d =>
      (t.listRacks d.metadata.id).flatMap fun k =>
        (t.listMachines k.metadata.id).map fun m => ⟨r, d, k, m⟩ := by
  simp only [TopologyTree.places, tree, List.flatMap_map, regionNode, datacenterNode, rackNode]

theorem mem_places {t : InMemoryTopology} {p : Place} :
    p ∈ t.tree.places ↔ p.region ∈ t.listRegions ∧
      p.datacenter ∈ t.listDatacenters p.region.metadata.id ∧
      p.rack ∈ t.listRacks p.datacenter.metadata.id ∧
      p.machine ∈ t.listMachines p.rack.metadata.id := by
  simp only [places_tree, List.mem_flatMap, List.mem_map]
  constructor
  · rintro ⟨r, hr, d, hd, k, hk, m, hm, rfl⟩
    exact ⟨hr, hd, hk, hm⟩
  · rintro ⟨hr, hd, hk, hm⟩
    exact ⟨_, hr, _, hd, _, hk, _, hm, rfl⟩

/-- The four resources of a place are the ones written last, each under the id that the one below it
names. -/
def Linked (ws : List Put) (p : Place) : Prop :=
  machineKind.last ws p.machine.metadata.id = some p.machine ∧
    rackKind.last ws p.machine.rackId = some p.rack ∧
    datacenterKind.last ws p.rack.datacenterId = some p.datacenter ∧
    regionKind.last ws p.datacenter.regionId = some p.region

theorem mem_places_puts {ws : List Put} {p : Place} :
    p ∈ (puts ws).tree.places ↔ Linked ws p := by
  rw [mem_places, listRegions, listDatacenters, listRacks, listMachines, List.mem_filter,
    List.mem_filter, List.mem_filter]
  simp only [decide_eq_true_eq]
  have hr := @Kind.mem_values_puts _ regionKind ws p.region
  have hd := @Kind.mem_values_puts _ datacenterKind ws p.datacenter
  have hk := @Kind.mem_values_puts _ rackKind ws p.rack
  have hm := @Kind.mem_values_puts _ machineKind ws p.machine
  constructor
  · rintro ⟨hregion, ⟨hdc, hdcId⟩, ⟨hrack, hrackId⟩, hmachine, hmachineId⟩
    refine ⟨hm.1 hmachine, ?_, ?_, ?_⟩
    · rw [hmachineId]
      exact hk.1 hrack
    · rw [hrackId]
      exact hd.1 hdc
    · rw [hdcId]
      exact hr.1 hregion
  · rintro ⟨hmachine, hrack, hdc, hregion⟩
    have hmachineId : p.rack.metadata.id = p.machine.rackId := rackKind.id_of_last hrack
    have hrackId : p.datacenter.metadata.id = p.rack.datacenterId := datacenterKind.id_of_last hdc
    have hdcId : p.region.metadata.id = p.datacenter.regionId := regionKind.id_of_last hregion
    refine ⟨hr.2 ?_, ⟨hd.2 ?_, hdcId.symm⟩, ⟨hk.2 ?_, hrackId.symm⟩, hm.2 hmachine, hmachineId.symm⟩
    · exact (congrArg (regionKind.last ws) hdcId).trans hregion
    · exact (congrArg (datacenterKind.last ws) hrackId).trans hdc
    · exact (congrArg (rackKind.last ws) hmachineId).trans hrack

/-- A place is known by its machine. -/
theorem Linked.eq_of_machine {ws : List Put} {p q : Place} (hp : Linked ws p) (hq : Linked ws q)
    (h : p.machine.metadata.id = q.machine.metadata.id) : p = q := by
  obtain ⟨hpm, hpk, hpd, hpr⟩ := hp
  obtain ⟨hqm, hqk, hqd, hqr⟩ := hq
  have hm : p.machine = q.machine := Option.some.inj (hpm.symm.trans (h ▸ hqm))
  have hk : p.rack = q.rack := Option.some.inj (hpk.symm.trans (hm ▸ hqk))
  have hd : p.datacenter = q.datacenter := Option.some.inj (hpd.symm.trans (hk ▸ hqd))
  have hr : p.region = q.region := Option.some.inj (hpr.symm.trans (hd ▸ hqr))
  cases p
  cases q
  simp_all

theorem nodup_places (ws : List Put) : (puts ws).tree.places.Nodup := by
  have hvalues : ∀ {V : Type} (kind : Kind V), (HashMap.values (kind.kept (puts ws))).Nodup :=
    fun kind => (kind.nodup_values_puts ws).of_map
  rw [places_tree]
  refine nodup_flatMap_of_section Place.region (hvalues regionKind) (fun r _ => ?_) ?_
  · refine nodup_flatMap_of_section Place.datacenter ((hvalues datacenterKind).filter _)
      (fun d _ => ?_) ?_
    · refine nodup_flatMap_of_section Place.rack ((hvalues rackKind).filter _) (fun k _ => ?_) ?_
      · exact ((hvalues machineKind).filter _).map fun m m' h => (Place.mk.inj h).2.2.2
      · simp
    · simp only [List.mem_flatMap, List.mem_map]
      rintro d _ ⟨k, _, m, _, rfl⟩
      rfl
  · simp only [List.mem_flatMap, List.mem_map]
    rintro r _ ⟨d, _, k, _, m, _, rfl⟩
    rfl

/-- **The tree after any writes.** A machine is shown under a rack, a datacenter and a region if and
only if all four are what was written last under their ids and each names the one above it; so a
machine is missing when one of those above it is, and no machine is shown twice. -/
theorem tree_shows_iff (ws : List Put) :
    (∀ p, p ∈ (puts ws).tree.places ↔ Linked ws p) ∧
      ((puts ws).tree.places.map fun p => p.machine.metadata.id).Nodup := by
  refine ⟨fun p => mem_places_puts, (List.nodup_map_iff_inj_on (nodup_places ws)).2 ?_⟩
  intro p hp q hq h
  exact (mem_places_puts.1 hp).eq_of_machine (mem_places_puts.1 hq) h

/-- The scope of a machine is the place it is shown at if and only if the ids it carries itself are
those of its rack and of its datacenter: the store does not compare them. -/
theorem machineScope_eq_place_iff {ws : List Put} {p : Place} (hp : p ∈ (puts ws).tree.places) :
    (puts ws).machineScope p.machine.metadata.id =
        .ok ⟨some p.region.metadata.id, some p.datacenter.metadata.id, some p.rack.metadata.id,
          some p.machine.metadata.id⟩ ↔
      p.machine.datacenterId = p.rack.datacenterId ∧
        p.machine.regionId = p.datacenter.regionId := by
  obtain ⟨hm, hk, hd, hr⟩ := mem_places_puts.1 hp
  have hget : (puts ws).getMachine p.machine.metadata.id = .ok p.machine := by
    have hlookup : (puts ws).machines.lookup p.machine.metadata.id = some p.machine :=
      (machineKind.lookup_puts ws _).trans hm
    rw [getMachine, hlookup]
  have hrack : p.rack.metadata.id = p.machine.rackId := rackKind.id_of_last hk
  have hdc : p.datacenter.metadata.id = p.rack.datacenterId := datacenterKind.id_of_last hd
  have hregion : p.region.metadata.id = p.datacenter.regionId := regionKind.id_of_last hr
  simp only [machineScope, hget, bind, Except.bind, pure, Except.pure, Machine.scope, hrack, hdc,
    hregion, Except.ok.injEq, Scope.mk.injEq, Option.some.injEq, and_true]
  tauto

end InMemoryTopology

end OCF.Topology
