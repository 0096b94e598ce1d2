import OCF.Network.Backend
import Mathlib.Data.Finset.Card
import Mathlib.Data.Finset.Lattice.Lemmas

/-!
# Names of interfaces and tables

The dataplane of a host names bridges, ports, tables and veth pairs after the first eight characters
of an id. A command that creates an interface of a name that is taken is treated as a success, so
two resources whose names collide end up on one interface (`linksAfter`).

`namesUnique_iff` says when the names of a host are unique: when the ids of its subnets differ in
their first eight characters also after sanitizing, and the ids of the attached workloads differ in
theirs.
-/

namespace OCF.Network

open Text

/-! ## Attaching workloads -/

/-- The host side of a workload's veth pair. -/
def vethHostName (vethId : String) : String := "vh-" ++ String.ofList (vethId.toList.take 8)

/-- The namespace side of a workload's veth pair. -/
def vethPeerName (vethId : String) : String := "vp-" ++ String.ofList (vethId.toList.take 8)

/-- `attach_workload_veth`. -/
def attachWorkloadVeth (netns bridge vethId addressCidr : String) : List Command :=
  let host := vethHostName vethId
  let peer := vethPeerName vethId
  [⟨"ip", ["link", "add", host, "type", "veth", "peer", "name", peer]⟩,
    ⟨"ip", ["link", "set", peer, "netns", netns]⟩,
    ⟨"ip", ["link", "set", host, "master", bridge]⟩,
    ⟨"ip", ["link", "set", host, "up"]⟩,
    ⟨"ip", ["netns", "exec", netns, "ip", "addr", "add", addressCidr, "dev", peer]⟩,
    ⟨"ip", ["netns", "exec", netns, "ip", "link", "set", peer, "up"]⟩]

/-- `attach_container_to_subnet`. -/
def attachContainerToSubnet (containerPid : UInt32) (nsAlias bridge vethId addressCidr : String) :
    List Command :=
  ⟨"ip", ["netns", "attach", nsAlias, toString containerPid.toNat]⟩ ::
    attachWorkloadVeth nsAlias bridge vethId addressCidr

/-- The name a workload's network namespace is exposed under. -/
def nsAlias (workloadId : Id) : String := "ocf-" ++ String.ofList (workloadId.name.toList.take 8)

/-- The prefix length of a CIDR as it is written, 24 when there is none. -/
def cidrPrefixText (cidr : String) : String :=
  ((splitOnce '/' cidr.toList).map fun p => String.ofList p.2).getD "24"

/-- A workload that is spliced onto its subnet's bridge: its id, the process of its container, its
subnet and its address. -/
structure Splice where
  workloadId : Id
  pid : UInt32
  subnet : Subnet
  address : String

/-- `splice_workload_overlay`, for a running container with an address. -/
def spliceWorkloadOverlay (s : Splice) : List Command :=
  attachContainerToSubnet s.pid (nsAlias s.workloadId) (subnetBridgeName s.subnet.metadata.id)
    s.workloadId.name (s.address ++ "/" ++ cidrPrefixText s.subnet.cidr)

/-! ## Interfaces on a host -/

/-- The interfaces after a command: creating one that exists leaves it as it is. -/
def linkStep (links : Finset String) (c : Command) : Finset String :=
  match c.args with
  | "link" :: "add" :: name :: _ => insert name links
  | _ => links

/-- The interfaces that commands create on a host. -/
def linksAfter (cmds : List Command) : Finset String := cmds.foldl linkStep ∅

/-- **Unique names** on a host: the bridge, port and table names of its subnets are distinct, and so
are the veth names and namespace aliases of its workloads; a workload is spliced onto the bridge of
its own subnet; every subnet has a bridge of its own and every workload an interface of its own. -/
structure NamesUnique (subnets : List Subnet) (splices : List Splice) : Prop where
  bridges : (subnets.map fun s => bridgeName s.metadata.id).Nodup
  ports : (subnets.map fun s => ovsPortName s.metadata.id).Nodup
  tables : (subnets.map egressTableName).Nodup
  hostVeths : (splices.map fun w => vethHostName w.workloadId.name).Nodup
  peerVeths : (splices.map fun w => vethPeerName w.workloadId.name).Nodup
  aliases : (splices.map fun w => nsAlias w.workloadId).Nodup
  splicedOn : ∀ w ∈ splices, subnetBridgeName w.subnet.metadata.id = bridgeName w.subnet.metadata.id
  bridgeEach : (linksAfter (subnets.flatMap LinuxNetnsBackend.applySubnet)).card = subnets.length
  vethEach : (linksAfter (splices.flatMap spliceWorkloadOverlay)).card = splices.length

theorem foldl_linkStep_flatMap {α : Type*} (f : α → List Command) (name : α → String)
    (hf : ∀ links a, (f a).foldl linkStep links = insert (name a) links) (as : List α)
    (links : Finset String) :
    (as.flatMap f).foldl linkStep links = links ∪ (as.map name).toFinset := by
  induction as generalizing links with
  | nil => simp
  | cons a as ih =>
    rw [List.flatMap_cons, List.foldl_append, hf, ih, List.map_cons, List.toFinset_cons]
    ext x
    simp

/-- A subnet creates its bridge. -/
theorem linksAfter_applySubnet (subnets : List Subnet) :
    linksAfter (subnets.flatMap LinuxNetnsBackend.applySubnet) =
      (subnets.map fun s => bridgeName s.metadata.id).toFinset := by
  rw [linksAfter, foldl_linkStep_flatMap _ fun s : Subnet => bridgeName s.metadata.id,
    Finset.empty_union]
  intro links s
  simp only [LinuxNetnsBackend.applySubnet, List.cons_append, List.nil_append, List.foldl_cons]
  cases gatewayFromCidr s.cidr <;> rfl

/-- A workload creates its veth pair. -/
theorem linksAfter_spliceWorkloadOverlay (splices : List Splice) :
    linksAfter (splices.flatMap spliceWorkloadOverlay) =
      (splices.map fun w => vethHostName w.workloadId.name).toFinset := by
  rw [linksAfter, foldl_linkStep_flatMap _ fun w : Splice => vethHostName w.workloadId.name,
    Finset.empty_union]
  intro links w
  rfl

/-- Names that determine the keys of a list with distinct keys are distinct. -/
theorem nodup_map_of_determines {α β γ : Type*} {key : α → β} {name : α → γ} {l : List α}
    (hkey : (l.map key).Nodup) (h : ∀ a ∈ l, ∀ b ∈ l, name a = name b → key a = key b) :
    (l.map name).Nodup :=
  List.Nodup.map_on
    (fun a ha b hb e => List.inj_on_of_nodup_map hkey ha hb (h a ha b hb e)) hkey.of_map

/-- **Unique names.** The names of a host are unique if and only if its subnets have ids that differ
in their first eight characters after sanitizing, and its workloads ids that differ in their first
eight characters. -/
theorem namesUnique_iff {subnets : List Subnet} {splices : List Splice}
    (hsubnets : (subnets.map fun s => s.metadata.id).Nodup)
    (hworkloads : (splices.map fun w => w.workloadId).Nodup) :
    NamesUnique subnets splices ↔
      (∀ s ∈ subnets, ∀ t ∈ subnets,
        sanitize (shortId s.metadata.id) = sanitize (shortId t.metadata.id) →
          s.metadata.id = t.metadata.id) ∧
      ∀ v ∈ splices, ∀ w ∈ splices, shortId v.workloadId = shortId w.workloadId →
        v.workloadId = w.workloadId := by
  constructor
  · intro h
    refine ⟨fun s hs t ht e => ?_, fun v hv w hw e => ?_⟩
    · have hname : egressTableName s = egressTableName t := (String.append_right_inj _).2 e
      rw [List.inj_on_of_nodup_map h.tables hs ht hname]
    · have hname : nsAlias v.workloadId = nsAlias w.workloadId := (String.append_right_inj _).2 e
      rw [List.inj_on_of_nodup_map h.aliases hv hw hname]
  · rintro ⟨hs, hw⟩
    -- every name but the table's is a stem before the first eight characters
    have hsubnet : ∀ stem, (subnets.map fun s => stem ++ shortId s.metadata.id).Nodup := by
      intro stem
      refine nodup_map_of_determines hsubnets fun s hs' t ht e => hs s hs' t ht ?_
      rw [(String.append_right_inj _).1 e]
    have hworkload : ∀ stem, (splices.map fun w => stem ++ shortId w.workloadId).Nodup := by
      intro stem
      exact nodup_map_of_determines hworkloads fun v hv w hw' e =>
        hw v hv w hw' ((String.append_right_inj _).1 e)
    have hbridges : (subnets.map fun s => bridgeName s.metadata.id).Nodup := hsubnet "br-"
    have hveths : (splices.map fun w => vethHostName w.workloadId.name).Nodup := hworkload "vh-"
    exact
      { bridges := hbridges
        ports := hsubnet "ovs-"
        tables := nodup_map_of_determines hsubnets fun s hs' t ht e =>
          hs s hs' t ht ((String.append_right_inj _).1 e)
        hostVeths := hveths
        peerVeths := hworkload "vp-"
        aliases := hworkload "ocf-"
        splicedOn := fun _ _ => rfl
        bridgeEach := by
          rw [linksAfter_applySubnet, List.toFinset_card_of_nodup hbridges, List.length_map]
        vethEach := by
          rw [linksAfter_spliceWorkloadOverlay, List.toFinset_card_of_nodup hveths,
            List.length_map] }

/-- A subnet and a workload with the given ids. -/
def namedSubnet (id : String) : Subnet := ⟨.named id, ⟨"vpc"⟩, "10.0.1.0/24", "ns", .isolated⟩

def namedSplice (id : String) : Splice := ⟨⟨id⟩, 4711, namedSubnet "web", "10.0.1.5"⟩

theorem namesUnique_web_db : NamesUnique [namedSubnet "web", namedSubnet "db"]
    [namedSplice "frontend", namedSplice "database"] :=
  (namesUnique_iff (by decide) (by decide)).2 ⟨by decide, by decide⟩

/-- Two subnets `web-subnet-1` and `web-subnet-2` get one bridge. -/
theorem not_namesUnique_shared_stem :
    (linksAfter ([namedSubnet "web-subnet-1", namedSubnet "web-subnet-2"].flatMap
      LinuxNetnsBackend.applySubnet)).card = 1 ∧
    ¬NamesUnique [namedSubnet "web-subnet-1", namedSubnet "web-subnet-2"] [] ∧
    ¬NamesUnique [] [namedSplice "frontend-1", namedSplice "frontend-2"] := by
  refine ⟨by decide, fun h => ?_, fun h => ?_⟩
  · exact absurd h.bridges (by decide)
  · exact absurd h.hostVeths (by decide)

end OCF.Network
