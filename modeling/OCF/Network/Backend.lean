import OCF.Network.Controller

/-!
# Names and commands of the dataplane

A backend programs one machine by running commands. Everything it creates is named after the
resource it belongs to: a bridge, port or table after the first eight characters of an id
(`shortId`), with other characters than letters and digits replaced where the tool does not
accept them (`sanitize`). This module holds these names and the commands of `apply_subnet`; a
command is its program and its arguments.
-/

namespace OCF.Network

open Text

/-- A command line. -/
structure Command where
  cmd : String
  args : List String
  deriving DecidableEq

/-- The first eight characters of an id. -/
def shortId (id : Id) : String := String.ofList (id.name.toList.take 8)

/-- Every character other than an ASCII letter or digit becomes an underscore. -/
def sanitize (s : String) : String :=
  String.ofList (s.toList.map fun c => if c.isAlphanum then c else '_')

/-- The address of a subnet's bridge: the octets of the CIDR with the last one replaced by `1`,
with the prefix length. -/
def gatewayFromCidr (cidr : String) : Option String := do
  let (addr, len) ← splitOnce '/' cidr.toList
  match addr.splitOn '.' with
  | [o₀, o₁, o₂, o₃] =>
    let _ ← [o₀, o₁, o₂, o₃].mapM (parseUnsigned 256)
    let prefixLen ← parseUnsigned 256 len
    if 32 < prefixLen then none
    else some (String.ofList (quad o₀ o₁ o₂ ['1']) ++ "/" ++ toString prefixLen)
  | _ => none

example : gatewayFromCidr "10.0.1.0/24" = some "10.0.1.1/24" := by decide
example : gatewayFromCidr "10.0.0.999/24" = none := by decide

/-! ## Interface and table names -/

/-- The bridge of a subnet on a Linux host. -/
def bridgeName (id : Id) : String := "br-" ++ shortId id

/-- The internal port of a subnet on an Open vSwitch host. -/
def ovsPortName (id : Id) : String := "ovs-" ++ shortId id

/-- The nftables table of a subnet's egress. -/
def egressTableName (subnet : Subnet) : String := "ocf_egr_" ++ sanitize (shortId subnet.metadata.id)

/-- The nftables table of a policy. -/
def nftTableName (policy : FirewallPolicy) : String :=
  let (scope, id) := match policy.scope with
    | .vpc id => ("vpc", id)
    | .subnet id => ("subnet", id)
  "ocf_" ++ scope ++ "_" ++ sanitize (shortId id)

/-- The bridge a workload is spliced onto. -/
def subnetBridgeName (subnetId : Id) : String :=
  "br-" ++ String.ofList (subnetId.name.toList.take 8)

/-! ## Commands of a subnet -/

/-- `LinuxNetnsBackend::apply_subnet`. -/
def LinuxNetnsBackend.applySubnet (subnet : Subnet) : List Command :=
  let bridge := bridgeName subnet.metadata.id
  [⟨"ip", ["netns", "add", subnet.netns]⟩, ⟨"ip", ["link", "add", bridge, "type", "bridge"]⟩,
    ⟨"ip", ["link", "set", bridge, "up"]⟩] ++
    (gatewayFromCidr subnet.cidr).toList.map fun gw =>
      ⟨"ip", ["addr", "add", gw, "dev", bridge]⟩

end OCF.Network
