import OCF.Host.Metrics
import OCF.Host.Updates

/-!
# Health checks

A health check looks at the node it runs on, through files of the kernel, tools and the package
manager, and reports findings. A finding offers fixes; the check that reported it carries them out. A
check that cannot assess the node reports nothing.

A fix writes files and runs commands, and what it does is recorded (`Action`). How the node answers
(`Effects`) may depend on what was done before; the first step that fails ends the fix with an error. A
fix that a check does not offer is an error before any step. The time of a finding is left out.
-/

namespace OCF

namespace Health

open Text Platform

open Monitoring (FileRead)

/-! ## Findings -/

/-- How urgent a finding is. -/
inductive Severity
  | info
  | warning
  | critical
  deriving DecidableEq

/-- The order of the severities. -/
def Severity.rank : Severity → ℕ
  | info => 0
  | warning => 1
  | critical => 2

/-- The subsystem that a finding is about. -/
inductive HealthCategory
  | kernel
  | network
  | runtime
  | storage
  | security
  | other
  deriving DecidableEq

/-- A remedy that can be asked for. -/
structure FixAction where
  id : String
  label : String
  description : String
  requiresRoot : Bool := true
  deriving DecidableEq

/-- Something that is wrong with a node, and what can be done about it. -/
structure HealthFinding where
  id : String
  check : String
  category : HealthCategory
  machineId : Id
  severity : Severity
  title : String
  detail : String
  fixes : List FixAction
  deriving DecidableEq

namespace HealthFinding

/-- A finding without fixes. -/
def new (check kind : String) (machineId : Id) (category : HealthCategory) (severity : Severity)
    (title detail : String) : HealthFinding :=
  ⟨check ++ ":" ++ machineId.name ++ ":" ++ kind, check, category, machineId, severity, title,
    detail, []⟩

/-- Offer one more fix. -/
def withFix (f : HealthFinding) (fix : FixAction) : HealthFinding :=
  { f with fixes := f.fixes ++ [fix] }

end HealthFinding

/-! ## The node -/

/-- What came of a command: whether it ran, whether it succeeded, and its output. -/
structure CmdOutput where
  ran : Bool
  success : Bool
  stdout : String
  stderr : String

/-- What the checks see of the node. -/
structure Node where
  read : String → FileRead
  run : String → List String → CmdOutput
  path : SearchPath
  os : HostOs
  managers : List PackageManager
  shell : Shell
  post : JsonValue → Result JsonValue

namespace Node

variable (node : Node)

/-- The text of a file without white space around it; no file is no error. -/
def readSys (path : String) : Result (Option String) :=
  match node.read path with
  | .text s => .ok (some (trimmed s))
  | .notFound => .ok none
  | .failed e => .error (.io ("read " ++ path ++ ": " ++ e))

/-- The package manager of the node. -/
def activeManager : Option PackageManager := Platform.activeManager node.path node.os node.managers

/-- What a command of the package manager says when it is the first to be run. -/
def probe : Probe := fun cmd args => (node.shell.probe (cmd, args) []).1

end Node

/-! ## Fixes -/

/-- Something that a fix does on the node, whether or not it succeeds. -/
inductive Action
  | command (c : Command)
  | write (path value : String)
  deriving DecidableEq

/-- How the node answers to a fix, after what was done before: to a command, to a write and to the
reading of a file. `fromStr` and `toStringPretty` are those of `serde_json`. -/
structure Effects where
  exec : List Action → Command → CommandOutput
  write : List Action → String → String → Except String Unit
  read : List Action → String → Option String
  fromStr : String → Except String JsonValue
  toStringPretty : JsonValue → String

namespace Effects

variable (e : Effects)

/-- Write a file of the kernel. -/
def writeSys (path value : String) (done : List Action) : Result Unit × List Action :=
  ((e.write done path value).mapError fun err =>
    .provider "sysfs" ("write " ++ path ++ ": " ++ err), done ++ [.write path value])

/-- Run a command that has to succeed. -/
def runFix (c : Command) (done : List Action) : Result String × List Action :=
  (match e.exec done c with
    | .notSpawned err => .error (.provider c.1 ("failed to spawn `" ++ c.1 ++ "`: " ++ err))
    | .exited true out _ => .ok out
    | .exited false _ err => .error (.provider c.1 (trimmed err)), done ++ [.command c])

/-- Set `experimental` in the configuration of the Docker daemon and keep its other members. -/
def mergeExperimental (existing : String) : Result String := do
  let doc ← if trim existing.toList = [] then pure (.object [])
    else (e.fromStr existing).mapError fun err => .provider "docker" ("parse daemon.json: " ++ err)
  let fields := match doc with
    | .object fields => fields
    | _ => []
  return e.toStringPretty (.object (fields.filter (fun f => f.1 ≠ "experimental") ++
    [("experimental", .bool true)]))

/-- What the platform service does to the node, with its commands as actions. -/
def platform (session : Shell → List Command → Result String × List Command) (done : List Action) :
    Result String × List Action :=
  let (answer, commands) := session (fun before c => e.exec (done ++ before.map .command) c) []
  (answer, done ++ commands.map .command)

end Effects

/-- A step of a fix. -/
inductive Step
  | writeSys (path value : String)
  | runFix (c : Command)
  /-- Run a command whose outcome is not looked at. -/
  | run (c : Command)
  /-- Rewrite the configuration of the Docker daemon. -/
  | mergeExperimental (path : String)

/-- Carry out a step. -/
def Step.exec (e : Effects) (done : List Action) : Step → Result Unit × List Action
  | writeSys path value => e.writeSys path value done
  | runFix c =>
    let (out, done) := e.runFix c done
    (out.map fun _ => (), done)
  | run c => (.ok (), done ++ [.command c])
  | mergeExperimental path =>
    match e.mergeExperimental ((e.read done path).getD "") with
    | .error err => (.error err, done)
    | .ok merged => ((e.write done path merged).mapError fun err =>
        .provider "docker" ("write " ++ path ++ ": " ++ err), done ++ [.write path merged])

/-- Carry out steps, up to the first that fails. -/
def applySteps (e : Effects) : List Step → List Action → Result Unit × List Action
  | [], done => (.ok (), done)
  | step :: steps, done =>
    match step.exec e done with
    | (.error err, done) => (.error err, done)
    | (.ok _, done) => applySteps e steps done

/-- A check: its name, what it reports, and how it carries out a fix. -/
structure HealthCheck where
  name : String
  check : Node → Id → Result (List HealthFinding)
  applyFix : Node → Effects → String → List Action → Result String × List Action

/-- One fix, its steps and what is answered after them. -/
def oneFix (fixId : String) (steps : List Step) (message : String) (_ : Node) (e : Effects) (id : String)
    (done : List Action) : Result String × List Action :=
  if id ≠ fixId then (.error (.notFound ("fix `" ++ id ++ "`")), done)
  else
    let (answer, done) := applySteps e steps done
    (answer.map fun _ => message, done)

/-! ## Kernel checks -/

namespace IpForwarding

/-- The file of the tunable. -/
def path : String := "/proc/sys/net/ipv4/ip_forward"

/-- The fix that writes it. -/
def fixId : String := "enable-ipv4-forwarding"

/-- What is reported. -/
def finding (machineId : Id) : HealthFinding :=
  (HealthFinding.new "ip-forwarding" "disabled" machineId .kernel .warning
    "IP forwarding not enabled on kernel"
    ("net.ipv4.ip_forward is 0. The node cannot route between subnets, " ++
      "provide NAT egress, or carry overlay traffic until forwarding is on.")).withFix
    { id := fixId
      label := "Enable IP forwarding"
      description := "Writes 1 to /proc/sys/net/ipv4/ip_forward on this node." }

end IpForwarding

/-- The kernel forwards IPv4 packets. -/
def ipForwardingCheck : HealthCheck where
  name := "ip-forwarding"
  check node machineId := do
    match ← node.readSys IpForwarding.path with
    | none => return []
    | some value => return if value = "1" then [] else [IpForwarding.finding machineId]
  applyFix := oneFix IpForwarding.fixId [.writeSys IpForwarding.path "1"]
    "IPv4 forwarding enabled (net.ipv4.ip_forward = 1)."

/-- The module is in the list of the kernel. -/
def nfTablesLoaded (modules : String) : Bool :=
  (lines modules.toList).any fun l => (splitWhitespace l).head? = some "nf_tables".toList

namespace Netfilter

/-- The fix that loads the module. -/
def fixId : String := "load-nf-tables"

/-- What is reported. -/
def finding (machineId : Id) : HealthFinding :=
  (HealthFinding.new "netfilter" "not-loaded" machineId .kernel .warning
    "Netfilter (nf_tables) not enabled on kernel"
    ("The nf_tables module is not loaded, so firewall and NAT rules " ++
      "programmed via nft will not take effect on this node.")).withFix
    { id := fixId
      label := "Load nf_tables module"
      description := "Runs `modprobe nf_tables` on this node." }

end Netfilter

/-- The `nf_tables` module is loaded. -/
def netfilterCheck : HealthCheck where
  name := "netfilter"
  check node machineId := do
    match ← node.readSys "/proc/modules" with
    | none => return []
    | some modules => return if nfTablesLoaded modules then [] else [Netfilter.finding machineId]
  applyFix := oneFix Netfilter.fixId
    [.runFix ("modprobe", ["nf_tables"]), .run ("modprobe", ["-n", "nf_tables"])]
    "Loaded the nf_tables kernel module (modprobe nf_tables)."

namespace BridgeNetfilter

/-- The file of the tunable. -/
def path : String := "/proc/sys/net/bridge/bridge-nf-call-iptables"

/-- The fix that loads the module and writes the tunable. -/
def fixId : String := "enable-bridge-nf"

/-- What is reported. -/
def finding (machineId : Id) : HealthFinding :=
  (HealthFinding.new "bridge-netfilter" "disabled" machineId .network .warning
    "Bridge netfilter not calling iptables"
    ("br_netfilter is not loaded or bridge-nf-call-iptables is 0, so " ++
      "traffic across Linux bridges (containers/VMs) bypasses the host " ++
      "firewall and NAT rules.")).withFix
    { id := fixId
      label := "Enable bridge netfilter"
      description := "Runs `modprobe br_netfilter` and sets bridge-nf-call-iptables=1." }

end BridgeNetfilter

/-- Anything but a `1` needs the fix. -/
def bridgeNfNeedsFix (value : Option String) : Bool := value ≠ some "1"

/-- Bridged packets go through the firewall of the host. -/
def bridgeNetfilterCheck : HealthCheck where
  name := "bridge-netfilter"
  check node machineId := do
    -- an error of the first file counts as its absence; only then is the second one read, and an
    -- error of it is returned
    let absent ← (if ((node.readSys "/proc/sys").toOption.getD none).isNone then
        (node.readSys "/proc/modules").map Option.isNone
      else .ok false)
    if absent then return []
    let value ← node.readSys BridgeNetfilter.path
    return if bridgeNfNeedsFix value then [BridgeNetfilter.finding machineId] else []
  applyFix := oneFix BridgeNetfilter.fixId
    [.runFix ("modprobe", ["br_netfilter"]), .writeSys BridgeNetfilter.path "1"]
    "Loaded br_netfilter and set bridge-nf-call-iptables = 1."

/-! ## Docker -/

namespace DockerExperimental

/-- The configuration of the daemon. -/
def daemonJson : String := "/etc/docker/daemon.json"

/-- The fix that rewrites the configuration and restarts the daemon. -/
def fixId : String := "enable-docker-experimental"

/-- What is reported. -/
def finding (machineId : Id) : HealthFinding :=
  (HealthFinding.new "docker-experimental" "disabled" machineId .runtime .info
    "Docker experimental features not enabled"
    ("The Docker daemon is running without experimental features. Some " ++
      "container operations the fabric may use require them.")).withFix
    { id := fixId
      label := "Enable Docker experimental"
      description :=
        "Sets \"experimental\": true in /etc/docker/daemon.json and restarts dockerd." }

end DockerExperimental

/-- The Docker daemon has its experimental features on. -/
def dockerExperimentalCheck : HealthCheck where
  name := "docker-experimental"
  check node machineId :=
    let out := node.run "docker" ["info", "--format", "\x7b\x7b.ExperimentalBuild\x7d\x7d"]
    if ¬ out.ran || ¬ out.success then .ok []
    else if eqIgnoreAsciiCase (trimmed out.stdout) "true" then .ok []
    else .ok [DockerExperimental.finding machineId]
  applyFix := oneFix DockerExperimental.fixId
    [.mergeExperimental DockerExperimental.daemonJson, .runFix ("systemctl", ["restart", "docker"])]
    "Set experimental=true in /etc/docker/daemon.json and restarted dockerd."

/-! ## Configuration checks -/

/-- What a tunable should be. -/
inductive SysctlRule
  | equals (value : String)
  | atLeast (min : ℤ)

/-- `i64::from_str`. -/
def parseI64 (s : List Char) : Option ℤ :=
  match s with
  | '-' :: digits => ((parseDigits digits).filter (· ≤ 2 ^ 63)).map fun n => -(n : ℤ)
  | _ => (parseUnsigned (2 ^ 63) s).map fun n => (n : ℤ)

/-- The value keeps the rule; one that is not a number keeps no bound. -/
def sysctlSatisfied (rule : SysctlRule) (current : String) : Bool :=
  match rule with
  | .equals v => current = v
  | .atLeast min => ((parseI64 current.toList).map fun n => decide (min ≤ n)).getD false

/-- A tunable of the kernel, its rule and the value that is written to fix it. -/
structure SysctlCheck where
  name : String
  path : String
  rule : SysctlRule
  fixValue : String
  category : HealthCategory
  severity : Severity := .warning
  title : String
  detail : String

namespace SysctlCheck

/-- A tunable that should have a value. -/
def equals (name path value : String) (category : HealthCategory) (title detail : String) :
    SysctlCheck :=
  { name, path, rule := .equals value, fixValue := value, category, title, detail }

/-- A tunable that should have at least a value. -/
def atLeast (name path : String) (min : ℤ) (category : HealthCategory) (title detail : String) :
    SysctlCheck :=
  { name, path, rule := .atLeast min, fixValue := toString min, category, title, detail }

variable (c : SysctlCheck)

/-- What is reported. -/
def finding (machineId : Id) (current : String) : HealthFinding :=
  (HealthFinding.new c.name "misconfigured" machineId c.category c.severity c.title
    (c.detail ++ " (currently `" ++ current ++ "`, expected `" ++ c.fixValue ++ "`)")).withFix
    { id := "set"
      label := "Apply recommended value"
      description := "Writes `" ++ c.fixValue ++ "` to " ++ c.path ++ "." }

/-- The check with these values. -/
def healthCheck : HealthCheck where
  name := c.name
  check node machineId := do
    match ← node.readSys c.path with
    | none => return []
    | some current =>
      return if sysctlSatisfied c.rule current then [] else [c.finding machineId current]
  applyFix := oneFix "set" [.writeSys c.path c.fixValue]
    ("Set " ++ c.path ++ " = " ++ c.fixValue ++ ".")

end SysctlCheck

/-- The kernel forwards IPv6 packets. -/
def ipv6Forwarding : SysctlCheck :=
  .equals "ipv6-forwarding" "/proc/sys/net/ipv6/conf/all/forwarding" "1" .network
    "IPv6 forwarding not enabled on kernel"
    "net.ipv6.conf.all.forwarding is not 1; IPv6 routing/NAT/overlay won't work."

/-- The table of tracked connections is large enough. -/
def conntrackMax : SysctlCheck :=
  .atLeast "conntrack-max" "/proc/sys/net/netfilter/nf_conntrack_max" 262144 .network
    "Connection-tracking table is small"
    ("nf_conntrack_max is low; a busy NAT/load-balancer node can exhaust it and drop " ++
      "connections.")

/-- The limit of inotify instances is large enough. -/
def inotifyInstances : SysctlCheck :=
  .atLeast "inotify-instances" "/proc/sys/fs/inotify/max_user_instances" 512 .kernel
    "inotify instance limit is low"
    ("fs.inotify.max_user_instances is low; many watchers (containers, log tailers) can hit " ++
      "the limit.")

/-- A unit of systemd that should be active, and enabled if that is wanted. -/
structure ServiceCheck where
  name : String
  unit : String
  wantEnabled : Bool
  severity : Severity := .warning

namespace ServiceCheck

variable (c : ServiceCheck)

/-- Which of the two is missing. -/
def title (isActive : Bool) : String :=
  if ¬ isActive then "Service `" ++ c.unit ++ "` is installed but not running"
  else "Service `" ++ c.unit ++ "` is not enabled at boot"

/-- What follows from it. -/
def detail (isActive : Bool) : String :=
  if ¬ isActive then "The `" ++ c.unit ++ "` unit exists but is not active. Features depending on it " ++
    "will not work until it is started."
  else "The `" ++ c.unit ++ "` unit is running now but is not enabled, so it will not " ++
    "come back after a reboot."

/-- What is reported. -/
def finding (machineId : Id) (isActive : Bool) : HealthFinding :=
  (HealthFinding.new c.name "misconfigured" machineId .runtime c.severity (c.title isActive)
    (c.detail isActive)).withFix
    { id := "enable-now"
      label := "Start & enable " ++ c.unit
      description := "Runs `systemctl enable --now " ++ c.unit ++ "`." }

/-- Lower case matters for ASCII letters only: the texts that are looked for have no other. -/
def notInstalled (out : CmdOutput) : Bool :=
  let combined := (toAsciiLowercase (out.stdout ++ out.stderr)).toList
  occursIn "no such file".toList combined || occursIn "not found".toList combined

/-- The check with these values. -/
def healthCheck : HealthCheck where
  name := c.name
  check node machineId :=
    let enabled := node.run "systemctl" ["is-enabled", c.unit]
    if ¬ enabled.ran then .ok []
    else if notInstalled enabled then .ok []
    else
      let isEnabled := trim enabled.stdout.toList = "enabled".toList
      let active := node.run "systemctl" ["is-active", c.unit]
      let isActive := trim active.stdout.toList = "active".toList
      if isActive ∧ (¬ c.wantEnabled ∨ isEnabled) then .ok []
      else .ok [c.finding machineId isActive]
  applyFix := oneFix "enable-now" [.runFix ("systemctl", ["enable", "--now", c.unit])]
    ("Started and enabled `" ++ c.unit ++ "`.")

end ServiceCheck

/-- A line after the header of `/proc/swaps` is not blank. -/
def swapActive (procSwaps : String) : Bool :=
  ((lines procSwaps.toList).drop 1).any fun l => trim l ≠ []

namespace Swap

/-- What is reported. -/
def finding (machineId : Id) : HealthFinding :=
  (HealthFinding.new "swap-disabled" "enabled" machineId .kernel .info "Swap is enabled"
    ("Active swap can cause unpredictable scheduling and latency for " ++
      "compute workloads. Disabling it gives more deterministic behavior.")).withFix
    { id := "disable"
      label := "Disable swap"
      description := "Runs `swapoff -a` on this node (does not edit /etc/fstab)." }

end Swap

/-- Swap is off. -/
def swapCheck : HealthCheck where
  name := "swap-disabled"
  check node machineId := do
    match ← node.readSys "/proc/swaps" with
    | none => return []
    | some swaps => return if ¬ swapActive swaps then [] else [Swap.finding machineId]
  applyFix := oneFix "disable" [.runFix ("swapoff", ["-a"])]
    "Disabled all swap (swapoff -a). Edit /etc/fstab to persist."

/-- The units that keep the time, in the order they are asked for. -/
def timesyncUnits : List String := ["chronyd", "chrony", "systemd-timesyncd", "ntpd", "ntp"]

namespace TimeSync

/-- What is reported. -/
def finding (machineId : Id) : HealthFinding :=
  (HealthFinding.new "time-sync" "absent" machineId .other .warning
    "No time synchronization service active"
    ("No chrony/systemd-timesyncd/ntp service is running. Clock skew " ++
      "breaks Raft leader elections and TLS certificate validation across the fleet.")).withFix
    { id := "enable-timesyncd"
      label := "Enable time sync"
      description := "Runs `systemctl enable --now systemd-timesyncd`." }

/-- The loop over the units: the first one that settles the matter. -/
def loop (node : Node) (machineId : Id) : List String → List HealthFinding
  | [] => [finding machineId]
  | unit :: rest =>
    let out := node.run "systemctl" ["is-active", unit]
    if ¬ out.ran then []
    else if trim out.stdout.toList = "active".toList then []
    else loop node machineId rest

end TimeSync

/-- A unit that keeps the time is active. -/
def timeSyncCheck : HealthCheck where
  name := "time-sync"
  check node machineId := .ok (TimeSync.loop node machineId timesyncUnits)
  applyFix := oneFix "enable-timesyncd"
    [.runFix ("systemctl", ["enable", "--now", "systemd-timesyncd"])]
    "Enabled systemd-timesyncd for clock synchronization."

/-! ## Packages -/

/-- Something the fabric needs, its binary, and its package under each manager. -/
structure Capability where
  name : String
  binary : String
  module : Option String := none
  packages : List (String × String)

namespace Capability

/-- The package of a capability under a manager. -/
def packageFor (c : Capability) (pm : String) : Option String := c.packages.lookup pm

/-- The binary is on the search path. -/
def isPresent (path : SearchPath) (c : Capability) : Bool := binaryAvailable path c.binary

end Capability

/-- What the fabric needs. -/
def builtinCapabilities : List Capability :=
  [{ name := "nftables", binary := "nft", module := some "nf_tables"
     packages := [("apt", "nftables"), ("dnf", "nftables"), ("pacman", "nftables"),
       ("apk", "nftables")] },
   { name := "iproute2", binary := "ip"
     packages := [("apt", "iproute2"), ("dnf", "iproute"), ("pacman", "iproute2"),
       ("apk", "iproute2")] },
   { name := "smartmontools", binary := "smartctl"
     packages := [("apt", "smartmontools"), ("dnf", "smartmontools"), ("pacman", "smartmontools"),
       ("apk", "smartmontools")] },
   { name := "ipmitool", binary := "ipmitool"
     packages := [("apt", "ipmitool"), ("dnf", "ipmitool"), ("pacman", "ipmitool"),
       ("apk", "ipmitool")] },
   { name := "openvswitch", binary := "ovs-vsctl"
     packages := [("apt", "openvswitch-switch"), ("dnf", "openvswitch"), ("pacman", "openvswitch"),
       ("apk", "openvswitch")] }]

/-- Install a package with a manager; one that is not built in installs nothing. -/
def install (shell : Shell) (m : PackageManager) (package : String) (done : List Command) :
    Result String × List Command :=
  if m.name = "apt" then
    shell.runThen ("apt-get", ["install", "-y", package]) ("Installed `" ++ package ++ "` via apt-get.") done
  else if m.name = "dnf" then
    shell.runThen ("dnf", ["install", "-y", package]) ("Installed `" ++ package ++ "` via dnf.") done
  else if m.name = "pacman" then
    shell.runThen ("pacman", ["-S", "--noconfirm", package])
      ("Installed `" ++ package ++ "` via pacman.") done
  else if m.name = "apk" then
    shell.runThen ("apk", ["add", package]) ("Installed `" ++ package ++ "` via apk.") done
  else (.error (.notSupported ("manager `" ++ m.name ++ "`")), done)

/-- Install the package of a capability under the manager of the host. -/
def installCapability (node : Node) (c : Capability) (shell : Shell) (done : List Command) :
    Result String × List Command :=
  match node.activeManager with
  | none => (.error (.notSupported
      ("no supported package manager for host OS `" ++ node.os.os ++ "`")), done)
  | some m =>
    match c.packageFor m.name with
    | none => (.error (.notFound
        ("capability `" ++ c.name ++ "` has no `" ++ m.name ++ "` package mapping")), done)
    | some package => install shell m package done

namespace PackageCheck

/-- What the id of a fix begins with. -/
def fixPrefix : String := "install-"

/-- The title names the capability. -/
def title (c : Capability) : String := "`" ++ c.name ++ "` is not installed"

/-- The finding about a capability; the fix is offered when there is a package. -/
def finding (node : Node) (m : PackageManager) (machineId : Id) (c : Capability) : HealthFinding :=
  let f := HealthFinding.new "packages" c.name machineId .other .warning (title c)
    ("The `" ++ c.name ++ "` tool (binary `" ++ c.binary ++ "`) is missing on this " ++ node.os.os ++
      " host, so the features that depend on it are unavailable.")
  match c.packageFor m.name with
  | none => f
  | some package => f.withFix
      { id := fixPrefix ++ c.name
        label := "Install " ++ c.name
        description := "Runs the " ++ m.name ++ " install for `" ++ package ++ "` on this node." }

end PackageCheck

/-- The capabilities are installed. -/
def packageCheck (capabilities : List Capability) : HealthCheck where
  name := "packages"
  check node machineId :=
    match node.activeManager with
    | none => .ok []
    | some m => .ok ((capabilities.filter fun c => ¬ c.isPresent node.path).map
        (PackageCheck.finding node m machineId))
  applyFix node e id done :=
    match stripPrefix PackageCheck.fixPrefix id with
    | none => (.error (.notFound ("fix `" ++ id ++ "`")), done)
    | some capName =>
      match capabilities.find? fun c => c.name = capName with
      | none => (.error (.notFound ("capability `" ++ capName ++ "`")), done)
      | some c => e.platform (installCapability node c) done

/-! ## Security -/

/-- The fix that applies security updates. -/
def fixSecurity : String := "apply-security-updates"

/-- The fix that applies all updates. -/
def fixAll : String := "apply-all-updates"

/-- Offer all updates. -/
def applyAll (description : String) : FixAction :=
  { id := fixAll, label := "Apply all updates", description }

namespace SecurityUpdate

/-- What is reported. -/
def finding (machineId : Id) (summary : UpdateSummary) : HealthFinding :=
  if 0 < summary.security then
    ((HealthFinding.new "security-updates" "security" machineId .security .warning
      (toString summary.security ++ " security update(s) available")
      (toString summary.security ++ " of " ++ toString summary.total ++
        " pending package updates address security issues. Apply them promptly.")).withFix
      { id := fixSecurity
        label := "Apply security updates"
        description := "Install only the pending security updates." }).withFix
      (applyAll "Install all pending package updates.")
  else
    (HealthFinding.new "security-updates" "available" machineId .security .info
      (toString summary.total ++ " package update(s) available")
      (toString summary.total ++ " package updates are pending (none flagged as security).")).withFix
      (applyAll "Install all pending package updates.")

end SecurityUpdate

/-- Apply the pending updates of the node. -/
def applyPending (node : Node) (securityOnly : Bool) (shell : Shell) (done : List Command) :
    Result String × List Command :=
  applyUpdates node.path node.os node.managers shell securityOnly done

/-- The error for a fix that a check does not have. -/
def notOffered (name id : String) : Error :=
  .notFound ("check `" ++ name ++ "` does not offer fix `" ++ id ++ "`")

/-- No updates are pending. -/
def securityUpdateCheck : HealthCheck where
  name := "security-updates"
  check node machineId :=
    let summary := (availableUpdates node.path node.os node.managers node.shell []).1
    if summary.manager.isNone ∨ summary.total = 0 then .ok []
    else .ok [SecurityUpdate.finding machineId summary]
  applyFix node e id done :=
    if id = fixSecurity then e.platform (applyPending node true) done
    else if id = fixAll then e.platform (applyPending node false) done
    else (.error (notOffered "security-updates" id), done)

namespace Vulnerability

/-- The most packages that a finding lists. -/
def maxListed : ℕ := 25

/-- The first packages of the scan with their advisories. -/
def detail (vulns : List VulnerablePackage) : String :=
  "OSV reports known vulnerabilities in installed packages:\n" ++
    String.join ((vulns.take maxListed).map fun v =>
      "• " ++ v.name ++ " " ++ v.version ++ " — " ++ ", ".intercalate v.vulnIds ++ "\n") ++
    if maxListed < vulns.length then
      "…and " ++ toString (vulns.length - maxListed) ++ " more.\n" else ""

/-- What is reported. -/
def finding (machineId : Id) (vulns : List VulnerablePackage) : HealthFinding :=
  (HealthFinding.new "vulnerabilities" "osv" machineId .security .critical
    (toString vulns.length ++ " vulnerable package(s), " ++
      toString (vulns.map fun v => v.vulnIds.length).sum ++ " advisories (OSV)")
    (detail vulns)).withFix
    (applyAll "Update packages to pull in available security fixes.")

end Vulnerability

/-- No installed package has a known vulnerability. -/
def vulnerabilityCheck : HealthCheck where
  name := "vulnerabilities"
  check node machineId :=
    match scanVulnerabilities node.path node.os node.managers node.probe node.post with
    | .error _ => .ok []
    | .ok vulns => .ok (if vulns = [] then [] else [Vulnerability.finding machineId vulns])
  applyFix node e id done :=
    if id = fixAll then e.platform (applyPending node false) done
    else (.error (notOffered "vulnerabilities" id), done)

end Health

end OCF
