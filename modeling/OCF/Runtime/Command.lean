import OCF.Foundations.Text
import OCF.Runtime.Provider
import Mathlib.Data.List.Sort

/-!
# The command-line providers

Docker, Podman, LXC and libvirt are driven through their command-line tools. A host runs commands
and holds the scratch files; what the tools do is a parameter. The providers keep nothing
themselves: `list` rebuilds the workloads from what the tool prints.

A listing prints no placement. `listsBare_of_mem_builtins` is what follows for every provider and
whatever the tool prints: the listed workloads have their resources, environment, labels and
placement at the defaults, are on no node and are not highly available.
The memory checkpoints of libvirt and the status queries are left out. A file system path is text.
-/

namespace OCF.Runtime

open OCF.Text

/-- A host with state `σ`. -/
structure Host (σ : Type*) where
  exec : String → List String → σ → CommandOutput × σ
  writeFile : String → String → σ → Except String Unit × σ
  removeFile : String → σ → σ
  tempDir : String

variable {σ : Type*}

/-- Run a command: what it printed, or an error that says why there is nothing. -/
def Host.run (host : Host σ) (bin : String) (args : List String) (s : σ) : Result String × σ :=
  match host.exec bin args s with
  | (.notSpawned e, s) => (.error (.provider bin ("failed to spawn `" ++ bin ++ "`: " ++ e)), s)
  | (.exited true stdout _, s) => (.ok (trimmed stdout), s)
  | (.exited false stdout stderr, s) =>
    (.error (.provider bin (if trimmed stderr = "" then trimmed stdout else trimmed stderr)), s)

/-- Run a command for its effect. -/
def Host.runUnit (host : Host σ) (bin : String) (args : List String) (s : σ) : Result Unit × σ :=
  let (r, s) := host.run bin args s
  (r.map fun _ => (), s)

/-- Reject a workload of another kind than the backend runs. -/
def requireKind (w : Workload) (expected : RuntimeKind) (backend : String) : Result Unit :=
  if w.kind ≠ expected then
    .error (.invalidArgument (backend ++ " backend only runs " ++ expected.asStr ++ "s, got " ++
      w.kind.asStr))
  else .ok ()

/-! ## Containers -/

/-- The label on every workload that the fabric creates. -/
def ocfLabel : String := "ocf=1"

/-- The label that marks the containers of the fabric. -/
def ocfWorkloadKey : String := "ocf.workload"

/-- Millicores as whole cores with at most three decimals and no trailing zeros. The source goes
through a float, which agrees up to `2 ^ 42` cores. -/
def formatCpus (cpuMillis : ℕ) : String :=
  let decimals := (Nat.toDigits 10 (1000 + cpuMillis % 1000)).tail.rdropWhile fun c => c = '0'
  String.ofList (Nat.toDigits 10 (cpuMillis / 1000) ++ if decimals = [] then [] else '.' :: decimals)

/-- The arguments of `docker create` and `podman create`; the environment is listed by key. -/
def containerCreateArgs (w : Workload) : List String :=
  let id := w.metadata.id.name
  ["create", "--name", id, "--label", ocfLabel, "--label", ocfWorkloadKey ++ "=" ++ id] ++
    (((HashMap.pairs w.env).insertionSort fun a b => a.1 ≤ b.1).flatMap fun e =>
      ["-e", e.1 ++ "=" ++ e.2]) ++
    (if 0 < w.resources.memoryBytes then ["--memory", toString w.resources.memoryBytes] else []) ++
    (if 0 < w.resources.cpuMillis then ["--cpus", formatCpus w.resources.cpuMillis] else []) ++
    [w.image]

/-- The lifecycle state for the state a container tool reports. -/
def parseContainerStatus (status : List Char) : LifecycleState :=
  match String.ofList (trim status) with
  | "running" => .running
  | "restarting" => .provisioning
  | "created" => .stopped
  | "exited" => .stopped
  | "paused" => .paused
  | "removing" => .stopping
  | "dead" => .failed
  | _ => .pending

/-- Rebuild a workload from a line `ID|Image|Names|State`. The container's name is the workload's
id; what the line does not show comes back at its default. -/
def workloadFromPsLine (line : List Char) : Option Workload :=
  match splitn '|' 4 line with
  | [_, image, name, state] =>
    let w := Workload.container (.named (String.ofList name)) (String.ofList image)
    some { w with state := parseContainerStatus state }
  | _ => none

/-- The workloads that `ps` lists. -/
def workloadsFromPs (output : String) : List Workload :=
  ((lines output.toList).filter fun l => trim l ≠ []).filterMap workloadFromPsLine

/-- Docker and Podman: the same commands of two tools. -/
def containerRuntime (bin : String) (host : Host σ) : RuntimeProvider σ where
  name := bin
  kind := .container
  create w s :=
    match requireKind w .container bin with
    | .error e => (.error e, s)
    | .ok _ => host.runUnit bin (containerCreateArgs w) s
  start id s := host.runUnit bin ["start", id.name] s
  stop id s := host.runUnit bin ["stop", id.name] s
  delete id s := host.runUnit bin ["rm", "-f", id.name] s
  list s :=
    let (r, s) := host.run bin ["ps", "-a", "--filter", "label=" ++ ocfLabel, "--format",
      "\x7b\x7b.ID\x7d\x7d|\x7b\x7b.Image\x7d\x7d|\x7b\x7b.Names\x7d\x7d|\x7b\x7b.State\x7d\x7d"] s
    (r.map workloadsFromPs, s)

/-- Containers with `docker`. -/
def dockerRuntime (host : Host σ) : RuntimeProvider σ := containerRuntime "docker" host

/-- Containers with `podman`. -/
def podmanRuntime (host : Host σ) : RuntimeProvider σ := containerRuntime "podman" host

/-! ## LXC -/

/-- The lifecycle state for an LXC container state. -/
def parseLxcState (state : List Char) : LifecycleState :=
  match String.ofList ((trim state).map Char.toUpper) with
  | "RUNNING" => .running
  | "STOPPED" => .stopped
  | "STARTING" => .provisioning
  | "STOPPING" => .stopping
  | "FROZEN" => .paused
  | "ABORTING" => .failed
  | _ => .pending

/-- Rebuild the workloads from the columns `NAME STATE`, without the header. -/
def workloadsFromLxcLs (output : String) : List Workload :=
  (((lines output.toList).map trim).filter fun l =>
    l ≠ [] ∧ ¬"NAME".toList.isPrefixOf l).filterMap fun l =>
      match splitWhitespace l with
      | [] => none
      | name :: cols =>
        let w := Workload.container (.named (String.ofList name)) "<lxc-rootfs>"
        some { w with state := parseLxcState (cols.head?.getD []) }

/-- Containers with LXC. -/
def lxcRuntime (host : Host σ) : RuntimeProvider σ where
  name := "lxc"
  kind := .container
  create w s :=
    match requireKind w .container "lxc" with
    | .error e => (.error e, s)
    | .ok _ => host.runUnit "lxc-create" ["-n", w.metadata.id.name, "-t", w.image] s
  start id s := host.runUnit "lxc-start" ["-n", id.name, "-d"] s
  stop id s := host.runUnit "lxc-stop" ["-n", id.name] s
  delete id s := host.runUnit "lxc-destroy" ["-n", id.name, "-f"] s
  list s :=
    let (r, s) := host.run "lxc-ls" ["-1", "-f", "-F", "NAME,STATE"] s
    (r.map workloadsFromLxcLs, s)

/-! ## Virtual machines -/

/-- Each character is replaced in what the replacements before it gave. -/
def xmlEscape (s : String) : String :=
  let s := replaceChar '&' "&amp;".toList s.toList
  let s := replaceChar '<' "&lt;".toList s
  let s := replaceChar '>' "&gt;".toList s
  let s := replaceChar '"' "&quot;".toList s
  String.ofList (replaceChar '\'' "&apos;".toList s)

/-- Whole cores for a workload, at least one. The sum is one of 64-bit integers and wraps around. -/
def vcpus (w : Workload) : ℕ := max ((w.resources.cpuMillis + 999) % 2 ^ 64 / 1000) 1

/-- The libvirt domain of a workload: memory in KiB, at least 64 MiB, and whole cores. -/
def domainXml (w : Workload) : String :=
  let memKib := max (w.resources.memoryBytes / 1024) (64 * 1024)
  "<domain type='kvm'><name>" ++ xmlEscape w.metadata.id.name ++ "</name><memory unit='KiB'>" ++
    toString memKib ++ "</memory><vcpu>" ++ toString (vcpus w) ++
    "</vcpu><os><type arch='x86_64'>hvm</type></os><devices><disk type='file' device='disk'>" ++
    "<driver name='qemu' type='qcow2'/><source file='" ++ xmlEscape w.image ++
    "'/><target dev='vda' bus='virtio'/></disk></devices></domain>"

/-- Rebuild the workloads from a list of domain names, one on each line. -/
def workloadsFromVirshList (output : String) : List Workload :=
  (((lines output.toList).map trim).filter fun l => l ≠ []).map fun name =>
    Workload.virtualMachine (.named (String.ofList name)) "<libvirt-domain>"

/-- Virtual machines with libvirt. -/
def qemuRuntime (host : Host σ) : RuntimeProvider σ where
  name := "qemu"
  kind := .virtualMachine
  create w s :=
    match requireKind w .virtualMachine "qemu" with
    | .error e => (.error e, s)
    | .ok _ =>
      let path := host.tempDir ++ "/ocf-vm-" ++ w.metadata.id.name ++ ".xml"
      match host.writeFile path (domainXml w) s with
      | (.error e, s) => (.error (.provider "virsh" ("writing domain XML: " ++ e)), s)
      | (.ok _, s) =>
        let (r, s) := host.runUnit "virsh" ["define", path] s
        (r, host.removeFile path s)
  start id s := host.runUnit "virsh" ["start", id.name] s
  stop id s := host.runUnit "virsh" ["shutdown", id.name] s
  delete id s :=
    -- a domain that is off already cannot be destroyed; only removing its definition counts
    let (_, s) := host.run "virsh" ["destroy", id.name] s
    host.runUnit "virsh" ["undefine", id.name] s
  list s :=
    let (r, s) := host.run "virsh" ["list", "--all", "--name"] s
    (r.map workloadsFromVirshList, s)

/-- The providers registered at startup. -/
def builtins (host : Host σ) : List (RuntimeProvider σ) :=
  [dockerRuntime host, podmanRuntime host, lxcRuntime host, qemuRuntime host]

/-! ## What a listing loses -/

/-- A workload that no node is recorded for and that is not kept across the loss of one. -/
def Workload.Unplaced (w : Workload) : Prop := w.node = none ∧ w.highlyAvailable = false

/-- Everything the provider lists is unplaced, on every host. -/
def ListsUnplaced (p : RuntimeProvider σ) : Prop :=
  ∀ s ws, (p.list s).1 = .ok ws → ∀ w ∈ ws, w.Unplaced

/-- A workload of which only its name, its kind, its image, its state and its attachment may be
known: all the rest is at its default. -/
structure Workload.Bare (w : Workload) : Prop where
  labels : w.metadata.labels = ∅
  resources : w.resources = .none
  unplaced : w.Unplaced
  placement : w.placement = none
  env : w.env = ∅
  nodeSelector : w.nodeSelector = ∅

theorem Workload.bare_ofImage (kind : RuntimeKind) (name image : String) (state : LifecycleState) :
    { Workload.ofImage kind (.named name) image with state := state }.Bare :=
  ⟨rfl, rfl, ⟨rfl, rfl⟩, rfl, rfl, rfl⟩

/-- Everything the provider lists is bare, on every host. -/
def ListsBare (p : RuntimeProvider σ) : Prop := ∀ s ws, (p.list s).1 = .ok ws → ∀ w ∈ ws, w.Bare

/-- What holds of everything a parser of listings returns holds of everything that is listed. -/
theorem forall_of_map {P : Workload → Prop} {r : Result String} {parse : String → List Workload}
    {ws : List Workload} (hparse : ∀ output, ∀ w ∈ parse output, P w) (h : r.map parse = .ok ws) :
    ∀ w ∈ ws, P w := by
  cases r with
  | error e => simp [Except.map] at h
  | ok output =>
    obtain rfl := Except.ok.inj h
    exact hparse output

/-- **The workloads that a command-line provider lists** come from one of three parsers. -/
theorem forall_listed_of_mem_builtins {P : Workload → Prop} {host : Host σ} {p : RuntimeProvider σ}
    (h : p ∈ builtins host) (hps : ∀ output, ∀ w ∈ workloadsFromPs output, P w)
    (hlxc : ∀ output, ∀ w ∈ workloadsFromLxcLs output, P w)
    (hvirsh : ∀ output, ∀ w ∈ workloadsFromVirshList output, P w) {s : σ} {ws : List Workload}
    (hws : (p.list s).1 = .ok ws) : ∀ w ∈ ws, P w := by
  simp only [builtins, List.mem_cons, List.not_mem_nil, or_false] at h
  obtain rfl | rfl | rfl | rfl := h
  · exact forall_of_map hps hws
  · exact forall_of_map hps hws
  · exact forall_of_map hlxc hws
  · exact forall_of_map hvirsh hws

theorem bare_of_mem_ps (output : String) :
    ∀ w ∈ workloadsFromPs output, w.Bare ∧ w.kind = .container := by
  intro w h
  obtain ⟨line, -, hline⟩ := List.mem_filterMap.1 h
  unfold workloadFromPsLine at hline
  split at hline
  · obtain rfl := Option.some.inj hline
    exact ⟨Workload.bare_ofImage .., rfl⟩
  · simp at hline

theorem bare_of_mem_lxcLs (output : String) :
    ∀ w ∈ workloadsFromLxcLs output, w.Bare ∧ w.kind = .container := by
  intro w h
  obtain ⟨line, -, hline⟩ := List.mem_filterMap.1 h
  split at hline
  · simp at hline
  · obtain rfl := Option.some.inj hline
    exact ⟨Workload.bare_ofImage .., rfl⟩

theorem bare_of_mem_virshList (output : String) :
    ∀ w ∈ workloadsFromVirshList output, w.Bare ∧ w.image = "<libvirt-domain>" := by
  intro w h
  obtain ⟨name, -, rfl⟩ := List.mem_map.1 h
  exact ⟨Workload.bare_ofImage .., rfl⟩

/-- **No command-line provider lists what a workload was created with**, its image apart. -/
theorem listsBare_of_mem_builtins {host : Host σ} {p : RuntimeProvider σ} (h : p ∈ builtins host) :
    ListsBare p := fun _ _ =>
  forall_listed_of_mem_builtins h (fun output w hw => (bare_of_mem_ps output w hw).1)
    (fun output w hw => (bare_of_mem_lxcLs output w hw).1)
    fun output w hw => (bare_of_mem_virshList output w hw).1

/-- The image of a virtual machine is not listed. -/
theorem image_of_mem_builtins {host : Host σ} {p : RuntimeProvider σ} (h : p ∈ builtins host) {s : σ}
    {ws : List Workload} (hws : (p.list s).1 = .ok ws) :
    ∀ w ∈ ws, w.kind = .virtualMachine → w.image = "<libvirt-domain>" := by
  refine forall_listed_of_mem_builtins
    (P := fun w => w.kind = .virtualMachine → w.image = "<libvirt-domain>") h
    (fun output w hw hkind => ?_) (fun output w hw hkind => ?_)
    (fun output w hw _ => (bare_of_mem_virshList output w hw).2) hws
  · rw [(bare_of_mem_ps output w hw).2] at hkind
    cases hkind
  · rw [(bare_of_mem_lxcLs output w hw).2] at hkind
    cases hkind

/-- **No command-line provider lists where a workload is placed.** -/
theorem listsUnplaced_of_mem_builtins {host : Host σ} {p : RuntimeProvider σ}
    (h : p ∈ builtins host) : ListsUnplaced p :=
  fun s ws hws w hw => (listsBare_of_mem_builtins h s ws hws w hw).unplaced

example : workloadsFromPs "abc123|nginx:1.27|web-1|running\ndef456|redis:7|cache-1|exited" =
    [{ Workload.container (.named "web-1") "nginx:1.27" with state := .running },
      { Workload.container (.named "cache-1") "redis:7" with state := .stopped }] := by rfl

end OCF.Runtime
