import OCF.Core.Resource
import OCF.Foundations.HashMap
import OCF.Foundations.Lists
import OCF.Foundations.Text

/-!
# The package manager of the host

The platform service picks the manager to install packages with: the first registered one that
applies to the host. A manager applies when the distribution or one of the distributions it is like
is one of the manager's own, or when its install driver is on the search path. The registry is a
hash map, so the managers come in any order.

The driver is meant as a fallback for a host that does not say what it is, but it counts on every
host: `activeManager_eq_iff` says when a host of one manager gets that manager in every order.
-/

namespace OCF

namespace Platform

/-! ## The host -/

/-- What the host says about its operating system. -/
structure HostOs where
  os : String
  distro : String
  idLike : List String
  pretty : String

/-- The distribution is this one or is like it. -/
def HostOs.matches (os : HostOs) (id : String) : Bool :=
  Text.eqIgnoreAsciiCase os.distro id || os.idLike.any fun l => Text.eqIgnoreAsciiCase l id

/-- The directories of `PATH` and the files in them. -/
structure SearchPath where
  windows : Bool
  dirs : List String
  isFile : String → String → Bool

/-- The file names of a program; on Windows also with the extensions of programs. -/
def candidateFilenames (windows : Bool) (name : String) : List String :=
  if windows then name :: ["exe", "bat", "cmd"].map fun ext => name ++ "." ++ ext else [name]

/-- A program is on the search path. -/
def binaryAvailable (path : SearchPath) (name : String) : Bool :=
  path.dirs.any fun dir => (candidateFilenames path.windows name).any (path.isFile dir)

/-! ## The managers -/

/-- A package manager: the distributions it belongs to and its install driver. -/
structure PackageManager where
  name : String
  distros : List String
  driver : String
  deriving DecidableEq

/-- The distribution of the host is one of the manager's. -/
def PackageManager.matchesDistro (m : PackageManager) (os : HostOs) : Bool :=
  m.distros.any os.matches

/-- The manager is that of the distribution, or its driver is on the path. -/
def PackageManager.appliesTo (m : PackageManager) (path : SearchPath) (os : HostOs) : Bool :=
  m.matchesDistro os || binaryAvailable path m.driver

/-- Debian and its relatives. -/
def aptPackageManager : PackageManager := ⟨"apt", ["debian", "ubuntu"], "apt-get"⟩

/-- Fedora and its relatives. -/
def dnfPackageManager : PackageManager := ⟨"dnf", ["fedora", "rhel", "centos"], "dnf"⟩

/-- Arch and its relatives. -/
def pacmanPackageManager : PackageManager := ⟨"pacman", ["arch", "archlinux", "manjaro"], "pacman"⟩

/-- Alpine. -/
def apkPackageManager : PackageManager := ⟨"apk", ["alpine"], "apk"⟩

/-- The registry with the built-in managers. -/
def registerBuiltins (reg : Registry PackageManager) : Result (Registry PackageManager) := do
  let reg ← reg.register "apt" aptPackageManager
  let reg ← reg.register "dnf" dnfPackageManager
  let reg ← reg.register "pacman" pacmanPackageManager
  reg.register "apk" apkPackageManager

/-- The first manager of an order that applies to the host. -/
def activeManager (path : SearchPath) (os : HostOs) (all : List PackageManager) :
    Option PackageManager :=
  all.find? fun m => m.appliesTo path os

/-! ## The choice -/

/-- Where the distribution belongs to exactly one registered manager, that manager is chosen in
every order of the registry if and only if no other registered manager has its driver on the path.
-/
theorem activeManager_eq_iff {registry : Registry PackageManager} {path : SearchPath} {os : HostOs}
    {m : PackageManager}
    (hone : (HashMap.values registry).filter (fun m' => m'.matchesDistro os) = [m]) :
    (∀ order, order.Perm (HashMap.values registry) → activeManager path os order = some m) ↔
      ∀ m' ∈ HashMap.values registry, m' ≠ m → binaryAvailable path m'.driver = false := by
  have honly : ∀ m' ∈ HashMap.values registry, m'.matchesDistro os → m' = m := by
    intro m' hm' hmatch
    have hmem : m' ∈ (HashMap.values registry).filter fun m' => m'.matchesDistro os :=
      List.mem_filter.2 ⟨hm', hmatch⟩
    simpa [hone] using hmem
  obtain ⟨hm, hmatch⟩ : m ∈ HashMap.values registry ∧ m.matchesDistro os := by
    have hmem : m ∈ (HashMap.values registry).filter fun m' => m'.matchesDistro os := by simp [hone]
    simpa using hmem
  have happlies : m.appliesTo path os := by simp [PackageManager.appliesTo, hmatch]
  unfold activeManager
  rw [forall_perm_find_eq_iff (p := fun m => m.appliesTo path os) hm happlies]
  refine forall₂_congr fun m' hm' => ?_
  constructor
  · intro h hne
    by_contra hdriver
    exact hne (h (by simp [PackageManager.appliesTo, eq_true_of_ne_false hdriver]))
  · intro h happlies'
    by_contra hne
    rw [PackageManager.appliesTo, h hne, Bool.or_false] at happlies'
    exact hne (honly m' hm' happlies')

/-! ### An Ubuntu host -/

/-- The registry of the daemon. -/
def builtins : Registry PackageManager := (registerBuiltins ∅).toOption.getD ∅

/-- A host that runs Ubuntu. -/
def ubuntu : HostOs := ⟨"linux", "ubuntu", ["debian"], "Ubuntu 24.04 LTS"⟩

/-- A path with these programs in `/usr/bin`. -/
def usrBin (programs : List String) : SearchPath :=
  ⟨false, ["/usr/bin"], fun _ name => name ∈ programs⟩

/-- With its own driver on the path, Ubuntu is served by apt. -/
theorem activeManager_eq_apt :
    (HashMap.values builtins).filter (fun m => m.matchesDistro ubuntu) = [aptPackageManager] ∧
      ∀ order, order.Perm (HashMap.values builtins) →
        activeManager (usrBin ["apt-get", "nft"]) ubuntu order = some aptPackageManager :=
  ⟨by decide +kernel, (activeManager_eq_iff (by decide +kernel)).2 (by decide +kernel)⟩

/-- Once `dnf` is installed there, an order of the registry makes dnf the manager. -/
theorem activeManager_ubuntu_dnf :
    (HashMap.values builtins).filter (fun m => m.matchesDistro ubuntu) = [aptPackageManager] ∧
      ∃ order, order.Perm (HashMap.values builtins) ∧
        activeManager (usrBin ["apt-get", "dnf"]) ubuntu order = some dnfPackageManager := by
  refine ⟨by decide +kernel, [dnfPackageManager, aptPackageManager, pacmanPackageManager,
    apkPackageManager], ?_, by decide +kernel⟩
  decide +kernel

end Platform

end OCF
