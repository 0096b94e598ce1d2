import OCF.Foundations.HashMap
import Mathlib.Data.Nat.Notation

/-!
# Identifiers, metadata, scopes, errors and registries

The types every subsystem shares: the opaque identifier of a resource, the bookkeeping a resource
carries, a place in the fleet, the error a fallible operation returns, what a command comes to, and a
registry of named providers. The time stamps and annotations of a resource are left out: no operation
of the model reads them.
-/

namespace OCF

/-- An opaque, stable identifier for a fabric resource. -/
structure Id where
  name : String
  deriving DecidableEq

/-- A mesh-level node identifier. -/
structure NodeId where
  name : String
  deriving DecidableEq

/-- The bookkeeping carried by every fabric resource. -/
structure Metadata where
  id : Id
  name : String
  labels : HashMap String String
  deriving DecidableEq

namespace Metadata

/-- Metadata with a stable, name-derived id. -/
def named (name : String) : Metadata := ⟨⟨name⟩, name, ∅⟩

/-- Every selector entry is present and equal in the labels. -/
def matchesLabels (m : Metadata) (selector : HashMap String String) : Bool :=
  (HashMap.pairs selector).all fun e => m.labels.lookup e.1 = some e.2

end Metadata

/-- A position in the hierarchy region, datacenter, rack, machine; a level that is not set is
unconstrained. -/
structure Scope where
  region : Option Id
  datacenter : Option Id
  rack : Option Id
  machine : Option Id
  deriving DecidableEq

namespace Scope

/-- The entire fleet. -/
def fleet : Scope := ⟨none, none, none, none⟩

/-- A level the parent constrains is equal in the child. -/
def levelOk (parent child : Option Id) : Bool := parent.isNone || child = parent

/-- Every level constrained by the first scope matches the second. -/
def contains (s other : Scope) : Bool :=
  levelOk s.region other.region && levelOk s.datacenter other.datacenter &&
    levelOk s.rack other.rack && levelOk s.machine other.machine

end Scope

/-- Requested or advertised compute resources. -/
structure ResourceSpec where
  cpuMillis : ℕ
  memoryBytes : ℕ
  diskBytes : ℕ
  deriving DecidableEq

namespace ResourceSpec

/-- Nothing is requested. -/
def none : ResourceSpec := ⟨0, 0, 0⟩

/-- Whether a request can be satisfied by what is available. -/
def fitsIn (r available : ResourceSpec) : Bool :=
  r.cpuMillis ≤ available.cpuMillis && r.memoryBytes ≤ available.memoryBytes &&
    r.diskBytes ≤ available.diskBytes

end ResourceSpec

/-- The lifecycle position of a resource. -/
inductive LifecycleState
  | pending | provisioning | running | paused | stopping | stopped | migrating | failed | terminated
  deriving DecidableEq

inductive Health
  | unknown | healthy | degraded | unhealthy
  deriving DecidableEq

/-- The canonical fabric error. -/
inductive Error
  | notFound (what : String)
  | alreadyExists (what : String)
  | invalidArgument (what : String)
  | notSupported (what : String)
  | unauthenticated (what : String)
  | forbidden (what : String)
  | conflict (what : String)
  | provider (provider message : String)
  | io (what : String)
  | serde (what : String)
  | internal (what : String)
  deriving DecidableEq

/-- The text of an error. -/
def Error.display : Error → String
  | .notFound what => "not found: " ++ what
  | .alreadyExists what => "already exists: " ++ what
  | .invalidArgument what => "invalid argument: " ++ what
  | .notSupported what => "operation not supported: " ++ what
  | .unauthenticated what => "unauthenticated: " ++ what
  | .forbidden what => "forbidden: " ++ what
  | .conflict what => "conflict: " ++ what
  | .provider name message => "provider `" ++ name ++ "` failed: " ++ message
  | .io what => "i/o error: " ++ what
  | .serde what => "serialization error: " ++ what
  | .internal what => "internal error: " ++ what

/-- What a fallible operation returns. -/
abbrev Result := Except Error

/-- A program and its arguments. -/
abbrev Command := String × List String

/-- What running a command comes to: it cannot be spawned, or it exits, with what it printed. -/
inductive CommandOutput
  | notSpawned (e : String)
  | exited (success : Bool) (stdout stderr : String)

/-- Named providers of one contract. -/
abbrev Registry (α : Type*) := HashMap String α

/-- Register a provider under a name that is not taken. -/
def Registry.register {α : Type*} (reg : Registry α) (name : String) (provider : α) :
    Result (Registry α) :=
  if name ∈ reg then .error (.alreadyExists ("provider `" ++ name ++ "`"))
  else .ok (AList.insert name provider reg)

end OCF
