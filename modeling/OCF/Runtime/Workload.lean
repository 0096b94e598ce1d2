import OCF.Core.Resource

/-!
# Workloads

A workload is a container or a virtual machine with its resources, its placement and, optionally,
its attachment to a subnet.
-/

namespace OCF.Runtime

/-- Whether a workload runs as a container or as a virtual machine. -/
inductive RuntimeKind
  | container
  | virtualMachine
  deriving DecidableEq

/-- The stable lowercase name of a kind. -/
def RuntimeKind.asStr : RuntimeKind → String
  | .container => "container"
  | .virtualMachine => "virtual_machine"

/-- A workload's attachment to a subnet. -/
structure NetworkAttachment where
  subnetId : Id
  /-- Opt-in for outbound internet access. -/
  egress : Bool
  /-- The assigned address within the subnet, when known. -/
  address : Option String
  deriving DecidableEq

namespace NetworkAttachment

/-- An attachment without an address. -/
def new (subnetId : Id) : NetworkAttachment := ⟨subnetId, false, none⟩

/-- The attachment with egress or without. -/
def withEgress (a : NetworkAttachment) (egress : Bool) : NetworkAttachment :=
  { a with egress := egress }

/-- The attachment with an address. -/
def withAddress (a : NetworkAttachment) (address : String) : NetworkAttachment :=
  { a with address := some address }

end NetworkAttachment

/-- A unit of compute the fabric schedules onto a node. -/
structure Workload where
  metadata : Metadata
  kind : RuntimeKind
  image : String
  resources : ResourceSpec
  state : LifecycleState
  /-- The node this workload is placed on, if scheduled. -/
  node : Option Id
  highlyAvailable : Bool
  placement : Option Scope
  env : HashMap String String
  /-- Labels a machine must carry to host the workload. -/
  nodeSelector : HashMap String String
  network : Option NetworkAttachment
  deriving DecidableEq

namespace Workload

/-- A workload of a kind from an image, everything else at its default. -/
def ofImage (kind : RuntimeKind) (metadata : Metadata) (image : String) : Workload :=
  ⟨metadata, kind, image, .none, .pending, none, false, none, ∅, ∅, none⟩

/-- A container from an image reference. -/
def container (metadata : Metadata) (image : String) : Workload := ofImage .container metadata image

/-- A virtual machine from a template reference. -/
def virtualMachine (metadata : Metadata) (image : String) : Workload :=
  ofImage .virtualMachine metadata image

/-- Place the workload on a node. -/
def onNode (w : Workload) (node : Id) : Workload := { w with node := some node }

@[simp] theorem onNode_metadata (w : Workload) (node : Id) :
    (w.onNode node).metadata = w.metadata := rfl

/-- Whether the placement scope permits running at a place. -/
def permitsPlacement (w : Workload) (target : Scope) : Bool :=
  match w.placement with
  | none => true
  | some scope => scope.contains target

end Workload

end OCF.Runtime
