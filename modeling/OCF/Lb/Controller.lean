import OCF.Core.Resource

/-!
# The load-balancer controller

The resource model of a load balancer and the controller that keeps them by id.
-/

namespace OCF.Lb

/-- What a load balancer balances. -/
inductive LbKind
  | tcp
  | application
  deriving DecidableEq

/-- How a load balancer chooses between backends. -/
inductive RoutingPolicy
  | roundRobin
  | leastLoad
  | latency
  | geo
  deriving DecidableEq

/-- A port that is listened on. -/
structure Listener where
  port : UInt16
  tls : Bool
  deriving DecidableEq

/-- A virtual front-end that balances client traffic across selected targets. -/
structure LoadBalancer where
  metadata : Metadata
  kind : LbKind
  listeners : List Listener
  targetSelector : HashMap String String
  policy : RoutingPolicy
  /-- When set, restricts where targets may live and migrate. -/
  placement : Option Scope
  anycast : Bool
  hostnames : List String
  deriving DecidableEq

/-- The load balancers, by id. -/
structure LoadBalancerController where
  loadBalancers : HashMap Id LoadBalancer

namespace LoadBalancerController

/-- A controller without load balancers. -/
def new : LoadBalancerController := ⟨∅⟩

/-- Create a load balancer. Fails if one with the same id already exists. -/
def create (c : LoadBalancerController) (lb : LoadBalancer) :
    Result LoadBalancer × LoadBalancerController :=
  let id := lb.metadata.id
  if id ∈ c.loadBalancers then (.error (.alreadyExists ("load balancer " ++ id.name)), c)
  else (.ok lb, ⟨c.loadBalancers.insert id lb⟩)

/-- Fetch a load balancer by id. -/
def get (c : LoadBalancerController) (id : Id) : Result LoadBalancer :=
  match c.loadBalancers.lookup id with
  | some lb => .ok lb
  | none => .error (.notFound ("load balancer " ++ id.name))

/-- All load balancers. -/
def list (c : LoadBalancerController) : List LoadBalancer := HashMap.values c.loadBalancers

/-- Replace an existing load balancer. -/
def update (c : LoadBalancerController) (lb : LoadBalancer) :
    Result LoadBalancer × LoadBalancerController :=
  let id := lb.metadata.id
  if id ∉ c.loadBalancers then (.error (.notFound ("load balancer " ++ id.name)), c)
  else (.ok lb, ⟨c.loadBalancers.insert id lb⟩)

/-- Delete a load balancer. Fails if it does not exist. -/
def delete (c : LoadBalancerController) (id : Id) : Result Unit × LoadBalancerController :=
  if id ∈ c.loadBalancers then (.ok (), ⟨c.loadBalancers.erase id⟩)
  else (.error (.notFound ("load balancer " ++ id.name)), c)

end LoadBalancerController

end OCF.Lb
