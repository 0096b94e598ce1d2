import OCF.Fabric.Node
import OCF.Foundations.Binary64
import OCF.Foundations.LabelSearch
import Mathlib.Algebra.Order.Ring.Rat

/-!
# Graph-aware packet routing across the mesh

The fabric as a weighted graph: nodes with their reachability, an edge between any two nodes that
are not both private, weighted by the round-trip time measured in either direction. The shortest path
between two nodes is found with Dijkstra's algorithm, and the next hop to send through is derived from
it.

The algorithm is the label-setting search of `OCF.Foundations.LabelSearch`, with one of two ways to add
up round-trip times. `RouteGraph.floatPath` and `RouteGraph.floatNextRelay` add them as the program
does, in double precision: each sum is rounded, and a sum that is too large becomes infinite.
`RouteGraph.path` adds them exactly.

Round-trip times are rationals. The search visits the nodes in the order in which the hash map lists its
keys, so this order is a parameter of a path.
-/

namespace OCF.Fabric

/-- Assumed round-trip time of an edge (ms) until a real measurement is observed. -/
def defaultEdgeMs : ℚ := 1000

/-- A weighted reachability graph of the fabric. -/
structure RouteGraph where
  reach : HashMap NodeId Reachability
  /-- Directed measured round-trip time (ms); either direction satisfies an edge. -/
  rtt : HashMap (NodeId × NodeId) ℚ

namespace RouteGraph

/-- A graph without nodes. -/
def new : RouteGraph := ⟨∅, ∅⟩

/-- Add (or update) a node and its reachability. -/
def addNode (g : RouteGraph) (id : NodeId) (reach : Reachability) : RouteGraph :=
  { g with reach := g.reach.insert id reach }

/-- Record a measured round-trip time: one observed edge weight. -/
def observeRtt (g : RouteGraph) (a b : NodeId) (ms : ℚ) : RouteGraph :=
  { g with rtt := g.rtt.insert (a, b) ms }

/-- Whether two nodes can hold a direct tunnel: both known, and not both private. -/
def canLink (g : RouteGraph) (a b : NodeId) : Bool :=
  match g.reach.lookup a, g.reach.lookup b with
  | some ra, some rb => !(ra = .priv && rb = .priv)
  | _, _ => false

/-- The cost of an edge, or `none` when the nodes cannot directly peer. -/
def edgeCost (g : RouteGraph) (a b : NodeId) : Option ℚ :=
  if a = b || !g.canLink a b then none
  else some (((g.rtt.lookup (a, b)).or (g.rtt.lookup (b, a))).getD defaultEdgeMs)

/-! ## Exact sums -/

/-- The graph with exact sums; a node without a distance has the label `⊤`. -/
def exactSums (g : RouteGraph) : LabelSearch NodeId ℚ (WithTop ℚ) :=
  ⟨g.edgeCost, fun d w => d + w, fun d => d = ⊤⟩

/-- The shortest path from `src` to `dst` as the ordered hops after `src`. `order` is the order in
which the map of nodes lists its keys. -/
def path (g : RouteGraph) (order : List NodeId) (src dst : NodeId) : Option (List NodeId) :=
  if src ∉ g.reach || dst ∉ g.reach then none else g.exactSums.path ⊤ 0 order src dst

/-! ## Sums in double precision -/

/-- The graph with double-precision sums. -/
def floatSums (g : RouteGraph) : LabelSearch NodeId ℚ Binary64 :=
  ⟨g.edgeCost, Binary64.add, Binary64.isInfinite⟩

/-- The distances before the search: only the source has a finite one. -/
def floatInit (src : NodeId) : SearchLabels NodeId Binary64 := .init .posInf (.finite 0) src

/-- The shortest path from `src` to `dst` as the ordered hops after `src`. `order` is the order in
which the map of nodes lists its keys. -/
def floatPath (g : RouteGraph) (order : List NodeId) (src dst : NodeId) : Option (List NodeId) :=
  if src ∉ g.reach || dst ∉ g.reach then none
  else g.floatSums.path .posInf (.finite 0) order src dst

/-- The next hop to send through: the first node on a path of several hops. -/
def floatNextRelay (g : RouteGraph) (order : List NodeId) (src dst : NodeId) : Option NodeId :=
  match g.floatPath order src dst with
  | some (hop :: _ :: _) => some hop
  | _ => none

end RouteGraph

end OCF.Fabric
