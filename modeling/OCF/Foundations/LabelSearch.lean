import OCF.Foundations.HashMap
import OCF.Foundations.Walk
import Mathlib.Data.List.Chain
import Mathlib.Data.List.MinMax
import Mathlib.Logic.Function.Basic
import Mathlib.Logic.Relation
import Mathlib.Order.Basic

/-!
# Label-setting search

Dijkstra's algorithm over an arbitrary way of adding up costs: labels are linearly ordered, a label and
the weight of an edge give a label, and some labels count as infinite. Addition need not be exact, nor
associative, nor monotone: a rounded sum, or one that overflows, is as good as any.

A search finishes the node with the least label, offers its neighbours a label, and goes on until the
target is finished or the least label is infinite; the path to the target is then read back from the
predecessors (`LabelSearch.path`). `LabelSearch.Walk` is a walk whose labels, summed up edge by edge,
stay finite.

* `Ok` is what every round keeps: each finite label is that of a walk without repetition that the
  predecessors spell out and whose interior is finished. `Relaxed`: no edge out of a finished node
  offers an unfinished one less than it has.
* `rounds_search`: the search ends after visiting every node at most once.
* `search_spec`: what it ends with.
* `path_cases`: a path that is found is a walk without repetition.
* `Growing` says that addition is monotone and does not decrease the label of a walk. Then the label of
  a finished node is the least one of a walk to it (`search_settled`), and a path is found exactly when
  there is a walk (`Growing.isSome_path_iff`).
-/

namespace OCF

/-- A graph with weighted edges and a way to add up weights. -/
structure LabelSearch (V W L : Type*) where
  edge : V → V → Option W
  add : L → W → L
  infinite : L → Bool

/-- What a search keeps for every node: its label, the predecessor on the best path found, and whether
it is finished. -/
structure SearchLabels (V L : Type*) where
  dist : V → L
  prev : HashMap V V
  done : V → Bool

variable {V W L : Type*}

namespace SearchLabels

/-- How many nodes are not finished. -/
def remaining (l : SearchLabels V L) (order : List V) : ℕ := (order.filter fun n => !l.done n).length

/-- The unfinished node with the least label, the first in the order among equals. -/
def next [LinearOrder L] (l : SearchLabels V L) (order : List V) : Option V :=
  (order.filter fun n => !l.done n).argmin l.dist

variable [DecidableEq V]

/-- Nothing is finished and only the source has the label `start`. -/
def init (top start : L) (src : V) : SearchLabels V L :=
  ⟨Function.update (fun _ => top) src start, ∅, fun _ => false⟩

def finish (l : SearchLabels V L) (u : V) : SearchLabels V L :=
  { l with done := Function.update l.done u true }

/-- Record a better label of `v`, reached through `u`. -/
def improve (l : SearchLabels V L) (v u : V) (d : L) : SearchLabels V L :=
  { l with dist := Function.update l.dist v d, prev := l.prev.insert v u }

/-- Collect the nodes from `cur` back to `src`, the last one first. -/
def unwind (l : SearchLabels V L) (src : V) : ℕ → V → List V → Option (List V)
  | 0, _, _ => none
  | fuel + 1, cur, hops =>
    if cur = src then some hops
    else (l.prev.lookup cur).bind fun p => l.unwind src fuel p (hops ++ [cur])

end SearchLabels

namespace LabelSearch

section Definitions

variable [DecidableEq V] [LinearOrder L] (S : LabelSearch V W L)

/-- Offer `v` the label through `u`, unless `v` is finished. -/
def relax (u : V) (l : SearchLabels V L) (v : V) : SearchLabels V L :=
  if l.done v then l
  else match S.edge u v with
    | none => l
    | some w =>
      let cand := S.add (l.dist u) w
      if cand < l.dist v then l.improve v u cand else l

/-- Finish the node with the least label and relax its edges, until `dst` is finished or the least
label is infinite. -/
def search (order : List V) (dst : V) : ℕ → SearchLabels V L → SearchLabels V L
  | 0, l => l
  | fuel + 1, l =>
    match l.next order with
    | none => l
    | some u =>
      if S.infinite (l.dist u) then l
      else if u = dst then l.finish u
      else search order dst fuel (order.foldl (S.relax u) (l.finish u))

/-- The labels the search of a path ends with. -/
def final (top start : L) (order : List V) (src dst : V) : SearchLabels V L :=
  S.search order dst order.length (.init top start src)

/-- The path that the search finds, as the ordered hops after `src`. -/
def path (top start : L) (order : List V) (src dst : V) : Option (List V) :=
  if src = dst then some []
  else
    let l := S.final top start order src dst
    if S.infinite (l.dist dst) then none
    else (l.unwind src (order.length + 1) dst []).map List.reverse

/-- The search without a bound on its rounds: it visits the nodes in turn and ends with the labels. -/
inductive Rounds (order : List V) (dst : V) :
    SearchLabels V L → List V → SearchLabels V L → Prop
  | exhausted {l : SearchLabels V L} (hnext : l.next order = none) : Rounds order dst l [] l
  | infinite {l : SearchLabels V L} {u : V} (hnext : l.next order = some u)
      (hinf : S.infinite (l.dist u) = true) : Rounds order dst l [] l
  | target {l : SearchLabels V L} (hnext : l.next order = some dst)
      (hinf : S.infinite (l.dist dst) = false) : Rounds order dst l [dst] (l.finish dst)
  | round {l l' : SearchLabels V L} {u : V} {visits : List V} (hnext : l.next order = some u)
      (hinf : S.infinite (l.dist u) = false) (hne : u ≠ dst)
      (hrest : Rounds order dst (order.foldl (S.relax u) (l.finish u)) visits l') :
      Rounds order dst l (u :: visits) l'

/-- No edge out of a finished node offers an unfinished one a better label. -/
def Relaxed (l : SearchLabels V L) : Prop :=
  ∀ u v w, l.done u → l.done v = false → S.edge u v = some w → l.dist v ≤ S.add (l.dist u) w

/-- No unfinished node has a label below one that is infinite. -/
def Stopped (order : List V) (l : SearchLabels V L) : Prop :=
  ∀ v ∈ order, l.done v = false →
    ∃ u ∈ order, l.done u = false ∧ S.infinite (l.dist u) = true ∧ l.dist u ≤ l.dist v

end Definitions

/-! ## Walks and their labels -/

section Walks

variable {S : LabelSearch V W L} {start : L} {src v x : V}

/-- A walk from the source: summed up edge by edge from `start`, the label stays finite. -/
inductive Walk (S : LabelSearch V W L) (start : L) (src : V) : V → List V → L → Prop
  | nil : Walk S start src src [] start
  | concat {u v : V} {hops : List V} {c : L} {w : W} : Walk S start src u hops c →
      S.edge u v = some w → S.infinite (S.add c w) = false →
      Walk S start src v (hops ++ [v]) (S.add c w)

namespace Walk

variable {hops : List V} {c : L}

theorem infinite_eq_false (hstart : S.infinite start = false) (h : S.Walk start src v hops c) :
    S.infinite c = false := by
  cases h with
  | nil => exact hstart
  | concat _ _ hc => exact hc

theorem walkEnd_eq (h : S.Walk start src v hops c) : walkEnd src hops = v := by
  cases h with
  | nil => rfl
  | concat _ _ _ => exact walkEnd_append_singleton ..

/-- Neighbours on a walk have an edge. -/
theorem isChain (h : S.Walk start src v hops c) :
    List.IsChain (fun a b => (S.edge a b).isSome) (src :: hops) := by
  induction h with
  | nil => exact .singleton src
  | @concat u v hops _ _ hw he _ ih =>
    rw [← List.cons_append]
    refine List.isChain_append.2 ⟨ih, .singleton v, fun a ha b hb => ?_⟩
    obtain rfl : v = b := by simpa using hb
    have hlast : (src :: hops).getLast? = some u := by
      cases hw with
      | nil => rfl
      | concat _ _ _ => rw [← List.cons_append, List.getLast?_concat]
    obtain rfl : u = a := Option.some.inj (hlast.symm.trans ha)
    exact Option.isSome_of_mem he

theorem exists_edge_of_mem (h : S.Walk start src v hops c) (hx : x ∈ hops) :
    ∃ u w, S.edge u x = some w := by
  induction h with
  | nil => simp at hx
  | @concat u v hops _ w _ he _ ih =>
    rcases List.mem_append.1 hx with hx | hx
    · exact ih hx
    · obtain rfl := List.mem_singleton.1 hx
      exact ⟨u, w, he⟩

/-- **A cut vertex.** When labels do not decrease along walks and every edge that leads a walk out of a
set below a bound leads to `y`, a walk that stays below the bound stays in the set or visits `y`. -/
theorem mem_of_cut [Preorder L] {P : V → Prop} {y : V} {bound : L}
    (hgrow : ∀ u v w hops c, S.Walk start src u hops c → S.edge u v = some w → c ≤ S.add c w)
    (hs : P src)
    (hcut : ∀ u v w hops c, P u → S.Walk start src u hops c → S.edge u v = some w →
      S.add c w < bound → P v ∨ v = y)
    (h : S.Walk start src v hops c) (hc : c < bound) : P v ∨ y ∈ hops := by
  induction h with
  | nil => exact .inl hs
  | @concat u v hops c w hw he _ ih =>
    rw [List.mem_append, List.mem_singleton]
    obtain hP | hy := ih ((hgrow u v w hops c hw he).trans_lt hc)
    · exact (hcut u v w hops c hP hw he hc).imp id fun hv => .inr hv.symm
    · exact .inr (.inl hy)

end Walk

end Walks

section Labels

variable [DecidableEq V] (S : LabelSearch V W L)

/-- Following the predecessors from `v` leads back to `src` along `hops`. -/
inductive Traces (prev : HashMap V V) (src : V) : V → List V → Prop
  | nil : Traces prev src src []
  | concat {u v : V} {hops : List V} : Traces prev src u hops → v ≠ src →
      prev.lookup v = some u → Traces prev src v (hops ++ [v])

/-- The label of `v` is that of the walk `hops`, whose interior is finished. -/
structure Labelled (start : L) (src : V) (l : SearchLabels V L) (v : V) (hops : List V) : Prop where
  walk : S.Walk start src v hops (l.dist v)
  traces : Traces l.prev src v hops
  nodup : (src :: hops).Nodup
  interior : ∀ x ∈ src :: hops, x ≠ v → l.done x

/-- What every relaxation keeps. -/
structure Ok (start : L) (src : V) (l : SearchLabels V L) : Prop where
  labelled : ∀ v, S.infinite (l.dist v) = false → ∃ hops, S.Labelled start src l v hops
  finite : ∀ v, l.done v → S.infinite (l.dist v) = false
  source : l.done src = false → l.dist src = start

variable {S} {start top : L} {src u v x : V} {l : SearchLabels V L}

/-! ## Reading the predecessors back -/

namespace Traces

variable {prev : HashMap V V} {src v : V} {hops : List V}

/-- A predecessor that the trace does not visit can be overwritten. -/
theorem insert {x y : V} (h : Traces prev src v hops) (hx : x ∉ hops) :
    Traces (prev.insert x y) src v hops := by
  induction h with
  | nil => exact .nil
  | @concat u v hops _ hne hp ih =>
    rw [List.mem_append, List.mem_singleton, not_or] at hx
    refine (ih hx.1).concat hne ?_
    rw [HashMap.lookup_insert_eq, if_neg (Ne.symm hx.2), hp]

/-- The walk back collects the hops of the trace. -/
theorem unwind_eq {l : SearchLabels V L} (h : Traces l.prev src v hops) (acc : List V) {fuel : ℕ}
    (hf : hops.length < fuel) : l.unwind src fuel v acc = some (acc ++ hops.reverse) := by
  induction h generalizing acc fuel with
  | nil =>
    obtain ⟨fuel, rfl⟩ := Nat.exists_eq_add_of_lt hf
    simp [SearchLabels.unwind]
  | @concat u v hops _ hne hp ih =>
    obtain ⟨fuel, rfl⟩ := Nat.exists_eq_succ_of_ne_zero (Nat.ne_of_gt (Nat.zero_lt_of_lt hf))
    have hlen : hops.length < fuel := by
      rw [List.length_append, List.length_singleton] at hf
      omega
    rw [SearchLabels.unwind, if_neg hne, hp, Option.bind_some, ih _ hlen]
    simp

end Traces

theorem init_dist : (SearchLabels.init top start src).dist x = if x = src then start else top :=
  Function.update_apply (fun _ => top) src start x

theorem ok_init (htop : S.infinite top = true) (start : L) (src : V) :
    S.Ok start src (.init top start src) where
  labelled v h := by
    rw [init_dist] at h
    split_ifs at h with hv
    · subst hv
      refine ⟨[], ?_, .nil, by simp, by simp⟩
      rw [init_dist, if_pos rfl]
      exact .nil
    · rw [htop] at h
      cases h
  finite v h := by cases h
  source _ := by rw [init_dist, if_pos rfl]

/-- The whole path to a finished node is finished. -/
theorem Ok.exists_labelled (h : S.Ok start src l) (hu : l.done u) :
    ∃ hops, S.Labelled start src l u hops ∧ ∀ y ∈ src :: hops, l.done y := by
  obtain ⟨hops, hl⟩ := h.labelled u (h.finite u hu)
  refine ⟨hops, hl, fun y hy => ?_⟩
  by_cases hyu : y = u
  · rwa [hyu]
  · exact hl.interior y hy hyu

/-- The source is finished first. -/
theorem Ok.source_done (h : S.Ok start src l) (hu : l.done u) : l.done src := by
  obtain ⟨hops, -, hdone⟩ := h.exists_labelled hu
  exact hdone src (List.mem_cons_self ..)

/-! ## Finishing a node -/

theorem finish_done : (l.finish u).done x = true ↔ x = u ∨ l.done x := by
  change Function.update l.done u true x = true ↔ _
  rw [Function.update_apply]
  split_ifs with h <;> simp [h]

theorem finish_done_eq_false : (l.finish u).done x = false ↔ x ≠ u ∧ l.done x = false := by
  rw [Bool.eq_false_iff, Ne, finish_done, not_or, Bool.eq_false_iff]

theorem Ok.finish (h : S.Ok start src l) (hu : S.infinite (l.dist u) = false) :
    S.Ok start src (l.finish u) where
  labelled v hv := by
    obtain ⟨hops, hl⟩ := h.labelled v hv
    exact ⟨hops, hl.walk, hl.traces, hl.nodup,
      fun x hx hxv => finish_done.2 (.inr (hl.interior x hx hxv))⟩
  finite v hv := by
    rcases finish_done.1 hv with rfl | hv
    · exact hu
    · exact h.finite v hv
  source hs := h.source (finish_done_eq_false.1 hs).2

theorem improve_dist (d : L) : (l.improve v u d).dist x = if x = v then d else l.dist x :=
  Function.update_apply l.dist v d x

end Labels

/-- An unfinished node extends the path to a finished one without repetition. -/
theorem nodup_concat_of_done {src v : V} {l : SearchLabels V L} {hops : List V}
    (hnodup : (src :: hops).Nodup) (hdone : ∀ y ∈ src :: hops, l.done y) (hv : l.done v = false) :
    (src :: (hops ++ [v])).Nodup := by
  rw [← List.cons_append]
  refine List.nodup_append.2 ⟨hnodup, List.nodup_singleton v, fun a ha b hb hab => ?_⟩
  rw [List.mem_singleton] at hb
  exact Bool.false_ne_true (hv ▸ hdone v (hb ▸ hab ▸ ha))

/-! ## Labels that grow -/

section Growing

variable [LinearOrder L]

/-- Adding up is monotone and decreases no label of a walk, and from `start` on the infinite labels are
above the finite ones. -/
structure Growing (S : LabelSearch V W L) (top start : L) : Prop where
  start_finite : S.infinite start = false
  top_infinite : S.infinite top = true
  start_le : start ≤ top
  mono : ∀ c d w, c ≤ d → S.add c w ≤ S.add d w
  grow : ∀ src u v w hops c, S.Walk start src u hops c → S.edge u v = some w → c ≤ S.add c w
  high : ∀ c d, start ≤ c → S.infinite c = true → S.infinite d = false → d < c

namespace Growing

variable {S : LabelSearch V W L} {top start : L} {src v : V} (hS : S.Growing top start)

include hS

theorem start_le_walk {hops : List V} {c : L} (h : S.Walk start src v hops c) : start ≤ c := by
  induction h with
  | nil => exact le_rfl
  | @concat u v hops c w hwalk he _ ih => exact ih.trans (hS.grow _ u v w hops c hwalk he)

/-- A label from the start on that is no larger than a finite one is finite. -/
theorem finite_of_le {c d : L} (hc : start ≤ c) (hle : c ≤ d) (hd : S.infinite d = false) :
    S.infinite c = false := by
  refine Bool.eq_false_iff.2 fun hinf => ?_
  exact absurd hle (not_le.2 (hS.high c d hc hinf hd))

/-- **The frontier.** When the labels outside a set are no larger than what walks inside it offer, a
walk that leaves the set has at least the label of some node outside. -/
theorem exists_frontier {l : SearchLabels V L} {order : List V}
    (hmem : ∀ a b w, S.edge a b = some w → b ∈ order) (hsrc : src ∈ order) {P : V → Prop}
    (hs : ¬P src → l.dist src ≤ start)
    (hP : ∀ u v w hops c, P u → ¬P v → S.Walk start src u hops c → S.edge u v = some w →
      S.infinite (S.add c w) = false → l.dist v ≤ S.add c w)
    {hops : List V} {c : L} (hw : S.Walk start src v hops c) (hv : ¬P v) :
    ∃ x ∈ order, ¬P x ∧ l.dist x ≤ c := by
  induction hw with
  | nil => exact ⟨src, hsrc, hv, hs hv⟩
  | @concat u v hops c w hwalk he hfinite ih =>
    by_cases hu : P u
    · exact ⟨v, hmem u v w he, hv, hP u v w hops c hu hv hwalk he hfinite⟩
    · obtain ⟨x, hx, hxd, hle⟩ := ih hu
      exact ⟨x, hx, hxd, hle.trans (hS.grow _ u v w hops c hwalk he)⟩

end Growing

end Growing

/-! ## Choosing the next node -/

section Next

variable [LinearOrder L] {l : SearchLabels V L} {order : List V} {u : V}

theorem next_eq_some (h : l.next order = some u) :
    u ∈ order ∧ l.done u = false ∧ ∀ v ∈ order, l.done v = false → l.dist u ≤ l.dist v := by
  have hu := List.argmin_mem h
  rw [List.mem_filter, Bool.not_eq_true'] at hu
  refine ⟨hu.1, hu.2, fun v hv hd => List.le_of_mem_argmin ?_ h⟩
  exact List.mem_filter.2 ⟨hv, by simp [hd]⟩

theorem next_eq_none (h : l.next order = none) : ∀ v ∈ order, l.done v := by
  intro v hv
  rw [SearchLabels.next, List.argmin_eq_none, List.filter_eq_nil_iff] at h
  simpa using h v hv

end Next

section Rounds

variable [DecidableEq V] [LinearOrder L] {S : LabelSearch V W L} {start top : L} {src dst u v x : V}
  {l : SearchLabels V L} {order : List V}

/-- The label of a finished node bounds the label of every walk to it. -/
def Settled (S : LabelSearch V W L) (start : L) (src : V) (l : SearchLabels V L) : Prop :=
  ∀ u hops c, l.done u → S.Walk start src u hops c → l.dist u ≤ c

/-! ## Relaxing edges -/

@[simp] theorem relax_done : (S.relax u l v).done = l.done := by
  unfold relax
  split
  · rfl
  · split
    · rfl
    · dsimp only
      split <;> rfl

/-- A relaxation changes nothing, or it gives an unfinished node a smaller label. -/
theorem relax_cases (S : LabelSearch V W L) (u : V) (l : SearchLabels V L) (v : V) :
    (S.relax u l v = l ∧
      ∀ w, l.done v = false → S.edge u v = some w → l.dist v ≤ S.add (l.dist u) w) ∨
    ∃ w, l.done v = false ∧ S.edge u v = some w ∧ S.add (l.dist u) w < l.dist v ∧
      S.relax u l v = l.improve v u (S.add (l.dist u) w) := by
  unfold relax
  split_ifs with hv
  · exact .inl ⟨rfl, fun w hf => by simp [hf] at hv⟩
  cases he : S.edge u v with
  | none => exact .inl ⟨rfl, fun w _ hw => by simp at hw⟩
  | some w =>
    dsimp only
    split_ifs with hlt
    · exact .inr ⟨w, by simpa using hv, rfl, hlt, rfl⟩
    · refine .inl ⟨rfl, fun w' _ hw => ?_⟩
      obtain rfl := Option.some.inj hw
      exact not_lt.1 hlt

theorem relax_dist_le : (S.relax u l v).dist x ≤ l.dist x := by
  obtain ⟨h, -⟩ | ⟨w, -, -, hlt, h⟩ := relax_cases S u l v
  · rw [h]
  · rw [h, improve_dist]
    split_ifs with hx
    · rw [hx]
      exact hlt.le
    · exact le_rfl

theorem relax_dist_of_done (hx : l.done x) : (S.relax u l v).dist x = l.dist x := by
  obtain ⟨h, -⟩ | ⟨w, hv, -, -, h⟩ := relax_cases S u l v
  · rw [h]
  · have hne : x ≠ v := by
      rintro rfl
      simp [hv] at hx
    rw [h, improve_dist, if_neg hne]

theorem relax_dist_self_le {w : W} (hv : l.done v = false) (he : S.edge u v = some w) :
    (S.relax u l v).dist v ≤ S.add (l.dist u) w := by
  obtain ⟨h, hle⟩ | ⟨w', -, he', -, h⟩ := relax_cases S u l v
  · rw [h]
    exact hle w hv he
  · obtain rfl := Option.some.inj (he.symm.trans he')
    rw [h, improve_dist, if_pos rfl]

/-- **Relaxation keeps the labels honest.** An unfinished node lies on no other node's path, since
the interior of a path is finished, so redirecting its predecessor spoils no path. -/
theorem Ok.relax (h : S.Ok start src l) (hu : l.done u) (v : V) : S.Ok start src (S.relax u l v) := by
  obtain ⟨he, -⟩ | ⟨w, hv, hw, -, he⟩ := relax_cases S u l v
  · rwa [he]
  have hsrc := h.source_done hu
  have hvs : v ≠ src := by
    rintro rfl
    simp [hv] at hsrc
  rw [he]
  refine ⟨fun x hx => ?_, fun x hx => ?_, fun hs => ?_⟩
  · by_cases hxv : x = v
    · -- the new path goes through `u`, all of whose path is finished
      subst hxv
      obtain ⟨hops, hl, hdone⟩ := h.exists_labelled hu
      have hnew : x ∉ hops := fun hm => Bool.false_ne_true (hv ▸ hdone x (List.mem_cons_of_mem _ hm))
      rw [improve_dist, if_pos rfl] at hx
      refine ⟨hops ++ [x], ?_, ?_, nodup_concat_of_done hl.nodup hdone hv, fun y hy hyx => ?_⟩
      · rw [improve_dist, if_pos rfl]
        exact hl.walk.concat hw hx
      · refine (hl.traces.insert hnew).concat hvs ?_
        exact AList.lookup_insert _
      · rw [← List.cons_append, List.mem_append, List.mem_singleton] at hy
        exact hdone y (hy.resolve_right hyx)
    · rw [improve_dist, if_neg hxv] at hx
      obtain ⟨hops, hl⟩ := h.labelled x hx
      have hvx : v ∉ hops := fun hm => by
        have hd := hl.interior v (List.mem_cons_of_mem _ hm) (Ne.symm hxv)
        exact Bool.false_ne_true (hv ▸ hd)
      refine ⟨hops, ?_, hl.traces.insert hvx, hl.nodup, hl.interior⟩
      rw [improve_dist, if_neg hxv]
      exact hl.walk
  · have hxv : x ≠ v := by
      rintro rfl
      exact Bool.false_ne_true (hv.symm.trans hx)
    rw [improve_dist, if_neg hxv]
    exact h.finite x hx
  · exact absurd (hsrc.symm.trans hs) (by simp)

@[simp] theorem foldl_relax_done (vs : List V) : (vs.foldl (S.relax u) l).done = l.done := by
  induction vs generalizing l with
  | nil => rfl
  | cons v vs ih => rw [List.foldl_cons, ih, relax_done]

theorem foldl_relax_dist_le (vs : List V) : (vs.foldl (S.relax u) l).dist x ≤ l.dist x := by
  induction vs generalizing l with
  | nil => exact le_rfl
  | cons v vs ih => exact ih.trans relax_dist_le

theorem foldl_relax_dist_of_done (vs : List V) (hx : l.done x) :
    (vs.foldl (S.relax u) l).dist x = l.dist x := by
  induction vs generalizing l with
  | nil => rfl
  | cons v vs ih => rw [List.foldl_cons, ih (by rwa [relax_done]), relax_dist_of_done hx]

theorem foldl_relax_offer {vs : List V} {w : W} (hv : v ∈ vs) (hd : l.done v = false) (hu : l.done u)
    (he : S.edge u v = some w) : (vs.foldl (S.relax u) l).dist v ≤ S.add (l.dist u) w := by
  induction vs generalizing l with
  | nil => simp at hv
  | cons y vs ih =>
    rw [List.foldl_cons]
    rcases List.mem_cons.1 hv with rfl | hv
    · exact (foldl_relax_dist_le vs).trans (relax_dist_self_le hd he)
    · rw [← relax_dist_of_done (S := S) (u := u) (v := y) hu]
      exact ih hv (by rwa [relax_done]) (by rwa [relax_done])

theorem Ok.foldl_relax (h : S.Ok start src l) (hu : l.done u) (vs : List V) :
    S.Ok start src (vs.foldl (S.relax u) l) := by
  induction vs generalizing l with
  | nil => exact h
  | cons v vs ih => exact ih (h.relax hu v) (by rwa [relax_done])

omit [LinearOrder L] in
theorem remaining_finish_lt (hu : u ∈ order) (hd : l.done u = false) :
    (l.finish u).remaining order < l.remaining order := by
  have hf : (order.filter fun n => !(l.finish u).done n) =
      (order.filter fun n => !l.done n).filter fun n => n ≠ u := by
    rw [List.filter_filter]
    refine List.filter_congr fun n _ => Bool.eq_iff_iff.2 ?_
    simp [← Bool.not_eq_true, finish_done, -Bool.not_eq_false]
  rw [SearchLabels.remaining, hf]
  refine List.length_filter_lt_length_iff_exists.2 ⟨u, ?_, by simp⟩
  exact List.mem_filter.2 ⟨hu, by simp [hd]⟩

theorem foldl_relax_remaining (vs : List V) :
    (vs.foldl (S.relax u) l).remaining order = l.remaining order := by
  rw [SearchLabels.remaining, foldl_relax_done, SearchLabels.remaining]

/-! ## The search -/

/-- One round keeps the labels relaxed: the edges out of the node it finishes are offered to every
unfinished node. -/
theorem relaxed_round (hmem : ∀ a b w, S.edge a b = some w → b ∈ order) (hr : S.Relaxed l) :
    S.Relaxed (order.foldl (S.relax u) (l.finish u)) := by
  intro a b w ha hb he
  rw [foldl_relax_done] at ha hb
  rw [foldl_relax_dist_of_done order ha]
  rcases finish_done.1 ha with rfl | ha'
  · exact foldl_relax_offer (hmem _ _ _ he) hb ha he
  · exact (foldl_relax_dist_le order).trans (hr a b w ha' (finish_done_eq_false.1 hb).2 he)

/-- One round keeps the labels honest. -/
theorem Ok.round (h : S.Ok start src l) (hu : S.infinite (l.dist u) = false) :
    S.Ok start src (order.foldl (S.relax u) (l.finish u)) :=
  (h.finish hu).foldl_relax (finish_done.2 (.inl rfl)) order

/-- **The search ends.** It visits unfinished nodes of the graph, each at most once, and the number of
nodes bounds the number of its rounds. -/
theorem rounds_search (dst : V) {fuel : ℕ} (hf : l.remaining order ≤ fuel) :
    ∃ visits, S.Rounds order dst l visits (S.search order dst fuel l) ∧ visits.Nodup ∧
      ∀ u ∈ visits, u ∈ order ∧ l.done u = false := by
  induction fuel generalizing l with
  | zero =>
    have hnil := List.length_eq_zero_iff.1 (Nat.le_zero.1 hf)
    refine ⟨[], .exhausted ?_, List.nodup_nil, by simp⟩
    rw [SearchLabels.next, hnil, List.argmin_nil]
  | succ fuel ih =>
    rw [search]
    cases hn : l.next order with
    | none => exact ⟨[], .exhausted hn, List.nodup_nil, by simp⟩
    | some u =>
      obtain ⟨huo, hud, -⟩ := next_eq_some hn
      dsimp only
      split_ifs with hinf hdst
      · exact ⟨[], .infinite hn hinf, List.nodup_nil, by simp⟩
      · subst hdst
        exact ⟨[u], .target hn (by simpa using hinf), List.nodup_singleton u, by simp [huo, hud]⟩
      · have hlt := remaining_finish_lt huo hud
        obtain ⟨visits, hrounds, hnodup, hmem⟩ := ih (l := order.foldl (S.relax u) (l.finish u))
          (by rw [foldl_relax_remaining]; omega)
        -- the nodes that are visited later are not finished yet
        have hlater : ∀ v ∈ visits, v ∈ order ∧ v ≠ u ∧ l.done v = false := by
          intro v hv
          obtain ⟨hvo, hvd⟩ := hmem v hv
          rw [foldl_relax_done] at hvd
          exact ⟨hvo, finish_done_eq_false.1 hvd⟩
        refine ⟨u :: visits, .round hn (by simpa using hinf) hdst hrounds,
          List.nodup_cons.2 ⟨fun hu => (hlater u hu).2.1 rfl, hnodup⟩, fun v hv => ?_⟩
        obtain rfl | hv := List.mem_cons.1 hv
        · exact ⟨huo, hud⟩
        · exact ⟨(hlater v hv).1, (hlater v hv).2.2⟩

/-- **What the search ends with**: honest labels, and a finished target or relaxed labels the least of
which, among the unfinished nodes, is infinite. -/
theorem search_spec (hmem : ∀ a b w, S.edge a b = some w → b ∈ order) {fuel : ℕ}
    (hf : l.remaining order ≤ fuel) (h : S.Ok start src l) (hr : S.Relaxed l) :
    S.Ok start src (S.search order dst fuel l) ∧
      ((S.search order dst fuel l).done dst ∨ S.Relaxed (S.search order dst fuel l) ∧
        S.Stopped order (S.search order dst fuel l)) := by
  induction fuel generalizing l with
  | zero =>
    refine ⟨h, .inr ⟨hr, fun v hv hd => ?_⟩⟩
    have hnil := List.length_eq_zero_iff.1 (Nat.le_zero.1 hf)
    have := List.filter_eq_nil_iff.1 hnil v hv
    simp [show l.done v = false from hd] at this
  | succ fuel ih =>
    rw [search]
    cases hn : l.next order with
    | none =>
      refine ⟨h, .inr ⟨hr, fun v hv hd => ?_⟩⟩
      exact absurd (next_eq_none hn v hv) (Bool.eq_false_iff.1 hd)
    | some u =>
      obtain ⟨huo, hud, hmin⟩ := next_eq_some hn
      dsimp only
      split_ifs with hinf hdst
      · exact ⟨h, .inr ⟨hr, fun v hv hd => ⟨u, huo, hud, hinf, hmin v hv hd⟩⟩⟩
      · exact ⟨h.finish (by simpa using hinf), .inl (finish_done.2 (.inl hdst.symm))⟩
      · have hlt := remaining_finish_lt huo hud
        refine ih ?_ (h.round (by simpa using hinf)) (relaxed_round hmem hr)
        rw [foldl_relax_remaining]
        omega

/-- **Labels of a kind.** If the walks without repetition only offer labels of a kind, a search that
starts with such labels ends with such labels. -/
theorem search_forall_dist {P : L → Prop} (hoffer : ∀ u v w hops c, S.Walk start src u hops c →
      (src :: (hops ++ [v])).Nodup → S.edge u v = some w → P (S.add c w))
    (fuel : ℕ) (h : S.Ok start src l) (hP : ∀ x, P (l.dist x)) :
    ∀ x, P ((S.search order dst fuel l).dist x) := by
  have hrelax : ∀ {l : SearchLabels V L} {u : V} (vs : List V), S.Ok start src l → l.done u →
      (∀ x, P (l.dist x)) → ∀ x, P ((vs.foldl (S.relax u) l).dist x) := by
    intro l u vs h hu hP
    induction vs generalizing l with
    | nil => exact hP
    | cons v vs ih =>
      refine ih (h.relax hu v) (by rwa [relax_done]) fun x => ?_
      obtain ⟨he, -⟩ | ⟨w, hv, hw, -, he⟩ := relax_cases S u l v
      · rw [he]
        exact hP x
      · rw [he, improve_dist]
        split_ifs
        · obtain ⟨hops, hl, hdone⟩ := h.exists_labelled hu
          exact hoffer u v w hops _ hl.walk (nodup_concat_of_done hl.nodup hdone hv) hw
        · exact hP x
  induction fuel generalizing l with
  | zero => exact hP
  | succ fuel ih =>
    rw [search]
    cases hn : l.next order with
    | none => exact hP
    | some u =>
      dsimp only
      split_ifs with hinf
      · exact hP
      · exact hP
      · exact ih (h.round (by simpa using hinf))
          (hrelax order (h.finish (by simpa using hinf)) (finish_done.2 (.inl rfl)) hP)

/-! ## What can be reached -/

/-- When an infinite label is above every finite one and no edge out of a finished node overflows,
the finished nodes of a search that has stopped are closed under edges. -/
theorem done_of_reachable (hmem : ∀ a b w, S.edge a b = some w → b ∈ order) (hsrc : src ∈ order)
    (hstart : S.infinite start = false) (hok : S.Ok start src l) (hr : S.Relaxed l)
    (hstop : S.Stopped order l)
    (hhigh : ∀ x c, S.infinite (l.dist x) = true → S.infinite c = false → c < l.dist x)
    (hfinite : ∀ u v w hops, S.Walk start src u hops (l.dist u) → (src :: (hops ++ [v])).Nodup →
      S.edge u v = some w → S.infinite (S.add (l.dist u) w) = false)
    (h : Relation.ReflTransGen (fun a b => (S.edge a b).isSome) src v) : l.done v := by
  have hbelow : ∀ x c, x ∈ order → l.done x = false → S.infinite c = false → ¬l.dist x ≤ c := by
    intro x c hx hd hc hle
    obtain ⟨y, -, -, hinf, hyx⟩ := hstop x hx hd
    exact absurd (hyx.trans hle) (not_le.2 (hhigh y c hinf hc))
  induction h with
  | refl =>
    by_contra hn
    exact hbelow src start hsrc (Bool.eq_false_iff.2 hn) hstart (hok.source (Bool.eq_false_iff.2 hn)).le
  | @tail b c _ he ih =>
    by_contra hn
    obtain ⟨w, he⟩ := Option.isSome_iff_exists.1 he
    obtain ⟨hops, hl, hdone⟩ := hok.exists_labelled ih
    have hc := Bool.eq_false_iff.2 hn
    exact hbelow c _ (hmem b c w he) hc (hfinite b c w hops hl.walk
      (nodup_concat_of_done hl.nodup hdone hc) he) (hr b c w ih hc he)

/-! ## The path -/

theorem relaxed_init (S : LabelSearch V W L) (top start : L) (src : V) :
    S.Relaxed (.init top start src) :=
  fun _ _ _ hu => absurd hu Bool.false_ne_true

section Path

variable (htop : S.infinite top = true) (hmem : ∀ a b w, S.edge a b = some w → b ∈ order)

include htop hmem

/-- The labels of a path, whatever the weights. -/
theorem final_spec (start : L) (src dst : V) :
    S.Ok start src (S.final top start order src dst) ∧
      ((S.final top start order src dst).done dst ∨ S.Relaxed (S.final top start order src dst) ∧
        S.Stopped order (S.final top start order src dst)) :=
  search_spec hmem (List.length_filter_le ..) (ok_init htop start src) (relaxed_init S top start src)

/-- The path read back from the predecessors is the labelled one. -/
theorem path_eq_some_of_dist (hne : src ≠ dst)
    (hd : S.infinite ((S.final top start order src dst).dist dst) = false) :
    ∃ hops, S.path top start order src dst = some hops ∧
      S.Labelled start src (S.final top start order src dst) dst hops := by
  obtain ⟨hops, hl⟩ := (final_spec htop hmem start src dst).1.labelled dst hd
  refine ⟨hops, ?_, hl⟩
  have hsub : hops ⊆ order := fun x hx => by
    obtain ⟨a, w, he⟩ := hl.walk.exists_edge_of_mem hx
    exact hmem a x w he
  have hlen : hops.length ≤ order.length :=
    (List.subperm_of_subset (List.nodup_cons.1 hl.nodup).2 hsub).length_le
  have hun := hl.traces.unwind_eq [] (Nat.lt_succ_of_le hlen)
  rw [List.nil_append] at hun
  simp only [path, if_neg hne, hd, Bool.false_eq_true, if_false, hun, Option.map_some,
    List.reverse_reverse]

omit hmem htop in
theorem path_eq_none_of_dist (hne : src ≠ dst)
    (hd : S.infinite ((S.final top start order src dst).dist dst) = true) :
    S.path top start order src dst = none := by
  simp only [path, if_neg hne, hd, if_true]

/-- A path that is found is a walk without repetition. -/
theorem path_cases (start : L) (src dst : V) :
    S.path top start order src dst = none ∨
      ∃ hops c, S.path top start order src dst = some hops ∧ S.Walk start src dst hops c ∧
        (src :: hops).Nodup := by
  by_cases hne : src = dst
  · subst hne
    exact .inr ⟨[], start, if_pos rfl, .nil, by simp⟩
  · cases hd : S.infinite ((S.final top start order src dst).dist dst) with
    | true => exact .inl (path_eq_none_of_dist hne hd)
    | false =>
      obtain ⟨hops, hp, hl⟩ := path_eq_some_of_dist htop hmem hne hd
      exact .inr ⟨hops, _, hp, hl.walk, hl.nodup⟩

/-- A path is found once the target is finished. -/
theorem isSome_path_of_done (h : src ≠ dst → (S.final top start order src dst).done dst) :
    (S.path top start order src dst).isSome := by
  by_cases hne : src = dst
  · simp [path, hne]
  · have hd := (final_spec htop hmem start src dst).1.finite dst (h hne)
    obtain ⟨hops, hp, -⟩ := path_eq_some_of_dist htop hmem hne hd
    simp [hp]

end Path

/-! ## Least labels -/

section Least

variable (hS : S.Growing top start)

include hS

/-- No label of a search is below that of the source. -/
theorem Growing.start_le_final (order : List V) (src dst x : V) :
    start ≤ (S.final top start order src dst).dist x := by
  refine search_forall_dist (P := (start ≤ ·)) (fun u v w hops c hwalk _ he => ?_) _
    (ok_init hS.top_infinite start src) (fun x => ?_) x
  · exact (hS.start_le_walk hwalk).trans (hS.grow _ u v w hops c hwalk he)
  · rw [init_dist]
    split_ifs
    · exact le_rfl
    · exact hS.start_le

variable (hmem : ∀ a b w, S.edge a b = some w → b ∈ order) (hsrc : src ∈ order)

include hmem hsrc

/-- A walk to an unfinished node has at least the label of some unfinished node. -/
theorem Growing.exists_unfinished_le (h : S.Ok start src l) (hr : S.Relaxed l)
    (hs : S.Settled start src l) {hops : List V} {c : L} (hw : S.Walk start src v hops c)
    (hv : l.done v = false) : ∃ x ∈ order, l.done x = false ∧ l.dist x ≤ c := by
  obtain ⟨x, hx, hxd, hle⟩ := hS.exists_frontier hmem hsrc (P := fun x => l.done x)
    (fun hd => (h.source (Bool.eq_false_iff.2 hd)).le)
    (fun u v w hops c hu hv hwalk he _ => (hr u v w hu (Bool.eq_false_iff.2 hv) he).trans
      (hS.mono _ _ w (hs u hops c hu hwalk))) hw (Bool.eq_false_iff.1 hv)
  exact ⟨x, hx, Bool.eq_false_iff.2 hxd, hle⟩

/-- The node with the least label is settled. -/
theorem Growing.settled_finish (h : S.Ok start src l) (hr : S.Relaxed l) (hs : S.Settled start src l)
    (hu : l.next order = some u) : S.Settled start src (l.finish u) := by
  intro x hops c hx hwalk
  obtain ⟨-, hud, hmin⟩ := next_eq_some hu
  rcases finish_done.1 hx with rfl | hx
  · obtain ⟨v, hv, hvd, hle⟩ := hS.exists_unfinished_le hmem hsrc h hr hs hwalk hud
    exact (hmin v hv hvd).trans hle
  · exact hs x hops c hx hwalk

/-- **The search settles what it finishes.** -/
theorem Growing.search_settled (fuel : ℕ) (h : S.Ok start src l) (hr : S.Relaxed l)
    (hs : S.Settled start src l) : S.Settled start src (S.search order dst fuel l) := by
  induction fuel generalizing l with
  | zero => exact hs
  | succ fuel ih =>
    rw [search]
    cases hn : l.next order with
    | none => exact hs
    | some u =>
      have hfin := hS.settled_finish hmem hsrc h hr hs hn
      dsimp only
      split_ifs with hinf
      · exact hs
      · exact hfin
      · refine ih (h.round (by simpa using hinf)) (relaxed_round hmem hr) fun x hops c hx hwalk => ?_
        rw [foldl_relax_done] at hx
        rw [foldl_relax_dist_of_done order hx]
        exact hfin x hops c hx hwalk

theorem Growing.final_settled (dst : V) : S.Settled start src (S.final top start order src dst) :=
  hS.search_settled hmem hsrc _ (ok_init hS.top_infinite start src) (relaxed_init S top start src)
    fun _ _ _ hu => absurd hu Bool.false_ne_true

/-- The search finishes a target that a walk leads to. -/
theorem Growing.done_of_walk {hops : List V} {c : L} (hw : S.Walk start src dst hops c) :
    (S.final top start order src dst).done dst := by
  obtain ⟨hok, hdone | ⟨hr, hstop⟩⟩ := final_spec hS.top_infinite hmem start src dst
  · exact hdone
  by_contra hv
  obtain ⟨x, hx, hxd, hle⟩ := hS.exists_unfinished_le hmem hsrc hok hr
    (hS.final_settled hmem hsrc dst) hw (Bool.eq_false_iff.2 hv)
  obtain ⟨y, -, -, hinf, hyx⟩ := hstop x hx hxd
  have hlow := hS.start_le_final order src dst y
  exact absurd (hyx.trans hle) (not_le.2 (hS.high _ c hlow hinf (hw.infinite_eq_false hS.start_finite)))

/-- **A path is found exactly when there is a walk.** -/
theorem Growing.isSome_path_iff (dst : V) :
    (S.path top start order src dst).isSome ↔ ∃ hops c, S.Walk start src dst hops c := by
  constructor
  · intro h
    obtain hnone | ⟨hops, c, -, hw, -⟩ := path_cases hS.top_infinite hmem start src dst
    · simp [hnone] at h
    · exact ⟨hops, c, hw⟩
  · rintro ⟨hops, c, hw⟩
    exact isSome_path_of_done hS.top_infinite hmem fun _ => hS.done_of_walk hmem hsrc hw

end Least

end Rounds

end LabelSearch

end OCF
