import Mathlib.Algebra.Order.Monoid.Defs
import Mathlib.Data.List.Induction
import Mathlib.Logic.Relation

/-!
# Walks in a weighted graph

A directed weighted graph is a partial cost function `w : V → V → Option C`; there is an edge where
it is defined. A walk is the list of its vertices after the first one.

* `walkCost` and `walkEnd` compute the cost and the last vertex of a walk.
* `IsWalk w s t hops c` says that `hops` leads from `s` to `t` at cost `c`; walks are taken apart at
  their first edge (`isWalk_cons`) or their last one (`isWalk_append_singleton`).
* `IsWalk.edges_through` gives the two edges of a walk at a vertex inside it.
-/

namespace OCF

variable {V C : Type*}

/-- The last vertex of the walk from `u` through `hops`. -/
def walkEnd : V → List V → V
  | u, [] => u
  | _, v :: hops => walkEnd v hops

/-- The cost of the walk from `u` through `hops`; `none` if two neighbours have no edge. -/
def walkCost [AddMonoid C] (w : V → V → Option C) : V → List V → Option C
  | _, [] => some 0
  | u, v :: hops => (w u v).bind fun c => (walkCost w v hops).map (c + ·)

/-- The list `hops` is a walk from `s` to `t` of cost `c`. -/
def IsWalk [AddMonoid C] (w : V → V → Option C) (s t : V) (hops : List V) (c : C) : Prop :=
  walkEnd s hops = t ∧ walkCost w s hops = some c

theorem walkEnd_append_singleton (s v : V) (hops : List V) : walkEnd s (hops ++ [v]) = v := by
  induction hops generalizing s with
  | nil => rfl
  | cons u hops ih => exact ih u

theorem dropLast_append_walkEnd (s : V) {hops : List V} (h : hops ≠ []) :
    hops.dropLast ++ [walkEnd s hops] = hops := by
  induction hops using List.reverseRecOn with
  | nil => exact absurd rfl h
  | append_singleton hops v => rw [walkEnd_append_singleton, List.dropLast_concat]

theorem walkEnd_mem (s : V) (hops : List V) : walkEnd s hops ∈ s :: hops := by
  induction hops generalizing s with
  | nil => exact List.mem_singleton_self s
  | cons v hops ih => exact List.mem_cons_of_mem s (ih v)

/-- A vertex inside a walk has a vertex after it. -/
theorem exists_append_of_mem_dropLast {v : V} {hops : List V} (h : v ∈ hops.dropLast) :
    ∃ l v' r, hops = l ++ v :: v' :: r := by
  induction hops with
  | nil => simp at h
  | cons a hops ih =>
    cases hops with
    | nil => simp at h
    | cons b hops =>
      rcases List.mem_cons.1 h with rfl | h
      · exact ⟨[], b, hops, rfl⟩
      · obtain ⟨l, v', r, heq⟩ := ih h
        exact ⟨a :: l, v', r, congrArg (a :: ·) heq⟩

section AddMonoid

variable [AddMonoid C] {w : V → V → Option C} {s t : V} {hops : List V} {c : C}

theorem walkCost_append_singleton (s v : V) (hops : List V) :
    walkCost w s (hops ++ [v]) =
      (walkCost w s hops).bind fun c => (w (walkEnd s hops) v).map (c + ·) := by
  induction hops generalizing s with
  | nil =>
    simp only [List.nil_append, walkCost, walkEnd, Option.map_some, add_zero, Option.bind_some,
      zero_add]
    cases w s v <;> rfl
  | cons u hops ih =>
    rw [List.cons_append, walkCost, ih, walkCost, walkEnd]
    cases w s u <;> cases walkCost w u hops <;> cases w (walkEnd u hops) v <;>
      simp [add_assoc]

@[simp] theorem isWalk_nil : IsWalk w s t [] c ↔ s = t ∧ c = 0 := by
  simp only [IsWalk, walkEnd, walkCost, Option.some.injEq, eq_comm]

/-- The first edge of a walk. -/
theorem isWalk_cons {v : V} :
    IsWalk w s t (v :: hops) c ↔
      ∃ c₁ c₂, w s v = some c₁ ∧ IsWalk w v t hops c₂ ∧ c = c₁ + c₂ := by
  simp only [IsWalk, walkEnd, walkCost, Option.bind_eq_some_iff, Option.map_eq_some_iff]
  constructor
  · rintro ⟨hend, c₁, h₁, c₂, h₂, rfl⟩
    exact ⟨c₁, c₂, h₁, ⟨hend, h₂⟩, rfl⟩
  · rintro ⟨c₁, c₂, h₁, ⟨hend, h₂⟩, rfl⟩
    exact ⟨hend, c₁, h₁, c₂, h₂, rfl⟩

/-- The last edge of a walk. -/
theorem isWalk_append_singleton {v : V} :
    IsWalk w s t (hops ++ [v]) c ↔
      v = t ∧ ∃ u c₁ c₂, IsWalk w s u hops c₁ ∧ w u v = some c₂ ∧ c = c₁ + c₂ := by
  rw [IsWalk, walkEnd_append_singleton, walkCost_append_singleton]
  refine and_congr_right fun _ => ?_
  simp only [Option.bind_eq_some_iff, Option.map_eq_some_iff, IsWalk]
  constructor
  · rintro ⟨c₁, h₁, c₂, h₂, rfl⟩
    exact ⟨_, c₁, c₂, ⟨rfl, h₁⟩, h₂, rfl⟩
  · rintro ⟨u, c₁, c₂, ⟨rfl, h₁⟩, h₂, rfl⟩
    exact ⟨c₁, h₁, c₂, h₂, rfl⟩

theorem IsWalk.concat {u v : V} {c₂ : C} (h : IsWalk w s u hops c) (he : w u v = some c₂) :
    IsWalk w s v (hops ++ [v]) (c + c₂) :=
  isWalk_append_singleton.2 ⟨rfl, u, c, c₂, h, he, rfl⟩

/-- Every hop of a walk is the target of an edge. -/
theorem IsWalk.exists_edge_of_mem {v : V} (h : IsWalk w s t hops c) (hv : v ∈ hops) :
    ∃ u d, w u v = some d := by
  induction hops using List.reverseRecOn generalizing t c with
  | nil => simp at hv
  | append_singleton hops x ih =>
    obtain ⟨-, u, c₁, c₂, hu, he, -⟩ := isWalk_append_singleton.1 h
    rcases List.mem_append.1 hv with hv | hv
    · exact ih hu hv
    · obtain rfl := List.mem_singleton.1 hv
      exact ⟨u, c₂, he⟩

/-- The edges of a walk into and out of a vertex inside it. -/
theorem IsWalk.edges_through {v v' : V} {l r : List V} (h : IsWalk w s t (l ++ v :: v' :: r) c) :
    (w (walkEnd s l) v).isSome ∧ (w v v').isSome := by
  induction l generalizing s c with
  | nil =>
    obtain ⟨c₁, _, h₁, h, -⟩ := isWalk_cons.1 h
    obtain ⟨c₂, _, h₂, -, -⟩ := isWalk_cons.1 h
    exact ⟨Option.isSome_of_mem h₁, Option.isSome_of_mem h₂⟩
  | cons a l ih =>
    obtain ⟨_, _, -, h, -⟩ := isWalk_cons.1 h
    exact ih h

/-- Walks lead exactly to the vertices reachable over edges. -/
theorem exists_isWalk_iff :
    (∃ hops c, IsWalk w s t hops c) ↔ Relation.ReflTransGen (fun u v => (w u v).isSome) s t := by
  constructor
  · rintro ⟨hops, c, h⟩
    induction hops using List.reverseRecOn generalizing t c with
    | nil =>
      obtain ⟨rfl, -⟩ := isWalk_nil.1 h
      exact .refl
    | append_singleton hops v ih =>
      obtain ⟨rfl, u, c₁, c₂, hu, he, rfl⟩ := isWalk_append_singleton.1 h
      exact (ih c₁ hu).tail (Option.isSome_of_mem he)
  · intro h
    induction h with
    | refl => exact ⟨[], 0, isWalk_nil.2 ⟨rfl, rfl⟩⟩
    | tail _ he ih =>
      obtain ⟨hops, c, hw⟩ := ih
      obtain ⟨c₂, he⟩ := Option.isSome_iff_exists.1 he
      exact ⟨_, _, hw.concat he⟩

end AddMonoid

section Nonneg

variable [AddCommMonoid C] [PartialOrder C] [IsOrderedAddMonoid C] {w : V → V → Option C}
  {s t : V} {hops : List V} {c : C}

/-- Walks over non-negative edges do not cost less than nothing. -/
theorem IsWalk.nonneg (hw : ∀ u v c, w u v = some c → 0 ≤ c) (h : IsWalk w s t hops c) :
    0 ≤ c := by
  induction hops using List.reverseRecOn generalizing t c with
  | nil => exact (isWalk_nil.1 h).2.ge
  | append_singleton hops v ih =>
    obtain ⟨-, u, c₁, c₂, hu, he, rfl⟩ := isWalk_append_singleton.1 h
    exact add_nonneg (ih hu) (hw u v c₂ he)

end Nonneg

end OCF
