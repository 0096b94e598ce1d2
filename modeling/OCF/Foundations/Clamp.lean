import Mathlib.Algebra.BigOperators.Group.List.Basic
import Mathlib.Algebra.Order.Group.MinMax
import Mathlib.Data.List.Induction

/-!
# Sums that are kept within bounds

A counter is moved by a sequence of amounts and put back between two bounds after each of them.
Such a walk does not depend on where it started once it has met both bounds, so it is not the sum
of the amounts put between the bounds once. It is the sum put between two other bounds, which lie
between the given ones and depend on the amounts alone (`exists_walk_eq`).

* `clampTo lo hi x` is `x`, raised to `lo` and then lowered to `hi`. The bounds may be the wrong way
  round; the upper one wins.
* `walk lo hi x ds` moves `x` by the amounts of `ds`.
-/

namespace OCF

section Order

variable {α : Type*} [LinearOrder α] {lo hi x y : α}

def clampTo (lo hi x : α) : α := min (max x lo) hi

theorem clampTo_le : clampTo lo hi x ≤ hi := min_le_right ..

theorem min_le_clampTo : min lo hi ≤ clampTo lo hi x := min_le_min_right hi (le_max_right x lo)

theorem clampTo_mono (h : x ≤ y) : clampTo lo hi x ≤ clampTo lo hi y :=
  min_le_min_right hi (max_le_max_right lo h)

theorem clampTo_of_mem (hlo : lo ≤ x) (hhi : x ≤ hi) : clampTo lo hi x = x := by
  rw [clampTo, max_eq_left hlo, min_eq_left hhi]

/-- Putting between bounds twice is putting between the bounds that were put between bounds. -/
theorem clampTo_clampTo (lo' hi' : α) : clampTo lo hi (clampTo lo' hi' x) =
    clampTo (clampTo lo hi lo') (clampTo lo hi hi') x := by
  have hmono : Monotone (clampTo lo hi) := fun _ _ => clampTo_mono
  have hpush : clampTo lo hi (clampTo lo' hi' x) =
      min (max (clampTo lo hi x) (clampTo lo hi lo')) (clampTo lo hi hi') := by
    rw [← hmono.map_max, ← hmono.map_min]
    rfl
  rw [hpush]
  simp only [clampTo]
  grind

end Order

section Walk

variable {G : Type*} [AddCommGroup G] [LinearOrder G] {lo hi x : G}

/-- Move by each amount in turn. -/
def walk (lo hi x : G) (ds : List G) : G := ds.foldl (fun x d => clampTo lo hi (x + d)) x

theorem walk_cons (d : G) (ds : List G) :
    walk lo hi x (d :: ds) = walk lo hi (clampTo lo hi (x + d)) ds := rfl

theorem walk_concat (ds : List G) (d : G) :
    walk lo hi x (ds ++ [d]) = clampTo lo hi (walk lo hi x ds + d) := by
  rw [walk, List.foldl_append]
  rfl

variable [IsOrderedAddMonoid G]

theorem clampTo_add (d : G) : clampTo lo hi x + d = clampTo (lo + d) (hi + d) (x + d) := by
  rw [clampTo, clampTo, ← min_add_add_right, ← max_add_add_right]

/-- One more step of a walk that is a sum put between two bounds. -/
theorem clampTo_clampTo_add (lo' hi' d : G) : clampTo lo hi (clampTo lo' hi' x + d) =
    clampTo (clampTo lo hi (lo' + d)) (clampTo lo hi (hi' + d)) (x + d) := by
  rw [clampTo_add, clampTo_clampTo]

/-- **A walk is one sum put between two bounds**, the same for every start. -/
theorem exists_walk_eq (lo hi d : G) (ds : List G) :
    ∃ lo' hi', min lo hi ≤ lo' ∧ lo' ≤ hi' ∧ hi' ≤ hi ∧
      ∀ x, walk lo hi x (d :: ds) = clampTo lo' hi' (x + (d :: ds).sum) := by
  -- the amounts are taken from the end: the last one moves the bounds of the walk before it
  induction ds using List.reverseRecOn with
  | nil =>
    refine ⟨min lo hi, hi, le_rfl, min_le_right .., le_rfl, fun x => ?_⟩
    rw [walk_cons, List.sum_singleton]
    simp only [walk, List.foldl_nil, clampTo]
    grind
  | append_singleton ds e ih =>
    obtain ⟨lo', hi', -, hle, -, hwalk⟩ := ih
    refine ⟨clampTo lo hi (lo' + e), clampTo lo hi (hi' + e), min_le_clampTo,
      clampTo_mono (add_le_add_left hle e), clampTo_le, fun x => ?_⟩
    rw [← List.cons_append, walk_concat, hwalk, clampTo_clampTo_add, List.sum_append,
      List.sum_singleton, add_assoc]

/-- A walk by the same amount from within the bounds. -/
theorem walk_replicate (hlo : lo ≤ x) (hhi : x ≤ hi) (d : G) (n : ℕ) :
    walk lo hi x (List.replicate n d) = clampTo lo hi (x + n • d) := by
  induction n with
  | zero => simp [walk, clampTo_of_mem hlo hhi]
  | succ n ih =>
    have hle : lo ≤ hi := hlo.trans hhi
    rw [List.replicate_succ', walk_concat, ih, clampTo_clampTo_add, succ_nsmul, ← add_assoc]
    -- the bounds have moved to the side from which the walk never comes
    obtain hd | hd := le_total 0 d
    · have hmove : lo + d ≤ x + n • d + d :=
        add_le_add_left (hlo.trans (le_add_of_nonneg_right (nsmul_nonneg hd n))) d
      have hlo' : lo ≤ lo + d := le_add_of_nonneg_right hd
      have hhi' : hi ≤ hi + d := le_add_of_nonneg_right hd
      simp only [clampTo]
      grind
    · have hmove : x + n • d + d ≤ hi + d :=
        add_le_add_left ((add_le_of_nonpos_right (nsmul_nonpos hd n)).trans hhi) d
      have hlo' : lo + d ≤ lo := add_le_of_nonpos_right hd
      have hhi' : hi + d ≤ hi := add_le_of_nonpos_right hd
      simp only [clampTo]
      grind

end Walk

end OCF
