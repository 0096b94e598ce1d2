import Std.Data.ExtTreeMap.Lemmas
import Std.Data.ExtTreeSet.Lemmas
import Mathlib.Data.Nat.Notation
import Mathlib.Data.List.Basic

/-!
# Ordered maps and sets

Rust's `BTreeMap` and `BTreeSet` are the extensional tree maps and sets of the standard library:
equality is equality of contents, and `toList` lists them in key order. The lemmas say what a write
does with equality of keys in place of comparison, and what a loop that writes or removes many
entries leaves behind.
-/

namespace OCF

open Std

/-- An ordered map. -/
abbrev BTreeMap (K V : Type*) [Ord K] := ExtTreeMap K V compare

/-- An ordered set. -/
abbrev BTreeSet (K : Type*) [Ord K] := ExtTreeSet K compare

namespace BTreeMap

variable {K V : Type*} [Ord K] [TransOrd K] [LawfulEqOrd K]

theorem nodup_keys_toList (m : BTreeMap K V) : (m.toList.map Prod.fst).Nodup := by
  rw [List.Nodup, List.pairwise_map]
  refine m.distinct_keys_toList.imp fun h he => h ?_
  rw [he]
  exact ReflCmp.compare_self

/-- A list in strict key order with the entries of a map is the list of its entries. -/
theorem toList_eq {m : BTreeMap K V} {l : List (K × V)}
    (hl : l.Pairwise fun a b => compare a.1 b.1 = .lt)
    (h : ∀ k v, m[k]? = some v ↔ (k, v) ∈ l) : m.toList = l := by
  have hnodup : ∀ l : List (K × V), (l.Pairwise fun a b => compare a.1 b.1 = .lt) → l.Nodup :=
    fun l hl => hl.imp fun {a b} hlt he => by
      have heq : compare b.1 b.1 = .eq := ReflCmp.compare_self
      rw [he, heq] at hlt
      cases hlt
  refine List.Perm.eq_of_pairwise (fun a b _ _ hab hba => ?_) m.ordered_keys_toList hl
    ((List.perm_ext_iff_of_nodup (hnodup _ m.ordered_keys_toList) (hnodup _ hl)).2 fun e => ?_)
  · have hgt : compare a.1 b.1 = .gt := OrientedCmp.gt_of_lt hba
    rw [hab] at hgt
    cases hgt
  · rw [← h, ExtTreeMap.mem_toList_iff_getElem?_eq_some]

variable [DecidableEq K]

theorem getElem?_insert_eq (m : BTreeMap K V) (k x : K) (v : V) :
    (m.insert k v)[x]? = if x = k then some v else m[x]? := by
  rw [ExtTreeMap.getElem?_insert]
  simp only [Std.compare_eq_iff_eq, eq_comm (a := x)]

theorem getElem?_erase_eq (m : BTreeMap K V) (k x : K) :
    (m.erase k)[x]? = if x = k then none else m[x]? := by
  rw [ExtTreeMap.getElem?_erase]
  simp only [Std.compare_eq_iff_eq, eq_comm (a := x)]

/-- Removing many keys. -/
theorem getElem?_foldl_erase (ks : List K) (m : BTreeMap K V) (x : K) :
    (ks.foldl (fun m k => m.erase k) m)[x]? = if x ∈ ks then none else m[x]? := by
  induction ks generalizing m with
  | nil => simp
  | cons k ks ih =>
    rw [List.foldl_cons, ih, getElem?_erase_eq]
    by_cases hx : x ∈ ks <;> by_cases hk : x = k <;> simp [hx, hk]

/-- Writing many entries that are all entries of one function. -/
theorem getElem?_foldl_insert {f : K → Option V} (es : List (K × V)) (m : BTreeMap K V) (x : K)
    (hf : ∀ e ∈ es, f e.1 = some e.2) :
    (es.foldl (fun m e => m.insert e.1 e.2) m)[x]? =
      if x ∈ es.map Prod.fst then f x else m[x]? := by
  induction es generalizing m with
  | nil => simp
  | cons e es ih =>
    rw [List.foldl_cons, ih _ fun e' he' => hf e' (List.mem_cons_of_mem _ he'), getElem?_insert_eq]
    have he := hf e (List.mem_cons_self ..)
    rw [List.map_cons]
    by_cases hx : x ∈ es.map Prod.fst
    · rw [if_pos hx, if_pos (List.mem_cons_of_mem _ hx)]
    · by_cases hk : x = e.1
      · rw [if_neg hx, if_pos hk, if_pos (hk ▸ List.mem_cons_self ..), hk, he]
      · have hne : x ∉ e.1 :: es.map Prod.fst := List.not_mem_cons_of_ne_of_not_mem hk hx
        rw [if_neg hx, if_neg hk, if_neg hne]

/-- Which keys are there after writing many entries. -/
theorem isSome_foldl_insert (es : List (K × V)) (m : BTreeMap K V) (x : K) :
    (es.foldl (fun m e => m.insert e.1 e.2) m)[x]?.isSome ↔
      x ∈ es.map Prod.fst ∨ m[x]?.isSome := by
  induction es generalizing m with
  | nil => simp
  | cons e es ih =>
    rw [List.foldl_cons, ih, getElem?_insert_eq]
    by_cases hk : x = e.1 <;> simp [hk]

/-- Collecting a list without repeated keys. -/
theorem getElem?_ofList {es : List (K × V)} (hes : (es.map Prod.fst).Nodup) {x : K} {v : V} :
    (ExtTreeMap.ofList es compare)[x]? = some v ↔ (x, v) ∈ es := by
  have hd : es.Pairwise fun a b => ¬compare a.1 b.1 = .eq := by
    rw [List.Nodup, List.pairwise_map] at hes
    exact hes.imp fun h he => h (Std.compare_eq_iff_eq.1 he)
  constructor
  · intro h
    by_cases hx : x ∈ es.map Prod.fst
    · obtain ⟨⟨x, v'⟩, he, rfl⟩ := List.mem_map.1 hx
      have hv := ExtTreeMap.getElem?_ofList_of_mem ReflCmp.compare_self hd he
      rw [h] at hv
      rwa [Option.some.inj hv]
    · rw [ExtTreeMap.getElem?_ofList_of_contains_eq_false (by simpa using hx)] at h
      simp at h
  · exact fun h => ExtTreeMap.getElem?_ofList_of_mem ReflCmp.compare_self hd h

end BTreeMap

/-! ## Ranges -/

/-- One end of a range of keys. -/
inductive RangeBound (K : Type*)
  | included (k : K)
  | excluded (k : K)
  | unbounded

namespace RangeBound

variable {K : Type*} [LT K] [LE K] [DecidableLT K] [DecidableLE K]

/-- The key is not below a range that starts here. -/
def admitsAbove : RangeBound K → K → Bool
  | included a, k => a ≤ k
  | excluded a, k => a < k
  | unbounded, _ => true

/-- The key is not above a range that ends here. -/
def admitsBelow : RangeBound K → K → Bool
  | included b, k => k ≤ b
  | excluded b, k => k < b
  | unbounded, _ => true

/-- Looking up a range from one bound to another panics: it ends before it starts, or it is empty
with the same key left out at both ends. -/
def inverted : RangeBound K → RangeBound K → Bool
  | included a, included b | included a, excluded b | excluded a, included b => b < a
  | excluded a, excluded b => b ≤ a
  | _, _ => false

end RangeBound

namespace BTreeMap

variable {K V : Type*} [Ord K] [TransOrd K] [LT K] [LE K] [DecidableLT K] [DecidableLE K]

/-- The entries in a range, in key order; `none` for the panic. -/
def range (m : BTreeMap K V) (lo hi : RangeBound K) : Option (List (K × V)) :=
  if lo.inverted hi then none
  else some (m.toList.filter fun e => lo.admitsAbove e.1 && hi.admitsBelow e.1)

end BTreeMap

namespace BTreeSet

variable {K : Type*} [Ord K] [TransOrd K] [LawfulEqOrd K]

theorem mem_insert_iff {s : BTreeSet K} {k x : K} : x ∈ s.insert k ↔ x = k ∨ x ∈ s := by
  rw [ExtTreeSet.mem_insert]
  simp only [Std.compare_eq_iff_eq, eq_comm (a := x)]

/-- Inserting many elements. -/
theorem mem_foldl_insert {α : Type*} {f : α → K} (l : List α) (s : BTreeSet K) {x : K} :
    x ∈ l.foldl (fun s a => s.insert (f a)) s ↔ x ∈ l.map f ∨ x ∈ s := by
  induction l generalizing s with
  | nil => simp
  | cons a l ih =>
    rw [List.foldl_cons, ih, mem_insert_iff, List.map_cons, List.mem_cons]
    tauto

end BTreeSet

end OCF
