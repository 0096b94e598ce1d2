import OCF.Foundations.BTreeMap
import OCF.Foundations.Text
import Mathlib.Data.List.Nodup

/-!
# The durable key/value store

One ordered map holds every collection: the key `key` of `collection` is stored under
`collection`, U+001F, `key`, in the database as in memory. A collection is listed by stripping its
leading string off the stored keys. What a value is does not matter here.

`Under collections x` says that the stored key `x` lies in one of the named collections; a
collection name may itself hold U+001F, so a stored key can lie in several of them.
-/

namespace OCF.Store

open Std

/-- A durable, namespaced key/value store. -/
structure StateStore (V : Type*) where
  data : BTreeMap String V

/-- What stands before the keys of a collection. -/
def scope (collection : String) : String := collection ++ "\x1f"

/-- The stored form of a key. -/
def composite (collection key : String) : String := scope collection ++ key

/-- A collection name without the separator. -/
def Plain (collection : String) : Prop := '\x1f' ∉ collection.toList

instance (collection : String) : Decidable (Plain collection) :=
  inferInstanceAs (Decidable ('\x1f' ∉ collection.toList))

/-- A list is cut in one way at the first occurrence of a separator. -/
theorem append_separator_inj {α : Type*} {x : α} {a b c d : List α} (ha : x ∉ a) (hb : x ∉ b)
    (h : a ++ x :: c = b ++ x :: d) : a = b ∧ c = d := by
  induction a generalizing b with
  | nil =>
    cases b with
    | nil => exact ⟨rfl, (List.cons.inj h).2⟩
    | cons y b => exact absurd (List.mem_cons.2 (.inl (List.cons.inj h).1)) hb
  | cons z a ih =>
    cases b with
    | nil => exact absurd (List.mem_cons.2 (.inl (List.cons.inj h).1.symm)) ha
    | cons y b =>
      obtain ⟨rfl, ht⟩ := List.cons.inj h
      obtain ⟨rfl, rfl⟩ := ih (fun hm => ha (List.mem_cons_of_mem _ hm))
        (fun hm => hb (List.mem_cons_of_mem _ hm)) ht
      exact ⟨rfl, rfl⟩

/-- Keys of plain collections are stored apart. -/
theorem composite_inj {c c' k k' : String} (hc : Plain c) (hc' : Plain c') :
    composite c k = composite c' k' ↔ c = c' ∧ k = k' := by
  constructor
  · intro h
    have hl := congrArg String.toList h
    simp only [composite, scope, String.toList_append, List.append_assoc] at hl
    obtain ⟨h₁, h₂⟩ := append_separator_inj hc hc' hl
    exact ⟨String.toList_injective h₁, String.toList_injective h₂⟩
  · rintro ⟨rfl, rfl⟩
    rfl

namespace StateStore

variable {V : Type*}

/-- A store without any key. -/
def empty : StateStore V := ⟨∅⟩

/-- Store a value under a key within a collection, overwriting any previous value. -/
def put (s : StateStore V) (collection key : String) (value : V) : StateStore V :=
  ⟨s.data.insert (composite collection key) value⟩

/-- The value of a key within a collection. -/
def get (s : StateStore V) (collection key : String) : Option V :=
  s.data[composite collection key]?

/-- Remove a key from a collection. -/
def delete (s : StateStore V) (collection key : String) : StateStore V :=
  ⟨s.data.erase (composite collection key)⟩

/-- Every key of a collection with its value, in key order. -/
def list (s : StateStore V) (collection : String) : List (String × V) :=
  s.data.toList.filterMap fun e => (Text.stripPrefix (scope collection) e.1).map fun k => (k, e.2)

@[ext] theorem ext_data {s t : StateStore V} (h : ∀ x : String, s.data[x]? = t.data[x]?) :
    s = t := by
  cases s
  cases t
  congr
  exact ExtTreeMap.ext_getElem? h

theorem data_put (s : StateStore V) (c k x : String) (v : V) :
    (s.put c k v).data[x]? = if x = composite c k then some v else s.data[x]? :=
  BTreeMap.getElem?_insert_eq ..

theorem data_delete (s : StateStore V) (c k x : String) :
    (s.delete c k).data[x]? = if x = composite c k then none else s.data[x]? :=
  BTreeMap.getElem?_erase_eq ..

@[simp] theorem data_empty (x : String) : (empty : StateStore V).data[x]? = none :=
  ExtTreeMap.getElem?_empty

/-- Listing a collection shows exactly what its keys read as. -/
theorem mem_list {s : StateStore V} {c k : String} {v : V} :
    (k, v) ∈ s.list c ↔ s.get c k = some v := by
  simp only [list, List.mem_filterMap, Option.map_eq_some_iff, Text.stripPrefix_eq_some,
    Prod.mk.injEq]
  constructor
  · rintro ⟨⟨x, w⟩, hx, k, hk, rfl, rfl⟩
    rw [ExtTreeMap.mem_toList_iff_getElem?_eq_some] at hx
    subst hk
    exact hx
  · intro h
    exact ⟨(composite c k, v), ExtTreeMap.mem_toList_iff_getElem?_eq_some.2 h, k, rfl, rfl, rfl⟩

theorem nodup_keys_list (s : StateStore V) (c : String) : ((s.list c).map Prod.fst).Nodup := by
  have hmap : (s.list c).map Prod.fst =
      (s.data.toList.map Prod.fst).filterMap (Text.stripPrefix (scope c)) := by
    rw [list, List.map_filterMap, List.filterMap_map]
    congr 1
    funext e
    simp only [Option.map_map, Function.comp_def, Option.map_id']
  rw [hmap]
  refine List.Nodup.filterMap ?_ (BTreeMap.nodup_keys_toList s.data)
  intro a b k ha hb
  rw [Option.mem_def, Text.stripPrefix_eq_some] at ha hb
  rw [ha, hb]

end StateStore

/-- The stored key lies in one of the collections. -/
def Under (collections : BTreeSet String) (x : String) : Prop :=
  ∃ c ∈ collections, ∃ k, x = composite c k

end OCF.Store
