import OCF.Foundations.Refinement
import OCF.Foundations.Utf8
import OCF.Store.StateStore

/-!
# The two backends of the store

The store in memory filters one ordered map by what stands before the keys of a collection. The
store in the database scans the range of byte strings from `collection`, U+001F up to `collection`,
U+0020. The database is an ordered map on the UTF-8 bytes of its keys.

Both are meant to be one map from collections and keys to values (`AbstractStore`).
`backends_implement_map` is the result for every sequence of operations on collections whose names
do not hold the separator. It rests on `mem_range_iff`: the two bytes are neighbours, so the range
of a collection holds the keys that start with its name and the separator, and no other.
-/

namespace OCF.Store

open Std (ExtTreeMap TransCmp)

variable {V : Type*}

/-! ## The contract -/

/-- The operations of a store. -/
inductive StoreOp (V : Type*)
  | put (collection key : String) (value : V)
  | get (collection key : String)
  | delete (collection key : String)
  | list (collection : String)

/-- The collection that an operation is about. -/
def StoreOp.collection : StoreOp V → String
  | .put c _ _ | .get c _ | .delete c _ | .list c => c

/-- What an operation returns. -/
inductive StoreReply (V : Type*)
  | done
  | value (v : Option V)
  | entries (es : List (String × V))
  deriving DecidableEq

/-- An implementation of the store with states `S`. -/
structure Backend (S V : Type*) where
  put : S → String → String → V → S
  get : S → String → String → Option V
  delete : S → String → String → S
  list : S → String → List (String × V)

/-- An operation on a backend: the reply, and the store afterwards. -/
def Backend.exec {S : Type*} (b : Backend S V) (s : S) : StoreOp V → StoreReply V × S
  | .put c k v => (.done, b.put s c k v)
  | .get c k => (.value (b.get s c k), s)
  | .delete c k => (.done, b.delete s c k)
  | .list c => (.entries (b.list s c), s)

/-- The store that is kept in memory. -/
def memory : Backend (StateStore V) V :=
  ⟨StateStore.put, StateStore.get, StateStore.delete, StateStore.list⟩

/-! ## The database -/

instance : TransCmp compareUtf8 := by
  rw [compareUtf8_eq_compare]
  infer_instance

/-- A table of the database. -/
abbrev Table (V : Type*) := ExtTreeMap String V compareUtf8

/-- The entries of a half-open range of keys. -/
def Table.range (t : Table V) (lo hi : String) : List (String × V) :=
  t.toList.filter fun e => (compareUtf8 lo e.1).isLE && compareUtf8 e.1 hi = .lt

/-- A crash-safe store in a single table. -/
structure RedbStateStore (V : Type*) where
  table : Table V

namespace RedbStateStore

/-- A database that did not exist before. -/
def created : RedbStateStore V := ⟨∅⟩

/-- Insert or replace a value. -/
def put (s : RedbStateStore V) (collection key : String) (value : V) : RedbStateStore V :=
  ⟨s.table.insert (composite collection key) value⟩

/-- Look a value up. -/
def get (s : RedbStateStore V) (collection key : String) : Option V :=
  s.table[composite collection key]?

/-- Remove a value; it need not be there. -/
def delete (s : RedbStateStore V) (collection key : String) : RedbStateStore V :=
  ⟨s.table.erase (composite collection key)⟩

/-- Every key of a collection with its value, in key order. -/
def list (s : RedbStateStore V) (collection : String) : List (String × V) :=
  let lo := collection ++ "\x1f"
  let hi := collection ++ "\x20"
  (s.table.range lo hi).map fun e => ((Text.stripPrefix lo e.1).getD e.1, e.2)

end RedbStateStore

/-- The store in the database. -/
def redb : Backend (RedbStateStore V) V :=
  ⟨RedbStateStore.put, RedbStateStore.get, RedbStateStore.delete, RedbStateStore.list⟩

/-! ## The map -/

/-- What a store is for: a map from collections and keys to values. -/
abbrev AbstractStore (V : Type*) := String → String → Option V

namespace AbstractStore

/-- Insert or replace a value. -/
def put (m : AbstractStore V) (c k : String) (v : V) : AbstractStore V :=
  fun c' k' => if c' = c ∧ k' = k then some v else m c' k'

/-- Remove a value. -/
def delete (m : AbstractStore V) (c k : String) : AbstractStore V :=
  fun c' k' => if c' = c ∧ k' = k then none else m c' k'

/-- The entries are exactly those of the collection, in ascending key order. -/
def Listing (m : AbstractStore V) (c : String) (es : List (String × V)) : Prop :=
  (es.Pairwise fun a b => a.1 < b.1) ∧ ∀ k v, (k, v) ∈ es ↔ m c k = some v

/-- What the map replies to an operation, and the map afterwards. -/
def Answers (m : AbstractStore V) : StoreOp V → StoreReply V → AbstractStore V → Prop
  | .put c k v, r, m' => r = .done ∧ m' = m.put c k v
  | .get c k, r, m' => r = .value (m c k) ∧ m' = m
  | .delete c k, r, m' => r = .done ∧ m' = m.delete c k
  | .list c, r, m' => (∃ es, r = .entries es ∧ m.Listing c es) ∧ m' = m

/-- There is one listing of a collection. -/
theorem Listing.unique {m : AbstractStore V} {c : String} {es es' : List (String × V)}
    (h : m.Listing c es) (h' : m.Listing c es') : es = es' := by
  have hnodup : ∀ {l : List (String × V)}, l.Pairwise (fun a b => a.1 < b.1) → l.Nodup :=
    fun hl => hl.imp fun hab heq => (heq ▸ hab).false
  have hperm : es.Perm es' :=
    (List.perm_ext_iff_of_nodup (hnodup h.1) (hnodup h'.1)).2 fun e =>
      (h.2 e.1 e.2).trans (h'.2 e.1 e.2).symm
  exact hperm.eq_of_pairwise (fun a b _ _ hab hba => absurd hba hab.asymm) h.1 h'.1

theorem Answers.unique {m : AbstractStore V} {op : StoreOp V} {r r' : StoreReply V}
    {m₁ m₂ : AbstractStore V} (h : m.Answers op r m₁) (h' : m.Answers op r' m₂) :
    r = r' ∧ m₁ = m₂ := by
  cases op with
  | put c k v => exact ⟨h.1.trans h'.1.symm, h.2.trans h'.2.symm⟩
  | get c k => exact ⟨h.1.trans h'.1.symm, h.2.trans h'.2.symm⟩
  | delete c k => exact ⟨h.1.trans h'.1.symm, h.2.trans h'.2.symm⟩
  | list c =>
    obtain ⟨⟨es, rfl, hes⟩, rfl⟩ := h
    obtain ⟨⟨es', rfl, hes'⟩, rfl⟩ := h'
    rw [hes.unique hes']
    exact ⟨rfl, rfl⟩

end AbstractStore

/-! ## The range of a collection -/

/-- U+001F and U+0020 are neighbours. -/
theorem eq_separator_of_between {d : Char} (h₁ : ¬d < '\x1f') (h₂ : d < '\x20') : d = '\x1f' := by
  have h₁ : ¬d.val.toNat < 31 := h₁
  have h₂ : d.val.toNat < 32 := h₂
  exact Char.ext (UInt32.toNat_inj.1 (by change d.val.toNat = 31; omega))

theorem between_iff {a x : List Char} :
    ¬x < a ++ ['\x1f'] ∧ x < a ++ ['\x20'] ↔ ∃ t, x = a ++ '\x1f' :: t := by
  induction a generalizing x with
  | nil =>
    cases x with
    | nil => simp
    | cons d x =>
      simp only [List.nil_append, List.cons_lt_cons_iff, List.not_lt_nil, and_false, or_false,
        List.cons.injEq, exists_and_left, exists_eq', and_true]
      exact ⟨fun h => eq_separator_of_between h.1 h.2, by rintro rfl; decide⟩
  | cons c a ih =>
    cases x with
    | nil => simp
    | cons d x =>
      simp only [List.cons_append, List.cons_lt_cons_iff, List.cons.injEq, exists_and_left, ← ih]
      constructor
      · rintro ⟨h₁, h₂ | ⟨rfl, h₂⟩⟩
        · exact absurd (.inl h₂) h₁
        · exact ⟨rfl, fun h => h₁ (.inr ⟨rfl, h⟩), h₂⟩
      · rintro ⟨rfl, h₁, h₂⟩
        exact ⟨by simp [h₁], .inr ⟨rfl, h₂⟩⟩

/-- **The range of a collection** holds the keys that start with its name and the separator. -/
theorem mem_range_iff {c x : String} :
    (compareUtf8 (scope c) x).isLE ∧ compareUtf8 x (c ++ "\x20") = .lt ↔ ∃ k, x = scope c ++ k := by
  rw [isLE_compareUtf8, compareUtf8_eq_lt]
  change ¬x.toList < (c ++ "\x1f").toList ∧ x.toList < (c ++ "\x20").toList ↔ _
  rw [String.toList_append, String.toList_append]
  refine (between_iff (a := c.toList) (x := x.toList)).trans ?_
  constructor
  · rintro ⟨t, ht⟩
    exact ⟨String.ofList t, String.toList_injective (by simp [scope, ht])⟩
  · rintro ⟨k, rfl⟩
    exact ⟨k.toList, by simp [scope]⟩

/-- Scanning the range of a collection is filtering by what stands before its keys. -/
theorem RedbStateStore.list_eq (s : RedbStateStore V) (c : String) :
    s.list c = s.table.toList.filterMap fun e =>
      (Text.stripPrefix (scope c) e.1).map fun k => (k, e.2) := by
  rw [list, Table.range, ← List.filterMap_eq_map, List.filterMap_filter]
  congr 1
  funext e
  by_cases h : ∃ k, e.1 = scope c ++ k
  · have hin := mem_range_iff.2 h
    obtain ⟨k, hk⟩ := h
    simp_all [scope]
  · have hout := mt mem_range_iff.1 h
    have hnone : Text.stripPrefix (scope c) e.1 = none :=
      Option.eq_none_iff_forall_ne_some.2 fun k hk => h ⟨k, Text.stripPrefix_eq_some.1 hk⟩
    rw [hnone, if_neg]
    · rfl
    · simpa [scope] using hout

/-! ## Both backends are the map

The two maps differ in how they compare keys, and the two orders are one. -/

theorem append_lt_append_left_iff {p a b : String} : p ++ a < p ++ b ↔ a < b := by
  have hmono : ∀ {a b : String}, a < b → p ++ a < p ++ b := fun {a b} hab => by
    change (p ++ a).toList < (p ++ b).toList
    rw [String.toList_append, String.toList_append]
    exact List.append_left_lt hab
  refine ⟨fun h => ?_, hmono⟩
  obtain hab | rfl | hba := lt_trichotomy a b
  · exact hab
  · exact absurd h (lt_irrefl _)
  · exact absurd h (hmono hba).asymm

section Represents

variable {cmp : String → String → Ordering} [TransCmp cmp] (hcmp : cmp = compare)

/-- The map holds what is stored of the plain collections. -/
def Represents (t : ExtTreeMap String V cmp) (m : AbstractStore V) : Prop :=
  ∀ c k, Plain c → t[composite c k]? = m c k

variable {t : ExtTreeMap String V cmp} {m : AbstractStore V} (h : Represents t m)

include hcmp h

theorem Represents.insert {c : String} (hc : Plain c) (k : String) (v : V) :
    Represents (t.insert (composite c k) v) (m.put c k v) := by
  subst hcmp
  intro c' k' hc'
  simp only [BTreeMap.getElem?_insert_eq, composite_inj hc' hc, AbstractStore.put, h c' k' hc']

theorem Represents.erase {c : String} (hc : Plain c) (k : String) :
    Represents (t.erase (composite c k)) (m.delete c k) := by
  subst hcmp
  intro c' k' hc'
  simp only [BTreeMap.getElem?_erase_eq, composite_inj hc' hc, AbstractStore.delete, h c' k' hc']

theorem Represents.listing {c : String} (hc : Plain c) :
    m.Listing c (t.toList.filterMap fun e =>
      (Text.stripPrefix (scope c) e.1).map fun k => (k, e.2)) := by
  subst hcmp
  refine ⟨?_, fun k v => ?_⟩
  · -- what is stripped off is the same for all keys
    refine List.Pairwise.filterMap _ (fun a b hab x hx y hy => ?_) t.ordered_keys_toList
    obtain ⟨k, hk, rfl⟩ := Option.map_eq_some_iff.1 hx
    obtain ⟨k', hk', rfl⟩ := Option.map_eq_some_iff.1 hy
    rw [Text.stripPrefix_eq_some] at hk hk'
    rw [compare_lt_iff_lt, hk, hk'] at hab
    exact append_lt_append_left_iff.1 hab
  · rw [← h c k hc]
    exact StateStore.mem_list (s := ⟨t⟩)

end Represents

/-- Every operation of the store in memory is one of the map. -/
theorem memory_exec {s : StateStore V} {m : AbstractStore V} (h : Represents s.data m)
    {op : StoreOp V} (hop : Plain op.collection) :
    ∃ m', m.Answers op (memory.exec s op).1 m' ∧ Represents (memory.exec s op).2.data m' := by
  cases op with
  | put c k v => exact ⟨_, ⟨rfl, rfl⟩, h.insert rfl hop k v⟩
  | get c k => exact ⟨m, ⟨congrArg _ (h c k hop), rfl⟩, h⟩
  | delete c k => exact ⟨_, ⟨rfl, rfl⟩, h.erase rfl hop k⟩
  | list c => exact ⟨m, ⟨⟨_, rfl, h.listing rfl hop⟩, rfl⟩, h⟩

/-- Every operation of the store in the database is one of the map. -/
theorem redb_exec {s : RedbStateStore V} {m : AbstractStore V} (h : Represents s.table m)
    {op : StoreOp V} (hop : Plain op.collection) :
    ∃ m', m.Answers op (redb.exec s op).1 m' ∧ Represents (redb.exec s op).2.table m' := by
  cases op with
  | put c k v => exact ⟨_, ⟨rfl, rfl⟩, h.insert compareUtf8_eq_compare hop k v⟩
  | get c k => exact ⟨m, ⟨congrArg _ (h c k hop), rfl⟩, h⟩
  | delete c k => exact ⟨_, ⟨rfl, rfl⟩, h.erase compareUtf8_eq_compare hop k⟩
  | list c =>
    refine ⟨m, ⟨⟨_, rfl, ?_⟩, rfl⟩, h⟩
    change m.Listing c (s.list c)
    rw [s.list_eq c]
    exact h.listing compareUtf8_eq_compare hop

/-- **Both backends implement one map.** The replies of the database and of the store in memory to
any sequence of operations on collections without the separator in their names are the same, and
they are the ones of a map from collections and keys to values that is empty at first: it allows
these replies and no others. -/
theorem backends_implement_map (ops : List (StoreOp V)) (hops : ∀ op ∈ ops, Plain op.collection) :
    replies redb.exec RedbStateStore.created ops = replies memory.exec StateStore.empty ops ∧
      ∀ rs, Allows AbstractStore.Answers (fun _ _ => none) ops rs ↔
        rs = replies memory.exec StateStore.empty ops := by
  have hredb : Allows AbstractStore.Answers (fun _ _ => none) ops
      (replies redb.exec (RedbStateStore.created (V := V)) ops) :=
    allows_replies (R := fun s m => Represents s.table m) (fun _ _ _ h hop => redb_exec h hop)
      (fun _ _ _ => ExtTreeMap.getElem?_empty) hops
  have hmemory : Allows AbstractStore.Answers (fun _ _ => none) ops
      (replies memory.exec (StateStore.empty (V := V)) ops) :=
    allows_replies (R := fun s m => Represents s.data m) (fun _ _ _ h hop => memory_exec h hop)
      (fun _ _ _ => ExtTreeMap.getElem?_empty) hops
  have hdet : ∀ (m : AbstractStore V) op r b r' b', m.Answers op r b → m.Answers op r' b' →
      r = r' ∧ b = b' := fun _ _ _ _ _ _ h h' => h.unique h'
  have hunique {rs rs' : List (StoreReply V)}
      (h : Allows AbstractStore.Answers (fun _ _ => none) ops rs)
      (h' : Allows AbstractStore.Answers (fun _ _ => none) ops rs') : rs = rs' :=
    h.unique hdet h'
  exact ⟨hunique hredb hmemory, fun rs => ⟨fun h => hunique h hmemory, fun h => h ▸ hmemory⟩⟩

/-- Keys in collections of which one name starts the other. -/
def sampleOps : List (StoreOp ℕ) :=
  [.put "a" "2" 0, .put "ab" "1" 1, .put "a" "1\x1f" 2, .delete "ab" "1", .list "a"]

theorem backends_implement_map_sampleOps :
    replies redb.exec RedbStateStore.created sampleOps =
        replies memory.exec StateStore.empty sampleOps ∧
      replies memory.exec StateStore.empty sampleOps =
        [.done, .done, .done, .done, .entries [("1\x1f", 2), ("2", 0)]] := by
  exact ⟨(backends_implement_map sampleOps (by decide)).1, by decide +kernel⟩

end OCF.Store
