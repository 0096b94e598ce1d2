import Mathlib.Algebra.BigOperators.Group.List.Basic
import Mathlib.Data.Finset.Dedup
import Mathlib.Data.Finset.Insert
import Mathlib.Data.List.AList
import Mathlib.Tactic.Abel

/-!
# Hash maps as association lists

A hash map is an association list without repeated keys, Mathlib's `AList`. This module adds what
iterating over one needs (`pairs`, `values`) and the two equations that say what a lookup sees after
a write, in the form proofs rewrite with. Where the iteration order of the source can be observed,
what is listed here is permuted by a parameter.
-/

namespace OCF

/-- A hash map from `K` to `V`. -/
abbrev HashMap (K V : Type*) := AList fun _ : K => V

namespace HashMap

variable {K V : Type*}

/-- The entries of a map. -/
def pairs (m : HashMap K V) : List (K × V) := m.entries.map fun e => (e.1, e.2)

/-- The values of a map. -/
def values (m : HashMap K V) : List V := m.entries.map Sigma.snd

/-- The map with every value changed; the order stays. -/
def mapVal (f : K → V → V) (m : HashMap K V) : HashMap K V :=
  ⟨m.entries.map (Sigma.map id f), List.NodupKeys.map₂ f _ m.nodupKeys⟩

variable [DecidableEq K]

theorem mem_pairs {m : HashMap K V} {k : K} {v : V} : (k, v) ∈ pairs m ↔ m.lookup k = some v := by
  rw [← Option.mem_def, AList.mem_lookup_iff, pairs, List.mem_map]
  constructor
  · rintro ⟨⟨k', v'⟩, h, e⟩
    obtain ⟨rfl, rfl⟩ := Prod.mk.inj e
    exact h
  · exact fun h => ⟨⟨k, v⟩, h, rfl⟩

theorem mem_values {m : HashMap K V} {v : V} : v ∈ values m ↔ ∃ k, m.lookup k = some v := by
  constructor
  · intro h
    obtain ⟨e, he, rfl⟩ := List.mem_map.1 h
    exact ⟨e.1, AList.mem_lookup_iff.2 he⟩
  · rintro ⟨k, h⟩
    exact List.mem_map.2 ⟨⟨k, v⟩, AList.mem_lookup_iff.1 h, rfl⟩

/-- Values that name their own key are told apart by it. -/
theorem nodup_map_values {m : HashMap K V} {f : V → K} (h : ∀ k v, m.lookup k = some v → f v = k) :
    ((values m).map f).Nodup := by
  have hkeys : (values m).map f = m.keys := by
    rw [values, List.map_map]
    exact List.map_congr_left fun e he => h e.1 e.2 (AList.mem_lookup_iff.2 he)
  rw [hkeys]
  exact m.nodupKeys

theorem forall_lookup {m : HashMap K V} {P : V → Prop} (h : ∀ v ∈ values m, P v) {k : K} {v : V}
    (hk : m.lookup k = some v) : P v :=
  h v (mem_values.2 ⟨k, hk⟩)

theorem lookup_insert_eq (m : HashMap K V) (k k' : K) (v : V) :
    (m.insert k v).lookup k' = if k' = k then some v else m.lookup k' := by
  split_ifs with h
  · rw [h, AList.lookup_insert]
  · exact AList.lookup_insert_ne h

/-- What is read after a write is the new entry or an old one of another key. -/
theorem lookup_insert_eq_some {m : HashMap K V} {k k' : K} {v v' : V} :
    (m.insert k v).lookup k' = some v' ↔ k' = k ∧ v = v' ∨ k' ≠ k ∧ m.lookup k' = some v' := by
  rw [lookup_insert_eq]
  split_ifs with h
  · simp [h]
  · simp [h]

theorem lookup_erase_eq (m : HashMap K V) (k k' : K) :
    (m.erase k).lookup k' = if k' = k then none else m.lookup k' := by
  split_ifs with h
  · rw [h, AList.lookup_erase]
  · exact AList.lookup_erase_ne h

theorem mem_iff_exists_lookup {m : HashMap K V} {k : K} : k ∈ m ↔ ∃ v, m.lookup k = some v := by
  rw [← AList.lookup_isSome, Option.isSome_iff_exists]

/-- The keys whose value has a property. -/
def keysWith (p : V → Bool) (m : HashMap K V) : Finset K :=
  (m.keys.filter fun k => (m.lookup k).any p).toFinset

theorem mem_keysWith {p : V → Bool} {m : HashMap K V} {k : K} :
    k ∈ keysWith p m ↔ ∃ v, m.lookup k = some v ∧ p v := by
  rw [keysWith, List.mem_toFinset, List.mem_filter, Option.any_eq_true]
  constructor
  · exact fun h => h.2
  · rintro ⟨v, hv, hp⟩
    exact ⟨mem_iff_exists_lookup.2 ⟨v, hv⟩, v, hv, hp⟩

theorem mem_keysWith_insert {p : V → Bool} {m : HashMap K V} {k k' : K} {v : V} :
    k' ∈ keysWith p (m.insert k v) ↔ if k' = k then p v = true else k' ∈ keysWith p m := by
  rw [mem_keysWith, lookup_insert_eq]
  split_ifs with hk
  · simp
  · rw [mem_keysWith]

theorem lookup_mapVal (f : K → V → V) (m : HashMap K V) (k : K) :
    (mapVal f m).lookup k = (m.lookup k).map (f k) :=
  List.dlookup_map₂ k

/-- Inserting many entries: a key reads as one of its entries, or it has none and reads as
before. -/
theorem lookup_foldl_insert {α : Type*} (key : α → K) (val : α → V) (es : List α)
    (m : HashMap K V) (x : K) :
    (∃ e ∈ es, key e = x ∧
      (es.foldl (fun m e => m.insert (key e) (val e)) m).lookup x = some (val e)) ∨
      (∀ e ∈ es, key e ≠ x) ∧ (es.foldl (fun m e => m.insert (key e) (val e)) m).lookup x =
        m.lookup x := by
  induction es generalizing m with
  | nil => exact .inr ⟨by simp, rfl⟩
  | cons e es ih =>
    rw [List.foldl_cons]
    obtain ⟨e', he', hx, h⟩ | ⟨hne, h⟩ := ih (m.insert (key e) (val e))
    · exact .inl ⟨e', List.mem_cons_of_mem _ he', hx, h⟩
    · rw [h, lookup_insert_eq]
      split_ifs with hx
      · exact .inl ⟨e, List.mem_cons_self .., hx.symm, rfl⟩
      · exact .inr ⟨List.forall_mem_cons.2 ⟨Ne.symm hx, hne⟩, rfl⟩

/-- A step that inserts the entry of a new key, repeated over entries with distinct new keys,
inserts them all. The condition `P` is what the step may rely on. -/
theorem foldl_eq_foldl_insert {σ α : Type*} {view : σ → HashMap K V} {step : σ → α → σ}
    {P : σ → Prop} (key : α → K) (val : α → V) {es : List α}
    (hstep : ∀ s, ∀ e ∈ es, P s → key e ∉ view s →
      P (step s e) ∧ view (step s e) = (view s).insert (key e) (val e))
    {s : σ} (hs : P s) (hnodup : (es.map key).Nodup) (hnew : ∀ e ∈ es, key e ∉ view s) :
    view (es.foldl step s) = es.foldl (fun m e => m.insert (key e) (val e)) (view s) := by
  induction es generalizing s with
  | nil => rfl
  | cons e es ih =>
    rw [List.map_cons, List.nodup_cons] at hnodup
    obtain ⟨hs', hv⟩ := hstep s e (List.mem_cons_self ..) hs (hnew e (List.mem_cons_self ..))
    rw [List.foldl_cons, List.foldl_cons, ← hv]
    refine ih (fun t x hx => hstep t x (List.mem_cons_of_mem _ hx)) hs' hnodup.2 fun x hx => ?_
    rw [hv, AList.mem_insert, not_or]
    refine ⟨?_, hnew x (List.mem_cons_of_mem _ hx)⟩
    intro heq
    exact hnodup.1 (heq ▸ List.mem_map_of_mem hx)

/-! ## Sums over the values -/

/-- Maps with the same lookups list the same values. -/
theorem values_perm {m m' : HashMap K V} (h : ∀ k, m.lookup k = m'.lookup k) :
    (values m).Perm (values m') := by
  refine List.Perm.map _ (List.lookup_ext m.nodupKeys m'.nodupKeys fun k v => ?_)
  have hk : m.entries.dlookup k = m'.entries.dlookup k := h k
  rw [hk]

variable {M : Type*} [AddCommMonoid M] (g : V → M)

theorem sum_values_insert (m : HashMap K V) (k : K) (v : V) :
    ((values (m.insert k v)).map g).sum = g v + ((values (m.erase k)).map g).sum := rfl

theorem sum_values_congr {m m' : HashMap K V} (h : ∀ k, m.lookup k = m'.lookup k) :
    ((values m).map g).sum = ((values m').map g).sum :=
  ((values_perm h).map g).sum_eq

/-- What one entry contributes is exchanged when this entry is. -/
theorem sum_values_replace {m m' : HashMap K V} {k : K} {v : V} {o : Option V}
    (hv : m.lookup k = some v) (h : ∀ k', m'.lookup k' = if k' = k then o else m.lookup k') :
    ((values m').map g).sum + g v = ((values m).map g).sum + o.elim 0 g := by
  have hm : ((values m).map g).sum = g v + ((values (m.erase k)).map g).sum := by
    rw [← sum_values_insert]
    refine sum_values_congr g fun k' => ?_
    rw [lookup_insert_eq]
    split_ifs with hk
    · rw [hk, hv]
    · rfl
  have hm' : ((values m').map g).sum = o.elim 0 g + ((values (m.erase k)).map g).sum := by
    cases o with
    | none =>
      rw [Option.elim_none, zero_add]
      exact sum_values_congr g fun k' => by rw [h, lookup_erase_eq]
    | some w =>
      rw [Option.elim_some, ← sum_values_insert]
      exact sum_values_congr g fun k' => by rw [h, lookup_insert_eq]
  rw [hm, hm']
  abel

end HashMap

end OCF
