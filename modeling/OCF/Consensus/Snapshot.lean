import OCF.Consensus.Storage

/-!
# What a snapshot captures and what installing it leaves

Both directions of a snapshot go through the recorded collections: building lists them, installing
clears them. The lemmas of this module say what each part does to the stored keys.

* `isSome_data_restorePayload`: installing keeps the keys outside the recorded collections and
  writes the snapshot's.
* `store_restorePayload_buildPayload`: between state machines whose recorded collections cover
  their store (`Covered`), installing a snapshot copies the store.
* `reopened_snapshot_iff`: over a store that held keys before the state machine started, exactly
  when a snapshot captures the store and exactly when an install leaves only the snapshot's keys.
-/

namespace OCF.Consensus

open Std Store

variable {V B : Type*}

/-! ## Applying entries -/

/-- Some entry carries a command on the collection. -/
def NamedBy (entries : List (Entry V)) (c : String) : Prop :=
  ∃ e ∈ entries, ∃ cmd, e.payload = .normal cmd ∧ cmd.collection = c

/-- The stored key lies in a collection that some entry names. -/
def UnderNamed (entries : List (Entry V)) (x : String) : Prop :=
  ∃ c, NamedBy entries c ∧ ∃ k, x = composite c k

namespace StateMachineStore

/-- The state after a batch of entries. -/
def after (sm : StateMachineStore V B) (entries : List (Entry V)) : StateMachineStore V B :=
  (sm.apply entries).2

@[simp] theorem after_nil (sm : StateMachineStore V B) : sm.after [] = sm := rfl

theorem after_cons (sm : StateMachineStore V B) (e : Entry V) (es : List (Entry V)) :
    sm.after (e :: es) = (sm.applyEntry e).2.after es := rfl

theorem after_append (sm : StateMachineStore V B) (es fs : List (Entry V)) :
    sm.after (es ++ fs) = (sm.after es).after fs := by
  induction es generalizing sm with
  | nil => rfl
  | cons e es ih => rw [List.cons_append, after_cons, ih, after_cons]

/-- An entry records the collection its command names, and no other. -/
theorem mem_smCollections_applyEntry (sm : StateMachineStore V B) (e : Entry V) {c : String} :
    c ∈ (sm.applyEntry e).2.inner.smCollections ↔ c ∈ sm.inner.smCollections ∨ NamedBy [e] c := by
  obtain ⟨id, p⟩ := e
  cases p with
  | blank => simp [applyEntry, NamedBy]
  | membership m => simp [applyEntry, NamedBy]
  | normal cmd =>
    have hn : NamedBy [⟨id, .normal cmd⟩] c ↔ c = cmd.collection := by
      simp [NamedBy, eq_comm]
    rw [hn, or_comm, ← BTreeSet.mem_insert_iff]
    cases cmd <;> rfl

/-- An entry changes no key outside the collection its command names. -/
theorem data_applyEntry_of_not_under (sm : StateMachineStore V B) (e : Entry V) {x : String}
    (hx : ¬UnderNamed [e] x) : (sm.applyEntry e).2.store.data[x]? = sm.store.data[x]? := by
  obtain ⟨id, p⟩ := e
  cases p with
  | blank => rfl
  | membership m => rfl
  | normal cmd =>
    have hne : ∀ k, x ≠ composite cmd.collection k := fun k hk =>
      hx ⟨cmd.collection, ⟨_, List.mem_singleton.2 rfl, cmd, rfl, rfl⟩, k, hk⟩
    cases cmd with
    | put c k v => exact (StateStore.data_put ..).trans (if_neg (hne k))
    | delete c k => exact (StateStore.data_delete ..).trans (if_neg (hne k))

theorem namedBy_cons {e : Entry V} (es : List (Entry V)) {c : String} :
    NamedBy (e :: es) c ↔ NamedBy [e] c ∨ NamedBy es c := by
  simp [NamedBy]

theorem underNamed_cons {e : Entry V} {es : List (Entry V)} {x : String} :
    UnderNamed (e :: es) x ↔ UnderNamed [e] x ∨ UnderNamed es x := by
  simp only [UnderNamed, namedBy_cons es, or_and_right, exists_or]

theorem mem_smCollections_after (sm : StateMachineStore V B) (es : List (Entry V)) {c : String} :
    c ∈ (sm.after es).inner.smCollections ↔ c ∈ sm.inner.smCollections ∨ NamedBy es c := by
  induction es generalizing sm with
  | nil => simp [NamedBy]
  | cons e es ih =>
    rw [after_cons, ih, mem_smCollections_applyEntry, namedBy_cons es, or_assoc]

theorem data_after_of_not_under (sm : StateMachineStore V B) (es : List (Entry V)) {x : String}
    (hx : ¬UnderNamed es x) : (sm.after es).store.data[x]? = sm.store.data[x]? := by
  induction es generalizing sm with
  | nil => rfl
  | cons e es ih =>
    rw [underNamed_cons, not_or] at hx
    rw [after_cons, ih _ hx.2, data_applyEntry_of_not_under sm e hx.1]

/-! ## Clearing and loading -/

theorem data_clearCollection (s : StateStore V) (c x : String) (v : V) :
    (clearCollection s c).data[x]? = some v ↔
      s.data[x]? = some v ∧ ∀ k, x ≠ composite c k := by
  have hfold : (clearCollection s c).data =
      ((s.list c).map fun e => composite c e.1).foldl (fun m k => m.erase k) s.data := by
    rw [clearCollection, List.foldl_map]
    generalize s.list c = es
    induction es generalizing s with
    | nil => rfl
    | cons e es ih => exact ih (s.delete c e.1)
  rw [hfold, BTreeMap.getElem?_foldl_erase]
  split_ifs with hx
  · obtain ⟨e, -, rfl⟩ := List.mem_map.1 hx
    simp
  · refine ⟨fun h => ⟨h, fun k hk => hx ?_⟩, And.left⟩
    subst hk
    exact List.mem_map.2 ⟨(k, v), StateStore.mem_list.2 h, rfl⟩

theorem data_clear (cs : List String) (s : StateStore V) (x : String) (v : V) :
    (cs.foldl clearCollection s).data[x]? = some v ↔
      s.data[x]? = some v ∧ ∀ c ∈ cs, ∀ k, x ≠ composite c k := by
  induction cs generalizing s with
  | nil => simp
  | cons c cs ih =>
    rw [List.foldl_cons, ih, data_clearCollection, List.forall_mem_cons, and_assoc]

end StateMachineStore

/-- The stored keys of a snapshot with their values. -/
def SnapshotPayload.entries (p : SnapshotPayload V) : List (String × V) :=
  p.data.toList.flatMap fun e => e.2.toList.map fun kv => (composite e.1 kv.1, kv.2)

/-- The snapshot holds the stored key. -/
def SnapshotPayload.HasKey (p : SnapshotPayload V) (x : String) : Prop :=
  ∃ c m k v, p.data[c]? = some m ∧ m[k]? = some v ∧ x = composite c k

theorem SnapshotPayload.mem_entries {p : SnapshotPayload V} {x : String} {v : V} :
    (x, v) ∈ p.entries ↔ ∃ c m k, p.data[c]? = some m ∧ m[k]? = some v ∧ x = composite c k := by
  simp only [entries, List.mem_flatMap, List.mem_map, Prod.mk.injEq, Prod.exists,
    ExtTreeMap.mem_toList_iff_getElem?_eq_some]
  constructor
  · rintro ⟨c, m, hm, k, v, hk, rfl, rfl⟩
    exact ⟨c, m, k, hm, hk, rfl⟩
  · rintro ⟨c, m, k, hm, hk, rfl⟩
    exact ⟨c, m, hm, k, v, hk, rfl, rfl⟩

theorem SnapshotPayload.hasKey_iff {p : SnapshotPayload V} {x : String} :
    p.HasKey x ↔ x ∈ p.entries.map Prod.fst := by
  simp only [HasKey, List.mem_map, Prod.exists, exists_and_right, exists_eq_right, mem_entries]
  constructor
  · rintro ⟨c, m, k, v, h⟩
    exact ⟨v, c, m, k, h⟩
  · rintro ⟨v, c, m, k, h⟩
    exact ⟨c, m, k, v, h⟩

namespace StateMachineStore

theorem data_load (p : SnapshotPayload V) (s : StateStore V) :
    (p.data.toList.foldl loadCollection s).data =
      p.entries.foldl (fun m e => m.insert e.1 e.2) s.data := by
  rw [SnapshotPayload.entries]
  generalize p.data.toList = es
  induction es generalizing s with
  | nil => rfl
  | cons e es ih =>
    rw [List.foldl_cons, ih, List.flatMap_cons, List.foldl_append, List.foldl_map]
    congr 1
    rw [loadCollection]
    generalize e.2.toList = kvs
    induction kvs generalizing s with
    | nil => rfl
    | cons kv kvs ihk => exact ihk (s.put e.1 kv.1 kv.2)

/-- **Installing.** The keys of the snapshot are there, and the keys outside the recorded
collections stay. -/
theorem isSome_data_restorePayload (sm : StateMachineStore V B) (p : SnapshotPayload V)
    (x : String) :
    (sm.restorePayload p).store.data[x]?.isSome ↔
      p.HasKey x ∨ sm.store.data[x]?.isSome ∧ ¬Under sm.inner.smCollections x := by
  have hclear : (sm.inner.smCollections.toList.foldl clearCollection sm.store).data[x]?.isSome ↔
      sm.store.data[x]?.isSome ∧ ¬Under sm.inner.smCollections x := by
    simp only [Option.isSome_iff_exists, data_clear, ExtTreeSet.mem_toList, exists_and_right, Under,
      not_exists, not_and]
  rw [restorePayload, data_load, BTreeMap.isSome_foldl_insert, hclear,
    SnapshotPayload.hasKey_iff]

/-! ## Building -/

theorem getElem?_buildPayload (sm : StateMachineStore V B) (c : String) :
    sm.buildPayload.data[c]? =
      if c ∈ sm.inner.smCollections then some (ExtTreeMap.ofList (sm.store.list c)) else none := by
  have hfold : sm.buildPayload.data = (sm.inner.smCollections.toList.map fun c =>
      (c, ExtTreeMap.ofList (sm.store.list c))).foldl (fun m e => m.insert e.1 e.2) ∅ := by
    rw [List.foldl_map]
    rfl
  rw [hfold, BTreeMap.getElem?_foldl_insert
    (f := fun c => some (ExtTreeMap.ofList (sm.store.list c)))]
  · simp
  · intro e he
    obtain ⟨c, -, rfl⟩ := List.mem_map.1 he
    rfl

/-- A snapshot holds what the recorded collections hold. -/
theorem mem_entries_buildPayload (sm : StateMachineStore V B) {x : String} {v : V} :
    (x, v) ∈ sm.buildPayload.entries ↔
      Under sm.inner.smCollections x ∧ sm.store.data[x]? = some v := by
  simp only [SnapshotPayload.mem_entries, getElem?_buildPayload, Option.ite_none_right_eq_some,
    Option.some.injEq]
  constructor
  · rintro ⟨c, m, k, ⟨hc, rfl⟩, hk, rfl⟩
    rw [BTreeMap.getElem?_ofList (StateStore.nodup_keys_list ..), StateStore.mem_list] at hk
    exact ⟨⟨c, hc, k, rfl⟩, hk⟩
  · rintro ⟨⟨c, hc, k, rfl⟩, hv⟩
    refine ⟨c, _, k, ⟨hc, rfl⟩, ?_, rfl⟩
    rw [BTreeMap.getElem?_ofList (StateStore.nodup_keys_list ..), StateStore.mem_list]
    exact hv

theorem hasKey_buildPayload (sm : StateMachineStore V B) {x : String} :
    sm.buildPayload.HasKey x ↔ Under sm.inner.smCollections x ∧ sm.store.data[x]?.isSome := by
  rw [SnapshotPayload.hasKey_iff, Option.isSome_iff_exists, ← exists_and_left]
  simp only [List.mem_map, Prod.exists, exists_and_right, exists_eq_right,
    mem_entries_buildPayload]

/-- Where a snapshot holds a key, installing it gives the key the value of the source. -/
theorem data_restorePayload_buildPayload (sm sm' : StateMachineStore V B) {x : String}
    (hx : sm.buildPayload.HasKey x) :
    (sm'.restorePayload sm.buildPayload).store.data[x]? = sm.store.data[x]? := by
  rw [restorePayload, data_load, BTreeMap.getElem?_foldl_insert (f := fun x => sm.store.data[x]?),
    if_pos (SnapshotPayload.hasKey_iff.1 hx)]
  exact fun e he => ((mem_entries_buildPayload sm).1 he).2

/-! ## Covered stores -/

/-- Every stored key lies in a recorded collection. -/
def Covered (sm : StateMachineStore V B) : Prop :=
  ∀ x : String, sm.store.data[x]?.isSome → Under sm.inner.smCollections x

theorem covered_newStorage : (newStorage .empty : StateMachineStore V B).Covered := by
  intro x hx
  simp [newStorage] at hx

theorem Covered.after {sm : StateMachineStore V B} (h : sm.Covered) (es : List (Entry V)) :
    (sm.after es).Covered := by
  intro x hx
  by_cases hn : UnderNamed es x
  · obtain ⟨c, hc, k, rfl⟩ := hn
    exact ⟨c, (mem_smCollections_after sm es).2 (.inr hc), k, rfl⟩
  · rw [data_after_of_not_under sm es hn] at hx
    obtain ⟨c, hc, k, rfl⟩ := h x hx
    exact ⟨c, (mem_smCollections_after sm es).2 (.inl hc), k, rfl⟩

/-- The snapshot of a covered store, installed over a covered store, copies the store. -/
theorem store_restorePayload_buildPayload {sm sm' : StateMachineStore V B} (h : sm.Covered)
    (h' : sm'.Covered) : (sm'.restorePayload sm.buildPayload).store = sm.store := by
  ext1 x
  by_cases hx : sm.buildPayload.HasKey x
  · exact data_restorePayload_buildPayload sm sm' hx
  · have hsrc : sm.store.data[x]? = none := by
      by_contra hne
      have hs := Option.isSome_iff_ne_none.2 hne
      exact hx ((hasKey_buildPayload sm).2 ⟨h x hs, hs⟩)
    have hdst : ¬(sm'.restorePayload sm.buildPayload).store.data[x]?.isSome := by
      rw [isSome_data_restorePayload, not_or, not_and_not_right]
      exact ⟨hx, h' x⟩
    rw [hsrc]
    simpa using hdst

/-- Installing takes over the recorded collections. -/
theorem smCollections_restorePayload_buildPayload (sm sm' : StateMachineStore V B) :
    (sm'.restorePayload sm.buildPayload).inner.smCollections = sm.inner.smCollections := by
  refine ExtTreeSet.ext_mem fun c => ?_
  rw [restorePayload, BTreeSet.mem_foldl_insert]
  simp only [List.mem_map, Prod.exists, exists_and_right, exists_eq_right,
    ExtTreeMap.mem_toList_iff_getElem?_eq_some, getElem?_buildPayload,
    Option.ite_none_right_eq_some]
  simp

end StateMachineStore

/-! ## Snapshots over a reopened store -/

section Reopened

open StateMachineStore

variable (codec : SnapshotCodec V)

/-- A snapshot built over the store `s` after applying `es` and installed over an empty store
reproduces every collection of the source. -/
def SnapshotCaptures (s : StateStore V) (es : List (Entry V)) : Prop :=
  ∃ sm, installSnapshot codec (newStorage .empty)
      (buildSnapshot codec ((newStorage s).after es)).1 = some sm ∧
    ∀ c k, sm.store.get c k =
      ((newStorage s : StateMachineStore V codec.Bytes).after es).store.get c k

/-- Installing a snapshot of content `p` over the store `s` after applying `es` leaves exactly the
snapshot's keys. -/
def InstallLeavesExactly (s : StateStore V) (es : List (Entry V)) (p : SnapshotPayload V) : Prop :=
  ∀ smeta, ∃ sm, installSnapshot codec ((newStorage s).after es) ⟨smeta, codec.encode p⟩ = some sm ∧
    ∀ c k, (sm.store.get c k).isSome ↔ p.HasKey (composite c k)

theorem under_smCollections_after (s : StateStore V) (es : List (Entry V)) (x : String) :
    Under ((newStorage s : StateMachineStore V B).after es).inner.smCollections x ↔
      UnderNamed es x := by
  have hnew : ∀ c, c ∉ (newStorage s : StateMachineStore V B).inner.smCollections := fun c =>
    ExtTreeSet.not_mem_empty
  simp only [Under, UnderNamed, mem_smCollections_after, hnew, false_or]

theorem installSnapshot_encode (sm : StateMachineStore V codec.Bytes) (smeta : SnapshotMeta)
    (p : SnapshotPayload V) :
    ∃ sm', installSnapshot codec sm ⟨smeta, codec.encode p⟩ = some sm' ∧
      sm'.store = (sm.restorePayload p).store := by
  rw [installSnapshot, codec.decode_encode]
  exact ⟨_, rfl, rfl⟩

theorem snapshotCaptures_iff (s : StateStore V) (es : List (Entry V)) :
    SnapshotCaptures codec s es ↔
      ∀ c k, (s.get c k).isSome → UnderNamed es (composite c k) := by
  obtain ⟨sm, hsm, hstore⟩ := installSnapshot_encode codec (newStorage .empty)
    (buildSnapshot codec ((newStorage s).after es)).1.smeta
    ((newStorage s : StateMachineStore V codec.Bytes).after es).buildPayload
  have hinst : installSnapshot codec (newStorage .empty)
      (buildSnapshot codec ((newStorage s).after es)).1 = some sm := hsm
  rw [SnapshotCaptures, hinst]
  simp only [Option.some.injEq, exists_eq_left', hstore, StateStore.get]
  constructor
  · -- a key outside the named collections stays in the source and is not in the snapshot
    intro h c k hs
    by_contra hn
    have hsrc := (data_after_of_not_under (B := codec.Bytes) (newStorage s) es hn).trans
      (rfl : _ = s.data[composite c k]?)
    have hkey : ((newStorage .empty : StateMachineStore V codec.Bytes).restorePayload
        ((newStorage s : StateMachineStore V codec.Bytes).after es).buildPayload).store.data[
          composite c k]?.isSome := by
      rw [h c k, hsrc]
      exact hs
    rw [isSome_data_restorePayload, hasKey_buildPayload, under_smCollections_after] at hkey
    simp [hn, newStorage] at hkey
  · -- otherwise the source is covered, key by key
    intro h c k
    by_cases hx : ((newStorage s : StateMachineStore V codec.Bytes).after es).buildPayload.HasKey
        (composite c k)
    · exact data_restorePayload_buildPayload _ _ hx
    · have hsrc : ((newStorage s : StateMachineStore V codec.Bytes).after es).store.data[
          composite c k]? = none := by
        rw [hasKey_buildPayload, under_smCollections_after] at hx
        by_cases hn : UnderNamed es (composite c k)
        · simpa [hn] using hx
        · rw [data_after_of_not_under _ es hn]
          exact Option.not_isSome_iff_eq_none.1 (mt (h c k) hn)
      have hdst := mt (isSome_data_restorePayload
        (newStorage .empty : StateMachineStore V codec.Bytes) _ (composite c k)).1
        (not_or.2 ⟨hx, by simp [newStorage]⟩)
      rw [hsrc]
      simpa using hdst

theorem installLeavesExactly_iff (s : StateStore V) (es : List (Entry V)) (p : SnapshotPayload V) :
    InstallLeavesExactly codec s es p ↔
      ∀ c k, (s.get c k).isSome → UnderNamed es (composite c k) ∨ p.HasKey (composite c k) := by
  have key : ∀ c k, (((newStorage s : StateMachineStore V codec.Bytes).after es).restorePayload
      p).store.data[composite c k]?.isSome ↔ p.HasKey (composite c k) ∨
        (s.get c k).isSome ∧ ¬UnderNamed es (composite c k) := by
    intro c k
    rw [isSome_data_restorePayload, under_smCollections_after]
    refine or_congr_right (and_congr_left fun hn => ?_)
    rw [data_after_of_not_under _ es hn]
    rfl
  constructor
  · intro h c k hs
    obtain ⟨sm, hsm, hiff⟩ := h ⟨none, .default, ""⟩
    obtain ⟨sm', hsm', hstore⟩ := installSnapshot_encode codec ((newStorage s).after es)
      ⟨none, .default, ""⟩ p
    obtain rfl := Option.some.inj (hsm.symm.trans hsm')
    by_contra hn
    rw [not_or] at hn
    refine hn.2 ((hiff c k).1 ?_)
    rw [StateStore.get, hstore, key]
    exact .inr ⟨hs, hn.1⟩
  · intro h smeta
    obtain ⟨sm, hsm, hstore⟩ := installSnapshot_encode codec ((newStorage s).after es) smeta p
    refine ⟨sm, hsm, fun c k => ?_⟩
    rw [StateStore.get, hstore, key, or_iff_left_iff_imp]
    exact fun ⟨hs, hn⟩ => (h c k hs).resolve_left hn

/-- **Snapshots and a reopened store.** A snapshot captures the store exactly when every key that
the store held at the start lies in a collection that some command named since; an install leaves
exactly the snapshot's keys when every other key held at the start is one of them. -/
theorem reopened_snapshot_iff (s t : StateStore V) (es fs : List (Entry V))
    (p : SnapshotPayload V) :
    (SnapshotCaptures codec s es ↔
      ∀ c k, (s.get c k).isSome → UnderNamed es (composite c k)) ∧
    (InstallLeavesExactly codec t fs p ↔
      ∀ c k, (t.get c k).isSome → UnderNamed fs (composite c k) ∨ p.HasKey (composite c k)) :=
  ⟨snapshotCaptures_iff codec s es, installLeavesExactly_iff codec t fs p⟩

/-- A codec that keeps the payload as it is. -/
def SnapshotCodec.plain (V : Type) : SnapshotCodec V where
  Bytes := SnapshotPayload V
  encode := id
  decode := some
  showLeader l := "T" ++ toString l.term ++ "-N" ++ toString l.nodeId
  decode_encode _ := rfl

/-- A database that already holds one VPC when the node starts. -/
def reopenedStore : StateStore (List UInt8) := StateStore.empty.put "vpcs" "vpc-a" [123, 125]

/-- Right after a restart a snapshot misses the VPC that the database holds, and installing an
empty snapshot leaves it in place. -/
theorem reopenedStore_snapshot :
    ¬SnapshotCaptures (.plain _) reopenedStore [] ∧
      ¬InstallLeavesExactly (.plain _) reopenedStore [] ⟨none, .default, ∅⟩ := by
  have hget : (reopenedStore.get "vpcs" "vpc-a").isSome := by decide
  have hnamed : ¬UnderNamed ([] : List (Entry (List UInt8))) (composite "vpcs" "vpc-a") := by
    simp [UnderNamed, NamedBy]
  rw [snapshotCaptures_iff, installLeavesExactly_iff]
  refine ⟨fun h => hnamed (h _ _ hget), fun h => (h _ _ hget).elim hnamed ?_⟩
  rintro ⟨c, m, k, v, hm, -⟩
  simp at hm

end Reopened

end OCF.Consensus
