import OCF.Api.Wireguard
import Mathlib.Data.String.Basic

/-!
# Overlay addresses over time

The overlay addresses of a machine follow from its index in the plan, its position among the machines
sorted by name, and the plan is made afresh on every call. What has been handed out on the strength of
an earlier plan is kept: the Raft endpoint a node advertises when it joins stays in the membership.

A machine that is added takes the last index only if its name comes after every other. Any other name
moves the machines behind it; and machines that share a name change places with the iteration order of
the map that lists them. `keepsAddresses_iff` says this for every history of additions.
-/

namespace OCF.Api

open OCF.Fabric OCF.Topology

/-! ## Indexes and addresses -/

namespace WgNode

variable (n : WgNode)

/-- The machines sorted by name. -/
def byName : List Machine := n.machines.insertionSort fun a b => a.metadata.name ≤ b.metadata.name

/-- The index that the plan gives the machine with an id. -/
def planIndex (id : Id) : Option ℕ := (n.machinePlan.find? fun e => e.1 = id).map fun e => e.2.2.1

/-- The overlay address that the plan gives the machine with an id on a plane. -/
def overlayIp (plane : WgPlane) (id : Id) : Option String := (n.planIndex id).map plane.ip

/-- The endpoint the node advertises for Raft. -/
def raftEndpoint (raftPort : UInt16) : String :=
  ((n.machinePlan.find? fun e => e.2.1 = n.nodeId).map fun e => wgMgmt.ip e.2.2.1).getD "127.0.0.1" ++
    ":" ++ toString raftPort.toNat

/-- The node sees the machines of a topology, in whatever order the map lists them. -/
def Lists (t : InMemoryTopology) : Prop := n.machines.Perm t.allMachines

end WgNode

/-- Every machine is kept under its own id, as `putMachine` does. -/
def KeyedById (t : InMemoryTopology) : Prop :=
  ∀ k m, t.machines.lookup k = some m → m.metadata.id = k

/-- Every machine of the first topology has the same addresses in the second, and the Raft endpoint it
advertised in the first is its management address in the second. -/
def KeepsAddresses (raftPort : UInt16) (t t' : InMemoryTopology) : Prop :=
  ∀ n n' : WgNode, n.Lists t → n'.Lists t' → ∀ m ∈ t.allMachines,
    (n'.planIndex m.metadata.id = n.planIndex m.metadata.id ∧
      ∀ plane, n'.overlayIp plane m.metadata.id = n.overlayIp plane m.metadata.id) ∧
    (n.nodeId = m.metadata.name → (n'.overlayIp wgMgmt m.metadata.id).map
      (fun ip => ip ++ ":" ++ toString raftPort.toNat) = some (n.raftEndpoint raftPort))

/-- The machines have distinct names, all before the name of the new one. -/
def ComesLast (t : InMemoryTopology) (m : Machine) : Prop :=
  (t.allMachines.map fun x => x.metadata.name).Nodup ∧
    ∀ x ∈ t.allMachines, x.metadata.name < m.metadata.name

/-! ## Positions in a list with distinct keys -/

theorem findIdx?_key_iff {α κ : Type*} [DecidableEq κ] {key : α → κ} {l : List α}
    (h : (l.map key).Nodup) {k : κ} {i : ℕ} :
    l.findIdx? (fun a => key a = k) = some i ↔ ∃ a, l[i]? = some a ∧ key a = k := by
  rw [List.findIdx?_eq_some_iff_getElem]
  constructor
  · rintro ⟨hi, hk, -⟩
    exact ⟨l[i], List.getElem?_eq_getElem hi, by simpa using hk⟩
  · rintro ⟨a, ha, rfl⟩
    obtain ⟨hi, rfl⟩ := List.getElem?_eq_some_iff.1 ha
    refine ⟨hi, by simp, fun j hj hk => ?_⟩
    have hlen : j < (l.map key).length := by
      rw [List.length_map]
      omega
    have hji : j = i := by
      refine (List.getElem?_inj hlen h).1 ?_
      rw [List.getElem?_map, List.getElem?_map, List.getElem?_eq_getElem hi,
        List.getElem?_eq_getElem (hj.trans hi), Option.map_some, Option.map_some]
      simpa using hk
    omega

namespace WgNode

variable {n n' : WgNode} {t : InMemoryTopology} {m x y : Machine}

theorem planIndex_eq (n : WgNode) (id : Id) :
    n.planIndex id = n.byName.findIdx? fun m => m.metadata.id = id := by
  rw [List.findIdx?_eq_fst_find?_zipIdx, planIndex, machinePlan, List.find?_map, Option.map_map]
  rfl

theorem raftEndpoint_eq (n : WgNode) (raftPort : UInt16) :
    n.raftEndpoint raftPort =
      ((n.byName.findIdx? fun m => m.metadata.name = n.nodeId).map wgMgmt.ip).getD "127.0.0.1" ++
        ":" ++ toString raftPort.toNat := by
  rw [List.findIdx?_eq_fst_find?_zipIdx, raftEndpoint, machinePlan, List.find?_map, Option.map_map,
    Option.map_map]
  rfl

theorem byName_perm (n : WgNode) : n.byName.Perm n.machines := List.perm_insertionSort _ _

theorem planIndex_iff (h : (n.machines.map fun m => m.metadata.id).Nodup) {id : Id} {i : ℕ} :
    n.planIndex id = some i ↔ ∃ m, n.byName[i]? = some m ∧ m.metadata.id = id := by
  rw [planIndex_eq]
  exact findIdx?_key_iff ((n.byName_perm.map _).nodup_iff.2 h)

/-- The sort is stable: of two machines in the order of their names, the one listed first has the
smaller index. -/
theorem planIndex_lt (h : (n.machines.map fun m => m.metadata.id).Nodup)
    (hle : x.metadata.name ≤ y.metadata.name) (hxy : [x, y].Sublist n.machines) :
    ∃ i j, i < j ∧ n.planIndex x.metadata.id = some i ∧ n.planIndex y.metadata.id = some j := by
  have hsub : [x, y].Sublist n.byName := List.pair_sublist_insertionSort hle hxy
  obtain ⟨r₁, r₂, hr, hx, hy⟩ := List.cons_sublist_iff.1 hsub
  obtain ⟨i, hi⟩ := List.getElem?_of_mem hx
  obtain ⟨j, hj⟩ := List.getElem?_of_mem (List.singleton_sublist.1 hy)
  have hlt : i < r₁.length := (List.getElem?_eq_some_iff.1 hi).1
  refine ⟨i, r₁.length + j, by omega, (planIndex_iff h).2 ⟨x, ?_, rfl⟩,
    (planIndex_iff h).2 ⟨y, ?_, rfl⟩⟩
  · rw [hr, List.getElem?_append_left hlt, hi]
  · rw [hr, List.getElem?_append_right (Nat.le_add_right ..), Nat.add_sub_cancel_left, hj]

end WgNode

/-! ## One machine is added -/

section Add

variable {n n' : WgNode} {t : InMemoryTopology} {m x y : Machine} {raftPort : UInt16}

theorem KeyedById.nodup (ht : KeyedById t) : (t.allMachines.map fun m => m.metadata.id).Nodup :=
  HashMap.nodup_map_values ht

theorem WgNode.Lists.nodup (h : n.Lists t) (ht : KeyedById t) :
    (n.machines.map fun m => m.metadata.id).Nodup :=
  (h.map _).nodup_iff.2 ht.nodup

theorem WgNode.Lists.mem_byName (h : n.Lists t) : m ∈ n.byName ↔ m ∈ t.allMachines :=
  n.byName_perm.mem_iff.trans h.mem_iff

theorem keyedById_putMachine (ht : KeyedById t) : KeyedById (t.putMachine m) := by
  intro k x hx
  rw [InMemoryTopology.putMachine, HashMap.lookup_insert_eq] at hx
  split_ifs at hx with hk
  · rw [hk, ← Option.some.inj hx]
  · exact ht k x hx

theorem allMachines_putMachine (hnew : m.metadata.id ∉ t.machines) :
    (t.putMachine m).allMachines = m :: t.allMachines := by
  rw [InMemoryTopology.allMachines, InMemoryTopology.putMachine, HashMap.values,
    AList.entries_insert_of_notMem hnew]
  rfl

theorem id_ne_of_mem (ht : KeyedById t) (hnew : m.metadata.id ∉ t.machines)
    (hx : x ∈ t.allMachines) : x.metadata.id ≠ m.metadata.id := by
  obtain ⟨k, hk⟩ := HashMap.mem_values.1 hx
  intro heq
  exact hnew (HashMap.mem_iff_exists_lookup.2 ⟨x, by rwa [← heq, ht k x hk]⟩)

theorem pairwise_byName (n : WgNode) :
    n.byName.Pairwise fun a b => a.metadata.name ≤ b.metadata.name := by
  have : Std.Total fun a b : Machine => a.metadata.name ≤ b.metadata.name :=
    ⟨fun a b => le_total a.metadata.name b.metadata.name⟩
  have : IsTrans Machine fun a b => a.metadata.name ≤ b.metadata.name :=
    ⟨fun _ _ _ => le_trans⟩
  exact List.pairwise_insertionSort _ _

/-- Machines with distinct names are sorted in one way. -/
theorem byName_eq_of_perm {l : List Machine} (hnames : (l.map fun x => x.metadata.name).Nodup)
    (hl : l.Pairwise fun a b => a.metadata.name ≤ b.metadata.name) (hperm : n.machines.Perm l) :
    n.byName = l := by
  have hp := n.byName_perm.trans hperm
  refine List.Perm.eq_of_pairwise (fun a b ha hb hab hba => ?_) (pairwise_byName n) hl hp
  exact List.inj_on_of_nodup_map hnames (hp.mem_iff.1 ha) hb (le_antisymm hab hba)

/-- A machine that comes last is appended to the plan. -/
theorem byName_putMachine (hnew : m.metadata.id ∉ t.machines) (h : ComesLast t m) (hn : n.Lists t)
    (hn' : n'.Lists (t.putMachine m)) : n'.byName = n.byName ++ [m] := by
  have hnames : (n.byName.map fun x => x.metadata.name).Nodup :=
    ((n.byName_perm.trans hn).map _).nodup_iff.2 h.1
  have hlt : ∀ x ∈ n.byName, x.metadata.name < m.metadata.name :=
    fun x hx => h.2 x (hn.mem_byName.1 hx)
  refine byName_eq_of_perm ?_ ?_ ?_
  · rw [List.map_append, List.nodup_append]
    refine ⟨hnames, List.nodup_singleton _, fun a ha b hb => ?_⟩
    obtain ⟨x, hx, rfl⟩ := List.mem_map.1 ha
    rw [List.mem_singleton.1 hb]
    exact (hlt x hx).ne
  · rw [List.pairwise_append]
    refine ⟨?_, List.pairwise_singleton _ _, fun x hx y hy => ?_⟩
    · exact pairwise_byName n
    · rw [List.mem_singleton.1 hy]
      exact (hlt x hx).le
  · rw [WgNode.Lists, allMachines_putMachine hnew] at hn'
    exact hn'.trans ((hn.symm.trans n.byName_perm.symm).cons m |>.trans
      (List.perm_append_singleton m n.byName).symm)

theorem keepsAddresses_of_comesLast (ht : KeyedById t) (hnew : m.metadata.id ∉ t.machines)
    (h : ComesLast t m) : KeepsAddresses raftPort t (t.putMachine m) := by
  intro n n' hn hn' x hx
  obtain ⟨i, hi⟩ := List.getElem?_of_mem (hn.mem_byName.2 hx)
  have hidx : n.planIndex x.metadata.id = some i := (WgNode.planIndex_iff (hn.nodup ht)).2 ⟨x, hi, rfl⟩
  have hidx' : n'.planIndex x.metadata.id = some i := by
    rw [WgNode.planIndex_eq, byName_putMachine hnew h hn hn', List.findIdx?_append,
      ← WgNode.planIndex_eq, hidx, Option.some_or]
  refine ⟨⟨hidx'.trans hidx.symm, fun plane => ?_⟩, fun hname => ?_⟩
  · rw [WgNode.overlayIp, WgNode.overlayIp, hidx, hidx']
  · have hnames : (n.byName.map fun x => x.metadata.name).Nodup :=
      ((n.byName_perm.trans hn).map _).nodup_iff.2 h.1
    have hself : (n.byName.findIdx? fun m => m.metadata.name = n.nodeId) = some i :=
      (findIdx?_key_iff hnames).2 ⟨x, hi, hname.symm⟩
    rw [WgNode.overlayIp, hidx', WgNode.raftEndpoint_eq, hself]
    rfl

/-- Machines that share a name can change places. -/
theorem nodup_names_of_keepsAddresses (ht : KeyedById t)
    (h : KeepsAddresses raftPort t (t.putMachine m)) :
    (t.allMachines.map fun x => x.metadata.name).Nodup := by
  rw [List.nodup_map_iff_inj_on (List.Nodup.of_map _ ht.nodup)]
  intro x hx y hy hname
  by_contra hne
  have hy' : y ∈ t.allMachines.erase x := (List.mem_erase_of_ne (Ne.symm hne)).2 hy
  have hperm := (List.perm_cons_erase hx).trans ((List.perm_cons_erase hy').cons x)
  let rest := (t.allMachines.erase x).erase y
  -- the same machines, listed in two orders
  let n : WgNode := ⟨"", x :: y :: rest, .new ⟨""⟩, ∅⟩
  let n₁ : WgNode := ⟨"", y :: x :: rest, .new ⟨""⟩, ∅⟩
  let n' : WgNode := ⟨"", (t.putMachine m).allMachines, .new ⟨""⟩, ∅⟩
  have hn : n.Lists t := hperm.symm
  have hn₁ : n₁.Lists t := (List.Perm.swap x y rest).trans hperm.symm
  have hsame : ∀ z ∈ t.allMachines, n.planIndex z.metadata.id = n₁.planIndex z.metadata.id :=
    fun z hz => (h n n' hn (.refl _) z hz).1.1.symm.trans (h n₁ n' hn₁ (.refl _) z hz).1.1
  obtain ⟨i, j, hij, hi, hj⟩ := WgNode.planIndex_lt (n := n) (hn.nodup ht) hname.le
    (by simp [n])
  obtain ⟨j', i', hij', hj', hi'⟩ := WgNode.planIndex_lt (n := n₁) (hn₁.nodup ht) hname.ge
    (by simp [n₁])
  have h₁ := Option.some.inj (hi.symm.trans ((hsame x hx).trans hi'))
  have h₂ := Option.some.inj (hj.symm.trans ((hsame y hy).trans hj'))
  omega

/-- A machine that does not come after another one takes an index that was taken. -/
theorem lt_of_keepsAddresses (ht : KeyedById t) (hnew : m.metadata.id ∉ t.machines)
    (h : KeepsAddresses raftPort t (t.putMachine m)) (hx : x ∈ t.allMachines) :
    x.metadata.name < m.metadata.name := by
  by_contra hle
  rw [not_lt] at hle
  let n : WgNode := ⟨"", t.allMachines, .new ⟨""⟩, ∅⟩
  let n' : WgNode := ⟨"", m :: t.allMachines, .new ⟨""⟩, ∅⟩
  have hn : n.Lists t := .refl _
  have hn' : n'.Lists (t.putMachine m) := by
    rw [WgNode.Lists, allMachines_putMachine hnew]
  have hnodup' := hn'.nodup (keyedById_putMachine ht)
  obtain ⟨i, j, hij, hi, hj⟩ := WgNode.planIndex_lt hnodup' hle
    ((List.singleton_sublist.2 hx).cons_cons m)
  rw [(h n n' hn hn' x hx).1.1] at hj
  obtain ⟨_, hxj, -⟩ := (WgNode.planIndex_iff (hn.nodup ht)).1 hj
  -- the machine that had the index of the new one
  have hlt : i < n.byName.length := hij.trans (List.getElem?_eq_some_iff.1 hxj).1
  have hmem : n.byName[i] ∈ t.allMachines := hn.mem_byName.1 (List.getElem_mem hlt)
  have hold := (WgNode.planIndex_iff (hn.nodup ht)).2 ⟨_, List.getElem?_eq_getElem hlt, rfl⟩
  rw [← (h n n' hn hn' _ hmem).1.1] at hold
  obtain ⟨a, ha, hid⟩ := (WgNode.planIndex_iff hnodup').1 hold
  obtain ⟨b, hb, hid'⟩ := (WgNode.planIndex_iff hnodup').1 hi
  obtain rfl := Option.some.inj (ha.symm.trans hb)
  exact id_ne_of_mem ht hnew hmem (hid.symm.trans hid')

theorem keepsAddresses_putMachine_iff (ht : KeyedById t) (hnew : m.metadata.id ∉ t.machines) :
    KeepsAddresses raftPort t (t.putMachine m) ↔ ComesLast t m :=
  ⟨fun h => ⟨nodup_names_of_keepsAddresses ht h, fun _ hx => lt_of_keepsAddresses ht hnew h hx⟩,
    keepsAddresses_of_comesLast ht hnew⟩

end Add

/-! ## Histories of additions -/

/-- The topology after machines are put one after the other. -/
def putMachines (t : InMemoryTopology) (ms : List Machine) : InMemoryTopology :=
  ms.foldl InMemoryTopology.putMachine t

section History

variable {t t' t'' : InMemoryTopology} {ms : List Machine} {m : Machine} {raftPort : UInt16} {j : ℕ}

theorem KeepsAddresses.trans (h : KeepsAddresses raftPort t t') (h' : KeepsAddresses raftPort t' t'')
    (hsub : ∀ x ∈ t.allMachines, x ∈ t'.allMachines) : KeepsAddresses raftPort t t'' := by
  intro n n'' hn hn'' x hx
  let n' : WgNode := { n with machines := t'.allMachines }
  obtain ⟨⟨hidx, hip⟩, hraft⟩ := h n n' hn (.refl _) x hx
  obtain ⟨⟨hidx', hip'⟩, -⟩ := h' n' n'' (.refl _) hn'' x (hsub x hx)
  refine ⟨⟨hidx'.trans hidx, fun plane => (hip' plane).trans (hip plane)⟩, fun hname => ?_⟩
  rw [hip', hraft hname]

theorem putMachines_take_succ (hj : ms[j]? = some m) :
    putMachines t (ms.take (j + 1)) = (putMachines t (ms.take j)).putMachine m := by
  rw [putMachines, List.take_add_one, hj, Option.toList_some, List.foldl_append]
  rfl

theorem keyedById_putMachines (ht : KeyedById t) : KeyedById (putMachines t ms) :=
  List.foldlRecOn (motive := KeyedById) ms _ ht fun _ h _ _ => keyedById_putMachine h

theorem mem_putMachines {k : Id} (h : k ∈ (putMachines t ms).machines) :
    k ∈ t.machines ∨ k ∈ ms.map fun m => m.metadata.id := by
  induction ms generalizing t with
  | nil => exact .inl h
  | cons m ms ih =>
    rcases ih h with h | h
    · rw [InMemoryTopology.putMachine, AList.mem_insert] at h
      rcases h with rfl | h
      · exact .inr (List.mem_cons_self ..)
      · exact .inl h
    · exact .inr (List.mem_cons_of_mem _ h)

/-- Every machine of a history is new when its turn comes. -/
theorem notMem_putMachines_take (hids : (ms.map fun m => m.metadata.id).Nodup)
    (hnew : ∀ m ∈ ms, m.metadata.id ∉ t.machines) (hj : ms[j]? = some m) :
    m.metadata.id ∉ (putMachines t (ms.take j)).machines := by
  intro hmem
  rcases mem_putMachines hmem with h | h
  · exact hnew m (List.mem_of_getElem? hj) h
  · rw [List.map_take, List.mem_take_iff_getElem] at h
    obtain ⟨i, hi, heq⟩ := h
    have hji : i = j := by
      refine (List.getElem?_inj (by omega) hids).1 ?_
      rw [List.getElem?_eq_getElem (by omega), heq, List.getElem?_map, hj, Option.map_some]
    omega

/-- Along every history of additions, all machines keep their addresses and the Raft endpoints they
advertised stay right, if and only if each new machine comes after the ones that are there, whose names
are distinct. -/
theorem keepsAddresses_iff (raftPort : UInt16) (t : InMemoryTopology) (ms : List Machine)
    (ht : KeyedById t) (hids : (ms.map fun m => m.metadata.id).Nodup)
    (hnew : ∀ m ∈ ms, m.metadata.id ∉ t.machines) :
    (∀ j k, j < k → k ≤ ms.length → KeepsAddresses raftPort (putMachines t (ms.take j))
      (putMachines t (ms.take k))) ↔
    ∀ j m, ms[j]? = some m → ComesLast (putMachines t (ms.take j)) m := by
  have hstep : ∀ j m, ms[j]? = some m → (KeepsAddresses raftPort (putMachines t (ms.take j))
      (putMachines t (ms.take (j + 1))) ↔ ComesLast (putMachines t (ms.take j)) m) := by
    intro j m hj
    rw [putMachines_take_succ hj]
    exact keepsAddresses_putMachine_iff (keyedById_putMachines ht)
      (notMem_putMachines_take hids hnew hj)
  constructor
  · intro h j m hj
    exact (hstep j m hj).1 (h j (j + 1) (Nat.lt_succ_self j) (List.getElem?_eq_some_iff.1 hj).1)
  · intro h j k hjk hk
    -- the machines that are there at `j` are there at `k`, and keep their addresses up to there
    suffices hboth : KeepsAddresses raftPort (putMachines t (ms.take j)) (putMachines t (ms.take k)) ∧
        ∀ x ∈ (putMachines t (ms.take j)).allMachines, x ∈ (putMachines t (ms.take k)).allMachines from
      hboth.1
    induction k, hjk using Nat.le_induction with
    | base =>
      have hj : ms[j]? = some ms[j] := List.getElem?_eq_getElem hk
      refine ⟨(hstep j _ hj).2 (h j _ hj), fun x hx => ?_⟩
      rw [putMachines_take_succ hj, allMachines_putMachine (notMem_putMachines_take hids hnew hj)]
      exact List.mem_cons_of_mem _ hx
    | succ k _ ih =>
      obtain ⟨hkeeps, hsub⟩ := ih (Nat.le_of_succ_le hk)
      have hj : ms[k]? = some ms[k] := List.getElem?_eq_getElem hk
      refine ⟨hkeeps.trans ((hstep k _ hj).2 (h k _ hj)) hsub, fun x hx => ?_⟩
      rw [putMachines_take_succ hj, allMachines_putMachine (notMem_putMachines_take hids hnew hj)]
      exact List.mem_cons_of_mem _ (hsub x hx)

end History

/-- A machine with a name and nothing else. -/
def plainMachine (name : String) : Machine :=
  ⟨Metadata.named name, ⟨""⟩, ⟨""⟩, ⟨""⟩, none, none, .none, .pending, .unknown⟩

theorem keyedById_new : KeyedById .new := by
  intro k m h
  cases h

/-- After `a` is added, `b` has the second address and is still dialed at the first. -/
theorem addresses_move :
    ¬ ∀ (raftPort : UInt16) (t : InMemoryTopology) (ms : List Machine), KeyedById t →
      (ms.map fun m => m.metadata.id).Nodup → (∀ m ∈ ms, m.metadata.id ∉ t.machines) →
      ∀ j k, j < k → k ≤ ms.length → KeepsAddresses raftPort (putMachines t (ms.take j))
        (putMachines t (ms.take k)) := by
  intro h
  let b := plainMachine "b"
  let a := plainMachine "a"
  have hkeeps := h 7000 .new [b, a] keyedById_new (by decide) (by decide) 1 2 (by decide) (by decide)
  have hraft := (hkeeps ⟨"b", [b], .new ⟨""⟩, ∅⟩ ⟨"b", [a, b], .new ⟨""⟩, ∅⟩ (.refl _) (.refl _) b
    (List.mem_singleton_self b)).2 rfl
  exact absurd hraft (by decide +kernel)

theorem keepsAddresses_iff_inOrder :
    KeepsAddresses 7000 (putMachines .new [plainMachine "node-1"])
      (putMachines .new [plainMachine "node-1", plainMachine "node-2"]) := by
  refine (keepsAddresses_iff 7000 .new [plainMachine "node-1", plainMachine "node-2"] keyedById_new
    (by decide) (by decide)).2 ?_ 1 2 (by decide) (by decide)
  rintro (_ | _ | j) m hj
  · obtain rfl := Option.some.inj hj
    exact ⟨by decide, by decide⟩
  · obtain rfl := Option.some.inj hj
    exact ⟨by decide, by decide⟩
  · simp at hj

end OCF.Api
