import OCF.Api.RescheduleFailures

/-!
# Capacity on failover

A target is taken when the workload's request fits the whole capacity of the machine. What already
runs there is not looked at, nor what the same loop has moved there before. `no_overcommit_iff` says
for which states no machine is over-committed after a death: those in which every machine has room
for what is placed on it together with all that is moved to it.
-/

namespace OCF

namespace ResourceSpec

instance : Add ResourceSpec :=
  ⟨fun r r' => ⟨r.cpuMillis + r'.cpuMillis, r.memoryBytes + r'.memoryBytes,
    r.diskBytes + r'.diskBytes⟩⟩

instance : Zero ResourceSpec := ⟨none⟩

theorem add_def (r r' : ResourceSpec) : r + r' = ⟨r.cpuMillis + r'.cpuMillis,
    r.memoryBytes + r'.memoryBytes, r.diskBytes + r'.diskBytes⟩ := rfl

theorem zero_def : (0 : ResourceSpec) = ⟨0, 0, 0⟩ := rfl

/-- Requests add up on every dimension. -/
instance : AddCancelCommMonoid ResourceSpec where
  add_left_cancel r r' r'' h := by
    cases r'
    cases r''
    simpa [add_def] using h
  add_assoc r r' r'' := by simp [add_def, Nat.add_assoc]
  zero_add r := by simp [add_def, zero_def]
  add_zero r := by simp [add_def, zero_def]
  add_comm r r' := by simp [add_def, Nat.add_comm]
  nsmul := nsmulRec

end ResourceSpec

namespace Api

open OCF.Fabric OCF.Runtime OCF.Topology

section Total

variable {M : Type*} [AddCommMonoid M] (g : Workload → M)

/-- The sum of a quantity over all workloads that are listed. -/
def total (names : List String) (s : Hosted) : M := ((listed names s).map fun x => g x.2).sum

theorem total_cons (n : String) (names : List String) (s : Hosted) :
    total g (n :: names) s = ((HashMap.values (s n).workloads).map g).sum + total g names s := by
  rw [total, listed, List.flatMap_cons, List.map_append, List.sum_append, List.map_map]
  rfl

theorem total_congr {names : List String} {s s' : Hosted}
    (h : ∀ n ∈ names, ∀ id, s'.kept (n, id) = s.kept (n, id)) :
    total g names s' = total g names s := by
  induction names with
  | nil => rfl
  | cons n names ih =>
    have hhead : ((HashMap.values (s' n).workloads).map g).sum =
        ((HashMap.values (s n).workloads).map g).sum :=
      HashMap.sum_values_congr g (h n (List.mem_cons_self ..))
    rw [total_cons, total_cons, hhead, ih fun m hm => h m (List.mem_cons_of_mem _ hm)]

/-- When one kept workload is exchanged, so is what it contributes. -/
theorem total_replace {names : List String} (hnames : names.Nodup) {s s' : Hosted} {x : Item}
    {o : Option Workload} (hx : x.1 ∈ names) (hkept : s.kept x.key = some x.2)
    (h : ∀ k, s'.kept k = if k = x.key then o else s.kept k) :
    total g names s' + g x.2 = total g names s + o.elim 0 g := by
  induction names with
  | nil => exact absurd hx List.not_mem_nil
  | cons n names ih =>
    rw [List.nodup_cons] at hnames
    rw [total_cons, total_cons]
    rcases List.mem_cons.1 hx with rfl | hmem
    · have hrest : total g names s' = total g names s := by
        refine total_congr g fun m hm id => ?_
        have hne : (m, id) ≠ x.key := fun hk => hnames.1 (congrArg Prod.fst hk ▸ hm)
        rw [h, if_neg hne]
      have hhead : ((HashMap.values (s' x.1).workloads).map g).sum + g x.2 =
          ((HashMap.values (s x.1).workloads).map g).sum + o.elim 0 g := by
        refine HashMap.sum_values_replace g hkept fun id => (h (x.1, id)).trans ?_
        exact if_congr (by simp [Item.key]) rfl rfl
      rw [hrest, add_right_comm, hhead, add_right_comm]
    · have hne : n ≠ x.1 := fun e => hnames.1 (e ▸ hmem)
      have hhead : ((HashMap.values (s' n).workloads).map g).sum =
          ((HashMap.values (s n).workloads).map g).sum := by
        refine HashMap.sum_values_congr g fun id => ?_
        simpa [Hosted.kept, Item.key, hne] using h (n, id)
      rw [hhead, add_assoc, ih hnames.2 hmem, add_assoc]

end Total

/-! ## What is placed and what arrives -/

/-- The requests of the workloads placed on a machine, added up. -/
def used (names : List String) (s : Hosted) (id : Id) : ResourceSpec :=
  (((listed names s).filter fun x => x.2.node = some id).map fun x => x.2.resources).sum

/-- The deletion and the creation of the workload succeed. -/
def Item.recreated (pattern : Failures) (x : Item) : Bool :=
  (pattern x.1 .delete x.2.metadata.id).isNone && (pattern x.1 .create x.2.metadata.id).isNone

/-- Of the workloads that are due, those that arrive: all up to the first of which a call fails, and
that one too when only its start fails. -/
def arriving (pattern : Failures) : List Item → List Item
  | [] => []
  | x :: l =>
    if x.fails pattern then if x.recreated pattern then [x] else []
    else x :: arriving pattern l

/-- The requests of those workloads whose target is a machine, added up. -/
def incoming (alive : List Id) (machines : List Machine) (items : List Item) (id : Id) :
    ResourceSpec :=
  ((items.filter fun x => pickTarget x.2 alive machines = some id).map fun x => x.2.resources).sum

/-- On every surviving machine of the topology, a load fits the capacity. -/
def WithinCapacity (topology : InMemoryTopology) (t : Membership) (dead : Id)
    (load : Id → ResourceSpec) : Prop :=
  ∀ id ∈ survivors t dead, ∀ m, topology.allMachines.find? (fun m => m.metadata.id = id) = some m →
    (load id).fitsIn m.capacity

/-- What a workload contributes to the load of a machine. -/
def share (id : Id) (w : Workload) : ResourceSpec := if w.node = some id then w.resources else 0

theorem used_eq_total (names : List String) (s : Hosted) (id : Id) :
    used names s id = total (share id) names s := by
  unfold total share
  rw [List.sum_map_ite]
  simp [used]

section Steps

variable {pattern : Failures} {kinds : String → RuntimeKind} {dead : Id} {alive : List Id}
  {machines : List Machine} {names : List String} {s : Hosted} {x : Item} {id : Id}

variable (pattern kinds id) in
/-- A workload that is not due stays where it is. -/
theorem handleItem_not_due_kept (hdue : ¬due dead alive machines x) (h : s.kept x.key = some x.2) :
    ∃ w, (handleItem pattern kinds dead alive machines x s).2.kept x.key = some w ∧
      share id w = share id x.2 := by
  rw [handleItem, handleWorkload]
  by_cases hnode : x.2.node = some dead
  · rw [if_neg (not_not.2 hnode)]
    by_cases hha : x.2.highlyAvailable
    · cases ht : pickTarget x.2 alive machines with
      | none =>
        rw [if_pos hha]
        exact ⟨x.2, h, rfl⟩
      | some target => exact absurd (due_eq_true.2 ⟨hnode, hha, target, ht⟩) hdue
    · rw [if_neg hha]
      exact ⟨{ x.2 with state := .stopped }, keeping_stop_ok _ h, rfl⟩
  · rw [if_pos hnode]
    exact ⟨x.2, h, rfl⟩

/-- What one workload's handling adds to the load of a surviving machine. -/
theorem total_handleItem_due (hnames : names.Nodup) (hx : x.1 ∈ names) (hid : id ≠ dead)
    (hdue : due dead alive machines x) (h : s.kept x.key = some x.2) :
    total (share id) names (handleItem pattern kinds dead alive machines x s).2 =
      total (share id) names s + incoming alive machines
        (if x.recreated pattern then [x] else []) id := by
  obtain ⟨hnode, -, target, htarget⟩ := due_eq_true.1 hdue
  have hreplace := total_replace (share id) hnames hx h
    (handleItem_due pattern kinds hdue htarget h).2
  have hzero : share id x.2 = 0 := if_neg fun e => hid (Option.some.inj (e.symm.trans hnode))
  rw [hzero, add_zero] at hreplace
  rw [hreplace]
  congr 1
  unfold rescheduled Item.recreated incoming
  cases hd : pattern x.1 .delete x.2.metadata.id with
  | some e => simp [hzero]
  | none =>
    cases hc : pattern x.1 .create x.2.metadata.id with
    | some e => simp
    | none =>
      by_cases htid : target = id <;>
        cases hs : pattern x.1 .start x.2.metadata.id <;>
        simp [share, Workload.onNode, htarget, htid]

theorem total_handleItem_not_due (hnames : names.Nodup) (hx : x.1 ∈ names)
    (hdue : ¬due dead alive machines x) (h : s.kept x.key = some x.2) :
    total (share id) names (handleItem pattern kinds dead alive machines x s).2 =
      total (share id) names s := by
  obtain ⟨w, hw, hshare⟩ := handleItem_not_due_kept pattern kinds id hdue h
  have hkept : ∀ k, (handleItem pattern kinds dead alive machines x s).2.kept k =
      if k = x.key then some w else s.kept k := by
    intro k
    split_ifs with hk
    · rw [hk, hw]
    · exact (handleItem_not_due pattern kinds hdue).2 k hk
  have hreplace := total_replace (share id) hnames hx h hkept
  rw [Option.elim_some, hshare] at hreplace
  exact add_right_cancel hreplace

theorem incoming_cons (x : Item) (l : List Item) : incoming alive machines (x :: l) id =
    incoming alive machines [x] id + incoming alive machines l id := by
  rw [← List.singleton_append, incoming, List.filter_append, List.map_append, List.sum_append]
  rfl

/-- **One pass over a list of kept workloads**: a surviving machine gains the requests of those that
arrive on it. -/
theorem total_forEach (hnames : names.Nodup) (hid : id ≠ dead) {l : List Item}
    (hmem : ∀ x ∈ l, x.1 ∈ names) (hnodup : (l.map Item.key).Nodup)
    (hl : ∀ x ∈ l, s.kept x.key = some x.2) :
    total (share id) names (forEach (handleItem pattern kinds dead alive machines) l s).2 =
      total (share id) names s + incoming alive machines
        (arriving pattern (l.filter (due dead alive machines))) id := by
  induction l generalizing s with
  | nil => exact (add_zero _).symm
  | cons x l ih =>
    rw [List.map_cons, List.nodup_cons] at hnodup
    have hx := hl x (List.mem_cons_self ..)
    have hxn := hmem x (List.mem_cons_self ..)
    have hrest : ∀ y ∈ l, (handleItem pattern kinds dead alive machines x s).2.kept y.key =
        some y.2 := by
      intro y hy
      have hyx : y.key ≠ x.key := fun e => hnodup.1 (e ▸ List.mem_map_of_mem hy)
      rw [handleItem_frame hx hyx]
      exact hl y (List.mem_cons_of_mem _ hy)
    have ih := ih (fun y hy => hmem y (List.mem_cons_of_mem _ hy)) hnodup.2 hrest
    rw [forEach_cons_state]
    by_cases hdue : due dead alive machines x
    swap
    · obtain ⟨ms, hms⟩ := isOk_eq_true (handleItem_not_due pattern kinds (s := s) hdue).1
      rw [List.filter_cons_of_neg hdue, hms, ← total_handleItem_not_due hnames hxn hdue hx]
      exact ih
    obtain ⟨-, -, target, ht⟩ := due_eq_true.1 hdue
    have hok := (handleItem_due pattern kinds hdue ht hx).1
    have hstep : total (share id) names (handleItem pattern kinds dead alive machines x s).2 = _ :=
      total_handleItem_due hnames hxn hid hdue hx
    rw [List.filter_cons_of_pos hdue, arriving]
    cases hf : x.fails pattern with
    | true =>
      obtain ⟨e, he⟩ := isOk_eq_false (hok.trans (by rw [hf]; rfl))
      rw [he, if_pos rfl]
      exact hstep
    | false =>
      obtain ⟨ms, hms⟩ := isOk_eq_true (hok.trans (by rw [hf]; rfl))
      have hre : x.recreated pattern := by
        simp only [Item.fails, Bool.or_eq_false_iff, Option.isSome_eq_false_iff] at hf
        simp [Item.recreated, hf]
      rw [hre, if_pos rfl] at hstep
      rw [hms, if_neg (by simp), incoming_cons, ← add_assoc, ← hstep]
      exact ih

end Steps

/-! ## No machine is over-committed -/

/-- **Capacity on failover.** For every content of the providers and every pattern of failing calls:
after the death of a machine is handled, the requests of the workloads placed on each surviving
machine add up to at most its capacity, on every dimension, if and only if before it every surviving
machine has room for what is placed on it and, besides, for the highly available workloads of the
dead machine that arrive on it. -/
theorem no_overcommit_iff (pattern : Failures) (kinds : String → RuntimeKind) (names : List String)
    (hnames : names.Nodup) (topology : InMemoryTopology) (t : Membership) (dead : Id) (s : Hosted) :
    WithinCapacity topology t dead (used names
        (handleNodeDead (names.map fun n => keeping pattern (kinds n) n) topology t dead s).2) ↔
      WithinCapacity topology t dead fun id => used names s id +
        incoming (survivors t dead) topology.allMachines
          (arriving pattern (dueItems names topology t dead s)) id := by
  have hused : ∀ id ∈ survivors t dead, used names
      (handleNodeDead (names.map fun n => keeping pattern (kinds n) n) topology t dead s).2 id =
        used names s id + incoming (survivors t dead) topology.allMachines
          (arriving pattern (dueItems names topology t dead s)) id := by
    intro id hid
    have hne : id ≠ dead := by simpa using (List.mem_filter.1 hid).2
    rw [used_eq_total, used_eq_total, handleNodeDead, handleProviders_eq hnames fun _ _ => rfl]
    refine total_forEach hnames hne (fun x hx => ?_) (nodup_listed hnames s) fun _ hx => mem_listed hx
    obtain ⟨n, hn, hx⟩ := List.mem_flatMap.1 hx
    obtain ⟨w, -, rfl⟩ := List.mem_map.1 hx
    exact hn
  refine forall₂_congr fun id hid => ?_
  rw [hused id hid]

/-- A highly available container with a request for processor time, on a machine. -/
def requesting (name machine : String) (cpuMillis : ℕ) : Workload :=
  { webOnFirst with
    metadata := .named name
    resources := ⟨cpuMillis, 64, 64⟩
    node := some ⟨machine⟩ }

/-- Containers of one engine on the two machines, each with room for 8000 millicores. -/
def hostingRequests (onFirst onSecond : ℕ) : Hosted :=
  Function.update (fun _ => .empty) "docker"
    ((Kept.empty.put (requesting "web" "m1" onFirst)).put (requesting "db" "m2" onSecond))

/-- The only survivor is the second machine. -/
theorem withinCapacity_second (load : Id → ResourceSpec) :
    WithinCapacity twoMachines secondAlive ⟨"m1"⟩ load ↔ (load ⟨"m2"⟩).fitsIn ⟨8000, 1024, 1024⟩ := by
  have halive : survivors secondAlive ⟨"m1"⟩ = [⟨"m2"⟩] := rfl
  have hfind : twoMachines.allMachines.find? (fun m => m.metadata.id = ⟨"m2"⟩) =
      some (sampleMachine "m2") := rfl
  rw [WithinCapacity, halive]
  simp only [List.forall_mem_singleton, hfind, Option.some.injEq, forall_eq']
  rfl

/-- The second machine has room for both. -/
theorem no_overcommit_iff_room :
    WithinCapacity twoMachines secondAlive ⟨"m1"⟩ (used ["docker"]
      (handleNodeDead (["docker"].map fun n => keeping (fun _ _ _ => none) .container n) twoMachines
        secondAlive ⟨"m1"⟩ (hostingRequests 3000 5000)).2) := by
  refine (no_overcommit_iff (fun _ _ _ => none) (fun _ => .container) ["docker"] (by simp) twoMachines
    secondAlive ⟨"m1"⟩ (hostingRequests 3000 5000)).2 ?_
  rw [withinCapacity_second]
  rfl

/-- The second machine has room for either, and gets both. -/
theorem overcommitted_after_death :
    WithinCapacity twoMachines secondAlive ⟨"m1"⟩ (used ["docker"] (hostingRequests 5000 5000)) ∧
      ¬WithinCapacity twoMachines secondAlive ⟨"m1"⟩ (used ["docker"]
        (handleNodeDead (["docker"].map fun n => keeping (fun _ _ _ => none) .container n) twoMachines
          secondAlive ⟨"m1"⟩ (hostingRequests 5000 5000)).2) := by
  rw [withinCapacity_second, withinCapacity_second]
  exact ⟨rfl, by decide⟩

end Api

end OCF
