import OCF.Api.Reschedule

/-!
# Rescheduling when calls fail

The providers here keep what they are given and list it with its placement; a pattern says which of
their calls fail. Handling a death goes through the listed workloads in order. A workload that is
due is deleted, created and started, and the first of these calls that fails ends everything: if it
is the creation, the workload is already deleted, and whatever is due after it is not looked at.

`no_workload_lost_iff` says for which patterns every due workload survives and none is held up by
the failure of another.
-/

namespace OCF.Api

open OCF.Fabric OCF.Runtime OCF.Topology

/-- A listed workload, with the name of its provider. -/
abbrev Item := String × Workload

namespace Item

/-- Where a workload is kept. -/
def key (x : Item) : String × Id := (x.1, x.2.metadata.id)

/-- One of the calls that reschedule the workload fails. -/
def fails (pattern : Failures) (x : Item) : Bool :=
  (pattern x.1 .delete x.2.metadata.id).isSome || (pattern x.1 .create x.2.metadata.id).isSome ||
    (pattern x.1 .start x.2.metadata.id).isSome

/-- The workload is deleted and cannot be created again. -/
def loses (pattern : Failures) (x : Item) : Bool :=
  (pattern x.1 .delete x.2.metadata.id).isNone && (pattern x.1 .create x.2.metadata.id).isSome

end Item

/-- The first failure among the due workloads does not lose its workload, and all that is due after
it fails by itself. -/
def FailuresHarmless (pattern : Failures) : List Item → Prop
  | [] => True
  | x :: l =>
    if x.fails pattern then x.loses pattern = false ∧ ∀ y ∈ l, y.fails pattern
    else FailuresHarmless pattern l

section Steps

variable {pattern : Failures} {kinds : String → RuntimeKind} {dead : Id} {alive : List Id}
  {machines : List Machine} {s : Hosted} {x : Item}

/-- A highly available workload of the dead machine that has somewhere to go. -/
def due (dead : Id) (alive : List Id) (machines : List Machine) (x : Item) : Bool :=
  x.2.node = some dead && x.2.highlyAvailable && (pickTarget x.2 alive machines).isSome

/-- Handle a listed workload with the provider that listed it. -/
def handleItem (pattern : Failures) (kinds : String → RuntimeKind) (dead : Id) (alive : List Id)
    (machines : List Machine) (x : Item) (s : Hosted) : Result (List String) × Hosted :=
  handleWorkload dead alive machines (keeping pattern (kinds x.1) x.1) x.2 s

/-! ## What one workload's handling does -/

/-- What the provider keeps of a workload after it was to be rescheduled. -/
def rescheduled (pattern : Failures) (target : Id) (x : Item) : Option Workload :=
  if (pattern x.1 .delete x.2.metadata.id).isSome then some x.2
  else if (pattern x.1 .create x.2.metadata.id).isSome then none
  else if (pattern x.1 .start x.2.metadata.id).isSome then some (x.2.onNode target)
  else some { x.2.onNode target with state := .running }

theorem rescheduled_of_not_fails {target : Id} (h : x.fails pattern = false) :
    rescheduled pattern target x = some { x.2.onNode target with state := .running } := by
  simp only [Item.fails, Bool.or_eq_false_iff] at h
  simp [rescheduled, h]

theorem rescheduled_of_loses {target : Id} (h : x.loses pattern) :
    rescheduled pattern target x = none := by
  simp only [Item.loses, Bool.and_eq_true, Option.isNone_iff_eq_none] at h
  simp [rescheduled, h]

theorem rescheduled_of_not_loses (target : Id) (hnode : x.2.node = some dead)
    (h : x.loses pattern = false) : ∃ w, rescheduled pattern target x = some w ∧
      (w.node = some dead ∨ w.node = some target) := by
  simp only [Item.loses, Bool.and_eq_false_iff, Option.isNone_eq_false_iff,
    Option.isSome_eq_false_iff, Option.isNone_iff_eq_none] at h
  unfold rescheduled
  obtain hd | hc := h
  · exact ⟨x.2, if_pos hd, .inl hnode⟩
  · simp only [hc, Option.isSome_none, Bool.false_eq_true, if_false]
    split_ifs
    · exact ⟨x.2, rfl, .inl hnode⟩
    · exact ⟨_, rfl, .inr rfl⟩
    · exact ⟨_, rfl, .inr rfl⟩

variable (pattern) in
/-- Rescheduling a kept workload touches only this workload, and fails when one of its calls
does. -/
theorem reschedule_spec (kind : RuntimeKind) (target : Id) (h : s.kept x.key = some x.2) :
    ∃ r t, reschedule (keeping pattern kind x.1) x.2 target s = (r, t) ∧
      r.isOk = !x.fails pattern ∧
      ∀ k, t.kept k = if k = x.key then rescheduled pattern target x else s.kept k := by
  unfold rescheduled Item.fails reschedule
  cases hd : pattern x.1 .delete x.2.metadata.id with
  | some e =>
    rw [keeping_delete_error kind hd]
    refine ⟨_, _, rfl, rfl, fun k => ?_⟩
    simp only [Option.isSome_some, if_true]
    split_ifs with hk
    · rw [hk, h]
    · rfl
  | none =>
    obtain ⟨t, ht, htk⟩ := keeping_delete_ok kind hd h
    rw [ht]
    dsimp only
    cases hc : pattern x.1 .create x.2.metadata.id with
    | some e =>
      rw [keeping_create_error kind (w := x.2.onNode target) hc]
      exact ⟨_, _, rfl, rfl, by simpa [Item.key] using htk⟩
    | none =>
      obtain ⟨u, hu, huk⟩ := keeping_create_ok kind (s := t) (w := x.2.onNode target) hc
      rw [hu]
      dsimp only
      have huk' : ∀ k, u.kept k = if k = x.key then some (x.2.onNode target) else s.kept k := by
        intro k
        rw [huk, htk, Workload.onNode_metadata, ← Item.key]
        split_ifs <;> rfl
      cases hs : pattern x.1 .start x.2.metadata.id with
      | some e =>
        rw [keeping_start_error kind hs]
        exact ⟨_, _, rfl, rfl, by simpa using huk'⟩
      | none =>
        obtain ⟨v, hv, hvk⟩ := keeping_start_ok kind hs ((huk' x.key).trans (if_pos rfl))
        rw [hv]
        refine ⟨_, _, rfl, rfl, fun k => ?_⟩
        rw [hvk, huk', ← Item.key]
        split_ifs <;> first | rfl | contradiction

theorem due_eq_true : due dead alive machines x ↔ x.2.node = some dead ∧
    x.2.highlyAvailable ∧ ∃ target, pickTarget x.2 alive machines = some target := by
  simp [due, Option.isSome_iff_exists, and_assoc]

variable (pattern kinds) in
/-- A due workload is rescheduled. -/
theorem handleItem_due {target : Id} (hdue : due dead alive machines x)
    (htarget : pickTarget x.2 alive machines = some target) (h : s.kept x.key = some x.2) :
    (handleItem pattern kinds dead alive machines x s).1.isOk = !x.fails pattern ∧
      ∀ k, (handleItem pattern kinds dead alive machines x s).2.kept k =
        if k = x.key then rescheduled pattern target x else s.kept k := by
  obtain ⟨hnode, hha, -⟩ := due_eq_true.1 hdue
  obtain ⟨r, t, hr, hok, hkept⟩ := reschedule_spec pattern (kinds x.1) target h
  rw [handleItem, handleWorkload, if_neg (not_not.2 hnode), if_pos hha, htarget]
  dsimp only
  rw [hr]
  cases r with
  | error e => exact ⟨hok, hkept⟩
  | ok _ => exact ⟨hok, hkept⟩

variable (pattern kinds) in
/-- Any other workload is skipped or stopped, without a failure. -/
theorem handleItem_not_due (hdue : ¬due dead alive machines x) :
    (handleItem pattern kinds dead alive machines x s).1.isOk ∧
      ∀ k ≠ x.key, (handleItem pattern kinds dead alive machines x s).2.kept k = s.kept k := by
  rw [handleItem, handleWorkload]
  by_cases hnode : x.2.node = some dead
  · rw [if_neg (not_not.2 hnode)]
    by_cases hha : x.2.highlyAvailable
    · cases ht : pickTarget x.2 alive machines with
      | none =>
        rw [if_pos hha]
        exact ⟨rfl, fun _ _ => rfl⟩
      | some target => exact absurd (due_eq_true.2 ⟨hnode, hha, target, ht⟩) hdue
    · rw [if_neg hha]
      exact ⟨rfl, fun k hk => keeping_stop_kept _ _ hk⟩
  · rw [if_pos hnode]
    exact ⟨rfl, fun _ _ => rfl⟩

/-- A step leaves alone what other items are kept as. -/
theorem handleItem_frame (h : s.kept x.key = some x.2) {k : String × Id} (hk : k ≠ x.key) :
    (handleItem pattern kinds dead alive machines x s).2.kept k = s.kept k := by
  by_cases hdue : due dead alive machines x
  · obtain ⟨-, -, target, ht⟩ := due_eq_true.1 hdue
    rw [(handleItem_due pattern kinds hdue ht h).2, if_neg hk]
  · exact (handleItem_not_due pattern kinds hdue).2 k hk

/-! ## The whole list -/

/-- Every due workload is still kept, on its old or its new machine, and every one whose own calls
do not fail runs on its new machine. -/
structure AllSurvive (pattern : Failures) (dead : Id) (alive : List Id) (machines : List Machine)
    (l : List Item) (t : Hosted) : Prop where
  kept : ∀ x ∈ l, ∃ w, t.kept x.key = some w ∧
    (w.node = some dead ∨ w.node = pickTarget x.2 alive machines)
  moved : ∀ x ∈ l, x.fails pattern = false → ∃ target, pickTarget x.2 alive machines = some target ∧
    t.kept x.key = some { x.2.onNode target with state := .running }

/-- The loop leaves alone what is not in its list. -/
theorem forEach_frame {l : List Item} (hnodup : (l.map Item.key).Nodup)
    (hl : ∀ x ∈ l, s.kept x.key = some x.2) {k : String × Id} (hk : k ∉ l.map Item.key) :
    (forEach (handleItem pattern kinds dead alive machines) l s).2.kept k = s.kept k := by
  induction l generalizing s with
  | nil => rfl
  | cons x l ih =>
    rw [List.map_cons, List.nodup_cons] at hnodup
    rw [List.map_cons, List.mem_cons, not_or] at hk
    have hx := hl x (List.mem_cons_self ..)
    have hframe : (handleItem pattern kinds dead alive machines x s).2.kept k = s.kept k :=
      handleItem_frame hx hk.1
    rw [forEach_cons_state]
    split
    · exact hframe
    · refine (ih hnodup.2 (fun y hy => ?_) hk.2).trans hframe
      have hne : y.key ≠ x.key := fun e => hnodup.1 (e ▸ List.mem_map_of_mem hy)
      rw [handleItem_frame hx hne]
      exact hl y (List.mem_cons_of_mem _ hy)

theorem isOk_eq_true {ε β : Type*} {r : Except ε β} (h : r.isOk = true) : ∃ b, r = .ok b := by
  cases r with
  | error e => simp [Except.isOk, Except.toBool] at h
  | ok b => exact ⟨b, rfl⟩

theorem isOk_eq_false {ε β : Type*} {r : Except ε β} (h : r.isOk = false) : ∃ e, r = .error e := by
  cases r with
  | error e => exact ⟨e, rfl⟩
  | ok b => simp [Except.isOk, Except.toBool] at h

/-- When the workload of the first failure is kept as `w` and what is due after it was not looked
at, everything survives exactly when the failure is harmless. -/
theorem allSurvive_stop_iff
    (hne : ∀ w target, pickTarget w alive machines = some target → target ≠ dead)
    {target : Id} (hnode : x.2.node = some dead) (ht : pickTarget x.2 alive machines = some target)
    (hf : x.fails pattern) {l : List Item} {t : Hosted}
    (hx : t.kept x.key = rescheduled pattern target x)
    (hl : ∀ y ∈ l, y.2.node = some dead ∧ t.kept y.key = some y.2) :
    AllSurvive pattern dead alive machines (x :: l) t ↔
      x.loses pattern = false ∧ ∀ y ∈ l, y.fails pattern := by
  constructor
  · intro h
    refine ⟨?_, fun y hy => ?_⟩
    · -- what is lost is not kept
      obtain ⟨w, hw, -⟩ := h.kept x (List.mem_cons_self ..)
      rw [hx] at hw
      cases hlose : x.loses pattern with
      | false => rfl
      | true =>
        rw [rescheduled_of_loses hlose] at hw
        contradiction
    · -- what comes later is still where it was, and this is not its target
      by_contra hyf
      obtain ⟨target', ht', hy'⟩ := h.moved y (List.mem_cons_of_mem _ hy) (by simpa using hyf)
      rw [(hl y hy).2] at hy'
      have hnode' := congrArg Workload.node (Option.some.inj hy')
      rw [(hl y hy).1] at hnode'
      exact hne _ _ ht' (Option.some.inj hnode').symm
  · rintro ⟨hlose, hall⟩
    refine ⟨List.forall_mem_cons.2 ⟨?_, fun y hy => ?_⟩,
      List.forall_mem_cons.2 ⟨fun hxf => ?_, fun y hy hyf => ?_⟩⟩
    · obtain ⟨w, hw, hwn⟩ := rescheduled_of_not_loses target hnode hlose
      exact ⟨w, hx.trans hw, hwn.imp_right fun e => e.trans ht.symm⟩
    · exact ⟨y.2, (hl y hy).2, .inl (hl y hy).1⟩
    · rw [hf] at hxf
      contradiction
    · rw [hall y hy] at hyf
      contradiction

/-- **One pass over a list of kept workloads.** -/
theorem allSurvive_iff (hne : ∀ w target, pickTarget w alive machines = some target → target ≠ dead)
    {l : List Item} (hnodup : (l.map Item.key).Nodup)
    (hl : ∀ x ∈ l, s.kept x.key = some x.2) :
    AllSurvive pattern dead alive machines (l.filter (due dead alive machines))
        (forEach (handleItem pattern kinds dead alive machines) l s).2 ↔
      FailuresHarmless pattern (l.filter (due dead alive machines)) := by
  induction l generalizing s with
  | nil => exact ⟨fun _ => trivial, fun _ => ⟨by simp, by simp⟩⟩
  | cons x l ih =>
    rw [List.map_cons, List.nodup_cons] at hnodup
    have hx := hl x (List.mem_cons_self ..)
    have hrest : ∀ y ∈ l, (handleItem pattern kinds dead alive machines x s).2.kept y.key =
        some y.2 := by
      intro y hy
      have hyx : y.key ≠ x.key := fun e => hnodup.1 (e ▸ List.mem_map_of_mem hy)
      rw [handleItem_frame hx hyx]
      exact hl y (List.mem_cons_of_mem _ hy)
    have ih := ih hnodup.2 hrest
    rw [forEach_cons_state]
    by_cases hdue : due dead alive machines x
    swap
    · obtain ⟨ms, hms⟩ := isOk_eq_true (handleItem_not_due pattern kinds (s := s) hdue).1
      rw [List.filter_cons_of_neg hdue, hms]
      exact ih
    obtain ⟨hnode, -, target, ht⟩ := due_eq_true.1 hdue
    obtain ⟨hok, hkept⟩ := handleItem_due pattern kinds hdue ht hx
    have hxkept := (hkept x.key).trans (if_pos rfl)
    rw [List.filter_cons_of_pos hdue, FailuresHarmless]
    cases hf : x.fails pattern with
    | false =>
      obtain ⟨ms, hms⟩ := isOk_eq_true (hok.trans (by rw [hf]; rfl))
      rw [if_neg (by simp), ← ih, hms]
      dsimp only
      have hafter : (forEach (handleItem pattern kinds dead alive machines) l
          (handleItem pattern kinds dead alive machines x s).2).2.kept x.key = _ :=
        forEach_frame hnodup.2 hrest hnodup.1
      rw [hxkept, rescheduled_of_not_fails hf] at hafter
      constructor
      · exact fun h => ⟨fun y hy => h.kept y (List.mem_cons_of_mem _ hy),
          fun y hy => h.moved y (List.mem_cons_of_mem _ hy)⟩
      · exact fun h => ⟨List.forall_mem_cons.2 ⟨⟨_, hafter, .inr ht.symm⟩, h.kept⟩,
          List.forall_mem_cons.2 ⟨fun _ => ⟨target, ht, hafter⟩, h.moved⟩⟩
    | true =>
      obtain ⟨e, he⟩ := isOk_eq_false (hok.trans (by rw [hf]; rfl))
      rw [if_pos rfl, he]
      refine allSurvive_stop_iff hne hnode ht hf hxkept fun y hy => ?_
      obtain ⟨hyl, hydue⟩ := List.mem_filter.1 hy
      exact ⟨(due_eq_true.1 hydue).1, hrest y hyl⟩

/-! ## All providers -/

/-- What the providers list, in order. -/
def listed (names : List String) (s : Hosted) : List Item :=
  names.flatMap fun name => (HashMap.values (s name).workloads).map fun w => (name, w)

/-- The workloads of the dead machine that are due, in the order in which they are handled. -/
def dueItems (names : List String) (topology : InMemoryTopology) (t : Membership) (dead : Id)
    (s : Hosted) : List Item :=
  (listed names s).filter (due dead (survivors t dead) topology.allMachines)

theorem handleItem_other {m : String} (hm : m ≠ x.1) :
    (handleItem pattern kinds dead alive machines x s).2 m = s m := by
  have hops := fun u : Hosted => keeping_other pattern (kinds x.1) (s := u) hm
  have hres : ∀ target, (reschedule (keeping pattern (kinds x.1) x.1) x.2 target s).2 m = s m := by
    intro target
    have hd := (hops s x.2 x.2.metadata.id).2.2.2
    unfold reschedule
    rcases hd' : (keeping pattern (kinds x.1) x.1).delete x.2.metadata.id s with ⟨e | _, u⟩ <;>
      rw [hd'] at hd
    · exact hd
    · have hc := (hops u (x.2.onNode target) x.2.metadata.id).1
      dsimp only
      rcases hc' : (keeping pattern (kinds x.1) x.1).create (x.2.onNode target) u with ⟨e | _, v⟩ <;>
        rw [hc'] at hc
      · exact hc.trans hd
      · exact ((hops v x.2 _).2.1.trans hc).trans hd
  unfold handleItem handleWorkload
  split_ifs
  · rfl
  · split
    · rfl
    · next target _ =>
      have := hres target
      rcases hr : reschedule (keeping pattern (kinds x.1) x.1) x.2 target s with ⟨e | _, u⟩ <;>
        rwa [hr] at this
  · exact (hops s x.2 _).2.2.1

theorem forEach_map {σ α β : Type*} (f : β → σ → Result (List String) × σ) (g : α → β) (as : List α)
    (s : σ) : forEach f (as.map g) s = forEach (fun a => f (g a)) as s := by
  induction as generalizing s with
  | nil => rfl
  | cons a as ih =>
    rw [List.map_cons, forEach, forEach]
    rcases f (g a) s with ⟨e | moves, t⟩
    · rfl
    · dsimp only
      rw [ih]

/-- Providers that keep apart what they keep are handled like one list. -/
theorem handleProviders_eq {names : List String} (hnames : names.Nodup) {s₀ : Hosted}
    (hs : ∀ n ∈ names, s n = s₀ n) :
    forEach (handleProvider dead alive machines)
        (names.map fun n => keeping pattern (kinds n) n) s =
      forEach (handleItem pattern kinds dead alive machines) (listed names s₀) s := by
  induction names generalizing s with
  | nil => rfl
  | cons n names ih =>
    rw [List.nodup_cons] at hnames
    have hhead : handleProvider dead alive machines (keeping pattern (kinds n) n) s =
        forEach (handleItem pattern kinds dead alive machines)
          ((HashMap.values (s₀ n).workloads).map fun w => (n, w)) s := by
      rw [forEach_map, ← hs n (List.mem_cons_self ..)]
      rfl
    have hother : ∀ m ∈ names, (forEach (handleItem pattern kinds dead alive machines)
        ((HashMap.values (s₀ n).workloads).map fun w => (n, w)) s).2 m = s₀ m := by
      intro m hm
      have hmn : m ≠ n := fun e => hnames.1 (e ▸ hm)
      refine forEach_invariant (I := fun u : Hosted => u m = s₀ m) (fun x hx u hu => ?_)
        (hs m (List.mem_cons_of_mem _ hm))
      obtain ⟨w, -, rfl⟩ := List.mem_map.1 hx
      exact (handleItem_other hmn).trans hu
    rw [List.map_cons, forEach, hhead, listed, List.flatMap_cons, ← listed, forEach_append]
    rcases hf : forEach (handleItem pattern kinds dead alive machines)
      ((HashMap.values (s₀ n).workloads).map fun w => (n, w)) s with ⟨e | moves, u⟩
    · rfl
    · rw [hf] at hother
      dsimp only
      rw [ih hnames.2 hother]

theorem mem_listed {names : List String} {s : Hosted} {x : Item} (h : x ∈ listed names s) :
    s.kept x.key = some x.2 := by
  obtain ⟨n, -, hx⟩ := List.mem_flatMap.1 h
  obtain ⟨w, hw, rfl⟩ := List.mem_map.1 hx
  obtain ⟨id, hid⟩ := HashMap.mem_values.1 hw
  have hkey := (s n).keyed id w hid
  rw [Item.key, Hosted.kept, hkey]
  exact hid

theorem nodup_listed {names : List String} (hnames : names.Nodup) (s : Hosted) :
    ((listed names s).map Item.key).Nodup := by
  rw [listed, List.map_flatMap]
  refine List.nodup_flatMap.2 ⟨fun n _ => ?_, hnames.imp fun {n m} hne => ?_⟩
  · have hmap : ((HashMap.values (s n).workloads).map fun w => (n, w)).map Item.key =
        (s n).workloads.keys.map fun id => (n, id) := by
      rw [← (s n).map_id_values, List.map_map, List.map_map]
      rfl
    rw [hmap]
    exact (s n).workloads.keys_nodup.map (Prod.mk_right_injective n)
  · intro k hk hk'
    simp only [List.map_map, List.mem_map] at hk hk'
    obtain ⟨w, -, rfl⟩ := hk
    obtain ⟨w', -, he⟩ := hk'
    exact hne (congrArg Prod.fst he).symm

end Steps

/-! ## No workload is lost -/

/-- **Which failures lose a workload.** For every content of the providers and every pattern of
failing calls: after the death of a machine is handled, every highly available workload that was
listed on it and has somewhere to go is still kept, and each whose own calls do not fail runs on its
new machine, if and only if the first failure in the order of handling is not a creation after the
deletion and every workload that is due after it fails by itself. -/
theorem no_workload_lost_iff (pattern : Failures) (kinds : String → RuntimeKind)
    (names : List String) (hnames : names.Nodup) (topology : InMemoryTopology) (t : Membership)
    (dead : Id) (s : Hosted) :
    AllSurvive pattern dead (survivors t dead) topology.allMachines
        (dueItems names topology t dead s)
        (handleNodeDead (names.map fun n => keeping pattern (kinds n) n) topology t dead s).2 ↔
      FailuresHarmless pattern (dueItems names topology t dead s) := by
  rw [handleNodeDead, handleProviders_eq hnames fun _ _ => rfl]
  exact allSurvive_iff (fun _ _ h => pickTarget_survivors_ne h) (nodup_listed hnames s)
    fun _ hx => mem_listed hx

/-- Two highly available workloads on `m1`. -/
def twoOnFirst : Hosted :=
  Function.update (fun _ => .empty) "docker"
    ((Kept.empty.put webOnFirst).put { webOnFirst with metadata := .named "db" })

/-- One call fails. -/
def failOne (op : Op) (id : Id) : Failures := fun _ op' id' =>
  if op' = op ∧ id' = id then some (.provider "docker" "no space left on device") else none

/-- The start of the last workload fails: nothing is lost, and the other one was moved. -/
theorem no_workload_lost_iff_start :
    AllSurvive (failOne .start ⟨"web"⟩) ⟨"m1"⟩ (survivors secondAlive ⟨"m1"⟩) twoMachines.allMachines
      (dueItems ["docker"] twoMachines secondAlive ⟨"m1"⟩ twoOnFirst)
      (handleNodeDead (["docker"].map fun n => keeping (failOne .start ⟨"web"⟩) .container n)
        twoMachines secondAlive ⟨"m1"⟩ twoOnFirst).2 := by
  have hdue : dueItems ["docker"] twoMachines secondAlive ⟨"m1"⟩ twoOnFirst =
      [("docker", { webOnFirst with metadata := .named "db" }), ("docker", webOnFirst)] := rfl
  refine (no_workload_lost_iff (failOne .start ⟨"web"⟩) (fun _ => .container) ["docker"] (by simp)
    twoMachines secondAlive ⟨"m1"⟩ twoOnFirst).2 ?_
  rw [hdue]
  exact ⟨rfl, by simp⟩

/-- The creation of the first workload fails: it is gone, and the second one stays on the dead
machine although nothing that concerns it fails. -/
theorem failed_creation_loses_workload :
    ∃ s, handleNodeDead (["docker"].map fun n => keeping (failOne .create ⟨"db"⟩) .container n)
        twoMachines secondAlive ⟨"m1"⟩ twoOnFirst =
          (.error (.provider "docker" "no space left on device"), s) ∧
      twoOnFirst.kept ("docker", ⟨"db"⟩) = some { webOnFirst with metadata := .named "db" } ∧
      s.kept ("docker", ⟨"db"⟩) = none ∧ s.kept ("docker", ⟨"web"⟩) = some webOnFirst ∧
      ¬AllSurvive (failOne .create ⟨"db"⟩) ⟨"m1"⟩ (survivors secondAlive ⟨"m1"⟩)
        twoMachines.allMachines (dueItems ["docker"] twoMachines secondAlive ⟨"m1"⟩ twoOnFirst) s := by
  refine ⟨_, rfl, rfl, rfl, rfl, fun h => ?_⟩
  obtain ⟨w, hw, -⟩ := h.kept ("docker", { webOnFirst with metadata := .named "db" })
    (List.mem_cons_self ..)
  have hgone : (none : Option Workload) = some w := hw
  contradiction

end OCF.Api
