import OCF.Api.RescheduleFailures

/-!
# What rescheduling touches

Handling the death of a machine lists the workloads of every provider and calls the provider for some
of them; any of these calls may fail. Here the calls are traced with what comes of them
(`deathCalls`). `rescheduling_frame` says which calls are made: only for workloads that are listed on
the dead machine, each created again with nothing but its machine changed, on an alive machine that
satisfies it; and the moves that are returned are those whose calls all succeeded.
-/

namespace OCF.Api

open OCF.Fabric OCF.Runtime OCF.Topology

variable {σ : Type*}

/-- The calls that handling a death makes, in order. -/
def deathCalls (providers : List (RuntimeProvider σ)) (topology : InMemoryTopology) (t : Membership)
    (dead : Id) (s : σ) : List Exchange :=
  (handleNodeDead (providers.zipIdx.map fun x => x.1.traced x.2) topology t dead (s, [])).2.2

/-- How a created workload is reported as a move. -/
def moveOf (w : Workload) : String :=
  w.metadata.name ++ " -> " ++ (w.node.elim "" Id.name)

/-- The workloads that were deleted, created and started without an error. -/
def moved (log : List Exchange) : List String :=
  log.filterMap fun x => match x.call with
    | .create w =>
      if x.error = none ∧ ⟨x.provider, .delete w.metadata.id, none, []⟩ ∈ log ∧
          ⟨x.provider, .start w.metadata.id, none, []⟩ ∈ log then some (moveOf w)
      else none
    | _ => none

/-! ## The loop -/

/-- What a loop makes of a trace, from what its steps make of it: each step does what the step
without the trace does, and adds to the trace. -/
theorem forEach_trace {α τ : Type*} (as : List α)
    {f : α → σ × List τ → Result (List String) × σ × List τ} {g : α → σ → Result (List String) × σ}
    {R : Result (List String) → List τ → Prop} (hnil : R (.ok []) [])
    (hok : ∀ {m₁ m₂ l₁ l₂}, R (.ok m₁) l₁ → R (.ok m₂) l₂ → R (.ok (m₁ ++ m₂)) (l₁ ++ l₂))
    (herror : ∀ {m₁ e l₁ l₂}, R (.ok m₁) l₁ → R (.error e) l₂ → R (.error e) (l₁ ++ l₂))
    (hstep : ∀ a ∈ as, ∀ s, ∃ l, f a s = ((g a s.1).1, (g a s.1).2, s.2 ++ l) ∧ R (g a s.1).1 l)
    (s : σ × List τ) :
    ∃ l, forEach f as s = ((forEach g as s.1).1, (forEach g as s.1).2, s.2 ++ l) ∧
      R (forEach g as s.1).1 l := by
  induction as generalizing s with
  | nil => exact ⟨[], by simp [forEach], hnil⟩
  | cons a as ih =>
    obtain ⟨l, hf, hr⟩ := hstep a List.mem_cons_self s
    rw [forEach, forEach, hf]
    rcases hg : g a s.1 with ⟨e | moves, t⟩ <;> rw [hg] at hr
    · exact ⟨l, rfl, hr⟩
    · obtain ⟨l', hf', hr'⟩ :=
        ih (fun b hb => hstep b (List.mem_cons_of_mem a hb)) (t, s.2 ++ l)
      dsimp only at hf' hr' ⊢
      rw [hf']
      rcases hrest : forEach g as t with ⟨e | rest, u⟩ <;> rw [hrest] at hr'
      · exact ⟨l ++ l', by rw [List.append_assoc], herror hr hr'⟩
      · exact ⟨l ++ l', by rw [List.append_assoc], hok hr hr'⟩

/-! ## One workload -/

section Workload

variable {dead : Id} {alive : List Id} {machines : List Machine}

/-- The calls that re-place a workload, up to the first that fails. -/
inductive Replaces (i : ℕ) (w : Workload) (target : Id) : Result Unit → List Exchange → Prop
  | undeleted (e : Error) :
      Replaces i w target (.error e) [⟨i, .delete w.metadata.id, some e, []⟩]
  | uncreated (e : Error) :
      Replaces i w target (.error e)
        [⟨i, .delete w.metadata.id, none, []⟩, ⟨i, .create (w.onNode target), some e, []⟩]
  | unstarted (e : Error) :
      Replaces i w target (.error e)
        [⟨i, .delete w.metadata.id, none, []⟩, ⟨i, .create (w.onNode target), none, []⟩,
          ⟨i, .start w.metadata.id, some e, []⟩]
  | started :
      Replaces i w target (.ok ())
        [⟨i, .delete w.metadata.id, none, []⟩, ⟨i, .create (w.onNode target), none, []⟩,
          ⟨i, .start w.metadata.id, none, []⟩]

theorem reschedule_traced (i : ℕ) (w : Workload) (target : Id) (p : RuntimeProvider σ)
    (s : σ × List Exchange) :
    ∃ l, reschedule (p.traced i) w target s =
        ((reschedule p w target s.1).1, (reschedule p w target s.1).2, s.2 ++ l) ∧
      Replaces i w target (reschedule p w target s.1).1 l := by
  have hdelete : ∀ u, (p.traced i).delete w.metadata.id u = ((p.delete w.metadata.id u.1).1,
      (p.delete w.metadata.id u.1).2,
      u.2 ++ [⟨i, .delete w.metadata.id, errorOf (p.delete w.metadata.id u.1).1, []⟩]) :=
    fun _ => rfl
  have hcreate : ∀ u, (p.traced i).create (w.onNode target) u = ((p.create (w.onNode target) u.1).1,
      (p.create (w.onNode target) u.1).2,
      u.2 ++ [⟨i, .create (w.onNode target), errorOf (p.create (w.onNode target) u.1).1, []⟩]) :=
    fun _ => rfl
  have hstart : ∀ u, (p.traced i).start w.metadata.id u = ((p.start w.metadata.id u.1).1,
      (p.start w.metadata.id u.1).2,
      u.2 ++ [⟨i, .start w.metadata.id, errorOf (p.start w.metadata.id u.1).1, []⟩]) :=
    fun _ => rfl
  rw [reschedule, reschedule, hdelete]
  rcases p.delete w.metadata.id s.1 with ⟨e | _, t⟩
  · exact ⟨_, rfl, .undeleted e⟩
  dsimp only
  rw [hcreate]
  dsimp only
  rcases p.create (w.onNode target) t with ⟨e | _, u⟩
  · exact ⟨_, by simp only [List.append_assoc]; rfl, .uncreated e⟩
  dsimp only
  rw [hstart]
  dsimp only
  rcases p.start w.metadata.id u with ⟨e | _, v⟩
  · exact ⟨_, by simp only [List.append_assoc]; rfl, .unstarted e⟩
  · exact ⟨_, by simp only [List.append_assoc]; rfl, .started⟩

/-- The workload is moved to the target. -/
structure DueTo (dead : Id) (alive : List Id) (machines : List Machine) (w : Workload)
    (target : Id) : Prop where
  node : w.node = some dead
  highlyAvailable : w.highlyAvailable
  pick : pickTarget w alive machines = some target

/-- The calls for one listed workload and what they report. -/
inductive Handled (dead : Id) (alive : List Id) (machines : List Machine) (i : ℕ) (w : Workload) :
    Result (List String) → List Exchange → Prop
  | left : Handled dead alive machines i w (.ok []) []
  | stopped (hnode : w.node = some dead) (e : Option Error) :
      Handled dead alive machines i w (.ok []) [⟨i, .stop w.metadata.id, e, []⟩]
  | replaced {target : Id} {r : Result Unit} {l : List Exchange}
      (h : DueTo dead alive machines w target) (hr : Replaces i w target r l) :
      Handled dead alive machines i w (r.map fun _ => [moveOf (w.onNode target)]) l

theorem handleWorkload_traced (i : ℕ) (w : Workload) (p : RuntimeProvider σ) (s : σ × List Exchange) :
    ∃ l, handleWorkload dead alive machines (p.traced i) w s =
        ((handleWorkload dead alive machines p w s.1).1,
          (handleWorkload dead alive machines p w s.1).2, s.2 ++ l) ∧
      Handled dead alive machines i w (handleWorkload dead alive machines p w s.1).1 l := by
  rw [handleWorkload, handleWorkload]
  by_cases hnode : w.node = some dead
  swap
  · rw [if_pos hnode, if_pos hnode]
    exact ⟨[], by simp, .left⟩
  rw [if_neg (not_not.2 hnode), if_neg (not_not.2 hnode)]
  by_cases hha : w.highlyAvailable
  swap
  · rw [if_neg hha, if_neg hha]
    exact ⟨_, rfl, .stopped hnode _⟩
  rw [if_pos hha, if_pos hha]
  cases hpick : pickTarget w alive machines with
  | none => exact ⟨[], by simp, .left⟩
  | some target =>
    obtain ⟨l, hf, hr⟩ := reschedule_traced i w target p s
    have hhandled := Handled.replaced ⟨hnode, hha, hpick⟩ hr
    dsimp only
    rw [hf]
    rcases hres : reschedule p w target s.1 with ⟨e | _, t⟩ <;> rw [hres] at hhandled
    · exact ⟨l, rfl, hhandled⟩
    · exact ⟨l, rfl, hhandled⟩

/-! ## What is called -/

/-- A call that may be made for a workload of a listing. -/
def Allowed (dead : Id) (alive : List Id) (machines : List Machine) (ws : List Workload) :
    Call → Prop
  | .create w' => ∃ w ∈ ws, ∃ target, DueTo dead alive machines w target ∧ w' = w.onNode target
  | .start id => ∃ w ∈ ws, w.metadata.id = id ∧ w.node = some dead
  | .stop id => ∃ w ∈ ws, w.metadata.id = id ∧ w.node = some dead
  | .delete id => ∃ w ∈ ws, w.metadata.id = id ∧ w.node = some dead
  | .list => True

variable {ws : List Workload} {r : Result (List String)} {l : List Exchange}

theorem Handled.allowed {w : Workload} {i : ℕ} (h : Handled dead alive machines i w r l)
    (hw : w ∈ ws) : ∀ x ∈ l, x.provider = i ∧ Allowed dead alive machines ws x.call := by
  cases h with
  | left => simp
  | stopped hnode e => simpa using ⟨w, hw, rfl, hnode⟩
  | @replaced target r l hdue hr =>
    have hdelete : Allowed dead alive machines ws (.delete w.metadata.id) := ⟨w, hw, rfl, hdue.node⟩
    have hcreate : Allowed dead alive machines ws (.create (w.onNode target)) :=
      ⟨w, hw, target, hdue, rfl⟩
    have hstart : Allowed dead alive machines ws (.start w.metadata.id) := ⟨w, hw, rfl, hdue.node⟩
    cases hr with
    | undeleted e => simpa using hdelete
    | uncreated e => simpa using ⟨hdelete, hcreate⟩
    | unstarted e => simpa using ⟨hdelete, hcreate, hstart⟩
    | started => simpa using ⟨hdelete, hcreate, hstart⟩

/-- The move that an exchange reports if it belongs to one. -/
def Exchange.move (x : Exchange) : Option String :=
  match x.call with
  | .create w => some (moveOf w)
  | _ => none

/-- The trace of a loop that is done: every creation succeeded, between a deletion and a start that
did. -/
def Complete (l : List Exchange) : Prop :=
  ∀ x ∈ l, ∀ w, x.call = .create w → x.error = none ∧
    ⟨x.provider, .delete w.metadata.id, none, []⟩ ∈ l ∧
    ⟨x.provider, .start w.metadata.id, none, []⟩ ∈ l

theorem Complete.append {l₁ l₂ : List Exchange} (h₁ : Complete l₁) (h₂ : Complete l₂) :
    Complete (l₁ ++ l₂) := by
  intro x hx w hw
  rcases List.mem_append.1 hx with hx | hx
  · obtain ⟨herror, hdelete, hstart⟩ := h₁ x hx w hw
    exact ⟨herror, List.mem_append_left l₂ hdelete, List.mem_append_left l₂ hstart⟩
  · obtain ⟨herror, hdelete, hstart⟩ := h₂ x hx w hw
    exact ⟨herror, List.mem_append_right l₁ hdelete, List.mem_append_right l₁ hstart⟩

theorem Complete.moved_eq (h : Complete l) : moved l = l.filterMap Exchange.move := by
  refine List.filterMap_congr fun x hx => ?_
  unfold Exchange.move
  split
  · next w hw => exact if_pos (h x hx w hw)
  · rfl

/-- What a loop returns: the moves of a complete trace, or the error of its last call. -/
def Reports : Result (List String) → List Exchange → Prop
  | .ok moves, l => Complete l ∧ moves = l.filterMap Exchange.move
  | .error e, l => ∃ l' x, l = l' ++ [x] ∧ x.error = some e

theorem Reports.append_ok {m₁ m₂ : List String} {l₁ l₂ : List Exchange} (h₁ : Reports (.ok m₁) l₁)
    (h₂ : Reports (.ok m₂) l₂) : Reports (.ok (m₁ ++ m₂)) (l₁ ++ l₂) :=
  ⟨h₁.1.append h₂.1, by rw [h₁.2, h₂.2, List.filterMap_append]⟩

theorem Reports.append_error {e : Error} (l₁ : List Exchange) {l₂ : List Exchange}
    (h₂ : Reports (.error e) l₂) : Reports (.error e) (l₁ ++ l₂) := by
  obtain ⟨l', x, rfl, he⟩ := h₂
  exact ⟨l₁ ++ l', x, (List.append_assoc ..).symm, he⟩

theorem Reports.cons (h : Reports r l) {x : Exchange} (hx : x.call = .list) :
    Reports r (x :: l) := by
  cases r with
  | ok moves =>
    have hone : Reports (.ok []) [x] := ⟨by simp [Complete, hx], by simp [Exchange.move, hx]⟩
    exact hone.append_ok h
  | error e => exact h.append_error [x]

theorem Handled.reports {w : Workload} {i : ℕ} (h : Handled dead alive machines i w r l) :
    Reports r l := by
  cases h with
  | left => exact ⟨by simp [Complete], rfl⟩
  | stopped hnode e => exact ⟨by simp [Complete], rfl⟩
  | @replaced target r l hdue hr =>
    cases hr with
    | undeleted e => exact ⟨[], _, rfl, rfl⟩
    | uncreated e => exact ⟨[_], _, rfl, rfl⟩
    | unstarted e => exact ⟨[_, _], _, rfl, rfl⟩
    | started => exact ⟨by simp [Complete], rfl⟩

end Workload

/-! ## All providers -/

section Providers

variable {dead : Id} {alive : List Id} {machines : List Machine}

/-- The call is made for a workload of a listing of the provider. -/
def Justified (dead : Id) (alive : List Id) (machines : List Machine) (l : List Exchange)
    (x : Exchange) : Prop :=
  ∃ y ∈ l, y.provider = x.provider ∧ y.call = .list ∧
    (y.listed.map fun w => w.metadata.id).Nodup ∧ Allowed dead alive machines y.listed x.call

theorem Justified.mono {l l' : List Exchange} {x : Exchange}
    (h : Justified dead alive machines l x) (hl : l ⊆ l') : Justified dead alive machines l' x := by
  obtain ⟨y, hy, hrest⟩ := h
  exact ⟨y, hl hy, hrest⟩

/-- The trace of a loop over providers with what it returns. -/
def Traces (dead : Id) (alive : List Id) (machines : List Machine) (r : Result (List String))
    (l : List Exchange) : Prop :=
  (∀ x ∈ l, Justified dead alive machines l x) ∧ Reports r l

theorem justified_append {l₁ l₂ : List Exchange} (h₁ : ∀ x ∈ l₁, Justified dead alive machines l₁ x)
    (h₂ : ∀ x ∈ l₂, Justified dead alive machines l₂ x) :
    ∀ x ∈ l₁ ++ l₂, Justified dead alive machines (l₁ ++ l₂) x := by
  intro x hx
  rcases List.mem_append.1 hx with hx | hx
  · exact (h₁ x hx).mono (List.subset_append_left l₁ l₂)
  · exact (h₂ x hx).mono (List.subset_append_right l₁ l₂)

/-- **One provider.** -/
theorem handleProvider_traced (i : ℕ) {p : RuntimeProvider σ} (hids : p.UniqueIds)
    (s : σ × List Exchange) :
    ∃ l, handleProvider dead alive machines (p.traced i) s =
        ((handleProvider dead alive machines p s.1).1, (handleProvider dead alive machines p s.1).2,
          s.2 ++ l) ∧
      Traces dead alive machines (handleProvider dead alive machines p s.1).1 l := by
  have hlist : (p.traced i).list s = ((p.list s.1).1, (p.list s.1).2,
      s.2 ++ [⟨i, .list, errorOf (p.list s.1).1, (p.list s.1).1.toOption.getD []⟩]) := rfl
  rw [handleProvider, handleProvider, hlist]
  dsimp only
  have hnodup : (((p.list s.1).1.toOption.getD []).map fun w => w.metadata.id).Nodup := by
    cases hr : (p.list s.1).1 with
    | error e => exact List.nodup_nil
    | ok ws => exact hids s.1 ws hr
  generalize (p.list s.1).1.toOption.getD [] = ws at hnodup ⊢
  obtain ⟨l, hf, hallowed, hreports⟩ := forEach_trace ws
    (f := handleWorkload dead alive machines (p.traced i))
    (g := handleWorkload dead alive machines p)
    (R := fun r l => (∀ x ∈ l, x.provider = i ∧ Allowed dead alive machines ws x.call) ∧ Reports r l)
    ⟨by simp, by simp [Complete], rfl⟩
    (fun h₁ h₂ => ⟨List.forall_mem_append.2 ⟨h₁.1, h₂.1⟩, h₁.2.append_ok h₂.2⟩)
    (fun h₁ h₂ => ⟨List.forall_mem_append.2 ⟨h₁.1, h₂.1⟩, h₂.2.append_error _⟩)
    (fun w hw u => by
      obtain ⟨l, hf, hhandled⟩ := handleWorkload_traced i w p u
      exact ⟨l, hf, hhandled.allowed hw, hhandled.reports⟩)
    ((p.list s.1).2, s.2 ++ [⟨i, .list, errorOf (p.list s.1).1, ws⟩])
  refine ⟨⟨i, .list, errorOf (p.list s.1).1, ws⟩ :: l, ?_, ?_, ?_⟩
  · rw [hf, List.append_assoc]
    rfl
  · intro x hx
    refine ⟨_, List.mem_cons_self, ?_⟩
    rcases List.mem_cons.1 hx with rfl | hx
    · exact ⟨rfl, rfl, hnodup, trivial⟩
    · exact ⟨(hallowed x hx).1.symm, rfl, hnodup, (hallowed x hx).2⟩
  · exact hreports.cons rfl

/-- **All providers**: with the trace they do what they do without, and every call in it is
justified. -/
theorem handleNodeDead_traced {providers : List (RuntimeProvider σ)}
    (hids : ∀ p ∈ providers, p.UniqueIds) (topology : InMemoryTopology) (t : Membership) (dead : Id)
    (s : σ) :
    Traces dead (survivors t dead) topology.allMachines
      (handleNodeDead providers topology t dead s).1 (deathCalls providers topology t dead s) := by
  obtain ⟨l, hf, htraces⟩ := forEach_trace providers.zipIdx
    (f := fun x => handleProvider dead (survivors t dead) topology.allMachines (x.1.traced x.2))
    (g := fun x => handleProvider dead (survivors t dead) topology.allMachines x.1)
    (R := Traces dead (survivors t dead) topology.allMachines)
    ⟨by simp, by simp [Complete], rfl⟩
    (fun h₁ h₂ => ⟨justified_append h₁.1 h₂.1, h₁.2.append_ok h₂.2⟩)
    (fun h₁ h₂ => ⟨justified_append h₁.1 h₂.1, h₂.2.append_error _⟩)
    (fun x hx u => handleProvider_traced x.2 (hids x.1 (List.fst_mem_of_mem_zipIdx hx)) u) (s, [])
  have hlog : deathCalls providers topology t dead s = l := by
    rw [deathCalls, handleNodeDead, forEach_map, hf]
    rfl
  have hplain : forEach
      (fun x => handleProvider dead (survivors t dead) topology.allMachines x.1)
      providers.zipIdx s = handleNodeDead providers topology t dead s := by
    rw [← forEach_map (handleProvider dead (survivors t dead) topology.allMachines) Prod.fst,
      List.zipIdx_map_fst, handleNodeDead]
  rw [hlog, ← hplain]
  exact htraces

end Providers

/-! ## The frame -/

/-- The alive machine that is picked satisfies the workload. -/
theorem pickTarget_survivors_spec {w : Workload} {t : Membership} {dead target : Id}
    {machines : List Machine} (h : pickTarget w (survivors t dead) machines = some target) :
    (∃ id m, t.members.lookup id = some m ∧ m.liveness = .alive ∧ m.node.machineId = some target) ∧
      ∃ m ∈ machines, m.metadata.id = target ∧ machineSatisfies w m := by
  constructor
  · have hmem := (List.mem_filter.1 (List.mem_of_find?_eq_some h)).1
    obtain ⟨n, hn, hmachine⟩ := List.mem_filterMap.1 hmem
    obtain ⟨m, hm, rfl⟩ := List.mem_map.1 hn
    obtain ⟨hvalue, halive⟩ := List.mem_filter.1 hm
    obtain ⟨id, hid⟩ := HashMap.mem_values.1 hvalue
    exact ⟨id, m, hid, by simpa using halive, hmachine⟩
  · have hsat := List.find?_some h
    split at hsat
    · cases hsat
    · next m hm => exact ⟨m, List.mem_of_find?_eq_some hm, by simpa using List.find?_some hm, hsat⟩

/-- Whatever is called for is listed on the dead machine. -/
theorem Allowed.listed {dead : Id} {alive : List Id} {machines : List Machine} {ws : List Workload}
    {c : Call} (h : Allowed dead alive machines ws c) {id : Id} (hid : c.workload = some id) :
    ∃ w ∈ ws, w.metadata.id = id ∧ w.node = some dead := by
  cases c with
  | create w' =>
    obtain ⟨w, hw, target, hdue, rfl⟩ := h
    exact ⟨w, hw, Option.some.inj hid, hdue.node⟩
  | start id' => exact Option.some.inj hid ▸ h
  | stop id' => exact Option.some.inj hid ▸ h
  | delete id' => exact Option.some.inj hid ▸ h
  | list => cases hid

/-- **What rescheduling touches.** For all providers whose listings have no id twice, whichever of
their calls fail: a call other than a listing is for a workload that its provider lists on the dead
machine; a creation is for a highly available one, and changes only its machine, to another one that
belongs to an alive member and satisfies the scope, the labels and the resources of the workload; and
if moves are returned, they are those of the workloads whose deletion, creation and start succeeded,
else the error is that of the last call. -/
theorem rescheduling_frame (providers : List (RuntimeProvider σ))
    (hids : ∀ p ∈ providers, p.UniqueIds) (topology : InMemoryTopology) (t : Membership) (dead : Id)
    (s : σ) :
    (∀ x ∈ deathCalls providers topology t dead s, ∀ id, x.call.workload = some id →
      ∃ y ∈ deathCalls providers topology t dead s, y.provider = x.provider ∧ y.call = .list ∧
        (∃ w ∈ y.listed, w.metadata.id = id) ∧
        ∀ w ∈ y.listed, w.metadata.id = id → w.node = some dead) ∧
    (∀ x ∈ deathCalls providers topology t dead s, ∀ w', x.call = .create w' →
      ∃ y ∈ deathCalls providers topology t dead s, y.provider = x.provider ∧ y.call = .list ∧
        ∃ w ∈ y.listed, w.highlyAvailable ∧ ∃ target ≠ dead, w' = { w with node := some target } ∧
          (∃ id m, t.members.lookup id = some m ∧ m.liveness = .alive ∧
            m.node.machineId = some target) ∧
          ∃ m ∈ topology.allMachines, m.metadata.id = target ∧ w.permitsPlacement m.scope ∧
            m.metadata.matchesLabels w.nodeSelector ∧ w.resources.fitsIn m.capacity) ∧
    match (handleNodeDead providers topology t dead s).1 with
      | .ok moves => moves = moved (deathCalls providers topology t dead s)
      | .error e => ∃ calls x, deathCalls providers topology t dead s = calls ++ [x] ∧
          x.error = some e := by
  obtain ⟨hjustified, hreports⟩ := handleNodeDead_traced hids topology t dead s
  refine ⟨fun x hx id hid => ?_, fun x hx w' hw' => ?_, ?_⟩
  · obtain ⟨y, hy, hprovider, hlist, hnodup, hallowed⟩ := hjustified x hx
    obtain ⟨w, hw, hwid, hnode⟩ := hallowed.listed hid
    refine ⟨y, hy, hprovider, hlist, ⟨w, hw, hwid⟩, fun v hv hvid => ?_⟩
    rw [List.inj_on_of_nodup_map hnodup hv hw (hvid.trans hwid.symm)]
    exact hnode
  · obtain ⟨y, hy, hprovider, hlist, -, hallowed⟩ := hjustified x hx
    rw [hw'] at hallowed
    obtain ⟨w, hw, target, hdue, rfl⟩ := hallowed
    obtain ⟨halive, m, hm, hmid, hsat⟩ := pickTarget_survivors_spec hdue.pick
    simp only [machineSatisfies, Bool.and_eq_true] at hsat
    exact ⟨y, hy, hprovider, hlist, w, hw, hdue.highlyAvailable, target,
      pickTarget_survivors_ne hdue.pick, rfl, halive, m, hm, hmid, hsat.1.1, hsat.1.2, hsat.2⟩
  · cases hr : (handleNodeDead providers topology t dead s).1 with
    | ok moves =>
      rw [hr] at hreports
      exact hreports.2.trans hreports.1.moved_eq.symm
    | error e =>
      rw [hr] at hreports
      exact hreports

theorem uniqueIds_keeping (pattern : Failures) (kind : RuntimeKind) (name : String) :
    (keeping pattern kind name).UniqueIds := by
  intro s ws hws
  obtain rfl := Except.ok.inj hws
  rw [Kept.map_id_values]
  exact (s name).workloads.keys_nodup

/-- Nothing fails, and both workloads of `m1` are moved. -/
theorem rescheduling_frame_two :
    (handleNodeDead [keeping (fun _ _ _ => none) .container "docker"] twoMachines secondAlive ⟨"m1"⟩
        twoOnFirst).1 = .ok ["db -> m2", "web -> m2"] ∧
      ["db -> m2", "web -> m2"] =
        moved (deathCalls [keeping (fun _ _ _ => none) .container "docker"] twoMachines secondAlive
          ⟨"m1"⟩ twoOnFirst) := by
  obtain ⟨-, -, hmoves⟩ := rescheduling_frame [keeping (fun _ _ _ => none) .container "docker"]
    (by simpa using uniqueIds_keeping _ _ _) twoMachines secondAlive ⟨"m1"⟩ twoOnFirst
  have hok : (handleNodeDead [keeping (fun _ _ _ => none) .container "docker"] twoMachines
      secondAlive ⟨"m1"⟩ twoOnFirst).1 = .ok ["db -> m2", "web -> m2"] := rfl
  rw [hok] at hmoves
  exact ⟨hok, hmoves⟩

end OCF.Api
