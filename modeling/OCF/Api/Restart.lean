import OCF.Api.Restore

/-!
# Restarts

A restart is a fresh controller that restores from the store the last one left. What it then holds
is what is stored, next to the built-in roles (`live_restore`), and what is stored is everything
that was ever persisted: no operation deletes from the store. So a restart brings back exactly what
was live when no resource that is stored is gone (`StoredLive`), and a resource that was removed
after it had been persisted comes back.

* `restart_exact_iff`: the exact condition on the state that is persisted.
* `no_resurrection_iff`: the same in terms of the history: whatever a call removes while it is
  stored is live again at the end.
-/

namespace OCF.Api

open OCF.Authz OCF.Lb OCF.Network OCF.Runtime OCF.Store FabricController

/-! ## What is stored and what is live -/

namespace FabricController

variable {c : FabricController}

/-- Every stored resource is live. -/
def StoredLive (c : FabricController) : Prop :=
  ∀ kind k, (c.store.get kind.collection k).isSome → (c.live kind k).isSome

/-- The resource that an operation removes. -/
def removes (c : FabricController) : ControllerOp → Option (Kind × String)
  | .detachWorkload _ w => some (.attachment, w.name)
  | .removeBinding id => some (.binding, id.name)
  | .deleteLb id => some (.loadBalancer, id.name)
  | .deleteVpc id =>
    -- refused while a subnet references the VPC
    if (HashMap.values c.network.subnets).any fun s => s.vpcId = id then none
    else some (.vpc, id.name)
  | _ => none

/-- The built-in roles are all a fresh controller has. -/
theorem live_of_live_fresh (h : c.WellKeyed) {s : StateStore Record} {kind : Kind} {k : String}
    (hl : ((fresh s).live kind k).isSome) : (c.live kind k).isSome := by
  cases kind with
  | role =>
    simp only [live, fresh, RbacEngine.withDefaults, RbacEngine.putRole, RbacEngine.new,
      Option.isSome_map, AList.lookup_isSome, AList.mem_insert] at hl ⊢
    obtain rfl | rfl | hl := hl
    · exact h.rbac.auditor
    · exact h.rbac.administrator
    · exact absurd hl (AList.notMem_empty _)
  | _ => simp [live, fresh, NetworkController.new, LoadBalancerController.new,
      RbacEngine.withDefaults, RbacEngine.putRole, RbacEngine.new] at hl

/-- **What a restart after a persist brings back** is exactly what was live, if and only if nothing
was stored that was not live. -/
theorem restart_exact_iff (hc : c.WellKeyed) (hs : StoredWf c.store) {env : PersistEnv}
    (hp : (c.persist env).1 = .ok ()) :
    (∀ kind k, (fresh (c.persist env).2.store).restore.2.live kind k = c.live kind k) ↔
      c.StoredLive := by
  have hrestore := live_restore (hs.persist hc env)
  constructor
  · intro h kind k hstored
    rw [← h kind k, hrestore]
    obtain ⟨hget, -⟩ | ⟨r, -, hget⟩ := get_persist hc env kind k
    · rw [hget, Option.isSome_or, hstored, Bool.true_or]
    · rw [hget]
      rfl
  · intro h kind k
    rw [hrestore]
    obtain ⟨hget, hnone⟩ | ⟨r, hlive, hget⟩ := get_persist hc env kind k
    · have hstore : c.store.get kind.collection k = none := by
        by_contra hne
        have hsome := h kind k (Option.isSome_iff_ne_none.2 hne)
        simp [hnone hp] at hsome
      rw [hget, hstore, Option.none_or, hnone hp]
      by_contra hne
      have hsome := live_of_live_fresh hc (Option.isSome_iff_ne_none.2 hne)
      simp [hnone hp] at hsome
    · rw [hget, hlive, Option.some_or]

/-! ## One call -/

theorem mem_vpcs_createVpc {n : NetworkController} {vpc : Vpc} {id : Id} (h : id ∈ n.vpcs) :
    id ∈ (n.createVpc vpc).2.vpcs := by
  unfold NetworkController.createVpc
  dsimp only
  split_ifs
  · exact h
  · exact (AList.mem_insert _).2 (.inr h)

/-- The controller has a resource of the kind under the key. -/
def Has (c : FabricController) : Kind → String → Prop
  | .attachment, k => ⟨k⟩ ∈ c.attachments
  | .binding, k => ⟨k⟩ ∈ c.rbac.bindings
  | .user, k => k ∈ c.rbac.users
  | .group, k => k ∈ c.rbac.groups
  | .role, k => k ∈ c.rbac.roles
  | .vpc, k => ⟨k⟩ ∈ c.network.vpcs
  | .subnet, k => ⟨k⟩ ∈ c.network.subnets
  | .loadBalancer, k => ⟨k⟩ ∈ c.loadbalancers.loadBalancers

theorem isSome_live_iff {kind : Kind} {k : String} : (c.live kind k).isSome ↔ c.Has kind k := by
  cases kind <;> simp only [live, Has, Option.isSome_map, AList.lookup_isSome]

theorem Has.network {n' : NetworkController} {kind : Kind} {k : String} (h : c.Has kind k)
    (hv : kind = .vpc → ⟨k⟩ ∈ c.network.vpcs → ⟨k⟩ ∈ n'.vpcs)
    (hs : ⟨k⟩ ∈ c.network.subnets → ⟨k⟩ ∈ n'.subnets) : Has { c with network := n' } kind k := by
  cases kind with
  | vpc => exact hv rfl h
  | subnet => exact hs h
  | _ => exact h

/-- A call of the network controller that leaves its subnets. -/
theorem Has.sameSubnets {n' : NetworkController} {kind : Kind} {k : String} (h : c.Has kind k)
    (hsame : c.network.SameSubnets n') (hv : kind = .vpc → ⟨k⟩ ∈ c.network.vpcs → ⟨k⟩ ∈ n'.vpcs) :
    Has { c with network := n' } kind k := by
  refine h.network hv fun hs => ?_
  rwa [hsame.1]

/-- A call of the load balancer controller. -/
theorem Has.loadBalancers {l' : LoadBalancerController} {kind : Kind} {k : String}
    (h : c.Has kind k) (hl : kind = .loadBalancer →
      Has c .loadBalancer k → Has { c with loadbalancers := l' } .loadBalancer k) :
    Has { c with loadbalancers := l' } kind k := by
  cases kind with
  | loadBalancer => exact hl rfl h
  | _ => exact h

/-- A call that leaves everything but the attachments and the allocators. -/
theorem Has.congr {c' : FabricController} {kind : Kind} {k : String} (h : c.Has kind k)
    (hf : c'.network.vpcs = c.network.vpcs ∧ c'.network.subnets = c.network.subnets ∧
      c'.rbac = c.rbac ∧ c'.loadbalancers = c.loadbalancers)
    (ha : kind = .attachment → ⟨k⟩ ∈ c.attachments → ⟨k⟩ ∈ c'.attachments) : c'.Has kind k := by
  obtain ⟨hv, hs, hr, hl⟩ := hf
  cases kind with
  | attachment => exact ha rfl h
  | vpc =>
    rw [Has, hv]
    exact h
  | subnet =>
    rw [Has, hs]
    exact h
  | loadBalancer =>
    rw [Has, hl]
    exact h
  | _ =>
    rw [Has, hr]
    exact h

theorem Has.attachWorkload {kind : Kind} {k : String} (h : c.Has kind k) (env : PersistEnv)
    (w s : Id) (egress : Bool) : (c.attachWorkload env w s egress).2.Has kind k := by
  refine h.congr (c.attachWorkload_frame env w s egress) fun _ ha => ?_
  obtain ⟨-, he⟩ | ⟨-, -, he⟩ | ⟨a, addr, a', -, -, -, he⟩ := c.attachWorkload_cases env w s egress
  · rwa [he]
  · rw [he]
    exact ha
  · rw [he, persist_attachments, refreshEgress_attachments]
    exact (AList.mem_insert _).2 (.inr ha)

theorem Has.detachWorkload {kind : Kind} {k : String} (h : c.Has kind k) {env : PersistEnv}
    {w : Id} (hne : (kind, k) ≠ (.attachment, w.name)) : (c.detachWorkload env w).Has kind k := by
  refine h.congr (c.detachWorkload_frame env w) fun hk ha => ?_
  subst hk
  unfold FabricController.detachWorkload
  split
  · exact ha
  · rw [persist_attachments, refreshEgress_attachments]
    refine AList.mem_erase.2 ⟨?_, ha⟩
    rintro rfl
    exact hne rfl

theorem Has.setSubnetEgress {kind : Kind} {k : String} (h : c.Has kind k) (env : PersistEnv)
    (s : Id) (mode : EgressMode) : (c.setSubnetEgress env s mode).2.Has kind k := by
  obtain ⟨hn, ha, hr, hl⟩ := c.setSubnetEgress_frame env s mode
  have hnet : Has { c with
      network := (c.network.setSubnetEgress s mode (c.subnetEgressAllowed s)).2 } kind k := by
    obtain he | ⟨t, ht, he⟩ := c.network.setSubnetEgress_cases s mode (c.subnetEgressAllowed s)
    · rw [he]
      exact h
    · rw [he]
      exact h.network (fun _ hv => hv) fun hs => (AList.mem_insert _).2 (.inr hs)
  rw [← hn] at hnet
  exact hnet.congr ⟨rfl, rfl, hr, hl⟩ fun _ hk => ha ▸ hk

/-- **What a controller has stays**, unless the call removes it. -/
theorem Has.exec {kind : Kind} {k : String} (h : c.Has kind k) {op : ControllerOp}
    (hne : c.removes op ≠ some (kind, k)) : (c.exec op).Has kind k := by
  cases op with
  | createVpc vpc =>
    exact h.sameSubnets (c.network.sameSubnets_createVpc vpc) fun _ => mem_vpcs_createVpc
  | deleteVpc id =>
    refine h.sameSubnets (c.network.sameSubnets_deleteVpc id) fun hk hv => ?_
    subst hk
    unfold NetworkController.deleteVpc
    split_ifs with hused
    · exact hv
    · refine AList.mem_erase.2 ⟨?_, hv⟩
      rintro rfl
      exact hne (if_neg hused)
    · exact hv
  | createSubnet subnet =>
    refine h.network (fun _ hv => ?_) mem_subnets_createSubnet
    rwa [NetworkController.createSubnet_vpcs]
  | addRoute route fanned =>
    refine h.sameSubnets (c.network.sameSubnets_addRoute route fanned) fun _ hv => ?_
    unfold NetworkController.addRoute
    split_ifs <;> exact hv
  | applyPolicy policy fanned =>
    refine h.sameSubnets (c.network.sameSubnets_applyPolicy policy fanned) fun _ hv => ?_
    unfold NetworkController.applyPolicy
    split <;> exact hv
  | deletePolicy id =>
    refine h.sameSubnets (c.network.sameSubnets_deletePolicy id) fun _ hv => ?_
    unfold NetworkController.deletePolicy
    split_ifs <;> exact hv
  | attachWorkload env w s egress => exact h.attachWorkload env w s egress
  | detachWorkload env w => exact h.detachWorkload fun he => hne (congrArg some he.symm)
  | setSubnetEgress env s mode => exact h.setSubnetEgress env s mode
  | createLb lb =>
    refine h.loadBalancers fun _ hl => ?_
    simp only [Has, LoadBalancerController.create] at hl ⊢
    split_ifs
    · exact hl
    · exact (AList.mem_insert _).2 (.inr hl)
  | updateLb lb =>
    refine h.loadBalancers fun _ hl => ?_
    simp only [Has, LoadBalancerController.update] at hl ⊢
    split_ifs
    · exact (AList.mem_insert _).2 (.inr hl)
    · exact hl
  | deleteLb id =>
    refine h.loadBalancers fun hk hl => ?_
    subst hk
    simp only [Has, LoadBalancerController.delete] at hl ⊢
    split_ifs
    · refine AList.mem_erase.2 ⟨?_, hl⟩
      rintro rfl
      exact hne rfl
    · exact hl
  | putUser user =>
    cases kind with
    | user => exact (AList.mem_insert _).2 (.inr h)
    | _ => exact h
  | putGroup group =>
    cases kind with
    | group => exact (AList.mem_insert _).2 (.inr h)
    | _ => exact h
  | putRole role =>
    cases kind with
    | role => exact (AList.mem_insert _).2 (.inr h)
    | _ => exact h
  | addBinding binding =>
    cases kind with
    | binding => exact (AList.mem_insert _).2 (.inr h)
    | _ => exact h
  | removeBinding id =>
    simp only [FabricController.exec, RbacEngine.removeBinding]
    split_ifs
    · cases kind with
      | binding =>
        refine AList.mem_erase.2 ⟨?_, h⟩
        rintro rfl
        exact hne rfl
      | _ => exact h
    · exact h
  | _ => exact h

/-- A call leaves the store as it is, or it ends with a persist. -/
theorem exec_store (c : FabricController) (op : ControllerOp) :
    (c.exec op).store = c.store ∨
      ∃ c' env, c.exec op = (FabricController.persist c' env).2 ∧ c'.store = c.store := by
  cases op with
  | attachWorkload env w s egress =>
    change (c.attachWorkload env w s egress).2.store = _ ∨
      ∃ c' env', (c.attachWorkload env w s egress).2 = _ ∧ _
    obtain ⟨-, he⟩ | ⟨-, -, he⟩ | ⟨a, addr, a', -, -, -, he⟩ := c.attachWorkload_cases env w s egress
    · exact .inl (by rw [he])
    · exact .inl (by rw [he])
    · exact .inr ⟨_, env, he, rfl⟩
  | detachWorkload env w =>
    simp only [exec, detachWorkload]
    split
    · exact .inl rfl
    · exact .inr ⟨_, env, rfl, rfl⟩
  | setSubnetEgress env s mode =>
    simp only [exec, setSubnetEgress]
    split
    · exact .inl rfl
    · exact .inr ⟨_, env, rfl, rfl⟩
  | persist env => exact .inr ⟨c, env, rfl, rfl⟩
  | _ => exact .inl rfl

/-- **Every call keeps the store well formed.** -/
theorem storedWf_exec (hs : StoredWf c.store) (hc : c.WellKeyed) (op : ControllerOp) :
    StoredWf (c.exec op).store := by
  obtain h | ⟨c', env, h, hstore⟩ := c.exec_store op
  · rwa [h]
  · have hc' : (c'.persist env).2.WellKeyed := h ▸ hc.exec op
    rw [← hstore] at hs
    rw [h]
    exact hs.persist ⟨hc'.network, hc'.rbac, hc'.lbs⟩ env

/-- What is stored after a call was stored before or is live. -/
theorem stored_exec (hc : c.WellKeyed) {op : ControllerOp} {kind : Kind} {k : String}
    (h : ((c.exec op).store.get kind.collection k).isSome) :
    (c.store.get kind.collection k).isSome ∨ ((c.exec op).live kind k).isSome := by
  obtain he | ⟨c', env, he, hstore⟩ := c.exec_store op
  · exact .inl (he ▸ h)
  · have hc' : (c'.persist env).2.WellKeyed := he ▸ hc.exec op
    rw [he] at h ⊢
    obtain ⟨hget, -⟩ | ⟨r, hlive, -⟩ :=
      get_persist (c := c') ⟨hc'.network, hc'.rbac, hc'.lbs⟩ env kind k
    · rw [hget, hstore] at h
      exact .inl h
    · exact .inr (Option.isSome_iff_exists.2 ⟨r, hlive⟩)

/-- **A call that does not remove it while it is stored** leaves a resource live if it is stored. -/
theorem live_exec_of_stored (hc : c.WellKeyed) {op : ControllerOp} {kind : Kind} {k : String}
    (h : (c.store.get kind.collection k).isSome → (c.live kind k).isSome)
    (hg : (kind, k) ∈ c.removes op → c.store.get kind.collection k = none)
    (hstored : ((c.exec op).store.get kind.collection k).isSome) :
    ((c.exec op).live kind k).isSome := by
  obtain hold | hlive := stored_exec hc hstored
  · refine isSome_live_iff.2 ((isSome_live_iff.1 (h hold)).exec fun hrem => ?_)
    simp [hg hrem] at hold
  · exact hlive

end FabricController

/-! ## Histories -/

/-- What happens to a node: a call of an operation, or a restart over its store. -/
inductive NodeEvent
  | call (op : ControllerOp)
  | restart

/-- The controller after an event; every event is enabled. -/
def nodeStep (c : FabricController) : NodeEvent → Option FabricController
  | .call op => some (c.exec op)
  | .restart => some (fresh c.store).restore.2

/-- The event does not remove the resource while it is stored. -/
def Keeps (kind : Kind) (k : String) (c : FabricController) : NodeEvent → Prop
  | .call op => (kind, k) ∈ c.removes op → c.store.get kind.collection k = none
  | .restart => True

/-- At some point of the history a call removes the resource while it is stored. -/
def RemovedWhileStored (events : List NodeEvent) (kind : Kind) (k : String) : Prop :=
  ∃ n t op, run nodeStep (fresh .empty) (events.take n) = some t ∧ events[n]? = some (.call op) ∧
    (kind, k) ∈ t.removes op ∧ (t.store.get kind.collection k).isSome

/-- The resources and the stored records are under their own keys. -/
def Consistent (c : FabricController) : Prop := c.WellKeyed ∧ StoredWf c.store

theorem consistent_fresh : Consistent (fresh .empty) := ⟨wellKeyed_fresh _, storedWf_empty⟩

theorem consistent_step {c c' : FabricController} {e : NodeEvent} (h : Consistent c)
    (hs : nodeStep c e = some c') : Consistent c' := by
  cases e with
  | call op =>
    obtain rfl := Option.some.inj hs
    exact ⟨h.1.exec op, storedWf_exec h.2 h.1 op⟩
  | restart =>
    obtain rfl := Option.some.inj hs
    refine ⟨wellKeyed_restore h.2, ?_⟩
    rw [(restore_fresh h.2).2.1]
    exact h.2

/-- What is stored stays stored. -/
theorem stored_step {c c' : FabricController} {e : NodeEvent} (h : Consistent c)
    (hs : nodeStep c e = some c') {kind : Kind} {k : String}
    (hstored : (c.store.get kind.collection k).isSome) :
    (c'.store.get kind.collection k).isSome := by
  cases e with
  | call op =>
    obtain rfl := Option.some.inj hs
    obtain he | ⟨c₁, env, he, hstore⟩ := c.exec_store op
    · rwa [he]
    · have hc₁ : (c₁.persist env).2.WellKeyed := he ▸ h.1.exec op
      rw [he]
      obtain ⟨hget, -⟩ | ⟨r, -, hget⟩ :=
        get_persist (c := c₁) ⟨hc₁.network, hc₁.rbac, hc₁.lbs⟩ env kind k
      · rwa [hget, hstore]
      · rw [hget]
        rfl
  | restart =>
    obtain rfl := Option.some.inj hs
    rwa [(restore_fresh h.2).2.1]

/-- **A resource that no event removes while it is stored** is live if it is stored. -/
theorem live_step_of_stored {c c' : FabricController} {e : NodeEvent} {kind : Kind} {k : String}
    (hc : Consistent c) (h : (c.store.get kind.collection k).isSome → (c.live kind k).isSome)
    (hg : Keeps kind k c e) (hs : nodeStep c e = some c')
    (hstored : (c'.store.get kind.collection k).isSome) : (c'.live kind k).isSome := by
  cases e with
  | call op =>
    obtain rfl := Option.some.inj hs
    exact live_exec_of_stored hc.1 h hg hstored
  | restart =>
    obtain rfl := Option.some.inj hs
    rw [(restore_fresh hc.2).2.1] at hstored
    rw [live_restore hc.2, Option.isSome_or, hstored, Bool.true_or]

theorem guarded_keeps_of_not_removed {events : List NodeEvent} {kind : Kind} {k : String}
    (h : ¬RemovedWhileStored events kind k) :
    Guarded nodeStep (Keeps kind k) (fresh .empty) events := by
  refine Guarded.iff_forall_take.2 fun n t e ht he => ?_
  cases e with
  | restart => trivial
  | call op =>
    intro hrem
    by_contra hne
    exact h ⟨n, t, op, ht, he, hrem, Option.isSome_iff_ne_none.2 hne⟩

/-- After a history, everything stored is live if and only if everything that was removed while it
was stored is live again. -/
theorem storedLive_iff {events : List NodeEvent} {c : FabricController}
    (hrun : run nodeStep (fresh .empty) events = some c) : c.StoredLive ↔
      ∀ kind k, RemovedWhileStored events kind k → (c.live kind k).isSome := by
  constructor
  · rintro h kind k ⟨n, t, op, ht, -, -, hstored⟩
    -- it was stored when it was removed, so it still is
    have hc : Consistent t := run_invariant (I := Consistent)
      (fun _ _ _ h hs => consistent_step h hs) consistent_fresh ht
    rw [← List.take_append_drop n events, run_append, ht, Option.bind_some] at hrun
    have hend := run_invariant
      (I := fun c => Consistent c ∧ (c.store.get kind.collection k).isSome)
      (fun _ _ _ h hs => ⟨consistent_step h.1 hs, stored_step h.1 hs h.2⟩) ⟨hc, hstored⟩ hrun
    exact h kind k hend.2
  · intro h kind k hstored
    by_cases hrem : RemovedWhileStored events kind k
    · exact h kind k hrem
    have hstart : ((fresh .empty).store.get kind.collection k).isSome →
        ((fresh .empty).live kind k).isSome := fun h => by simp [fresh, StateStore.get] at h
    have hend := (guarded_keeps_of_not_removed hrem).invariant
      (I := fun c => Consistent c ∧
        ((c.store.get kind.collection k).isSome → (c.live kind k).isSome))
      (fun _ _ _ h hg hs => ⟨consistent_step h.1 hs, live_step_of_stored h.1 h.2 hg hs⟩)
      ⟨consistent_fresh, hstart⟩ hrun
    exact hend.2 hstored

/-- **No resurrection.** After a history of calls and restarts whose state is then persisted, a
restart holds exactly the attachments, bindings, users, groups, roles, VPCs, subnets and load
balancers that were live, if and only if every resource that was removed while it was stored is live
again. -/
theorem no_resurrection_iff (events : List NodeEvent) (c : FabricController)
    (hrun : run nodeStep (fresh .empty) events = some c) (env : PersistEnv)
    (hp : (c.persist env).1 = .ok ()) :
    (∀ kind k, (fresh (c.persist env).2.store).restore.2.live kind k = c.live kind k) ↔
      ∀ kind k, RemovedWhileStored events kind k → (c.live kind k).isSome := by
  obtain ⟨hc, hs⟩ : Consistent c := run_invariant (I := Consistent)
    (fun _ _ _ h hs => consistent_step h hs) consistent_fresh hrun
  rw [restart_exact_iff hc hs hp, storedLive_iff hrun]

/-- A workload is attached, detached and attached again, and the node restarts. -/
def reattachingHistory : List NodeEvent :=
  [.call (.createVpc sampleVpc), .call (.createSubnet (sampleSubnet "s1" "10.0.1.0/24" .isolated)),
    .call (.attachWorkload quietEnv ⟨"a"⟩ ⟨"s1"⟩ false), .call (.detachWorkload quietEnv ⟨"a"⟩),
    .call (.attachWorkload quietEnv ⟨"a"⟩ ⟨"s1"⟩ true), .restart]

/-- The attachment is removed while it is stored, but it is live again at the end, so the next
restart holds what was live. -/
theorem no_resurrection_iff_reattachingHistory :
    ∃ c, run nodeStep (fresh .empty) reattachingHistory = some c ∧
      (c.persist quietEnv).1 = .ok () ∧
      c.live .attachment "a" = some (.attachment ⟨⟨"s1"⟩, true, some "10.0.1.2"⟩) ∧
      ∀ kind k, (fresh (c.persist quietEnv).2.store).restore.2.live kind k = c.live kind k := by
  refine ⟨_, rfl, rfl, rfl, (no_resurrection_iff reattachingHistory _ rfl quietEnv rfl).2 ?_⟩
  rintro kind k ⟨n, t, op, -, he, hrem, -⟩
  have hop := List.mem_of_getElem? he
  simp only [reattachingHistory, List.mem_cons, NodeEvent.call.injEq, List.not_mem_nil, or_false,
    reduceCtorEq] at hop
  obtain rfl | rfl | rfl | rfl | rfl := hop
  · cases hrem
  · cases hrem
  · cases hrem
  · obtain ⟨rfl, rfl⟩ := Prod.mk.inj (Option.some.inj hrem)
    rfl
  · cases hrem

/-- The fleet-wide grant of the `Auditor` role to one user. -/
def sampleBinding : RoleBinding := ⟨⟨"b1"⟩, .user "ada", "Auditor", .fleet⟩

/-- A workload is attached and detached, and a binding is added, persisted and removed. -/
def removingHistory : List NodeEvent :=
  [.call (.createVpc sampleVpc), .call (.createSubnet (sampleSubnet "s1" "10.0.1.0/24" .isolated)),
    .call (.addBinding sampleBinding), .call (.attachWorkload quietEnv ⟨"a"⟩ ⟨"s1"⟩ false),
    .call (.removeBinding ⟨"b1"⟩), .call (.detachWorkload quietEnv ⟨"a"⟩)]

/-- Both are gone and the state is persisted; after a restart both are back. -/
theorem removed_resources_come_back :
    ∃ c, run nodeStep (fresh .empty) removingHistory = some c ∧
      (c.persist quietEnv).1 = .ok () ∧
      c.live .attachment "a" = none ∧ c.live .binding "b1" = none ∧
      ((fresh (c.persist quietEnv).2.store).restore.2.live .attachment "a").isSome ∧
      ((fresh (c.persist quietEnv).2.store).restore.2.live .binding "b1").isSome :=
  ⟨_, rfl, rfl, rfl, rfl, by decide +kernel, by decide +kernel⟩

end OCF.Api
