import OCF.Api.Egress
import OCF.Api.Persist

/-!
# What a restore reads back

A fresh controller that restores from a store holds what is stored, next to the built-in roles, when
the store is well formed. The collections are read back in one way, whatever they hold: `Decoder`
says how the resources of one kind are stored, and its lemmas what a map holds after the stored
resources are inserted into it.

* `Decoder.lookup_foldl_insert`: a key reads as it is stored.
* `live_restore`: the same for every kind of resource of a restored controller.
* `wellKeyed_restore`: a restored controller has its resources under their own keys.
-/

namespace OCF.Api

open OCF.Authz OCF.Lb OCF.Network OCF.Runtime OCF.Store FabricController

/-! ## Reading a collection back -/

theorem mem_listJson {T : Type} {s : StateStore Record} {col : String} {decode : Record → Option T}
    {x : T} : x ∈ listJson s col decode ↔ ∃ k r, s.get col k = some r ∧ decode r = some x := by
  simp only [listJson, List.mem_filterMap, Prod.exists, StateStore.mem_list]

/-- How the resources of one kind are stored: their decoder and its inverse, and the key that a
resource is kept under next to the key it is stored under. -/
structure Decoder (T K : Type) where
  kind : Kind
  decode : Record → Option T
  encode : T → Record
  key : T → K
  ofName : String → K
  ofName_injective : Function.Injective ofName
  decode_eq_some : ∀ r x, decode r = some x ↔ r = encode x
  exists_encode : ∀ r k, r.kind = some kind → r.UnderKey k → ∃ x, r = encode x ∧ key x = ofName k

namespace Decoder

variable {T K : Type} (D : Decoder T K) {s : StateStore Record}

/-- The stored resources of the kind. -/
def list (s : StateStore Record) : List T := listJson s D.kind.collection D.decode

theorem mem_list {x : T} : x ∈ D.list s ↔ ∃ k, s.get D.kind.collection k = some (D.encode x) := by
  simp only [list, mem_listJson, D.decode_eq_some, exists_eq_right]

variable (h : StoredWf s)
include h

/-- What is stored in the collection is a resource of the kind, under its own key. -/
theorem own {k : String} {r : Record} (hr : s.get D.kind.collection k = some r) :
    ∃ x, r = D.encode x ∧ D.key x = D.ofName k := by
  obtain ⟨hkind, hkey⟩ := h.underKey D.kind k r hr
  exact D.exists_encode r k hkind hkey

theorem key_eq {k : String} {x : T} (hx : s.get D.kind.collection k = some (D.encode x)) :
    D.key x = D.ofName k := by
  obtain ⟨y, hy, hk⟩ := D.own h hx
  obtain rfl := Option.some.inj (((D.decode_eq_some _ x).2 rfl).symm.trans
    ((D.decode_eq_some _ y).2 hy))
  exact hk

/-- The stored resources are listed without repetition. -/
theorem nodup_list : ((D.list s).map D.key).Nodup := by
  have hkeys := s.nodup_keys_list D.kind.collection
  rw [List.Nodup, List.pairwise_map] at hkeys
  rw [List.Nodup, List.pairwise_map, list, listJson, List.pairwise_filterMap]
  have hkey : ∀ e ∈ s.list D.kind.collection, ∀ x, D.decode e.2 = some x → D.key x = D.ofName e.1 := by
    intro e he x hx
    have hget := StateStore.mem_list.1 he
    rw [(D.decode_eq_some _ x).1 hx] at hget
    exact D.key_eq h hget
  refine hkeys.imp_of_mem fun {a b} ha hb hne x hx y hy heq => hne (D.ofName_injective ?_)
  rw [← hkey a ha x hx, ← hkey b hb y hy, heq]

/-- Inserting the stored resources into a map: a key reads as it is stored, or as before when it is
not. -/
theorem lookup_foldl_insert [DecidableEq K] (m : HashMap K T) (k : String) :
    (((D.list s).foldl (fun m x => m.insert (D.key x) x) m).lookup (D.ofName k)).map D.encode =
      (s.get D.kind.collection k).or ((m.lookup (D.ofName k)).map D.encode) := by
  obtain ⟨x, hx, hk, hl⟩ | ⟨hne, hl⟩ := HashMap.lookup_foldl_insert D.key id (D.list s) m (D.ofName k)
  · obtain ⟨k', hget⟩ := D.mem_list.1 hx
    obtain rfl := D.ofName_injective ((D.key_eq h hget).symm.trans hk)
    rw [hget]
    exact congrArg (Option.map D.encode) hl
  · have hnone : s.get D.kind.collection k = none := by
      by_contra hget
      obtain ⟨r, hr⟩ := Option.ne_none_iff_exists'.1 hget
      obtain ⟨x, rfl, hk⟩ := D.own h hr
      exact hne x (D.mem_list.2 ⟨k, hr⟩) hk
    rw [hnone, Option.none_or]
    exact congrArg (Option.map D.encode) hl

end Decoder

theorem id_mk_injective : Function.Injective Id.mk := fun _ _ h => congrArg Id.name h

/-- Users. -/
def userDecoder : Decoder User String where
  kind := .user
  decode := Record.asUser
  encode := .user
  key := User.username
  ofName := id
  ofName_injective := Function.injective_id
  decode_eq_some r x := by cases r <;> simp [Record.asUser]
  exists_encode r k hkind hkey := by
    cases r <;> simp only [Record.kind, reduceCtorEq, Option.some.injEq] at hkind
    exact ⟨_, rfl, hkey⟩

/-- Roles. -/
def roleDecoder : Decoder Role String where
  kind := .role
  decode := Record.asRole
  encode := .role
  key r := r.metadata.name
  ofName := id
  ofName_injective := Function.injective_id
  decode_eq_some r x := by cases r <;> simp [Record.asRole]
  exists_encode r k hkind hkey := by
    cases r <;> simp only [Record.kind, reduceCtorEq, Option.some.injEq] at hkind
    exact ⟨_, rfl, hkey⟩

/-- Groups. -/
def groupDecoder : Decoder Group String where
  kind := .group
  decode := Record.asGroup
  encode := .group
  key g := g.metadata.name
  ofName := id
  ofName_injective := Function.injective_id
  decode_eq_some r x := by cases r <;> simp [Record.asGroup]
  exists_encode r k hkind hkey := by
    cases r <;> simp only [Record.kind, reduceCtorEq, Option.some.injEq] at hkind
    exact ⟨_, rfl, hkey⟩

/-- Role bindings. -/
def bindingDecoder : Decoder RoleBinding Id where
  kind := .binding
  decode := Record.asBinding
  encode := .binding
  key := RoleBinding.id
  ofName := Id.mk
  ofName_injective := id_mk_injective
  decode_eq_some r x := by cases r <;> simp [Record.asBinding]
  exists_encode r k hkind hkey := by
    cases r <;> simp only [Record.kind, reduceCtorEq, Option.some.injEq] at hkind
    exact ⟨_, rfl, congrArg Id.mk hkey⟩

/-- VPCs. -/
def vpcDecoder : Decoder Vpc Id where
  kind := .vpc
  decode := Record.asVpc
  encode := .vpc
  key v := v.metadata.id
  ofName := Id.mk
  ofName_injective := id_mk_injective
  decode_eq_some r x := by cases r <;> simp [Record.asVpc]
  exists_encode r k hkind hkey := by
    cases r <;> simp only [Record.kind, reduceCtorEq, Option.some.injEq] at hkind
    exact ⟨_, rfl, congrArg Id.mk hkey⟩

/-- Subnets. -/
def subnetDecoder : Decoder Subnet Id where
  kind := .subnet
  decode := Record.asSubnet
  encode := .subnet
  key t := t.metadata.id
  ofName := Id.mk
  ofName_injective := id_mk_injective
  decode_eq_some r x := by cases r <;> simp [Record.asSubnet]
  exists_encode r k hkind hkey := by
    cases r <;> simp only [Record.kind, reduceCtorEq, Option.some.injEq] at hkind
    exact ⟨_, rfl, congrArg Id.mk hkey⟩

/-- Load balancers. -/
def loadBalancerDecoder : Decoder LoadBalancer Id where
  kind := .loadBalancer
  decode := Record.asLoadBalancer
  encode := .loadBalancer
  key lb := lb.metadata.id
  ofName := Id.mk
  ofName_injective := id_mk_injective
  decode_eq_some r x := by cases r <;> simp [Record.asLoadBalancer]
  exists_encode r k hkind hkey := by
    cases r <;> simp only [Record.kind, reduceCtorEq, Option.some.injEq] at hkind
    exact ⟨_, rfl, congrArg Id.mk hkey⟩

/-! ## The subsystems after a restore -/

theorem foldl_putUser (us : List User) (e : RbacEngine) : us.foldl .putUser e =
    { e with users := us.foldl (fun m u => m.insert u.username u) e.users } := by
  induction us generalizing e with
  | nil => rfl
  | cons u us ih => exact ih (e.putUser u)

theorem foldl_putRole (rs : List Role) (e : RbacEngine) : rs.foldl .putRole e =
    { e with roles := rs.foldl (fun m r => m.insert r.metadata.name r) e.roles } := by
  induction rs generalizing e with
  | nil => rfl
  | cons r rs ih => exact ih (e.putRole r)

theorem foldl_putGroup (gs : List Group) (e : RbacEngine) : gs.foldl .putGroup e =
    { e with groups := gs.foldl (fun m g => m.insert g.metadata.name g) e.groups } := by
  induction gs generalizing e with
  | nil => rfl
  | cons g gs ih => exact ih (e.putGroup g)

theorem foldl_addBinding (bs : List RoleBinding) (e : RbacEngine) : bs.foldl .addBinding e =
    { e with bindings := bs.foldl (fun m b => m.insert b.id b) e.bindings } := by
  induction bs generalizing e with
  | nil => rfl
  | cons b bs ih => exact ih (e.addBinding b)

theorem restoreRbac_eq (s : StateStore Record) (e : RbacEngine) : restoreRbac s e =
    { roles := (listJson s "rbac_roles" Record.asRole).foldl
        (fun m r => m.insert r.metadata.name r) e.roles
      groups := (listJson s "rbac_groups" Record.asGroup).foldl
        (fun m g => m.insert g.metadata.name g) e.groups
      users := (listJson s "rbac_users" Record.asUser).foldl
        (fun m u => m.insert u.username u) e.users
      bindings := (listJson s "rbac_bindings" Record.asBinding).foldl
        (fun m b => m.insert b.id b) e.bindings } := by
  rw [restoreRbac]
  simp only [foldl_putUser, foldl_putRole, foldl_putGroup, foldl_addBinding]

/-- Distinct load balancers that are new are all created. -/
theorem restoreLoadBalancers_eq {lbs : List LoadBalancer} {c : LoadBalancerController}
    (hnodup : (lbs.map fun lb => lb.metadata.id).Nodup)
    (hnew : ∀ lb ∈ lbs, lb.metadata.id ∉ c.loadBalancers) :
    restoreLoadBalancers lbs c =
      (.ok (), ⟨lbs.foldl (fun m lb => m.insert lb.metadata.id lb) c.loadBalancers⟩) := by
  induction lbs generalizing c with
  | nil => rfl
  | cons lb lbs ih =>
    rw [List.map_cons, List.nodup_cons] at hnodup
    have hcreate : c.create lb = (.ok lb, ⟨c.loadBalancers.insert lb.metadata.id lb⟩) :=
      if_neg (hnew lb (List.mem_cons_self ..))
    simp only [restoreLoadBalancers, hcreate, List.foldl_cons]
    refine ih hnodup.2 fun x hx => ?_
    rw [AList.mem_insert, not_or]
    refine ⟨fun heq => hnodup.1 ?_, hnew x (List.mem_cons_of_mem _ hx)⟩
    rw [← heq]
    exact List.mem_map_of_mem hx

theorem createVpc_new {n : NetworkController} {vpc : Vpc} (h : vpc.metadata.id ∉ n.vpcs) :
    (n.createVpc vpc).2.vpcs = n.vpcs.insert vpc.metadata.id vpc := by
  simp only [NetworkController.createVpc, if_neg h]

theorem createSubnet_new {n : NetworkController} {subnet : Subnet} (hv : subnet.vpcId ∈ n.vpcs)
    (h : subnet.metadata.id ∉ n.subnets) : (n.createSubnet subnet).2.vpcs = n.vpcs ∧
      (n.createSubnet subnet).2.subnets = n.subnets.insert subnet.metadata.id subnet := by
  simp only [NetworkController.createSubnet, if_neg (not_not.2 hv), if_neg h]
  cases SubnetAllocator.new subnet.cidr with
  | ok a => split_ifs <;> exact ⟨rfl, rfl⟩
  | error e => split_ifs <;> exact ⟨rfl, rfl⟩

theorem foldl_createSubnet_vpcs (ss : List Subnet) (n : NetworkController) :
    (ss.foldl (fun n s => (n.createSubnet s).2) n).vpcs = n.vpcs := by
  induction ss generalizing n with
  | nil => rfl
  | cons s ss ih => exact (ih _).trans (n.createSubnet_vpcs s)

/-- Recording stored attachments changes the attachments and the allocators only. -/
theorem foldl_restoreAttachment_frame (es : List (Id × NetworkAttachment)) (c : FabricController) :
    (es.foldl restoreAttachment c).attachments =
        es.foldl (fun m e => m.insert e.1 e.2) c.attachments ∧
      (es.foldl restoreAttachment c).network.vpcs = c.network.vpcs ∧
      (es.foldl restoreAttachment c).network.subnets = c.network.subnets ∧
      (es.foldl restoreAttachment c).rbac = c.rbac ∧
      (es.foldl restoreAttachment c).loadbalancers = c.loadbalancers ∧
      (es.foldl restoreAttachment c).store = c.store := by
  induction es generalizing c with
  | nil => exact ⟨rfl, rfl, rfl, rfl, rfl, rfl⟩
  | cons e es ih =>
    obtain ⟨ha, hv, hs, hr, hl, hst⟩ := ih (c.restoreAttachment e)
    refine ⟨ha, hv.trans ?_, hs.trans ?_, hr, hl, hst⟩
    · unfold restoreAttachment
      dsimp only
      split <;> simp
    · unfold restoreAttachment
      dsimp only
      split <;> simp

theorem StoredWf.own_attachment {s : StateStore Record} (h : StoredWf s) {k : String} {r : Record}
    (hr : s.get "workload_networks" k = some r) : ∃ a, r = .attachment a := by
  obtain ⟨hkind, -⟩ := h.underKey .attachment k r hr
  cases r <;> simp only [Record.kind, reduceCtorEq, Option.some.injEq] at hkind
  exact ⟨_, rfl⟩

/-- The VPCs and subnets of a network restored from nothing: every stored one is created. -/
theorem restoreNetwork_eq {s : StateStore Record} (h : StoredWf s) :
    (restoreNetwork s .new).vpcs =
        (listJson s "vpcs" Record.asVpc).foldl (fun m v => m.insert v.metadata.id v) ∅ ∧
      (restoreNetwork s .new).subnets =
        (listJson s "subnets" Record.asSubnet).foldl (fun m t => m.insert t.metadata.id t) ∅ := by
  have hvpcs : ((listJson s "vpcs" Record.asVpc).foldl (fun n v => (n.createVpc v).2)
      NetworkController.new).vpcs =
        (listJson s "vpcs" Record.asVpc).foldl (fun m v => m.insert v.metadata.id v) ∅ := by
    refine HashMap.foldl_eq_foldl_insert (P := fun _ => True) (fun v : Vpc => v.metadata.id) id
      (fun n v _ _ hnew => ⟨trivial, createVpc_new hnew⟩) trivial ?_ ?_
    · exact vpcDecoder.nodup_list h
    · exact fun v _ => AList.notMem_empty _
  obtain ⟨hsub, -⟩ := sameSubnets_foldl_createVpc (listJson s "vpcs" Record.asVpc) .new
  refine ⟨(foldl_createSubnet_vpcs ..).trans hvpcs, ?_⟩
  have hall : ∀ t ∈ listJson s "subnets" Record.asSubnet,
      t.vpcId ∈ (listJson s "vpcs" Record.asVpc).foldl
        (fun m v => m.insert v.metadata.id v) (∅ : HashMap Id Vpc) := by
    intro t ht
    obtain ⟨k, hr⟩ := subnetDecoder.mem_list.1 ht
    obtain ⟨v, hv⟩ := Option.isSome_iff_exists.1 (h.subnetVpc k t hr)
    have hl := vpcDecoder.lookup_foldl_insert h ∅ t.vpcId.name
    change s.get vpcDecoder.kind.collection t.vpcId.name = some v at hv
    rw [hv, Option.some_or] at hl
    obtain ⟨x, hx, -⟩ := Option.map_eq_some_iff.1 hl
    exact HashMap.mem_iff_exists_lookup.2 ⟨x, hx⟩
  rw [← show _ = (∅ : HashMap Id Subnet) from hsub]
  refine HashMap.foldl_eq_foldl_insert (P := fun n => n.vpcs =
      (listJson s "vpcs" Record.asVpc).foldl (fun m v => m.insert v.metadata.id v) ∅)
    (fun t : Subnet => t.metadata.id) id (fun n t ht hn hnew => ?_) hvpcs ?_ fun t _ => ?_
  · have hv : t.vpcId ∈ n.vpcs := by
      rw [hn]
      exact hall t ht
    exact ⟨(n.createSubnet_vpcs t).trans hn, (createSubnet_new hv hnew).2⟩
  · exact subnetDecoder.nodup_list h
  · rw [hsub]
    exact AList.notMem_empty _

theorem mem_storedAttachments {s : StateStore Record} (h : StoredWf s) {w : Id}
    {att : NetworkAttachment} : (w, att) ∈ storedAttachments s ↔
      s.get "workload_networks" w.name = some (.attachment att) := by
  simp only [storedAttachments, List.mem_filterMap, Option.map_eq_some_iff, Prod.exists,
    StateStore.mem_list]
  constructor
  · rintro ⟨k, r, hr, a, ha, he⟩
    obtain ⟨rfl, rfl⟩ := Prod.mk.inj he
    obtain ⟨x, rfl⟩ := h.own_attachment hr
    obtain rfl := Option.some.inj ha
    exact hr
  · exact fun he => ⟨w.name, _, he, att, rfl, rfl⟩

/-- The attachments of a list of stored ones, recorded from nothing. -/
theorem lookup_storedAttachments {s : StateStore Record} (h : StoredWf s) (k : String) :
    (((storedAttachments s).foldl (fun m e => m.insert e.1 e.2)
      (∅ : HashMap Id NetworkAttachment)).lookup ⟨k⟩).map Record.attachment =
        s.get "workload_networks" k := by
  obtain ⟨e, he, hk, hl⟩ | ⟨hne, hl⟩ := HashMap.lookup_foldl_insert (V := NetworkAttachment)
    Prod.fst Prod.snd (storedAttachments s) ∅ ⟨k⟩
  · have hname : e.1.name = k := congrArg Id.name hk
    rw [hl, ← hname]
    exact ((mem_storedAttachments h).1 he).symm
  · rw [hl]
    by_contra hget
    obtain ⟨r, hr⟩ := Option.ne_none_iff_exists'.1 (Ne.symm hget)
    obtain ⟨a, rfl⟩ := h.own_attachment hr
    exact hne (⟨k⟩, a) ((mem_storedAttachments h).2 hr) rfl

/-- A fresh controller over a store, when everything but the attachments is read back. -/
def restoredBase (s : StateStore Record) : FabricController :=
  ⟨restoreTopology s .new, restoreNetwork s .new,
    ⟨(listJson s "loadbalancers" Record.asLoadBalancer).foldl
      (fun m lb => m.insert lb.metadata.id lb) ∅⟩, restoreRbac s .withDefaults, ∅, s⟩

theorem restore_fresh_eq {s : StateStore Record} (h : StoredWf s) :
    (fresh s).restore = (.ok (), (storedAttachments s).foldl restoreAttachment (restoredBase s)) := by
  have hlbs : restoreLoadBalancers (listJson s "loadbalancers" Record.asLoadBalancer) .new =
      (.ok (), ⟨(listJson s "loadbalancers" Record.asLoadBalancer).foldl
        (fun m lb => m.insert lb.metadata.id lb) ∅⟩) :=
    restoreLoadBalancers_eq (loadBalancerDecoder.nodup_list h) fun lb _ => AList.notMem_empty _
  unfold FabricController.restore
  simp only [fresh, hlbs]
  rfl

/-- The subsystems of a restarted controller. -/
theorem restore_fresh {s : StateStore Record} (h : StoredWf s) :
    (fresh s).restore.1 = .ok () ∧ (fresh s).restore.2.store = s ∧
      (fresh s).restore.2.attachments =
        (storedAttachments s).foldl (fun m e => m.insert e.1 e.2) ∅ ∧
      (fresh s).restore.2.network.vpcs = (restoreNetwork s .new).vpcs ∧
      (fresh s).restore.2.network.subnets = (restoreNetwork s .new).subnets ∧
      (fresh s).restore.2.rbac = restoreRbac s .withDefaults ∧
      (fresh s).restore.2.loadbalancers.loadBalancers =
        (listJson s "loadbalancers" Record.asLoadBalancer).foldl
          (fun m lb => m.insert lb.metadata.id lb) ∅ := by
  rw [restore_fresh_eq h]
  obtain ⟨hatt, hvpcs, hsubs, hrbac, hlb, hstore⟩ :=
    foldl_restoreAttachment_frame (storedAttachments s) (restoredBase s)
  exact ⟨rfl, hstore, hatt, hvpcs, hsubs, hrbac, congrArg LoadBalancerController.loadBalancers hlb⟩

/-- **A restart holds what is stored**, next to the built-in roles. -/
theorem live_restore {s : StateStore Record} (h : StoredWf s) (kind : Kind) (k : String) :
    (fresh s).restore.2.live kind k =
      (s.get kind.collection k).or ((fresh s).live kind k) := by
  obtain ⟨-, -, hatt, hvpcs, hsubs, hrbac, hlbs⟩ := restore_fresh h
  obtain ⟨hvpcs', hsubs'⟩ := restoreNetwork_eq h
  cases kind with
  | attachment =>
    simp only [live, hatt]
    rw [lookup_storedAttachments h]
    exact (Option.or_none ..).symm
  | binding =>
    simp only [live, hrbac, restoreRbac_eq]
    exact bindingDecoder.lookup_foldl_insert h _ k
  | user =>
    simp only [live, hrbac, restoreRbac_eq]
    exact userDecoder.lookup_foldl_insert h _ k
  | group =>
    simp only [live, hrbac, restoreRbac_eq]
    exact groupDecoder.lookup_foldl_insert h _ k
  | role =>
    simp only [live, hrbac, restoreRbac_eq]
    exact roleDecoder.lookup_foldl_insert h _ k
  | vpc =>
    simp only [live, hvpcs, hvpcs']
    exact vpcDecoder.lookup_foldl_insert h _ k
  | subnet =>
    simp only [live, hsubs, hsubs']
    exact subnetDecoder.lookup_foldl_insert h _ k
  | loadBalancer =>
    simp only [live, hlbs]
    exact loadBalancerDecoder.lookup_foldl_insert h _ k

/-- A restarted controller has its resources under their own keys. -/
theorem wellKeyed_restore {s : StateStore Record} (h : StoredWf s) :
    (fresh s).restore.2.WellKeyed := by
  obtain ⟨-, -, -, hvpcs, hsubs, hrbac, hlbs⟩ := restore_fresh h
  have hnet : NetworkWf (restoreNetwork s .new) := by
    refine List.foldlRecOn _ _ ?_ fun n hn t _ => hn.createSubnet t
    exact List.foldlRecOn _ _ (wellKeyed_fresh s).network fun n hn v _ => hn.createVpc v
  refine ⟨hnet.congr hvpcs hsubs, ?_, fun id lb hl => ?_⟩
  · rw [hrbac]
    refine List.foldlRecOn _ _ ?_ fun e he b _ => he.addBinding b
    refine List.foldlRecOn _ _ ?_ fun e he g _ => he.putGroup g
    refine List.foldlRecOn _ _ ?_ fun e he r _ => he.putRole r
    exact List.foldlRecOn _ _ RbacWf.withDefaults fun e he u _ => he.putUser u
  · rw [hlbs] at hl
    obtain ⟨x, -, hx, hl'⟩ | ⟨-, hl'⟩ := HashMap.lookup_foldl_insert (V := LoadBalancer)
      (fun lb => lb.metadata.id) (fun lb => lb) (listJson s "loadbalancers" Record.asLoadBalancer) ∅ id
    · obtain rfl := Option.some.inj (hl'.symm.trans hl)
      exact hx
    · exact absurd (hl'.symm.trans hl) (by simp)

end OCF.Api
