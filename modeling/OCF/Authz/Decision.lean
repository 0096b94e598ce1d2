import OCF.Authz.Engine
import Mathlib.Logic.Relation

/-!
# What the engine decides

The rule the engine evaluates, stated on its stores: a request is granted by a binding whose subject
is the user or one of the user's groups, whose scope is the requested one or an ancestor of it, and
whose role exists and holds the permission (`Grants`, `isAllowed_iff`).

Two engines are compared by `Extends`: the second knows every permission, membership and binding of
the first. Decisions grow along it (`isAllowed_mono`). Each operation that adds to a store is a step
of `Adds` and extends the engine, and an engine extends what is left of it after a binding is removed.
-/

namespace OCF

/-! ## Scopes -/

namespace Scope

/-- Every level the first scope constrains is the same place in the second: the first is the second or
an ancestor of it. -/
structure AtOrAbove (s t : Scope) : Prop where
  region : ∀ i, s.region = some i → t.region = some i
  datacenter : ∀ i, s.datacenter = some i → t.datacenter = some i
  rack : ∀ i, s.rack = some i → t.rack = some i
  machine : ∀ i, s.machine = some i → t.machine = some i

theorem levelOk_iff {parent child : Option Id} :
    levelOk parent child ↔ ∀ i, parent = some i → child = some i := by
  cases parent with
  | none => simp [levelOk]
  | some p => simp [levelOk]

theorem contains_iff {s t : Scope} : s.contains t ↔ s.AtOrAbove t := by
  simp only [contains, Bool.and_eq_true, levelOk_iff]
  constructor
  · rintro ⟨⟨⟨hr, hd⟩, hk⟩, hm⟩
    exact ⟨hr, hd, hk, hm⟩
  · intro h
    exact ⟨⟨⟨h.region, h.datacenter⟩, h.rack⟩, h.machine⟩

theorem contains_refl (s : Scope) : s.contains s :=
  contains_iff.2 ⟨fun _ h => h, fun _ h => h, fun _ h => h, fun _ h => h⟩

theorem AtOrAbove.trans {s t r : Scope} (hst : s.AtOrAbove t) (htr : t.AtOrAbove r) :
    s.AtOrAbove r where
  region i h := htr.region i (hst.region i h)
  datacenter i h := htr.datacenter i (hst.datacenter i h)
  rack i h := htr.rack i (hst.rack i h)
  machine i h := htr.machine i (hst.machine i h)

theorem contains_trans {s t r : Scope} (hst : s.contains t) (htr : t.contains r) : s.contains r :=
  contains_iff.2 ((contains_iff.1 hst).trans (contains_iff.1 htr))

theorem contains_antisymm {s t : Scope} (hst : s.contains t) (hts : t.contains s) : s = t := by
  rw [contains_iff] at hst hts
  cases s
  cases t
  rw [Scope.mk.injEq]
  exact ⟨Option.ext fun i => ⟨hst.region i, hts.region i⟩,
    Option.ext fun i => ⟨hst.datacenter i, hts.datacenter i⟩,
    Option.ext fun i => ⟨hst.rack i, hts.rack i⟩,
    Option.ext fun i => ⟨hst.machine i, hts.machine i⟩⟩

end Scope

namespace Authz

theorem Role.holds_iff {r : Role} {p : Permission} :
    r.holds p ↔ p ∈ r.permissions ∨ Permission.wildcard ∈ r.permissions := by
  simp only [Role.holds, Permission.grants, Bool.or_eq_true, decide_eq_true_eq]
  constructor
  · rintro ⟨held, hmem, rfl | rfl⟩
    · exact .inr hmem
    · exact .inl hmem
  · rintro (h | h)
    · exact ⟨p, h, .inr rfl⟩
    · exact ⟨.wildcard, h, .inl rfl⟩

namespace RbacEngine

variable {e e' : RbacEngine} {b : RoleBinding} {request : AccessRequest}

/-! ## The rule -/

/-- The user's record lists the group, or a group of that name lists the user. -/
def Belongs (e : RbacEngine) (username group : String) : Prop :=
  (∃ user, e.users.lookup username = some user ∧ group ∈ user.groups) ∨
    ∃ g ∈ HashMap.values e.groups, g.metadata.name = group ∧ username ∈ g.members

/-- The binding grants the request to a user who belongs to the groups of `member`. -/
structure Grants (e : RbacEngine) (member : String → Prop) (b : RoleBinding)
    (request : AccessRequest) : Prop where
  subject : b.subject = .user request.username ∨ ∃ g, b.subject = .group g ∧ member g
  scope : b.scope.AtOrAbove request.scope
  role : ∃ r, e.roles.lookup b.role = some r ∧
    (request.permission ∈ r.permissions ∨ Permission.wildcard ∈ r.permissions)

theorem mem_effectiveGroups {username group : String} :
    group ∈ e.effectiveGroups username ↔ e.Belongs username group := by
  rw [effectiveGroups, List.mem_append, Belongs]
  refine or_congr ?_ ?_
  · cases e.users.lookup username with
    | none => simp
    | some user => simp
  · simp only [List.mem_map, List.mem_filter, decide_eq_true_eq]
    constructor
    · rintro ⟨g, ⟨hg, hmem⟩, rfl⟩
      exact ⟨g, hg, rfl, hmem⟩
    · rintro ⟨g, hg, rfl, hmem⟩
      exact ⟨g, ⟨hg, hmem⟩, rfl⟩

theorem appliesTo_iff {username : String} {userGroups : List String} :
    b.appliesTo username userGroups ↔
      b.subject = .user username ∨ ∃ g, b.subject = .group g ∧ g ∈ userGroups := by
  rw [RoleBinding.appliesTo]
  cases b.subject with
  | user u => simp
  | group g => simp

theorem roleHolds_iff {name : String} {p : Permission} :
    ((e.roles.lookup name).map fun r => r.holds p).getD false ↔
      ∃ r, e.roles.lookup name = some r ∧
        (p ∈ r.permissions ∨ Permission.wildcard ∈ r.permissions) := by
  cases e.roles.lookup name with
  | none => simp
  | some r => simp [Role.holds_iff]

/-- The engine evaluates the rule. -/
theorem isAllowed_iff :
    e.isAllowed request ↔
      ∃ b ∈ HashMap.values e.bindings, e.Grants (e.Belongs request.username) b request := by
  simp only [isAllowed, List.any_eq_true, List.mem_map, List.mem_filter, Bool.and_eq_true,
    appliesTo_iff, Scope.contains_iff, mem_effectiveGroups]
  constructor
  · rintro ⟨_, ⟨b, ⟨hb, hsub, hscope⟩, rfl⟩, hrole⟩
    exact ⟨b, hb, hsub, hscope, roleHolds_iff.1 hrole⟩
  · rintro ⟨b, hb, hsub, hscope, hrole⟩
    exact ⟨b.role, ⟨b, ⟨hb, hsub, hscope⟩, rfl⟩, roleHolds_iff.2 hrole⟩

/-! ## Larger engines decide for more -/

/-- The second engine knows every permission, membership and binding of the first. -/
structure Extends (e e' : RbacEngine) : Prop where
  roles : ∀ name r, e.roles.lookup name = some r →
    ∃ r', e'.roles.lookup name = some r' ∧ r.permissions ⊆ r'.permissions
  belongs : ∀ username group, e.Belongs username group → e'.Belongs username group
  bindings : ∀ b ∈ HashMap.values e.bindings, b ∈ HashMap.values e'.bindings

theorem Extends.refl (e : RbacEngine) : e.Extends e where
  roles _ r h := ⟨r, h, subset_rfl⟩
  belongs _ _ h := h
  bindings _ h := h

theorem Extends.trans {e'' : RbacEngine} (h : e.Extends e') (h' : e'.Extends e'') :
    e.Extends e'' where
  roles name r hr := by
    obtain ⟨r', hr', hsub⟩ := h.roles name r hr
    obtain ⟨r'', hr'', hsub'⟩ := h'.roles name r' hr'
    exact ⟨r'', hr'', hsub.trans hsub'⟩
  belongs u g hg := h'.belongs u g (h.belongs u g hg)
  bindings b hb := h'.bindings b (h.bindings b hb)

theorem Grants.mono {member member' : String → Prop} {s' : Scope} (he : e.Extends e')
    (hm : ∀ g, member g → member' g) (hs : request.scope.contains s')
    (h : e.Grants member b request) : e'.Grants member' b { request with scope := s' } where
  subject := h.subject.imp_right fun ⟨g, hg, hmem⟩ => ⟨g, hg, hm g hmem⟩
  scope := h.scope.trans (Scope.contains_iff.1 hs)
  role := by
    obtain ⟨r, hr, hheld⟩ := h.role
    obtain ⟨r', hr', hsub⟩ := he.roles _ r hr
    exact ⟨r', hr', hheld.imp (hsub ·) (hsub ·)⟩

/-- What an engine grants, a larger one grants at every scope beneath. -/
theorem isAllowed_mono {s' : Scope} (he : e.Extends e') (hs : request.scope.contains s')
    (h : e.isAllowed request) : e'.isAllowed { request with scope := s' } := by
  obtain ⟨b, hb, hgrants⟩ := isAllowed_iff.1 h
  exact isAllowed_iff.2 ⟨b, he.bindings b hb, hgrants.mono he (he.belongs _) hs⟩

/-- An operation that adds permissions, members or a binding. What is stored under a name the
operation writes is kept and added to; a binding comes with an id of its own. -/
inductive Adds : RbacEngine → RbacEngine → Prop
  | role {e : RbacEngine} (role : Role)
      (h : ∀ r, e.roles.lookup role.metadata.name = some r → r.permissions ⊆ role.permissions) :
      Adds e (e.putRole role)
  | group {e : RbacEngine} (group : Group)
      (h : ∀ g, e.groups.lookup group.metadata.name = some g →
        g.metadata.name = group.metadata.name ∧ g.members ⊆ group.members) :
      Adds e (e.putGroup group)
  | user {e : RbacEngine} (user : User)
      (h : ∀ u, e.users.lookup user.username = some u → u.groups ⊆ user.groups) :
      Adds e (e.putUser user)
  | binding {e : RbacEngine} (binding : RoleBinding) (h : binding.id ∉ e.bindings) :
      Adds e (e.addBinding binding)

theorem extends_putRole {role : Role}
    (h : ∀ r, e.roles.lookup role.metadata.name = some r → r.permissions ⊆ role.permissions) :
    e.Extends (e.putRole role) where
  roles name r hr := by
    rw [putRole, HashMap.lookup_insert_eq]
    split_ifs with hname
    · subst hname
      exact ⟨role, rfl, h r hr⟩
    · exact ⟨r, hr, subset_rfl⟩
  belongs _ _ hg := hg
  bindings _ hb := hb

theorem extends_putGroup {group : Group}
    (h : ∀ g, e.groups.lookup group.metadata.name = some g →
      g.metadata.name = group.metadata.name ∧ g.members ⊆ group.members) :
    e.Extends (e.putGroup group) where
  roles _ r hr := ⟨r, hr, subset_rfl⟩
  belongs username name hbel := by
    refine hbel.imp_right ?_
    rintro ⟨g, hg, rfl, hmem⟩
    obtain ⟨key, hkey⟩ := HashMap.mem_values.1 hg
    by_cases hk : key = group.metadata.name
    · -- the group that is replaced passes its members on
      obtain ⟨hname, hsub⟩ := h g (hk ▸ hkey)
      exact ⟨group, HashMap.mem_values.2 ⟨_, AList.lookup_insert _⟩, hname.symm, hsub hmem⟩
    · exact ⟨g, HashMap.mem_values.2 ⟨key, by rwa [putGroup, AList.lookup_insert_ne hk]⟩, rfl, hmem⟩
  bindings _ hb := hb

theorem extends_putUser {user : User}
    (h : ∀ u, e.users.lookup user.username = some u → u.groups ⊆ user.groups) :
    e.Extends (e.putUser user) where
  roles _ r hr := ⟨r, hr, subset_rfl⟩
  belongs username name hbel := by
    refine hbel.imp_left ?_
    rintro ⟨u, hu, hmem⟩
    rw [putUser, HashMap.lookup_insert_eq]
    split_ifs with hname
    · exact ⟨user, rfl, h u (hname ▸ hu) hmem⟩
    · exact ⟨u, hu, hmem⟩
  bindings _ hb := hb

theorem extends_addBinding (h : b.id ∉ e.bindings) : e.Extends (e.addBinding b) where
  roles _ r hr := ⟨r, hr, subset_rfl⟩
  belongs _ _ hg := hg
  bindings b' hb' := by
    obtain ⟨key, hkey⟩ := HashMap.mem_values.1 hb'
    have hne : key ≠ b.id := by
      rintro rfl
      exact h (HashMap.mem_iff_exists_lookup.2 ⟨b', hkey⟩)
    exact HashMap.mem_values.2 ⟨key, by rwa [addBinding, AList.lookup_insert_ne hne]⟩

theorem Adds.extends (h : Adds e e') : e.Extends e' := by
  cases h with
  | role role h => exact extends_putRole h
  | group group h => exact extends_putGroup h
  | user user h => exact extends_putUser h
  | binding binding h => exact extends_addBinding h

/-- An engine extends what any number of additions made it from. -/
theorem extends_of_adds (h : Relation.ReflTransGen Adds e e') : e.Extends e' := by
  induction h with
  | refl => exact .refl e
  | tail _ hstep ih => exact ih.trans hstep.extends

theorem removeBinding_extends (e : RbacEngine) (id : Id) : (e.removeBinding id).2.Extends e := by
  rw [removeBinding]
  split_ifs
  · refine ⟨fun _ r hr => ⟨r, hr, subset_rfl⟩, fun _ _ hg => hg, fun b hb => ?_⟩
    obtain ⟨key, hkey⟩ := HashMap.mem_values.1 hb
    rw [HashMap.lookup_erase_eq] at hkey
    split_ifs at hkey
    exact HashMap.mem_values.2 ⟨key, hkey⟩
  · exact .refl e

/-- The engine grants exactly what the rule grants; a grant survives every addition and holds at every
scope beneath, a denial survives the removal of a binding, and containment of scopes is a partial
order. -/
theorem isAllowed_decides (e : RbacEngine) (u : String) (p : Permission) (s : Scope) :
    (e.isAllowed ⟨u, p, s⟩ ↔
      ∃ b ∈ HashMap.values e.bindings, e.Grants (e.Belongs u) b ⟨u, p, s⟩) ∧
    (∀ e' s', Relation.ReflTransGen Adds e e' → s.contains s' → e.isAllowed ⟨u, p, s⟩ →
      e'.isAllowed ⟨u, p, s'⟩) ∧
    (∀ id, ¬ e.isAllowed ⟨u, p, s⟩ → ¬ (e.removeBinding id).2.isAllowed ⟨u, p, s⟩) ∧
    (∀ s : Scope, s.contains s) ∧
    (∀ s t r : Scope, s.contains t → t.contains r → s.contains r) ∧
    ∀ s t : Scope, s.contains t → t.contains s → s = t := by
  refine ⟨isAllowed_iff, fun e' s' hadds hs h => isAllowed_mono (extends_of_adds hadds) hs h, ?_,
    Scope.contains_refl, fun _ _ _ => Scope.contains_trans, fun _ _ => Scope.contains_antisymm⟩
  intro id hdenied hgranted
  exact hdenied (isAllowed_mono (removeBinding_extends e id) (Scope.contains_refl s) hgranted)

/-- An engine with one administrator, through a group. -/
def oneAdmin : RbacEngine :=
  (withDefaults.putGroup ⟨Metadata.named "admins", ["admin"]⟩).addBinding
    ⟨⟨"b1"⟩, .group "admins", "Administrator", .fleet⟩

theorem isAllowed_decides_oneAdmin :
    oneAdmin.isAllowed ⟨"admin", ⟨"sys.modify"⟩, .fleet⟩ ∧
    (oneAdmin.putGroup ⟨Metadata.named "admins", ["admin", "bob"]⟩).isAllowed
      ⟨"admin", ⟨"sys.modify"⟩, ⟨some ⟨"us"⟩, none, none, none⟩⟩ ∧
    ¬ (oneAdmin.removeBinding ⟨"b1"⟩).2.isAllowed ⟨"bob", ⟨"sys.modify"⟩, .fleet⟩ := by
  have hadmin : oneAdmin.isAllowed ⟨"admin", ⟨"sys.modify"⟩, .fleet⟩ := by decide
  have hbob : ¬ oneAdmin.isAllowed ⟨"bob", ⟨"sys.modify"⟩, .fleet⟩ := by decide
  refine ⟨hadmin, (isAllowed_decides oneAdmin _ _ _).2.1 _ _ (.single (.group _ ?_)) (by decide)
    hadmin, (isAllowed_decides oneAdmin _ _ _).2.2.1 _ hbob⟩
  intro g hg
  obtain rfl : (⟨Metadata.named "admins", ["admin"]⟩ : Group) = g := Option.some.inj hg
  exact ⟨rfl, by decide⟩

end RbacEngine

end Authz

end OCF
