import OCF.Authz.Decision

/-!
# Access to the API

A request carries credentials, a registered authenticator turns them into an identity, and the engine
decides whether that principal may do what the request needs at the scope of the fleet. An identity
names the user and the groups the directory has the user in.

The engine is asked about the user name only, so the groups of the identity do not count:
`checkAccess_directory_iff` says when that makes no difference.
-/

namespace OCF

namespace Auth

/-- A successfully authenticated principal. -/
structure Identity where
  username : String
  groups : List String
  deriving DecidableEq

/-- What a principal presents to prove who they are. -/
inductive Credentials
  | password (username password : String)
  | token (token : String)
  deriving DecidableEq

/-- A backend that verifies credentials. -/
abbrev Authenticator := Credentials → Result Identity

end Auth

namespace Api

open Auth Authz

/-- The identity of the first authenticator, in the registry's iteration order, that accepts the
credentials. -/
def authenticate (authenticators : List Authenticator) (creds : Credentials) : Option Identity :=
  authenticators.findSome? fun authenticator => (authenticator creds).toOption

/-- Authenticate the credentials and authorize the principal for the permission at fleet scope. -/
def checkAccess (debug : Scope → String) (authenticators : List Authenticator) (rbac : RbacEngine)
    (creds : Option Credentials) (perm : String) : Result Unit :=
  match creds with
  | none => .error (.unauthenticated "authentication required")
  | some creds =>
    match authenticate authenticators creds with
    | none => .error (.unauthenticated "invalid credentials")
    | some identity => rbac.authorize debug ⟨identity.username, ⟨perm⟩, .fleet⟩

/-- Some binding of a subject of the given kind is made at fleet scope and names a role that exists
and holds the permission. -/
def BoundAtFleet (rbac : RbacEngine) (subject : Subject → Prop) (perm : String) : Prop :=
  ∃ b ∈ HashMap.values rbac.bindings, subject b.subject ∧ b.scope = .fleet ∧
    ∃ r, rbac.roles.lookup b.role = some r ∧
      (⟨perm⟩ ∈ r.permissions ∨ Permission.wildcard ∈ r.permissions)

/-- The subject is the user, or a group the engine's own stores have the user in. -/
def Stored (rbac : RbacEngine) (username : String) (subject : Subject) : Prop :=
  subject = .user username ∨ ∃ g, subject = .group g ∧ rbac.Belongs username g

/-- The subject is a group the directory has the user in. -/
def Directory (identity : Identity) (subject : Subject) : Prop :=
  ∃ g ∈ identity.groups, subject = .group g

/-- The rule grants the permission at fleet scope to the identity's user, in the groups of the engine
together with those of the identity. -/
def Entitled (rbac : RbacEngine) (identity : Identity) (perm : String) : Prop :=
  ∃ b ∈ HashMap.values rbac.bindings,
    rbac.Grants (fun g => rbac.Belongs identity.username g ∨ g ∈ identity.groups) b
      ⟨identity.username, ⟨perm⟩, .fleet⟩

variable {debug : Scope → String} {authenticators : List Authenticator} {rbac : RbacEngine}
  {creds : Credentials} {identity : Identity} {perm : String}

theorem atOrAbove_fleet {s : Scope} : s.AtOrAbove .fleet ↔ s = .fleet := by
  constructor
  · intro h
    exact Scope.contains_antisymm (Scope.contains_iff.2 h) rfl
  · rintro rfl
    exact Scope.contains_iff.1 rfl

theorem grants_fleet_iff {member : String → Prop} {username : String} :
    (∃ b ∈ HashMap.values rbac.bindings, rbac.Grants member b ⟨username, ⟨perm⟩, .fleet⟩) ↔
      BoundAtFleet rbac (fun s => s = .user username ∨ ∃ g, s = .group g ∧ member g) perm := by
  constructor
  · rintro ⟨b, hb, hsub, hscope, hrole⟩
    exact ⟨b, hb, hsub, atOrAbove_fleet.1 hscope, hrole⟩
  · rintro ⟨b, hb, hsub, hscope, hrole⟩
    exact ⟨b, hb, hsub, atOrAbove_fleet.2 hscope, hrole⟩

theorem isAllowed_fleet_iff {username : String} :
    rbac.isAllowed ⟨username, ⟨perm⟩, .fleet⟩ ↔ BoundAtFleet rbac (Stored rbac username) perm :=
  RbacEngine.isAllowed_iff.trans grants_fleet_iff

/-- With an authenticated principal, the engine's own stores decide. -/
theorem checkAccess_eq_ok_iff (h : authenticate authenticators creds = some identity) :
    checkAccess debug authenticators rbac (some creds) perm = .ok () ↔
      BoundAtFleet rbac (Stored rbac identity.username) perm := by
  rw [← isAllowed_fleet_iff]
  simp only [checkAccess, h, RbacEngine.authorize]
  split_ifs with hallowed
  · simp [hallowed]
  · simp [hallowed]

/-- The identity is entitled through the engine's stores or through a group of the directory. -/
theorem entitled_iff :
    Entitled rbac identity perm ↔
      BoundAtFleet rbac (Stored rbac identity.username) perm ∨
        BoundAtFleet rbac (Directory identity) perm := by
  rw [Entitled, grants_fleet_iff]
  constructor
  · rintro ⟨b, hb, hsub | ⟨g, hsub, hg | hg⟩, hrest⟩
    · exact .inl ⟨b, hb, .inl hsub, hrest⟩
    · exact .inl ⟨b, hb, .inr ⟨g, hsub, hg⟩, hrest⟩
    · exact .inr ⟨b, hb, ⟨g, hg, hsub⟩, hrest⟩
  · rintro (⟨b, hb, hsub | ⟨g, hsub, hg⟩, hrest⟩ | ⟨b, hb, ⟨g, hg, hsub⟩, hrest⟩)
    · exact ⟨b, hb, .inl hsub, hrest⟩
    · exact ⟨b, hb, .inr ⟨g, hsub, .inl hg⟩, hrest⟩
    · exact ⟨b, hb, .inr ⟨g, hsub, .inr hg⟩, hrest⟩

/-- Access is given exactly to the entitled if and only if a binding for one of the directory's groups
comes with one for the user or for a group the stores have the user in. -/
theorem checkAccess_directory_iff (h : authenticate authenticators creds = some identity) :
    (checkAccess debug authenticators rbac (some creds) perm = .ok () ↔
      Entitled rbac identity perm) ↔
    (BoundAtFleet rbac (Directory identity) perm →
      BoundAtFleet rbac (Stored rbac identity.username) perm) := by
  rw [checkAccess_eq_ok_iff h, entitled_iff]
  constructor
  · intro hiff hdir
    exact hiff.2 (.inr hdir)
  · intro hdir
    exact ⟨.inl, fun hent => hent.elim id hdir⟩

/-- A directory that knows one user, in the group `ops`. -/
def directoryOf : Authenticator := fun _ => .ok ⟨"carol", ["ops"]⟩

/-- The group `ops` administers the fleet; the engine has no record of its members. -/
def opsAdminister : RbacEngine :=
  RbacEngine.withDefaults.addBinding ⟨⟨"b1"⟩, .group "ops", "Administrator", .fleet⟩

theorem entitled_opsAdminister : Entitled opsAdminister ⟨"carol", ["ops"]⟩ "sys.modify" := by
  refine entitled_iff.2 (.inr ⟨_, List.mem_singleton_self _, ⟨"ops", by decide, rfl⟩, rfl, ?_⟩)
  exact ⟨.withPermissions "Administrator" [.wildcard], rfl, .inr (by decide)⟩

theorem checkAccess_ignores_directory :
    ¬ ∀ (debug : Scope → String) (authenticators : List Authenticator) (rbac : RbacEngine)
      (creds : Credentials) (identity : Identity) (perm : String),
      authenticate authenticators creds = some identity →
      (checkAccess debug authenticators rbac (some creds) perm = .ok () ↔
        Entitled rbac identity perm) := by
  intro h
  have hok := (h (fun _ => "") [directoryOf] opsAdminister (.token "t") ⟨"carol", ["ops"]⟩
    "sys.modify" rfl).2 entitled_opsAdminister
  exact absurd hok (by decide)

/-- The administrator's group is one the engine lists the administrator in. -/
theorem checkAccess_directory_iff_oneAdmin :
    checkAccess (fun _ => "") [fun _ => .ok ⟨"admin", ["admins"]⟩] RbacEngine.oneAdmin
      (some (.token "t")) "sys.modify" = .ok () ↔
    Entitled RbacEngine.oneAdmin ⟨"admin", ["admins"]⟩ "sys.modify" := by
  refine (checkAccess_directory_iff rfl).2 fun _ => ?_
  refine ⟨_, List.mem_singleton_self _, .inr ⟨"admins", rfl, .inr ?_⟩, rfl, ?_⟩
  · exact ⟨_, List.mem_singleton_self _, rfl, by decide⟩
  · exact ⟨.withPermissions "Administrator" [.wildcard], rfl, .inr (by decide)⟩

end Api

end OCF
