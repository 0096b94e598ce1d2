import OCF.Core.Resource
import Mathlib.Data.Finset.Insert
import Mathlib.Data.Finset.Dedup

/-!
# Role-based access control

Roles are bundles of permissions, groups list users, and a binding grants a role to a user or a
group at a scope and everything beneath it. The engine keeps roles and groups by name, users by
user name and bindings by id.
-/

namespace OCF.Authz

/-- An opaque permission token. -/
structure Permission where
  token : String
  deriving DecidableEq

namespace Permission

/-- The permission that matches everything. -/
def wildcard : Permission := ⟨"*"⟩

/-- Holding the permission satisfies the request. -/
def grants (held requested : Permission) : Bool := held = wildcard || held = requested

/-- The permissions of the seeded `Auditor` role. -/
def readOnly : List Permission :=
  [⟨"workload.read"⟩, ⟨"vpc.read"⟩, ⟨"lb.read"⟩, ⟨"sys.read"⟩, ⟨"audit.read"⟩]

end Permission

/-- A named bundle of permissions. -/
structure Role where
  metadata : Metadata
  permissions : Finset Permission
  deriving DecidableEq

namespace Role

/-- A role seeded with the given permissions. -/
def withPermissions (name : String) (permissions : List Permission) : Role :=
  ⟨Metadata.named name, permissions.toFinset⟩

/-- The role holds a permission directly or via the wildcard. -/
def holds (r : Role) (requested : Permission) : Bool :=
  decide (∃ held ∈ r.permissions, held.grants requested)

end Role

/-- A named collection of users. -/
structure Group where
  metadata : Metadata
  members : List String
  deriving DecidableEq

/-- A principal with the groups it statically belongs to. -/
structure User where
  metadata : Metadata
  username : String
  groups : List String
  deriving DecidableEq

/-- The principal a binding grants a role to. -/
inductive Subject
  | user (username : String)
  | group (name : String)
  deriving DecidableEq

/-- Grants a role, by name, to a subject at a scope. -/
structure RoleBinding where
  id : Id
  subject : Subject
  role : String
  scope : Scope
  deriving DecidableEq

/-- The binding covers a user who belongs to the given groups. -/
def RoleBinding.appliesTo (b : RoleBinding) (username : String) (userGroups : List String) : Bool :=
  match b.subject with
  | .user u => u = username
  | .group g => g ∈ userGroups

/-- The question put to the engine. -/
structure AccessRequest where
  username : String
  permission : Permission
  scope : Scope

/-- The in-memory engine. -/
structure RbacEngine where
  roles : HashMap String Role
  groups : HashMap String Group
  users : HashMap String User
  bindings : HashMap Id RoleBinding

namespace RbacEngine

/-- An engine that knows nobody. -/
def new : RbacEngine := ⟨∅, ∅, ∅, ∅⟩

/-- Insert or replace a role. -/
def putRole (e : RbacEngine) (role : Role) : RbacEngine :=
  { e with roles := e.roles.insert role.metadata.name role }

/-- Insert or replace a group. -/
def putGroup (e : RbacEngine) (group : Group) : RbacEngine :=
  { e with groups := e.groups.insert group.metadata.name group }

/-- Insert or replace a user. -/
def putUser (e : RbacEngine) (user : User) : RbacEngine :=
  { e with users := e.users.insert user.username user }

/-- Insert or replace a binding. -/
def addBinding (e : RbacEngine) (binding : RoleBinding) : RbacEngine :=
  { e with bindings := e.bindings.insert binding.id binding }

/-- Remove a binding. Fails if there is none with the id. -/
def removeBinding (e : RbacEngine) (id : Id) : Result Unit × RbacEngine :=
  if id ∈ e.bindings then (.ok (), { e with bindings := e.bindings.erase id })
  else (.error (.notFound ("binding " ++ id.name)), e)

/-- An engine seeded with the built-in roles. -/
def withDefaults : RbacEngine :=
  (new.putRole (.withPermissions "Administrator" [.wildcard])).putRole
    (.withPermissions "Auditor" Permission.readOnly)

/-- The groups of a user: those of the user's record and those that list the user. -/
def effectiveGroups (e : RbacEngine) (username : String) : List String :=
  ((e.users.lookup username).map User.groups).getD [] ++
    ((HashMap.values e.groups).filter fun g => username ∈ g.members).map fun g => g.metadata.name

/-- Some binding that covers the user at the scope names a role that holds the permission. -/
def isAllowed (e : RbacEngine) (request : AccessRequest) : Bool :=
  let userGroups := e.effectiveGroups request.username
  let candidates := ((HashMap.values e.bindings).filter fun b =>
    b.appliesTo request.username userGroups && b.scope.contains request.scope).map RoleBinding.role
  candidates.any fun name => ((e.roles.lookup name).map fun r => r.holds request.permission).getD false

/-- A denied request is forbidden. The text of the error shows the scope the way the derived debug
format of the source does, `debug`. -/
def authorize (debug : Scope → String) (e : RbacEngine) (request : AccessRequest) : Result Unit :=
  if e.isAllowed request then .ok ()
  else .error (.forbidden
    (request.username ++ " may not " ++ request.permission.token ++ " at " ++ debug request.scope))

end RbacEngine

end OCF.Authz
