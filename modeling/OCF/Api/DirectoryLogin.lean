import OCF.Api.Gate

/-!
# Logging in through a directory

The Active Directory authenticator binds to an LDAP server with the user name and the password of the
request, by running `ldapwhoami`; an exit code of zero counts as a proof of the credential. The
server is a parameter. What is assumed of it is what RFC 4513 says about a simple bind: with a
password that is not empty it succeeds only for the user's own password, and with a name and an empty
password it succeeds as an unauthenticated bind, which proves nothing.

The header of a request may hold an empty password, and the authenticator passes it on.
`directory_login_iff` says for which headers a request that is let through has been verified.
-/

namespace OCF

namespace Auth

/-- A program of the host: the exit code and what it prints, or an error when it cannot be run. -/
abbrev Tool := String → List String → Result (ℤ × String × String)

/-- An argument holds a NUL character. -/
def hasNul (args : List String) : Bool := args.any fun arg => '\x00' ∈ arg.toList

/-- Run a program. An argument with a NUL character cannot be passed to one. -/
def runWithStdin (tool : Tool) (cmd : String) (args : List String) : Result (ℤ × String × String) :=
  if hasNul args then
    .error (.provider cmd ("failed to spawn `" ++ cmd ++ "`: nul byte found in provided data"))
  else tool cmd args

/-- The LDAP base of a dotted domain. -/
def domainToBaseDn (domain : String) : String :=
  ",".intercalate (((domain.toList.splitOn '.').filter fun part => part ≠ []).map fun part =>
    "DC=" ++ String.ofList part)

/-- The first `CN=` component of a distinguished name. -/
def leafCn (dn : List Char) : Option String :=
  (dn.splitOn ',').findSome? fun comp =>
    let comp := String.ofList (Text.trim comp)
    (Text.stripPrefix "CN=" comp).or (Text.stripPrefix "cn=" comp)

/-- The names of the groups in `memberOf:` lines: their leaf, or else the whole name. -/
def parseMemberOf (ldif : String) : List String :=
  (Text.lines ldif.toList).filterMap fun line =>
    (Text.stripPrefix "memberOf:" (String.ofList (Text.trim line))).bind fun dn =>
      let dn := Text.trim dn.toList
      if dn = [] then none else some ((leafCn dn).getD (String.ofList dn))

/-- Authenticates against an Active Directory domain over LDAP. -/
structure ActiveDirectoryAuthenticator where
  domain : String
  servers : List String

namespace ActiveDirectoryAuthenticator

variable (ad : ActiveDirectoryAuthenticator) (tool : Tool)

/-- The server to bind against: the first configured one, or one derived from the domain. -/
def ldapUri : String :=
  match ad.servers with
  | uri :: _ => uri
  | [] => "ldap://" ++ Text.toAsciiLowercase ad.domain

/-- The name to bind with: a name with an `@` or a `=` as it is, another one in the domain. -/
def bindUpn (username : String) : String :=
  if '@' ∈ username.toList ∨ '=' ∈ username.toList then username
  else username ++ "@" ++ ad.domain

/-- The arguments of a simple bind. -/
def bindArgs (uri upn password : String) : List String :=
  ["-x", "-H", uri, "-D", upn, "-w", password]

/-- The groups of a user, none when they cannot be looked up. -/
def resolveGroups (uri bindDn password username : String) : List String :=
  match runWithStdin tool "ldapsearch"
      ["-x", "-LLL", "-H", uri, "-D", bindDn, "-w", password, "-b", domainToBaseDn ad.domain,
        "(sAMAccountName=" ++ username ++ ")", "memberOf"] with
  | .ok (0, stdout, _) => parseMemberOf stdout
  | _ => []

def authenticate : Authenticator
  | .token _ =>
    .error (.notSupported "active-directory authenticator only accepts password credentials")
  | .password username password =>
    let uri := ad.ldapUri
    let upn := ad.bindUpn username
    match runWithStdin tool "ldapwhoami" (bindArgs uri upn password) with
    | .error e => .error e
    | .ok (code, _, stderr) =>
      if code ≠ 0 then
        .error (.unauthenticated ("ldap bind failed for `" ++ upn ++ "`: " ++
          Text.trimmed stderr))
      else .ok ⟨username, ad.resolveGroups tool uri upn password username⟩

/-- The name of a bind is never empty. -/
theorem bindUpn_ne_empty (username : String) : ad.bindUpn username ≠ "" := by
  unfold bindUpn
  split_ifs with h
  · rintro rfl
    simp at h
  · intro he
    have hlist := congrArg String.toList he
    simp at hlist

/-- A bind of the user cannot be passed to a program. -/
def unpassable (username : String) : Bool := hasNul (bindArgs ad.ldapUri (ad.bindUpn username) "")

variable {ad tool}

/-- What is accepted: a user name and a password with which a bind exits with zero; the identity is
the user's. -/
theorem authenticate_eq_ok_iff {creds : Credentials} {identity : Identity} :
    ad.authenticate tool creds = .ok identity ↔
      ∃ username password stdout stderr, creds = .password username password ∧
        runWithStdin tool "ldapwhoami" (bindArgs ad.ldapUri (ad.bindUpn username) password) =
          .ok (0, stdout, stderr) ∧
        identity = ⟨username, ad.resolveGroups tool ad.ldapUri (ad.bindUpn username) password
          username⟩ := by
  cases creds with
  | token t => simp [authenticate]
  | password username password =>
    simp only [authenticate]
    rcases hrun : runWithStdin tool "ldapwhoami" (bindArgs ad.ldapUri (ad.bindUpn username) password)
      with e | ⟨code, stdout, stderr⟩
    · constructor
      · intro h
        cases h
      · rintro ⟨u, p, out, err, hc, h, -⟩
        obtain ⟨rfl, rfl⟩ := Credentials.password.inj hc
        rw [hrun] at h
        cases h
    · dsimp only
      split_ifs with hcode
      · constructor
        · intro h
          cases h
        · rintro ⟨u, p, out, err, hc, h, -⟩
          obtain ⟨rfl, rfl⟩ := Credentials.password.inj hc
          rw [hrun] at h
          exact absurd (congrArg Prod.fst (Except.ok.inj h)) hcode
      · obtain rfl : code = 0 := not_not.1 hcode
        constructor
        · intro h
          exact ⟨username, password, stdout, stderr, rfl, hrun, (Except.ok.inj h).symm⟩
        · rintro ⟨u, p, out, err, hc, -, rfl⟩
          obtain ⟨rfl, rfl⟩ := Credentials.password.inj hc
          rfl

end ActiveDirectoryAuthenticator

open ActiveDirectoryAuthenticator in
/-- A server, reached at an address through the tool, that answers simple binds as RFC 4513 has
it. -/
structure FollowsRfc4513 (tool : Tool) (uri : String) (isPassword : String → String → Prop) :
    Prop where
  /-- A bind with a password succeeds only if the password is the one of the name. -/
  bind_sound : ∀ name password stdout stderr, password ≠ "" →
    tool "ldapwhoami" (bindArgs uri name password) = .ok (0, stdout, stderr) →
    isPassword name password
  /-- A bind with a name and an empty password is unauthenticated, and succeeds. -/
  unauthenticated : ∀ name, name ≠ "" →
    ∃ stdout stderr, tool "ldapwhoami" (bindArgs uri name "") = .ok (0, stdout, stderr)

end Auth

namespace Api

open Auth Authz ActiveDirectoryAuthenticator

section Login

variable (debug : Scope → String) (before after : List Authenticator) (tool : Tool)
  (ad : ActiveDirectoryAuthenticator) (rbac : RbacEngine) (perm : String)

/-- A request with the header is let through as a user by the directory's authenticator: none of the
authenticators before it in the registry accepts the credentials, and it does. -/
def LetThrough (header username : String) : Prop :=
  ∃ creds identity, parseAuthorization header = some creds ∧
    (∀ a ∈ before, ∀ i, a creds ≠ .ok i) ∧ ad.authenticate tool creds = .ok identity ∧
    identity.username = username ∧
    checkAccess debug (before ++ ad.authenticate tool :: after) rbac (some creds) perm = .ok ()

/-- The header carries a password of the user, which is not empty and is the one the directory has
for the name the user binds with. -/
def Verified (isPassword : String → String → Prop) (header username : String) : Prop :=
  ∃ password, parseAuthorization header = some (.password username password) ∧ password ≠ "" ∧
    isPassword (ad.bindUpn username) password

variable {debug before after tool ad rbac perm}

/-- The first authenticator of a registry that accepts the credentials gives the identity. -/
theorem authenticate_append {a : Authenticator} {creds : Credentials} {identity : Identity}
    (hbefore : ∀ a ∈ before, ∀ i, a creds ≠ .ok i) (ha : a creds = .ok identity) :
    Api.authenticate (before ++ a :: after) creds = some identity := by
  have hnone : before.findSome? (fun a => (a creds).toOption) = none := by
    refine List.findSome?_eq_none_iff.2 fun a ha => ?_
    cases h : a creds with
    | error e => rfl
    | ok i => exact absurd h (hbefore a ha i)
  rw [Api.authenticate, List.findSome?_append, hnone, Option.none_or, List.findSome?_cons, ha]
  rfl

theorem letThrough_iff {header username : String} :
    LetThrough debug before after tool ad rbac perm header username ↔
      ∃ password stdout stderr, parseAuthorization header = some (.password username password) ∧
        (∀ a ∈ before, ∀ i, a (.password username password) ≠ .ok i) ∧
        runWithStdin tool "ldapwhoami" (bindArgs ad.ldapUri (ad.bindUpn username) password) =
          .ok (0, stdout, stderr) ∧
        rbac.isAllowed ⟨username, ⟨perm⟩, .fleet⟩ := by
  constructor
  · rintro ⟨creds, identity, hparse, hbefore, hauth, rfl, haccess⟩
    obtain ⟨u, password, stdout, stderr, rfl, hrun, rfl⟩ := authenticate_eq_ok_iff.1 hauth
    have hallowed := isAllowed_fleet_iff.2
      ((checkAccess_eq_ok_iff (authenticate_append hbefore hauth)).1 haccess)
    exact ⟨password, stdout, stderr, hparse, hbefore, hrun, hallowed⟩
  · rintro ⟨password, stdout, stderr, hparse, hbefore, hrun, hallowed⟩
    have hauth := authenticate_eq_ok_iff.2 ⟨username, password, stdout, stderr, rfl, hrun, rfl⟩
    exact ⟨_, _, hparse, hbefore, hauth, rfl,
      (checkAccess_eq_ok_iff (authenticate_append hbefore hauth)).2
        (isAllowed_fleet_iff.1 hallowed)⟩

end Login

/-- For every header, whoever is let through by the directory has been verified by it, if and only if
the header holds no empty password with which that happens: a user name that can be passed to the
tool, that no authenticator before the directory accepts, and that has the permission. -/
theorem directory_login_iff (debug : Scope → String) (before after : List Authenticator)
    (tool : Tool) (ad : ActiveDirectoryAuthenticator) (rbac : RbacEngine) (perm : String)
    (isPassword : String → String → Prop) (hrfc : FollowsRfc4513 tool ad.ldapUri isPassword)
    (header : String) :
    (∀ username, LetThrough debug before after tool ad rbac perm header username →
      Verified ad isPassword header username) ↔
    ∀ username, parseAuthorization header = some (.password username "") →
      ad.unpassable username ∨ (∃ a ∈ before, ∃ i, a (.password username "") = .ok i) ∨
        ¬rbac.isAllowed ⟨username, ⟨perm⟩, .fleet⟩ := by
  constructor
  · intro h username hparse
    by_contra hcon
    simp only [not_or, not_exists, not_and, not_not] at hcon
    obtain ⟨hpass, hbefore, hallowed⟩ := hcon
    obtain ⟨stdout, stderr, hbind⟩ := hrfc.unauthenticated _ (ad.bindUpn_ne_empty username)
    have hrun : runWithStdin tool "ldapwhoami" (bindArgs ad.ldapUri (ad.bindUpn username) "") =
        .ok (0, stdout, stderr) := by
      unfold unpassable at hpass
      rw [runWithStdin, if_neg hpass, hbind]
    obtain ⟨password, hparse', hne, -⟩ :=
      h username (letThrough_iff.2 ⟨"", stdout, stderr, hparse, hbefore, hrun, hallowed⟩)
    rw [hparse] at hparse'
    exact hne (Credentials.password.inj (Option.some.inj hparse')).2.symm
  · intro h username hlet
    obtain ⟨password, stdout, stderr, hparse, hbefore, hrun, hallowed⟩ := letThrough_iff.1 hlet
    have hpassable : ¬hasNul (bindArgs ad.ldapUri (ad.bindUpn username) password) := by
      intro hnul
      rw [runWithStdin, if_pos hnul] at hrun
      cases hrun
    have hne : password ≠ "" := by
      rintro rfl
      rcases h username hparse with hnul | ⟨a, ha, i, hok⟩ | hdenied
      · exact hpassable hnul
      · exact hbefore a ha i hok
      · exact hdenied hallowed
    rw [runWithStdin, if_neg hpassable] at hrun
    exact ⟨password, hparse, hne, hrfc.bind_sound _ _ stdout stderr hne hrun⟩

/-- A directory with one account, reached through the client programs. -/
def oneAccountLdap : Tool := fun cmd args =>
  match cmd, args with
  | "ldapwhoami", ["-x", "-H", _, "-D", name, "-w", password] =>
    if password = "" ∨ name = "admin@EXAMPLE.COM" ∧ password = "s3cret" then .ok (0, "", "")
    else .ok (49, "", "ldap_bind: Invalid credentials (49)")
  | _, _ => .ok (1, "", "")

theorem followsRfc4513_oneAccountLdap (uri : String) :
    FollowsRfc4513 oneAccountLdap uri fun name password =>
      name = "admin@EXAMPLE.COM" ∧ password = "s3cret" where
  bind_sound name password stdout stderr hne h := by
    simp only [oneAccountLdap, bindArgs, hne, false_or] at h
    split_ifs at h with hok
    · exact hok
    · cases congrArg Prod.fst (Except.ok.inj h)
  unauthenticated name hne := ⟨"", "", by simp [oneAccountLdap, bindArgs]⟩

/-- The administrator with an empty password is let through, and nothing has been verified. -/
theorem empty_password_let_through :
    LetThrough (fun _ => "") [] [] oneAccountLdap ⟨"EXAMPLE.COM", []⟩ RbacEngine.oneAdmin "sys.modify"
      "Basic YWRtaW46" "admin" ∧
    ¬Verified ⟨"EXAMPLE.COM", []⟩ (fun name password =>
      name = "admin@EXAMPLE.COM" ∧ password = "s3cret") "Basic YWRtaW46" "admin" := by
  have hparse : parseAuthorization "Basic YWRtaW46" = some (.password "admin" "") := by
    decide +kernel
  constructor
  · exact letThrough_iff.2 ⟨"", "", "", hparse, by simp, by decide +kernel, by decide +kernel⟩
  · rintro ⟨password, hparse', hne, -⟩
    rw [hparse] at hparse'
    exact hne (Credentials.password.inj (Option.some.inj hparse')).2.symm

/-- With the administrator's password in the header, the directory has verified it. -/
theorem directory_login_iff_password :
    LetThrough (fun _ => "") [] [] oneAccountLdap ⟨"EXAMPLE.COM", []⟩ RbacEngine.oneAdmin "sys.modify"
      "Basic YWRtaW46czNjcmV0" "admin" ∧
    Verified ⟨"EXAMPLE.COM", []⟩ (fun name password =>
      name = "admin@EXAMPLE.COM" ∧ password = "s3cret") "Basic YWRtaW46czNjcmV0"
      "admin" := by
  have hparse : parseAuthorization "Basic YWRtaW46czNjcmV0" = some (.password "admin" "s3cret") := by
    decide +kernel
  have hlet : LetThrough (fun _ => "") [] [] oneAccountLdap ⟨"EXAMPLE.COM", []⟩ RbacEngine.oneAdmin
      "sys.modify" "Basic YWRtaW46czNjcmV0" "admin" :=
    letThrough_iff.2 ⟨"s3cret", "", "", hparse, by simp, by decide +kernel, by decide +kernel⟩
  refine ⟨hlet, (directory_login_iff (fun _ => "") [] [] oneAccountLdap ⟨"EXAMPLE.COM", []⟩
    RbacEngine.oneAdmin "sys.modify" _ (followsRfc4513_oneAccountLdap _) _).2 ?_ "admin" hlet⟩
  intro username h
  rw [hparse] at h
  exact absurd (Credentials.password.inj (Option.some.inj h)).2 (by decide)

end Api

end OCF
