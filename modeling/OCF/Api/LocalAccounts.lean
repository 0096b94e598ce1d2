import OCF.Api.DirectoryLogin
import OCF.Foundations.LastWrite
import OCF.Foundations.Utf8

/-!
# The local directory

`LocalAuthenticator` keeps accounts in memory and compares passwords in constant time: it goes
through all bytes and collects their differences. It starts with the administrator that the
controller seeds it with, and accounts are set and removed while it runs.

`checkAccess_local_iff` says who gets in after any run of such calls, and as whom, where the other
authenticators refuse.
-/

namespace OCF.Auth

/-- A stored account. -/
structure LocalAccount where
  password : String
  identity : Identity
  deriving DecidableEq

/-- The accounts by username. -/
abbrev LocalAuthenticator := HashMap String LocalAccount

/-- Equality of bytes that looks at all of them. -/
def constantTimeEq (a b : List UInt8) : Bool :=
  if a.length ≠ b.length then false
  else (a.zip b).foldl (fun diff e => diff ||| (e.1 ^^^ e.2)) 0 = 0

namespace LocalAuthenticator

/-- Insert or replace an account. -/
def setAccount (l : LocalAuthenticator) (username password : String) (identity : Identity) :
    LocalAuthenticator :=
  l.insert username ⟨password, identity⟩

/-- An account whose identity has the user name and no groups. -/
def addUser (l : LocalAuthenticator) (username password : String) : LocalAuthenticator :=
  l.setAccount username password ⟨username, []⟩

/-- Remove an account; whether there was one. -/
def removeUser (l : LocalAuthenticator) (username : String) : Bool × LocalAuthenticator :=
  (decide (username ∈ l), l.erase username)

/-- One administrator. -/
def withAdmin (username password : String) : LocalAuthenticator :=
  setAccount ∅ username password ⟨username, ["administrators"]⟩

/-- A login with a password, compared in constant time. -/
def authenticate (l : LocalAuthenticator) : Authenticator
  | .token _ => .error (.notSupported "local authenticator only accepts password credentials")
  | .password username password =>
    match l.lookup username with
    | none => .error (.unauthenticated ("unknown user `" ++ username ++ "`"))
    | some account =>
      if !constantTimeEq (utf8 account.password) (utf8 password) then
        .error (.unauthenticated ("invalid password for `" ++ username ++ "`"))
      else .ok account.identity

end LocalAuthenticator

/-! ## The comparison -/

theorem foldl_or_xor_eq_zero (es : List (UInt8 × UInt8)) (diff : UInt8) :
    es.foldl (fun diff e => diff ||| (e.1 ^^^ e.2)) diff = 0 ↔ diff = 0 ∧ ∀ e ∈ es, e.1 = e.2 := by
  induction es generalizing diff with
  | nil => simp
  | cons e es ih =>
    rw [List.foldl_cons, ih, UInt8.or_eq_zero_iff, UInt8.xor_eq_zero_iff, List.forall_mem_cons,
      and_assoc]

/-- The comparison is equality. -/
theorem constantTimeEq_iff {a b : List UInt8} : constantTimeEq a b ↔ a = b := by
  unfold constantTimeEq
  split
  next hlen =>
    constructor
    · intro h
      cases h
    · rintro rfl
      exact absurd rfl hlen
  next hlen =>
    rw [decide_eq_true_eq, foldl_or_xor_eq_zero, and_iff_right rfl]
    push Not at hlen
    constructor
    · intro h
      refine List.ext_getElem hlen fun i ha hb => ?_
      refine h (a[i], b[i]) (List.mem_iff_getElem.2 ⟨i, ?_, List.getElem_zip⟩)
      rw [List.length_zip]
      omega
    · rintro rfl e he
      obtain ⟨i, hi, rfl⟩ := List.mem_iff_getElem.1 he
      rw [List.getElem_zip]

theorem authenticate_eq_ok_iff {l : LocalAuthenticator} {creds : Credentials}
    {identity : Identity} : l.authenticate creds = .ok identity ↔
      ∃ username password, creds = .password username password ∧
        l.lookup username = some ⟨password, identity⟩ := by
  cases creds with
  | token t => simp [LocalAuthenticator.authenticate]
  | password username password =>
    rw [LocalAuthenticator.authenticate]
    cases hl : l.lookup username with
    | none => simp [hl]
    | some account =>
      by_cases hpw : account.password = password
      · have heq : constantTimeEq (utf8 account.password) (utf8 password) := by
          rw [constantTimeEq_iff, hpw]
        obtain ⟨stored, id⟩ := account
        simp_all
      · have hne : constantTimeEq (utf8 account.password) (utf8 password) = false := by
          rw [Bool.eq_false_iff]
          exact fun h => hpw (utf8_injective (constantTimeEq_iff.1 h))
        obtain ⟨stored, id⟩ := account
        simp_all

/-! ## Runs -/

/-- A change of the accounts. -/
inductive AccountCall
  | set (username password : String) (identity : Identity)
  | add (username password : String)
  | remove (username : String)

/-- The user that a call is about. -/
def AccountCall.user : AccountCall → String
  | .set username _ _ => username
  | .add username _ => username
  | .remove username => username

/-- The account that a change leaves for its user. -/
def AccountCall.account : AccountCall → Option LocalAccount
  | .set _ password identity => some ⟨password, identity⟩
  | .add username password => some ⟨password, ⟨username, []⟩⟩
  | .remove _ => none

namespace LocalAuthenticator

/-- A call, whatever it returns. -/
def apply (l : LocalAuthenticator) : AccountCall → LocalAuthenticator
  | .set username password identity => l.setAccount username password identity
  | .add username password => l.addUser username password
  | .remove username => (l.removeUser username).2

/-- Calls one after the other. -/
def applyAll (l : LocalAuthenticator) (calls : List AccountCall) : LocalAuthenticator :=
  calls.foldl apply l

theorem lookup_apply (l : LocalAuthenticator) (c : AccountCall) (x : String) :
    (l.apply c).lookup x = if x = c.user then c.account else l.lookup x := by
  cases c with
  | set username password identity => exact HashMap.lookup_insert_eq ..
  | add username password => exact HashMap.lookup_insert_eq ..
  | remove username => exact HashMap.lookup_erase_eq ..

/-- An account is what the last change of its user left. -/
theorem lookup_applyAll (l : LocalAuthenticator) (calls : List AccountCall) (x : String) :
    (l.applyAll calls).lookup x =
      (lastWith AccountCall.user calls x).elim (l.lookup x) AccountCall.account := by
  have hrun : run (fun l c => some (apply l c)) l calls = some (l.applyAll calls) := by
    induction calls generalizing l with
    | nil => rfl
    | cons c calls ih => exact run_cons_eq_some.2 ⟨_, rfl, ih _⟩
  refine run_read (fun l x => l.lookup x) (fun l c l' h x => ?_) hrun x
  obtain rfl := Option.some.inj h
  exact lookup_apply l c x

end LocalAuthenticator

/-- The account of a user in a directory that was seeded with an administrator. -/
def accountAfter (admin adminPassword : String) (calls : List AccountCall) (x : String) :
    Option LocalAccount :=
  (lastWith AccountCall.user calls x).elim
    (if x = admin then some ⟨adminPassword, ⟨admin, ["administrators"]⟩⟩ else none)
    AccountCall.account

theorem lookup_withAdmin_applyAll (admin adminPassword : String) (calls : List AccountCall)
    (x : String) : ((LocalAuthenticator.withAdmin admin adminPassword).applyAll calls).lookup x =
      accountAfter admin adminPassword calls x := by
  rw [LocalAuthenticator.lookup_applyAll, accountAfter]
  congr 1
  exact HashMap.lookup_insert_eq ..

end OCF.Auth

namespace OCF.Api

open Auth Authz

/-- The authenticator does not accept the credentials of the request. -/
def Refuses (creds : Option Credentials) (authenticator : Authenticator) : Prop :=
  ∀ c, creds = some c → ∃ e, authenticator c = .error e

/-- Authenticators that refuse do not count. -/
theorem authenticate_append_cons {before after : List Authenticator} {directory : Authenticator}
    {creds : Credentials} (hrefuse : ∀ a ∈ before ++ after, Refuses (some creds) a) :
    authenticate (before ++ directory :: after) creds = (directory creds).toOption := by
  have hnone : ∀ l, (∀ a ∈ l, a ∈ before ++ after) → authenticate l creds = none := by
    intro l hl
    rw [authenticate, List.findSome?_eq_none_iff]
    intro a ha
    obtain ⟨e, he⟩ := hrefuse a (hl a ha) creds rfl
    rw [he]
    rfl
  have hbefore := hnone before fun a ha => List.mem_append_left _ ha
  have hafter := hnone after fun a ha => List.mem_append_right _ ha
  rw [authenticate] at hbefore hafter ⊢
  rw [List.findSome?_append, hbefore, Option.none_or, List.findSome?_cons, hafter]
  cases (directory creds).toOption <;> rfl

/-- **Who gets in through the local directory.** After any run of changes to the accounts, and with
other authenticators registered that refuse the request, it is let through exactly when it carries the
user name and the password of the last account that was set for that name and not removed, and the
engine lets the identity of that account do it. -/
theorem checkAccess_local_iff (debug : Scope → String) (rbac : RbacEngine)
    (admin adminPassword : String) (calls : List AccountCall) (creds : Option Credentials)
    (perm : String) (before after : List Authenticator)
    (hrefuse : ∀ a ∈ before ++ after, Refuses creds a) :
    checkAccess debug
        (before ++ ((LocalAuthenticator.withAdmin admin adminPassword).applyAll calls).authenticate ::
          after) rbac creds perm = .ok () ↔
      ∃ username password identity, creds = some (.password username password) ∧
        accountAfter admin adminPassword calls username = some ⟨password, identity⟩ ∧
        rbac.authorize debug ⟨identity.username, ⟨perm⟩, .fleet⟩ = .ok () := by
  set directory := (LocalAuthenticator.withAdmin admin adminPassword).applyAll calls with hdirectory
  have hlookup : ∀ x, directory.lookup x = accountAfter admin adminPassword calls x :=
    lookup_withAdmin_applyAll admin adminPassword calls
  cases creds with
  | none => simp [checkAccess]
  | some creds =>
    have hwho : authenticate (before ++ directory.authenticate :: after) creds =
        (directory.authenticate creds).toOption := authenticate_append_cons hrefuse
    cases hauth : directory.authenticate creds with
    | error e =>
      -- nobody is authenticated, and no account has this password
      rw [hauth] at hwho
      simp only [checkAccess, hwho, Except.toOption, reduceCtorEq, false_iff, not_exists, not_and]
      rintro username password identity hcreds haccount
      rw [← hlookup] at haccount
      have hok := authenticate_eq_ok_iff.2 ⟨username, password, Option.some.inj hcreds, haccount⟩
      rw [hauth] at hok
      cases hok
    | ok identity =>
      rw [hauth] at hwho
      obtain ⟨username, password, rfl, haccount⟩ := authenticate_eq_ok_iff.1 hauth
      rw [hlookup] at haccount
      simp only [checkAccess, hwho, Except.toOption]
      constructor
      · exact fun h => ⟨username, password, identity, rfl, haccount, h⟩
      · rintro ⟨username', password', identity', hcreds, haccount', h⟩
        obtain ⟨rfl, rfl⟩ := Credentials.password.inj (Option.some.inj hcreds)
        obtain ⟨-, rfl⟩ := LocalAccount.mk.inj (Option.some.inj (haccount.symm.trans haccount'))
        exact h

/-- The Active Directory authenticator on a host that has no LDAP tools. -/
def adWithoutTools : Authenticator :=
  ActiveDirectoryAuthenticator.authenticate ⟨"example.org", []⟩ fun cmd _ =>
    .error (.provider cmd ("failed to spawn `" ++ cmd ++ "`: No such file or directory (os error 2)"))

/-- The administrator changes the password: only the new one is let in. -/
theorem checkAccess_local_iff_changed :
    Refuses (some (.password "admin" "s3cret")) adWithoutTools ∧
      checkAccess (fun _ => "") [adWithoutTools,
          ((LocalAuthenticator.withAdmin "admin" "admin").applyAll
            [.set "admin" "s3cret" ⟨"admin", []⟩]).authenticate]
        RbacEngine.oneAdmin (some (.password "admin" "s3cret")) "sys.modify" = .ok () ∧
      checkAccess (fun _ => "") [adWithoutTools,
          ((LocalAuthenticator.withAdmin "admin" "admin").applyAll
            [.set "admin" "s3cret" ⟨"admin", []⟩]).authenticate]
        RbacEngine.oneAdmin (some (.password "admin" "admin")) "sys.modify" ≠ .ok () := by
  have hrefuse : ∀ password, Refuses (some (.password "admin" password)) adWithoutTools := by
    intro password c hc
    obtain rfl := Option.some.inj hc
    simp only [adWithoutTools, ActiveDirectoryAuthenticator.authenticate, runWithStdin]
    split_ifs
    · exact ⟨_, rfl⟩
    · exact ⟨_, rfl⟩
  have hiff := fun password => checkAccess_local_iff (fun _ => "") RbacEngine.oneAdmin "admin" "admin"
    [.set "admin" "s3cret" ⟨"admin", []⟩] (some (.password "admin" password)) "sys.modify"
    [adWithoutTools] [] (by simpa using hrefuse password)
  refine ⟨hrefuse _, (hiff "s3cret").2 ⟨"admin", "s3cret", _, rfl, rfl, by decide⟩, ?_⟩
  rw [ne_eq, show [adWithoutTools, _] = [adWithoutTools] ++ _ :: [] from rfl, hiff "admin"]
  rintro ⟨username, password, identity, hcreds, haccount, -⟩
  obtain ⟨rfl, rfl⟩ := Credentials.password.inj (Option.some.inj hcreds)
  have hpw : some "s3cret" = some "admin" := congrArg (Option.map LocalAccount.password) haccount
  revert hpw
  decide

end OCF.Api
