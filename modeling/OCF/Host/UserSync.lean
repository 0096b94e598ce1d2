import OCF.Api.DirectoryLogin
import OCF.Foundations.HashMap
import OCF.Foundations.Run
import Mathlib.Data.Finset.Lattice.Basic

/-!
# Local accounts for directory users

`LinuxUserSync` gives an authenticated user a local account: it probes with `id`, creates a missing
account with `useradd` and adds the supplementary groups of the identity with `usermod -aG`. The
host is modelled by its accounts and the names of its groups, with the three programs as they read
their arguments: a list of groups is cut at the commas, an empty list names none, `useradd -G` sets
the groups of the new account and `usermod -aG` adds to those the account has.

Nothing takes a group away, so an account keeps every group it was ever given:
`syncUser_run_hasGroups_iff` says after which calls the groups are those of the last identity.
-/

namespace OCF

namespace Auth

/-! ## The host -/

/-- A local account. -/
structure Account where
  home : Bool
  shell : String
  comment : String
  groups : Finset String
  deriving DecidableEq

/-- A Linux host: its accounts by name and the names of its groups, which are not empty. -/
structure LinuxHost where
  accounts : HashMap String Account
  groups : Finset String
  named : "" ∉ groups

/-- The groups that a comma-separated list names. -/
def groupList (list : String) : List String :=
  if list = "" then [] else (list.toList.splitOn ',').map String.ofList

/-- The last argument of a program is an operand unless it begins with a dash. -/
def isOption (arg : String) : Bool := arg.toList.head? = some '-'

/-- The account that the arguments of `useradd` ask for, its list of groups and its name. -/
def readUseradd (account : Account) (list : String) :
    List String → Option (Account × String × String)
  | [] => none
  | [login] => if isOption login then none else some (account, list, login)
  | flag :: value :: rest =>
    if flag = "-m" then readUseradd { account with home := true } list (value :: rest)
    else if flag = "-s" then readUseradd { account with shell := value } list rest
    else if flag = "-c" then readUseradd { account with comment := value } list rest
    else if flag = "-G" then readUseradd account value rest
    else none

namespace LinuxHost

/-- Every group of a list is a group of the host. -/
def knows (host : LinuxHost) (list : String) : Bool := (groupList list).all fun g => g ∈ host.groups

/-- The host with an account replaced. -/
def setAccount (host : LinuxHost) (login : String) (account : Account) : LinuxHost :=
  { host with accounts := host.accounts.insert login account }

/-- `useradd`: 2 is a usage error, 9 an account that exists, 6 a group that does not. -/
def useradd (args : List String) (host : LinuxHost) : ℤ × LinuxHost :=
  match readUseradd ⟨false, "", "", ∅⟩ "" args with
  | none => (2, host)
  | some (account, list, login) =>
    if login ∈ host.accounts then (9, host)
    else if host.knows list then
      (0, host.setAccount login { account with groups := (groupList list).toFinset })
    else (6, host)

/-- `usermod -aG`: 2 is a usage error, 6 an account or a group that does not exist. -/
def usermod (args : List String) (host : LinuxHost) : ℤ × LinuxHost :=
  match args with
  | ["-aG", list, login] =>
    if isOption login then (2, host)
    else match host.accounts.lookup login with
      | none => (6, host)
      | some account =>
        if host.knows list then
          (0, host.setAccount login
            { account with groups := account.groups ∪ (groupList list).toFinset })
        else (6, host)
  | _ => (2, host)

/-- Run one of the account programs. What they print is left out. -/
def exec (cmd : String) (args : List String) (host : LinuxHost) :
    Result (ℤ × String × String) × LinuxHost :=
  match cmd with
  | "id" =>
    match args with
    | [login] => (.ok (if login ∈ host.accounts then 0 else 1, "", ""), host)
    | _ => (.ok (1, "", ""), host)
  | "useradd" => let (code, host) := host.useradd args; (.ok (code, "", ""), host)
  | "usermod" => let (code, host) := host.usermod args; (.ok (code, "", ""), host)
  | _ =>
    (.error (.provider cmd ("failed to spawn `" ++ cmd ++ "`: No such file or directory")), host)

/-- Run a program on the host. An argument with a NUL character cannot be passed to one. -/
def runWithStdin (host : LinuxHost) (cmd : String) (args : List String) :
    Result (ℤ × String × String) × LinuxHost :=
  if hasNul args then
    (.error (.provider cmd ("failed to spawn `" ++ cmd ++ "`: nul byte found in provided data")),
      host)
  else host.exec cmd args

end LinuxHost

/-! ## The synchronization -/

/-- An identity with the name that is shown for it. -/
structure NamedIdentity extends Identity where
  displayName : String

/-- Projects identities onto the accounts of a Linux host. -/
structure LinuxUserSync where
  shell : String
  createHome : Bool
  synced : Finset String

/-- The service with its defaults. -/
def LinuxUserSync.new : LinuxUserSync := ⟨"/bin/bash", true, ∅⟩

/-- The arguments of `useradd` for an identity. -/
def LinuxUserSync.useraddArgs (sync : LinuxUserSync) (identity : NamedIdentity) : List String :=
  (if sync.createHome then ["-m"] else []) ++ ["-s", sync.shell] ++
    (if identity.displayName ≠ "" then ["-c", identity.displayName] else []) ++
    (if identity.groups ≠ [] then ["-G", ",".intercalate identity.groups] else []) ++
    [identity.username]

/-- An account of this name exists: `id` exits with zero. -/
def userExists (username : String) (host : LinuxHost) : Result Bool × LinuxHost :=
  match host.runWithStdin "id" [username] with
  | (.error e, host) => (.error e, host)
  | (.ok (code, _, _), host) => (.ok (code = 0), host)

/-- Run an account program, with an exit code that is not zero as an error. -/
def runAccountCommand (cmd : String) (args : List String) (host : LinuxHost) :
    Result Unit × LinuxHost :=
  match host.runWithStdin cmd args with
  | (.error e, host) => (.error e, host)
  | (.ok (code, _, stderr), host) =>
    if code ≠ 0 then
      (.error (.provider "linux-user-sync" ("`" ++ cmd ++ " " ++ " ".intercalate args ++
        "` exited " ++
        toString code ++ ": " ++ Text.trimmed stderr)), host)
    else (.ok (), host)

/-- Add the groups of an identity, when it has any. -/
def addGroups (identity : NamedIdentity) (host : LinuxHost) : Result Unit × LinuxHost :=
  if identity.groups ≠ [] then
    runAccountCommand "usermod" ["-aG", ",".intercalate identity.groups, identity.username] host
  else (.ok (), host)

/-- Make sure that an identity has an account with its groups. -/
def ensureAccount (sync : LinuxUserSync) (identity : NamedIdentity) (host : LinuxHost) :
    Result Unit × LinuxHost :=
  match userExists identity.username host with
  | (.error e, host) => (.error e, host)
  | (.ok true, host) => addGroups identity host
  | (.ok false, host) =>
    match runAccountCommand "useradd" (sync.useraddArgs identity) host with
    | (.error e, host) => (.error e, host)
    -- `useradd -G` has set the groups already; they are added once more.
    | (.ok (), host) => addGroups identity host

/-- Give an identity its local account. -/
def syncUser (identity : NamedIdentity) (s : LinuxUserSync × LinuxHost) :
    Result Unit × LinuxUserSync × LinuxHost :=
  if identity.username = "" then
    (.error (.invalidArgument "cannot sync a user with an empty username"), s)
  else
    match ensureAccount s.1 identity s.2 with
    | (.error e, host) => (.error e, s.1, host)
    | (.ok (), host) =>
      (.ok (), { s.1 with synced := insert identity.username s.1.synced }, host)

/-- One call that succeeds. -/
def syncStep (s : LinuxUserSync × LinuxHost) (identity : NamedIdentity) :
    Option (LinuxUserSync × LinuxHost) :=
  match syncUser identity s with
  | (.ok (), s') => some s'
  | (.error _, _) => none

/-! ## What a call does to the groups -/

/-- The groups that the list of an identity names. -/
def NamedIdentity.listed (identity : NamedIdentity) : List String :=
  groupList (",".intercalate identity.groups)

/-- The supplementary groups of an account, none when there is no account. -/
def LinuxHost.groupsOf (host : LinuxHost) (login : String) : Finset String :=
  ((host.accounts.lookup login).map Account.groups).getD ∅

/-- The account exists and its supplementary groups are these. -/
def LinuxHost.HasGroups (host : LinuxHost) (login : String) (groups : List String) : Prop :=
  ∃ account, host.accounts.lookup login = some account ∧ ∀ g, g ∈ account.groups ↔ g ∈ groups

variable {host host' : LinuxHost} {identity : NamedIdentity} {sync : LinuxUserSync}

theorem runAccountCommand_ok {cmd : String} {args : List String}
    (h : runAccountCommand cmd args host = (.ok (), host')) :
    ∃ out err, host.exec cmd args = (.ok (0, out, err), host') := by
  simp only [runAccountCommand, LinuxHost.runWithStdin] at h
  split_ifs at h with hnul
  · cases h
  · rcases hexec : host.exec cmd args with ⟨e | ⟨code, out, err⟩, t⟩
    · rw [hexec] at h
      cases h
    · rw [hexec] at h
      dsimp only at h
      split_ifs at h with hcode
      · cases h
      · obtain ⟨-, rfl⟩ := Prod.mk.inj h
        exact ⟨out, err, by rw [not_not.1 hcode]⟩

/-- The probe changes nothing, and finds the accounts that exist. -/
theorem userExists_ok {login : String} {found : Bool}
    (h : userExists login host = (.ok found, host')) :
    host' = host ∧ (found = true ↔ login ∈ host.accounts) := by
  simp only [userExists, LinuxHost.runWithStdin, LinuxHost.exec] at h
  split_ifs at h with hnul hmem
  · cases h
  · obtain ⟨h₁, rfl⟩ := Prod.mk.inj h
    exact ⟨rfl, by simpa [hmem] using (Except.ok.inj h₁).symm⟩
  · obtain ⟨h₁, rfl⟩ := Prod.mk.inj h
    exact ⟨rfl, by simpa [hmem] using (Except.ok.inj h₁).symm⟩

theorem readUseradd_useraddArgs (sync : LinuxUserSync) (identity : NamedIdentity) :
    readUseradd ⟨false, "", "", ∅⟩ "" (sync.useraddArgs identity) =
      if isOption identity.username then none
      else some (⟨sync.createHome, sync.shell, identity.displayName, ∅⟩,
        ",".intercalate identity.groups, identity.username) := by
  unfold LinuxUserSync.useraddArgs
  have hnil : ",".intercalate ([] : List String) = "" := rfl
  by_cases hhome : sync.createHome <;> by_cases hname : identity.displayName = "" <;>
    by_cases hgroups : identity.groups = [] <;>
      simp [readUseradd, hhome, hname, hgroups, hnil]

/-- A created account has the groups of the list; every one of them is a group of the host. -/
theorem useradd_ok
    (h : runAccountCommand "useradd" (sync.useraddArgs identity) host = (.ok (), host')) :
    ∃ account, host'.accounts.lookup identity.username = some account ∧
      account.groups = identity.listed.toFinset ∧ host'.groups = host.groups ∧
      ∀ g ∈ identity.listed, g ∈ host.groups := by
  obtain ⟨out, err, hexec⟩ := runAccountCommand_ok h
  simp only [LinuxHost.exec, LinuxHost.useradd, readUseradd_useraddArgs] at hexec
  by_cases hopt : isOption identity.username
  · simp [hopt] at hexec
  · by_cases hmem : identity.username ∈ host.accounts
    · simp [hopt, hmem] at hexec
    · by_cases hknows : host.knows (",".intercalate identity.groups)
      · simp only [hopt, Bool.false_eq_true, if_false, hmem, hknows, if_true] at hexec
        obtain ⟨-, rfl⟩ := Prod.mk.inj hexec
        refine ⟨_, AList.lookup_insert _, rfl, rfl, ?_⟩
        simpa [LinuxHost.knows, NamedIdentity.listed] using hknows
      · simp [hopt, hmem, hknows] at hexec

/-- Adding groups keeps those an account has. -/
theorem addGroups_ok {account : Account} (h : addGroups identity host = (.ok (), host'))
    (hacc : host.accounts.lookup identity.username = some account) :
    ∃ account', host'.accounts.lookup identity.username = some account' ∧
      account'.groups = account.groups ∪ identity.listed.toFinset ∧ host'.groups = host.groups ∧
      ∀ g ∈ identity.listed, g ∈ host.groups := by
  unfold addGroups at h
  by_cases hgroups : identity.groups = []
  · have hlisted : identity.listed = [] := by
      rw [NamedIdentity.listed, hgroups]
      rfl
    rw [if_neg (not_not.2 hgroups)] at h
    obtain ⟨-, rfl⟩ := Prod.mk.inj h
    exact ⟨account, hacc, by simp [hlisted], rfl, by simp [hlisted]⟩
  · rw [if_pos hgroups] at h
    obtain ⟨out, err, hexec⟩ := runAccountCommand_ok h
    simp only [LinuxHost.exec, LinuxHost.usermod, hacc] at hexec
    by_cases hopt : isOption identity.username
    · simp [hopt] at hexec
    · by_cases hknows : host.knows (",".intercalate identity.groups)
      · simp only [hopt, Bool.false_eq_true, if_false, hknows, if_true] at hexec
        obtain ⟨-, rfl⟩ := Prod.mk.inj hexec
        refine ⟨_, AList.lookup_insert _, rfl, rfl, ?_⟩
        simpa [LinuxHost.knows, NamedIdentity.listed] using hknows
      · simp [hopt, hknows] at hexec

/-- After a call the account exists, with the groups it had and those the list names. -/
theorem syncStep_groups {s s' : LinuxUserSync × LinuxHost} (h : syncStep s identity = some s') :
    ∃ account, s'.2.accounts.lookup identity.username = some account ∧
      account.groups = s.2.groupsOf identity.username ∪ identity.listed.toFinset ∧
      s'.2.groups = s.2.groups ∧ ∀ g ∈ identity.listed, g ∈ s.2.groups := by
  simp only [syncStep, syncUser] at h
  split_ifs at h with hname
  rcases hacc : ensureAccount s.1 identity s.2 with ⟨e | _, t⟩
  · simp [hacc] at h
  · simp only [hacc, Option.some.injEq] at h
    subst h
    unfold ensureAccount at hacc
    rcases hex : userExists identity.username s.2 with ⟨e | found, t₁⟩
    · simp [hex] at hacc
    · obtain ⟨rfl, hfound⟩ := userExists_ok hex
      rw [hex] at hacc
      cases found with
      | true =>
        obtain ⟨account, hlookup⟩ := HashMap.mem_iff_exists_lookup.1 (hfound.1 rfl)
        rw [LinuxHost.groupsOf, hlookup]
        exact addGroups_ok hacc hlookup
      | false =>
        have hnone : s.2.accounts.lookup identity.username = none :=
          AList.lookup_eq_none.2 fun hmem => by simpa using hfound.2 hmem
        rcases hadd : runAccountCommand "useradd" (s.1.useraddArgs identity) s.2 with ⟨e | _, t₂⟩
        · simp [hadd] at hacc
        · simp only [hadd] at hacc
          obtain ⟨account, hlookup, hset, hgroups, hknown⟩ := useradd_ok hadd
          obtain ⟨account', hlookup', hadded, hgroups', -⟩ := addGroups_ok hacc hlookup
          refine ⟨account', hlookup', ?_, hgroups'.trans hgroups, hknown⟩
          rw [hadded, hset, LinuxHost.groupsOf, hnone, Finset.union_self]
          simp

/-! ## What a sequence of calls does to the groups -/

/-- After a sequence of calls for one user the account has the groups it had and all those that were
ever listed. -/
theorem run_groups {username : String} {ids : List NamedIdentity} {s s' : LinuxUserSync × LinuxHost}
    (hids : ∀ i ∈ ids, i.username = username) (h : run syncStep s ids = some s') :
    (∀ g, g ∈ s'.2.groupsOf username ↔ g ∈ s.2.groupsOf username ∨ ∃ i ∈ ids, g ∈ i.listed) ∧
      (ids ≠ [] → ∃ account, s'.2.accounts.lookup username = some account) ∧
      ∀ i ∈ ids, ∀ g ∈ i.listed, g ∈ s.2.groups := by
  induction ids generalizing s with
  | nil =>
    obtain rfl := Option.some.inj h
    simp
  | cons i ids ih =>
    obtain ⟨t, hstep, hrun⟩ := run_cons_eq_some.1 h
    obtain ⟨account, hlookup, hgroups, hhost, hknown⟩ := syncStep_groups hstep
    rw [hids i List.mem_cons_self] at hlookup hgroups
    obtain ⟨hrest, hexists, hrestKnown⟩ := ih (fun j hj => hids j (List.mem_cons_of_mem _ hj)) hrun
    have ht : t.2.groupsOf username = account.groups := by rw [LinuxHost.groupsOf, hlookup]; rfl
    refine ⟨fun g => ?_, fun _ => ?_, ?_⟩
    · rw [hrest g, ht, hgroups]
      simp [or_assoc]
    · cases ids with
      | nil =>
        obtain rfl := Option.some.inj hrun
        exact ⟨account, hlookup⟩
      | cons j ids => exact hexists (List.cons_ne_nil _ _)
    · intro j hj g hg
      rcases List.mem_cons.1 hj with rfl | hj
      · exact hknown g hg
      · exact hhost ▸ hrestKnown j hj g hg

/-- Names without a comma that are not empty are listed as they are. -/
theorem groupList_intercalate {groups : List String} (h : ∀ g ∈ groups, g ≠ "" ∧ ',' ∉ g.toList) :
    groupList (",".intercalate groups) = groups := by
  by_cases hnil : groups = []
  · subst hnil
    rfl
  · have hsplit : ((",".intercalate groups).toList.splitOn ',').map String.ofList = groups := by
      have hcut : (List.intercalate [','] (groups.map String.toList)).splitOn ',' =
          groups.map String.toList :=
        List.splitOn_intercalate ',' (by simpa using fun g hg => (h g hg).2) (by simpa using hnil)
      rw [String.toList_intercalate, show ",".toList = [','] from rfl, hcut, List.map_map]
      simp [Function.comp_def]
    rw [groupList, if_neg, hsplit]
    -- An empty list would be cut into the one empty name.
    intro hempty
    rw [hempty] at hsplit
    obtain rfl : groups = [""] := by rw [← hsplit]; rfl
    exact (h "" (by simp)).1 rfl

theorem not_comma_of_mem_groupList {list g : String} (h : g ∈ groupList list) : ',' ∉ g.toList := by
  unfold groupList at h
  split_ifs at h
  · cases h
  · obtain ⟨w, hw, rfl⟩ := List.mem_map.1 h
    rw [String.toList_ofList]
    exact Text.not_mem_of_mem_splitOn hw

/-- After successful calls for one user whose account was missing, the account has exactly the
groups of the last identity if and only if every name in the list of an earlier identity is a group
of the last one, and the groups of the last one are names that are not empty and hold no comma. -/
theorem syncUser_run_hasGroups_iff {username : String} {earlier : List NamedIdentity}
    {last : NamedIdentity} {s s' : LinuxUserSync × LinuxHost}
    (hids : ∀ i ∈ earlier ++ [last], i.username = username)
    (hmissing : s.2.accounts.lookup username = none)
    (h : run syncStep s (earlier ++ [last]) = some s') :
    s'.2.HasGroups username last.groups ↔
      (∀ i ∈ earlier, ∀ g ∈ i.listed, g ∈ last.groups) ∧
        ∀ g ∈ last.groups, g ≠ "" ∧ ',' ∉ g.toList := by
  obtain ⟨hgroups, hexists, hknown⟩ := run_groups hids h
  obtain ⟨account, hlookup⟩ := hexists (by simp)
  have hmem : ∀ g, g ∈ account.groups ↔ ∃ i ∈ earlier ++ [last], g ∈ i.listed := by
    intro g
    have hg := hgroups g
    simpa only [LinuxHost.groupsOf, hlookup, hmissing, Option.map_some, Option.map_none,
      Option.getD_some, Option.getD_none, Finset.notMem_empty, false_or] using hg
  constructor
  · rintro ⟨account', hlookup', hexact⟩
    obtain rfl := Option.some.inj (hlookup.symm.trans hlookup')
    refine ⟨fun i hi g hg => (hexact g).1 ((hmem g).2 ⟨i, List.mem_append_left _ hi, hg⟩), ?_⟩
    intro g hg
    obtain ⟨i, hi, hlisted⟩ := (hmem g).1 ((hexact g).2 hg)
    refine ⟨?_, not_comma_of_mem_groupList hlisted⟩
    rintro rfl
    exact s.2.named (hknown i hi "" hlisted)
  · rintro ⟨hearlier, hnames⟩
    have hlast : last.listed = last.groups := groupList_intercalate hnames
    refine ⟨account, hlookup, fun g => (hmem g).trans ⟨?_, fun hg => ⟨last, by simp, hlast ▸ hg⟩⟩⟩
    rintro ⟨i, hi, hg⟩
    rcases List.mem_append.1 hi with hi | hi
    · exact hearlier i hi g hg
    · obtain rfl := List.mem_singleton.1 hi
      exact hlast ▸ hg

/-! ### A user who leaves a group -/

/-- A host with the groups `dev` and `wheel` and no account. -/
def freshHost : LinuxHost := ⟨∅, {"dev", "wheel"}, by decide⟩

/-- A user with some groups. -/
def alice (groups : List String) : NamedIdentity := ⟨⟨"alice", groups⟩, ""⟩

/-- Who is taken out of the administrators keeps the group on the host. -/
theorem syncUser_keeps_revoked_group :
    ∃ s', run syncStep (.new, freshHost) [alice ["dev", "wheel"], alice ["dev"]] = some s' ∧
      ¬ s'.2.HasGroups "alice" (alice ["dev"]).groups := by
  have hrun : (run syncStep (.new, freshHost) [alice ["dev", "wheel"], alice ["dev"]]).map
      (fun s => (s.2.accounts.lookup "alice").map Account.groups) =
        some (some {"dev", "wheel"}) := by
    decide +kernel
  obtain ⟨s', hs', hgroups⟩ := Option.map_eq_some_iff.1 hrun
  obtain ⟨account, hlookup, haccount⟩ := Option.map_eq_some_iff.1 hgroups
  refine ⟨s', hs', ?_⟩
  rintro ⟨account', hlookup', hexact⟩
  obtain rfl := Option.some.inj (hlookup.symm.trans hlookup')
  have hwheel := (hexact "wheel").1 (by rw [haccount]; decide)
  simp [alice] at hwheel

/-- Who joins a group has it on the host. -/
theorem syncUser_run_hasGroups_alice :
    ∃ s', run syncStep (.new, freshHost) ([alice ["dev"]] ++ [alice ["dev", "wheel"]]) = some s' ∧
      s'.2.HasGroups "alice" (alice ["dev", "wheel"]).groups := by
  have hrun :
      (run syncStep (.new, freshHost) ([alice ["dev"]] ++ [alice ["dev", "wheel"]])).isSome := by
    decide +kernel
  obtain ⟨s', hs'⟩ := Option.isSome_iff_exists.1 hrun
  exact ⟨s', hs', (syncUser_run_hasGroups_iff (by simp [alice]) rfl hs').2 (by decide +kernel)⟩

end Auth

end OCF
