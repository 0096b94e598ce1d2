import OCF.Host.DnfUpdates
import OCF.Host.Vulnerabilities

/-!
# Package updates

The platform service lists the pending updates of the host with the tools of its package manager and
applies them. `apt` marks an update by the suites it comes from, and when only security updates are to
be applied their names are given to `apt-get`; `dnf` picks them itself, `pacman` and `apk` make no
difference.

The line of `apt` carries the installed version in a remark at its end, which is found by the words
`upgradable from:`; they stand nowhere before it (`AptRow.eq_nil_of_remark`), so the whole listing is
read back (`parseAptUpgradable_listing`).

A host answers a command after the commands that were run before it (`Shell`), so a listing may come
out differently after a refresh; what is run is recorded. `aptApplyUpdates_eq`: what is installed when
only security updates are asked for are the listed packages with a security suite.
-/

namespace OCF

namespace Platform

open Text

/-! ## The parsers -/

/-- `str::split_once` at a text. -/
def splitOnceText (pat : List Char) : List Char → Option (List Char × List Char)
  | [] => if pat = [] then some ([], []) else none
  | c :: s =>
    if pat.isPrefixOf (c :: s) then some ([], (c :: s).drop pat.length)
    else (splitOnceText pat s).map fun p => (c :: p.1, p.2)

/-- The words before the installed version. -/
def remark : List Char := "upgradable from:".toList

/-- The installed version in the remark of a line. -/
def aptCurrentVersion (line : List Char) : Option String :=
  (splitOnceText remark line).bind fun p =>
    (splitWhitespace ((trim p.2).rdropWhile (· = ']'))).head?.map String.ofList

/-- A suite whose name has `security` in it. -/
def isSecuritySuite (suite : List Char) : Bool :=
  occursIn "security".toList (toAsciiLowercase (String.ofList suite)).toList

/-- A line of `apt list --upgradable`. -/
def parseAptUpgrade (line : List Char) : Option PackageUpdate :=
  let line := trim line
  if line = [] ∨ '/' ∉ line then none
  else match splitWhitespace line with
    | nameSuite :: availableVersion :: _ =>
      (splitOnce '/' nameSuite).map fun p =>
        { name := String.ofList p.1
          currentVersion := aptCurrentVersion line
          availableVersion := String.ofList availableVersion
          security := isSecuritySuite p.2 }
    | _ => none

/-- The updates that `apt` lists. -/
def parseAptUpgradable (stdout : String) : List PackageUpdate :=
  (lines stdout.toList).filterMap parseAptUpgrade

/-- A line of `pacman -Qu`. -/
def parsePacmanUpdate (line : List Char) : Option PackageUpdate :=
  match splitWhitespace line with
  | name :: current :: _arrow :: new :: _ =>
    some ⟨String.ofList name, some (String.ofList current), String.ofList new, false⟩
  | _ => none

/-- The updates that `pacman` lists. -/
def parsePacmanUpdates (stdout : String) : List PackageUpdate :=
  (lines stdout.toList).filterMap parsePacmanUpdate

/-- A line of `apk version -l '<'`. -/
def parseApkUpdate (line : List Char) : Option PackageUpdate := do
  let (left, right) ← splitOnce '<' (trim line)
  let new ← (splitWhitespace (trim right)).head?
  let (name, current) ← splitNameVersion (trim left)
  return ⟨String.ofList name, some (String.ofList current), String.ofList new, false⟩

/-- The updates that `apk` lists. -/
def parseApkUpdates (stdout : String) : List PackageUpdate :=
  (lines stdout.toList).filterMap parseApkUpdate

/-! ## Commands -/

/-- What a host answers to a command, after the commands that were run before it. -/
abbrev Shell := List Command → Command → CommandOutput

namespace Shell

variable (shell : Shell)

/-- Run a command whose failure is for the caller to judge: whether it ran, whether it succeeded, and
its output. -/
def probe (command : Command) (done : List Command) : (Bool × Bool × String × String) × List Command :=
  (match shell done command with
    | .notSpawned _ => (false, false, "", "")
    | .exited ok out err => (true, ok, out, err), done ++ [command])

/-- Run a command that has to succeed. -/
def run (command : Command) (done : List Command) : Result String × List Command :=
  (match shell done command with
    | .notSpawned e => .error (.provider command.1 ("failed to spawn `" ++ command.1 ++ "`: " ++ e))
    | .exited true out _ => .ok (trimmed out)
    | .exited false _ err => .error (.provider command.1 (trimmed err)), done ++ [command])

/-- The output of a tool that has to be there. -/
def outputOf (manager : String) (command : Command) (done : List Command) :
    Result String × List Command :=
  match shell.probe command done with
  | ((ran, _ok, out, _err), done) =>
    (if ¬ ran then .error (.provider manager ("`" ++ command.1 ++ "` not available")) else .ok out, done)

/-- Run one command and answer with a text when it succeeds. -/
def runThen (command : Command) (message : String) (done : List Command) :
    Result String × List Command :=
  let (out, done) := shell.run command done
  (out.map fun _ => message, done)

end Shell

/-! ## The managers -/

/-- Refresh the index of `apt`. The outcome is not looked at: without root the old index is used. -/
def aptRefresh : Command := ("apt-get", ["update", "-qq"])

/-- List what `apt` can upgrade. -/
def aptUpgradable : Command := ("apt", ["list", "--upgradable"])

/-- Upgrade these packages only. -/
def aptUpgrade (names : List String) : Command :=
  ("apt-get", ["install", "-y", "--only-upgrade"] ++ names)

section Managers

variable (shell : Shell)

/-- The updates of `apt`, after a refresh. -/
def aptListUpdates (done : List Command) : Result (List PackageUpdate) × List Command :=
  let (_, done) := shell.probe aptRefresh done
  let (out, done) := shell.outputOf "apt" aptUpgradable done
  (out.map parseAptUpgradable, done)

/-- The updates of `dnf`. Without the listing of the advisories no update is a security update. -/
def dnfListUpdates (done : List Command) : Result (List PackageUpdate) × List Command :=
  let ((ran, _ok, advisories, _err), done) :=
    shell.probe ("dnf", ["-q", "updateinfo", "list", "security"]) done
  let securityNames := if ran then parseDnfSecurityNames advisories else []
  let (out, done) := shell.outputOf "dnf" ("dnf", ["-q", "list", "--upgrades"]) done
  (out.map fun out => parseDnfUpgrades out securityNames, done)

/-- The updates of `pacman`. `checkupdates` needs no root; where it fails, the database of the last
synchronization is asked. -/
def pacmanListUpdates (done : List Command) : Result (List PackageUpdate) × List Command :=
  let ((ran, ok, out, _err), done) := shell.probe ("checkupdates", []) done
  if ran && ok then (.ok (parsePacmanUpdates out), done)
  else
    let (out, done) := shell.outputOf "pacman" ("pacman", ["-Qu"]) done
    (out.map parsePacmanUpdates, done)

/-- The updates of `apk`, after a refresh of its index. -/
def apkListUpdates (done : List Command) : Result (List PackageUpdate) × List Command :=
  let (_, done) := shell.probe ("apk", ["update"]) done
  let (out, done) := shell.outputOf "apk" ("apk", ["version", "-l", "<"]) done
  (out.map parseApkUpdates, done)

/-- The updates of a manager; one that is not built in has none. -/
def listUpdates (m : PackageManager) (done : List Command) :
    Result (List PackageUpdate) × List Command :=
  if m.name = "apt" then aptListUpdates shell done
  else if m.name = "dnf" then dnfListUpdates shell done
  else if m.name = "pacman" then pacmanListUpdates shell done
  else if m.name = "apk" then apkListUpdates shell done
  else (.ok [], done)

/-- Apply the updates of `apt`: all of them, or those with a security suite by their names. -/
def aptApplyUpdates (securityOnly : Bool) (done : List Command) : Result String × List Command :=
  let (_, done) := shell.probe aptRefresh done
  if securityOnly then
    match aptListUpdates shell done with
    | (.error e, done) => (.error e, done)
    | (.ok updates, done) =>
      let names := (updates.filter fun u => u.security).map PackageUpdate.name
      if names = [] then (.ok "No security updates to apply.", done)
      else shell.runThen (aptUpgrade names)
        ("Applied " ++ toString names.length ++ " security update(s) via apt-get.") done
  else shell.runThen ("apt-get", ["upgrade", "-y"]) "Applied available updates via apt-get." done

/-- Apply the updates of `dnf`, which picks the security updates itself. -/
def dnfApplyUpdates (securityOnly : Bool) (done : List Command) : Result String × List Command :=
  if securityOnly then
    shell.runThen ("dnf", ["upgrade", "--security", "-y"]) "Applied security updates via dnf." done
  else shell.runThen ("dnf", ["upgrade", "-y"]) "Applied available updates via dnf." done

/-- Apply the updates of `pacman`: always all of them. -/
def pacmanApplyUpdates (done : List Command) : Result String × List Command :=
  shell.runThen ("pacman", ["-Syu", "--noconfirm"]) "Applied available updates via pacman." done

/-- Apply the updates of `apk`: always all of them. -/
def apkApplyUpdates (done : List Command) : Result String × List Command :=
  shell.runThen ("apk", ["upgrade"]) "Applied available updates via apk." done

/-- Apply the updates of a manager; one that is not built in does not apply updates. -/
def applyUpdatesWith (m : PackageManager) (securityOnly : Bool) (done : List Command) :
    Result String × List Command :=
  if m.name = "apt" then aptApplyUpdates shell securityOnly done
  else if m.name = "dnf" then dnfApplyUpdates shell securityOnly done
  else if m.name = "pacman" then pacmanApplyUpdates shell done
  else if m.name = "apk" then apkApplyUpdates shell done
  else (.error (.notSupported ("`" ++ m.name ++ "` does not support applying updates")), done)

end Managers

/-! ## The service -/

/-- The pending updates of a host and how many there are. -/
structure UpdateSummary where
  manager : Option String
  total : ℕ
  security : ℕ
  updates : List PackageUpdate

/-- The pending updates; a listing that fails counts as empty. -/
def availableUpdates (path : SearchPath) (os : HostOs) (managers : List PackageManager)
    (shell : Shell) (done : List Command) : UpdateSummary × List Command :=
  match activeManager path os managers with
  | none => (⟨none, 0, 0, []⟩, done)
  | some m =>
    let (listed, done) := listUpdates shell m done
    let updates := listed.toOption.getD []
    (⟨some m.name, updates.length, (updates.filter fun u => u.security).length, updates⟩, done)

/-- Apply the pending updates with the manager of the host. -/
def applyUpdates (path : SearchPath) (os : HostOs) (managers : List PackageManager)
    (shell : Shell) (securityOnly : Bool) (done : List Command) : Result String × List Command :=
  match activeManager path os managers with
  | none => (.error (.notSupported
      ("no supported package manager for host OS `" ++ os.os ++ "`")), done)
  | some m => applyUpdatesWith shell m securityOnly done

/-! ## What a session comes to -/

/-- A session ended well after something was done, or a tool or a file failed. -/
def CarriedOut {α β : Type*} (r : Result α × List β) : Prop :=
  (∃ a, r.1 = .ok a) ∧ r.2 ≠ [] ∨ ∃ tool reason, r.1 = .error (.provider tool reason)

theorem Shell.carriedOut_runThen (shell : Shell) (command : Command) (message : String)
    (done : List Command) : CarriedOut (shell.runThen command message done) := by
  unfold Shell.runThen Shell.run
  rcases shell done command with e | ⟨_ | _, out, err⟩
  · exact .inr ⟨_, _, rfl⟩
  · exact .inr ⟨_, _, rfl⟩
  · exact .inl ⟨⟨message, rfl⟩, by simp⟩

theorem aptListUpdates_cases (shell : Shell) (done : List Command) :
    (∃ reason, (aptListUpdates shell done).1 = .error (.provider "apt" reason)) ∨
      ∃ updates, aptListUpdates shell done = (.ok updates, done ++ [aptRefresh, aptUpgradable]) := by
  cases h : shell (done ++ [aptRefresh]) aptUpgradable with
  | notSpawned e =>
    refine .inl ⟨"`" ++ aptUpgradable.1 ++ "` not available", ?_⟩
    simp only [aptListUpdates, Shell.outputOf, Shell.probe, h]
    rfl
  | exited ok out err =>
    refine .inr ⟨parseAptUpgradable out, ?_⟩
    simp [aptListUpdates, Shell.outputOf, Shell.probe, h, Except.map]

/-- `apt` has nothing to install, runs `apt-get`, or cannot list the updates. -/
theorem carriedOut_aptApplyUpdates (shell : Shell) (securityOnly : Bool) (done : List Command) :
    CarriedOut (aptApplyUpdates shell securityOnly done) := by
  unfold aptApplyUpdates
  cases securityOnly with
  | false => exact shell.carriedOut_runThen ..
  | true =>
    simp only [Shell.probe, if_true]
    rcases aptListUpdates_cases shell (done ++ [aptRefresh]) with ⟨reason, hlist⟩ | ⟨updates, hlist⟩
    · rcases hrun : aptListUpdates shell (done ++ [aptRefresh]) with ⟨listed, done'⟩
      rw [hrun] at hlist
      obtain rfl : listed = _ := hlist
      exact .inr ⟨_, _, rfl⟩
    · rw [hlist]
      dsimp only
      split_ifs
      · exact .inl ⟨⟨_, rfl⟩, by simp⟩
      · exact shell.carriedOut_runThen ..

/-- The managers that can apply updates. -/
def updatable : List String := ["apt", "dnf", "pacman", "apk"]

theorem carriedOut_applyUpdatesWith (shell : Shell) {m : PackageManager} (hm : m.name ∈ updatable)
    (securityOnly : Bool) (done : List Command) :
    CarriedOut (applyUpdatesWith shell m securityOnly done) := by
  unfold applyUpdatesWith
  split_ifs with hapt hdnf hpacman hapk
  · exact carriedOut_aptApplyUpdates shell securityOnly done
  · unfold dnfApplyUpdates
    split_ifs
    · exact shell.carriedOut_runThen ..
    · exact shell.carriedOut_runThen ..
  · exact shell.carriedOut_runThen ..
  · exact shell.carriedOut_runThen ..
  · simp [updatable, hapt, hdnf, hpacman, hapk] at hm

/-- Where updates are pending, the manager of the host can apply them. -/
theorem updatable_of_pending {path : SearchPath} {os : HostOs} {managers : List PackageManager}
    {shell : Shell} {done : List Command}
    (h : (availableUpdates path os managers shell done).1.total ≠ 0) :
    ∃ m, activeManager path os managers = some m ∧ m.name ∈ updatable := by
  unfold availableUpdates at h
  cases hm : activeManager path os managers with
  | none => simp [hm] at h
  | some m =>
    refine ⟨m, rfl, ?_⟩
    by_contra hnot
    simp only [updatable, List.mem_cons, List.not_mem_nil, or_false, not_or] at hnot
    simp [hm, listUpdates, hnot, Except.toOption] at h

/-- Where the scan finds something, the manager of the host can apply updates. -/
theorem updatable_of_scanned {path : SearchPath} {os : HostOs} {managers : List PackageManager}
    {probe : Probe} {post : JsonValue → Result JsonValue} {found : List VulnerablePackage}
    (h : scanVulnerabilities path os managers probe post = .ok found) (hfound : found ≠ []) :
    ∃ m, activeManager path os managers = some m ∧ m.name ∈ updatable := by
  unfold scanVulnerabilities at h
  cases hm : activeManager path os managers with
  | none => simp_all
  | some m =>
    refine ⟨m, rfl, ?_⟩
    by_contra hnot
    simp only [updatable, List.mem_cons, List.not_mem_nil, or_false, not_or] at hnot
    simp only [hm, osvEcosystem, hnot, if_false, Except.ok.injEq] at h
    exact hfound h.symm

/-! ## The listing of `apt` -/

/-- A package that `apt` can upgrade. A version begins with a digit, and of the fields only versions
have colons. -/
structure AptRow where
  name : List Char
  suites : List Char
  version : List Char
  arch : List Char
  installed : List Char
  isName : IsWord name ∧ '/' ∉ name ∧ ':' ∉ name
  isSuites : (∀ c ∈ suites, isWhiteSpace c = false) ∧ ':' ∉ suites
  isVersion : IsWord version ∧ startsWithDigit version
  isArch : IsWord arch ∧ ':' ∉ arch
  isInstalled : IsWord installed ∧ ']' ∉ installed

namespace AptRow

variable (r : AptRow)

/-- What stands before the remark. -/
def head : List Char :=
  (r.name ++ '/' :: r.suites) ++ ' ' :: (r.version ++ ' ' :: (r.arch ++ ' ' :: ['[']))

/-- The line that `apt` prints. -/
def line : List Char := r.head ++ (remark ++ ' ' :: (r.installed ++ [']']))

/-- What the row says. -/
def update : PackageUpdate :=
  ⟨String.ofList r.name, some (String.ofList r.installed), String.ofList r.version,
    isSecuritySuite r.suites⟩

end AptRow

/-- The first line of the listing. -/
def aptHeader : List Char := "Listing...".toList

/-- What `apt` prints for some packages. -/
def aptListing (rows : List AptRow) : String :=
  String.ofList ((aptHeader :: rows.map AptRow.line).flatMap fun l => l ++ ['\n'])

/-- A text is cut at a place that is not preceded by another match. -/
theorem splitOnceText_append {pat s t : List Char} (hpat : pat ≠ [])
    (h : ∀ u v, s ++ pat = u ++ (pat ++ v) → v = []) :
    splitOnceText pat (s ++ (pat ++ t)) = some (s, t) := by
  induction s with
  | nil =>
    obtain ⟨c, pat, rfl⟩ := List.exists_cons_of_ne_nil hpat
    rw [List.nil_append, List.cons_append, splitOnceText, if_pos]
    · simp
    · rw [List.isPrefixOf_iff_prefix, ← List.cons_append]
      exact List.prefix_append ..
  | cons c s ih =>
    have hnot : ¬ pat.isPrefixOf (c :: (s ++ (pat ++ t))) = true := by
      rw [List.isPrefixOf_iff_prefix]
      intro hp
      -- a match at the beginning would end before the one that is meant does
      have hlen : pat <+: c :: s ++ pat := by
        exact List.prefix_of_prefix_length_le hp ⟨t, by simp⟩ (by simp; omega)
      obtain ⟨v, hv⟩ := hlen
      have hnil := h [] v (by simpa using hv.symm)
      have hsum := congrArg List.length hv
      simp only [hnil, List.length_append, List.length_cons, List.length_nil] at hsum
      omega
    rw [List.cons_append, splitOnceText, if_neg hnot, ih, Option.map_some]
    intro u v huv
    exact h (c :: u) v (by rw [List.cons_append, huv, List.cons_append])

/-- A text that begins with a word has one that begins with it. -/
theorem exists_mem_splitWhitespace_append {w : List Char} (hw : IsWord w) (s : List Char) :
    ∃ v ∈ splitWhitespace (w ++ s), w <+: v := by
  have hsplit : ∀ w : List Char, (∀ c ∈ w, isWhiteSpace c = false) →
      ∃ v vs, (w ++ s).splitOnP isWhiteSpace = (w ++ v) :: vs := by
    intro w hw
    induction w with
    | nil => exact List.exists_cons_of_ne_nil (List.splitOnP_ne_nil isWhiteSpace s)
    | cons c w ih =>
      obtain ⟨v, vs, h⟩ := ih fun c' hc' => hw c' (List.mem_cons_of_mem _ hc')
      refine ⟨v, vs, ?_⟩
      rw [List.cons_append, List.splitOnP_cons_eq_if_modifyHead,
        if_neg (by simp [hw c List.mem_cons_self]), h]
      rfl
  obtain ⟨v, vs, h⟩ := hsplit w hw.2
  refine ⟨w ++ v, ?_, List.prefix_append ..⟩
  rw [splitWhitespace, h, List.filter_cons_of_pos (by simp [hw.1])]
  exact List.mem_cons_self

namespace AptRow

variable (r : AptRow)

theorem isWord_nameSuites : IsWord (r.name ++ '/' :: r.suites) :=
  r.isName.1.append (List.forall_mem_cons.2 ⟨by decide, r.isSuites.1⟩)

/-- The words of the line up to a place after the bracket. -/
theorem splitWhitespace_head_append (s : List Char) : splitWhitespace (r.head ++ s) =
    [r.name ++ '/' :: r.suites, r.version, r.arch] ++ splitWhitespace ('[' :: s) := by
  have hassoc : r.head ++ s = (r.name ++ '/' :: r.suites) ++ ' ' ::
      (r.version ++ ' ' :: (r.arch ++ ' ' :: ('[' :: s))) := by simp [head]
  rw [hassoc, splitWhitespace_word_append r.isWord_nameSuites,
    splitWhitespace_word_append r.isVersion.1, splitWhitespace_word_append r.isArch.1]
  rfl

/-- No word before the remark begins like its second word. -/
theorem not_from_of_mem {w : List Char}
    (hw : w ∈ splitWhitespace (r.head ++ "upgradable".toList)) : ¬ "from:".toList <+: w := by
  have hcolon : ∀ {v : List Char}, ':' ∉ v → ¬ "from:".toList <+: v := fun hv h =>
    hv (h.subset (by decide))
  rw [r.splitWhitespace_head_append] at hw
  simp only [List.mem_append, List.mem_cons, List.not_mem_nil, or_false] at hw
  rcases hw with (rfl | rfl | rfl) | hw
  · refine hcolon ?_
    simp [r.isName.2.2, r.isSuites.2]
  · -- a version begins with a digit
    rintro ⟨t, ht⟩
    have hdigit := r.isVersion.2
    rw [← ht] at hdigit
    exact absurd hdigit (by simp [startsWithDigit])
  · exact hcolon r.isArch.2
  · obtain rfl : w = "[upgradable".toList := by
      have hword : splitWhitespace ('[' :: "upgradable".toList) = ["[upgradable".toList] :=
        splitWhitespace_word (w := "[upgradable".toList) (by decide)
      rw [hword] at hw
      simpa using hw
    decide

/-- The remark does not begin before its place. -/
theorem eq_nil_of_remark {u v : List Char} (h : r.head ++ remark = u ++ (remark ++ v)) :
    v = [] := by
  have hremark : remark = "upgradable".toList ++ ' ' :: "from:".toList := by decide
  have hspace : ' ' ∉ "from:".toList := by decide
  generalize hq : r.head ++ "upgradable".toList = q at *
  have heq : q ++ ' ' :: "from:".toList =
      (u ++ "upgradable".toList) ++ ' ' :: ("from:".toList ++ v) := by
    rw [← hq]
    simpa [hremark] using h
  rcases List.append_eq_append_iff.1 heq with ⟨a, ha, htail⟩ | ⟨a, ha, htail⟩
  · cases a with
    | nil =>
      have := (List.cons.inj htail).2
      simpa using this
    | cons c a =>
      -- the second space would stand in the last word
      have hrest := (List.cons.inj htail).2
      exact absurd (hrest ▸ by simp : ' ' ∈ "from:".toList) hspace
  · cases a with
    | nil =>
      have := (List.cons.inj htail).2
      simpa using this
    | cons c a =>
      obtain ⟨rfl, hrest⟩ := List.cons.inj htail
      -- the words before the remark would have one that begins like its second word
      exfalso
      have hprefix : "from:".toList <+: a := by
        rcases List.append_eq_append_iff.1 hrest with ⟨b, rfl, -⟩ | ⟨b, hb, hb'⟩
        · exact List.prefix_append ..
        · cases b with
          | nil => exact ⟨[], by simpa using hb⟩
          | cons d b =>
            obtain ⟨rfl, -⟩ := List.cons.inj hb'
            exact absurd (hb ▸ by simp : ' ' ∈ "from:".toList) hspace
      obtain ⟨b, rfl⟩ := hprefix
      obtain ⟨w, hw, hfrom⟩ := exists_mem_splitWhitespace_append
        (w := "from:".toList) (by decide) b
      refine r.not_from_of_mem (w := w) ?_ hfrom
      rw [hq, ha, splitWhitespace_append_cons (by decide)]
      exact List.mem_append_right _ hw

theorem getLast?_line : r.line.getLast? = some ']' := by
  have hline : r.line = (r.head ++ (remark ++ ' ' :: r.installed)) ++ [']'] := by simp [line]
  rw [hline, List.getLast?_concat]

theorem space_of_mem_line {c : Char} (hc : c ∈ r.line) : c = ' ' ∨ isWhiteSpace c = false := by
  have hremark : ∀ c ∈ remark, c = ' ' ∨ isWhiteSpace c = false := forall_mem_of_all (by decide)
  simp only [line, head, List.mem_append, List.mem_cons, List.not_mem_nil, or_false] at hc
  rcases hc with ((hc | rfl | hc) | rfl | hc | rfl | hc | rfl | rfl) | hc | rfl | hc | rfl
  · exact .inr (r.isName.1.2 c hc)
  · exact .inr (by decide)
  · exact .inr (r.isSuites.1 c hc)
  · exact .inl rfl
  · exact .inr (r.isVersion.1.2 c hc)
  · exact .inl rfl
  · exact .inr (r.isArch.1.2 c hc)
  · exact .inl rfl
  · exact .inr (by decide)
  · exact hremark c hc
  · exact .inl rfl
  · exact .inr (r.isInstalled.1.2 c hc)
  · exact .inr (by decide)

theorem isLine : '\n' ∉ r.line ∧ r.line.getLast? ≠ some '\r' := by
  constructor
  · intro h
    rcases r.space_of_mem_line h with h | h
    · exact absurd h (by decide)
    · exact absurd h (by decide)
  · rw [r.getLast?_line]
    decide

theorem trim_line : trim r.line = r.line := by
  refine trim_eq_self (fun c hc => ?_) fun c hc => ?_
  · obtain ⟨d, name, hname⟩ := List.exists_cons_of_ne_nil r.isName.1.1
    have hd : isWhiteSpace d = false := r.isName.1.2 d (by simp [hname])
    have hline : r.line.head? = some d := by simp [line, head, hname]
    rw [hline] at hc
    obtain rfl := Option.some.inj hc
    exact hd
  · rw [r.getLast?_line] at hc
    obtain rfl := Option.some.inj hc
    decide

/-- The installed version is found behind the remark. -/
theorem aptCurrentVersion_line : aptCurrentVersion r.line = some (String.ofList r.installed) := by
  have hword : IsWord (r.installed ++ [']']) := r.isInstalled.1.append (by simp; decide)
  have htrim : trim (' ' :: (r.installed ++ [']'])) = r.installed ++ [']'] := by
    have hself : trim (r.installed ++ [']']) = r.installed ++ [']'] :=
      trim_eq_self (fun c hc => hword.2 c (List.mem_of_mem_head? hc))
        fun c hc => hword.2 c (List.mem_of_mem_getLast? hc)
    rwa [trim, List.dropWhile_cons_of_pos (by decide)]
  have hdrop : (r.installed ++ [']']).rdropWhile (fun c => decide (c = ']')) = r.installed := by
    rw [List.rdropWhile_concat_pos _ _ _ (by decide), List.rdropWhile_eq_self_iff]
    intro hne hlast
    refine r.isInstalled.2 ?_
    rw [← of_decide_eq_true hlast]
    exact List.getLast_mem hne
  rw [aptCurrentVersion, line, splitOnceText_append (by decide) fun u v => r.eq_nil_of_remark,
    Option.bind_some, htrim, hdrop, splitWhitespace_word r.isInstalled.1]
  rfl

/-- A line is read as the row it was printed for. -/
theorem parseAptUpgrade_line : parseAptUpgrade r.line = some r.update := by
  have hslash : '/' ∈ r.line := by simp [line, head]
  have hne : r.line ≠ [] := List.ne_nil_of_mem hslash
  have hwords : splitWhitespace r.line = (r.name ++ '/' :: r.suites) :: r.version ::
      (r.arch :: splitWhitespace ('[' :: (remark ++ ' ' :: (r.installed ++ [']'])))) :=
    r.splitWhitespace_head_append _
  rw [parseAptUpgrade]
  simp only [r.trim_line, hwords, splitOnce_append r.isName.2.1, r.aptCurrentVersion_line]
  rw [if_neg (not_or.2 ⟨hne, not_not.2 hslash⟩)]
  rfl

end AptRow

theorem lines_aptListing (rows : List AptRow) :
    lines (aptListing rows).toList = aptHeader :: rows.map AptRow.line := by
  have hheader : '\n' ∉ aptHeader ∧ aptHeader.getLast? ≠ some '\r' := by decide
  rw [aptListing, String.toList_ofList]
  refine lines_flatMap (List.forall_mem_cons.2 ⟨hheader, fun l hl => ?_⟩)
  obtain ⟨r, -, rfl⟩ := List.mem_map.1 hl
  exact r.isLine

/-- The header of the listing has no slash. -/
theorem parseAptUpgradable_listing (rows : List AptRow) :
    parseAptUpgradable (aptListing rows) = rows.map AptRow.update := by
  have hheader : parseAptUpgrade aptHeader = none := by
    have hslash : '/' ∉ trim aptHeader := by decide
    rw [parseAptUpgrade, if_pos (.inr hslash)]
  rw [parseAptUpgradable, lines_aptListing, List.filterMap_cons, hheader, List.filterMap_map]
  simp [AptRow.parseAptUpgrade_line]

/-- **Only security updates.** When `apt` lists these packages after its two refreshes, exactly those
with a security suite are given to `apt-get`, in their order; where there is none, nothing is
installed. -/
theorem aptApplyUpdates_eq {shell : Shell} {done : List Command} {rows : List AptRow} {ok : Bool}
    {err : String}
    (h : shell (done ++ [aptRefresh, aptRefresh]) aptUpgradable = .exited ok (aptListing rows) err) :
    let names := (rows.filter fun r => isSecuritySuite r.suites).map fun r => String.ofList r.name
    (aptApplyUpdates shell true done).2 = done ++ [aptRefresh, aptRefresh, aptUpgradable] ++
        (if names = [] then [] else [aptUpgrade names]) ∧
      ((aptApplyUpdates shell true done).1.isOk ↔ names = [] ∨ ∃ out err',
        shell (done ++ [aptRefresh, aptRefresh, aptUpgradable]) (aptUpgrade names) =
          .exited true out err') := by
  intro names
  have hlist : aptListUpdates shell (done ++ [aptRefresh]) =
      (.ok (rows.map AptRow.update), done ++ [aptRefresh, aptRefresh, aptUpgradable]) := by
    simp [aptListUpdates, Shell.outputOf, Shell.probe, h, Except.map, parseAptUpgradable_listing]
  have hnames : ((rows.map AptRow.update).filter fun u => u.security).map PackageUpdate.name =
      names := by
    rw [List.filter_map, List.map_map]
    rfl
  have happly : aptApplyUpdates shell true done =
      if names = [] then (.ok "No security updates to apply.",
        done ++ [aptRefresh, aptRefresh, aptUpgradable])
      else shell.runThen (aptUpgrade names)
        ("Applied " ++ toString names.length ++ " security update(s) via apt-get.")
        (done ++ [aptRefresh, aptRefresh, aptUpgradable]) := by
    simp only [aptApplyUpdates, Shell.probe, hlist, hnames, if_true]
  rw [happly]
  by_cases hempty : names = []
  · simp [hempty, Except.isOk, Except.toBool]
  · simp only [Shell.runThen, Shell.run, hempty, false_or]
    refine ⟨by simp, ?_⟩
    rcases shell (done ++ [aptRefresh, aptRefresh, aptUpgradable]) (aptUpgrade names) with
      e | ⟨_ | _, out, err'⟩
    · simp [Except.map, Except.isOk, Except.toBool]
    · simp [Except.map, Except.isOk, Except.toBool]
    · simp [Except.map, Except.isOk, Except.toBool]

/-! ### Two updates -/

/-- A security update. -/
def opensslRow : AptRow where
  name := "openssl".toList
  suites := "jammy-updates,jammy-security".toList
  version := "3.0.2-0ubuntu1.15".toList
  arch := "amd64".toList
  installed := "3.0.2-0ubuntu1.10".toList
  isName := by decide
  isSuites := ⟨forall_mem_of_all (by decide), by decide⟩
  isVersion := by decide
  isArch := by decide
  isInstalled := by decide

/-- Another update. -/
def vimRow : AptRow where
  name := "vim".toList
  suites := "jammy-updates".toList
  version := "2:8.2.3995-1ubuntu2.17".toList
  arch := "amd64".toList
  installed := "2:8.2.3995-1ubuntu2.16".toList
  isName := by decide
  isSuites := ⟨forall_mem_of_all (by decide), by decide⟩
  isVersion := by decide
  isArch := by decide
  isInstalled := by decide

/-- A host on which `apt` lists both. -/
def opensslShell : Shell := fun _ command =>
  .exited true (if command = aptUpgradable then aptListing [vimRow, opensslRow] else "") ""

theorem aptApplyUpdates_eq_openssl :
    (aptApplyUpdates opensslShell true []).2 =
      [("apt-get", ["update", "-qq"]), ("apt-get", ["update", "-qq"]), ("apt", ["list", "--upgradable"]),
        ("apt-get", ["install", "-y", "--only-upgrade", "openssl"])] ∧
      (aptApplyUpdates opensslShell true []).1.isOk := by
  have hnames : (([vimRow, opensslRow].filter fun r => isSecuritySuite r.suites).map fun r =>
      String.ofList r.name) = ["openssl"] := by decide
  obtain ⟨hcommands, hok⟩ := @aptApplyUpdates_eq opensslShell [] [vimRow, opensslRow] true "" rfl
  rw [hnames] at hcommands hok
  exact ⟨hcommands, hok.2 (.inr ⟨"", "", rfl⟩)⟩

end Platform

end OCF
