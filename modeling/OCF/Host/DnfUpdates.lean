import OCF.Foundations.Text
import Mathlib.Tactic.Common

/-!
# The security updates of `dnf`

`dnf list --upgrades` prints a line for each package that can be upgraded, `name.arch`, version and
repository. Which of them are security updates is taken from `dnf updateinfo list security`: a line
for each advisory and package, the advisory, its type and `name-version-release.arch`. Both are
reduced to the name of the package by cutting from the right, and these reductions agree
(`stripNevra_nevra`, `parseDnfUpgrade_row`).

A line of the second listing counts when it has the letters `sec` in any place, not only in its
type, so an advisory of another type counts too when its package is called so.
`parseDnfUpgrades_eq_iff` says for which listings the flags are right; where all advisories are
security advisories they always are.
-/

namespace OCF

namespace Platform

open Text

/-! ## The parsers -/

/-- An update of an installed package. -/
structure PackageUpdate where
  name : String
  currentVersion : Option String
  availableVersion : String
  security : Bool
  deriving DecidableEq

/-- The part before the last dot. -/
def stripArch (s : List Char) : List Char := ((rsplitOnce '.' s).map Prod.fst).getD s

/-- A line of `dnf list --upgrades`. -/
def parseDnfUpgrade (securityNames : List String) (line : List Char) : Option PackageUpdate :=
  let line := trim line
  if line = [] ∨ "Last metadata".toList <+: line ∨ "Available".toList <+: line then none
  else match splitWhitespace line with
    | nameArch :: version :: _ =>
      let name := stripArch nameArch
      if name = [] ∨ version = [] then none
      else some
        { name := String.ofList name
          currentVersion := none
          availableVersion := String.ofList version
          security := securityNames.any fun s => s = String.ofList name }
    | _ => none

/-- The updates that `dnf` lists. -/
def parseDnfUpgrades (stdout : String) (securityNames : List String) : List PackageUpdate :=
  (lines stdout.toList).filterMap (parseDnfUpgrade securityNames)

/-- Reduce `name-version-release.arch` to the name. -/
def stripNevra (s : List Char) : List Char :=
  let noArch := stripArch s
  match rsplitn '-' 3 noArch with
  | [_, _, name] => if name ≠ [] then name else noArch
  | _ => noArch

/-- The letters `sec` stand somewhere, in either case. -/
def mentionsSec (s : List Char) : Bool :=
  occursIn "sec".toList (toAsciiLowercase (String.ofList s)).toList

/-- A line of `dnf updateinfo list security`. -/
def parseDnfSecurityName (line : List Char) : Option String :=
  (splitWhitespace line).getLast?.bind fun pkg =>
    if pkg = [] ∨ ¬ mentionsSec line then none else some (String.ofList (stripNevra pkg))

/-- The packages that have a security advisory. -/
def parseDnfSecurityNames (stdout : String) : List String :=
  (lines stdout.toList).filterMap parseDnfSecurityName

/-! ## The listings -/

/-- A build of a package. -/
structure Build where
  name : List Char
  version : List Char
  release : List Char
  arch : List Char
  nonempty : name ≠ []
  plain : ¬ "Available".toList <+: name ∧ ¬ "Last".toList <+: name
  noDash : '-' ∉ version ∧ '-' ∉ release
  noDot : '.' ∉ arch

namespace Build

variable (b : Build)

/-- The build as it is listed among the upgrades. -/
def nameArch : List Char := b.name ++ '.' :: b.arch

/-- Version and release. -/
def versionRelease : List Char := b.version ++ '-' :: b.release

/-- The build as it is listed with an advisory. -/
def nevra : List Char := b.name ++ '-' :: (b.versionRelease ++ '.' :: b.arch)

end Build

/-- A line with these columns, however they are spaced. -/
structure Printed (cells : List (List Char)) where
  text : List Char
  words : splitWhitespace text = cells
  isLine : '\n' ∉ text ∧ text.getLast? ≠ some '\r'

/-- A package that can be upgraded. -/
structure UpgradeRow where
  build : Build
  repo : List Char
  printed : Printed [build.nameArch, build.versionRelease, repo]

/-- A line of the listing of upgrades: a package, or a header or blank line. -/
inductive UpgradeLine
  | package (row : UpgradeRow)
  | other (text : List Char) (isLine : '\n' ∉ text ∧ text.getLast? ≠ some '\r')
      (isOther : trim text = [] ∨ "Last metadata".toList <+: trim text ∨
        "Available".toList <+: trim text)

/-- A line of the listing. -/
def UpgradeLine.text : UpgradeLine → List Char
  | .package row => row.printed.text
  | .other text _ _ => text

/-- The upgrade of a line, if it has one. -/
def UpgradeLine.row : UpgradeLine → Option UpgradeRow
  | .package row => some row
  | .other _ _ _ => none

/-- An advisory about a build of a package. -/
structure AdvisoryRow where
  advisory : List Char
  type : List Char
  build : Build
  printed : Printed [advisory, type, build.nevra]

/-- The type says that it is a security advisory. -/
def AdvisoryRow.Security (a : AdvisoryRow) : Prop := mentionsSec a.type

instance (a : AdvisoryRow) : Decidable a.Security := inferInstanceAs (Decidable (_ = true))

/-- The listing of the upgrades. -/
def upgradeText (listing : List UpgradeLine) : String :=
  String.ofList ((listing.map UpgradeLine.text).flatMap fun l => l ++ ['\n'])

/-- The listing of the advisories. -/
def advisoryText (advisories : List AdvisoryRow) : String :=
  String.ofList ((advisories.map fun a => a.printed.text).flatMap fun l => l ++ ['\n'])

/-- The packages of a listing, in order. -/
def packageRows (listing : List UpgradeLine) : List UpgradeRow := listing.filterMap UpgradeLine.row

/-- The update of a row. -/
def UpgradeRow.update (r : UpgradeRow) (security : Bool) : PackageUpdate :=
  ⟨String.ofList r.build.name, none, String.ofList r.build.versionRelease, security⟩

/-! ## Names -/

namespace Build

variable (b : Build)

theorem stripArch_nameArch : stripArch b.nameArch = b.name := by
  rw [stripArch, nameArch, rsplitOnce_append b.noDot]
  rfl

/-- The name is what is left of the text of a build. -/
theorem stripNevra_nevra : stripNevra b.nevra = b.name := by
  have harch : stripArch b.nevra = b.name ++ '-' :: (b.version ++ '-' :: b.release) := by
    have hsplit : b.nevra = (b.name ++ '-' :: b.versionRelease) ++ '.' :: b.arch := by simp [nevra]
    rw [hsplit, stripArch, rsplitOnce_append b.noDot]
    rfl
  rw [stripNevra]
  simp only [harch, rsplitn_three b.noDash.1 b.noDash.2]
  rw [if_pos b.nonempty]

end Build

/-! ## Lines -/

/-- A text that begins with a name and a dot begins with no other word that the name does not begin
with. -/
theorem not_isPrefix_of_dot {w name s : List Char} (hw : '.' ∉ w) (hname : ¬ w <+: name)
    (hs : name ++ ['.'] <+: s) : ¬ w <+: s := by
  intro h
  rcases List.prefix_or_prefix_of_prefix h hs with h | h
  · rcases List.prefix_concat_iff.1 h with rfl | h
    · exact hw (by simp)
    · exact hname h
  · exact hw (h.subset (by simp))

/-- A line of the upgrades is read as the package it was printed for. -/
theorem parseDnfUpgrade_row (securityNames : List String) (r : UpgradeRow) :
    parseDnfUpgrade securityNames r.printed.text =
      some (r.update (securityNames.any fun s => s = String.ofList r.build.name)) := by
  have hbegin : r.build.name ++ ['.'] <+: trim r.printed.text := by
    refine List.IsPrefix.trans ?_ (isPrefix_trim r.printed.words)
    exact ⟨r.build.arch, by simp [Build.nameArch]⟩
  have hne : trim r.printed.text ≠ [] := by
    intro h
    rw [h, List.prefix_nil] at hbegin
    simp at hbegin
  have hlast : ¬ "Last metadata".toList <+: trim r.printed.text := by
    intro h
    refine not_isPrefix_of_dot (by decide) r.build.plain.2 hbegin (List.IsPrefix.trans ?_ h)
    exact ⟨" metadata".toList, by decide⟩
  have havailable : ¬ "Available".toList <+: trim r.printed.text :=
    not_isPrefix_of_dot (by decide) r.build.plain.1 hbegin
  have hversion : r.build.versionRelease ≠ [] := by simp [Build.versionRelease]
  rw [parseDnfUpgrade]
  simp only [splitWhitespace_trim, r.printed.words, r.build.stripArch_nameArch]
  rw [if_neg (not_or.2 ⟨hne, not_or.2 ⟨hlast, havailable⟩⟩),
    if_neg (not_or.2 ⟨r.build.nonempty, hversion⟩)]
  rfl

theorem parseDnfUpgrade_text (securityNames : List String) (l : UpgradeLine) :
    parseDnfUpgrade securityNames l.text = l.row.map fun r =>
      r.update (securityNames.any fun s => s = String.ofList r.build.name) := by
  cases l with
  | package r => exact parseDnfUpgrade_row securityNames r
  | other text isLine isOther =>
    rw [UpgradeLine.text, parseDnfUpgrade]
    simp only [isOther, if_true]
    rfl

/-- An advisory counts when its line has the letters. -/
theorem parseDnfSecurityName_row (a : AdvisoryRow) : parseDnfSecurityName a.printed.text =
    if mentionsSec a.printed.text then some (String.ofList a.build.name) else none := by
  have hne : a.build.nevra ≠ [] := by simp [Build.nevra]
  rw [parseDnfSecurityName, a.printed.words]
  simp only [List.getLast?_cons_cons, List.getLast?_singleton, Option.bind_some, hne, false_or,
    a.build.stripNevra_nevra]
  split_ifs <;> rfl

/-- The line of a security advisory has the letters, since they stand in its type. -/
theorem AdvisoryRow.Security.mentionsSec {a : AdvisoryRow} (h : a.Security) :
    mentionsSec a.printed.text := by
  have hword : a.type <:+: a.printed.text := by
    apply isInfix_of_mem_splitWhitespace
    rw [a.printed.words]
    simp
  have hmap : (toAsciiLowercase (String.ofList a.type)).toList <:+:
      (toAsciiLowercase (String.ofList a.printed.text)).toList := by
    rw [toAsciiLowercase, toAsciiLowercase, String.toList_ofList, String.toList_ofList,
      String.toList_ofList, String.toList_ofList]
    exact hword.map _
  rw [Security, Platform.mentionsSec, occursIn_iff] at h
  rw [Platform.mentionsSec, occursIn_iff]
  exact h.trans hmap

/-! ## Listings -/

theorem parseDnfUpgrades_text (listing : List UpgradeLine) (securityNames : List String) :
    parseDnfUpgrades (upgradeText listing) securityNames = (packageRows listing).map fun r =>
      r.update (securityNames.any fun s => s = String.ofList r.build.name) := by
  have hlines : lines ((listing.map UpgradeLine.text).flatMap fun l => l ++ ['\n']) =
      listing.map UpgradeLine.text := by
    refine lines_flatMap fun l hl => ?_
    obtain ⟨line, -, rfl⟩ := List.mem_map.1 hl
    cases line with
    | package r => exact r.printed.isLine
    | other text isLine isOther => exact isLine
  rw [parseDnfUpgrades, upgradeText, String.toList_ofList, hlines, List.filterMap_map, packageRows,
    List.map_filterMap]
  refine List.filterMap_congr fun l _ => ?_
  rw [Function.comp_apply, parseDnfUpgrade_text]

theorem parseDnfSecurityNames_text (advisories : List AdvisoryRow) :
    parseDnfSecurityNames (advisoryText advisories) =
      (advisories.filter fun a => mentionsSec a.printed.text).map fun a =>
        String.ofList a.build.name := by
  have hlines : lines ((advisories.map fun a => a.printed.text).flatMap fun l => l ++ ['\n']) =
      advisories.map fun a => a.printed.text := by
    refine lines_flatMap fun l hl => ?_
    obtain ⟨a, -, rfl⟩ := List.mem_map.1 hl
    exact a.printed.isLine
  rw [parseDnfSecurityNames, advisoryText, String.toList_ofList, hlines, List.filterMap_map,
    ← List.filterMap_eq_map, List.filterMap_filter]
  refine List.filterMap_congr fun a _ => ?_
  rw [Function.comp_apply, parseDnfSecurityName_row]
  rfl

/-- The package of a row has a security advisory. -/
def HasSecurityAdvisory (advisories : List AdvisoryRow) (r : UpgradeRow) : Prop :=
  ∃ a ∈ advisories, a.Security ∧ a.build.name = r.build.name

instance (advisories : List AdvisoryRow) (r : UpgradeRow) :
    Decidable (HasSecurityAdvisory advisories r) :=
  inferInstanceAs (Decidable (∃ a ∈ advisories, a.Security ∧ a.build.name = r.build.name))

/-- A row is flagged when the line of some advisory about its package has the letters. -/
theorem any_securityNames_iff (advisories : List AdvisoryRow) (r : UpgradeRow) :
    ((parseDnfSecurityNames (advisoryText advisories)).any fun s =>
      s = String.ofList r.build.name) = true ↔
    ∃ a ∈ advisories, mentionsSec a.printed.text ∧ a.build.name = r.build.name := by
  rw [parseDnfSecurityNames_text, List.any_map, List.any_filter, List.any_eq_true]
  simp only [Function.comp_apply, Bool.and_eq_true, decide_eq_true_eq, String.ofList_inj]

/-- **When the flags are right**: an advisory of another type whose line has the letters is about a
package that has a security advisory as well, or about none of the listed ones. -/
theorem parseDnfUpgrades_eq_iff (listing : List UpgradeLine) (advisories : List AdvisoryRow) :
    parseDnfUpgrades (upgradeText listing) (parseDnfSecurityNames (advisoryText advisories)) =
      ((packageRows listing).map fun r => r.update (HasSecurityAdvisory advisories r)) ↔
    ∀ r ∈ packageRows listing, ∀ a ∈ advisories, a.build.name = r.build.name → ¬ a.Security →
      mentionsSec a.printed.text → HasSecurityAdvisory advisories r := by
  rw [parseDnfUpgrades_text, List.map_inj_left]
  refine forall₂_congr fun r _ => ?_
  have hflag : (r.update ((parseDnfSecurityNames (advisoryText advisories)).any fun s =>
      s = String.ofList r.build.name) = r.update (HasSecurityAdvisory advisories r)) ↔
      ((∃ a ∈ advisories, mentionsSec a.printed.text ∧ a.build.name = r.build.name) ↔
        HasSecurityAdvisory advisories r) := by
    rw [← any_securityNames_iff, UpgradeRow.update, UpgradeRow.update, PackageUpdate.mk.injEq,
      Bool.eq_iff_iff, decide_eq_true_eq]
    simp only [true_and]
  rw [hflag]
  constructor
  · rintro h a ha hname - hsec
    exact h.1 ⟨a, ha, hsec, hname⟩
  · refine fun h => ⟨?_, fun ⟨a, ha, hsec, hname⟩ => ⟨a, ha, hsec.mentionsSec, hname⟩⟩
    rintro ⟨a, ha, hsec, hname⟩
    by_cases htype : a.Security
    · exact ⟨a, ha, htype, hname⟩
    · exact h a ha hname htype hsec

/-! ## A package that is called so -/

/-- A package with the letters in its name. -/
def libsecret : Build where
  name := "libsecret".toList
  version := "0.20.5".toList
  release := "1.el9".toList
  arch := "x86_64".toList
  nonempty := by decide
  plain := by decide
  noDash := by decide
  noDot := by decide

/-- An upgrade of `libsecret`. -/
def libsecretUpgrade : UpgradeRow where
  build := libsecret
  repo := "baseos".toList
  printed :=
    { text := "libsecret.x86_64    0.20.5-1.el9    baseos".toList
      words := by decide +kernel
      isLine := by decide +kernel }

/-- The advisory for it, which fixes bugs only. -/
def libsecretBugfix : AdvisoryRow where
  advisory := "RHBA-2024:1111".toList
  type := "bugfix".toList
  build := libsecret
  printed :=
    { text := "RHBA-2024:1111 bugfix libsecret-0.20.5-1.el9.x86_64".toList
      words := by decide +kernel
      isLine := by decide +kernel }

/-- Its upgrade is flagged because of an advisory about a bug. -/
theorem libsecret_flagged :
    parseDnfUpgrades (upgradeText [.package libsecretUpgrade])
      (parseDnfSecurityNames (advisoryText [libsecretBugfix])) =
        [⟨"libsecret", none, "0.20.5-1.el9", true⟩] ∧
    ¬ HasSecurityAdvisory [libsecretBugfix] libsecretUpgrade ∧
    parseDnfUpgrades (upgradeText [.package libsecretUpgrade])
      (parseDnfSecurityNames (advisoryText [libsecretBugfix])) ≠
        ((packageRows [.package libsecretUpgrade]).map fun r =>
          r.update (HasSecurityAdvisory [libsecretBugfix] r)) := by
  have hflagged : parseDnfUpgrades (upgradeText [.package libsecretUpgrade])
      (parseDnfSecurityNames (advisoryText [libsecretBugfix])) =
        [⟨"libsecret", none, "0.20.5-1.el9", true⟩] := by
    rw [parseDnfUpgrades_text, parseDnfSecurityNames_text]
    decide +kernel
  refine ⟨hflagged, by decide +kernel, ?_⟩
  rw [hflagged]
  decide +kernel

end Platform

end OCF
