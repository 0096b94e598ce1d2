import OCF.Foundations.Json
import OCF.Host.Packages
import Mathlib.Tactic.Common

/-!
# The vulnerability scan of the host

The platform service lists the packages of the host with the tools of its package manager and asks
the OSV database about them, in batches of at most a thousand. The answers of a batch come in the
order of its queries and name no package, so the scan is right only as long as the two lists stay
side by side.

The database is a parameter: it may fail, and an answer it gives has one entry for each query
(`Answered`).

`scan_eq_ok_iff`: a scan that succeeds has found exactly the packages with an advisory, wherever the
batches are cut; it succeeds when all requests do. `listInstalledPackages_eq_iff` is the listing:
`apk` prints name and version with a dash between them, and they are told apart when the version
begins with a digit and has no dash before another one. `scanVulnerabilities_eq_ok_iff` is the scan of a
host, over whatever its listing returned.
-/

namespace OCF

namespace Platform

open Text

/-! ## The database -/

/-- A package that is installed on the host. -/
structure InstalledPackage where
  name : String
  version : String
  deriving DecidableEq

/-- An installed package that some advisories are about. -/
structure VulnerablePackage where
  name : String
  version : String
  vulnIds : List String
  deriving DecidableEq

/-- The most queries in one request. -/
def maxBatch : ℕ := 1000

/-- `slice::chunks`: pieces of `n` elements, the last one of what is left. -/
def chunks {α : Type*} (n : ℕ) (l : List α) : List (List α) :=
  if l = [] ∨ n = 0 then [] else l.take n :: chunks n (l.drop n)
termination_by l.length
decreasing_by
  rename_i h
  obtain ⟨hl, hn⟩ := not_or.1 h
  rw [List.length_drop]
  have : 0 < l.length := List.length_pos_iff.2 hl
  omega

/-- The query about one package. -/
def query (ecosystem : String) (p : InstalledPackage) : JsonValue :=
  .object [("package", .object [("name", .string p.name), ("ecosystem", .string ecosystem)]),
    ("version", .string p.version)]

/-- The body of a request about some packages. -/
def buildQuery (packages : List InstalledPackage) (ecosystem : String) : JsonValue :=
  .object [("queries", .array (packages.map (query ecosystem)))]

/-- The ids of the advisories in a result. -/
def resultIds (result : JsonValue) : List String :=
  (((result.get "vulns").bind JsonValue.asArray).map fun arr =>
    arr.filterMap fun v => (v.get "id").bind JsonValue.asStr).getD []

/-- The loop over the results; it stops when the packages run out. -/
def matchResults : List InstalledPackage → List JsonValue → List VulnerablePackage
  | p :: packages, result :: results =>
    let ids := resultIds result
    let rest := matchResults packages results
    if ids ≠ [] then ⟨p.name, p.version, ids⟩ :: rest else rest
  | _, _ => []

/-- The packages with an advisory; an answer without results counts as none. -/
def parseResponse (packages : List InstalledPackage) (json : JsonValue) : List VulnerablePackage :=
  match (json.get "results").bind JsonValue.asArray with
  | none => []
  | some results => matchResults packages results

section Scan

-- The request to the database.
variable (post : JsonValue → Result JsonValue)

/-- Ask about one batch. -/
def queryChunk (packages : List InstalledPackage) (ecosystem : String) :
    Result (List VulnerablePackage) :=
  if packages = [] then .ok []
  else do
    let json ← post (buildQuery packages ecosystem)
    return parseResponse packages json

/-- Ask about all packages, batch after batch; the first request that fails ends the scan. -/
def scan (packages : List InstalledPackage) (ecosystem : String) :
    Result (List VulnerablePackage) :=
  (chunks maxBatch packages).foldlM
    (fun found chunk => do return found ++ (← queryChunk post chunk ecosystem)) []

end Scan

/-! ## What a scan finds -/

/-- The advisories about a package in an ecosystem. -/
abbrev Advisories := String → InstalledPackage → List String

/-- A result lists these advisories; without advisories it may have no list. -/
def Lists (ids : List String) (result : JsonValue) : Prop :=
  (ids = [] ∧ result.get "vulns" = none) ∨
    ∃ vulns, result.get "vulns" = some (.array vulns) ∧
      List.Forall₂ (fun v id => v.get "id" = some (.string id)) vulns ids

/-- An answer has the results for the packages of the batch, in their order. -/
def Answered (advisories : Advisories) (ecosystem : String) (packages : List InstalledPackage)
    (json : JsonValue) : Prop :=
  ∃ results, json.get "results" = some (.array results) ∧
    List.Forall₂ (fun p => Lists (advisories ecosystem p)) packages results

/-- The report of a package, if there are advisories about it. -/
def vulnerable (advisories : Advisories) (ecosystem : String) (p : InstalledPackage) :
    Option VulnerablePackage :=
  let ids := advisories ecosystem p
  if ids ≠ [] then some ⟨p.name, p.version, ids⟩ else none

theorem resultIds_of_lists {ids : List String} {result : JsonValue} (h : Lists ids result) :
    resultIds result = ids := by
  rcases h with ⟨rfl, h⟩ | ⟨vulns, h, hids⟩
  · simp [resultIds, h]
  · have hread : ∀ {vulns : List JsonValue} {ids : List String},
        List.Forall₂ (fun v id => v.get "id" = some (.string id)) vulns ids →
          (vulns.filterMap fun v => (v.get "id").bind JsonValue.asStr) = ids := by
      intro vulns ids hids
      induction hids with
      | nil => rfl
      | cons hv _ ih => rw [List.filterMap_cons, hv, Option.bind_some, JsonValue.asStr, ih]
    simp [resultIds, h, JsonValue.asArray, hread hids]

/-- The answer of a batch is read for the packages it is about. -/
theorem parseResponse_of_answered {advisories : Advisories} {ecosystem : String}
    {packages : List InstalledPackage} {json : JsonValue}
    (h : Answered advisories ecosystem packages json) :
    parseResponse packages json = packages.filterMap (vulnerable advisories ecosystem) := by
  obtain ⟨results, hget, hresults⟩ := h
  simp only [parseResponse, hget, Option.bind_some, JsonValue.asArray]
  clear hget
  induction hresults with
  | nil => rfl
  | cons hresult _ ih =>
    simp only [matchResults, resultIds_of_lists hresult, List.filterMap_cons, vulnerable, ih]
    split_ifs <;> rfl

theorem flatten_chunks {α : Type*} {n : ℕ} (hn : n ≠ 0) (l : List α) :
    (chunks n l).flatten = l := by
  fun_induction chunks n l with
  | case1 l h =>
    rcases h with rfl | h
    · rfl
    · exact absurd h hn
  | case2 l h ih => rw [List.flatten_cons, ih, List.take_append_drop]

theorem length_le_of_mem_chunks {α : Type*} {n : ℕ} {l chunk : List α} (h : chunk ∈ chunks n l) :
    chunk.length ≤ n := by
  fun_induction chunks n l with
  | case1 l hl => cases h
  | case2 l hl ih =>
    rcases List.mem_cons.1 h with rfl | h
    · exact List.length_take_le n l
    · exact ih h

theorem ne_nil_of_mem_chunks {α : Type*} {n : ℕ} {l chunk : List α} (h : chunk ∈ chunks n l) :
    chunk ≠ [] := by
  fun_induction chunks n l with
  | case1 l hl => cases h
  | case2 l hl ih =>
    rcases List.mem_cons.1 h with rfl | h
    · rw [ne_eq, List.take_eq_nil_iff]
      tauto
    · exact ih h

theorem queryChunk_eq_ok_iff {post : JsonValue → Result JsonValue} {advisories : Advisories}
    {ecosystem : String} {packages : List InstalledPackage} {found : List VulnerablePackage}
    (hne : packages ≠ [])
    (hpost : ∀ json, post (buildQuery packages ecosystem) = .ok json →
      Answered advisories ecosystem packages json) :
    queryChunk post packages ecosystem = .ok found ↔
      (∃ json, post (buildQuery packages ecosystem) = .ok json) ∧
        found = packages.filterMap (vulnerable advisories ecosystem) := by
  rw [queryChunk, if_neg hne]
  cases h : post (buildQuery packages ecosystem) with
  | error e => simp [bind, Except.bind]
  | ok json =>
    simp [bind, Except.bind, pure, Except.pure, parseResponse_of_answered (hpost json h), eq_comm]

/-- A scan succeeds if and only if the requests for all batches do, and then it has found the
packages with an advisory, with all their advisories and in their order. -/
theorem scan_eq_ok_iff {post : JsonValue → Result JsonValue} {advisories : Advisories}
    {ecosystem : String}
    (hpost : ∀ batch json, batch.length ≤ maxBatch →
      post (buildQuery batch ecosystem) = .ok json → Answered advisories ecosystem batch json)
    (packages : List InstalledPackage) (found : List VulnerablePackage) :
    scan post packages ecosystem = .ok found ↔
      (∀ batch ∈ chunks maxBatch packages, ∃ json, post (buildQuery batch ecosystem) = .ok json) ∧
        found = packages.filterMap (vulnerable advisories ecosystem) := by
  have hflat : (chunks maxBatch packages).flatMap
      (fun batch => batch.filterMap (vulnerable advisories ecosystem)) =
        packages.filterMap (vulnerable advisories ecosystem) := by
    conv_rhs => rw [← flatten_chunks (by decide : maxBatch ≠ 0) packages]
    rw [List.filterMap_flatten, List.flatMap_def]
  rw [scan, foldlM_append_eq_ok_iff fun batch hbatch part =>
    queryChunk_eq_ok_iff (ne_nil_of_mem_chunks hbatch) fun json =>
      hpost batch json (length_le_of_mem_chunks hbatch), hflat, List.nil_append]

/-! ## The installed packages -/

/-- A line of a name and a version. -/
def linePair (line : List Char) : Option InstalledPackage :=
  match splitWhitespace line with
  | name :: version :: _ =>
    if name ≠ [] ∧ version ≠ [] then some ⟨String.ofList name, String.ofList version⟩ else none
  | _ => none

/-- The packages of a listing with one line each. -/
def linePairs (stdout : String) : List InstalledPackage :=
  (lines stdout.toList).filterMap linePair

/-- The lines of `dpkg-query -W`. -/
def parseDpkgInstalled (stdout : String) : List InstalledPackage := linePairs stdout

/-- The lines of `rpm -qa`. -/
def parseRpmInstalled (stdout : String) : List InstalledPackage := linePairs stdout

/-- The lines of `pacman -Q`. -/
def parsePacmanInstalled (stdout : String) : List InstalledPackage := linePairs stdout

/-- The text begins with an ASCII digit. -/
def startsWithDigit (s : List Char) : Bool := s.head?.any Char.isDigit

/-- Split a name and a version at the last dash before a digit. -/
def splitNameVersion : List Char → Option (List Char × List Char)
  | [] => none
  | c :: s =>
    match splitNameVersion s with
    | some (name, version) => some (c :: name, version)
    | none => if c = '-' ∧ startsWithDigit s then some ([], s) else none

/-- A line of `apk info -v`. -/
def apkInstalled (line : List Char) : Option InstalledPackage :=
  (splitNameVersion (trim line)).map fun p => ⟨String.ofList p.1, String.ofList p.2⟩

/-- The lines of `apk info -v`. -/
def parseApkInstalled (stdout : String) : List InstalledPackage :=
  (lines stdout.toList).filterMap apkInstalled

/-- What a command that is run says: whether it ran, whether it succeeded, and its output. -/
abbrev Probe := String → List String → Bool × Bool × String × String

/-- List the packages with a tool; without the tool there is an error. -/
def listWith (probe : Probe) (manager : String) (tool : Command)
    (parse : String → List InstalledPackage) : Result (List InstalledPackage) :=
  let (ran, _ok, out, _err) := probe tool.1 tool.2
  if ¬ ran then .error (.provider manager ("`" ++ tool.1 ++ "` not available")) else .ok (parse out)

/-- The tool for the packages of apt. -/
def aptListTool : Command :=
  ("dpkg-query", ["-W", "-f", "$\x7bPackage\x7d $\x7bVersion\x7d\n"])

/-- The tool for the packages of dnf. -/
def dnfListTool : Command := ("rpm", ["-qa", "--qf", "%\x7bNAME\x7d %\x7bVERSION\x7d\n"])

/-- The tool for the packages of pacman. -/
def pacmanListTool : Command := ("pacman", ["-Q"])

/-- The tool for the packages of apk. -/
def apkListTool : Command := ("apk", ["info", "-v"])

/-- The packages of a manager; one that is not built in lists none. -/
def listInstalledPackages (probe : Probe) (m : PackageManager) : Result (List InstalledPackage) :=
  if m.name = "apt" then listWith probe "apt" aptListTool parseDpkgInstalled
  else if m.name = "dnf" then listWith probe "dnf" dnfListTool parseRpmInstalled
  else if m.name = "pacman" then listWith probe "pacman" pacmanListTool parsePacmanInstalled
  else if m.name = "apk" then listWith probe "apk" apkListTool parseApkInstalled
  else .ok []

/-- The name of the ecosystem in the database; Arch Linux has none. -/
def osvEcosystem (os : HostOs) (m : PackageManager) : Option String :=
  if m.name = "apt" then some (if os.matches "ubuntu" then "Ubuntu" else "Debian")
  else if m.name = "dnf" then
    some (if os.matches "rocky" then "Rocky Linux"
      else if os.matches "almalinux" then "AlmaLinux" else "Red Hat")
  else if m.name = "apk" then some "Alpine"
  else none

/-- The scan of a host; a listing that fails counts as empty. -/
def scanVulnerabilities (path : SearchPath) (os : HostOs) (managers : List PackageManager)
    (probe : Probe) (post : JsonValue → Result JsonValue) : Result (List VulnerablePackage) :=
  match activeManager path os managers with
  | none => .ok []
  | some m =>
    match osvEcosystem os m with
    | none => .ok []
    | some ecosystem =>
      let packages := (listInstalledPackages probe m).toOption.getD []
      if packages = [] then .ok [] else scan post packages ecosystem

/-! ## The listings are read -/

/-- A version that `splitNameVersion` finds: it begins with a digit, and no dash in it comes before
another. -/
def VersionLike (version : List Char) : Prop :=
  startsWithDigit version ∧ ∀ a b, version = a ++ '-' :: b → ¬ startsWithDigit b

theorem splitNameVersion_eq_none_iff {s : List Char} :
    splitNameVersion s = none ↔ ∀ a b, s = a ++ '-' :: b → ¬ startsWithDigit b := by
  induction s with
  | nil => simp [splitNameVersion]
  | cons c s ih =>
    rw [splitNameVersion]
    cases hs : splitNameVersion s with
    | some p =>
      -- the dash that was found stands behind this character too
      simp only [reduceCtorEq, false_iff, not_forall]
      rw [hs] at ih
      simp only [reduceCtorEq, false_iff, not_forall] at ih
      obtain ⟨a, b, rfl, hb⟩ := ih
      exact ⟨c :: a, b, rfl, hb⟩
    | none =>
      have hnone := ih.1 hs
      simp only [ite_eq_right_iff, reduceCtorEq, imp_false]
      constructor
      · rintro hc (_ | ⟨d, a⟩) b hab hb
        · obtain ⟨rfl, rfl⟩ := List.cons.inj hab
          exact hc ⟨rfl, hb⟩
        · exact hnone a b (List.cons.inj hab).2 hb
      · rintro h ⟨rfl, hdigit⟩
        exact h [] s rfl hdigit

theorem versionLike_iff {version : List Char} :
    VersionLike version ↔ startsWithDigit version ∧ splitNameVersion version = none :=
  and_congr_right fun _ => splitNameVersion_eq_none_iff.symm

instance (version : List Char) : Decidable (VersionLike version) :=
  decidable_of_iff _ versionLike_iff.symm

theorem splitNameVersion_append {name version : List Char} (h : VersionLike version) :
    splitNameVersion (name ++ '-' :: version) = some (name, version) := by
  obtain ⟨hdigit, hnone⟩ := versionLike_iff.1 h
  induction name with
  | nil => rw [List.nil_append, splitNameVersion, hnone]; simp [hdigit]
  | cons c name ih => rw [List.cons_append, splitNameVersion, ih]

/-- What is split off is a version of that shape. -/
theorem versionLike_of_splitNameVersion {s name version : List Char}
    (h : splitNameVersion s = some (name, version)) : VersionLike version := by
  induction s generalizing name with
  | nil => cases h
  | cons c s ih =>
    rw [splitNameVersion] at h
    cases hs : splitNameVersion s with
    | some p =>
      rw [hs] at h
      obtain ⟨_, rfl⟩ := Prod.mk.inj (Option.some.inj h)
      exact ih hs
    | none =>
      rw [hs] at h
      simp only [Option.ite_none_right_eq_some, Option.some.injEq, Prod.mk.injEq] at h
      obtain ⟨⟨_, hdigit⟩, _, rfl⟩ := h
      exact versionLike_iff.2 ⟨hdigit, hs⟩

theorem splitNameVersion_append_iff {name version : List Char} :
    splitNameVersion (name ++ '-' :: version) = some (name, version) ↔ VersionLike version :=
  ⟨versionLike_of_splitNameVersion, splitNameVersion_append⟩

/-- A package whose name and version are words, as the packages of all managers are. -/
def InstalledPackage.IsPlain (p : InstalledPackage) : Prop :=
  IsWord p.name.toList ∧ IsWord p.version.toList

instance (p : InstalledPackage) : Decidable p.IsPlain := inferInstanceAs (Decidable (_ ∧ _))

/-- The line of a package in the listing of its manager. -/
def PackageManager.line (m : PackageManager) (p : InstalledPackage) : List Char :=
  p.name.toList ++ (if m.name = "apk" then '-' else ' ') :: p.version.toList

/-- What the tool of the manager prints for some packages. -/
def PackageManager.listing (m : PackageManager) (installed : List InstalledPackage) : String :=
  String.ofList ((installed.map m.line).flatMap fun l => l ++ ['\n'])

theorem PackageManager.isLine (m : PackageManager) {p : InstalledPackage} (hp : p.IsPlain) :
    '\n' ∉ m.line p ∧ (m.line p).getLast? ≠ some '\r' := by
  have hword : ∀ {c : Char}, isWhiteSpace c → c ∉ p.name.toList ∧ c ∉ p.version.toList :=
    fun hc => ⟨fun h => by simp [hp.1.2 _ h] at hc, fun h => by simp [hp.2.2 _ h] at hc⟩
  have hlf := hword (c := '\n') (by decide)
  have hcr := hword (c := '\r') (by decide)
  constructor
  · rw [PackageManager.line]
    split_ifs <;> simp [hlf]
  · intro h
    have hmem := List.mem_of_mem_getLast? h
    rw [PackageManager.line] at hmem
    split_ifs at hmem <;> simp [hcr] at hmem

theorem PackageManager.lines_listing (m : PackageManager) {installed : List InstalledPackage}
    (h : ∀ p ∈ installed, p.IsPlain) :
    lines (m.listing installed).toList = installed.map m.line := by
  rw [PackageManager.listing, String.toList_ofList, lines_flatMap]
  simpa using fun p hp => m.isLine (h p hp)

theorem linePair_line {m : PackageManager} (hm : m.name ≠ "apk") {p : InstalledPackage}
    (hp : p.IsPlain) : linePair (m.line p) = some p := by
  have hwords : splitWhitespace (m.line p) = [p.name.toList, p.version.toList] := by
    rw [PackageManager.line, if_neg hm, splitWhitespace_word_append hp.1, splitWhitespace_word hp.2]
  rw [linePair, hwords]
  simp [hp.1.1, hp.2.1]

theorem apkInstalled_line_iff {m : PackageManager} (hm : m.name = "apk") {p : InstalledPackage}
    (hp : p.IsPlain) : apkInstalled (m.line p) = some p ↔ VersionLike p.version.toList := by
  have htrim : trim (m.line p) = m.line p := by
    have hword : IsWord (m.line p) := by
      rw [PackageManager.line, if_pos hm]
      exact hp.1.append (List.forall_mem_cons.2 ⟨by decide, hp.2.2⟩)
    exact trim_eq_self (fun c hc => hword.2 c (List.mem_of_mem_head? hc))
      fun c hc => hword.2 c (List.mem_of_mem_getLast? hc)
  rw [← @splitNameVersion_append_iff p.name.toList, apkInstalled, htrim,
    PackageManager.line, if_pos hm, Option.map_eq_some_iff]
  constructor
  · rintro ⟨⟨name, version⟩, hsplit, rfl⟩
    simpa using hsplit
  · intro hsplit
    exact ⟨_, hsplit, by simp⟩

/-- The built-in managers, each with the tool that lists its packages. -/
def listTools : List (PackageManager × Command) :=
  [(aptPackageManager, aptListTool), (dnfPackageManager, dnfListTool),
    (pacmanPackageManager, pacmanListTool), (apkPackageManager, apkListTool)]

/-- The tool of a manager prints the packages that are installed. -/
def Prints (probe : Probe) (m : PackageManager) (installed : List InstalledPackage) : Prop :=
  ∃ tool, (m, tool) ∈ listTools ∧
    ∃ ok err, probe tool.1 tool.2 = (true, ok, m.listing installed, err)

theorem listWith_eq_ok {probe : Probe} {manager out err : String} {tool : Command} {ok : Bool}
    {parse : String → List InstalledPackage} (h : probe tool.1 tool.2 = (true, ok, out, err)) :
    listWith probe manager tool parse = .ok (parse out) := by
  simp [listWith, h]

/-- Each line of the listing is read by the reader of the manager. -/
theorem listInstalledPackages_of_prints {probe : Probe} {m : PackageManager}
    {installed : List InstalledPackage} (hplain : ∀ p ∈ installed, p.IsPlain)
    (hprints : Prints probe m installed) :
    listInstalledPackages probe m = .ok ((installed.map m.line).filterMap
      (if m.name = "apk" then apkInstalled else linePair)) := by
  obtain ⟨tool, htool, ok, err, hprobe⟩ := hprints
  rw [← m.lines_listing hplain]
  simp only [listTools, List.mem_cons, Prod.mk.injEq, List.not_mem_nil, or_false] at htool
  rcases htool with ⟨rfl, rfl⟩ | ⟨rfl, rfl⟩ | ⟨rfl, rfl⟩ | ⟨rfl, rfl⟩ <;>
  exact listWith_eq_ok hprobe

theorem filterMap_line_eq_self_iff {m : PackageManager} {installed : List InstalledPackage}
    (hplain : ∀ p ∈ installed, p.IsPlain) :
    (installed.map m.line).filterMap (if m.name = "apk" then apkInstalled else linePair) =
        installed ↔
      (m.name = "apk" → ∀ p ∈ installed, VersionLike p.version.toList) := by
  rw [filterMap_map_eq_self_iff]
  by_cases hm : m.name = "apk"
  · simp only [hm, forall_const]
    exact forall₂_congr fun p hp => apkInstalled_line_iff hm (hplain p hp)
  · simp only [hm, IsEmpty.forall_iff, iff_true]
    exact fun p hp => linePair_line hm (hplain p hp)

/-- The listing of the installed packages is read back, always for the managers that print the name
and the version as two words, and for `apk` if and only if every version begins with a digit and has
no dash before another digit. -/
theorem listInstalledPackages_eq_iff {probe : Probe} {m : PackageManager}
    {installed : List InstalledPackage} (hplain : ∀ p ∈ installed, p.IsPlain)
    (hprints : Prints probe m installed) :
    listInstalledPackages probe m = .ok installed ↔
      (m.name = "apk" → ∀ p ∈ installed, VersionLike p.version.toList) := by
  rw [listInstalledPackages_of_prints hplain hprints, Except.ok.injEq,
    filterMap_line_eq_self_iff hplain]

/-- The packages that a scan asks about: what the listing returned, none where it failed. -/
def scannedPackages (probe : Probe) (m : PackageManager) : List InstalledPackage :=
  (listInstalledPackages probe m).toOption.getD []

/-- The scan of a host succeeds if and only if the database answers for all batches, and then it
reports the listed packages with an advisory in the ecosystem of the host; where the database has no
such ecosystem, or the listing failed, it reports none. -/
theorem scanVulnerabilities_eq_ok_iff {path : SearchPath} {os : HostOs}
    {managers : List PackageManager} {probe : Probe} {post : JsonValue → Result JsonValue}
    {advisories : Advisories} {m : PackageManager} (hactive : activeManager path os managers = some m)
    (hpost : ∀ ecosystem batch json, batch.length ≤ maxBatch →
      post (buildQuery batch ecosystem) = .ok json → Answered advisories ecosystem batch json)
    (found : List VulnerablePackage) :
    scanVulnerabilities path os managers probe post = .ok found ↔
      (∀ ecosystem ∈ osvEcosystem os m, ∀ batch ∈ chunks maxBatch (scannedPackages probe m),
        ∃ json, post (buildQuery batch ecosystem) = .ok json) ∧
      found = (osvEcosystem os m).elim [] fun ecosystem =>
        (scannedPackages probe m).filterMap (vulnerable advisories ecosystem) := by
  rw [scanVulnerabilities, hactive]
  cases heco : osvEcosystem os m with
  | none => simp [heco, @eq_comm _ [] found]
  | some ecosystem =>
    have hscan := scan_eq_ok_iff (hpost ecosystem) (scannedPackages probe m) found
    simp only [heco, Option.mem_def, Option.some_inj, forall_eq', Option.elim_some]
    rw [← hscan, ← scannedPackages]
    split_ifs with hempty
    · rw [hempty, scan, chunks, if_pos (.inl rfl)]
      rfl
    · rfl

/-! ### An Alpine host -/

/-- An Alpine Linux host. -/
def alpine : HostOs := ⟨"linux", "alpine", [], "Alpine Linux v3.19"⟩

/-- Two packages of the host. -/
def alpinePackages : List InstalledPackage := [⟨"musl", "1.2.4-r2"⟩, ⟨"py3-pip", "23.3.1-r0"⟩]

/-- Its package tool lists them. -/
def alpineProbe : Probe := fun _ _ => (true, true, apkPackageManager.listing alpinePackages, "")

theorem alpine_prints : Prints alpineProbe apkPackageManager alpinePackages :=
  ⟨apkListTool, by decide, true, "", rfl⟩

/-- One advisory, about `musl`. -/
def muslAdvisories : Advisories := fun _ p => if p.name = "musl" then ["ALPINE-1"] else []

/-- A database with that advisory. -/
def muslPost : JsonValue → Result JsonValue
  | .object [("queries", .array queries)] =>
    .ok (.object [("results", .array (queries.map fun q =>
      match ((q.get "package").bind (JsonValue.get "name")).bind JsonValue.asStr with
      | some name => .object
          (if name = "musl" then
            [("vulns", .array [.object [("id", .string "ALPINE-1")]])] else [])
      | none => .object []))])
  | _ => .error (.provider "osv" "query failed: status code 400")

theorem muslPost_answered (ecosystem : String) (batch : List InstalledPackage) (json : JsonValue)
    (_ : batch.length ≤ maxBatch) (h : muslPost (buildQuery batch ecosystem) = .ok json) :
    Answered muslAdvisories ecosystem batch json := by
  cases h
  refine ⟨_, rfl, ?_⟩
  rw [List.forall₂_map_right_iff, List.forall₂_map_right_iff, List.forall₂_same]
  intro p _
  by_cases hp : p.name = "musl"
  · refine .inr ⟨[.object [("id", .string "ALPINE-1")]], ?_, ?_⟩
    · simp [query, JsonValue.get, JsonValue.asStr, hp]
    · simp [muslAdvisories, hp, JsonValue.get]
  · refine .inl ⟨by simp [muslAdvisories, hp], ?_⟩
    simp [query, JsonValue.get, JsonValue.asStr, hp]

theorem listInstalledPackages_eq_iff_alpine :
    listInstalledPackages alpineProbe apkPackageManager = .ok alpinePackages :=
  (listInstalledPackages_eq_iff (by decide) alpine_prints).2 fun _ => by decide

theorem scanVulnerabilities_eq_ok_iff_alpine :
    scanVulnerabilities (usrBin ["apk"]) alpine [aptPackageManager, apkPackageManager] alpineProbe
      muslPost = .ok [⟨"musl", "1.2.4-r2", ["ALPINE-1"]⟩] :=
  (scanVulnerabilities_eq_ok_iff (m := apkPackageManager) (by decide) muslPost_answered _).2
    ⟨fun _ _ _ _ => ⟨_, rfl⟩, by decide⟩

end Platform

end OCF
