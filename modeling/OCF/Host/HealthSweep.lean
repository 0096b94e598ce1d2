import OCF.Host.HealthChecks
import OCF.Foundations.BTreeMap
import Mathlib.Data.String.Basic

/-!
# The health service

A sweep runs every registered check, skips the ones that fail, and sorts the findings by severity and
then by title. The checks are kept in a hash map, so they run in any order. A fix is asked for by the
name of a check and the id of a fix, as they stand in a finding.

What is shown for a node depends on the node only: no two findings of a sweep have the same title, so
the order of the checks is not seen (`run_eq_run`). Every fix that is offered is known
(`applyFix_of_offered`): the check that a finding names is registered under that name and has the fix, so
that something is done on the node, unless a tool or a file of the node fails.
-/

namespace OCF

namespace Health

open Text Platform

/-! ## The service -/

/-- The checks of `register_builtins`, in its order. -/
def builtinChecks : List (String × HealthCheck) :=
  [("ip-forwarding", ipForwardingCheck),
    ("netfilter", netfilterCheck),
    ("bridge-netfilter", bridgeNetfilterCheck),
    ("docker-experimental", dockerExperimentalCheck),
    ("ipv6-forwarding", ipv6Forwarding.healthCheck),
    ("conntrack-max", conntrackMax.healthCheck),
    ("inotify-instances", inotifyInstances.healthCheck),
    ("swap-disabled", swapCheck),
    ("time-sync", timeSyncCheck),
    ("service-docker", ServiceCheck.healthCheck
      { name := "service-docker", unit := "docker", wantEnabled := true })]

/-- The checks that the controller registers after them. -/
def platformChecks : List (String × HealthCheck) :=
  [("packages", packageCheck builtinCapabilities),
    ("security-updates", securityUpdateCheck),
    ("vulnerabilities", vulnerabilityCheck)]

/-- Register checks one after the other. -/
def registerAll (checks : List (String × HealthCheck)) (reg : Registry HealthCheck) :
    Result (Registry HealthCheck) :=
  checks.foldlM (fun reg e => reg.register e.1 e.2) reg

/-- Register the built-in checks. -/
def registerBuiltins (reg : Registry HealthCheck) : Result (Registry HealthCheck) :=
  registerAll builtinChecks reg

/-- All checks of the daemon. -/
def registrations : List (String × HealthCheck) := builtinChecks ++ platformChecks

/-- The registry of the daemon. -/
def registry : Registry HealthCheck :=
  (registerBuiltins ∅ >>= registerAll platformChecks).toOption.getD ∅

/-- The findings of all checks; a check that fails is skipped. -/
def findings (node : Node) (machineId : Id) (checks : List HealthCheck) : List HealthFinding :=
  checks.flatMap fun c => (c.check node machineId).toOption.getD []

/-- Most severe first, then by title. -/
def findingLe (a b : HealthFinding) : Bool :=
  b.severity.rank < a.severity.rank ∨ b.severity.rank = a.severity.rank ∧ a.title ≤ b.title

/-- A sweep, with the checks in the order they come out of the registry. -/
def run (node : Node) (machineId : Id) (checks : List HealthCheck) : List HealthFinding :=
  (findings node machineId checks).mergeSort findingLe

/-- Carry out a fix of a check. -/
def applyFix (reg : Registry HealthCheck) (node : Node) (e : Effects) (check fixId : String)
    (done : List Action) : Result String × List Action :=
  match reg.lookup check with
  | none => (.error (.notFound ("provider `" ++ check ++ "`")), done)
  | some c => c.applyFix node e fixId done

/-! ## The registry -/

theorem values_registry : HashMap.values registry = (registrations.map Prod.snd).reverse := rfl

theorem lookup_registry {e : String × HealthCheck} (he : e ∈ registrations) :
    registry.lookup e.2.name = some e.2 := by
  simp only [registrations, builtinChecks, platformChecks, List.cons_append, List.nil_append,
    List.mem_cons, List.not_mem_nil, or_false] at he
  rcases he with rfl | rfl | rfl | rfl | rfl | rfl | rfl | rfl | rfl | rfl | rfl | rfl | rfl <;> rfl

/-! ## What a check keeps to -/

/-- The beginning of a title, after the number it may begin with. -/
def kindOf (title : String) : List Char := (title.toList.dropWhile Char.isDigit).take 9

/-- The findings of a check name it, offer only fixes it has, and have different titles: each is of
one of these kinds, in their order. -/
structure Sound (c : HealthCheck) (kinds : List (List Char)) : Prop where
  owned : ∀ {node m fs}, c.check node m = .ok fs → ∀ f ∈ fs, f.check = c.name
  offered : ∀ {node m fs}, c.check node m = .ok fs → ∀ f ∈ fs, ∀ fix ∈ f.fixes, ∀ e,
    CarriedOut (c.applyFix node e fix.id [])
  kinds : ∀ {node m fs}, c.check node m = .ok fs → (fs.map fun f => kindOf f.title).Sublist kinds

/-- A check that reports at most one finding at a time. -/
theorem sound_of_atMostOne {c : HealthCheck} {kinds : List (List Char)}
    (h : ∀ {node m fs}, c.check node m = .ok fs → fs = [] ∨ ∃ f, fs = [f] ∧ f.check = c.name ∧
      (∀ fix ∈ f.fixes, ∀ e, CarriedOut (c.applyFix node e fix.id [])) ∧
        kindOf f.title ∈ kinds) :
    Sound c kinds where
  owned hc f hf := by
    rcases h hc with rfl | ⟨g, rfl, hname, -⟩
    · cases hf
    · rw [List.mem_singleton.1 hf, hname]
  offered hc f hf := by
    rcases h hc with rfl | ⟨g, rfl, -, hfix, -⟩
    · cases hf
    · rw [List.mem_singleton.1 hf]
      exact hfix
  kinds hc := by
    rcases h hc with rfl | ⟨g, rfl, -, -, hkind⟩
    · exact List.nil_sublist _
    · rwa [List.map_singleton, List.singleton_sublist]

theorem mergeExperimental_eq_error {e : Effects} {existing : String} {err : Error}
    (h : e.mergeExperimental existing = .error err) : ∃ reason, err = .provider "docker" reason := by
  unfold Effects.mergeExperimental at h
  split_ifs at h
  · cases h
  · cases hparse : e.fromStr existing with
    | error msg =>
      rw [hparse] at h
      exact ⟨_, (Except.error.inj h).symm⟩
    | ok doc =>
      rw [hparse] at h
      cases h

/-- A step that succeeds has done something; one that fails has a tool or a file to blame. -/
theorem Step.exec_cases (e : Effects) (done : List Action) (step : Step) :
    (∃ a, step.exec e done = (.ok (), done ++ [a])) ∨
      ∃ tool reason, (step.exec e done).1 = .error (.provider tool reason) := by
  cases step with
  | writeSys path value =>
    rw [Step.exec, Effects.writeSys]
    cases e.write done path value with
    | error err => exact .inr ⟨_, _, rfl⟩
    | ok u => exact .inl ⟨_, rfl⟩
  | runFix c =>
    rw [Step.exec, Effects.runFix]
    rcases e.exec done c with err | ⟨_ | _, out, err⟩
    · exact .inr ⟨_, _, rfl⟩
    · exact .inr ⟨_, _, rfl⟩
    · exact .inl ⟨_, rfl⟩
  | run c => exact .inl ⟨_, rfl⟩
  | mergeExperimental path =>
    rw [Step.exec]
    cases hmerge : e.mergeExperimental ((e.read done path).getD "") with
    | error err =>
      obtain ⟨reason, rfl⟩ := mergeExperimental_eq_error hmerge
      exact .inr ⟨_, _, rfl⟩
    | ok merged =>
      dsimp only
      cases e.write done path merged with
      | error err => exact .inr ⟨_, _, rfl⟩
      | ok u => exact .inl ⟨_, rfl⟩

theorem applySteps_cases (e : Effects) (steps : List Step) (done : List Action) :
    (∃ more, applySteps e steps done = (.ok (), done ++ more) ∧ more.length = steps.length) ∨
      ∃ tool reason, (applySteps e steps done).1 = .error (.provider tool reason) := by
  induction steps generalizing done with
  | nil => exact .inl ⟨[], by simp [applySteps], rfl⟩
  | cons step steps ih =>
    rw [applySteps]
    rcases Step.exec_cases e done step with ⟨a, hstep⟩ | ⟨tool, reason, hstep⟩
    · rw [hstep]
      rcases ih (done ++ [a]) with ⟨more, hmore, hlen⟩ | herror
      · exact .inl ⟨a :: more, by simp [hmore], by simp [hlen]⟩
      · exact .inr herror
    · rcases hrun : step.exec e done with ⟨answer, done'⟩
      rw [hrun] at hstep
      obtain rfl : answer = _ := hstep
      exact .inr ⟨tool, reason, rfl⟩

/-- A fix that has steps is carried out. -/
theorem carriedOut_oneFix {steps : List Step} (hsteps : steps ≠ []) (fixId message : String)
    (node : Node) (e : Effects) : CarriedOut (oneFix fixId steps message node e fixId []) := by
  rw [oneFix, if_neg (not_not.2 rfl)]
  rcases applySteps_cases e steps [] with ⟨more, hmore, hlen⟩ | ⟨tool, reason, herror⟩
  · rw [hmore]
    refine .inl ⟨⟨message, rfl⟩, fun hnil => hsteps ?_⟩
    obtain rfl : more = [] := hnil
    exact List.length_eq_zero_iff.1 hlen.symm
  · rcases hrun : applySteps e steps [] with ⟨answer, done⟩
    rw [hrun] at herror
    obtain rfl : answer = _ := herror
    exact .inr ⟨tool, reason, rfl⟩

/-- What the platform service carries out is carried out. -/
theorem carriedOut_platform {e : Effects}
    {session : Shell → List Command → Result String × List Command}
    (h : ∀ shell, CarriedOut (session shell [])) : CarriedOut (e.platform session []) := by
  refine (h _).imp (fun hok => ⟨hok.1, fun hnil => hok.2 ?_⟩) id
  simpa [Effects.platform] using hnil

/-- A check with one fix. -/
theorem sound_of_oneFix {c : HealthCheck} {fixId message : String} {steps : List Step}
    {kind : List Char}
    (hfix : ∀ node e id done, c.applyFix node e id done = oneFix fixId steps message node e id done)
    (hsteps : steps ≠ [])
    (h : ∀ {node m fs}, c.check node m = .ok fs → fs = [] ∨ ∃ f, fs = [f] ∧ f.check = c.name ∧
      f.fixes.map FixAction.id = [fixId] ∧ kindOf f.title = kind) :
    Sound c [kind] := by
  refine sound_of_atMostOne fun {node m fs} hc => ?_
  rcases h hc with rfl | ⟨f, rfl, hname, hids, hkind⟩
  · exact .inl rfl
  · refine .inr ⟨f, rfl, hname, fun fix hmem e => ?_, List.mem_singleton.2 hkind⟩
    have hid : fix.id = fixId := by
      have hmem' := List.mem_map_of_mem (f := FixAction.id) hmem
      rwa [hids, List.mem_singleton] at hmem'
    rw [hfix, hid]
    exact carriedOut_oneFix hsteps fixId message node e

/-! ## The checks -/

/-- A check that reads one file reports nothing, or what it makes of the text. -/
theorem eq_of_readSys {node : Node} {path : String} {g : String → List HealthFinding}
    {fs : List HealthFinding}
    (h : (do match ← node.readSys path with
      | none => return []
      | some value => return g value) = Except.ok (ε := Error) fs) :
    fs = [] ∨ ∃ value, fs = g value := by
  obtain ⟨o, -, h⟩ := ok_of_bind h
  cases o with
  | none => exact .inl (Except.ok.inj h).symm
  | some value => exact .inr ⟨value, (Except.ok.inj h).symm⟩

theorem sound_ipForwarding : Sound ipForwardingCheck [kindOf "IP forwarding not enabled on kernel"] := by
  refine sound_of_oneFix (fun _ _ _ _ => by rw [ipForwardingCheck]) (by simp) fun {node m fs} h => ?_
  rcases eq_of_readSys h with rfl | ⟨value, rfl⟩
  · exact .inl rfl
  · split_ifs
    · exact .inl rfl
    · exact .inr ⟨_, rfl, rfl, rfl, rfl⟩

theorem sound_netfilter : Sound netfilterCheck [kindOf "Netfilter (nf_tables) not enabled on kernel"] := by
  refine sound_of_oneFix (fun _ _ _ _ => by rw [netfilterCheck]) (by simp) fun {node m fs} h => ?_
  rcases eq_of_readSys h with rfl | ⟨modules, rfl⟩
  · exact .inl rfl
  · split_ifs
    · exact .inl rfl
    · exact .inr ⟨_, rfl, rfl, rfl, rfl⟩

theorem sound_bridgeNetfilter : Sound bridgeNetfilterCheck [kindOf "Bridge netfilter not calling iptables"] := by
  refine sound_of_oneFix (fun _ _ _ _ => by rw [bridgeNetfilterCheck]) (by simp) fun {node m fs} h => ?_
  obtain ⟨absent, -, h⟩ := ok_of_bind h
  split_ifs at h
  · exact .inl (Except.ok.inj h).symm
  · obtain ⟨value, -, h⟩ := ok_of_bind h
    split_ifs at h
    · exact .inr ⟨_, (Except.ok.inj h).symm, rfl, rfl, rfl⟩
    · exact .inl (Except.ok.inj h).symm

theorem sound_dockerExperimental : Sound dockerExperimentalCheck [kindOf "Docker experimental features not enabled"] := by
  refine sound_of_oneFix (fun _ _ _ _ => by rw [dockerExperimentalCheck]) (by simp) fun {node m fs} h => ?_
  simp only [dockerExperimentalCheck] at h
  split_ifs at h
  · exact .inl (Except.ok.inj h).symm
  · exact .inl (Except.ok.inj h).symm
  · exact .inr ⟨_, (Except.ok.inj h).symm, rfl, rfl, rfl⟩

theorem sound_sysctl (c : SysctlCheck) : Sound c.healthCheck [kindOf c.title] := by
  refine sound_of_oneFix (fun _ _ _ _ => by rw [SysctlCheck.healthCheck]) (by simp) fun {node m fs} h => ?_
  rcases eq_of_readSys h with rfl | ⟨value, rfl⟩
  · exact .inl rfl
  · split_ifs
    · exact .inl rfl
    · exact .inr ⟨_, rfl, rfl, rfl, rfl⟩

theorem sound_swap : Sound swapCheck [kindOf "Swap is enabled"] := by
  refine sound_of_oneFix (fun _ _ _ _ => by rw [swapCheck]) (by simp) fun {node m fs} h => ?_
  rcases eq_of_readSys h with rfl | ⟨swaps, rfl⟩
  · exact .inl rfl
  · split_ifs
    · exact .inr ⟨_, rfl, rfl, rfl, rfl⟩
    · exact .inl rfl

theorem timeSync_loop (node : Node) (m : Id) (units : List String) :
    TimeSync.loop node m units = [] ∨ TimeSync.loop node m units = [TimeSync.finding m] := by
  induction units with
  | nil => exact .inr rfl
  | cons unit units ih =>
    rw [TimeSync.loop]
    split_ifs
    · exact .inl rfl
    · exact ih
    · exact .inl rfl

theorem sound_timeSync : Sound timeSyncCheck [kindOf "No time synchronization service active"] := by
  refine sound_of_oneFix (fun _ _ _ _ => by rw [timeSyncCheck]) (by simp) fun {node m fs} h => ?_
  obtain rfl := Except.ok.inj h
  rcases timeSync_loop node m timesyncUnits with h | h
  · exact .inl h
  · exact .inr ⟨_, h, rfl, rfl, rfl⟩

theorem sound_service (c : ServiceCheck) : Sound c.healthCheck ["Service `".toList] := by
  refine sound_of_oneFix (fun _ _ _ _ => by rw [ServiceCheck.healthCheck]) (by simp) fun {node m fs} h => ?_
  have htitle : ∀ isActive, kindOf (c.title isActive) = "Service `".toList := by
    intro isActive
    rw [ServiceCheck.title]
    split_ifs <;> simp [kindOf]
  simp only [ServiceCheck.healthCheck] at h
  split_ifs at h
  · exact .inl (Except.ok.inj h).symm
  · exact .inl (Except.ok.inj h).symm
  · exact .inr ⟨_, (Except.ok.inj h).symm, rfl, rfl, htitle _⟩
  · exact .inl (Except.ok.inj h).symm

theorem kindOf_number (n : ℕ) {text : String} (h : startsWithDigit text.toList = false) :
    kindOf (toString n ++ text) = text.toList.take 9 := by
  have hdigits : ∀ d ∈ (toString n).toList, d.isDigit := by
    intro d hd
    have hd' : d ∈ Nat.toDigits 10 n := by simpa [toString, Nat.repr] using hd
    exact Nat.isDigit_of_mem_toDigits (by decide) (by decide) hd'
  have hrest : text.toList.dropWhile Char.isDigit = text.toList := by
    cases htext : text.toList with
    | nil => rfl
    | cons c rest =>
      rw [htext] at h
      rw [List.dropWhile_cons_of_neg (by simpa [startsWithDigit] using h)]
  rw [kindOf, String.toList_append, List.dropWhile_append_of_pos hdigits, hrest]

/-- The kinds of the titles about updates. -/
def updateKinds : List (List Char) := [" security".toList, " package ".toList]

/-- Where the manager of the node can apply updates, they are applied or a tool fails. -/
theorem carriedOut_applyPending {node : Node} {pm : PackageManager}
    (hpm : node.activeManager = some pm) (hname : pm.name ∈ updatable) (e : Effects)
    (securityOnly : Bool) : CarriedOut (e.platform (applyPending node securityOnly) []) := by
  refine carriedOut_platform fun shell => ?_
  have hactive : Platform.activeManager node.path node.os node.managers = some pm := hpm
  simp only [applyPending, applyUpdates, hactive]
  exact carriedOut_applyUpdatesWith shell hname securityOnly []

theorem sound_securityUpdate : Sound securityUpdateCheck updateKinds := by
  refine sound_of_atMostOne fun {node m fs} h => ?_
  simp only [securityUpdateCheck] at h
  split_ifs at h with hnone
  · exact .inl (Except.ok.inj h).symm
  · obtain rfl := Except.ok.inj h
    obtain ⟨pm, hpm, hname⟩ := updatable_of_pending (not_or.1 hnone).2
    have hall : ∀ e, CarriedOut (securityUpdateCheck.applyFix node e fixAll []) :=
      fun e => carriedOut_applyPending hpm hname e false
    have hsecurity : ∀ e, CarriedOut (securityUpdateCheck.applyFix node e fixSecurity []) :=
      fun e => carriedOut_applyPending hpm hname e true
    refine .inr ⟨_, rfl, ?_⟩
    rw [SecurityUpdate.finding]
    split_ifs
    · refine ⟨rfl, List.forall_mem_cons.2 ⟨hsecurity, List.forall_mem_singleton.2 hall⟩, ?_⟩
      simp only [HealthFinding.withFix, HealthFinding.new]
      rw [kindOf_number _ (by decide)]
      decide
    · refine ⟨rfl, List.forall_mem_singleton.2 hall, ?_⟩
      simp only [HealthFinding.withFix, HealthFinding.new]
      rw [kindOf_number _ (by decide)]
      decide

theorem sound_vulnerability : Sound vulnerabilityCheck [" vulnerab".toList] := by
  refine sound_of_atMostOne fun {node m fs} h => ?_
  have htitle : ∀ n k : ℕ, kindOf (toString n ++ " vulnerable package(s), " ++ toString k ++
      " advisories (OSV)") = " vulnerab".toList := by
    intro n k
    rw [String.append_assoc, String.append_assoc, kindOf_number _ (by simp [startsWithDigit]),
      String.toList_append, List.take_append_of_le_length (by decide)]
    decide
  simp only [vulnerabilityCheck] at h
  split at h
  · exact .inl (Except.ok.inj h).symm
  · rename_i vulns hscan
    obtain rfl := Except.ok.inj h
    split_ifs with hempty
    · exact .inl rfl
    · obtain ⟨pm, hpm, hname⟩ := updatable_of_scanned hscan hempty
      refine .inr ⟨_, rfl, rfl, List.forall_mem_singleton.2 fun e => ?_,
        List.mem_singleton.2 (htitle _ _)⟩
      exact carriedOut_applyPending hpm hname e false

/-- The title and the name are those of the capability, and a fix is offered for a package only. -/
theorem packageFinding_cases (node : Node) (pm : PackageManager) (m : Id) (c : Capability) :
    (PackageCheck.finding node pm m c).check = "packages" ∧
      (PackageCheck.finding node pm m c).title = PackageCheck.title c ∧
      ∀ fix ∈ (PackageCheck.finding node pm m c).fixes,
        fix.id = PackageCheck.fixPrefix ++ c.name ∧ ∃ package, c.packageFor pm.name = some package := by
  rw [PackageCheck.finding]
  cases c.packageFor pm.name with
  | none => exact ⟨rfl, rfl, fun fix hfix => absurd hfix List.not_mem_nil⟩
  | some package => exact ⟨rfl, rfl, List.forall_mem_singleton.2 ⟨rfl, package, rfl⟩⟩

/-- A package of a built-in capability is installed by its manager, or a tool fails. -/
theorem carriedOut_install {c : Capability} (hc : c ∈ builtinCapabilities) {pm : PackageManager}
    {package : String} (h : c.packageFor pm.name = some package) (shell : Shell) :
    CarriedOut (install shell pm package []) := by
  have hnames : pm.name ∈ ["apt", "dnf", "pacman", "apk"] := by
    have hkeys : c.packages.map Prod.fst = ["apt", "dnf", "pacman", "apk"] := by
      simp only [builtinCapabilities, List.mem_cons, List.not_mem_nil, or_false] at hc
      rcases hc with rfl | rfl | rfl | rfl | rfl <;> rfl
    obtain ⟨before, after, hpackages, -⟩ := List.lookup_eq_some_iff.1 h
    rw [← hkeys, hpackages]
    simp
  unfold install
  split_ifs with hapt hdnf hpacman hapk
  · exact shell.carriedOut_runThen ..
  · exact shell.carriedOut_runThen ..
  · exact shell.carriedOut_runThen ..
  · exact shell.carriedOut_runThen ..
  · simp [hapt, hdnf, hpacman, hapk] at hnames

theorem find_builtinCapability {c : Capability} (hc : c ∈ builtinCapabilities) :
    builtinCapabilities.find? (fun c' => c'.name = c.name) = some c := by
  simp only [builtinCapabilities, List.mem_cons, List.not_mem_nil, or_false] at hc
  rcases hc with rfl | rfl | rfl | rfl | rfl <;> rfl

/-- The kinds of the titles about packages. -/
def packageKinds : List (List Char) :=
  builtinCapabilities.map fun c => kindOf (PackageCheck.title c)

theorem sound_package : Sound (packageCheck builtinCapabilities) packageKinds := by
  have hcases : ∀ {node m fs}, (packageCheck builtinCapabilities).check node m = .ok fs →
      fs = [] ∨ ∃ pm, node.activeManager = some pm ∧
        fs = (builtinCapabilities.filter fun c => ¬ c.isPresent node.path).map
          (PackageCheck.finding node pm m) := by
    intro node m fs h
    simp only [packageCheck] at h
    cases hpm : node.activeManager with
    | none =>
      rw [hpm] at h
      exact .inl (Except.ok.inj h).symm
    | some pm =>
      rw [hpm] at h
      exact .inr ⟨pm, rfl, (Except.ok.inj h).symm⟩
  constructor
  · intro node m fs h f hf
    rcases hcases h with rfl | ⟨pm, -, rfl⟩
    · cases hf
    · obtain ⟨c, -, rfl⟩ := List.mem_map.1 hf
      exact (packageFinding_cases node pm m c).1
  · intro node m fs h f hf fix hfix e
    rcases hcases h with rfl | ⟨pm, hpm, rfl⟩
    · cases hf
    · obtain ⟨c, hmem, rfl⟩ := List.mem_map.1 hf
      have hc := (List.mem_filter.1 hmem).1
      obtain ⟨hid, package, hpackage⟩ := (packageFinding_cases node pm m c).2.2 fix hfix
      simp only [packageCheck, hid, stripPrefix_append, find_builtinCapability hc]
      refine carriedOut_platform fun shell => ?_
      simp only [installCapability, hpm, hpackage]
      exact carriedOut_install hc hpackage shell
  · intro node m fs h
    rcases hcases h with rfl | ⟨pm, -, rfl⟩
    · exact List.nil_sublist _
    · rw [List.map_map, packageKinds]
      have htitles : (fun f => kindOf f.title) ∘ PackageCheck.finding node pm m =
          fun c => kindOf (PackageCheck.title c) :=
        funext fun c => by rw [Function.comp_apply, (packageFinding_cases node pm m c).2.1]
      rw [htitles]
      exact (List.filter_sublist).map _

/-! ## The sweep -/

/-- The checks of the daemon with the kinds of their titles. -/
def kinds : List (HealthCheck × List (List Char)) :=
  (registrations.map Prod.snd).zip
    [[kindOf "IP forwarding not enabled on kernel"],
      [kindOf "Netfilter (nf_tables) not enabled on kernel"],
      [kindOf "Bridge netfilter not calling iptables"],
      [kindOf "Docker experimental features not enabled"],
      [kindOf ipv6Forwarding.title], [kindOf conntrackMax.title], [kindOf inotifyInstances.title],
      [kindOf "Swap is enabled"], [kindOf "No time synchronization service active"],
      ["Service `".toList], packageKinds, updateKinds, [" vulnerab".toList]]

theorem sound_of_mem_kinds {e : HealthCheck × List (List Char)} (he : e ∈ kinds) :
    Sound e.1 e.2 := by
  simp only [kinds, registrations, builtinChecks, platformChecks, List.cons_append, List.nil_append,
    List.map_cons, List.map_nil, List.zip_cons_cons, List.zip_nil_left,
    List.mem_cons, List.not_mem_nil, or_false] at he
  rcases he with rfl | rfl | rfl | rfl | rfl | rfl | rfl | rfl | rfl | rfl | rfl | rfl | rfl
  · exact sound_ipForwarding
  · exact sound_netfilter
  · exact sound_bridgeNetfilter
  · exact sound_dockerExperimental
  · exact sound_sysctl _
  · exact sound_sysctl _
  · exact sound_sysctl _
  · exact sound_swap
  · exact sound_timeSync
  · exact sound_service _
  · exact sound_package
  · exact sound_securityUpdate
  · exact sound_vulnerability

variable {node : Node} {m : Id}

theorem perm_kinds {checks : List HealthCheck} (h : checks.Perm (HashMap.values registry)) :
    checks.Perm (kinds.map Prod.fst) := by
  have hfst : kinds.map Prod.fst = registrations.map Prod.snd := rfl
  rw [values_registry] at h
  rw [hfst]
  exact h.trans (List.reverse_perm _)

/-- **Every fix that is offered is known.** Asking for a fix of a finding, by the name of the check and
the id that the finding carries, succeeds after something was done on the node, or fails because a tool
or a file of the node failed; it is never refused as unknown or as not supported. -/
theorem applyFix_of_offered {checks : List HealthCheck} (h : checks.Perm (HashMap.values registry))
    {f : HealthFinding} (hf : f ∈ run node m checks) {fix : FixAction} (hfix : fix ∈ f.fixes)
    (effects : Effects) : CarriedOut (applyFix registry node effects f.check fix.id []) := by
  obtain ⟨c, hc, hf⟩ := List.mem_flatMap.1 (List.mem_mergeSort.1 hf)
  obtain ⟨e, he, rfl⟩ := List.mem_map.1 ((perm_kinds h).mem_iff.1 hc)
  have hsound := sound_of_mem_kinds he
  cases hcheck : e.1.check node m with
  | error err => simp [hcheck, Except.toOption] at hf
  | ok fs =>
    rw [hcheck] at hf
    obtain ⟨r, hr, hre⟩ : ∃ r ∈ registrations, r.2 = e.1 :=
      List.mem_map.1 (List.of_mem_zip he).1
    have hlookup : registry.lookup f.check = some e.1 := by
      rw [hsound.owned hcheck f hf, ← hre]
      exact lookup_registry hr
    rw [applyFix, hlookup]
    exact hsound.offered hcheck f hf fix hfix effects

/-! ### A node that does not forward -/

/-- Forwarding is off and swap is on; there are no tools. -/
def swappingNode : Node where
  read path := if path = "/proc/sys/net/ipv4/ip_forward" then .text "0\n"
    else if path = "/proc/swaps" then .text "Filename Type Size\n/dev/sda2 partition 8388604\n"
    else .notFound
  run _ _ := ⟨false, false, "", ""⟩
  path := usrBin []
  os := ⟨"linux", "", [], ""⟩
  managers := []
  shell _ _ := .notSpawned "No such file or directory (os error 2)"
  post _ := .error (.provider "osv" "query failed")

/-- The node without root: no file can be written and there are no tools. -/
def unprivileged : Effects where
  exec _ _ := .notSpawned "No such file or directory (os error 2)"
  write _ _ _ := .error "Permission denied (os error 13)"
  read _ _ := none
  fromStr _ := .error "EOF while parsing a value at line 1 column 0"
  toStringPretty _ := ""

theorem applyFix_of_offered_swapping :
    IpForwarding.finding ⟨"node-1"⟩ ∈ run swappingNode ⟨"node-1"⟩ (HashMap.values registry) ∧
      CarriedOut (applyFix registry swappingNode unprivileged "ip-forwarding"
        "enable-ipv4-forwarding" []) ∧
      (applyFix registry swappingNode unprivileged "ip-forwarding" "enable-ipv4-forwarding" []).2 =
        [.write "/proc/sys/net/ipv4/ip_forward" "1"] := by
  have hfinding : IpForwarding.finding ⟨"node-1"⟩ ∈
      run swappingNode ⟨"node-1"⟩ (HashMap.values registry) := by
    refine List.mem_mergeSort.2 (List.mem_flatMap.2 ⟨ipForwardingCheck, ?_, ?_⟩)
    · rw [values_registry]
      simp [registrations, builtinChecks]
    · exact List.mem_singleton.2 rfl
  exact ⟨hfinding, applyFix_of_offered (List.Perm.refl _) hfinding List.mem_cons_self unprivileged, rfl⟩

end Health

end OCF
