import OCF.Core.Resource
import OCF.Foundations.Iptables
import OCF.Foundations.Text

/-!
# The iptables host firewall

The legacy backend of the host firewall. Applying a ruleset flushes the chains that it names and
adds its rules one by one; a flush empties the chains of the ruleset applied last, or every chain
when none is on record. A copy of that ruleset answers what is installed.

The chains are shared with whoever else programs the host, and only the chains of the new ruleset are
flushed. `declared_iff` says for which sequences of calls the kernel holds the foreign rules and,
after them, exactly the rules on record, at every point: no ruleset may name a chain with foreign
rules or leave out a chain of the ruleset before it, and a flush may find the record empty only on a
host without foreign rules.
-/

namespace OCF.Kernel

open Iptables Text

inductive FirewallAction
  | allow
  | deny
  deriving DecidableEq

/-- A single host firewall rule; what is not set matches anything. -/
structure FirewallRule where
  id : Id
  /-- The chain this rule attaches to. -/
  chain : String
  action : FirewallAction
  proto : Option String
  srcCidr : Option String
  dstCidr : Option String
  dport : Option UInt16
  deriving DecidableEq

/-- The chain of the filter table a rule goes to. -/
def FirewallRule.iptablesChain (rule : FirewallRule) : String :=
  String.ofList (rule.chain.toList.map Char.toUpper)

/-- The arguments that add a rule. A port needs a protocol; without one it is `tcp`. -/
def iptablesArgsFor (rule : FirewallRule) : List String :=
  ["-A", rule.iptablesChain] ++
    (match rule.proto with
      | some proto => ["-p", toAsciiLowercase proto]
      | none => if rule.dport.isSome then ["-p", "tcp"] else []) ++
    (match rule.srcCidr with
      | some src => ["-s", src]
      | none => []) ++
    (match rule.dstCidr with
      | some dst => ["-d", dst]
      | none => []) ++
    (match rule.dport with
      | some dport => ["--dport", toString dport.toNat]
      | none => []) ++
    ["-j", match rule.action with
      | .allow => "ACCEPT"
      | .deny => "DROP"]

/-- A rule as the kernel keeps it. -/
def FirewallRule.spec (rule : FirewallRule) : RuleSpec := (iptablesArgsFor rule).drop 2

theorem iptablesArgsFor_eq (rule : FirewallRule) :
    iptablesArgsFor rule = "-A" :: rule.iptablesChain :: rule.spec := by
  simp [FirewallRule.spec, iptablesArgsFor]

/-- The chains of a ruleset, each once. -/
def chainsOf (rules : List FirewallRule) : List String :=
  rules.foldl (fun chains rule =>
    if rule.iptablesChain ∉ chains then chains ++ [rule.iptablesChain] else chains) []

theorem mem_chainsOf {rules : List FirewallRule} {c : String} :
    c ∈ chainsOf rules ↔ ∃ r ∈ rules, r.iptablesChain = c := by
  have hfold : ∀ chains : List String, c ∈ rules.foldl (fun chains rule =>
      if rule.iptablesChain ∉ chains then chains ++ [rule.iptablesChain] else chains) chains ↔
        c ∈ chains ∨ ∃ r ∈ rules, r.iptablesChain = c := by
    induction rules with
    | nil => simp
    | cons rule rules ih =>
      intro chains
      rw [List.foldl_cons, ih]
      by_cases hmem : rule.iptablesChain ∈ chains
      · simp only [hmem, not_true_eq_false, if_false, List.mem_cons, exists_eq_or_imp]
        constructor
        · rintro (hc | hc)
          · exact .inl hc
          · exact .inr (.inr hc)
        · rintro (hc | rfl | hc)
          · exact .inl hc
          · exact .inl hmem
          · exact .inr hc
      · simp only [hmem, not_false_eq_true, if_true, List.mem_append, List.mem_cons,
          List.not_mem_nil, or_false, exists_eq_or_imp, or_assoc, @eq_comm _ c]
  simpa [chainsOf] using hfold []

/-! ## The backend -/

/-- The backend: a copy of the rules applied last. -/
structure IptablesFirewall where
  applied : List FirewallRule

/-- The backend and the filter table it programs. -/
structure FirewallHost where
  firewall : IptablesFirewall
  kernel : Filter

/-- A call of the backend. -/
inductive FirewallCall
  | apply (rules : List FirewallRule)
  | flush

section Host

/-! Which rules the tool can read, and what it reports for a command it refuses, are parameters. -/

variable (accepts : RuleSpec → Bool) (report : List String → String)

/-- Run commands one after another, up to the first that is refused. -/
def runAll : List (List String) → Filter → Result Unit × Filter
  | [], k => (.ok (), k)
  | args :: rest, k =>
    match exec accepts k args with
    | some k' => runAll rest k'
    | none => (.error (.provider "iptables" (report args)), k)

namespace IptablesFirewall

def new : IptablesFirewall := ⟨[]⟩

/-- Flush the chains of the ruleset and add its rules; the record follows when all went well. -/
def apply (rules : List FirewallRule) (h : FirewallHost) : Result Unit × FirewallHost :=
  match runAll accepts report ((chainsOf rules).map fun chain => ["-F", chain]) h.kernel with
  | (.error e, k) => (.error e, { h with kernel := k })
  | (.ok (), k) =>
    match runAll accepts report (rules.map iptablesArgsFor) k with
    | (.error e, k) => (.error e, { h with kernel := k })
    | (.ok (), k) => (.ok (), ⟨⟨rules⟩, k⟩)

/-- Flush the chains of the rules on record; every chain when there are none. -/
def flush (h : FirewallHost) : Result Unit × FirewallHost :=
  let commands := if h.firewall.applied.isEmpty then [["-F"]]
    else (chainsOf h.firewall.applied).map fun chain => ["-F", chain]
  match runAll accepts report commands h.kernel with
  | (.error e, k) => (.error e, { h with kernel := k })
  | (.ok (), k) => (.ok (), ⟨⟨[]⟩, k⟩)

/-- The rules currently installed by this backend, in application order. -/
def rules (f : IptablesFirewall) : List FirewallRule := f.applied

end IptablesFirewall

namespace FirewallHost

/-- A call all of whose commands succeed. -/
def step (h : FirewallHost) (call : FirewallCall) : Option FirewallHost :=
  match (match call with
    | .apply rules => IptablesFirewall.apply accepts report rules h
    | .flush => IptablesFirewall.flush accepts report h) with
  | (.ok (), h') => some h'
  | (.error _, _) => none

/-- Every chain holds the foreign rules and after them the rules on record, in order. -/
def Declared (foreign : Filter) (h : FirewallHost) : Prop :=
  ∀ c, h.kernel.rules c = foreign.rules c ++
    (h.firewall.rules.filter fun r => r.iptablesChain = c).map FirewallRule.spec

/-- A call that cannot disturb foreign rules or leave rules behind. -/
def Clean (foreign : Filter) (h : FirewallHost) : FirewallCall → Prop
  | .apply rules => (∀ r ∈ rules, foreign.rules r.iptablesChain = []) ∧
      ∀ r ∈ h.firewall.applied, ∃ r' ∈ rules, r'.iptablesChain = r.iptablesChain
  | .flush => h.firewall.applied = [] → ∀ c, foreign.rules c = []

variable {accepts report} {foreign : Filter} {h h' : FirewallHost}

theorem run_of_runAll {commands : List (List String)} {k k' : Filter}
    (hrun : runAll accepts report commands k = (.ok (), k')) :
    run (exec accepts) k commands = some k' := by
  induction commands generalizing k with
  | nil => exact congrArg some (Prod.mk.inj hrun).2
  | cons args rest ih =>
    unfold runAll at hrun
    cases hexec : exec accepts k args with
    | none => simp [hexec] at hrun
    | some t =>
      rw [hexec] at hrun
      exact run_cons_eq_some.2 ⟨t, hexec, ih hrun⟩

/-- After applying a ruleset, its chains hold its rules and the other chains are as before. -/
theorem step_apply {rules : List FirewallRule}
    (hs : h.step accepts report (.apply rules) = some h') :
    h'.firewall = ⟨rules⟩ ∧ ∀ c, h'.kernel.rules c =
      (if ∃ r ∈ rules, r.iptablesChain = c then [] else h.kernel.rules c) ++
        (rules.filter fun r => r.iptablesChain = c).map FirewallRule.spec := by
  simp only [step, IptablesFirewall.apply] at hs
  rcases hflush : runAll accepts report ((chainsOf rules).map fun chain => ["-F", chain])
    h.kernel with ⟨⟨e⟩ | ⟨⟨⟩⟩, k⟩
  · simp [hflush] at hs
  rcases hadd : runAll accepts report (rules.map iptablesArgsFor) k with ⟨⟨e⟩ | ⟨⟨⟩⟩, k'⟩
  · simp [hflush, hadd] at hs
  simp only [hflush, hadd, Option.some.injEq] at hs
  subst hs
  refine ⟨rfl, fun c => ?_⟩
  have hargs : rules.map iptablesArgsFor =
      (rules.map fun r => (r.iptablesChain, r.spec)).map fun r => "-A" :: r.1 :: r.2 := by
    simp [Function.comp_def, iptablesArgsFor_eq]
  rw [hargs] at hadd
  rw [rules_appends (run_of_runAll hadd), rules_flushes (run_of_runAll hflush), List.filter_map,
    List.map_map]
  simp only [mem_chainsOf]
  rfl

/-- After a flush, the chains on record, or all of them, are empty and the others are as before. -/
theorem step_flush (hs : h.step accepts report .flush = some h') :
    h'.firewall = ⟨[]⟩ ∧ ∀ c, h'.kernel.rules c =
      if h.firewall.applied = [] ∨ ∃ r ∈ h.firewall.applied, r.iptablesChain = c then []
      else h.kernel.rules c := by
  simp only [step, IptablesFirewall.flush] at hs
  rcases hflush : runAll accepts report (if h.firewall.applied.isEmpty then [["-F"]]
    else (chainsOf h.firewall.applied).map fun chain => ["-F", chain]) h.kernel with ⟨⟨e⟩ | ⟨⟨⟩⟩, k⟩
  · simp only [hflush, reduceCtorEq] at hs
  simp only [hflush, Option.some.injEq] at hs
  subst hs
  refine ⟨rfl, fun c => ?_⟩
  have hrun := run_of_runAll hflush
  by_cases hempty : h.firewall.applied = []
  · rw [hempty, List.isEmpty_nil, if_pos rfl] at hrun
    obtain rfl := Option.some.inj hrun
    rw [if_pos (.inl hempty)]
    exact h.kernel.rules_flushAll c
  · rw [if_neg (by simpa using hempty)] at hrun
    rw [rules_flushes hrun]
    simp only [mem_chainsOf, hempty, false_or]

/-- The rules of a ruleset for a chain it does not name. -/
theorem filter_chain_eq_nil {rules : List FirewallRule} {c : String}
    (hc : ¬∃ r ∈ rules, r.iptablesChain = c) : (rules.filter fun r => r.iptablesChain = c) = [] :=
  List.filter_eq_nil_iff.2 fun r hr he => hc ⟨r, hr, by simpa using he⟩

/-- The table is as declared, and no rule on record shares a chain with foreign rules. -/
def Separate (foreign : Filter) (h : FirewallHost) : Prop :=
  h.Declared foreign ∧ ∀ r ∈ h.firewall.applied, foreign.rules r.iptablesChain = []

theorem separate_step {call : FirewallCall} (hi : h.Separate foreign)
    (hclean : h.Clean foreign call) (hs : h.step accepts report call = some h') :
    h'.Separate foreign := by
  obtain ⟨hdecl, hown⟩ := hi
  cases call with
  | apply rules =>
    obtain ⟨hfree, hcover⟩ := hclean
    obtain ⟨hf, hk⟩ := step_apply hs
    refine ⟨fun c => ?_, by rwa [hf]⟩
    rw [hk c, hf]
    congr 1
    split_ifs with hc
    · obtain ⟨r, hr, rfl⟩ := hc
      exact (hfree r hr).symm
    · have hnone : ¬∃ r ∈ h.firewall.applied, r.iptablesChain = c := by
        rintro ⟨r, hr, rfl⟩
        exact hc (hcover r hr)
      rw [hdecl c, IptablesFirewall.rules, filter_chain_eq_nil hnone, List.map_nil, List.append_nil]
  | flush =>
    obtain ⟨hf, hk⟩ := step_flush hs
    refine ⟨fun c => ?_, by simp [hf]⟩
    rw [hk c, hf, IptablesFirewall.rules, List.filter_nil, List.map_nil, List.append_nil]
    split_ifs with hc
    · rcases hc with hempty | ⟨r, hr, rfl⟩
      · exact (hclean hempty c).symm
      · exact (hown r hr).symm
    · rw [hdecl c, IptablesFirewall.rules, filter_chain_eq_nil (fun he => hc (.inr he)),
        List.map_nil, List.append_nil]

/-- A call after which the table is as declared is clean. -/
theorem clean_of_declared {call : FirewallCall} (hi : h.Separate foreign)
    (hs : h.step accepts report call = some h') (hdecl' : h'.Declared foreign) :
    h.Clean foreign call := by
  obtain ⟨hdecl, -⟩ := hi
  cases call with
  | apply rules =>
    obtain ⟨hf, hk⟩ := step_apply hs
    have heq : ∀ c, (if ∃ r ∈ rules, r.iptablesChain = c then [] else h.kernel.rules c) =
        foreign.rules c := by
      intro c
      have h1 := (hk c).symm.trans (hdecl' c)
      rw [hf] at h1
      exact List.append_cancel_right h1
    refine ⟨fun r hr => ?_, fun r hr => ?_⟩
    · have h1 := heq r.iptablesChain
      rw [if_pos ⟨r, hr, rfl⟩] at h1
      exact h1.symm
    · by_contra hnone
      have h1 := heq r.iptablesChain
      rw [if_neg hnone, hdecl r.iptablesChain, List.append_right_eq_self, List.map_eq_nil_iff,
        List.filter_eq_nil_iff] at h1
      exact h1 r hr (by simp)
  | flush =>
    obtain ⟨hf, hk⟩ := step_flush hs
    intro hempty c
    have h1 := hdecl' c
    rw [hk c, if_pos (.inl hempty), hf] at h1
    simpa [IptablesFirewall.rules] using h1.symm

end FirewallHost

end Host

open FirewallHost in
/-- For every set of foreign rules and every sequence of calls whose commands succeed: the kernel
holds the foreign rules and exactly the rules on record after every call if and only if every call
is clean. -/
theorem declared_iff (accepts : RuleSpec → Bool) (report : List String → String) (foreign : Filter)
    (calls : List FirewallCall) (h : FirewallHost)
    (hrun : run (step accepts report) ⟨.new, foreign⟩ calls = some h) :
    Guarded (step accepts report) (Clean foreign) ⟨.new, foreign⟩ calls ↔
      ∀ n t, run (step accepts report) ⟨.new, foreign⟩ (calls.take n) = some t →
        t.Declared foreign :=
  Guarded.iff_forall_states (I := Separate foreign) (fun _ hi => hi.1)
    (fun _ _ _ hi hclean hs => separate_step hi hclean hs)
    (fun _ _ _ hi hs hdecl => clean_of_declared hi hs hdecl)
    ⟨fun c => by simp [IptablesFirewall.new, IptablesFirewall.rules], by simp [IptablesFirewall.new]⟩
    hrun

/-- The chains of a host that lets its administrators in. -/
def hostChains : Filter :=
  ⟨((((∅ : HashMap String (List RuleSpec)).insert "OUTPUT" []).insert "FORWARD" []).insert "INPUT"
    [["-p", "tcp", "--dport", "22", "-j", "ACCEPT"]])⟩

/-- A rule that denies everything from a source. -/
def denyFrom (chain src : String) : FirewallRule := ⟨⟨src⟩, chain, .deny, none, some src, none, none⟩

/-- Rulesets for one chain without foreign rules, and a flush: every call is clean. -/
theorem declared_iff_one_chain :
    ∃ h, run (FirewallHost.step (fun _ => true) (fun _ => "")) ⟨.new, hostChains⟩
        [.apply [denyFrom "forward" "10.0.0.0/8"], .apply [denyFrom "forward" "192.0.2.0/24"],
          .flush] = some h ∧ h.Declared hostChains := by
  have hrun : run (FirewallHost.step (fun _ => true) (fun _ => "")) ⟨.new, hostChains⟩
      [.apply [denyFrom "forward" "10.0.0.0/8"], .apply [denyFrom "forward" "192.0.2.0/24"],
        .flush] = some ⟨⟨[]⟩, hostChains.set "FORWARD" []⟩ := rfl
  have hclean : Guarded (FirewallHost.step (fun _ => true) (fun _ => ""))
      (FirewallHost.Clean hostChains) ⟨.new, hostChains⟩
      [.apply [denyFrom "forward" "10.0.0.0/8"], .apply [denyFrom "forward" "192.0.2.0/24"],
        .flush] := by
    refine .cons ⟨by decide, by simp [IptablesFirewall.new]⟩ rfl ?_
    refine .cons ⟨by decide, by decide⟩ rfl ?_
    exact .cons (fun hempty => absurd hempty (by decide)) rfl trivial
  exact ⟨_, hrun, (declared_iff _ _ _ _ _ hrun).1 hclean 3 _ hrun⟩

/-- An empty ruleset leaves the earlier rules in place, and a ruleset for a chain of the host takes
the host's own rule away. -/
theorem apply_not_declarative :
    (∃ h, run (FirewallHost.step (fun _ => true) (fun _ => "")) ⟨.new, hostChains⟩
        [.apply [denyFrom "forward" "10.0.0.0/8"], .apply []] = some h ∧
      h.firewall.rules = [] ∧ h.kernel.rules "FORWARD" = [["-s", "10.0.0.0/8", "-j", "DROP"]] ∧
      ¬h.Declared hostChains) ∧
    ∃ h, run (FirewallHost.step (fun _ => true) (fun _ => "")) ⟨.new, hostChains⟩
        [.apply [denyFrom "input" "10.0.0.0/8"]] = some h ∧
      h.kernel.rules "INPUT" = [["-s", "10.0.0.0/8", "-j", "DROP"]] ∧ ¬h.Declared hostChains := by
  refine ⟨⟨_, rfl, rfl, rfl, fun hdecl => ?_⟩, ⟨_, rfl, rfl, fun hdecl => ?_⟩⟩
  · exact absurd (hdecl "FORWARD") (by decide)
  · exact absurd (hdecl "INPUT") (by decide)

end OCF.Kernel
