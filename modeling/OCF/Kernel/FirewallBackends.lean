import OCF.Kernel.FirewallNft

/-!
# What the two backends of the host firewall decide

A packet meets the first rule that matches it, in the chain of the script at its hook as in the chain
of iptables. Rules that both tools can read match the same packets in both, so the backends agree on
them; `backends_agree_iff` puts this together with the reading of the script. A protocol without a
port makes nftables reject the script as a whole.
-/

namespace OCF.Kernel

open Text Network

/-! ## What the rules decide -/

/-- The same decision in the words of the other tool. -/
def verdictOf : Iptables.Target → Nft.Verdict
  | .accept => .accept
  | .drop => .drop

/-- The protocol of a rule; a port without one is taken for `tcp`. -/
def protoName (rule : FirewallRule) : Option String :=
  match rule.proto with
  | some proto => some (toAsciiLowercase proto)
  | none => if rule.dport.isSome then some "tcp" else none

/-- The matches of a rule in iptables. -/
def iptablesConds (rule : FirewallRule) : List Iptables.Cond :=
  ((protoName rule).map .proto).toList ++ ((rule.srcCidr.map .src).toList ++
    ((rule.dstCidr.map .dst).toList ++ (rule.dport.map .dport).toList))

def iptablesTarget (rule : FirewallRule) : Iptables.Target :=
  match rule.action with
  | .allow => .accept
  | .deny => .drop

section Decide

variable {rule : FirewallRule}

/-- An option with its value, if there is one. -/
def optionArgs (flag : String) (value : Option String) : List String :=
  value.elim [] fun v => [flag, v]

def jumpName : FirewallAction → String
  | .allow => "ACCEPT"
  | .deny => "DROP"

/-- What follows the protocol in the arguments of a rule. -/
def matchArgs (rule : FirewallRule) : List String :=
  optionArgs "-s" rule.srcCidr ++ (optionArgs "-d" rule.dstCidr ++
    (optionArgs "--dport" (rule.dport.map fun d => toString d.toNat) ++
      ["-j", jumpName rule.action]))

theorem spec_eq (rule : FirewallRule) :
    rule.spec = optionArgs "-p" (protoName rule) ++ matchArgs rule := by
  unfold FirewallRule.spec iptablesArgsFor matchArgs protoName
  cases rule.action <;> cases rule.proto <;> cases rule.srcCidr <;> cases rule.dstCidr <;>
    cases rule.dport <;> rfl

theorem readSpec_matchArgs {ported : Bool} (h : rule.dport ≠ none → ported = true) :
    Iptables.readSpec ported (matchArgs rule) =
      some ((rule.srcCidr.map .src).toList ++ ((rule.dstCidr.map .dst).toList ++
        (rule.dport.map .dport).toList), iptablesTarget rule) := by
  have hjump : Iptables.readSpec ported ["-j", jumpName rule.action] =
      some ([], iptablesTarget rule) := by
    unfold iptablesTarget
    cases rule.action <;> rfl
  have hdport : Iptables.readSpec ported
      (optionArgs "--dport" (rule.dport.map fun d => toString d.toNat) ++
        ["-j", jumpName rule.action]) = some ((rule.dport.map .dport).toList, iptablesTarget rule) := by
    cases hd : rule.dport with
    | none => exact hjump
    | some dport =>
      simp only [Option.map_some, optionArgs, Option.elim_some, List.cons_append, List.nil_append,
        Iptables.readSpec, h (by simp [hd]), if_true, Net.readPort_toString, Option.bind_some]
      rw [h (by simp [hd])] at hjump
      rw [hjump]
      rfl
  unfold matchArgs
  cases rule.srcCidr with
  | none =>
    cases rule.dstCidr with
    | none => exact hdport
    | some dst =>
      simp only [optionArgs, Option.elim_some, Option.elim_none, List.cons_append, List.nil_append,
        Iptables.readSpec] at hdport ⊢
      rw [hdport]
      rfl
  | some src =>
    cases rule.dstCidr with
    | none =>
      simp only [optionArgs, Option.elim_some, Option.elim_none, List.cons_append, List.nil_append,
        Iptables.readSpec] at hdport ⊢
      rw [hdport]
      rfl
    | some dst =>
      simp only [optionArgs, Option.elim_some, List.cons_append, List.nil_append,
        Iptables.readSpec] at hdport ⊢
      rw [hdport]
      rfl

/-- A rule with ports is read by iptables. -/
theorem readSpec_of_ported (hp : rule.Ported) :
    Iptables.readSpec false rule.spec = some (iptablesConds rule, iptablesTarget rule) := by
  rw [spec_eq]
  unfold iptablesConds
  cases hname : protoName rule with
  | none =>
    have hdport : rule.dport = none := by
      unfold protoName at hname
      cases hproto : rule.proto <;> cases hd : rule.dport <;> simp [hproto, hd] at hname ⊢
    exact readSpec_matchArgs fun hne => absurd hdport hne
  | some name =>
    have hported : (name = "tcp" || name = "udp") = true := by
      unfold protoName at hname
      cases hproto : rule.proto with
      | some proto =>
        obtain ⟨hmem, -⟩ := hp proto hproto
        rw [hproto] at hname
        obtain rfl := Option.some.inj hname
        simpa using hmem
      | none =>
        rw [hproto] at hname
        simp only [Option.ite_none_right_eq_some, Option.some.injEq] at hname
        simp [← hname.2]
    simp only [optionArgs, Option.elim_some, List.cons_append, List.nil_append, Iptables.readSpec,
      hported]
    rw [readSpec_matchArgs fun _ => rfl]
    rfl

variable {nft ipt : Net.Lexicon} (hnft : LawfulLexicon nft) (hipt : LawfulLexicon ipt)

include hnft hipt

/-- Both tools read the same addresses. -/
theorem any_contains_eq {c : String} (h : ValidCidr c) (n : UInt32) :
    ((nft.addr c).any fun b => b.contains n) = (ipt.addr c).any fun b => b.contains n := by
  obtain ⟨m, p, hp, rfl⟩ := h
  obtain ⟨b, hb, hcontains⟩ := hnft.cidr m p hp
  obtain ⟨b', hb', hcontains'⟩ := hipt.cidr m p hp
  rw [hb, hb', Option.any_some, Option.any_some, hcontains, hcontains']

/-- Both tools read the same protocols. -/
theorem proto_eq {p : String} (h : p ∈ ["tcp", "udp"]) : nft.proto p = ipt.proto p := by
  simp only [List.mem_cons, List.not_mem_nil, or_false] at h
  obtain rfl | rfl := h
  · rw [hnft.tcp, hipt.tcp]
  · rw [hnft.udp, hipt.udp]

/-- A rule with ports matches the same packets in both tools. -/
theorem hits_eq (h : rule.WellFormed) (hp : rule.Ported) (pkt : Net.Packet) :
    (nftRule rule).Hits nft pkt = (iptablesConds rule).all fun c => c.holds ipt pkt := by
  have hsrc : ((rule.srcCidr.map Nft.Match.saddr).toList.all fun m => m.Holds nft pkt) =
      (rule.srcCidr.map Iptables.Cond.src).toList.all fun c => c.holds ipt pkt := by
    cases hs : rule.srcCidr with
    | none => rfl
    | some c => simpa [Nft.Match.Holds, Iptables.Cond.holds] using
        any_contains_eq hnft hipt (h.src c hs) pkt.src
  have hdst : ((rule.dstCidr.map Nft.Match.daddr).toList.all fun m => m.Holds nft pkt) =
      (rule.dstCidr.map Iptables.Cond.dst).toList.all fun c => c.holds ipt pkt := by
    cases hd : rule.dstCidr with
    | none => rfl
    | some c => simpa [Nft.Match.Holds, Iptables.Cond.holds] using
        any_contains_eq hnft hipt (h.dst c hd) pkt.dst
  have hport : ((rule.dport.map (Nft.Match.dport ((rule.proto.map toAsciiLowercase).getD
      "tcp"))).toList.all fun m => m.Holds nft pkt) =
      ((((protoName rule).map Iptables.Cond.proto).toList.all fun c => c.holds ipt pkt) &&
        (rule.dport.map Iptables.Cond.dport).toList.all fun c => c.holds ipt pkt) := by
    unfold protoName
    cases hproto : rule.proto with
    | none =>
      cases rule.dport with
      | none => rfl
      | some dport =>
        have heq := proto_eq hnft hipt (p := "tcp") (by simp)
        simp [Nft.Match.Holds, Iptables.Cond.holds, heq]
    | some proto =>
      obtain ⟨hname, hne⟩ := hp proto hproto
      obtain ⟨dport, hdport⟩ := Option.ne_none_iff_exists'.1 hne
      have heq := proto_eq hnft hipt hname
      simp [Nft.Match.Holds, Iptables.Cond.holds, heq, hdport]
  rw [Nft.Rule.Hits, nftRule, iptablesConds]
  simp only [List.all_append]
  rw [hsrc, hdst, hport]
  ac_rfl

theorem decision_spec (h : rule.WellFormed) (hp : rule.Ported) (pkt : Net.Packet) :
    Iptables.decision ipt pkt rule.spec =
      if (nftRule rule).Hits nft pkt then some (iptablesTarget rule) else none := by
  rw [Iptables.decision, readSpec_of_ported hp, Option.bind_some, hits_eq hnft hipt h hp]

/-- **The first match decides alike.** -/
theorem verdict_eq {rules : List FirewallRule} (hrules : ∀ r ∈ rules, r.WellFormed ∧ r.Ported)
    (pkt : Net.Packet) :
    (((rules.map nftRule).find? fun r => r.Hits nft pkt).map Nft.Rule.verdict).getD .accept =
      verdictOf (((rules.map FirewallRule.spec).findSome? (Iptables.decision ipt pkt)).getD
        .accept) := by
  induction rules with
  | nil => rfl
  | cons r rules ih =>
    obtain ⟨⟨hwf, hp⟩, hrest⟩ := List.forall_mem_cons.1 hrules
    rw [List.map_cons, List.map_cons, List.findSome?_cons, decision_spec hnft hipt hwf hp]
    by_cases hhit : (nftRule r).Hits nft pkt
    · rw [List.find?_cons_of_pos hhit, if_pos hhit]
      simp only [nftRule, iptablesTarget, Option.map_some, Option.getD_some]
      cases r.action <;> rfl
    · rw [List.find?_cons_of_neg hhit, if_neg hhit]
      exact ih hrest

end Decide

/-- A lawful tool reads the names in a rule with ports. -/
theorem lexicon_reads {lex : Net.Lexicon} (hlex : LawfulLexicon lex) {rule : FirewallRule}
    (h : rule.WellFormed) (hp : rule.Ported) :
    (∀ c ∈ rule.srcCidr, (lex.addr c).isSome) ∧ (∀ c ∈ rule.dstCidr, (lex.addr c).isSome) ∧
      (∀ p ∈ rule.proto, (lex.proto (toAsciiLowercase p)).isSome) ∧ (lex.proto "tcp").isSome := by
  have haddr : ∀ c, ValidCidr c → (lex.addr c).isSome := by
    rintro c ⟨n, p, hle, rfl⟩
    obtain ⟨b, hb, -⟩ := hlex.cidr n p hle
    rw [hb]
    rfl
  refine ⟨fun c hc => haddr c (h.src c hc), fun c hc => haddr c (h.dst c hc), fun p hproto => ?_,
    by rw [hlex.tcp]; rfl⟩
  have hname := (hp p hproto).1
  simp only [List.mem_cons, List.not_mem_nil, or_false] at hname
  obtain hname | hname := hname <;> rw [hname]
  · rw [hlex.tcp]
    rfl
  · rw [hlex.udp]
    rfl

theorem nftRule_readable {lex : Net.Lexicon} (hlex : LawfulLexicon lex) {rule : FirewallRule}
    (h : rule.WellFormed) (hp : rule.Ported) : (nftRule rule).Readable lex = true := by
  obtain ⟨hsrc, hdst, hproto, htcp⟩ := lexicon_reads hlex h hp
  unfold Nft.Rule.Readable nftRule
  cases hs : rule.srcCidr <;> cases hd : rule.dstCidr <;> cases hpr : rule.proto <;>
    cases hdp : rule.dport <;> simp_all [Nft.Match.Readable]

theorem spec_readable {lex : Net.Lexicon} (hlex : LawfulLexicon lex) {rule : FirewallRule}
    (h : rule.WellFormed) (hp : rule.Ported) : Iptables.readable lex rule.spec = true := by
  obtain ⟨hsrc, hdst, hproto, htcp⟩ := lexicon_reads hlex h hp
  rw [Iptables.readable, readSpec_of_ported hp, Option.any_some]
  unfold iptablesConds protoName
  cases hs : rule.srcCidr <;> cases hd : rule.dstCidr <;> cases hpr : rule.proto <;>
    cases hdp : rule.dport <;> simp_all [Iptables.Cond.readable]

/-! ## Both backends -/

section Backends

variable {nft ipt : Net.Lexicon} {rules : List FirewallRule}

/-- The chain of the script at a hook. -/
def nftChain (rules : List FirewallRule) (hook : String) : Nft.Chain :=
  { Nft.baseChain hook hook with
    rules := (rules.filter fun r => nftHookFor r.chain = hook).map nftRule }

/-- What the script leaves in its table. -/
theorem loadText_of_ported (hnft : LawfulLexicon nft)
    (hrules : ∀ r ∈ rules, r.WellFormed ∧ r.Ported) (rs₀ : Nft.Ruleset) :
    ∃ (rs : Nft.Ruleset) (hooks : List String), Nft.loadText nft rs₀ (buildNftRuleset rules) = some rs ∧
      rs.lookup nftTable = some (hooks.map (nftChain rules)) ∧
      ∀ hook, hook ∈ hooks ↔ ∃ r ∈ rules, nftHookFor r.chain = hook := by
  obtain ⟨hooks, hnodup, hmem, hread, -⟩ :=
    readScript_buildNftRuleset fun r hr => (hrules r hr).1
  obtain ⟨rs₁, hrun₁, hlookup₁⟩ := Nft.run_freshTable nft rs₀ nftTable
  obtain ⟨rs₂, hrun₂, hlookup₂⟩ := Nft.run_addChains nft hlookup₁ hnodup (by simp)
  rw [List.nil_append] at hlookup₂
  have hadds : ∀ r ∈ rules.map fun rule => (nftHookFor rule.chain, nftRule rule),
      (∃ c ∈ hooks.map fun h => Nft.baseChain h h, c.name = r.1) ∧ r.2.Readable nft := by
    intro r hr
    obtain ⟨rule, hrule, rfl⟩ := List.mem_map.1 hr
    obtain ⟨hwf, hp⟩ := hrules rule hrule
    refine ⟨⟨Nft.baseChain (nftHookFor rule.chain) (nftHookFor rule.chain), ?_, rfl⟩,
      nftRule_readable hnft hwf hp⟩
    exact List.mem_map_of_mem ((hmem _).2 ⟨rule, hrule, rfl⟩)
  obtain ⟨rs₃, hrun₃, hlookup₃⟩ := Nft.run_addRules nft hlookup₂ hadds
  refine ⟨rs₃, hooks, ?_, ?_, hmem⟩
  · rw [Nft.loadText, hread fun r hr => (hrules r hr).2, Option.bind_some, nftScript, run_append,
      run_append, hrun₁, Option.bind_some, hrun₂, Option.bind_some, hrun₃]
  · rw [hlookup₃, List.map_map]
    refine congrArg some (List.map_congr_left fun hook _ => ?_)
    simp [Nft.Chain.addRules, nftChain, Nft.baseChain, List.filter_map, Function.comp_def]

theorem hookVerdict_eq {hooks : List String}
    (hhooks : ∀ hook, hook ∈ hooks ↔ ∃ r ∈ rules, nftHookFor r.chain = hook) (pkt : Net.Packet)
    (hook : String) :
    Nft.hookVerdict nft pkt (hooks.map (nftChain rules)) hook =
      ((((rules.filter fun r => nftHookFor r.chain = hook).map nftRule).find? fun r =>
        r.Hits nft pkt).map Nft.Rule.verdict).getD .accept := by
  rw [Nft.hookVerdict, List.find?_map]
  cases hfind : hooks.find? ((fun c : Nft.Chain => decide (c.hook = hook)) ∘ nftChain rules) with
  | some h =>
    have hsome := List.find?_some hfind
    obtain rfl : h = hook := of_decide_eq_true hsome
    rfl
  | none =>
    have hempty : (rules.filter fun r => nftHookFor r.chain = hook) = [] := by
      refine List.filter_eq_nil_iff.2 fun r hr hr' => ?_
      have hnone := List.find?_eq_none.1 hfind hook ((hhooks hook).2 ⟨r, hr, by simpa using hr'⟩)
      simp [nftChain, Nft.baseChain] at hnone
    rw [hempty]
    rfl

/-- The upper case of a chain name. -/
def upperName (hook : String) : String := String.ofList (hook.toList.map Char.toUpper)

/-- The chain of a rule does not depend on the letter case of its name. -/
theorem iptablesChain_eq (rule : FirewallRule) :
    rule.iptablesChain = upperName (toAsciiLowercase rule.chain) := by
  rw [FirewallRule.iptablesChain, upperName, toAsciiLowercase, String.toList_ofList, List.map_map]
  refine congrArg String.ofList (List.map_congr_left fun c _ => ?_)
  exact (toUpper_toLower c).symm

/-- The two tools put a rule in the same place. -/
theorem FirewallRule.WellFormed.chain_iff {rule : FirewallRule} (h : rule.WellFormed) {hook : String}
    (hhook : hook ∈ ["input", "forward", "output"]) :
    rule.iptablesChain = upperName hook ↔ nftHookFor rule.chain = hook := by
  have hlower : nftHookFor rule.chain = toAsciiLowercase rule.chain := by
    have hmem := h.chain
    unfold nftHookFor
    simp only [List.mem_cons, List.not_mem_nil, or_false] at hmem
    obtain hmem | hmem | hmem := hmem <;> rw [hmem] <;> rfl
  rw [iptablesChain_eq, hlower]
  have hinj : ∀ a ∈ ["input", "forward", "output"], ∀ b ∈ ["input", "forward", "output"],
      upperName a = upperName b ↔ a = b := by decide
  exact hinj _ h.chain _ hhook

/-- The three chains of the filter table, without rules. -/
def emptyChains : Iptables.Filter :=
  ⟨(((∅ : HashMap String (List Iptables.RuleSpec)).insert "OUTPUT" []).insert "FORWARD" []).insert
    "INPUT" []⟩

theorem rules_emptyChains (c : String) : emptyChains.rules c = [] := by
  simp only [emptyChains, Iptables.Filter.rules, HashMap.lookup_insert_eq]
  split_ifs <;> rfl

/-- Commands that always succeed while the three chains are there, and leave them there. -/
theorem runAll_ok {accepts : Iptables.RuleSpec → Bool} (report : List String → String)
    {commands : List (List String)} {I : Iptables.Filter → Prop}
    (h : ∀ args ∈ commands, ∀ k, I k → ∃ k', Iptables.exec accepts k args = some k' ∧ I k')
    {k : Iptables.Filter} (hk : I k) : ∃ k', runAll accepts report commands k = (.ok (), k') ∧ I k' := by
  induction commands generalizing k with
  | nil => exact ⟨k, rfl, hk⟩
  | cons args rest ih =>
    obtain ⟨hargs, hrest⟩ := List.forall_mem_cons.1 h
    obtain ⟨t, ht, hI⟩ := hargs k hk
    rw [runAll, ht]
    exact ih hrest hI

/-- The three chains are there. -/
def HasChains (k : Iptables.Filter) : Prop := ∀ c ∈ ["INPUT", "FORWARD", "OUTPUT"], c ∈ k.chains

theorem FirewallRule.WellFormed.mem_chains {rule : FirewallRule} (h : rule.WellFormed)
    {k : Iptables.Filter} (hk : HasChains k) : rule.iptablesChain ∈ k.chains := by
  have hupper : ∀ a ∈ ["input", "forward", "output"], upperName a ∈ ["INPUT", "FORWARD", "OUTPUT"] := by
    decide
  rw [iptablesChain_eq]
  exact hk _ (hupper _ h.chain)

theorem HasChains.set {k : Iptables.Filter} (hk : HasChains k) (chain : String)
    (rs : List Iptables.RuleSpec) : HasChains (k.set chain rs) := fun c hc =>
  (AList.mem_insert _).2 (.inr (hk c hc))

/-- Applying rules with ports succeeds. -/
theorem step_apply_of_ported (hipt : LawfulLexicon ipt)
    (hrules : ∀ r ∈ rules, r.WellFormed ∧ r.Ported) (report : List String → String) :
    ∃ h, FirewallHost.step (Iptables.readable ipt) report ⟨.new, emptyChains⟩ (.apply rules) =
      some h := by
  have hflush : ∀ args ∈ (chainsOf rules).map (fun chain => ["-F", chain]), ∀ k, HasChains k →
      ∃ k', Iptables.exec (Iptables.readable ipt) k args = some k' ∧ HasChains k' := by
    intro args hargs k hk
    obtain ⟨c, hc, rfl⟩ := List.mem_map.1 hargs
    obtain ⟨r, hr, rfl⟩ := mem_chainsOf.1 hc
    exact ⟨_, if_pos ((hrules r hr).1.mem_chains hk), hk.set _ _⟩
  have hadd : ∀ args ∈ rules.map iptablesArgsFor, ∀ k, HasChains k →
      ∃ k', Iptables.exec (Iptables.readable ipt) k args = some k' ∧ HasChains k' := by
    intro args hargs k hk
    obtain ⟨r, hr, rfl⟩ := List.mem_map.1 hargs
    obtain ⟨hwf, hp⟩ := hrules r hr
    rw [iptablesArgsFor_eq]
    exact ⟨_, if_pos ⟨hwf.mem_chains hk, spec_readable hipt hwf hp⟩, hk.set _ _⟩
  have hstart : HasChains emptyChains := by
    unfold HasChains
    decide
  obtain ⟨k, hk, hkc⟩ := runAll_ok report hflush hstart
  obtain ⟨k', hk', -⟩ := runAll_ok report hadd hkc
  exact ⟨⟨⟨rules⟩, k'⟩, by simp [FirewallHost.step, IptablesFirewall.apply, hk, hk']⟩

end Backends

/-- The two backends agree on a ruleset: the script can be loaded, the commands succeed on empty
chains, and at every hook every packet meets the same verdict. -/
def BackendsAgree (nft ipt : Net.Lexicon) (report : List String → String) (rs₀ : Nft.Ruleset)
    (rules : List FirewallRule) : Prop :=
  ∃ rs chains h, Nft.loadText nft rs₀ (buildNftRuleset rules) = some rs ∧
    rs.lookup nftTable = some chains ∧
    FirewallHost.step (Iptables.readable ipt) report ⟨.new, emptyChains⟩ (.apply rules) = some h ∧
    ∀ hook ∈ ["input", "forward", "output"], ∀ pkt,
      Nft.hookVerdict nft pkt chains hook = verdictOf (h.kernel.verdict ipt pkt (upperName hook))

/-- **The two backends.** For all rules for the three chains, with the three protocols or none and
valid CIDRs, on every host: the script can be loaded and decides every IPv4 packet at every hook as
the commands of iptables do, if and only if every rule that names a protocol names `tcp` or `udp` and
gives a port. -/
theorem backends_agree_iff (nft ipt : Net.Lexicon) (hnft : LawfulLexicon nft)
    (hipt : LawfulLexicon ipt) (report : List String → String) (rs₀ : Nft.Ruleset)
    (rules : List FirewallRule) (hrules : ∀ r ∈ rules, r.WellFormed) :
    BackendsAgree nft ipt report rs₀ rules ↔ ∀ r ∈ rules, r.Ported := by
  constructor
  · rintro ⟨rs, -, -, hload, -⟩
    obtain ⟨-, -, -, -, hported⟩ := readScript_buildNftRuleset hrules
    obtain ⟨script, hscript, -⟩ := Option.bind_eq_some_iff.1 hload
    exact hported (by rw [hscript]; rfl)
  · intro hported
    have hboth : ∀ r ∈ rules, r.WellFormed ∧ r.Ported := fun r hr => ⟨hrules r hr, hported r hr⟩
    obtain ⟨rs, hooks, hload, hlookup, hhooks⟩ := loadText_of_ported hnft hboth rs₀
    obtain ⟨h, hstep⟩ := step_apply_of_ported hipt hboth report
    refine ⟨rs, _, h, hload, hlookup, hstep, fun hook hhook pkt => ?_⟩
    have hkernel : h.kernel.rules (upperName hook) =
        (rules.filter fun r => nftHookFor r.chain = hook).map FirewallRule.spec := by
      rw [(FirewallHost.step_apply hstep).2, rules_emptyChains, ite_self, List.nil_append]
      refine congrArg _ (List.filter_congr fun r hr => ?_)
      rw [decide_eq_decide]
      exact (hrules r hr).chain_iff hhook
    rw [hookVerdict_eq hhooks, Iptables.Filter.verdict, hkernel]
    exact verdict_eq hnft hipt (fun r hr => hboth r (List.mem_filter.1 hr).1) pkt

/-- Access to a service from a block, and nothing else from it. -/
def sshOnly : List FirewallRule :=
  [⟨⟨"r0"⟩, "Input", .allow, some "TCP", some (cidrText 0x0a000000 8), none, some 22⟩,
    ⟨⟨"r1"⟩, "input", .deny, none, some (cidrText 0x0a000000 8), none, none⟩]

theorem backends_agree_iff_sshOnly :
    BackendsAgree controllerLexicon controllerLexicon (fun _ => "") ∅ sshOnly := by
  refine (backends_agree_iff _ _ lawful_controllerLexicon lawful_controllerLexicon _ ∅ sshOnly ?_).2 ?_
  · have hcidr : ValidCidr (cidrText 0x0a000000 8) := ⟨_, _, by decide, rfl⟩
    refine List.forall_mem_cons.2 ⟨⟨by decide, ?_, ?_, by simp⟩,
      List.forall_mem_singleton.2 ⟨by decide, by simp, ?_, by simp⟩⟩
    · simp only [Option.mem_def, Option.some.injEq, forall_eq']
      decide
    · simpa using hcidr
    · simpa using hcidr
  · refine List.forall_mem_cons.2 ⟨?_, List.forall_mem_singleton.2 (by simp [FirewallRule.Ported])⟩
    simp only [FirewallRule.Ported, Option.mem_def, Option.some.injEq, forall_eq']
    decide

/-- A rule that allows a protocol without a port. -/
def allowAllTcp : FirewallRule := ⟨⟨"r"⟩, "input", .allow, some "tcp", none, none, none⟩

/-- The script for the rule is not read, although iptables takes it. -/
theorem tcp_without_port_rejected :
    allowAllTcp.WellFormed ∧ Nft.readScript (buildNftRuleset [allowAllTcp]) = none ∧
    (∃ h, FirewallHost.step (Iptables.readable controllerLexicon) (fun _ => "") ⟨.new, emptyChains⟩
      (.apply [allowAllTcp]) = some h) ∧
    ¬BackendsAgree controllerLexicon controllerLexicon (fun _ => "") ∅ [allowAllTcp] := by
  have hread : Nft.readScript (buildNftRuleset [allowAllTcp]) = none := by decide +kernel
  refine ⟨⟨by decide, ?_, by simp [allowAllTcp], by simp [allowAllTcp]⟩, hread, ⟨_, rfl⟩, ?_⟩
  · simp only [allowAllTcp, Option.mem_def, Option.some.injEq, forall_eq']
    decide
  · rintro ⟨rs, -, -, hload, -⟩
    simp [Nft.loadText, hread] at hload

end OCF.Kernel
