import OCF.Foundations.NftScript
import OCF.Kernel.Firewall
import OCF.Network.Lexicon

/-!
# The nftables script of the host firewall

The same rules are rendered for nftables, as one script that is loaded at once, and for iptables, as
one command each. A rule without a protocol but with a port is taken for `tcp` in both. What differs
is a protocol without a port: iptables has a match on the protocol, while the script names the
protocol and stops there, which nftables does not read. A script with such a rule is rejected as a
whole.

`readScript_buildNftRuleset` says for which rules the script is read: those in which every protocol
that is named is `tcp` or `udp` and comes with a port.
-/

namespace OCF.Kernel

open Text Network

/-! ## The script -/

/-- The table the fabric owns. -/
def nftTable : String := "ocf"

/-- The hook of a chain name; unknown names go to `input`. -/
def nftHookFor (chain : String) : String :=
  match toAsciiLowercase chain with
  | "forward" => "forward"
  | "output" => "output"
  | _ => "input"

/-- The matches of a rule. -/
def nftExpr (rule : FirewallRule) : String :=
  (match rule.srcCidr with
    | some src => "ip saddr " ++ src ++ " "
    | none => "") ++
  (match rule.dstCidr with
    | some dst => "ip daddr " ++ dst ++ " "
    | none => "") ++
  (match rule.proto with
    | some proto => toAsciiLowercase proto ++ " " ++
      (match rule.dport with
        | some dport => "dport " ++ toString dport.toNat ++ " "
        | none => "")
    | none =>
      match rule.dport with
      | some dport => "tcp dport " ++ toString dport.toNat ++ " "
      | none => "")

/-- The verdict of an action. -/
def nftAction : FirewallAction → String
  | .allow => "accept"
  | .deny => "drop"

/-- The command that adds the chain of a hook. -/
def nftChainLine (hook : String) : String :=
  "add chain inet " ++ nftTable ++ " " ++ hook ++ " \x7b type filter hook " ++ hook ++
    " priority 0; policy accept; \x7d\n"

/-- The command that adds a rule. -/
def nftRuleLine (rule : FirewallRule) : String :=
  "add rule inet " ++ nftTable ++ " " ++ nftHookFor rule.chain ++ " " ++ nftExpr rule ++
    nftAction rule.action ++ "\n"

/-- The script for a ruleset: the table is recreated, every chain that a rule goes to is declared
when the first such rule is met, and the rules follow. -/
def buildNftRuleset (rules : List FirewallRule) : String :=
  let out := "add table inet " ++ nftTable ++ "\n" ++ "delete table inet " ++ nftTable ++ "\n" ++
    "add table inet " ++ nftTable ++ "\n"
  let (_, out) := rules.foldl (fun (acc : List String × String) rule =>
    let hook := nftHookFor rule.chain
    if hook ∉ acc.1 then (acc.1 ++ [hook], acc.2 ++ nftChainLine hook) else acc) ([], out)
  rules.foldl (fun out rule => out ++ nftRuleLine rule) out

example : buildNftRuleset [⟨⟨"r"⟩, "Input", .allow, some "TCP", some "10.0.0.0/8", none, some 22⟩] =
    "add table inet ocf\ndelete table inet ocf\nadd table inet ocf\n" ++
    "add chain inet ocf input \x7b type filter hook input priority 0; policy accept; \x7d\n" ++
    "add rule inet ocf input ip saddr 10.0.0.0/8 tcp dport 22 accept\n" := by decide +kernel

/-! ## The rules in question -/

/-- A CIDR in its usual notation. -/
def ValidCidr (text : String) : Prop := ∃ n p, p ≤ 32 ∧ text = cidrText n p

/-- A rule for one of the three chains, in any letter case, with one of the three protocols or none,
and valid CIDRs. -/
structure FirewallRule.WellFormed (rule : FirewallRule) : Prop where
  chain : toAsciiLowercase rule.chain ∈ ["input", "forward", "output"]
  proto : ∀ p ∈ rule.proto, toAsciiLowercase p ∈ ["tcp", "udp", "icmp"]
  src : ∀ c ∈ rule.srcCidr, ValidCidr c
  dst : ∀ c ∈ rule.dstCidr, ValidCidr c

/-- A protocol that is named has ports, and one is given. -/
def FirewallRule.Ported (rule : FirewallRule) : Prop :=
  ∀ p ∈ rule.proto, toAsciiLowercase p ∈ ["tcp", "udp"] ∧ rule.dport ≠ none

/-! ## The script in words -/

/-- The words of the protocol and the port of a rule. -/
def protoWords (rule : FirewallRule) : List String :=
  match rule.proto with
  | some proto => toAsciiLowercase proto ::
    (match rule.dport with
      | some dport => ["dport", toString dport.toNat]
      | none => [])
  | none =>
    match rule.dport with
    | some dport => ["tcp", "dport", toString dport.toNat]
    | none => []

/-- The words of the matches of a rule. -/
def exprWords (rule : FirewallRule) : List String :=
  (match rule.srcCidr with
    | some src => ["ip", "saddr", src]
    | none => []) ++
  ((match rule.dstCidr with
    | some dst => ["ip", "daddr", dst]
    | none => []) ++ protoWords rule)

theorem nftExpr_eq (rule : FirewallRule) : nftExpr rule = Nft.wordsText (exprWords rule) := by
  have hsrc : "ip saddr " = "ip" ++ (" " ++ ("saddr" ++ " ")) := rfl
  have hdst : "ip daddr " = "ip" ++ (" " ++ ("daddr" ++ " ")) := rfl
  have hport : "dport " = "dport" ++ " " := rfl
  have htcp : "tcp dport " = "tcp" ++ (" " ++ ("dport" ++ " ")) := rfl
  unfold nftExpr exprWords protoWords
  rw [Nft.wordsText_append, Nft.wordsText_append, ← String.append_assoc]
  congr 1
  · congr 1
    · cases rule.srcCidr with
      | none => rfl
      | some src =>
        dsimp only [Nft.wordsText]
        rw [hsrc]
        simp only [String.append_assoc, String.append_empty]
    · cases rule.dstCidr with
      | none => rfl
      | some dst =>
        dsimp only [Nft.wordsText]
        rw [hdst]
        simp only [String.append_assoc, String.append_empty]
  · cases rule.proto with
    | some proto =>
      cases rule.dport with
      | none => simp only [Nft.wordsText, String.append_empty]
      | some dport =>
        dsimp only [Nft.wordsText]
        rw [hport]
        simp only [String.append_assoc, String.append_empty]
    | none =>
      cases rule.dport with
      | none => rfl
      | some dport =>
        dsimp only [Nft.wordsText]
        rw [htcp]
        simp only [String.append_assoc, String.append_empty]

/-- The line of a rule. -/
def ruleLine (rule : FirewallRule) : String :=
  Nft.lineOf (["add", "rule", "inet", nftTable, nftHookFor rule.chain] ++ exprWords rule)
    (nftAction rule.action)

/-- The line of a chain. -/
def chainLine (hook : String) : String :=
  Nft.lineOf ["add", "chain", "inet", nftTable, hook, "\x7b", "type", "filter", "hook", hook,
    "priority", "0;", "policy", "accept;"] "\x7d"

/-- The lines that recreate the table. -/
def tableLines : List String :=
  [Nft.lineOf ["add", "table", "inet"] nftTable, Nft.lineOf ["delete", "table", "inet"] nftTable,
    Nft.lineOf ["add", "table", "inet"] nftTable]

theorem nftRuleLine_eq (rule : FirewallRule) : nftRuleLine rule = ruleLine rule ++ "\n" := by
  have hadd : "add rule inet " ++ nftTable ++ " " =
      Nft.wordsText ["add", "rule", "inet", nftTable] := by
    decide +kernel
  have hhook : Nft.wordsText ["add", "rule", "inet", nftTable, nftHookFor rule.chain] =
      Nft.wordsText ["add", "rule", "inet", nftTable] ++ (nftHookFor rule.chain ++ (" " ++ "")) :=
    Nft.wordsText_append ["add", "rule", "inet", nftTable] [nftHookFor rule.chain]
  unfold nftRuleLine ruleLine Nft.lineOf
  rw [hadd, Nft.wordsText_append, ← nftExpr_eq, hhook]
  simp only [String.append_assoc, String.append_empty]

theorem nftChainLine_eq (hook : String) : nftChainLine hook = chainLine hook ++ "\n" := by
  have hadd : "add chain inet " ++ nftTable ++ " " =
      Nft.wordsText ["add", "chain", "inet", nftTable] := by
    decide +kernel
  have htype : " \x7b type filter hook " =
      " " ++ Nft.wordsText ["\x7b", "type", "filter", "hook"] := by
    decide +kernel
  have hend : " priority 0; policy accept; \x7d\n" =
      " " ++ (Nft.wordsText ["priority", "0;", "policy", "accept;"] ++ ("\x7d" ++ "\n")) := by
    decide +kernel
  have hwords : Nft.wordsText ["add", "chain", "inet", nftTable, hook, "\x7b", "type", "filter",
      "hook", hook, "priority", "0;", "policy", "accept;"] =
      Nft.wordsText ["add", "chain", "inet", nftTable] ++ (hook ++ (" " ++
        (Nft.wordsText ["\x7b", "type", "filter", "hook"] ++ (hook ++ (" " ++
          Nft.wordsText ["priority", "0;", "policy", "accept;"]))))) :=
    (Nft.wordsText_append ["add", "chain", "inet", nftTable] _).trans <| congrArg _ <| congrArg _ <|
      congrArg _ <| Nft.wordsText_append ["\x7b", "type", "filter", "hook"] _
  unfold nftChainLine chainLine Nft.lineOf
  rw [hadd, htype, hend, hwords]
  simp only [String.append_assoc]

/-- The first loop declares the hooks of the rules, each once. -/
theorem exists_hooks (rules : List FirewallRule) (seen : List String) (out : String)
    (hseen : seen.Nodup) :
    ∃ new, rules.foldl (fun (acc : List String × String) rule =>
        let hook := nftHookFor rule.chain
        if hook ∉ acc.1 then (acc.1 ++ [hook], acc.2 ++ nftChainLine hook) else acc) (seen, out) =
          (seen ++ new, out ++ Nft.linesText (new.map chainLine)) ∧ (seen ++ new).Nodup ∧
      ∀ hook, hook ∈ seen ++ new ↔ hook ∈ seen ∨ ∃ r ∈ rules, nftHookFor r.chain = hook := by
  induction rules generalizing seen out with
  | nil => exact ⟨[], by simp [Nft.linesText], by simpa using hseen, by simp⟩
  | cons rule rules ih =>
    rw [List.foldl_cons]
    by_cases hmem : nftHookFor rule.chain ∈ seen
    · obtain ⟨new, hfold, hnodup, hhooks⟩ := ih seen out hseen
      refine ⟨new, ?_, hnodup, fun hook => (hhooks hook).trans ?_⟩
      · rw [← hfold]
        simp only [hmem, not_true_eq_false, if_false]
      · simp only [List.mem_cons, exists_eq_or_imp]
        constructor
        · rintro (h | h)
          · exact .inl h
          · exact .inr (.inr h)
        · rintro (h | rfl | h)
          · exact .inl h
          · exact .inl hmem
          · exact .inr h
    · have hseen' : (seen ++ [nftHookFor rule.chain]).Nodup :=
        List.nodup_append.2 ⟨hseen, List.nodup_singleton _, fun a ha b hb hab => hmem
          (List.mem_singleton.1 hb ▸ hab ▸ ha)⟩
      obtain ⟨new, hfold, hnodup, hhooks⟩ := ih _ (out ++ nftChainLine (nftHookFor rule.chain)) hseen'
      refine ⟨nftHookFor rule.chain :: new, ?_, by simpa using hnodup, fun hook => ?_⟩
      · simp only [hmem, not_false_eq_true, if_true]
        rw [hfold, nftChainLine_eq, List.map_cons, Nft.linesText]
        simp only [List.append_assoc, List.singleton_append, String.append_assoc]
      · have hh := hhooks hook
        rw [List.append_assoc, List.singleton_append] at hh
        rw [hh, List.mem_append, List.mem_singleton, or_assoc]
        simp only [List.mem_cons, exists_eq_or_imp, @eq_comm _ hook]

/-- The second loop writes the lines of the rules. -/
theorem foldl_nftRuleLine (rules : List FirewallRule) (out : String) :
    rules.foldl (fun out rule => out ++ nftRuleLine rule) out =
      out ++ Nft.linesText (rules.map ruleLine) := by
  induction rules generalizing out with
  | nil => simp [Nft.linesText]
  | cons rule rules ih =>
    rw [List.foldl_cons, ih, nftRuleLine_eq, List.map_cons, Nft.linesText]
    simp only [String.append_assoc]

/-- **The script, line by line.** -/
theorem exists_buildNftRuleset_eq (rules : List FirewallRule) :
    ∃ hooks : List String, hooks.Nodup ∧
      (∀ hook, hook ∈ hooks ↔ ∃ r ∈ rules, nftHookFor r.chain = hook) ∧
      buildNftRuleset rules =
        Nft.linesText (tableLines ++ hooks.map chainLine ++ rules.map ruleLine) := by
  obtain ⟨hooks, hfold, hnodup, hhooks⟩ := exists_hooks rules [] ("add table inet " ++ nftTable ++
    "\n" ++ "delete table inet " ++ nftTable ++ "\n" ++ "add table inet " ++ nftTable ++ "\n")
    List.nodup_nil
  refine ⟨hooks, by simpa using hnodup, by simpa using hhooks, ?_⟩
  have htable : "add table inet " ++ nftTable ++ "\n" ++ "delete table inet " ++ nftTable ++ "\n" ++
      "add table inet " ++ nftTable ++ "\n" = Nft.linesText tableLines := by decide +kernel
  rw [buildNftRuleset, hfold]
  dsimp only
  rw [foldl_nftRuleLine, Nft.linesText_append, Nft.linesText_append, htable]

/-! ## Reading the script -/

theorem breaks_notMem_toDigits (n : ℕ) : ' ' ∉ Nat.toDigits 10 n ∧ '\n' ∉ Nat.toDigits 10 n := by
  have hdigit : ∀ c ∈ Nat.toDigits 10 n, c.isDigit := fun c hc =>
    Nat.isDigit_of_mem_toDigits (by decide) (by decide) hc
  exact ⟨fun hc => absurd (hdigit _ hc) (by decide), fun hc => absurd (hdigit _ hc) (by decide)⟩

theorem isWord_repr (n : ℕ) : Nft.IsWord n.repr := by
  refine ⟨fun hnil => ?_, by simpa using (breaks_notMem_toDigits n).1,
    by simpa using (breaks_notMem_toDigits n).2⟩
  have hempty : Nat.toDigits 10 n = [] := by simpa using congrArg String.toList hnil
  exact Nat.toDigits_ne_nil hempty

theorem ValidCidr.isWord {c : String} (h : ValidCidr c) : Nft.IsWord c := by
  obtain ⟨n, p, -, rfl⟩ := h
  have hoctet : ∀ m : UInt32, ' ' ∉ octetDigits m ∧ '\n' ∉ octetDigits m := fun m =>
    breaks_notMem_toDigits m.toNat
  refine ⟨fun hnil => ?_, ?_, ?_⟩
  · have hslash : '/' ∈ (cidrText n p).toList := by simp [cidrText]
    rw [hnil] at hslash
    simp at hslash
  · simp [cidrText, formatIpv4, hoctet, breaks_notMem_toDigits p]
  · simp [cidrText, formatIpv4, hoctet, breaks_notMem_toDigits p]

theorem isWord_hook (chain : String) : Nft.IsWord (nftHookFor chain) := by
  unfold nftHookFor
  split <;> decide

theorem isWord_action (action : FirewallAction) : Nft.IsWord (nftAction action) := by
  cases action <;> decide

theorem FirewallRule.WellFormed.isWord {rule : FirewallRule} (h : rule.WellFormed) :
    ∀ w ∈ exprWords rule, Nft.IsWord w := by
  have hproto : ∀ w ∈ protoWords rule, Nft.IsWord w := by
    unfold protoWords
    have hdport : ∀ d : UInt16, Nft.IsWord d.toNat.repr := fun d => isWord_repr d.toNat
    have hlit : Nft.IsWord "tcp" ∧ Nft.IsWord "dport" := by decide
    cases hp : rule.proto with
    | none => cases rule.dport <;> simp [hdport, hlit]
    | some p =>
      have hname : Nft.IsWord (toAsciiLowercase p) := by
        have hmem := h.proto p hp
        simp only [List.mem_cons, List.not_mem_nil, or_false] at hmem
        obtain hmem | hmem | hmem := hmem <;> rw [hmem] <;> decide
      cases rule.dport <;> simp [hdport, hlit, hname]
  have hlit : Nft.IsWord "ip" ∧ Nft.IsWord "saddr" ∧ Nft.IsWord "daddr" := by decide
  have haddr : (∀ c ∈ rule.srcCidr, Nft.IsWord c) ∧ ∀ c ∈ rule.dstCidr, Nft.IsWord c :=
    ⟨fun c hc => (h.src c hc).isWord, fun c hc => (h.dst c hc).isWord⟩
  unfold exprWords
  cases hs : rule.srcCidr <;> cases hd : rule.dstCidr <;> simp_all [or_imp]

/-- The rule that is read for a rule with ports. -/
def nftRule (rule : FirewallRule) : Nft.Rule where
  conds := (rule.srcCidr.map .saddr).toList ++ ((rule.dstCidr.map .daddr).toList ++
    (rule.dport.map (.dport ((rule.proto.map toAsciiLowercase).getD "tcp"))).toList)
  verdict := match rule.action with
    | .allow => .accept
    | .deny => .drop

theorem readRule_action (action : FirewallAction) : Nft.readRule [nftAction action] =
    some ⟨[], match action with
      | .allow => .accept
      | .deny => .drop⟩ := by
  cases action <;> rfl

/-- The addresses are always read. -/
theorem readRule_exprWords (rule : FirewallRule) (rest : List String) :
    Nft.readRule (exprWords rule ++ rest) = (Nft.readRule (protoWords rule ++ rest)).map fun r =>
      { r with conds := (rule.srcCidr.map .saddr).toList ++
        ((rule.dstCidr.map .daddr).toList ++ r.conds) } := by
  unfold exprWords
  cases rule.srcCidr with
  | none =>
    cases rule.dstCidr with
    | none => simp
    | some dst =>
      simp only [List.nil_append, List.cons_append, Nft.readRule]
      rfl
  | some src =>
    cases rule.dstCidr with
    | none =>
      simp only [List.nil_append, List.cons_append, Nft.readRule]
      rfl
    | some dst =>
      simp only [List.nil_append, List.cons_append, Nft.readRule, Option.map_map]
      rfl

/-- A rule with ports is read. -/
theorem readRule_of_ported {rule : FirewallRule} (hp : rule.Ported) :
    Nft.readRule (exprWords rule ++ [nftAction rule.action]) = some (nftRule rule) := by
  rw [readRule_exprWords]
  have hproto : Nft.readRule (protoWords rule ++ [nftAction rule.action]) = some
      ⟨(rule.dport.map (.dport ((rule.proto.map toAsciiLowercase).getD "tcp"))).toList,
        (nftRule rule).verdict⟩ := by
    have hact := readRule_action rule.action
    cases hproto : rule.proto with
    | none =>
      cases hdport : rule.dport with
      | none =>
        simp only [protoWords, hproto, hdport, List.nil_append]
        exact hact
      | some dport =>
        simp only [protoWords, hproto, hdport, List.cons_append, List.nil_append, Nft.readRule,
          Net.readPort_toString, hact]
        rfl
    | some proto =>
      obtain ⟨hname, hport⟩ := hp proto hproto
      obtain ⟨dport, hdport⟩ := Option.ne_none_iff_exists'.1 hport
      simp only [List.mem_cons, List.not_mem_nil, or_false] at hname
      obtain hname | hname := hname
      · simp only [protoWords, hproto, hdport, hname, List.cons_append, List.nil_append,
          Nft.readRule, Net.readPort_toString, hact, Option.map_some]
        rfl
      · simp only [protoWords, hproto, hdport, hname, List.cons_append, List.nil_append,
          Nft.readRule, Net.readPort_toString, hact, Option.map_some]
        rfl
  rw [hproto]
  rfl

/-- A protocol without a port is not read. -/
theorem readRule_of_not_ported {rule : FirewallRule} (h : rule.WellFormed) (hp : ¬rule.Ported) :
    Nft.readRule (exprWords rule ++ [nftAction rule.action]) = none := by
  rw [readRule_exprWords, Option.map_eq_none_iff]
  cases hproto : rule.proto with
  | none => exact absurd (fun p hp' => absurd (hproto.symm.trans hp') (by simp)) hp
  | some proto =>
    have hname := h.proto proto hproto
    cases hdport : rule.dport with
    | none =>
      simp only [protoWords, hproto, hdport]
      simp only [List.mem_cons, List.not_mem_nil, or_false] at hname
      obtain hname | hname | hname := hname <;> rw [hname] <;> cases rule.action <;> rfl
    | some dport =>
      have hicmp : toAsciiLowercase proto = "icmp" := by
        by_contra hne
        refine hp fun p hp' => ?_
        obtain rfl := Option.some.inj (hproto.symm.trans hp')
        simp only [List.mem_cons, List.not_mem_nil, or_false] at hname ⊢
        exact ⟨by tauto, by simp [hdport]⟩
      simp only [protoWords, hproto, hdport, hicmp]
      cases rule.action <;> rfl

/-- The commands of the script. -/
def nftScript (hooks : List String) (rules : List FirewallRule) : List Nft.Statement :=
  [.addTable nftTable, .deleteTable nftTable, .addTable nftTable] ++
    hooks.map (fun hook => .addChain nftTable hook hook) ++
    (rules.map fun rule => (nftHookFor rule.chain, nftRule rule)).map fun r =>
      .addRule nftTable r.1 r.2

section Read

variable {rules : List FirewallRule} {hooks : List String}

theorem isWord_chainWords {hook : String} (h : Nft.IsWord hook) :
    ∀ w ∈ ["add", "chain", "inet", nftTable, hook, "\x7b", "type", "filter", "hook", hook,
      "priority", "0;", "policy", "accept;"], Nft.IsWord w := by
  have hlit : ∀ w ∈ ["add", "chain", "inet", nftTable, "\x7b", "type", "filter", "hook", "priority",
      "0;", "policy", "accept;"], Nft.IsWord w := by decide +kernel
  intro w hw
  by_cases hwh : w = hook
  · exact hwh ▸ h
  · refine hlit w ?_
    simp only [List.mem_cons, hwh, false_or] at hw ⊢
    exact hw

theorem FirewallRule.WellFormed.isWord_line {rule : FirewallRule} (h : rule.WellFormed) :
    ∀ w ∈ ["add", "rule", "inet", nftTable, nftHookFor rule.chain] ++ exprWords rule,
      Nft.IsWord w := by
  have hlit : ∀ w ∈ ["add", "rule", "inet", nftTable], Nft.IsWord w := by decide +kernel
  intro w hw
  rcases List.mem_append.1 hw with hw | hw
  · rcases List.mem_append.1 (show w ∈ ["add", "rule", "inet", nftTable] ++
      [nftHookFor rule.chain] from hw) with hw | hw
    · exact hlit w hw
    · exact List.mem_singleton.1 hw ▸ isWord_hook rule.chain
  · exact h.isWord w hw

/-- The lines of a script are lines. -/
theorem lines_ok (hrules : ∀ r ∈ rules, r.WellFormed) (hhooks : ∀ hook ∈ hooks, Nft.IsWord hook) :
    ∀ l ∈ tableLines ++ hooks.map chainLine ++ rules.map ruleLine, '\n' ∉ l.toList ∧ l.toList ≠ [] := by
  intro l hl
  rw [List.append_assoc, List.mem_append, List.mem_append, List.mem_map, List.mem_map] at hl
  obtain hl | ⟨hook, hhook, rfl⟩ | ⟨rule, hrule, rfl⟩ := hl
  · revert l
    decide +kernel
  · exact Nft.newline_notMem_lineOf (isWord_chainWords (hhooks hook hhook)) (by decide)
  · exact Nft.newline_notMem_lineOf (hrules rule hrule).isWord_line (isWord_action _)

theorem readLine_chainLine {hook : String} (h : Nft.IsWord hook) :
    Nft.readLine (chainLine hook).toList = some (.addChain nftTable hook hook) := by
  rw [chainLine, Nft.readLine_lineOf (isWord_chainWords h) (by decide)]
  rfl

theorem readLine_ruleLine {rule : FirewallRule} (h : rule.WellFormed) :
    Nft.readLine (ruleLine rule).toList =
      (Nft.readRule (exprWords rule ++ [nftAction rule.action])).map
        (.addRule nftTable (nftHookFor rule.chain)) := by
  rw [ruleLine, Nft.readLine_lineOf h.isWord_line (isWord_action _), List.append_assoc]
  simp only [List.cons_append, List.nil_append, Nft.readWords]

/-- **The script is read if and only if every protocol comes with a port.** -/
theorem readScript_buildNftRuleset (hrules : ∀ r ∈ rules, r.WellFormed) :
    ∃ hooks : List String, hooks.Nodup ∧
      (∀ hook, hook ∈ hooks ↔ ∃ r ∈ rules, nftHookFor r.chain = hook) ∧
      ((∀ r ∈ rules, r.Ported) →
        Nft.readScript (buildNftRuleset rules) = some (nftScript hooks rules)) ∧
      ((Nft.readScript (buildNftRuleset rules)).isSome → ∀ r ∈ rules, r.Ported) := by
  obtain ⟨hooks, hnodup, hmem, htext⟩ := exists_buildNftRuleset_eq rules
  have hwords : ∀ hook ∈ hooks, Nft.IsWord hook := by
    intro hook hhook
    obtain ⟨r, -, rfl⟩ := (hmem hook).1 hhook
    exact isWord_hook r.chain
  refine ⟨hooks, hnodup, hmem, fun hported => ?_, fun hsome r hr => ?_⟩
  · have htable : tableLines.mapM (fun l => Nft.readLine l.toList) =
        some [.addTable nftTable, .deleteTable nftTable, .addTable nftTable] := by decide +kernel
    have hchains : (hooks.map chainLine).mapM (fun l => Nft.readLine l.toList) =
        some (hooks.map fun hook => .addChain nftTable hook hook) := by
      rw [List.mapM_map]
      refine Nft.mapM_eq_some_map fun hook hhook => ?_
      rw [Function.comp_apply, readLine_chainLine (hwords hook hhook)]
    have hlines : (rules.map ruleLine).mapM (fun l => Nft.readLine l.toList) =
        some (rules.map fun rule => .addRule nftTable (nftHookFor rule.chain) (nftRule rule)) := by
      rw [List.mapM_map]
      refine Nft.mapM_eq_some_map fun rule hrule => ?_
      rw [Function.comp_apply, readLine_ruleLine (hrules rule hrule),
        readRule_of_ported (hported rule hrule)]
      rfl
    rw [htext, Nft.readScript_linesText (lines_ok hrules hwords), List.mapM_append,
      List.mapM_append, htable, hchains, hlines, nftScript, List.map_map]
    rfl
  · by_contra hnot
    rw [htext, Nft.readScript_linesText (lines_ok hrules hwords)] at hsome
    have hline := Nft.isSome_of_mapM hsome (ruleLine r)
      (List.mem_append_right _ (List.mem_map_of_mem hr))
    rw [readLine_ruleLine (hrules r hr), readRule_of_not_ported (hrules r hr) hnot] at hline
    simp at hline

end Read

end OCF.Kernel
