import OCF.Network.PolicyConvergence
import Mathlib.Data.Finset.Max
import Mathlib.Data.List.Find

/-!
# What the two renderings of a policy do to a packet

The nftables rendering has a chain for each direction, and the first matching rule of the chain of
the packet's direction decides. The Open vSwitch rendering has one table without directions, and a
matching flow of the highest priority decides.

* Both renderings of a rule match the same packets, in terms of how the tools read the rule
  (`AclRule.MatchesIn`, `hits_nftRule`, `holds_ovsFlow`). `AclRule.Applies` is what a valid rule says of
  a packet, and a lawful tool reads it so (`matchesIn_eq_applies`).
* `nftVerdict_eq`: in nftables the first rule of the packet's direction that applies decides.
* `outcome_iff`: in Open vSwitch any rule decides that applies, has the highest priority of those
  that do, whatever their direction, and is not replaced by a later one (`Decides`). The argument
  does not depend on what it means to apply (`DecidesBy`, `outcome_iff_of_holds`).
* `verdictsAgree_iff` compares the two. `forall_decides_iff_first` puts its condition in terms of the
  first rule that applies where no two rules have the same priority.
-/

namespace OCF.Network

open Text
open OpenFlow (FlowTable Spec Match readFields addFlow Outcome)

/-- The remote address of a packet: where it comes from or where it goes. -/
def remoteAddr (pkt : Net.Packet) : AclDirection → UInt32
  | .ingress => pkt.src
  | .egress => pkt.dst

/-- Whether the protocol and the port of a rule fit a packet: a rule for any protocol with a port is
about TCP, and only TCP and UDP rules look at the port otherwise. -/
def AclRule.FitsProto (rule : AclRule) (pkt : Net.Packet) : Bool :=
  let proto := toAsciiLowercase rule.proto
  if proto = "tcp" then pkt.proto = 6 && rule.port.all fun port => pkt.dport = some port
  else if proto = "udp" then pkt.proto = 17 && rule.port.all fun port => pkt.dport = some port
  else if proto = "icmp" then pkt.proto = 1
  else rule.port.all fun port => pkt.proto = 6 && pkt.dport = some port

/-- Whether a rule is about a packet: its address, protocol and port fit. -/
def AclRule.Applies (rule : AclRule) (pkt : Net.Packet) : Bool :=
  ((controllerLexicon.addr rule.cidr).any fun b => b.contains (remoteAddr pkt rule.direction)) &&
    rule.FitsProto pkt

/-- A rule with a CIDR in its usual notation and one of the four protocol names. -/
structure ValidRule (rule : AclRule) : Prop where
  cidr : ∃ n p, p ≤ 32 ∧ rule.cidr = cidrText n p
  proto : toAsciiLowercase rule.proto ∈ ["tcp", "udp", "icmp", "any"]

/-! ## What a rule matches -/

/-- Whether a tool that reads addresses and protocols with the lexicon takes the rule to match a
packet. -/
def AclRule.MatchesIn (lex : Net.Lexicon) (rule : AclRule) (pkt : Net.Packet) : Bool :=
  (!rule.hasAddr || (lex.addr rule.cidr).any fun b => b.contains (remoteAddr pkt rule.direction)) &&
    let proto := toAsciiLowercase rule.proto
    if proto ≠ "any" ∧ proto ≠ "" then
      lex.proto proto = some pkt.proto &&
        (!(proto = "tcp" ∨ proto = "udp") || rule.port.all fun port => pkt.dport = some port)
    else rule.port.all fun port => lex.proto "tcp" = some pkt.proto && pkt.dport = some port

section

variable {lex : Net.Lexicon} {rule : AclRule} {pkt : Net.Packet}

/-- A lawful reading of a rule's CIDR is the controller's. -/
theorem any_contains_eq (hlex : LawfulLexicon lex) (hr : ValidRule rule) (m : UInt32) :
    ∃ b, lex.addr rule.cidr = some b ∧
      b.contains m = (controllerLexicon.addr rule.cidr).any fun c => c.contains m := by
  obtain ⟨n, p, hp, hc⟩ := hr.cidr
  obtain ⟨b, hb, hbm⟩ := hlex.cidr n p hp
  obtain ⟨c, hcc, hcm⟩ := lawful_controllerLexicon.cidr n p hp
  refine ⟨b, hc ▸ hb, ?_⟩
  rw [hc, hcc, Option.any_some, hbm, hcm]

/-- A rule without an address is about every address. -/
theorem any_contains_of_not_hasAddr (hr : ValidRule rule) (h : rule.hasAddr = false) (m : UInt32) :
    ((controllerLexicon.addr rule.cidr).any fun c => c.contains m) = true := by
  have hcidr : rule.cidr = "0.0.0.0/0" := by
    obtain ⟨n, p, -, hc⟩ := hr.cidr
    have hne : rule.cidr ≠ "" := by
      intro e
      have := congrArg String.toList (hc.symm.trans e)
      simp [cidrText] at this
    by_contra hne'
    simp [AclRule.hasAddr, hne, hne'] at h
  have hread : controllerLexicon.addr "0.0.0.0/0" = some ⟨0, 0⟩ := by decide
  rw [hcidr, hread, Option.any_some, Net.Block.contains_of_len_zero rfl]

/-- **A lawful reading of a valid rule** matches the packets the rule applies to. -/
theorem matchesIn_eq_applies (hlex : LawfulLexicon lex) (hr : ValidRule rule) (pkt : Net.Packet) :
    rule.MatchesIn lex pkt = rule.Applies pkt := by
  rw [AclRule.MatchesIn, AclRule.Applies]
  congr 1
  · obtain ⟨b, hb, hbm⟩ := any_contains_eq hlex hr (remoteAddr pkt rule.direction)
    rw [hb, Option.any_some, hbm]
    cases ha : rule.hasAddr with
    | false => rw [any_contains_of_not_hasAddr hr ha, Bool.or_true]
    | true => rfl
  · have hproto := hr.proto
    simp only [List.mem_cons, List.not_mem_nil, or_false] at hproto
    have hcomm : ∀ k : UInt8, (k = pkt.proto) = (pkt.proto = k) := fun k => propext eq_comm
    rw [AclRule.FitsProto]
    rcases hproto with h | h | h | h <;> cases hport : rule.port <;>
      simp [h, hlex.tcp, hlex.udp, hlex.icmp, hcomm]

/-- The line of a rule matches what the rule does. -/
theorem hits_nftRule (pkt : Net.Packet) : (nftRule rule).Hits lex pkt = rule.MatchesIn lex pkt := by
  rw [Nft.Rule.Hits, nftRule, List.all_append, AclRule.MatchesIn]
  congr 1
  · cases rule.hasAddr with
    | false => rfl
    | true => cases hd : rule.direction <;> simp [nftAddrMatch, Nft.Match.Holds, remoteAddr]
  · dsimp only
    split_ifs with hproto hl4
    · cases rule.port <;> simp [hl4, Nft.Match.Holds]
    · simp [hl4, Nft.Match.Holds]
    · cases rule.port <;> simp [Nft.Match.Holds]

/-- The address part of a flow. -/
theorem run_set_addr {m : Match} (h : run (Match.set lex) .all
      (if rule.hasAddr then [ovsAddrField rule.direction rule.cidr] else []) = some m) :
    m.nwProto = none ∧ m.tpDst = none ∧ ∀ pkt : Net.Packet,
      (m.nwSrc.all (fun b => b.contains pkt.src) && m.nwDst.all (fun b => b.contains pkt.dst)) =
        (!rule.hasAddr ||
          (lex.addr rule.cidr).any fun b => b.contains (remoteAddr pkt rule.direction)) := by
  cases ha : rule.hasAddr with
  | false =>
    rw [ha] at h
    obtain rfl := Option.some.inj h
    exact ⟨rfl, rfl, fun _ => rfl⟩
  | true =>
    rw [ha, if_pos rfl, run_cons] at h
    obtain ⟨m', hm', hnil⟩ := Option.bind_eq_some_iff.1 h
    obtain rfl := Option.some.inj hnil
    cases hd : rule.direction with
    | ingress =>
      rw [hd] at hm'
      obtain ⟨b, hb, rfl⟩ := Option.map_eq_some_iff.1 hm'
      refine ⟨rfl, rfl, fun pkt => ?_⟩
      simp [Match.all, hb, remoteAddr, Net.Block.all_normalize]
    | egress =>
      rw [hd] at hm'
      obtain ⟨b, hb, rfl⟩ := Option.map_eq_some_iff.1 hm'
      refine ⟨rfl, rfl, fun pkt => ?_⟩
      simp [Match.all, hb, remoteAddr, Net.Block.all_normalize]

/-- The flow of a rule matches what the rule does. -/
theorem holds_ovsFlow {prio : ℕ} {m : Match} (h : readFields lex (ovsFlow rule prio).fields = some m)
    (pkt : Net.Packet) : m.Holds pkt = rule.MatchesIn lex pkt := by
  rw [readFields, ovsFlow, run_append, Option.bind_eq_some_iff] at h
  obtain ⟨m₀, hm₀, h⟩ := h
  obtain ⟨hproto, htp, haddr⟩ := run_set_addr hm₀
  rw [Match.Holds, AclRule.MatchesIn, ← haddr pkt, Bool.and_assoc]
  dsimp only at h ⊢
  split_ifs at h ⊢ with hany hl4
  · rw [run_cons, Option.bind_eq_some_iff] at h
    obtain ⟨m₁, hm₁, h⟩ := h
    obtain ⟨k, hk, rfl⟩ := Option.map_eq_some_iff.1 hm₁
    cases hport : rule.port with
    | none =>
      rw [hport] at h
      obtain rfl := Option.some.inj h
      simp [hk, hl4, htp]
    | some port =>
      rw [hport] at h
      obtain rfl := Option.some.inj h
      simp [hk, hl4]
  · rw [run_cons, Option.bind_eq_some_iff] at h
    obtain ⟨m₁, hm₁, h⟩ := h
    obtain ⟨k, hk, rfl⟩ := Option.map_eq_some_iff.1 hm₁
    obtain rfl := Option.some.inj h
    simp [hk, hl4, htp]
  · cases hport : rule.port with
    | none =>
      rw [hport] at h
      obtain rfl := Option.some.inj h
      simp [hproto, htp]
    | some port =>
      rw [hport, run_cons, Option.bind_eq_some_iff] at h
      obtain ⟨m₁, hm₁, h⟩ := h
      obtain ⟨k, hk, rfl⟩ := Option.map_eq_some_iff.1 hm₁
      obtain rfl := Option.some.inj h
      simp [hk]

/-- The flow of a valid rule can be read. -/
theorem isSome_readFields_ovsFlow (hlex : LawfulLexicon lex) (hr : ValidRule rule) (prio : ℕ) :
    (readFields lex (ovsFlow rule prio).fields).isSome := by
  obtain ⟨b, hb, -⟩ := any_contains_eq hlex hr 0
  have hproto := hr.proto
  simp only [List.mem_cons, List.not_mem_nil, or_false] at hproto
  obtain ⟨m, hm⟩ : ∃ m, run (Match.set lex) .all
      (if rule.hasAddr then [ovsAddrField rule.direction rule.cidr] else []) = some m := by
    cases rule.hasAddr with
    | false => exact ⟨_, rfl⟩
    | true => cases rule.direction <;> simp [run, ovsAddrField, Match.set, hb]
  rw [readFields, ovsFlow, run_append, hm, Option.bind_some]
  rcases hproto with h | h | h | h <;> cases hport : rule.port <;>
    simp [h, run, Match.set, hlex.tcp, hlex.udp, hlex.icmp]

end

/-! ## nftables -/

/-- The verdict of the rendered table: that of the chain of the packet's direction, and to accept
when there is no such chain. -/
def nftVerdict (lex : Net.Lexicon) (policy : FirewallPolicy) (direction : AclDirection)
    (pkt : Net.Packet) : Nft.Verdict :=
  ((policyChains policy).find? fun c => c.hook = nftHook direction).elim .accept fun c =>
    c.verdict lex pkt

/-- What a policy says of a packet: the first rule of its direction that applies, and to allow when
there is none. -/
def policyAction (policy : FirewallPolicy) (direction : AclDirection) (pkt : Net.Packet) : AclAction :=
  ((policy.rules.filter fun r => r.direction = direction).find? fun r => r.Applies pkt).elim .allow
    AclRule.action

/-- What the first rule of a direction that matches says, and to allow when there is none. -/
def actionIn (lex : Net.Lexicon) (policy : FirewallPolicy) (direction : AclDirection)
    (pkt : Net.Packet) : AclAction :=
  ((policy.rules.filter fun r => r.direction = direction).find? fun r => r.MatchesIn lex pkt).elim
    .allow AclRule.action

/-- The verdict for an action. -/
def verdictOf : AclAction → Nft.Verdict
  | .allow => .accept
  | .deny => .drop

/-- The flow action for an action. -/
def flowActionOf : AclAction → OpenFlow.Action
  | .allow => .normal
  | .deny => .drop

theorem nftRule_verdict (rule : AclRule) : (nftRule rule).verdict = verdictOf rule.action := by
  cases h : rule.action <;> simp [nftRule, verdictOf, h]

theorem ovsFlow_action (rule : AclRule) (prio : ℕ) :
    (ovsFlow rule prio).action = flowActionOf rule.action := by
  cases h : rule.action <;> simp [ovsFlow, flowActionOf, h]

section

variable {lex : Net.Lexicon} {policy : FirewallPolicy}

/-- The chain of a direction does what its first matching rule says. -/
theorem policyChain_verdict (direction : AclDirection) (pkt : Net.Packet) :
    (policyChain policy direction).verdict lex pkt =
      verdictOf (actionIn lex policy direction pkt) := by
  have hfind : (policy.rules.filter fun r => r.direction = direction).find?
      ((fun r => r.Hits lex pkt) ∘ nftRule) =
      (policy.rules.filter fun r => r.direction = direction).find? fun r => r.MatchesIn lex pkt :=
    List.find?_congr fun r _ => hits_nftRule pkt
  rw [Nft.Chain.verdict, policyChain, List.find?_map, hfind, actionIn]
  cases (policy.rules.filter fun r => r.direction = direction).find? fun r => r.MatchesIn lex pkt with
  | none => rfl
  | some r => exact nftRule_verdict r

/-- Without a rule that matches, a policy allows. -/
theorem actionIn_eq_allow {direction : AclDirection} {pkt : Net.Packet}
    (h : ∀ r ∈ policy.rules, r.direction = direction → r.MatchesIn lex pkt = false) :
    actionIn lex policy direction pkt = .allow := by
  rw [actionIn, List.find?_eq_none.2]
  · rfl
  · intro r hr
    obtain ⟨hr, hd⟩ := List.mem_filter.1 hr
    simp [h r hr (by simpa using hd)]

/-- For valid rules the tools take the action that the policy says. -/
theorem actionIn_eq_policyAction (hlex : LawfulLexicon lex) (hvalid : ∀ r ∈ policy.rules, ValidRule r)
    (direction : AclDirection) (pkt : Net.Packet) :
    actionIn lex policy direction pkt = policyAction policy direction pkt := by
  have hfind : (policy.rules.filter fun r => r.direction = direction).find?
      (fun r => r.MatchesIn lex pkt) =
      (policy.rules.filter fun r => r.direction = direction).find? fun r => r.Applies pkt := by
    refine List.find?_congr fun r hr => ?_
    exact matchesIn_eq_applies hlex (hvalid r (List.mem_of_mem_filter hr)) pkt
  rw [actionIn, hfind, policyAction]

end

theorem nftHook_inj {d direction : AclDirection} : nftHook d = nftHook direction ↔ d = direction := by
  cases d <;> cases direction <;> decide

/-- The chain of a direction is rendered when the policy has rules of that direction. -/
theorem find?_policyChains (policy : FirewallPolicy) (direction : AclDirection) :
    (policyChains policy).find? (fun c => c.hook = nftHook direction) =
      if policy.rules.any fun r => r.direction = direction then some (policyChain policy direction)
      else none := by
  have hcongr : ((fun c : Nft.Chain => decide (c.hook = nftHook direction)) ∘ policyChain policy) =
      fun d => decide (d = direction) := by
    funext d
    exact decide_eq_decide.2 nftHook_inj
  rw [policyChains, List.find?_map, List.find?_filter, hcongr]
  cases direction with
  | ingress =>
    by_cases h : ∃ r ∈ policy.rules, r.direction = .ingress <;> simp [h]
  | egress =>
    by_cases h : ∃ r ∈ policy.rules, r.direction = .egress <;> simp [h]

/-- **nftables** does what the first rule of the packet's direction says. -/
theorem nftVerdict_eq {lex : Net.Lexicon} (hlex : LawfulLexicon lex) {policy : FirewallPolicy}
    (hvalid : ∀ r ∈ policy.rules, ValidRule r) (direction : AclDirection) (pkt : Net.Packet) :
    nftVerdict lex policy direction pkt = verdictOf (policyAction policy direction pkt) := by
  rw [nftVerdict, find?_policyChains]
  split_ifs with huse
  · rw [Option.elim_some, policyChain_verdict, actionIn_eq_policyAction hlex hvalid]
  · rw [← actionIn_eq_policyAction hlex hvalid, actionIn_eq_allow fun r hr hd => ?_]
    · rfl
    · exact absurd (List.any_eq_true.2 ⟨r, hr, decide_eq_true hd⟩) huse

/-! ## Open vSwitch -/

/-- The match and priority of the rule at a position. -/
def ruleKey (lex : Net.Lexicon) (e : AclRule × ℕ) : Match × ℕ :=
  flowKey lex (ovsFlow e.1 (flowPriority e.2))

/-- The rule at a position can decide what happens to a packet: it applies, no rule that applies has
a higher priority, and no later rule has taken its match and priority. What it means to apply is a
parameter. -/
def DecidesBy (lex : Net.Lexicon) (app : AclRule → Bool) (rules : List AclRule)
    (e : AclRule × ℕ) : Prop :=
  e ∈ rules.zipIdx ∧ app e.1 = true ∧
  (∀ e' ∈ rules.zipIdx, app e'.1 = true → flowPriority e'.2 ≤ flowPriority e.2) ∧
  lastWith (ruleKey lex) rules.zipIdx (ruleKey lex e) = some e

/-- The rule at a position can decide what happens to a packet that it is about. -/
def Decides (lex : Net.Lexicon) (rules : List AclRule) (pkt : Net.Packet) : AclRule × ℕ → Prop :=
  DecidesBy lex (fun r => r.Applies pkt) rules

section

variable {lex : Net.Lexicon} {policy : FirewallPolicy} {pkt : Net.Packet}

theorem validRule_of_mem_zipIdx {rules : List AclRule} (hvalid : ∀ r ∈ rules, ValidRule r)
    {e : AclRule × ℕ} (he : e ∈ rules.zipIdx) : ValidRule e.1 :=
  hvalid e.1 (List.fst_mem_of_mem_zipIdx he)

theorem ruleKey_holds_of_readable {e : AclRule × ℕ}
    (h : (readFields lex (ovsFlow e.1 (flowPriority e.2)).fields).isSome) :
    (ruleKey lex e).1.Holds pkt = e.1.MatchesIn lex pkt := by
  obtain ⟨m, hm⟩ := Option.isSome_iff_exists.1 h
  rw [ruleKey, flowKey, hm, Option.getD_some, holds_ovsFlow hm]

theorem ruleKey_holds (hlex : LawfulLexicon lex) {e : AclRule × ℕ} (hr : ValidRule e.1) :
    (ruleKey lex e).1.Holds pkt = e.1.Applies pkt := by
  rw [ruleKey_holds_of_readable (isSome_readFields_ovsFlow hlex hr _), matchesIn_eq_applies hlex hr]

/-- The flows after a policy was applied to a bridge. -/
theorem lookup_applyPolicy_ovs_from {table table' : FlowTable}
    (h : OvsBackend.applyPolicy lex table policy = some table') (key : Match × ℕ) :
    table'.lookup key = (lastWith (ruleKey lex) policy.rules.zipIdx key).elim (table.lookup key)
      fun e => some (flowActionOf e.1.action) := by
  rw [run_read (fun table key => table.lookup key) lookup_addFlow h key, ovsFlows, lastWith_map]
  change Option.elim (Option.map _ (lastWith (ruleKey lex) policy.rules.zipIdx key)) _ _ = _
  cases lastWith (ruleKey lex) policy.rules.zipIdx key with
  | none => rfl
  | some e => simp [ovsFlow_action]

/-- The flows after a policy was applied to a bridge without flows. -/
theorem lookup_applyPolicy_ovs {table : FlowTable}
    (h : OvsBackend.applyPolicy lex ∅ policy = some table) (key : Match × ℕ) :
    table.lookup key = (lastWith (ruleKey lex) policy.rules.zipIdx key).map fun e =>
      flowActionOf e.1.action := by
  rw [lookup_applyPolicy_ovs_from h]
  cases lastWith (ruleKey lex) policy.rules.zipIdx key with
  | none => rfl
  | some e => rfl

/-- Every rule has a flow under its match and priority. -/
theorem ruleKey_mem {table table' : FlowTable}
    (h : OvsBackend.applyPolicy lex table policy = some table') {e : AclRule × ℕ}
    (he : e ∈ policy.rules.zipIdx) : ruleKey lex e ∈ table' := by
  obtain ⟨e', hlast, -, -⟩ : ∃ e', lastWith (ruleKey lex) policy.rules.zipIdx (ruleKey lex e) =
      some e' ∧ e' ∈ policy.rules.zipIdx ∧ ruleKey lex e' = ruleKey lex e := lastWith_of_mem he
  rw [HashMap.mem_iff_exists_lookup]
  exact ⟨_, by rw [lookup_applyPolicy_ovs_from h, hlast]; rfl⟩

/-- Every flow was there before or is that of a rule. -/
theorem exists_rule_of_mem {table table' : FlowTable}
    (h : OvsBackend.applyPolicy lex table policy = some table') {key : Match × ℕ}
    (hk : key ∈ table') : key ∈ table ∨ ∃ e ∈ policy.rules.zipIdx, ruleKey lex e = key := by
  obtain ⟨act, hact⟩ := HashMap.mem_iff_exists_lookup.1 hk
  rw [lookup_applyPolicy_ovs_from h] at hact
  cases hlast : lastWith (ruleKey lex) policy.rules.zipIdx key with
  | none =>
    rw [hlast] at hact
    exact .inl (HashMap.mem_iff_exists_lookup.2 ⟨act, hact⟩)
  | some e => exact .inr ⟨e, lastWith_eq_some_key hlast⟩

theorem exists_rule_of_mem_empty {table : FlowTable}
    (h : OvsBackend.applyPolicy lex ∅ policy = some table) {key : Match × ℕ} (hk : key ∈ table) :
    ∃ e ∈ policy.rules.zipIdx, ruleKey lex e = key :=
  (exists_rule_of_mem h hk).resolve_left (AList.notMem_empty key)

/-- What a rule that can decide says can happen, if nothing that was there before outranks it. -/
theorem outcome_of_decidesBy (app : AclRule → Bool)
    (hholds : ∀ e ∈ policy.rules.zipIdx, (ruleKey lex e).1.Holds pkt = app e.1)
    {table table' : FlowTable} (h : OvsBackend.applyPolicy lex table policy = some table')
    {e : AclRule × ℕ} (he : DecidesBy lex app policy.rules e)
    (hbase : ∀ m prio, (m, prio) ∈ table → m.Holds pkt = true → prio ≤ flowPriority e.2) :
    Outcome table' pkt (flowActionOf e.1.action) := by
  obtain ⟨he, happ, hmax, hlast⟩ := he
  refine .inl ⟨(ruleKey lex e).1, (ruleKey lex e).2, ?_, by rw [hholds e he, happ], ?_⟩
  · rw [lookup_applyPolicy_ovs_from h, hlast]
    rfl
  · intro m' prio' hmem hm'
    rcases exists_rule_of_mem h hmem with hold | ⟨e', he', hkey'⟩
    · exact hbase m' prio' hold hm'
    · have h₁ : m' = (ruleKey lex e').1 := by rw [hkey']
      have h₂ : prio' = (ruleKey lex e').2 := by rw [hkey']
      rw [h₁, hholds e' he'] at hm'
      rw [h₂]
      exact hmax e' he' hm'

/-- **Open vSwitch** does what a rule that can decide says, and forwards when no rule applies,
whatever it means to apply. -/
theorem outcome_iff_of_holds (app : AclRule → Bool)
    (hholds : ∀ e ∈ policy.rules.zipIdx, (ruleKey lex e).1.Holds pkt = app e.1)
    {table : FlowTable} (h : OvsBackend.applyPolicy lex ∅ policy = some table)
    (act : OpenFlow.Action) : Outcome table pkt act ↔
      (∃ e, DecidesBy lex app policy.rules e ∧ act = flowActionOf e.1.action) ∨
      (∀ r ∈ policy.rules, app r = false) ∧ act = .normal := by
  constructor
  · rintro (⟨m, prio, hlookup, hm, hmax⟩ | ⟨hnone, rfl⟩)
    · rw [lookup_applyPolicy_ovs h] at hlookup
      obtain ⟨e, hlast, rfl⟩ := Option.map_eq_some_iff.1 hlookup
      obtain ⟨he, hkey⟩ := lastWith_eq_some_key hlast
      obtain ⟨rfl, rfl⟩ := Prod.mk.inj hkey
      refine .inl ⟨e, ⟨he, by rw [← hholds e he]; exact hm, fun e' he' happ => ?_, hlast⟩, rfl⟩
      exact hmax _ _ (ruleKey_mem h he') ((hholds e' he').trans happ)
    · refine .inr ⟨fun r hr => ?_, rfl⟩
      obtain ⟨i, hi, rfl⟩ := List.mem_iff_getElem.1 hr
      have he : (policy.rules[i], i) ∈ policy.rules.zipIdx := by
        rw [List.mk_mem_zipIdx_iff_getElem?, List.getElem?_eq_getElem hi]
      rw [← hholds _ he]
      exact hnone _ _ (ruleKey_mem h he)
  · rintro (⟨e, he, rfl⟩ | ⟨hnone, rfl⟩)
    · exact outcome_of_decidesBy app hholds h he fun m prio hmem => absurd hmem (AList.notMem_empty _)
    · refine .inr ⟨fun m prio hmem => ?_, rfl⟩
      obtain ⟨e, he, hkey⟩ := exists_rule_of_mem_empty h hmem
      have h₁ : m = (ruleKey lex e).1 := by rw [hkey]
      rw [h₁, hholds e he]
      exact hnone e.1 (List.fst_mem_of_mem_zipIdx he)

/-- **Open vSwitch** does what a rule that can decide says, and forwards when no rule applies. -/
theorem outcome_iff (hlex : LawfulLexicon lex) (hvalid : ∀ r ∈ policy.rules, ValidRule r)
    {table : FlowTable} (h : OvsBackend.applyPolicy lex ∅ policy = some table)
    (act : OpenFlow.Action) : Outcome table pkt act ↔
      (∃ e, Decides lex policy.rules pkt e ∧ act = flowActionOf e.1.action) ∨
      (∀ r ∈ policy.rules, r.Applies pkt = false) ∧ act = .normal := by
  have hholds : ∀ e ∈ policy.rules.zipIdx, (ruleKey lex e).1.Holds pkt = e.1.Applies pkt :=
    fun e he => ruleKey_holds hlex (validRule_of_mem_zipIdx hvalid he)
  exact outcome_iff_of_holds (fun r => r.Applies pkt) hholds h act

/-- When a rule applies, some rule decides: the last one with the match and priority of an
applicable rule of the highest priority. -/
theorem exists_decidesBy (app : AclRule → Bool)
    (hholds : ∀ e ∈ policy.rules.zipIdx, (ruleKey lex e).1.Holds pkt = app e.1)
    {r : AclRule} (hr : r ∈ policy.rules) (happ : app r = true) :
    ∃ e, DecidesBy lex app policy.rules e := by
  obtain ⟨i, hi, rfl⟩ := List.mem_iff_getElem.1 hr
  have hne : (policy.rules.zipIdx.toFinset.filter fun e => app e.1 = true).Nonempty := by
    refine ⟨(policy.rules[i], i), Finset.mem_filter.2 ⟨List.mem_toFinset.2 ?_, happ⟩⟩
    rw [List.mk_mem_zipIdx_iff_getElem?, List.getElem?_eq_getElem hi]
  obtain ⟨e, he, hmax⟩ := Finset.exists_max_image _ (fun e => flowPriority e.2) hne
  obtain ⟨he, heapp⟩ := Finset.mem_filter.1 he
  obtain ⟨e', hlast, he', hkey⟩ : ∃ e', lastWith (ruleKey lex) policy.rules.zipIdx (ruleKey lex e) =
      some e' ∧ e' ∈ policy.rules.zipIdx ∧ ruleKey lex e' = ruleKey lex e :=
    lastWith_of_mem (List.mem_toFinset.1 he)
  refine ⟨e', he', ?_, fun x hx hxapp => ?_, hkey ▸ hlast⟩
  · rw [← hholds e' he', hkey, hholds e (List.mem_toFinset.1 he), heapp]
  · have hle := hmax x (Finset.mem_filter.2 ⟨List.mem_toFinset.2 hx, hxapp⟩)
    have hprio : flowPriority e'.2 = flowPriority e.2 := congrArg Prod.snd hkey
    exact hprio ▸ hle

theorem flowActionOf_injective : Function.Injective flowActionOf := by
  intro a b
  cases a <;> cases b <;> simp [flowActionOf]

/-- The only thing that can happen to a packet is a given action if and only if every rule that can
decide takes it; the action is to allow where no rule applies. -/
theorem outcome_eq_iff (app : AclRule → Bool)
    (hholds : ∀ e ∈ policy.rules.zipIdx, (ruleKey lex e).1.Holds pkt = app e.1)
    {table : FlowTable} (h : OvsBackend.applyPolicy lex ∅ policy = some table) {a : AclAction}
    (hallow : (∀ r ∈ policy.rules, app r = false) → a = .allow) :
    (∀ act, Outcome table pkt act ↔ act = flowActionOf a) ↔
      ∀ e, DecidesBy lex app policy.rules e → e.1.action = a := by
  constructor
  · intro honly e he
    exact flowActionOf_injective ((honly _).1 ((outcome_iff_of_holds app hholds h _).2 (.inl ⟨e, he, rfl⟩)))
  · intro hdecides act
    rw [outcome_iff_of_holds app hholds h]
    by_cases happ : ∃ r ∈ policy.rules, app r = true
    · obtain ⟨r, hr, hrapp⟩ := happ
      constructor
      · rintro (⟨e, he, rfl⟩ | ⟨hnone, -⟩)
        · rw [hdecides e he]
        · rw [hnone r hr] at hrapp
          simp at hrapp
      · rintro rfl
        obtain ⟨e, he⟩ := exists_decidesBy app hholds hr hrapp
        exact .inl ⟨e, he, by rw [hdecides e he]⟩
    · -- no rule applies: the packet is forwarded
      have hnone : ∀ r ∈ policy.rules, app r = false := fun r hr => by
        simpa using fun h => happ ⟨r, hr, h⟩
      rw [hallow hnone]
      constructor
      · rintro (⟨e, he, -⟩ | ⟨-, rfl⟩)
        · exact absurd he.2.1 (by simp [hnone e.1 (List.fst_mem_of_mem_zipIdx he.1)])
        · rfl
      · rintro rfl
        exact .inr ⟨hnone, rfl⟩

/-- Flows that can be read can be added. -/
theorem exists_applyPolicy_ovs (h : ∀ spec ∈ ovsFlows policy, (readFields lex spec.fields).isSome)
    (table : FlowTable) : ∃ table', OvsBackend.applyPolicy lex table policy = some table' := by
  refine exists_run (fun spec hspec t => ?_) table
  obtain ⟨m, hm⟩ := Option.isSome_iff_exists.1 (h spec hspec)
  exact ⟨_, by rw [addFlow, hm, Option.map_some]⟩

/-- The flows of valid rules can be read. -/
theorem readable_ovsFlows (hlex : LawfulLexicon lex) (hvalid : ∀ r ∈ policy.rules, ValidRule r) :
    ∀ spec ∈ ovsFlows policy, (readFields lex spec.fields).isSome := by
  intro spec hspec
  obtain ⟨e, he, rfl⟩ := List.mem_map.1 hspec
  exact isSome_readFields_ovsFlow hlex (validRule_of_mem_zipIdx hvalid he) _

end

/-- The action that does what a verdict says. -/
def ofVerdict : Nft.Verdict → OpenFlow.Action
  | .drop => .drop
  | .accept => .normal
  | .masquerade => .normal

/-- **Backend equivalence** for a policy, a packet and its direction: the only thing that can happen
to the packet in Open vSwitch is what nftables does to it. -/
def VerdictsAgree (lexN lexO : Net.Lexicon) (policy : FirewallPolicy) (direction : AclDirection)
    (pkt : Net.Packet) : Prop :=
  ∃ table, OvsBackend.applyPolicy lexO ∅ policy = some table ∧
    ∀ act, Outcome table pkt act ↔ act = ofVerdict (nftVerdict lexN policy direction pkt)

/-- **Equivalence of the renderings.** For valid rules the two renderings agree on a packet if and
only if every rule that can decide in the table without directions takes the action of the first
applicable rule of the packet's own direction, to allow when there is none. -/
theorem verdictsAgree_iff {lexN lexO : Net.Lexicon} (hN : LawfulLexicon lexN)
    (hO : LawfulLexicon lexO) {policy : FirewallPolicy} (hvalid : ∀ r ∈ policy.rules, ValidRule r)
    (direction : AclDirection) (pkt : Net.Packet) :
    VerdictsAgree lexN lexO policy direction pkt ↔
      ∀ e, Decides lexO policy.rules pkt e → e.1.action = policyAction policy direction pkt := by
  have hflow : ofVerdict (nftVerdict lexN policy direction pkt) =
      flowActionOf (policyAction policy direction pkt) := by
    rw [nftVerdict_eq hN hvalid]
    cases policyAction policy direction pkt <;> rfl
  have hholds : ∀ e ∈ policy.rules.zipIdx, (ruleKey lexO e).1.Holds pkt = e.1.Applies pkt :=
    fun e he => ruleKey_holds hO (validRule_of_mem_zipIdx hvalid he)
  have hallow : (∀ r ∈ policy.rules, r.Applies pkt = false) →
      policyAction policy direction pkt = .allow := by
    intro hnone
    rw [← actionIn_eq_policyAction hO hvalid]
    exact actionIn_eq_allow fun r hr _ => (matchesIn_eq_applies hO (hvalid r hr) pkt).trans (hnone r hr)
  rw [VerdictsAgree, hflow]
  constructor
  · rintro ⟨table, htable, hagree⟩
    exact (outcome_eq_iff (fun r => r.Applies pkt) hholds htable hallow).1 hagree
  · intro hdecides
    obtain ⟨table, htable⟩ := exists_applyPolicy_ovs (readable_ovsFlows hO hvalid) ∅
    exact ⟨table, htable, (outcome_eq_iff (fun r => r.Applies pkt) hholds htable hallow).2 hdecides⟩

/-- Up to 1001 rules have distinct priorities, so the first rule that applies decides alone. -/
theorem find?_of_decides {lex : Net.Lexicon} {rules : List AclRule} {pkt : Net.Packet}
    {e : AclRule × ℕ} (hlen : rules.length ≤ 1001) (h : Decides lex rules pkt e) :
    rules.find? (fun r => r.Applies pkt) = some e.1 := by
  obtain ⟨hmem, happ, hmax, -⟩ := h
  have hget := List.mem_zipIdx_iff_getElem?.1 hmem
  obtain ⟨hi, hei⟩ := List.getElem?_eq_some_iff.1 hget
  refine List.find?_eq_some_iff_getElem.2 ⟨happ, e.2, hi, hei, fun j hj => ?_⟩
  have hj' : j < rules.length := hj.trans hi
  by_contra happj
  have hmemj : (rules[j], j) ∈ rules.zipIdx := by
    rw [List.mk_mem_zipIdx_iff_getElem?, List.getElem?_eq_getElem hj']
  have hle := hmax _ hmemj (by simpa using happj)
  simp only [flowPriority] at hle
  omega

/-- **Up to 1001 rules** every rule that can decide takes an action if and only if the first rule that
applies does, whatever its direction. -/
theorem forall_decides_iff_first {lex : Net.Lexicon} (hlex : LawfulLexicon lex)
    {policy : FirewallPolicy} (hvalid : ∀ r ∈ policy.rules, ValidRule r)
    (hlen : policy.rules.length ≤ 1001) (pkt : Net.Packet) (a : AclAction) :
    (∀ e, Decides lex policy.rules pkt e → e.1.action = a) ↔
      ∀ r, policy.rules.find? (fun r => r.Applies pkt) = some r → r.action = a := by
  have hholds : ∀ e ∈ policy.rules.zipIdx, (ruleKey lex e).1.Holds pkt = e.1.Applies pkt :=
    fun e he => ruleKey_holds hlex (validRule_of_mem_zipIdx hvalid he)
  constructor
  · intro hdecides r hr
    have happ : r.Applies pkt = true := by simpa using List.find?_some hr
    obtain ⟨e, he⟩ := exists_decidesBy (fun r => r.Applies pkt) hholds
      (List.mem_of_find?_eq_some hr) happ
    have hfirst := (find?_of_decides hlen he).symm.trans hr
    rw [← Option.some.inj hfirst]
    exact hdecides e he
  · exact fun hfirst e he => hfirst e.1 (find?_of_decides hlen he)

theorem validRule_sshPolicy : ∀ r ∈ (sshPolicy "a").rules, ValidRule r := by
  intro r hr
  obtain rfl := List.mem_singleton.1 hr
  exact ⟨⟨0, 0, by decide, by decide⟩, by decide⟩

/-- An SSH connection into the VPC is dropped by both. -/
theorem verdictsAgree_ssh_ingress : VerdictsAgree controllerLexicon controllerLexicon
    (sshPolicy "a") .ingress ⟨0x08080808, 0x0a000105, 6, some 22, true, "eth0"⟩ := by
  refine (verdictsAgree_iff lawful_controllerLexicon lawful_controllerLexicon validRule_sshPolicy
    _ _).2 fun e he => ?_
  rw [List.mem_singleton.1 he.1]
  rfl

/-- A policy that denies SSH into the VPC drops SSH out of the VPC in Open vSwitch. -/
theorem not_verdictsAgree_ssh_egress : ¬VerdictsAgree controllerLexicon controllerLexicon
    (sshPolicy "a") .egress ⟨0x0a000105, 0x08080808, 6, some 22, true, "eth0"⟩ := by
  rintro ⟨table, htable, hagree⟩
  have hdrop : Outcome table ⟨0x0a000105, 0x08080808, 6, some 22, true, "eth0"⟩ .drop := by
    refine (outcome_iff lawful_controllerLexicon validRule_sshPolicy htable _).2 (.inl
      ⟨(⟨⟨"r1"⟩, .deny, .ingress, "tcp", "0.0.0.0/0", some 22⟩, 0), ⟨?_, ?_, ?_, rfl⟩, rfl⟩)
    · exact List.mem_singleton.2 rfl
    · decide
    · intro e' he' _
      rw [List.mem_singleton.1 he']
  exact absurd ((hagree .drop).1 hdrop) (by decide)

end OCF.Network
