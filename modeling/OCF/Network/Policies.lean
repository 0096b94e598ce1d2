import OCF.Foundations.Nftables
import OCF.Foundations.OpenFlow
import OCF.Network.Backend
import OCF.Network.Lexicon

/-!
# Firewall policies on the backends

A policy is rendered by two backends: into an nftables table named after the policy's scope, with
one chain for each direction in use (`renderNftables`), and into flows of an Open vSwitch bridge,
one for each rule with falling priorities (`ovsFlows`). A backend is how it applies a policy to its
dataplane; the controller hands every policy it records to its backends (`PolicyOp`, `policyStep`).

`policiesIsolated_iff` says when policies on the nftables backend leave each other alone: exactly
when no two of them have the same kind of scope and scope ids that agree in their first eight
characters after sanitizing.
-/

namespace OCF.Network

open Text

/-! ## Rendering for nftables -/

/-- The hook of a direction. -/
def nftHook : AclDirection → String
  | .ingress => "input"
  | .egress => "output"

/-- Ingress looks at the remote source, egress at the remote destination. -/
def nftAddrMatch : AclDirection → String → Nft.Match
  | .ingress => .saddr
  | .egress => .daddr

/-- Whether a rule is about some addresses only. -/
def AclRule.hasAddr (rule : AclRule) : Bool := rule.cidr ≠ "0.0.0.0/0" && rule.cidr ≠ ""

/-- A rule as one line of a chain. A port without a concrete protocol is a TCP port. -/
def nftRule (rule : AclRule) : Nft.Rule where
  conds :=
    (if rule.hasAddr then [nftAddrMatch rule.direction rule.cidr] else []) ++
      let proto := toAsciiLowercase rule.proto
      if proto ≠ "any" ∧ proto ≠ "" then
        if proto = "tcp" ∨ proto = "udp" then
          match rule.port with
          | some port => [.dport proto port]
          | none => [.protocol proto]
        else [.protocol proto]
      else match rule.port with
        | some port => [.dport "tcp" port]
        | none => []
  verdict := match rule.action with
    | .allow => .accept
    | .deny => .drop

/-- The chain of a direction. -/
def policyChain (policy : FirewallPolicy) (direction : AclDirection) : Nft.Chain where
  name := nftHook direction
  kind := "filter"
  hook := nftHook direction
  priority := "0"
  rules := (policy.rules.filter fun r => r.direction = direction).map nftRule

/-- A chain for every direction the policy uses. -/
def policyChains (policy : FirewallPolicy) : List Nft.Chain :=
  ([.ingress, .egress].filter fun d => policy.rules.any fun r => r.direction = d).map
    (policyChain policy)

/-- The script that replaces the table of a policy. -/
def renderNftables (policy : FirewallPolicy) : List Nft.Command :=
  Nft.replaceTable (nftTableName policy) (policyChains policy)

example : nftRule ⟨⟨"r"⟩, .deny, .ingress, "tcp", "10.0.0.0/8", some 22⟩ =
    ⟨[.saddr "10.0.0.0/8", .dport "tcp" 22], .drop⟩ := by decide
example : nftRule ⟨⟨"r"⟩, .allow, .ingress, "icmp", "10.1.0.0/16", none⟩ =
    ⟨[.saddr "10.1.0.0/16", .protocol "icmp"], .accept⟩ := by decide

/-! ## Rendering for Open vSwitch -/

/-- The field with the remote address of a direction. -/
def ovsAddrField : AclDirection → String → OpenFlow.Field
  | .ingress => .nwSrc
  | .egress => .nwDst

/-- A rule as a flow. -/
def ovsFlow (rule : AclRule) (priority : ℕ) : OpenFlow.Spec where
  priority := priority
  fields :=
    (if rule.hasAddr then [ovsAddrField rule.direction rule.cidr] else []) ++
      let proto := toAsciiLowercase rule.proto
      if proto ≠ "any" ∧ proto ≠ "" then
        .nwProto proto ::
          if proto = "tcp" ∨ proto = "udp" then (rule.port.map .tpDst).toList else []
      else match rule.port with
        | some port => [.nwProto "tcp", .tpDst port]
        | none => []
  action := match rule.action with
    | .allow => .normal
    | .deny => .drop

/-- The priority of the rule at a position: the position is cut to 32 bits and taken from 1000,
down to 0. -/
def flowPriority (i : ℕ) : ℕ := 1000 - i % 2 ^ 32

/-- The flows of a policy, in the order of its rules. -/
def ovsFlows (policy : FirewallPolicy) : List OpenFlow.Spec :=
  policy.rules.zipIdx.map fun r => ovsFlow r.1 (flowPriority r.2)

example : ovsFlow ⟨⟨"r"⟩, .deny, .ingress, "tcp", "10.0.0.0/8", some 22⟩ 1000 =
    ⟨1000, [.nwSrc "10.0.0.0/8", .nwProto "tcp", .tpDst 22], .drop⟩ := by decide
example : ovsFlow ⟨⟨"r"⟩, .allow, .egress, "any", "0.0.0.0/0", none⟩ 900 = ⟨900, [], .normal⟩ := by
  decide

/-! ## Backends under a controller -/

/-- `LinuxNetnsBackend::apply_policy`; `none` when the command fails. -/
def LinuxNetnsBackend.applyPolicy (lex : Net.Lexicon) (rs : Nft.Ruleset) (policy : FirewallPolicy) :
    Option Nft.Ruleset :=
  Nft.load lex rs (renderNftables policy)

/-- `OvsBackend::apply_policy`; `none` when one of the commands fails. -/
def OvsBackend.applyPolicy (lex : Net.Lexicon) (table : OpenFlow.FlowTable)
    (policy : FirewallPolicy) : Option OpenFlow.FlowTable :=
  run (OpenFlow.addFlow lex) table (ovsFlows policy)

/-- A call about policies. -/
inductive PolicyOp
  | apply (policy : FirewallPolicy)
  | delete (id : Id)

/-- A call on a controller over one backend whose commands succeed: a policy that passes the check
of its scope is recorded and applied, a deleted policy is only forgotten. -/
def policyStep {σ : Type*} (backend : σ → FirewallPolicy → Option σ)
    (st : NetworkController × σ) : PolicyOp → Option (NetworkController × σ)
  | .apply policy =>
    match st.1.checkScope policy.scope with
    | .error _ => some st
    | .ok _ => (backend st.2 policy).map fun d => ((st.1.applyPolicy policy (.ok ())).2, d)
  | .delete id => some ((st.1.deletePolicy id).2, st.2)

/-- Calls about policies change neither VPCs nor subnets, so what the scope check says of a policy
never changes in a run. -/
theorem checkScope_congr {n n' : NetworkController} (hv : n'.vpcs = n.vpcs)
    (hs : n'.subnets = n.subnets) (scope : AclScope) : n'.checkScope scope = n.checkScope scope := by
  cases scope <;> simp [NetworkController.checkScope, hv, hs]

/-- The policies that a sequence of calls applies, in order: those that pass the scope check. -/
def versions (n : NetworkController) (ops : List PolicyOp) : List FirewallPolicy :=
  ops.filterMap fun
    | .apply policy => if n.checkScope policy.scope = .ok () then some policy else none
    | .delete _ => none

theorem versions_congr {n n' : NetworkController} (h : ∀ scope, n'.checkScope scope = n.checkScope scope)
    (ops : List PolicyOp) : versions n' ops = versions n ops := by
  simp only [versions, h]

section

variable {σ : Type*} {backend : σ → FirewallPolicy → Option σ}

/-- What one call does: nothing, or apply a policy that passes the scope check, or forget one. -/
theorem policyStep_cases {st st' : NetworkController × σ} {op : PolicyOp}
    (h : policyStep backend st op = some st') :
    (∃ policy, op = .apply policy ∧ st.1.checkScope policy.scope ≠ .ok () ∧ st' = st) ∨
    (∃ policy d, op = .apply policy ∧ st.1.checkScope policy.scope = .ok () ∧
      backend st.2 policy = some d ∧
      st' = ({ st.1 with policies := st.1.policies.insert policy.id policy }, d)) ∨
    ∃ id, op = .delete id ∧ st' = ((st.1.deletePolicy id).2, st.2) := by
  cases op with
  | apply policy =>
    simp only [policyStep] at h
    cases hc : st.1.checkScope policy.scope with
    | error e =>
      rw [hc] at h
      exact .inl ⟨policy, rfl, by simp [hc], (Option.some.inj h).symm⟩
    | ok u =>
      rw [hc] at h
      obtain ⟨d, hd, rfl⟩ := Option.map_eq_some_iff.1 h
      refine .inr (.inl ⟨policy, d, rfl, hc, hd, ?_⟩)
      rw [NetworkController.applyPolicy, hc]
  | delete id => exact .inr (.inr ⟨id, rfl, (Option.some.inj h).symm⟩)

theorem checkScope_policyStep {st st' : NetworkController × σ} {op : PolicyOp}
    (h : policyStep backend st op = some st') (scope : AclScope) :
    st'.1.checkScope scope = st.1.checkScope scope := by
  obtain ⟨policy, -, -, rfl⟩ | ⟨policy, d, -, -, -, rfl⟩ | ⟨id, -, rfl⟩ := policyStep_cases h
  · rfl
  · exact checkScope_congr rfl rfl scope
  · refine checkScope_congr ?_ ?_ scope <;>
    · simp only [NetworkController.deletePolicy]
      split_ifs <;> rfl

/-- **The dataplane after a run** is what applying its versions in order makes of it. -/
theorem run_backend_of_run_policyStep {ops : List PolicyOp} {st st' : NetworkController × σ}
    (h : run (policyStep backend) st ops = some st') :
    run backend st.2 (versions st.1 ops) = some st'.2 := by
  induction ops generalizing st with
  | nil =>
    obtain rfl := Option.some.inj h
    rfl
  | cons op ops ih =>
    obtain ⟨t, ht, hrest⟩ := run_cons_eq_some.1 h
    have hops := ih hrest
    rw [versions_congr (checkScope_policyStep ht)] at hops
    obtain ⟨policy, rfl, hc, rfl⟩ | ⟨policy, d, rfl, hc, hd, rfl⟩ | ⟨id, rfl, rfl⟩ :=
      policyStep_cases ht
    · simpa [versions, hc] using hops
    · have e : versions st.1 (.apply policy :: ops) = policy :: versions st.1 ops := by
        simp [versions, hc]
      rw [e]
      exact run_cons_eq_some.2 ⟨d, hd, hops⟩
    · simpa [versions] using hops

end

/-! ## Policies and each other's tables -/

/-- Scopes whose policies share a table. -/
def SameTable : AclScope → AclScope → Prop
  | .vpc a, .vpc b => sanitize (shortId a) = sanitize (shortId b)
  | .subnet a, .subnet b => sanitize (shortId a) = sanitize (shortId b)
  | _, _ => False

theorem nftTableName_eq_iff (p q : FirewallPolicy) :
    nftTableName p = nftTableName q ↔ SameTable p.scope q.scope := by
  rw [← String.toList_inj]
  cases hp : p.scope <;> cases hq : q.scope <;>
    simp [nftTableName, hp, hq, SameTable, String.toList_inj]

/-- One policy writes the table of its name. -/
theorem lookup_applyPolicy {lex : Net.Lexicon} (rs : Nft.Ruleset) (policy : FirewallPolicy)
    (rs' : Nft.Ruleset) (h : LinuxNetnsBackend.applyPolicy lex rs policy = some rs') (x : String) :
    rs'.lookup x = if x = nftTableName policy then some (policyChains policy) else rs.lookup x := by
  have hreplace := Nft.load_replaceTable lex rs (nftTableName policy) (policyChains policy)
  rw [LinuxNetnsBackend.applyPolicy, renderNftables] at h
  split_ifs at hreplace
  · obtain ⟨u, hu, hlookup⟩ := hreplace
    obtain rfl := Option.some.inj (hu.symm.trans h)
    exact hlookup x
  · rw [hreplace] at h
    simp at h

/-- Policies leave each other alone: applied in any order, each of them has its rules installed in
the end, and applying one never changes the table of another. -/
def PoliciesIsolated (lex : Net.Lexicon) (n : NetworkController) (policies : List FirewallPolicy) :
    Prop :=
  (∀ (rs : Nft.Ruleset) (order : List FirewallPolicy) st, order.Perm policies →
    run (policyStep (LinuxNetnsBackend.applyPolicy lex)) (n, rs) (order.map .apply) = some st →
    ∀ p ∈ policies, st.2.lookup (nftTableName p) = some (policyChains p)) ∧
  ∀ p ∈ policies, ∀ q ∈ policies, p.id ≠ q.id → ∀ rs rs',
    LinuxNetnsBackend.applyPolicy lex rs q = some rs' →
    rs'.lookup (nftTableName p) = rs.lookup (nftTableName p)

/-- **Policy isolation.** Policies with distinct ids, existing scopes and rules that nftables can
read leave each other alone if and only if no two of them share a table. -/
theorem policiesIsolated_iff {lex : Net.Lexicon} {n : NetworkController}
    {policies : List FirewallPolicy} (hids : (policies.map fun p => p.id).Nodup)
    (hscope : ∀ p ∈ policies, n.checkScope p.scope = .ok ())
    (hread : ∀ p ∈ policies, (policyChains p).all fun c => c.Readable lex) :
    PoliciesIsolated lex n policies ↔
      ∀ p ∈ policies, ∀ q ∈ policies, SameTable p.scope q.scope → p.id = q.id := by
  constructor
  · rintro ⟨-, hframe⟩ p hp q hq hsame
    by_contra hne
    -- applying `q` to an empty ruleset creates the table of `p`
    have hload := Nft.load_replaceTable lex ∅ (nftTableName q) (policyChains q)
    rw [if_pos (hread q hq)] at hload
    obtain ⟨rs, hrs, hlookup⟩ := hload
    have hkeep := hframe p hp q hq hne ∅ rs hrs
    rw [hlookup, if_pos ((nftTableName_eq_iff p q).2 hsame), AList.lookup_empty] at hkeep
    simp at hkeep
  · intro hdistinct
    have hname : ∀ p ∈ policies, ∀ q ∈ policies, nftTableName q = nftTableName p → q = p :=
      fun p hp q hq h => List.inj_on_of_nodup_map hids hq hp
        (hdistinct q hq p hp ((nftTableName_eq_iff q p).1 h))
    refine ⟨fun rs order st hperm hrun p hp => ?_, fun p hp q hq hne rs rs' happly => ?_⟩
    · have hall : versions n (order.map .apply) = order := by
        simp only [versions, List.filterMap_map]
        refine (List.filterMap_congr fun q hq => ?_).trans List.filterMap_some
        simp [hscope q (hperm.mem_iff.1 hq)]
      have hback := run_backend_of_run_policyStep hrun
      rw [hall] at hback
      have hread := run_read (fun rs x => rs.lookup x) lookup_applyPolicy hback (nftTableName p)
      rw [hread, lastWith_eq_of_unique (hperm.mem_iff.2 hp)
        fun q hq h => hname p hp q (hperm.mem_iff.1 hq) h]
      rfl
    · rw [lookup_applyPolicy rs q rs' happly, if_neg]
      exact fun h => hne (congrArg FirewallPolicy.id (hname q hq p hp h))

/-- A controller with the VPCs `a` and `b`. -/
def policyController : NetworkController :=
  ((NetworkController.new.createVpc ⟨.named "a", "10.0.0.0/16", 1⟩).2.createVpc
    ⟨.named "b", "10.1.0.0/16", 2⟩).2

/-- Nobody may open an SSH connection into the VPC. -/
def sshPolicy (vpc : String) : FirewallPolicy :=
  ⟨⟨"ssh"⟩, .vpc ⟨vpc⟩, [⟨⟨"r1"⟩, .deny, .ingress, "tcp", "0.0.0.0/0", some 22⟩]⟩

/-- Nobody may send DNS queries out of the VPC. -/
def dnsPolicy (vpc : String) : FirewallPolicy :=
  ⟨⟨"dns"⟩, .vpc ⟨vpc⟩, [⟨⟨"r2"⟩, .deny, .egress, "udp", "0.0.0.0/0", some 53⟩]⟩

theorem policiesIsolated_two_vpcs :
    PoliciesIsolated controllerLexicon policyController [sshPolicy "a", dnsPolicy "b"] := by
  refine (policiesIsolated_iff (by decide) ?_ (by decide)).2 ?_
  · intro p hp
    rcases List.mem_cons.1 hp with rfl | hp
    · rfl
    · obtain rfl := List.mem_singleton.1 hp
      rfl
  · have hne : sanitize (shortId ⟨"a"⟩) ≠ sanitize (shortId ⟨"b"⟩) := by decide
    intro p hp q hq hsame
    rcases List.mem_cons.1 hp with rfl | hp <;> rcases List.mem_cons.1 hq with rfl | hq
    · rfl
    · obtain rfl := List.mem_singleton.1 hq
      exact absurd hsame hne
    · obtain rfl := List.mem_singleton.1 hp
      exact absurd hsame.symm hne
    · rw [List.mem_singleton.1 hp, List.mem_singleton.1 hq]

/-- Of two policies on one VPC the second deletes the rules of the first. -/
theorem not_policiesIsolated_one_vpc :
    ¬PoliciesIsolated controllerLexicon policyController [sshPolicy "a", dnsPolicy "a"] := by
  rintro ⟨hinstalled, -⟩
  obtain ⟨st, hst⟩ := Option.isSome_iff_exists.1
    (by decide : (run (policyStep (LinuxNetnsBackend.applyPolicy controllerLexicon))
      (policyController, ∅) [.apply (sshPolicy "a"), .apply (dnsPolicy "a")]).isSome)
  have hssh := hinstalled ∅ _ st (List.Perm.refl _) hst (sshPolicy "a") (by simp)
  have hback := run_backend_of_run_policyStep hst
  have hlast := run_read (fun rs x => rs.lookup x) lookup_applyPolicy hback (nftTableName (sshPolicy "a"))
  have hdns : st.2.lookup (nftTableName (sshPolicy "a")) = some (policyChains (dnsPolicy "a")) := hlast
  rw [hssh, Option.some.injEq] at hdns
  exact absurd hdns (by decide)

end OCF.Network
