import OCF.Network.PolicyVerdicts

/-!
# Policies and the packets of their scope

A policy is meant for the subnets of its scope. Its renderings do not mention them: the scope only
gives the nftables table its name, whose chains look at every packet that the host itself receives or
sends and at none that it forwards; and the flows of Open vSwitch look at every packet of the one
bridge, whatever its direction.

`policy_confined_iff` says for which packets this makes no difference. Rules and tools may be
anything, as long as the tools can read the rules: what a rule matches is put in terms of how they
read it (`AclRule.MatchesIn`).
-/

namespace OCF.Network

open OpenFlow (FlowTable Spec Match readFields addFlow Outcome)

/-! ## Scopes -/

/-- Whether a scope has a subnet. -/
def AclScope.Has : AclScope → Subnet → Bool
  | .vpc id, sub => sub.vpcId = id
  | .subnet id, sub => sub.metadata.id = id

namespace NetworkController

variable (n : NetworkController)

/-- Whether an address lies in a subnet of the scope. -/
def InScope (scope : AclScope) (addr : UInt32) : Bool :=
  (HashMap.values n.subnets).any fun subnet => scope.Has subnet &&
    (parseCidr subnet.cidr).any fun block => (⟨block.1, block.2.toNat⟩ : Net.Block).contains addr

/-- The source and the destination lie outside every subnet of the scope. -/
def Outside (scope : AclScope) (pkt : Net.Packet) : Bool :=
  !n.InScope scope pkt.src && !n.InScope scope pkt.dst

/-- Whether an address belongs to one of the workloads that are attached to a subnet of the scope. -/
def WorkloadOf (attached : List (Id × UInt32)) (scope : AclScope) (addr : UInt32) : Bool :=
  attached.any fun a => a.2 = addr && (n.subnets.lookup a.1).any scope.Has

/-- The packet goes between a workload of the scope and the outside: into the scope or out of it. -/
def Crosses (attached : List (Id × UInt32)) (scope : AclScope) (pkt : Net.Packet) :
    AclDirection → Bool
  | .ingress => n.WorkloadOf attached scope pkt.dst && !n.InScope scope pkt.src
  | .egress => n.WorkloadOf attached scope pkt.src && !n.InScope scope pkt.dst

end NetworkController

/-! ## Confinement to a scope -/

/-- Both tools can read the rules of the policy. -/
structure Installable (lexN lexO : Net.Lexicon) (policy : FirewallPolicy) : Prop where
  nft : (policyChains policy).all fun c => c.Readable lexN
  ovs : ∀ spec ∈ ovsFlows policy, (readFields lexO spec.fields).isSome

/-- **Confinement.** On a host with the policy a packet that is outside the scope meets the same
verdict as without it, on either backend; and of a packet that is forwarded between a workload of the
scope and the outside the first matching rule decides. -/
structure Confined (lexN lexO : Net.Lexicon) (n : NetworkController) (attached : List (Id × UInt32))
    (policy : FirewallPolicy) (pkt : Net.Packet) : Prop where
  nft_frame : n.Outside policy.scope pkt → ∀ rs rs', rs.lookup (nftTableName policy) = none →
    LinuxNetnsBackend.applyPolicy lexN rs policy = some rs' →
    ∀ hook, Nft.Survives lexN pkt rs' hook ↔ Nft.Survives lexN pkt rs hook
  ovs_frame : n.Outside policy.scope pkt → ∀ table table',
    OvsBackend.applyPolicy lexO table policy = some table' →
    ∀ act, Outcome table' pkt act ↔ Outcome table pkt act
  nft_decides : ∀ d, n.Crosses attached policy.scope pkt d → ∀ rs rs',
    rs.lookup (nftTableName policy) = none →
    LinuxNetnsBackend.applyPolicy lexN rs policy = some rs' →
    (Nft.Survives lexN pkt rs' "forward" ↔
      Nft.Survives lexN pkt rs "forward" ∧ actionIn lexN policy d pkt = .allow)
  ovs_decides : ∀ d, n.Crosses attached policy.scope pkt d → ∀ table,
    OvsBackend.applyPolicy lexO ∅ policy = some table →
    ∀ act, Outcome table pkt act ↔ act = flowActionOf (actionIn lexO policy d pkt)

section Matching

variable {lex : Net.Lexicon} {rule : AclRule} {policy : FirewallPolicy}

/-- No chain of a hook drops the packet if and only if the policy allows it in the direction of the
hook. -/
theorem forall_policyChains_iff (pkt : Net.Packet) (hook : String) :
    (∀ c ∈ policyChains policy, c.hook = hook → c.verdict lex pkt ≠ .drop) ↔
      ∀ d, nftHook d = hook → actionIn lex policy d pkt = .allow := by
  have hdrop : ∀ a, verdictOf a ≠ .drop ↔ a = .allow := by
    intro a
    cases a <;> simp [verdictOf]
  constructor
  · intro h d hd
    by_cases huse : ∃ r ∈ policy.rules, r.direction = d
    · have hmem : policyChain policy d ∈ policyChains policy := by
        refine List.mem_map_of_mem (List.mem_filter.2 ⟨?_, by simpa using huse⟩)
        cases d <;> simp
      rw [← hdrop, ← policyChain_verdict]
      exact h _ hmem hd
    · exact actionIn_eq_allow fun r hr hrd => absurd ⟨r, hr, hrd⟩ huse
  · intro h c hc hhook
    obtain ⟨d, -, rfl⟩ := List.mem_map.1 hc
    rw [policyChain_verdict, hdrop]
    exact h d hhook

end Matching

/-! ## The two backends -/

section Backends

variable {lex : Net.Lexicon} {policy : FirewallPolicy} {pkt : Net.Packet}

/-- What a policy adds to the verdict of a hook. -/
theorem survives_applyPolicy {rs rs' : Nft.Ruleset} (hname : rs.lookup (nftTableName policy) = none)
    (h : LinuxNetnsBackend.applyPolicy lex rs policy = some rs') (hook : String) :
    Nft.Survives lex pkt rs' hook ↔ Nft.Survives lex pkt rs hook ∧
      ∀ d, nftHook d = hook → actionIn lex policy d pkt = .allow := by
  rw [Nft.survives_insert lex pkt hname (lookup_applyPolicy rs policy rs' h),
    forall_policyChains_iff]

theorem exists_applyPolicy_nft (h : (policyChains policy).all fun c => c.Readable lex) :
    ∃ rs', LinuxNetnsBackend.applyPolicy lex ∅ policy = some rs' := by
  have hload := Nft.load_replaceTable lex ∅ (nftTableName policy) (policyChains policy)
  rw [if_pos h] at hload
  obtain ⟨rs', hrs', -⟩ := hload
  exact ⟨rs', hrs'⟩

theorem survives_empty (hook : String) : Nft.Survives lex pkt ∅ hook := by
  intro name chains hlookup
  rw [AList.lookup_empty] at hlookup
  cases hlookup

/-- **nftables, outside**: nothing changes if and only if the policy allows the packet in both
directions. -/
theorem nft_frame_iff (h : (policyChains policy).all fun c => c.Readable lex) :
    (∀ rs rs', rs.lookup (nftTableName policy) = none →
      LinuxNetnsBackend.applyPolicy lex rs policy = some rs' →
      ∀ hook, Nft.Survives lex pkt rs' hook ↔ Nft.Survives lex pkt rs hook) ↔
      ∀ d, actionIn lex policy d pkt = .allow := by
  constructor
  · intro hframe d
    obtain ⟨rs', hrs'⟩ := exists_applyPolicy_nft h
    have hname : (∅ : Nft.Ruleset).lookup (nftTableName policy) = none := AList.lookup_empty _
    have hsurvives := (hframe ∅ rs' hname hrs' (nftHook d)).2 (survives_empty _)
    exact ((survives_applyPolicy hname hrs' _).1 hsurvives).2 d rfl
  · intro hallow rs rs' hname hrs' hook
    rw [survives_applyPolicy hname hrs']
    exact and_iff_left fun d _ => hallow d

/-- **nftables, forwarded**: the policy has no say, so its first rule decides if and only if it
allows the packet. -/
theorem nft_decides_iff (h : (policyChains policy).all fun c => c.Readable lex) (d : AclDirection) :
    (∀ rs rs', rs.lookup (nftTableName policy) = none →
      LinuxNetnsBackend.applyPolicy lex rs policy = some rs' →
      (Nft.Survives lex pkt rs' "forward" ↔
        Nft.Survives lex pkt rs "forward" ∧ actionIn lex policy d pkt = .allow)) ↔
      actionIn lex policy d pkt = .allow := by
  have hno : ∀ d', nftHook d' = "forward" → actionIn lex policy d' pkt = .allow := by
    intro d' hd'
    cases d' <;> exact absurd hd' (by decide)
  constructor
  · intro hdecides
    obtain ⟨rs', hrs'⟩ := exists_applyPolicy_nft h
    have hname : (∅ : Nft.Ruleset).lookup (nftTableName policy) = none := AList.lookup_empty _
    have hsurvives := (survives_applyPolicy hname hrs' "forward").2 ⟨survives_empty _, hno⟩
    exact ((hdecides ∅ rs' hname hrs').1 hsurvives).2
  · intro hallow rs rs' hname hrs'
    rw [survives_applyPolicy hname hrs']
    exact and_congr_right' (iff_of_true hno hallow)

section Ovs

variable (h : ∀ spec ∈ ovsFlows policy, (readFields lex spec.fields).isSome)

include h

theorem ruleKey_holds_eq (pkt : Net.Packet) (e : AclRule × ℕ) (he : e ∈ policy.rules.zipIdx) :
    (ruleKey lex e).1.Holds pkt = e.1.MatchesIn lex pkt := by
  exact ruleKey_holds_of_readable (h _ (List.mem_map_of_mem he))

/-- **Open vSwitch, outside**: nothing changes if and only if no rule matches the packet. -/
theorem ovs_frame_iff :
    (∀ table table', OvsBackend.applyPolicy lex table policy = some table' →
      ∀ act, Outcome table' pkt act ↔ Outcome table pkt act) ↔
      ∀ r ∈ policy.rules, r.MatchesIn lex pkt = false := by
  have hholds := ruleKey_holds_eq h pkt
  constructor
  · intro hframe r hr
    by_contra hmatch
    obtain ⟨e, he⟩ := exists_decidesBy (fun r => r.MatchesIn lex pkt) hholds hr (by simpa using hmatch)
    -- on an empty bridge the rule allows the packet
    obtain ⟨table, htable⟩ := exists_applyPolicy_ovs h ∅
    have hnormal : flowActionOf e.1.action = .normal := by
      have hout := (hframe ∅ table htable _).1 (outcome_of_decidesBy (fun r => r.MatchesIn lex pkt)
        hholds htable he fun m prio hmem => absurd hmem (AList.notMem_empty _))
      rcases hout with ⟨m, prio, hlookup, -⟩ | ⟨-, hact⟩
      · rw [AList.lookup_empty] at hlookup
        cases hlookup
      · exact hact
    -- on a bridge that drops everything else this makes a difference
    obtain ⟨table', htable'⟩ := exists_applyPolicy_ovs h (AList.insert (Match.all, 0) .drop ∅)
    have hbase : ∀ m prio, (m, prio) ∈ (AList.insert (Match.all, 0) .drop ∅ : FlowTable) →
        m = .all ∧ prio = 0 := by
      intro m prio hmem
      rw [AList.mem_insert] at hmem
      exact Prod.mk.inj (hmem.resolve_right (AList.notMem_empty _))
    have hout := (hframe _ table' htable' _).1 (outcome_of_decidesBy (fun r => r.MatchesIn lex pkt)
      hholds htable' he fun m prio hmem _ => by
        rw [(hbase m prio hmem).2]
        exact Nat.zero_le _)
    rw [hnormal] at hout
    rcases hout with ⟨m, prio, hlookup, -⟩ | ⟨hnone, -⟩
    · obtain ⟨rfl, rfl⟩ := hbase m prio (HashMap.mem_iff_exists_lookup.2 ⟨_, hlookup⟩)
      rw [AList.lookup_insert] at hlookup
      cases hlookup
    · have hall := hnone .all 0 (AList.mem_insert _ |>.2 (.inl rfl))
      cases hall
  · intro hnone table table' htable'
    refine OpenFlow.outcome_congr fun m prio hm => ?_
    rw [lookup_applyPolicy_ovs_from htable']
    cases hlast : lastWith (ruleKey lex) policy.rules.zipIdx (m, prio) with
    | none => rfl
    | some e =>
      obtain ⟨he, hkey⟩ := lastWith_eq_some_key hlast
      have hm' : (ruleKey lex e).1.Holds pkt = true := by rw [hkey]; exact hm
      rw [hholds e he, hnone e.1 (List.fst_mem_of_mem_zipIdx he)] at hm'
      cases hm'

/-- **Open vSwitch, forwarded**: the first matching rule of a direction decides if and only if every
rule that can decide takes its action. -/
theorem ovs_decides_iff (d : AclDirection) :
    (∀ table, OvsBackend.applyPolicy lex ∅ policy = some table →
      ∀ act, Outcome table pkt act ↔ act = flowActionOf (actionIn lex policy d pkt)) ↔
      ∀ e, DecidesBy lex (fun r => r.MatchesIn lex pkt) policy.rules e →
        e.1.action = actionIn lex policy d pkt := by
  have hallow : (∀ r ∈ policy.rules, r.MatchesIn lex pkt = false) →
      actionIn lex policy d pkt = .allow := fun hnone => actionIn_eq_allow fun r hr _ => hnone r hr
  have hiff := fun (table : FlowTable) (htable : OvsBackend.applyPolicy lex ∅ policy = some table) =>
    outcome_eq_iff (fun r => r.MatchesIn lex pkt) (ruleKey_holds_eq h pkt) htable hallow
  obtain ⟨table, htable⟩ := exists_applyPolicy_ovs h ∅
  exact ⟨fun hall => (hiff table htable).1 (hall table htable),
    fun hdecides table htable => (hiff table htable).2 hdecides⟩

end Ovs

end Backends

/-! ## Confinement -/

/-- **When a policy is confined to its scope.** For every policy that the tools can read, every set of
subnets and attached workloads and every packet: the policy is confined if and only if it does not
touch a packet outside its scope (nftables comes to no rule that denies it, and no rule matches it in
Open vSwitch), and allows a packet between a workload of the scope and the outside (nftables comes to
no rule of its direction that denies it, and every rule that can decide in Open vSwitch takes the
action of the first one of its direction). -/
theorem policy_confined_iff {lexN lexO : Net.Lexicon} (n : NetworkController)
    (attached : List (Id × UInt32)) {policy : FirewallPolicy}
    (hinstall : Installable lexN lexO policy) (pkt : Net.Packet) :
    Confined lexN lexO n attached policy pkt ↔
      (n.Outside policy.scope pkt →
        (∀ d, actionIn lexN policy d pkt = .allow) ∧
          ∀ r ∈ policy.rules, r.MatchesIn lexO pkt = false) ∧
      ∀ d, n.Crosses attached policy.scope pkt d →
        actionIn lexN policy d pkt = .allow ∧
          ∀ e, DecidesBy lexO (fun r => r.MatchesIn lexO pkt) policy.rules e →
            e.1.action = actionIn lexO policy d pkt := by
  obtain ⟨hnft, hovs⟩ := hinstall
  constructor
  · intro h
    refine ⟨fun hout => ⟨?_, ?_⟩, fun d hcross => ⟨?_, ?_⟩⟩
    · exact (nft_frame_iff hnft).1 (h.nft_frame hout)
    · exact (ovs_frame_iff hovs).1 (h.ovs_frame hout)
    · exact (nft_decides_iff hnft d).1 (h.nft_decides d hcross)
    · exact (ovs_decides_iff hovs d).1 (h.ovs_decides d hcross)
  · rintro ⟨hframe, hdecides⟩
    constructor
    · exact fun hout => (nft_frame_iff hnft).2 (hframe hout).1
    · exact fun hout => (ovs_frame_iff hovs).2 (hframe hout).2
    · exact fun d hcross => (nft_decides_iff hnft d).2 (hdecides d hcross).1
    · exact fun d hcross => (ovs_decides_iff hovs d).2 (hdecides d hcross).2

/-- The VPC `a` with one subnet. -/
def scopedController : NetworkController :=
  (policyController.createSubnet ⟨.named "web", ⟨"a"⟩, "10.0.1.0/24", "ns-web", .isolated⟩).2

/-- A workload on this subnet. -/
def webWorkload : List (Id × UInt32) := [(⟨"web"⟩, 0x0a000105)]

/-- A connection between two addresses elsewhere. -/
def elsewhere (port : UInt16) : Net.Packet := ⟨0xc0000201, 0xc6336401, 6, some port, true, "eth0"⟩

/-- A connection from elsewhere to the workload. -/
def toWorkload (port : UInt16) : Net.Packet := ⟨0xc0000201, 0x0a000105, 6, some port, true, "eth0"⟩

theorem installable_ssh : Installable controllerLexicon controllerLexicon (sshPolicy "a") :=
  ⟨by decide, by decide⟩

/-- A connection elsewhere that no rule is about. -/
theorem policy_confined_iff_http :
    scopedController.Outside (sshPolicy "a").scope (elsewhere 80) ∧
      Confined controllerLexicon controllerLexicon scopedController webWorkload (sshPolicy "a")
        (elsewhere 80) := by
  refine ⟨by decide, (policy_confined_iff scopedController webWorkload installable_ssh _).2
    ⟨fun _ => ⟨fun d => ?_, by decide⟩, fun d hcross => ?_⟩⟩
  · cases d <;> decide
  · cases d <;> exact absurd hcross (by decide)

/-- The policy of the VPC `a` drops an SSH connection that has nothing to do with the VPC, and lets
through the one that it denies. -/
theorem ssh_policy_not_confined :
    scopedController.Outside (sshPolicy "a").scope (elsewhere 22) ∧
      scopedController.Crosses webWorkload (sshPolicy "a").scope (toWorkload 22) .ingress ∧
      actionIn controllerLexicon (sshPolicy "a") .ingress (toWorkload 22) = .deny ∧
      (∃ rs, LinuxNetnsBackend.applyPolicy controllerLexicon ∅ (sshPolicy "a") = some rs ∧
        ¬Nft.Survives controllerLexicon (elsewhere 22) rs "input" ∧
        Nft.Survives controllerLexicon (toWorkload 22) rs "forward") ∧
      ¬Confined controllerLexicon controllerLexicon scopedController webWorkload (sshPolicy "a")
        (elsewhere 22) ∧
      ¬Confined controllerLexicon controllerLexicon scopedController webWorkload (sshPolicy "a")
        (toWorkload 22) := by
  have hname : (∅ : Nft.Ruleset).lookup (nftTableName (sshPolicy "a")) = none := AList.lookup_empty _
  obtain ⟨rs, hrs⟩ := exists_applyPolicy_nft installable_ssh.nft
  have hdrop : ¬Nft.Survives controllerLexicon (elsewhere 22) rs "input" := by
    rw [survives_applyPolicy hname hrs]
    rintro ⟨-, hallow⟩
    exact absurd (hallow .ingress rfl) (by decide)
  have hpass : Nft.Survives controllerLexicon (toWorkload 22) rs "forward" := by
    rw [survives_applyPolicy hname hrs]
    refine ⟨survives_empty _, fun d hd => ?_⟩
    cases d <;> exact absurd hd (by decide)
  have hout : scopedController.Outside (sshPolicy "a").scope (elsewhere 22) := by decide
  have hcross : scopedController.Crosses webWorkload (sshPolicy "a").scope (toWorkload 22) .ingress := by
    decide
  have hdeny : actionIn controllerLexicon (sshPolicy "a") .ingress (toWorkload 22) = .deny := by decide
  refine ⟨hout, hcross, hdeny, ⟨rs, hrs, hdrop, hpass⟩, fun h => ?_, fun h => ?_⟩
  · exact hdrop ((h.nft_frame hout ∅ rs hname hrs "input").2 (survives_empty _))
  · have hallow := ((h.nft_decides .ingress hcross ∅ rs hname hrs).1 hpass).2
    rw [hdeny] at hallow
    cases hallow

end OCF.Network
