import OCF.Network.Policies

/-!
# Runs of calls about one policy

The controller keeps the last version of a policy; the dataplane keeps whatever the commands of all
versions have left. `policyConverged_iff` says after which sequences of `apply_policy` and
`delete_policy` the two agree.

* On nftables a version replaces what an earlier one left in the same table. What stays is the last
  version of every table name (`lookup_run_nft`).
* On Open vSwitch a version replaces flows with the same match and priority only. What stays is the
  last flow of every match and priority (`lookup_run_ovs`).
* Deleting a policy removes its record and nothing from the dataplane.
-/

namespace OCF.Network

open OpenFlow (FlowTable Spec Match readFields addFlow)

/-- The policy a call is about. -/
def PolicyOp.id : PolicyOp → Id
  | .apply policy => policy.id
  | .delete id => id

/-- The version in force after a sequence of calls about one policy: the last one that was applied,
or none when the policy was deleted since. -/
def lastVersion (n : NetworkController) (ops : List PolicyOp) : Option FirewallPolicy :=
  ops.foldl (fun cur op => match op with
    | .apply policy => if n.checkScope policy.scope = .ok () then some policy else cur
    | .delete _ => none) none

/-- The match and priority of a flow. -/
def flowKey (lex : Net.Lexicon) (spec : Spec) : Match × ℕ :=
  ((readFields lex spec.fields).getD .all, spec.priority)

/-- Both built-in backends, on their own dataplanes. -/
def builtinBackends (lexN lexO : Net.Lexicon) :
    Nft.Ruleset × FlowTable → FirewallPolicy → Option (Nft.Ruleset × FlowTable) :=
  both (LinuxNetnsBackend.applyPolicy lexN) (OvsBackend.applyPolicy lexO)

/-- The chains a version has in a table. -/
def chainsIn (x : String) : Option FirewallPolicy → List Nft.Chain
  | some v => if nftTableName v = x then policyChains v else []
  | none => []

/-- The tables hold the chains of a version and no others. -/
def NftConverged (rs : Nft.Ruleset) (cur : Option FirewallPolicy) : Prop :=
  ∀ x, (rs.lookup x).getD [] = chainsIn x cur

/-- The flows are those of a version and no others. -/
def OvsConverged (lex : Net.Lexicon) (table : FlowTable) (cur : Option FirewallPolicy) : Prop :=
  ∀ key act, table.lookup key = some act ↔
    ∃ v, cur = some v ∧ ∃ spec ∈ ovsFlows v, flowKey lex spec = key ∧ spec.action = act

/-- **Convergence**: both dataplanes hold exactly the rules of the recorded version. -/
def PolicyConverged (lexO : Net.Lexicon) (id : Id)
    (st : NetworkController × Nft.Ruleset × FlowTable) : Prop :=
  NftConverged st.2.1 (st.1.policies.lookup id) ∧ OvsConverged lexO st.2.2 (st.1.policies.lookup id)

/-! ## What runs leave behind -/

theorem lastVersion_concat_apply (n : NetworkController) (ops : List PolicyOp)
    (policy : FirewallPolicy) : lastVersion n (ops ++ [.apply policy]) =
      if n.checkScope policy.scope = .ok () then some policy else lastVersion n ops := by
  simp [lastVersion, List.foldl_append]

theorem lastVersion_concat_delete (n : NetworkController) (ops : List PolicyOp) (id : Id) :
    lastVersion n (ops ++ [.delete id]) = none := by
  simp [lastVersion, List.foldl_append]

/-- The version in force is the last one applied. -/
theorem versions_eq_concat {n : NetworkController} {ops : List PolicyOp} {w : FirewallPolicy}
    (h : lastVersion n ops = some w) : ∃ vs, versions n ops = vs ++ [w] := by
  induction ops using List.reverseRecOn with
  | nil => simp [lastVersion] at h
  | append_singleton ops op ih =>
    cases op with
    | apply policy =>
      rw [lastVersion_concat_apply] at h
      have e : versions n (ops ++ [.apply policy]) =
          versions n ops ++ if n.checkScope policy.scope = .ok () then [policy] else [] := by
        simp only [versions, List.filterMap_append]
        split_ifs with hc <;> simp [hc]
      split_ifs at h e with hc
      · obtain rfl := Option.some.inj h
        exact ⟨_, e⟩
      · obtain ⟨vs, hvs⟩ := ih h
        exact ⟨vs, by rw [e, hvs, List.append_nil]⟩
    | delete id =>
      rw [lastVersion_concat_delete] at h
      simp at h

/-- **The record** of the policy is the version in force. -/
theorem lookup_policies_of_run {σ : Type*} {backend : σ → FirewallPolicy → Option σ}
    {n : NetworkController} {d : σ} {id : Id} {ops : List PolicyOp} {st : NetworkController × σ}
    (hn : n.policies.lookup id = none) (hops : ∀ op ∈ ops, op.id = id)
    (h : run (policyStep backend) (n, d) ops = some st) :
    st.1.policies.lookup id = lastVersion n ops ∧ ∀ scope, st.1.checkScope scope = n.checkScope scope := by
  induction ops using List.reverseRecOn generalizing st with
  | nil =>
    obtain rfl := Option.some.inj h
    exact ⟨hn, fun _ => rfl⟩
  | append_singleton ops op ih =>
    rw [run_append, Option.bind_eq_some_iff] at h
    obtain ⟨t, ht, hlast⟩ := h
    obtain ⟨u, hu, hnil⟩ := run_cons_eq_some.1 hlast
    obtain rfl := Option.some.inj hnil
    obtain ⟨hrec, hscope⟩ := ih (fun op hop => hops op (by simp [hop])) ht
    have hid : op.id = id := hops op (by simp)
    refine ⟨?_, fun scope => (checkScope_policyStep hu scope).trans (hscope scope)⟩
    obtain ⟨policy, rfl, hc, rfl⟩ | ⟨policy, d', rfl, hc, -, rfl⟩ | ⟨id', rfl, rfl⟩ := policyStep_cases hu
    · rw [hscope] at hc
      rw [lastVersion_concat_apply, if_neg hc, hrec]
    · rw [hscope] at hc
      rw [lastVersion_concat_apply, if_pos hc]
      exact (HashMap.lookup_insert_eq ..).trans (if_pos hid.symm)
    · rw [lastVersion_concat_delete]
      obtain rfl : id' = id := hid
      simp only [NetworkController.deletePolicy]
      split_ifs with hmem
      · exact AList.lookup_erase _ _
      · exact AList.lookup_eq_none.2 hmem

theorem lookup_run_nft {lex : Net.Lexicon} {vs : List FirewallPolicy} {rs : Nft.Ruleset}
    (h : run (LinuxNetnsBackend.applyPolicy lex) ∅ vs = some rs) (x : String) :
    rs.lookup x = (lastWith nftTableName vs x).map policyChains := by
  rw [run_read (fun rs x => rs.lookup x) lookup_applyPolicy h x]
  cases lastWith nftTableName vs x <;> rfl

/-- One flow is written under its match and priority. -/
theorem lookup_addFlow {lex : Net.Lexicon} (table : FlowTable) (spec : Spec) (table' : FlowTable)
    (h : addFlow lex table spec = some table') (key : Match × ℕ) :
    table'.lookup key = if key = flowKey lex spec then some spec.action else table.lookup key := by
  obtain ⟨m, hm, rfl⟩ := Option.map_eq_some_iff.1 h
  rw [HashMap.lookup_insert_eq, flowKey, hm, Option.getD_some]

theorem lookup_run_ovs {lex : Net.Lexicon} {vs : List FirewallPolicy} {table : FlowTable}
    (h : run (OvsBackend.applyPolicy lex) ∅ vs = some table) (key : Match × ℕ) :
    table.lookup key = (lastWith (flowKey lex) (vs.flatMap ovsFlows) key).map Spec.action := by
  have hflat : run (addFlow lex) ∅ (vs.flatMap ovsFlows) = some table := by
    rw [← run_flatMap]
    exact h
  rw [run_read (fun table key => table.lookup key) lookup_addFlow hflat key]
  cases lastWith (flowKey lex) (vs.flatMap ovsFlows) key <;> rfl

/-! ## When the dataplane agrees with the record -/

theorem policyChains_eq_nil {v : FirewallPolicy} : policyChains v = [] ↔ v.rules = [] := by
  rw [policyChains, List.map_eq_nil_iff, List.filter_eq_nil_iff]
  constructor
  · intro h
    rw [List.eq_nil_iff_forall_not_mem]
    intro r hr
    refine h r.direction ?_ (List.any_eq_true.2 ⟨r, hr, by simp⟩)
    cases r.direction <;> simp
  · rintro h d -
    simp [h]

section

variable {n : NetworkController} {ops : List PolicyOp}

theorem lastWith_of_lastVersion {w : FirewallPolicy} (h : lastVersion n ops = some w) :
    lastWith nftTableName (versions n ops) (nftTableName w) = some w := by
  obtain ⟨vs, hvs⟩ := versions_eq_concat h
  rw [hvs, lastWith_concat, if_pos rfl]

/-- **nftables** agrees with the version in force when the last version of every other table name
had no rules. -/
theorem nftConverged_iff {lex : Net.Lexicon} {rs : Nft.Ruleset}
    (h : run (LinuxNetnsBackend.applyPolicy lex) ∅ (versions n ops) = some rs) :
    NftConverged rs (lastVersion n ops) ↔ ∀ v,
      lastWith nftTableName (versions n ops) (nftTableName v) = some v → v.rules ≠ [] →
      lastVersion n ops = some v := by
  constructor
  · intro hconv v hv hrules
    have hx := hconv (nftTableName v)
    rw [lookup_run_nft h, hv, Option.map_some, Option.getD_some] at hx
    cases hcur : lastVersion n ops with
    | none =>
      rw [hcur] at hx
      exact absurd (policyChains_eq_nil.1 hx) hrules
    | some w =>
      by_cases hname : nftTableName w = nftTableName v
      · have hw := lastWith_of_lastVersion hcur
        rw [hname, hv] at hw
        exact hw.symm
      · rw [hcur, chainsIn, if_neg hname] at hx
        exact absurd (policyChains_eq_nil.1 hx) hrules
  · intro hlast x
    rw [lookup_run_nft h]
    cases hx : lastWith nftTableName (versions n ops) x with
    | none =>
      -- nothing was ever written there, so the version in force has another name
      cases hcur : lastVersion n ops with
      | none => rfl
      | some w =>
        have hname : nftTableName w ≠ x := by
          rintro rfl
          rw [lastWith_of_lastVersion hcur] at hx
          simp at hx
        simp [chainsIn, hname]
    | some v =>
      obtain ⟨-, rfl⟩ := lastWith_eq_some_key hx
      by_cases hrules : v.rules = []
      · have hnil := policyChains_eq_nil.2 hrules
        cases hcur : lastVersion n ops with
        | none => simpa [chainsIn] using hnil
        | some w =>
          by_cases hname : nftTableName w = nftTableName v
          · have hw := lastWith_of_lastVersion hcur
            rw [hname, hx] at hw
            obtain rfl := Option.some.inj hw
            simp [chainsIn]
          · simpa [chainsIn, hname] using hnil
      · rw [hlast v hx hrules]
        simp [chainsIn]

/-- **Open vSwitch** agrees with the version in force when that version has a flow for every match
and priority that any version had, and no two flows of its own that differ only in their action. -/
theorem ovsConverged_iff {lex : Net.Lexicon} {table : FlowTable}
    (h : run (OvsBackend.applyPolicy lex) ∅ (versions n ops) = some table) :
    OvsConverged lex table (lastVersion n ops) ↔
      (∀ v ∈ versions n ops, ∀ spec ∈ ovsFlows v, ∃ w, lastVersion n ops = some w ∧
        ∃ spec' ∈ ovsFlows w, flowKey lex spec' = flowKey lex spec) ∧
      ∀ w, lastVersion n ops = some w → ∀ spec ∈ ovsFlows w, ∀ spec' ∈ ovsFlows w,
        flowKey lex spec = flowKey lex spec' → spec.action = spec'.action := by
  constructor
  · intro hconv
    refine ⟨fun v hv spec hspec => ?_, fun w hw spec hspec spec' hspec' hkey => ?_⟩
    · obtain ⟨e, he, -, hkey⟩ : ∃ e, lastWith (flowKey lex) ((versions n ops).flatMap ovsFlows)
          (flowKey lex spec) = some e ∧ e ∈ (versions n ops).flatMap ovsFlows ∧
          flowKey lex e = flowKey lex spec := lastWith_of_mem (List.mem_flatMap.2 ⟨v, hv, hspec⟩)
      have hlookup : table.lookup (flowKey lex spec) = some e.action := by
        rw [lookup_run_ovs h, he, Option.map_some]
      obtain ⟨w, hw, spec', hspec', hkey', -⟩ := (hconv _ _).1 hlookup
      exact ⟨w, hw, spec', hspec', hkey'⟩
    · have h₁ := (hconv (flowKey lex spec) spec.action).2 ⟨w, hw, spec, hspec, rfl, rfl⟩
      have h₂ := (hconv (flowKey lex spec) spec'.action).2 ⟨w, hw, spec', hspec', hkey.symm, rfl⟩
      exact Option.some.inj (h₁.symm.trans h₂)
  · rintro ⟨hkeys, hagree⟩ key act
    rw [lookup_run_ovs h, Option.map_eq_some_iff]
    -- the last flow of a key of the version in force is one of its own flows
    have hown : ∀ w, lastVersion n ops = some w → ∀ spec ∈ ovsFlows w, ∃ e ∈ ovsFlows w,
        lastWith (flowKey lex) ((versions n ops).flatMap ovsFlows) (flowKey lex spec) = some e ∧
        flowKey lex e = flowKey lex spec := by
      intro w hw spec hspec
      obtain ⟨vs, hvs⟩ := versions_eq_concat hw
      obtain ⟨e, he, hmem, hkey⟩ : ∃ e, lastWith (flowKey lex) (ovsFlows w) (flowKey lex spec) =
          some e ∧ e ∈ ovsFlows w ∧ flowKey lex e = flowKey lex spec := lastWith_of_mem hspec
      refine ⟨e, hmem, ?_, hkey⟩
      rw [hvs, List.flatMap_append, lastWith_append, List.flatMap_singleton, he, Option.some_or]
    constructor
    · rintro ⟨e, he, rfl⟩
      obtain ⟨hmem, rfl⟩ := lastWith_eq_some_key he
      obtain ⟨v, hv, hspec⟩ := List.mem_flatMap.1 hmem
      obtain ⟨w, hw, spec', hspec', hkey'⟩ := hkeys v hv e hspec
      obtain ⟨e', he', hlast, -⟩ := hown w hw spec' hspec'
      rw [hkey', he] at hlast
      obtain rfl := Option.some.inj hlast
      exact ⟨w, hw, e, he', rfl, rfl⟩
    · rintro ⟨w, hw, spec, hspec, rfl, rfl⟩
      obtain ⟨e, he, hlast, hkey⟩ := hown w hw spec hspec
      exact ⟨e, hlast, hagree w hw e he spec hspec hkey⟩

end

/-- **Policy convergence.** After a sequence of calls about one policy, with all commands
succeeding, both dataplanes hold exactly the rules of the version in force if and only if: the last
version of every other table name had no rules; the version in force has a flow for every match and
priority that any version had; and its flows of one match and priority have one action. -/
theorem policyConverged_iff {lexN lexO : Net.Lexicon} {n : NetworkController} {id : Id}
    {ops : List PolicyOp} {st : NetworkController × Nft.Ruleset × FlowTable}
    (hn : n.policies.lookup id = none) (hops : ∀ op ∈ ops, op.id = id)
    (hrun : run (policyStep (builtinBackends lexN lexO)) (n, ∅, ∅) ops = some st) :
    PolicyConverged lexO id st ↔
      (∀ v, lastWith nftTableName (versions n ops) (nftTableName v) = some v → v.rules ≠ [] →
        lastVersion n ops = some v) ∧
      (∀ v ∈ versions n ops, ∀ spec ∈ ovsFlows v, ∃ w, lastVersion n ops = some w ∧
        ∃ spec' ∈ ovsFlows w, flowKey lexO spec' = flowKey lexO spec) ∧
      ∀ w, lastVersion n ops = some w → ∀ spec ∈ ovsFlows w, ∀ spec' ∈ ovsFlows w,
        flowKey lexO spec = flowKey lexO spec' → spec.action = spec'.action := by
  obtain ⟨hnft, hovs⟩ := run_both (run_backend_of_run_policyStep hrun)
  rw [PolicyConverged, (lookup_policies_of_run hn hops hrun).1]
  exact and_congr (nftConverged_iff hnft) (ovsConverged_iff hovs)

/-- Applying a policy twice converges. -/
theorem policyConverged_reapply : ∃ st,
    run (policyStep (builtinBackends controllerLexicon controllerLexicon)) (policyController, ∅, ∅)
      [.apply (sshPolicy "a"), .apply (sshPolicy "a")] = some st ∧
    PolicyConverged controllerLexicon ⟨"ssh"⟩ st := by
  obtain ⟨st, hst⟩ := Option.isSome_iff_exists.1
    (by decide : (run (policyStep (builtinBackends controllerLexicon controllerLexicon))
      (policyController, ∅, ∅) [.apply (sshPolicy "a"), .apply (sshPolicy "a")]).isSome)
  have hver : ∀ v ∈ versions policyController [.apply (sshPolicy "a"), .apply (sshPolicy "a")],
      v = sshPolicy "a" := by decide
  refine ⟨st, hst, (policyConverged_iff rfl (by simp [PolicyOp.id, sshPolicy]) hst).2 ⟨?_, ?_, ?_⟩⟩
  · intro v hv _
    rw [hver v (lastWith_eq_some_key hv).1]
    rfl
  · intro v hv spec hspec
    rw [hver v hv] at hspec
    exact ⟨sshPolicy "a", rfl, spec, hspec, rfl⟩
  · rintro w hw spec hspec spec' hspec' -
    obtain rfl : sshPolicy "a" = w := Option.some.inj hw
    rw [List.mem_singleton.1 hspec, List.mem_singleton.1 hspec']

/-- SSH is denied, and TCP to port 23 as well. -/
def sshTelnetPolicy : FirewallPolicy :=
  ⟨⟨"ssh"⟩, .vpc ⟨"a"⟩, [⟨⟨"r1"⟩, .deny, .ingress, "tcp", "0.0.0.0/0", some 22⟩,
    ⟨⟨"r2"⟩, .deny, .ingress, "tcp", "0.0.0.0/0", some 23⟩]⟩

/-- A rule that a later version drops stays in Open vSwitch, and the rules of a deleted policy stay
in nftables. -/
theorem not_policyConverged :
    (∃ st, run (policyStep (builtinBackends controllerLexicon controllerLexicon))
      (policyController, ∅, ∅) [.apply sshTelnetPolicy, .apply (sshPolicy "a")] = some st ∧
      ¬OvsConverged controllerLexicon st.2.2 (st.1.policies.lookup ⟨"ssh"⟩)) ∧
    ∃ st, run (policyStep (builtinBackends controllerLexicon controllerLexicon))
      (policyController, ∅, ∅) [.apply (sshPolicy "a"), .delete ⟨"ssh"⟩] = some st ∧
      ¬NftConverged st.2.1 (st.1.policies.lookup ⟨"ssh"⟩) := by
  constructor
  · obtain ⟨st, hst⟩ := Option.isSome_iff_exists.1
      (by decide : (run (policyStep (builtinBackends controllerLexicon controllerLexicon))
        (policyController, ∅, ∅) [.apply sshTelnetPolicy, .apply (sshPolicy "a")]).isSome)
    refine ⟨st, hst, fun h => ?_⟩
    rw [(lookup_policies_of_run rfl (by simp [PolicyOp.id, sshPolicy, sshTelnetPolicy]) hst).1] at h
    obtain ⟨-, hovs⟩ := run_both (run_backend_of_run_policyStep hst)
    obtain ⟨w, hw, hflow⟩ := ((ovsConverged_iff hovs).1 h).1 sshTelnetPolicy (by decide)
      (ovsFlow ⟨⟨"r2"⟩, .deny, .ingress, "tcp", "0.0.0.0/0", some 23⟩ 999) (by decide)
    obtain rfl : sshPolicy "a" = w := Option.some.inj hw
    exact absurd hflow (by decide)
  · obtain ⟨st, hst⟩ := Option.isSome_iff_exists.1
      (by decide : (run (policyStep (builtinBackends controllerLexicon controllerLexicon))
        (policyController, ∅, ∅) [.apply (sshPolicy "a"), .delete ⟨"ssh"⟩]).isSome)
    refine ⟨st, hst, fun h => ?_⟩
    rw [(lookup_policies_of_run rfl (by simp [PolicyOp.id, sshPolicy]) hst).1] at h
    obtain ⟨hnft, -⟩ := run_both (run_backend_of_run_policyStep hst)
    have hcur := (nftConverged_iff hnft).1 h (sshPolicy "a") rfl (by decide)
    exact absurd hcur (by decide)

end OCF.Network
