import OCF.Foundations.Nftables
import OCF.Network.Backend
import OCF.Network.Lexicon

/-!
# Egress of subnets

The egress of a subnet is one nftables table: a forward chain that accepts the opted-in addresses
and drops the rest of the subnet's CIDR, and a postrouting chain that masquerades the CIDR. Each
table is right alone. A forwarded packet meets the chains of all of them.

* `lookup_run_applyEgress`: a table is as the last loaded subnet of its name left it.
* `forwardChain_verdict`, `postroutingChain_verdict`: what one subnet's chains do to a packet.
* `egressRight_iff`: a packet from an address of a subnet leaves through the uplink exactly when
  the subnet is in NAT mode and the address opted in, if and only if no other NAT subnet whose
  table is in force covers the address, and a NAT subnet's own table is in force.
-/

namespace OCF.Network

open Text

/-! ## The uplink -/

/-- The device of a default route: what stands after the first `dev`, if there is one. -/
def uplinkOfTokens : List (List Char) → Option (Option String)
  | [] => none
  | tok :: toks =>
    if tok = "dev".toList then some (toks.head?.map String.ofList) else uplinkOfTokens toks

/-- The device of the first default route that names one. -/
def uplinkOfLines : List (List Char) → Option String
  | [] => none
  | line :: rest =>
    let line := trim line
    if !"default".toList.isPrefixOf line then uplinkOfLines rest
    else match uplinkOfTokens (splitWhitespace line) with
      | some dev => dev
      | none => uplinkOfLines rest

/-- The device of the first default route in what `ip route show default` prints. -/
def parseDefaultUplink (ipRouteOutput : String) : Option String :=
  uplinkOfLines (lines ipRouteOutput.toList)

example : parseDefaultUplink "default via 10.0.0.1 dev eth0 proto dhcp metric 100\n10.0.1.0/24 dev br-web"
    = some "eth0" := by decide

/-! ## The script of a subnet -/

/-- The script that removes a subnet's egress table. -/
def renderEgressTeardown (table : String) : List Nft.Command := Nft.removeTable table

/-- Accept return traffic and the opted-in addresses, drop the rest of the subnet. -/
def forwardChain (cidr : String) (allowed : List String) : Nft.Chain where
  name := "forward"
  kind := "filter"
  hook := "forward"
  priority := "filter"
  rules := ⟨[.ctEstablishedRelated], .accept⟩ :: (allowed.map fun addr => ⟨[.saddr addr], .accept⟩) ++
    [⟨[.saddr cidr], .drop⟩]

/-- Masquerade the subnet out of the uplink. -/
def postroutingChain (cidr uplink : String) : Nft.Chain where
  name := "postrouting"
  kind := "nat"
  hook := "postrouting"
  priority := "srcnat"
  rules := [⟨[.saddr cidr, .oifname uplink], .masquerade⟩]

/-- The chains of a subnet that has egress. -/
def egressChains (subnet : Subnet) (allowed : List String) (uplink : String) : List Nft.Chain :=
  [forwardChain subnet.cidr allowed, postroutingChain subnet.cidr uplink]

/-- The script that programs a subnet's egress. -/
def renderEgressNftables (subnet : Subnet) (allowed : List String) (uplink table : String) :
    List Nft.Command :=
  Nft.replaceTable table (egressChains subnet allowed uplink)

/-- The script that programs or tears down a subnet's egress, on a host that forwards. -/
def programHostEgress (ipRouteOutput : String) (subnet : Subnet) (allowed : List String) :
    Result (List Nft.Command) :=
  let table := egressTableName subnet
  if !subnet.egress.providesEgress then .ok (renderEgressTeardown table)
  else match parseDefaultUplink ipRouteOutput with
    | none => .error (.provider "ip" "no default-route uplink found")
    | some uplink => .ok (renderEgressNftables subnet allowed uplink table)

example : (egressChains ⟨.named "web", ⟨"vpc-a"⟩, "10.0.1.0/24", "ns-web", .nat⟩ ["10.0.1.5"]
    "eth0").map Nft.Chain.rules =
    [[⟨[.ctEstablishedRelated], .accept⟩, ⟨[.saddr "10.0.1.5"], .accept⟩,
        ⟨[.saddr "10.0.1.0/24"], .drop⟩],
      [⟨[.saddr "10.0.1.0/24", .oifname "eth0"], .masquerade⟩]] := by decide

/-! ## Loading the scripts of several subnets -/

section

variable (lex : Net.Lexicon) (ipRouteOutput : String) (allow : Id → List String)

/-- Program a subnet's egress with its allow-list. -/
def applyEgress (rs : Nft.Ruleset) (subnet : Subnet) : Option Nft.Ruleset :=
  match programHostEgress ipRouteOutput subnet (allow subnet.metadata.id) with
  | .error _ => none
  | .ok script => Nft.load lex rs script

/-- Whether an address is in a block as it is written in a script. -/
def Covers (text : String) (n : UInt32) : Prop := ∃ b, lex.addr text = some b ∧ b.contains n = true

/-- The text of a single address. -/
def IsAddress (text : String) : Prop := ∃ n, lex.addr text = some (Net.Block.host n)

/-- The chains a subnet asks for: none when it provides no egress. -/
def wantedChains (uplink : String) (subnet : Subnet) : Option (List Nft.Chain) :=
  if subnet.egress = .nat then some (egressChains subnet (allow subnet.metadata.id) uplink) else none

variable {lex ipRouteOutput allow} {uplink : String}

theorem any_contains_iff {text : String} {n : UInt32} :
    ((lex.addr text).any fun b => b.contains n) = true ↔ Covers lex text n := by
  rw [Option.any_eq_true, Covers]

/-- The text of an address covers that address only. -/
theorem IsAddress.covers_iff {text : String} (h : IsAddress lex text) {n : UInt32} :
    Covers lex text n ↔ lex.addr text = some (Net.Block.host n) := by
  obtain ⟨m, hm⟩ := h
  simp only [Covers, hm, Option.some.injEq, exists_eq_left', Net.Block.contains_host]
  constructor
  · rintro rfl
    rfl
  · intro e
    exact ((Net.Block.contains_host n m).1 (by rw [e, Net.Block.contains_host]))

/-- **The forward chain** of a subnet drops what opens a connection from an address of the subnet
that is not in the allow-list. -/
theorem forwardChain_verdict {pkt : Net.Packet} (hnew : pkt.isNew = true) (cidr : String)
    (allowed : List String) : (forwardChain cidr allowed).verdict lex pkt = .drop ↔
      Covers lex cidr pkt.src ∧ ∀ x ∈ allowed, ¬Covers lex x pkt.src := by
  have hct : Nft.Rule.Hits lex pkt ⟨[.ctEstablishedRelated], .accept⟩ = false := by
    simp [Nft.Rule.Hits, Nft.Match.Holds, hnew]
  have hsaddr : ∀ x v, Nft.Rule.Hits lex pkt ⟨[.saddr x], v⟩ = true ↔ Covers lex x pkt.src := by
    intro x v
    simp [Nft.Rule.Hits, Nft.Match.Holds, any_contains_iff]
  rw [Nft.Chain.verdict, forwardChain, List.cons_append, List.find?_cons_of_neg (by simp [hct]),
    List.find?_append]
  by_cases hopt : ∃ x ∈ allowed, Covers lex x pkt.src
  · -- an accept rule decides
    obtain ⟨x, hx, hcov⟩ := hopt
    have hsome : ((allowed.map fun addr => (⟨[.saddr addr], .accept⟩ : Nft.Rule)).find?
        fun r => r.Hits lex pkt).isSome := by
      rw [List.find?_isSome]
      exact ⟨_, List.mem_map_of_mem hx, (hsaddr x _).2 hcov⟩
    obtain ⟨r, hr⟩ := Option.isSome_iff_exists.1 hsome
    obtain ⟨y, -, rfl⟩ := List.mem_map.1 (List.mem_of_find?_eq_some hr)
    rw [hr]
    constructor
    · intro h
      simp at h
    · exact fun h => absurd hcov (h.2 x hx)
  · have hnone : (allowed.map fun addr => (⟨[.saddr addr], .accept⟩ : Nft.Rule)).find?
        (fun r => r.Hits lex pkt) = none := by
      rw [List.find?_eq_none]
      intro r hr hhit
      obtain ⟨x, hx, rfl⟩ := List.mem_map.1 hr
      exact hopt ⟨x, hx, (hsaddr x _).1 hhit⟩
    rw [hnone, Option.none_or]
    have hall : ∀ x ∈ allowed, ¬Covers lex x pkt.src := fun x hx hcov => hopt ⟨x, hx, hcov⟩
    by_cases hcidr : Covers lex cidr pkt.src
    · rw [List.find?_cons_of_pos ((hsaddr cidr _).2 hcidr)]
      exact ⟨fun _ => ⟨hcidr, hall⟩, fun _ => rfl⟩
    · rw [List.find?_cons_of_neg (fun h => hcidr ((hsaddr cidr _).1 h))]
      constructor
      · intro h
        simp at h
      · exact fun h => absurd h.1 hcidr

theorem postroutingChain_verdict {pkt : Net.Packet} (cidr uplink : String) :
    (postroutingChain cidr uplink).verdict lex pkt = .masquerade ↔
      Covers lex cidr pkt.src ∧ pkt.oif = uplink := by
  have hhit : Nft.Rule.Hits lex pkt ⟨[.saddr cidr, .oifname uplink], .masquerade⟩ = true ↔
      Covers lex cidr pkt.src ∧ pkt.oif = uplink := by
    simp [Nft.Rule.Hits, Nft.Match.Holds, any_contains_iff]
  rw [Nft.Chain.verdict, postroutingChain, ← hhit]
  by_cases h : Nft.Rule.Hits lex pkt ⟨[.saddr cidr, .oifname uplink], .masquerade⟩ = true
  · simp [h]
  · simp [h]

/-- One subnet's script writes the table of its name. -/
theorem lookup_applyEgress (huplink : parseDefaultUplink ipRouteOutput = some uplink)
    (rs : Nft.Ruleset) (t : Subnet) (rs' : Nft.Ruleset)
    (h : applyEgress lex ipRouteOutput allow rs t = some rs') (x : String) :
    rs'.lookup x = if x = egressTableName t then wantedChains allow uplink t else rs.lookup x := by
  rw [applyEgress, programHostEgress] at h
  cases he : t.egress with
  | isolated =>
    rw [he] at h
    obtain ⟨u, hu, hlookup⟩ := Nft.load_removeTable lex rs (egressTableName t)
    obtain rfl := Option.some.inj (hu.symm.trans h)
    rw [hlookup, wantedChains, he, if_neg (by decide : EgressMode.isolated ≠ .nat)]
  | nat =>
    simp only [he, EgressMode.providesEgress, Bool.not_true, Bool.false_eq_true, if_false, huplink]
      at h
    have hreplace := Nft.load_replaceTable lex rs (egressTableName t)
      (egressChains t (allow t.metadata.id) uplink)
    split_ifs at hreplace
    · obtain ⟨u, hu, hlookup⟩ := hreplace
      obtain rfl := Option.some.inj (hu.symm.trans h)
      rw [hlookup, wantedChains, if_pos he]
    · rw [renderEgressNftables, hreplace] at h
      simp at h

/-- **A table after all scripts** is as the last subnet of its name left it. -/
theorem lookup_run_applyEgress (huplink : parseDefaultUplink ipRouteOutput = some uplink)
    {order : List Subnet} {rs : Nft.Ruleset}
    (h : run (applyEgress lex ipRouteOutput allow) ∅ order = some rs) (x : String) :
    rs.lookup x = (lastWith egressTableName order x).bind (wantedChains allow uplink) := by
  have hread := run_read (fun rs x => rs.lookup x) (lookup_applyEgress huplink) h x
  rw [hread]
  cases lastWith egressTableName order x <;> rfl

/-- Scripts whose addresses can be read are loaded. -/
theorem run_applyEgress_isSome (huplink : parseDefaultUplink ipRouteOutput = some uplink)
    {order : List Subnet} (hcidr : ∀ t ∈ order, t.egress = .nat → (lex.addr t.cidr).isSome)
    (hallow : ∀ id, ∀ x ∈ allow id, IsAddress lex x) (rs : Nft.Ruleset) :
    ∃ rs', run (applyEgress lex ipRouteOutput allow) rs order = some rs' := by
  refine exists_run (fun t ht rs => ?_) rs
  rw [applyEgress, programHostEgress]
  cases he : t.egress with
  | isolated =>
    obtain ⟨u, hu, -⟩ := Nft.load_removeTable lex rs (egressTableName t)
    exact ⟨u, hu⟩
  | nat =>
    simp only [EgressMode.providesEgress, Bool.not_true, Bool.false_eq_true, if_false, huplink]
    have hreplace := Nft.load_replaceTable lex rs (egressTableName t)
      (egressChains t (allow t.metadata.id) uplink)
    have haddr : ∀ x ∈ allow t.metadata.id, (lex.addr x).isSome := fun x hx => by
      obtain ⟨n, hn⟩ := hallow _ x hx
      simp [hn]
    have hread : (egressChains t (allow t.metadata.id) uplink).all (fun c => c.Readable lex) := by
      simpa [egressChains, forwardChain, postroutingChain, Nft.Chain.Readable,
        Nft.Rule.Readable, Nft.Match.Readable, hcidr t ht he] using haddr
    rw [if_pos hread] at hreplace
    obtain ⟨u, hu, -⟩ := hreplace
    exact ⟨u, hu⟩

/-! ## Who gets out -/

/-- A NAT subnet whose table no later script has replaced. -/
def InForce (order : List Subnet) (t : Subnet) : Prop :=
  lastWith egressTableName order (egressTableName t) = some t ∧ t.egress = .nat

/-- The packet survives the forward chains and is masqueraded. -/
def Escapes (lex : Net.Lexicon) (rs : Nft.Ruleset) (pkt : Net.Packet) : Prop :=
  Nft.Survives lex pkt rs "forward" ∧ Nft.Masqueraded lex pkt rs "postrouting"

/-- The tables of a host are those of the subnets in force. -/
theorem lookup_eq_some_iff (huplink : parseDefaultUplink ipRouteOutput = some uplink)
    {order : List Subnet} {rs : Nft.Ruleset}
    (h : run (applyEgress lex ipRouteOutput allow) ∅ order = some rs) {x : String}
    {chains : List Nft.Chain} : rs.lookup x = some chains ↔ ∃ t, InForce order t ∧
      egressTableName t = x ∧ chains = egressChains t (allow t.metadata.id) uplink := by
  rw [lookup_run_applyEgress huplink h, Option.bind_eq_some_iff]
  constructor
  · rintro ⟨t, ht, hw⟩
    obtain ⟨-, rfl⟩ := lastWith_eq_some_key ht
    rw [wantedChains] at hw
    split_ifs at hw with hnat
    exact ⟨t, ⟨ht, hnat⟩, rfl, (Option.some.inj hw).symm⟩
  · rintro ⟨t, ⟨ht, hnat⟩, rfl, rfl⟩
    exact ⟨t, ht, by rw [wantedChains, if_pos hnat]⟩

/-- **Who gets out.** What opens a connection through the uplink gets out when some subnet in
force covers its source, and every one that does has the source in its allow-list. -/
theorem escapes_iff (huplink : parseDefaultUplink ipRouteOutput = some uplink)
    {order : List Subnet} {rs : Nft.Ruleset}
    (h : run (applyEgress lex ipRouteOutput allow) ∅ order = some rs) {pkt : Net.Packet}
    (hnew : pkt.isNew = true) (hoif : pkt.oif = uplink) : Escapes lex rs pkt ↔
      (∃ t, InForce order t ∧ Covers lex t.cidr pkt.src) ∧
      ∀ t, InForce order t → Covers lex t.cidr pkt.src →
        ∃ x ∈ allow t.metadata.id, Covers lex x pkt.src := by
  rw [Escapes, and_comm]
  refine and_congr ?_ ?_
  · constructor
    · rintro ⟨x, chains, hx, c, hc, hhook, hv⟩
      obtain ⟨t, ht, -, rfl⟩ := (lookup_eq_some_iff huplink h).1 hx
      rcases List.mem_cons.1 hc with rfl | hc
      · exact absurd hhook (by decide : "forward" ≠ "postrouting")
      · obtain rfl := List.mem_singleton.1 hc
        exact ⟨t, ht, ((postroutingChain_verdict _ _).1 hv).1⟩
    · rintro ⟨t, ht, hcov⟩
      exact ⟨_, _, (lookup_eq_some_iff huplink h).2 ⟨t, ht, rfl, rfl⟩, _, by simp [egressChains], rfl,
        (postroutingChain_verdict _ _).2 ⟨hcov, hoif⟩⟩
  · constructor
    · intro hs t ht hcov
      by_contra hno
      refine hs _ _ ((lookup_eq_some_iff huplink h).2 ⟨t, ht, rfl, rfl⟩)
        (forwardChain t.cidr (allow t.metadata.id)) (by simp [egressChains]) rfl ?_
      exact (forwardChain_verdict hnew _ _).2 ⟨hcov, fun x hx hxc => hno ⟨x, hx, hxc⟩⟩
    · intro hallowed x chains hx c hc hhook hdrop
      obtain ⟨t, ht, -, rfl⟩ := (lookup_eq_some_iff huplink h).1 hx
      rcases List.mem_cons.1 hc with rfl | hc
      · obtain ⟨hcov, hnone⟩ := (forwardChain_verdict hnew _ _).1 hdrop
        obtain ⟨x, hx, hxc⟩ := hallowed t ht hcov
        exact hnone x hx hxc
      · obtain rfl := List.mem_singleton.1 hc
        exact absurd hhook (by decide : "postrouting" ≠ "forward")

end

/-! ## Subnets the controller accepts -/

/-- Create a subnet; `none` when it is refused. -/
def acceptSubnet (n : NetworkController) (subnet : Subnet) : Option NetworkController :=
  match n.createSubnet subnet with
  | (.ok _, n) => some n
  | (.error _, _) => none

theorem acceptSubnet_eq_some {n n' : NetworkController} {s : Subnet}
    (h : acceptSubnet n s = some n') : s.metadata.id ∉ n.subnets ∧
      n'.subnets = n.subnets.insert s.metadata.id s := by
  rw [acceptSubnet] at h
  by_cases ha : s.vpcId ∈ n.vpcs ∧ s.metadata.id ∉ n.subnets
  · rw [n.createSubnet_of_accepted ha.1 ha.2] at h
    obtain rfl := Option.some.inj h
    exact ⟨ha.2, rfl⟩
  · obtain ⟨e, he⟩ := n.createSubnet_of_refused ha
    rw [he] at h
    simp at h

/-- Accepted subnets have distinct ids. -/
theorem nodup_of_run_acceptSubnet {n n' : NetworkController} {subnets : List Subnet}
    (h : run acceptSubnet n subnets = some n') :
    (subnets.map fun s => s.metadata.id).Nodup ∧ ∀ s ∈ subnets, s.metadata.id ∉ n.subnets := by
  induction subnets generalizing n with
  | nil => simp
  | cons s subnets ih =>
    obtain ⟨m, hm, hrest⟩ := run_cons_eq_some.1 h
    obtain ⟨hnew, hsub⟩ := acceptSubnet_eq_some hm
    obtain ⟨hnodup, hnotMem⟩ := ih hrest
    rw [hsub] at hnotMem
    refine ⟨List.nodup_cons.2 ⟨fun hmem => ?_, hnodup⟩, fun t ht => ?_⟩
    · obtain ⟨t, ht, hid⟩ := List.mem_map.1 hmem
      exact hnotMem t ht ((AList.mem_insert _).2 (.inl hid))
    · rcases List.mem_cons.1 ht with rfl | ht
      · exact hnew
      · exact fun hmem => hnotMem t ht ((AList.mem_insert _).2 (.inr hmem))

/-- **Egress of a subnet**: whatever the allow-lists, a packet gets out exactly when the subnet is
in NAT mode and the source is in its allow-list, once the scripts of all subnets are loaded. -/
def EgressRight (lex : Net.Lexicon) (ipRouteOutput : String) (order : List Subnet) (s : Subnet)
    (pkt : Net.Packet) : Prop :=
  ∀ (allow : Id → List String) (rs : Nft.Ruleset), (∀ id, ∀ x ∈ allow id, IsAddress lex x) →
    run (applyEgress lex ipRouteOutput allow) ∅ order = some rs →
    (Escapes lex rs pkt ↔ s.egress = .nat ∧
      ∃ x ∈ allow s.metadata.id, lex.addr x = some (Net.Block.host pkt.src))

/-- **Egress over all subnets.** Take any subnets the controller accepted, with scripts that can be
loaded, in any order, and a new packet from an address of one of them out of the uplink. Whether it
gets out is right for all allow-lists if and only if no other NAT subnet whose table is in force
covers the address, and the subnet's own table is in force when it is in NAT mode. -/
theorem egressRight_iff {lex : Net.Lexicon} {ipRouteOutput uplink : String}
    (hhost : ∀ n, lex.addr (formatIpv4 n) = some (Net.Block.host n))
    (huplink : parseDefaultUplink ipRouteOutput = some uplink) {n n' : NetworkController}
    {subnets order : List Subnet} (haccept : run acceptSubnet n subnets = some n')
    (horder : order.Perm subnets)
    (hcidr : ∀ t ∈ subnets, t.egress = .nat → (lex.addr t.cidr).isSome) {s : Subnet}
    (hs : s ∈ subnets) {pkt : Net.Packet} (hnew : pkt.isNew = true) (hoif : pkt.oif = uplink)
    (hsrc : Covers lex s.cidr pkt.src) :
    EgressRight lex ipRouteOutput order s pkt ↔
      (s.egress = .nat → lastWith egressTableName order (egressTableName s) = some s) ∧
      ∀ t ∈ subnets, t ≠ s → t.egress = .nat →
        lastWith egressTableName order (egressTableName t) = some t → ¬Covers lex t.cidr pkt.src := by
  have hnodup := (nodup_of_run_acceptSubnet haccept).1
  have hids : ∀ t ∈ subnets, t.metadata.id = s.metadata.id → t = s := fun t ht hid =>
    List.inj_on_of_nodup_map hnodup ht hs hid
  have hmem : ∀ t, InForce order t → t ∈ subnets := fun t ht =>
    horder.mem_iff.1 (lastWith_eq_some_key ht.1).1
  have hcidr' : ∀ t ∈ order, t.egress = .nat → (lex.addr t.cidr).isSome := fun t ht =>
    hcidr t (horder.mem_iff.1 ht)
  have haddr : ∀ allowed ⊆ [formatIpv4 pkt.src], ∀ x ∈ allowed, IsAddress lex x := by
    intro allowed hsub x hx
    rw [List.mem_singleton.1 (hsub hx)]
    exact ⟨pkt.src, hhost pkt.src⟩
  constructor
  · intro hright
    have hself : lex.addr (formatIpv4 pkt.src) = some (Net.Block.host pkt.src) := hhost pkt.src
    cases he : s.egress with
    | nat =>
      -- with the address in the allow-list of `s` alone, whatever covers it must be `s`
      let allow : Id → List String := fun id => if id = s.metadata.id then [formatIpv4 pkt.src] else []
      have hallow : ∀ id, ∀ x ∈ allow id, IsAddress lex x := fun id => haddr _ (by
        simp only [allow]
        split_ifs <;> simp)
      obtain ⟨rs, hrun⟩ := run_applyEgress_isSome huplink hcidr' hallow ∅
      have hesc : Escapes lex rs pkt :=
        (hright allow rs hallow hrun).2 ⟨he, formatIpv4 pkt.src, by simp [allow], hself⟩
      obtain ⟨⟨t, ht, htc⟩, hall⟩ := (escapes_iff huplink hrun hnew hoif).1 hesc
      have honly : ∀ u, InForce order u → Covers lex u.cidr pkt.src → u = s := by
        intro u hu huc
        obtain ⟨x, hx, -⟩ := hall u hu huc
        refine hids u (hmem u hu) ?_
        by_contra hne
        simp [allow, hne] at hx
      refine ⟨fun _ => ?_, fun u _ hne hnat hlast huc => hne (honly u ⟨hlast, hnat⟩ huc)⟩
      exact honly t ht htc ▸ ht.1
    | isolated =>
      -- with the address in every allow-list, whatever covers it lets it out
      refine ⟨by simp, fun t ht hne hnat hlast htc => ?_⟩
      have hallow : ∀ id : Id, ∀ x ∈ [formatIpv4 pkt.src], IsAddress lex x := fun _ =>
        haddr _ (List.Subset.refl _)
      obtain ⟨rs, hrun⟩ := run_applyEgress_isSome huplink hcidr' hallow ∅
      have hesc : Escapes lex rs pkt := by
        refine (escapes_iff huplink hrun hnew hoif).2 ⟨⟨t, ⟨hlast, hnat⟩, htc⟩, fun u _ _ => ?_⟩
        exact ⟨formatIpv4 pkt.src, by simp, ⟨_, hself, by simp⟩⟩
      exact absurd (he.symm.trans ((hright _ rs hallow hrun).1 hesc).1) (by decide)
  · rintro ⟨hown, hother⟩ allow rs hallow hrun
    rw [escapes_iff huplink hrun hnew hoif]
    have hcov : ∀ x ∈ allow s.metadata.id,
        (Covers lex x pkt.src ↔ lex.addr x = some (Net.Block.host pkt.src)) := fun x hx =>
      (hallow _ x hx).covers_iff
    have hsole : ∀ t, InForce order t → Covers lex t.cidr pkt.src → t = s := by
      intro t ht htc
      by_contra hne
      exact hother t (hmem t ht) hne ht.2 ht.1 htc
    constructor
    · rintro ⟨⟨t, ht, htc⟩, hall⟩
      obtain rfl := hsole t ht htc
      obtain ⟨x, hx, hxc⟩ := hall t ht htc
      exact ⟨ht.2, x, hx, (hcov x hx).1 hxc⟩
    · rintro ⟨hnat, x, hx, hxa⟩
      refine ⟨⟨s, ⟨hown hnat, hnat⟩, hsrc⟩, fun t ht htc => ?_⟩
      obtain rfl := hsole t ht htc
      exact ⟨x, hx, (hcov x hx).2 hxa⟩

/-! ## Addresses as the controller reads them -/

/-- The addresses of a subnet are those its CIDR covers. -/
theorem covers_controllerLexicon {cidr : String} {a : SubnetAllocator}
    (h : SubnetAllocator.new cidr = .ok a) (n : UInt32) :
    Covers controllerLexicon cidr n ↔ a.contains n = true := by
  obtain ⟨hparse, hp, -, -⟩ := SubnetAllocator.new_eq_ok h
  obtain ⟨-, -, m, -, -, -, -, hbase⟩ := parseCidr_eq_some hparse
  have haddr : controllerLexicon.addr cidr = some ⟨a.base, a.prefixLen.toNat⟩ := by
    simp [controllerLexicon, hparse]
  have hpos := blockSize_pos a.prefixLen
  simp only [Covers, haddr, Option.some.injEq, exists_eq_left', Net.Block.contains,
    SubnetAllocator.contains, decide_eq_true_eq]
  change n.toNat / blockSize a.prefixLen = a.base.toNat / blockSize a.prefixLen ↔ _
  rw [hbase, ← UInt32.toNat_inj, toNat_and_networkMask n hp, toNat_and_networkMask m hp,
    Nat.mul_div_cancel _ hpos, Nat.mul_left_inj hpos.ne']

/-- A controller with the VPCs `a` and `b`. -/
def twoVpcs : NetworkController :=
  ((NetworkController.new.createVpc ⟨.named "a", "10.0.0.0/16", 1⟩).2.createVpc
    ⟨.named "b", "10.0.0.0/16", 2⟩).2

/-- A NAT subnet, an isolated one beside it, and a NAT subnet of another VPC with the same CIDR. -/
def webSubnet : Subnet := ⟨.named "web", ⟨"a"⟩, "10.0.1.0/24", "ns-web", .nat⟩

/-- A subnet of the same VPC without egress. -/
def labSubnet : Subnet := ⟨.named "lab", ⟨"a"⟩, "10.0.2.0/24", "ns-lab", .isolated⟩

/-- A subnet of the other VPC with the same addresses. -/
def shopSubnet : Subnet := ⟨.named "shop", ⟨"b"⟩, "10.0.1.0/24", "ns-shop", .nat⟩

/-- A packet from `10.0.1.5` to the internet. -/
def webPacket : Net.Packet := ⟨0x0a000105, 0x08080808, 17, some 53, true, "eth0"⟩

theorem covers_webPacket : Covers controllerLexicon "10.0.1.0/24" webPacket.src :=
  ⟨⟨0x0a000100, 24⟩, by decide, by decide⟩

theorem egressRight_webSubnet : EgressRight controllerLexicon "default via 10.9.0.1 dev eth0"
    [webSubnet, labSubnet] webSubnet webPacket := by
  obtain ⟨n, hn⟩ := Option.isSome_iff_exists.1
    (by decide : (run acceptSubnet twoVpcs [webSubnet, labSubnet]).isSome)
  refine (egressRight_iff controllerLexicon_host (by decide) hn (List.Perm.refl _) ?_ (by simp) rfl rfl
    covers_webPacket).2 ⟨fun _ => rfl, ?_⟩
  · decide
  · intro t ht hne hnat
    rcases List.mem_cons.1 ht with rfl | ht
    · exact absurd rfl hne
    · obtain rfl := List.mem_singleton.1 ht
      exact absurd hnat (by decide)

/-- Two VPCs may use the same addresses. The table of the second then drops what the first allows. -/
theorem not_egressRight_overlap :
    (run acceptSubnet twoVpcs [webSubnet, shopSubnet]).isSome ∧
    Covers controllerLexicon webSubnet.cidr webPacket.src ∧
    ¬EgressRight controllerLexicon "default via 10.9.0.1 dev eth0" [webSubnet, shopSubnet] webSubnet
      webPacket := by
  refine ⟨by decide, covers_webPacket, fun h => ?_⟩
  let allow : Id → List String := fun id => if id = ⟨"web"⟩ then ["10.0.1.5"] else []
  have hread : controllerLexicon.addr "10.0.1.5" = some (Net.Block.host 0x0a000105) := by decide
  have hallow : ∀ id, ∀ x ∈ allow id, IsAddress controllerLexicon x := by
    intro id x hx
    simp only [allow] at hx
    split_ifs at hx
    · obtain rfl := List.mem_singleton.1 hx
      exact ⟨_, hread⟩
    · simp at hx
  have huplink : parseDefaultUplink "default via 10.9.0.1 dev eth0" = some "eth0" := by decide
  have hcidr : ∀ t ∈ [webSubnet, shopSubnet], t.egress = .nat →
      (controllerLexicon.addr t.cidr).isSome := by decide
  obtain ⟨rs, hrun⟩ := run_applyEgress_isSome huplink hcidr hallow ∅
  have hesc : Escapes controllerLexicon rs webPacket :=
    (h allow rs hallow hrun).2 ⟨rfl, "10.0.1.5", by decide, hread⟩
  obtain ⟨x, hx, -⟩ := ((escapes_iff huplink hrun rfl rfl).1 hesc).2 shopSubnet ⟨rfl, rfl⟩
    covers_webPacket
  exact absurd hx (by simp [allow, shopSubnet, Metadata.named])

end OCF.Network
