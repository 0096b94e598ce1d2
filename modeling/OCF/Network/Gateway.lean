import OCF.Network.Backend
import OCF.Network.IpamSafety

/-!
# The gateway of a subnet

The gateway of a subnet is computed twice: `gatewayFromCidr` gives the bridge its address by
replacing the last octet of the CIDR's text, and the allocator reserves the second address of the
masked block. `gatewayAgrees_iff` says for which CIDRs the two are one address: the network of the
given prefix length and the `/24` network of the address must have the same base. It rests on
`cidrParts_gatewayFromCidr`, which reads the bridge's address back from the text.
-/

namespace OCF.Network

open Text

/-- The address and the prefix length that a CIDR is written with. -/
def cidrParts (cidr : String) : Option (UInt32 × UInt8) := do
  let (addr, len) ← splitOnce '/' cidr.toList
  let addr ← parseIpv4 (String.ofList addr)
  let len ← parseUnsigned 256 len
  some (addr, UInt8.ofNat len)

theorem slash_notMem_of_parseUnsigned {bound v : ℕ} {s : List Char}
    (h : parseUnsigned bound s = some v) : '/' ∉ s := by
  intro hslash
  rcases (parseUnsigned_eq_some h).2.2 _ hslash with h | h <;> simp at h

theorem slash_notMem_quad {o₀ o₁ o₂ o₃ : List Char} (h₀ : '/' ∉ o₀) (h₁ : '/' ∉ o₁) (h₂ : '/' ∉ o₂)
    (h₃ : '/' ∉ o₃) : '/' ∉ quad o₀ o₁ o₂ o₃ := by
  simp [quad, h₀, h₁, h₂, h₃]

/-- The parts of a CIDR that the bridge gets an address from. -/
theorem gatewayFromCidr_eq_some {cidr gw : String} (h : gatewayFromCidr cidr = some gw) :
    ∃ o₀ o₁ o₂ o₃ v₀ v₁ v₂ v₃ len l, splitOnce '/' cidr.toList = some (quad o₀ o₁ o₂ o₃, len) ∧
      parseUnsigned 256 o₀ = some v₀ ∧ parseUnsigned 256 o₁ = some v₁ ∧
      parseUnsigned 256 o₂ = some v₂ ∧ parseUnsigned 256 o₃ = some v₃ ∧
      parseUnsigned 256 len = some l ∧
      gw = String.ofList (quad o₀ o₁ o₂ ['1']) ++ "/" ++ toString l := by
  simp only [gatewayFromCidr, Option.bind_eq_bind, Option.bind_eq_some_iff] at h
  obtain ⟨⟨addr, len⟩, hsplit, h⟩ := h
  dsimp only at h
  split at h
  · rename_i o₀ o₁ o₂ o₃ hoctets
    have haddr : addr = quad o₀ o₁ o₂ o₃ :=
      calc addr = ['.'].intercalate (addr.splitOn '.') := (List.intercalate_splitOn '.').symm
        _ = quad o₀ o₁ o₂ o₃ := by simp [hoctets, quad, List.intercalate]
    simp only [List.mapM_cons, List.mapM_nil, Option.bind_eq_bind, Option.bind_eq_some_iff,
      Option.pure_def, Option.bind_some] at h
    obtain ⟨vs, ⟨v₀, h₀, vs₁, ⟨v₁, h₁, vs₂, ⟨v₂, h₂, vs₃, ⟨v₃, h₃, -⟩, -⟩, -⟩, -⟩, l, hl, h⟩ := h
    split_ifs at h
    exact ⟨o₀, o₁, o₂, o₃, v₀, v₁, v₂, v₃, len, l, haddr ▸ hsplit, h₀, h₁, h₂, h₃, hl,
      (Option.some.inj h).symm⟩
  · simp at h

/-- **The bridge's address**: the CIDR's own with 1 in the last octet. -/
theorem cidrParts_gatewayFromCidr {cidr gw : String} {n : UInt32} {p : UInt8}
    (h : gatewayFromCidr cidr = some gw) (hc : cidrParts cidr = some (n, p)) :
    ∃ bridge, cidrParts gw = some (bridge, p) ∧ bridge.toNat = n.toNat / 256 * 256 + 1 := by
  obtain ⟨o₀, o₁, o₂, o₃, v₀, v₁, v₂, v₃, len, l, hsplit, h₀, h₁, h₂, h₃, hl, rfl⟩ :=
    gatewayFromCidr_eq_some h
  have hone : parseUnsigned 256 ['1'] = some 1 := by decide
  obtain ⟨m, hm, hmval⟩ := parseIpv4_quad h₀ h₁ h₂ h₃
  obtain ⟨b, hb, hbval⟩ := parseIpv4_quad h₀ h₁ h₂ hone
  have hlt := (parseUnsigned_eq_some hl).1
  have hv₃ := (parseUnsigned_eq_some h₃).1
  obtain ⟨rfl, rfl⟩ : m = n ∧ UInt8.ofNat l = p := by
    simpa [cidrParts, hsplit, hm, hl] using hc
  have hquad : '/' ∉ quad o₀ o₁ o₂ ['1'] :=
    slash_notMem_quad (slash_notMem_of_parseUnsigned h₀) (slash_notMem_of_parseUnsigned h₁)
      (slash_notMem_of_parseUnsigned h₂) (slash_notMem_of_parseUnsigned hone)
  have hgw : splitOnce '/' (String.ofList (quad o₀ o₁ o₂ ['1']) ++ "/" ++ toString l).toList =
      some (quad o₀ o₁ o₂ ['1'], Nat.toDigits 10 l) := by
    have e : (String.ofList (quad o₀ o₁ o₂ ['1']) ++ "/" ++ toString l).toList =
        quad o₀ o₁ o₂ ['1'] ++ '/' :: Nat.toDigits 10 l := by
      simp [toString, Nat.repr]
    rw [e, splitOnce_append hquad]
  refine ⟨b, ?_, ?_⟩
  · rw [cidrParts, hgw]
    simp [hb, parseUnsigned_toDigits hlt]
  · rw [hbval, hmval]
    omega

/-- The address of the bridge is the one a new allocator has reserved; it lies in the subnet and
is never handed out, whatever happens to the allocator. -/
def GatewayAgrees (a : SubnetAllocator) (gw : String) : Prop :=
  ∃ bridge p, cidrParts gw = some (bridge, p) ∧ a.used = {bridge} ∧
    InBlock a.base a.prefixLen bridge ∧
    ∀ ops addr alloc, ((⟨a, ∅⟩ : Lease).exec ops).alloc.allocate = .ok (addr, alloc) →
      addr ≠ formatIpv4 bridge

/-- What a new allocator takes from the parts of its CIDR. -/
theorem SubnetAllocator.new_parts {cidr : String} {a : SubnetAllocator} {n : UInt32} {p : UInt8}
    (h : SubnetAllocator.new cidr = .ok a) (hc : cidrParts cidr = some (n, p)) :
    a.prefixLen = p ∧ a.base = n &&& networkMask p := by
  obtain ⟨hparse, -⟩ := SubnetAllocator.new_eq_ok h
  obtain ⟨addr, len, m, hsplit, hm, hlen, -, hbase⟩ := parseCidr_eq_some hparse
  obtain ⟨rfl, rfl⟩ : m = n ∧ a.prefixLen = p := by
    simpa [cidrParts, hsplit, hm, hlen] using hc
  exact ⟨rfl, hbase⟩

/-- Nothing is reserved in an allocator of the whole address space. -/
theorem checkedHost_zero (base : UInt32) : checkedHost base 0 1 = none := by
  rw [checkedHost, if_neg (by decide)]
  exact if_neg (by decide)

/-- **Gateway agreement.** The bridge's address is the one the allocator reserves, hence in the
subnet and never handed out, if and only if the prefix is not empty and zeroing the last octet of
the CIDR's address is the same as masking it to the prefix. -/
theorem gatewayAgrees_iff {cidr gw : String} {a : SubnetAllocator} {n : UInt32} {p : UInt8}
    (hnew : SubnetAllocator.new cidr = .ok a) (hgw : gatewayFromCidr cidr = some gw)
    (hc : cidrParts cidr = some (n, p)) (hp : p ≤ 30) :
    GatewayAgrees a gw ↔ p ≠ 0 ∧ n &&& networkMask p = n &&& networkMask 24 := by
  obtain ⟨hlen, hbase⟩ := SubnetAllocator.new_parts hnew hc
  obtain ⟨-, hp32, hfit, hused⟩ := SubnetAllocator.new_eq_ok hnew
  obtain ⟨bridge, hbridge, hval⟩ := cidrParts_gatewayFromCidr hgw hc
  rw [hlen] at hp32 hfit
  rw [hlen] at hused
  have hp30 : p.toNat ≤ 30 := UInt8.le_iff_toNat_le.1 hp
  have h24 : (n &&& networkMask 24).toNat = n.toNat / 256 * 256 :=
    toNat_and_networkMask n (by decide)
  constructor
  · rintro ⟨b, q, hb, hset, -, -⟩
    obtain ⟨rfl, -⟩ := Prod.mk.inj (Option.some.inj (hb.symm.trans hbridge))
    have hres : checkedHost a.base p 1 = some b := (hused b).1 (by simp [hset])
    have h0 : p ≠ 0 := by
      rintro rfl
      rw [checkedHost_zero] at hres
      simp at hres
    have hb1 := ((checkedHost_one_eq_some h0 hfit).1 hres).2
    refine ⟨h0, UInt32.toNat_inj.1 ?_⟩
    rw [← hbase, h24]
    omega
  · rintro ⟨h0, hsame⟩
    have hb1 : bridge.toNat = a.base.toNat + 1 := by
      rw [hval, hbase, hsame, h24]
    have hres : checkedHost a.base p 1 = some bridge :=
      (checkedHost_one_eq_some h0 hfit).2 ⟨by omega, hb1⟩
    refine ⟨bridge, p, hbridge, ?_, ?_, ?_⟩
    · ext m
      rw [hused, hres, Finset.mem_singleton, Option.some.injEq, eq_comm]
    · have hsize := two_le_blockSize (p := p) (by omega)
      rw [InBlock, hlen]
      omega
    · rintro ops addr alloc hok rfl
      have htracks : Lease.Tracks a.base p ⟨a, ∅⟩ := ⟨rfl, hlen, fun m => by simp [hused m]⟩
      have hreg : Lease.Regular a.base p :=
        ⟨h0, fun h31 => absurd (UInt8.le_iff_toNat_le.1 h31) (by
          rw [show (31 : UInt8).toNat = 31 from rfl]
          omega)⟩
      have hrun := htracks.exec ops
      obtain ⟨m, hm, hfree, -⟩ := (hrun.allocatesLowest hreg hp32 hfit).1 _ _ hok
      obtain rfl := formatIpv4_injective hm
      exact hfree.1.2.2.1 (by rw [hrun.base_eq, hb1])

theorem gatewayAgrees_slash24 :
    GatewayAgrees ⟨0x0a000100, 24, {0x0a000101}⟩ "10.0.1.1/24" :=
  (gatewayAgrees_iff (n := 0x0a000100) (p := 24) (by decide : SubnetAllocator.new "10.0.1.0/24" = _)
    (by decide) (by decide) (by decide)).2 ⟨by decide, by decide⟩

/-- The bridge of `10.0.1.64/26` gets an address outside the subnet, and the bridge of
`10.0.5.0/16` one that the allocator hands out. -/
theorem not_gatewayAgrees_unaligned :
    (SubnetAllocator.new "10.0.1.64/26" = .ok ⟨0x0a000140, 26, {0x0a000141}⟩ ∧
      gatewayFromCidr "10.0.1.64/26" = some "10.0.1.1/26" ∧
      ¬GatewayAgrees ⟨0x0a000140, 26, {0x0a000141}⟩ "10.0.1.1/26") ∧
    SubnetAllocator.new "10.0.5.0/16" = .ok ⟨0x0a000000, 16, {0x0a000001}⟩ ∧
      gatewayFromCidr "10.0.5.0/16" = some "10.0.5.1/16" ∧
      ¬GatewayAgrees ⟨0x0a000000, 16, {0x0a000001}⟩ "10.0.5.1/16" := by
  have hb : cidrParts "10.0.1.1/26" = some (0x0a000101, 26) := by decide
  have hb' : cidrParts "10.0.5.1/16" = some (0x0a000501, 16) := by decide
  refine ⟨⟨by decide, by decide, ?_⟩, by decide, by decide, ?_⟩
  · rintro ⟨b, p, h, hused, -⟩
    obtain ⟨rfl, -⟩ := Prod.mk.inj (Option.some.inj (h.symm.trans hb))
    exact absurd hused (by decide)
  · rintro ⟨b, p, h, hused, -⟩
    obtain ⟨rfl, -⟩ := Prod.mk.inj (Option.some.inj (h.symm.trans hb'))
    exact absurd hused (by decide)

end OCF.Network
