import OCF.Foundations.Packets
import OCF.Network.IpamSafety

/-!
# How addresses are read

The tools of the dataplane read addresses, CIDRs and protocol names themselves. `LawfulLexicon` is
what the renderings rely on: a dotted quad is that address, a dotted quad with a prefix length is
the block of that length around the address, and the three protocol names have their numbers. The
controller's own reading is lawful (`lawful_controllerLexicon`), and what it reads as a block is in
normal form (`parseCidr_canonical`).
-/

namespace OCF.Network

open Text

/-- A CIDR in its usual notation. -/
def cidrText (n : UInt32) (p : ℕ) : String := formatIpv4 n ++ "/" ++ toString p

/-- Addresses, CIDRs and protocol names are read as usual. -/
structure LawfulLexicon (lex : Net.Lexicon) : Prop where
  host : ∀ n, lex.addr (formatIpv4 n) = some (Net.Block.host n)
  cidr : ∀ n p, p ≤ 32 → ∃ b, lex.addr (cidrText n p) = some b ∧
    ∀ m, b.contains m = (⟨n, p⟩ : Net.Block).contains m
  tcp : lex.proto "tcp" = some 6
  udp : lex.proto "udp" = some 17
  icmp : lex.proto "icmp" = some 1

/-- The lexicon that reads addresses and blocks as the controller does. -/
def controllerLexicon : Net.Lexicon where
  addr text := match parseCidr text with
    | some (base, p) => some ⟨base, p.toNat⟩
    | none => (parseIpv4 text).map Net.Block.host
  proto text := if text = "tcp" then some 6 else if text = "udp" then some 17
    else if text = "icmp" then some 1 else none

theorem slash_notMem_formatIpv4 (n : UInt32) : '/' ∉ (formatIpv4 n).toList := by
  have hdigits : ∀ m, '/' ∉ octetDigits m := fun m h => by
    simpa using Nat.isDigit_of_mem_toDigits (by decide) (by decide) h
  simp [formatIpv4, hdigits]

/-- A printed address is read as that address. -/
theorem controllerLexicon_host (n : UInt32) :
    controllerLexicon.addr (formatIpv4 n) = some (Net.Block.host n) := by
  have hnone : parseCidr (formatIpv4 n) = none := by
    rw [parseCidr, splitOnce_eq_none (slash_notMem_formatIpv4 n)]
    rfl
  simp [controllerLexicon, hnone, parseIpv4_formatIpv4]

theorem parseCidr_cidrText (n : UInt32) {p : ℕ} (hp : p ≤ 32) :
    parseCidr (cidrText n p) = some (n &&& networkMask (UInt8.ofNat p), UInt8.ofNat p) := by
  have e : (cidrText n p).toList = (formatIpv4 n).toList ++ '/' :: Nat.toDigits 10 p := by
    simp [cidrText, toString, Nat.repr]
  rw [parseCidr, e, splitOnce_append (slash_notMem_formatIpv4 n)]
  have hlen : parseUnsigned 256 (Nat.toDigits 10 p) = some p := parseUnsigned_toDigits (by omega)
  simp [parseIpv4_formatIpv4, hlen, Nat.not_lt.2 hp]

/-- The bits after the prefix do not matter. -/
theorem contains_masked (n : UInt32) {p : UInt8} (hp : p.toNat ≤ 32) (m : UInt32) :
    (⟨n &&& networkMask p, p.toNat⟩ : Net.Block).contains m = (⟨n, p.toNat⟩ : Net.Block).contains m := by
  simp only [Net.Block.contains]
  rw [toNat_and_networkMask n hp, blockSize, Nat.mul_div_cancel _ (Nat.two_pow_pos _)]

theorem lawful_controllerLexicon : LawfulLexicon controllerLexicon where
  host := controllerLexicon_host
  cidr n p hp := by
    have hp8 : (UInt8.ofNat p).toNat = p := UInt8.toNat_ofNat_of_lt' (by
      simp only [UInt8.size]
      omega)
    refine ⟨⟨n &&& networkMask (UInt8.ofNat p), (UInt8.ofNat p).toNat⟩, ?_, fun m => ?_⟩
    · simp [controllerLexicon, parseCidr_cidrText n hp]
    · rw [contains_masked n (by omega), hp8]
  tcp := rfl
  udp := rfl
  icmp := rfl

/-! ## The block of a CIDR -/

/-- Masking clears the bits after the prefix. -/
theorem testBit_masked (n : UInt32) {p : UInt8} (hp : p.toNat ≤ 32) {i : ℕ}
    (hi : i < 32 - p.toNat) : (n &&& networkMask p).toNat.testBit i = false := by
  rw [toNat_and_networkMask n hp, blockSize, Nat.testBit_mul_two_pow, decide_eq_false (by omega),
    Bool.false_and]

/-- An address lies in the block it is masked to. -/
theorem inBlock_masked (n : UInt32) {p : UInt8} (hp : p.toNat ≤ 32) :
    InBlock (n &&& networkMask p) p n := by
  have hpos := blockSize_pos p
  rw [InBlock, toNat_and_networkMask n hp]
  exact ⟨Nat.div_mul_le_self _ _, Nat.lt_div_mul_add hpos⟩

/-- **Addresses and blocks as text.** Printed addresses are read back. A text that is read as a
block has an address before the slash, which is in the block; the block starts where the bits after
the prefix are zero, and its own notation is read as the same block. -/
theorem parseCidr_canonical :
    (∀ n, parseIpv4 (formatIpv4 n) = some n) ∧
    ∀ cidr base p, parseCidr cidr = some (base, p) →
      p.toNat ≤ 32 ∧ (∀ i < 32 - p.toNat, base.toNat.testBit i = false) ∧
      (∃ addr len n, splitOnce '/' cidr.toList = some (addr, len) ∧
        parseIpv4 (String.ofList addr) = some n ∧ InBlock base p n) ∧
      parseCidr (cidrText base p.toNat) = some (base, p) := by
  refine ⟨parseIpv4_formatIpv4, fun cidr base p h => ?_⟩
  obtain ⟨addr, len, n, hsplit, hn, -, hp, rfl⟩ := parseCidr_eq_some h
  refine ⟨hp, fun i hi => testBit_masked n hp hi, ⟨addr, len, n, hsplit, hn, inBlock_masked n hp⟩,
    ?_⟩
  -- the base is masked already
  rw [parseCidr_cidrText _ hp, UInt8.ofNat_toNat, UInt32.and_assoc, UInt32.and_self]

theorem parseCidr_canonical_ten : parseCidr "10.1.2.3/8" = some (0x0a000000, 8) ∧
    parseCidr (cidrText 0x0a000000 8) = some (0x0a000000, 8) := by
  have h : parseCidr "10.1.2.3/8" = some (0x0a000000, 8) := by decide +kernel
  exact ⟨h, (parseCidr_canonical.2 _ _ _ h).2.2.2⟩

end OCF.Network
