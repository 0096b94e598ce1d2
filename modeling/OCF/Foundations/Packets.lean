import OCF.Foundations.Text
import Mathlib.Data.UInt

/-!
# Packets and address blocks

What packet filters look at. A block of addresses is given by an address and a prefix length; an
address is in it when the first bits agree. `Block.normalize` is the form in which a filter stores
a block: the bits after the prefix are cleared, and a block of everything is no condition at all.
A `Lexicon` is how a tool reads addresses and protocol names.
-/

namespace OCF.Net

/-- A block of IPv4 addresses: those that agree with `addr` in the first `len` bits. -/
structure Block where
  addr : UInt32
  len : ℕ
  deriving DecidableEq

/-- Whether an address is in the block. -/
def Block.contains (b : Block) (n : UInt32) : Bool :=
  n.toNat / 2 ^ (32 - b.len) = b.addr.toNat / 2 ^ (32 - b.len)

/-- A single address. -/
def Block.host (n : UInt32) : Block := ⟨n, 32⟩

@[simp] theorem Block.contains_host (m n : UInt32) : (Block.host n).contains m = true ↔ m = n := by
  simp [Block.host, Block.contains, UInt32.toNat_inj]

/-- A block without a prefix has every address. -/
theorem Block.contains_of_len_zero {b : Block} (h : b.len = 0) (n : UInt32) :
    b.contains n = true := by
  have hn : n.toNat / 2 ^ 32 = 0 := Nat.div_eq_of_lt n.toNat_lt
  have hb : b.addr.toNat / 2 ^ 32 = 0 := Nat.div_eq_of_lt b.addr.toNat_lt
  rw [contains, h, Nat.sub_zero, hn, hb]
  rfl

/-- What rules look at in an IPv4 packet. Only protocols with ports have a destination port. -/
structure Packet where
  src : UInt32
  dst : UInt32
  proto : UInt8
  dport : Option UInt16
  /-- The packet opens a connection: it is neither established nor related. -/
  isNew : Bool
  /-- The interface the packet leaves by. -/
  oif : String

/-- How a tool reads addresses and protocol names. -/
structure Lexicon where
  addr : String → Option Block
  proto : String → Option UInt8

/-- A port in decimal. -/
def readPort (text : String) : Option UInt16 :=
  (Text.parseUnsigned 65536 text.toList).map UInt16.ofNat

theorem readPort_toString (port : UInt16) : readPort (toString port.toNat) = some port := by
  have hread : Text.parseUnsigned 65536 (Nat.toDigits 10 port.toNat) = some port.toNat :=
    Text.parseUnsigned_toDigits port.toNat_lt
  simp [readPort, toString, Nat.repr, hread]

/-- A block as filters store it. -/
def Block.normalize (b : Block) : Option Block :=
  if b.len = 0 then none
  else some ⟨UInt32.ofNat (b.addr.toNat / 2 ^ (32 - b.len) * 2 ^ (32 - b.len)), b.len⟩

/-- Storing a block does not change which addresses it has. -/
theorem Block.all_normalize (b : Block) (n : UInt32) :
    (b.normalize.all fun c => c.contains n) = b.contains n := by
  rw [normalize]
  split_ifs with h
  · rw [Option.all_none, contains_of_len_zero h]
  · have hlt : b.addr.toNat / 2 ^ (32 - b.len) * 2 ^ (32 - b.len) < UInt32.size :=
      lt_of_le_of_lt (Nat.div_mul_le_self _ _) b.addr.toNat_lt
    rw [Option.all_some, contains, contains, UInt32.toNat_ofNat_of_lt' hlt,
      Nat.mul_div_cancel _ (Nat.two_pow_pos _)]

end OCF.Net
