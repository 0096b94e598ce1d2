import OCF.Network.Ipam
import Mathlib.Data.Nat.Bitwise
import Mathlib.Tactic.IntervalCases

/-!
# Allocation over whole runs

What an allocator hands out over any sequence of `allocate`, `reserve` and `release`, against a
description of the addresses it may hand out (`Assignable`) that knows nothing of the code's
32-bit arithmetic: an address of the block other than the network, gateway and broadcast address.

* `toNat_and_networkMask`: masking rounds an address down to a multiple of the block size, so a
  block ends at `2 ^ 32` at the latest.
* `Lease` pairs an allocator with the addresses that were handed out or reserved and not given
  back since; `Lease.Tracks` is the invariant that the allocator has exactly these in use, and the
  gateway.
* `Arith` lists the checked operations (subtraction and shift) that each operation performs.
* `safe_iff` says for which subnets every run is safe: the arithmetic never overflows and every
  allocation returns the lowest assignable address that is not in use, or fails when there is
  none.
-/

namespace OCF.Network

/-! ## Blocks -/

/-- The number of addresses of a block. -/
def blockSize (prefixLen : UInt8) : ℕ := 2 ^ (32 - prefixLen.toNat)

theorem blockSize_pos (prefixLen : UInt8) : 0 < blockSize prefixLen := Nat.two_pow_pos _

theorem toNat_hostBits {p : UInt8} (hp : p.toNat ≤ 32) :
    (32 - p).toUInt32.toNat = 32 - p.toNat := by
  rw [UInt8.toNat_toUInt32, UInt8.toNat_sub_of_le _ _ (UInt8.le_iff_toNat_le.2 hp)]
  rfl

/-- The size of a block as the code computes it, for all but the whole address space. -/
theorem toNat_one_shiftLeft {p : UInt8} (h0 : p ≠ 0) (hp : p.toNat ≤ 32) :
    ((1 : UInt32) <<< (32 - p).toUInt32).toNat = blockSize p := by
  have h0' : p.toNat ≠ 0 := fun e => h0 (UInt8.toNat_inj.1 e)
  rw [UInt32.toNat_shiftLeft, toNat_hostBits hp, Nat.mod_eq_of_lt (by omega : 32 - p.toNat < 32),
    Nat.shiftLeft_eq, UInt32.toNat_one, one_mul, blockSize, Nat.mod_eq_of_lt]
  exact Nat.pow_lt_pow_right (by decide) (by omega)

/-- Clearing the low bits of a number. -/
theorem and_high_bits {x k : ℕ} (hx : x < 2 ^ 32) :
    x &&& ((2 ^ 32 - 1) <<< k) % 2 ^ 32 = x / 2 ^ k * 2 ^ k := by
  rw [← Nat.shiftRight_eq_div_pow, ← Nat.shiftLeft_eq]
  apply Nat.eq_of_testBit_eq
  intro i
  rw [Nat.testBit_and, Nat.testBit_mod_two_pow, Nat.testBit_shiftLeft, Nat.testBit_shiftLeft,
    Nat.testBit_shiftRight, Nat.testBit_two_pow_sub_one]
  by_cases hi : i < 32
  · by_cases hk : k ≤ i
    · have e : k + (i - k) = i := by omega
      have hlt : i - k < 32 := by omega
      simp [hi, hk, e, hlt]
    · simp [hk]
  · have hfalse : ∀ j, 32 ≤ j → x.testBit j = false := fun j hj =>
      Nat.testBit_lt_two_pow (lt_of_lt_of_le hx (Nat.pow_le_pow_right (by decide) hj))
    by_cases hk : k ≤ i
    · have e : k + (i - k) = i := by omega
      simp [hi, hk, e, hfalse i (by omega)]
    · simp [hk]

/-- **Masking an address** rounds it down to a multiple of the block size. -/
theorem toNat_and_networkMask (n : UInt32) {p : UInt8} (hp : p.toNat ≤ 32) :
    (n &&& networkMask p).toNat = n.toNat / blockSize p * blockSize p := by
  rw [UInt32.toNat_and, networkMask, blockSize]
  split_ifs with h0
  · subst h0
    have hlt : n.toNat < 2 ^ (32 - (0 : UInt8).toNat) := n.toNat_lt
    rw [UInt32.toNat_zero, Nat.and_zero, Nat.div_eq_of_lt hlt, zero_mul]
  · have h0' : p.toNat ≠ 0 := fun e => h0 (UInt8.toNat_inj.1 e)
    rw [UInt32.toNat_shiftLeft, toNat_hostBits hp, Nat.mod_eq_of_lt (by omega : 32 - p.toNat < 32)]
    exact and_high_bits n.toNat_lt

/-- A base rounded down to its block leaves room for the whole block. -/
theorem base_add_blockSize_le (n : UInt32) {p : UInt8} (hp : p.toNat ≤ 32) :
    (n &&& networkMask p).toNat + blockSize p ≤ 2 ^ 32 := by
  rw [toNat_and_networkMask n hp]
  obtain ⟨k, hk⟩ : blockSize p ∣ 2 ^ 32 := Nat.pow_dvd_pow 2 (Nat.sub_le _ _)
  have hlt : n.toNat / blockSize p < k := Nat.div_lt_of_lt_mul (hk ▸ n.toNat_lt)
  calc n.toNat / blockSize p * blockSize p + blockSize p
      = blockSize p * (n.toNat / blockSize p + 1) := by
        rw [Nat.mul_add, Nat.mul_one, Nat.mul_comm]
    _ ≤ blockSize p * k := Nat.mul_le_mul_left _ hlt
    _ = 2 ^ 32 := hk.symm

/-- What a parsed CIDR consists of. -/
theorem parseCidr_eq_some {cidr : String} {base : UInt32} {p : UInt8}
    (h : parseCidr cidr = some (base, p)) :
    ∃ addr len n, Text.splitOnce '/' cidr.toList = some (addr, len) ∧
      parseIpv4 (String.ofList addr) = some n ∧ Text.parseUnsigned 256 len = some p.toNat ∧
      p.toNat ≤ 32 ∧ base = n &&& networkMask p := by
  simp only [parseCidr, Option.bind_eq_bind, Option.bind_eq_some_iff] at h
  obtain ⟨⟨addr, len⟩, hsplit, n, hn, l, hl, h⟩ := h
  split_ifs at h with hle
  obtain ⟨rfl, rfl⟩ := Prod.mk.inj (Option.some.inj h)
  have hl' : (UInt8.ofNat l).toNat = l := UInt8.toNat_ofNat_of_lt' (by
    simp only [UInt8.size]
    omega)
  exact ⟨addr, len, n, hsplit, hn, by rw [hl, hl'], by omega, rfl⟩

/-- An address of the block. -/
def InBlock (base : UInt32) (p : UInt8) (n : UInt32) : Prop :=
  base.toNat ≤ n.toNat ∧ n.toNat < base.toNat + blockSize p

/-- An address a workload may get: one of the block that is neither the network address nor the
gateway nor the broadcast address. -/
def Assignable (base : UInt32) (p : UInt8) (n : UInt32) : Prop :=
  InBlock base p n ∧ n.toNat ≠ base.toNat ∧ n.toNat ≠ base.toNat + 1 ∧
    n.toNat + 1 ≠ base.toNat + blockSize p

theorem two_le_blockSize {p : UInt8} (hp : p.toNat ≤ 31) : 2 ≤ blockSize p :=
  calc 2 = 2 ^ 1 := rfl
    _ ≤ blockSize p := Nat.pow_le_pow_right (by decide) (by omega)

theorem four_le_blockSize {p : UInt8} (hp : p.toNat ≤ 30) : 4 ≤ blockSize p :=
  calc 4 = 2 ^ 2 := rfl
    _ ≤ blockSize p := Nat.pow_le_pow_right (by decide) (by omega)

theorem blockSize_le_two {p : UInt8} (hp : 31 ≤ p.toNat) : blockSize p ≤ 2 :=
  calc blockSize p ≤ 2 ^ 1 := Nat.pow_le_pow_right (by decide) (by omega)
    _ = 2 := rfl

theorem not_assignable_of_le {base n : UInt32} {p : UInt8} (hp : 31 ≤ p.toNat) :
    ¬Assignable base p n := by
  rintro ⟨⟨hlo, hhi⟩, h0, h1, -⟩
  have := blockSize_le_two hp
  omega

/-- The gateway is the second address of the block. -/
theorem checkedHost_one_eq_some {base gw : UInt32} {p : UInt8} (h0 : p ≠ 0)
    (hfit : base.toNat + blockSize p ≤ 2 ^ 32) :
    checkedHost base p 1 = some gw ↔ p.toNat < 32 ∧ gw.toNat = base.toNat + 1 := by
  rw [checkedHost]
  by_cases hp : 32 ≤ p
  · have hp' : 32 ≤ p.toNat := UInt8.le_iff_toNat_le.1 hp
    rw [if_pos hp]
    constructor
    · intro h
      simp at h
    · intro h
      omega
  · have hp' : p.toNat < 32 := UInt8.lt_iff_toNat_lt.1 (UInt8.not_le.1 hp)
    have hsize := two_le_blockSize (p := p) (by omega)
    have hlt : (1 : UInt32) < 1 <<< (32 - p).toUInt32 := by
      rw [UInt32.lt_iff_toNat_lt, toNat_one_shiftLeft h0 (by omega), UInt32.toNat_one]
      omega
    have hgw : (base + 1).toNat = base.toNat + 1 := by
      rw [UInt32.toNat_add, UInt32.toNat_one, Nat.mod_eq_of_lt (by omega)]
    rw [if_neg hp]
    dsimp only
    rw [if_pos hlt, Option.some.injEq, ← UInt32.toNat_inj, hgw]
    constructor
    · exact fun h => ⟨hp', h.symm⟩
    · exact fun h => h.2.symm

/-! ## Checked arithmetic -/

/-- A checked operation on machine integers: a subtraction of 8-bit lengths, or a shift of a
32-bit word. The sums and differences of addresses are the source's wrapping operations, which
never overflow, and the shifts of `parse_ipv4` are by the constant 8. -/
inductive Arith
  | sub (x y : ℕ)
  | shl (amount : ℕ)
  deriving DecidableEq

/-- A subtraction below zero, or a shift by the width of the word or more. -/
def Arith.Overflows : Arith → Prop
  | .sub x y => x < y
  | .shl amount => 32 ≤ amount

/-- `1u32 << (32 - prefix)` and `u32::MAX << (32 - prefix)`. -/
def hostBitsArith (p : UInt8) : List Arith := [.sub 32 p.toNat, .shl (32 - p.toNat)]

/-- The arithmetic of a network mask. -/
def maskArith (p : UInt8) : List Arith := if p = 0 then [] else hostBitsArith p

/-- The arithmetic of `checked_host`, which skips it for a host route. -/
def checkedHostArith (p : UInt8) : List Arith := if 32 ≤ p then [] else hostBitsArith p

/-- The arithmetic of `last_host`, which skips it where there is no usable range. -/
def lastHostArith (p : UInt8) : List Arith := if 31 ≤ p then [] else hostBitsArith p

/-- The mask of `parse_cidr`, and the gateway. -/
def newArith (p : UInt8) : List Arith := maskArith p ++ checkedHostArith p

theorem not_overflows_hostBits {p : UInt8} (h0 : p ≠ 0) (hp : p.toNat ≤ 32) :
    ∀ x ∈ hostBitsArith p, ¬x.Overflows := by
  have h0' : p.toNat ≠ 0 := fun e => h0 (UInt8.toNat_inj.1 e)
  intro x hx
  rcases List.mem_cons.1 hx with rfl | hx
  · exact Nat.not_lt.2 hp
  · obtain rfl := List.mem_singleton.1 hx
    simp only [Arith.Overflows]
    omega

theorem not_overflows_ite {p : UInt8} (h0 : p ≠ 0) (hp : p.toNat ≤ 32) {c : Prop} [Decidable c] :
    ∀ x ∈ (if c then [] else hostBitsArith p), ¬x.Overflows := by
  split_ifs
  · simp
  · exact not_overflows_hostBits h0 hp

/-! ## Runs of an allocator -/

/-- An operation on an allocator. -/
inductive AllocatorOp
  | allocate
  | reserve (addr : String)
  | release (addr : String)

/-- An allocator together with the addresses that were handed out or reserved and not given back
since. -/
structure Lease where
  alloc : SubnetAllocator
  live : Finset UInt32

namespace Lease

/-- Count the address of a text as in use. -/
def mark (addr : String) (live : Finset UInt32) : Finset UInt32 :=
  match parseIpv4 addr with
  | some n => insert n live
  | none => live

/-- Count the address of a text as free. -/
def unmark (addr : String) (live : Finset UInt32) : Finset UInt32 :=
  match parseIpv4 addr with
  | some n => live.erase n
  | none => live

/-- An operation, which changes nothing when it fails. -/
def step (l : Lease) : AllocatorOp → Lease
  | .allocate =>
    match l.alloc.allocate with
    | .ok (addr, alloc) => ⟨alloc, mark addr l.live⟩
    | .error _ => l
  | .reserve addr =>
    match l.alloc.reserve addr with
    | .ok alloc => ⟨alloc, mark addr l.live⟩
    | .error _ => l
  | .release addr => ⟨l.alloc.release addr, unmark addr l.live⟩

/-- A sequence of operations. -/
def exec (l : Lease) (ops : List AllocatorOp) : Lease := ops.foldl step l

/-- The checked arithmetic of an operation. -/
def arith (l : Lease) : AllocatorOp → List Arith
  | .allocate => lastHostArith l.alloc.prefixLen
  | .reserve addr =>
    match parseIpv4 addr with
    | some _ => maskArith l.alloc.prefixLen
    | none => []
  | .release addr =>
    match parseIpv4 addr with
    | some _ => checkedHostArith l.alloc.prefixLen
    | none => []

/-- An address that can be handed out now. -/
def Free (l : Lease) (n : UInt32) : Prop :=
  Assignable l.alloc.base l.alloc.prefixLen n ∧ n ∉ l.live

/-- `allocate` returns the lowest free address, fails exactly when there is none, and always
fails on a block of one or two addresses. -/
def AllocatesLowest (l : Lease) : Prop :=
  (∀ addr alloc, l.alloc.allocate = .ok (addr, alloc) →
    ∃ n, addr = formatIpv4 n ∧ l.Free n ∧ ∀ m, l.Free m → n ≤ m) ∧
  ((∃ e, l.alloc.allocate = .error e) ↔ ¬∃ n, l.Free n) ∧
  (31 ≤ l.alloc.prefixLen → ∃ e, l.alloc.allocate = .error e)

/-- **Safety of an allocator** that was just built: no operation overflows and every allocation is
right, over every sequence of operations. -/
def Safe (a : SubnetAllocator) : Prop :=
  (∀ x ∈ newArith a.prefixLen, ¬x.Overflows) ∧
  ∀ ops, (∀ op, ∀ x ∈ ((⟨a, ∅⟩ : Lease).exec ops).arith op, ¬x.Overflows) ∧
    ((⟨a, ∅⟩ : Lease).exec ops).AllocatesLowest

/-- The allocator of a block has the live addresses in use, and its gateway. -/
structure Tracks (base : UInt32) (p : UInt8) (l : Lease) : Prop where
  base_eq : l.alloc.base = base
  prefix_eq : l.alloc.prefixLen = p
  mem_used : ∀ n, n ∈ l.alloc.used ↔ n ∈ l.live ∨ checkedHost base p 1 = some n

variable {base : UInt32} {p : UInt8} {l : Lease}

theorem Tracks.insert (h : Tracks base p l) (n : UInt32) :
    Tracks base p ⟨{ l.alloc with used := insert n l.alloc.used }, insert n l.live⟩ where
  base_eq := h.base_eq
  prefix_eq := h.prefix_eq
  mem_used m := by
    simp only [Finset.mem_insert, h.mem_used]
    tauto

/-- A release frees the address, unless it is the gateway. -/
theorem Tracks.release (h : Tracks base p l) (addr : String) : Tracks base p (l.step (.release addr)) := by
  rw [step, SubnetAllocator.release, unmark]
  cases parseIpv4 addr with
  | none => exact h
  | some n =>
    dsimp only
    rw [h.base_eq, h.prefix_eq]
    by_cases hgw : checkedHost base p 1 ≠ some n
    · rw [if_pos hgw]
      refine ⟨rfl, rfl, fun m => ?_⟩
      have hm : checkedHost base p 1 = some m → m ≠ n := by
        rintro hm rfl
        exact hgw hm
      simp only [Finset.mem_erase, h.mem_used]
      tauto
    · rw [if_neg hgw]
      refine ⟨h.base_eq, h.prefix_eq, fun m => ?_⟩
      have hm : m = n → checkedHost base p 1 = some m := by
        rintro rfl
        exact not_not.1 hgw
      simp only [Finset.mem_erase, h.mem_used]
      tauto

theorem Tracks.step (h : Tracks base p l) (op : AllocatorOp) : Tracks base p (l.step op) := by
  cases op with
  | allocate =>
    rw [Lease.step]
    cases ha : l.alloc.allocate with
    | error e => exact h
    | ok r =>
      obtain ⟨addr, alloc⟩ := r
      obtain ⟨n, haddr, halloc, -⟩ := SubnetAllocator.allocate_ok ha
      dsimp only
      rw [mark, haddr, parseIpv4_formatIpv4, halloc]
      exact h.insert n
  | reserve addr =>
    rw [Lease.step, SubnetAllocator.reserve, mark]
    cases parseIpv4 addr with
    | none => exact h
    | some n =>
      dsimp only
      by_cases hc : l.alloc.contains n = true
      · rw [if_pos hc]
        exact h.insert n
      · rw [if_neg hc]
        exact h
  | release addr => exact h.release addr

/-- The invariant over a whole run. -/
theorem Tracks.exec (h : Tracks base p l) (ops : List AllocatorOp) : Tracks base p (l.exec ops) := by
  induction ops generalizing l with
  | nil => exact h
  | cons op ops ih => exact ih (h.step op)

/-- What the code needs of a subnet: it is not the whole address space, and the address after the
gateway of a block of one or two addresses does not wrap around. -/
def Regular (base : UInt32) (p : UInt8) : Prop :=
  p ≠ 0 ∧ (31 ≤ p → base.toNat + 2 < 2 ^ 32)

/-- On a regular subnet the host range of the code is the set of assignable addresses. -/
theorem hostRange_iff {a : SubnetAllocator} (hr : Regular a.base a.prefixLen)
    (hp : a.prefixLen.toNat ≤ 32) (hfit : a.base.toNat + blockSize a.prefixLen ≤ 2 ^ 32)
    (n : UInt32) :
    a.firstHost ≤ n ∧ n ≤ a.lastHost ↔ Assignable a.base a.prefixLen n := by
  rw [UInt32.le_iff_toNat_le, UInt32.le_iff_toNat_le, SubnetAllocator.firstHost,
    SubnetAllocator.lastHost]
  by_cases h31 : 31 ≤ a.prefixLen
  · have hwrap := hr.2 h31
    have hlo : (a.base + 2).toNat = a.base.toNat + 2 := by
      rw [UInt32.toNat_add, show (2 : UInt32).toNat = 2 from rfl, Nat.mod_eq_of_lt (by omega)]
    rw [if_pos h31, hlo]
    constructor
    · intro h
      omega
    · exact fun h => absurd h (not_assignable_of_le (UInt8.le_iff_toNat_le.1 h31))
  · have h31' : a.prefixLen.toNat < 31 := UInt8.lt_iff_toNat_lt.1 (UInt8.not_le.1 h31)
    have hsize := four_le_blockSize (p := a.prefixLen) (by omega)
    have hlo : (a.base + 2).toNat = a.base.toNat + 2 := by
      rw [UInt32.toNat_add, show (2 : UInt32).toNat = 2 from rfl, Nat.mod_eq_of_lt (by omega)]
    -- the sum may be exactly `2 ^ 32`, which wraps to 0 and back
    have hhi : (a.base + (1 <<< (32 - a.prefixLen).toUInt32) - 2).toNat =
        a.base.toNat + blockSize a.prefixLen - 2 := by
      rw [UInt32.toNat_sub, UInt32.toNat_add, toNat_one_shiftLeft hr.1 hp,
        show (2 : UInt32).toNat = 2 from rfl]
      omega
    rw [if_neg h31, hlo, hhi, Assignable, InBlock]
    omega

/-- **Every allocation on a regular subnet is right**, whatever is in use. -/
theorem Tracks.allocatesLowest (h : Tracks base p l) (hr : Regular base p) (hp : p.toNat ≤ 32)
    (hfit : base.toNat + blockSize p ≤ 2 ^ 32) : l.AllocatesLowest := by
  obtain ⟨rfl, rfl, hused⟩ := h
  have hrange := hostRange_iff hr hp hfit
  -- an assignable address is not the gateway, so it is in use exactly when it is live
  have hfree : ∀ n, Assignable l.alloc.base l.alloc.prefixLen n →
      (n ∉ l.alloc.used ↔ n ∉ l.live) := by
    intro n hn
    have hgw : ¬checkedHost l.alloc.base l.alloc.prefixLen 1 = some n := fun e =>
      hn.2.2.1 ((checkedHost_one_eq_some hr.1 hfit).1 e).2
    rw [hused]
    tauto
  have herror : (∃ e, l.alloc.allocate = .error e) ↔ ¬∃ n, l.Free n := by
    rw [SubnetAllocator.allocate_error, SubnetAllocator.HasFreeHost, not_iff_not]
    refine exists_congr fun n => ?_
    rw [← and_assoc, hrange, Free]
    exact and_congr_right (hfree n)
  refine ⟨fun addr alloc hok => ?_, herror, fun h31 => ?_⟩
  · obtain ⟨n, rfl, -, hn, hlo, hhi, hmin⟩ := SubnetAllocator.allocate_ok hok
    have hassign := (hrange n).1 ⟨hlo, hhi⟩
    refine ⟨n, rfl, ⟨hassign, (hfree n hassign).1 hn⟩, fun m hm => UInt32.not_lt.1 fun hlt => ?_⟩
    exact (hfree m hm.1).2 hm.2 (hmin m ((hrange m).2 hm.1).1 hlt)
  · exact herror.2 fun ⟨n, hn⟩ => not_assignable_of_le (UInt8.le_iff_toNat_le.1 h31) hn.1

/-- On a subnet at the very end of the address space the first host wraps around to an address
that a new allocator has free. -/
theorem hasFreeHost_of_wrap {a : SubnetAllocator} (h31 : 31 ≤ a.prefixLen)
    (hwrap : 2 ^ 32 ≤ a.base.toNat + 2) (hused : ∀ n ∈ a.used, n = a.base + 1) : a.HasFreeHost := by
  have hlt := a.base.toNat_lt
  have hlo : (a.base + 2).toNat = a.base.toNat + 2 - 2 ^ 32 := by
    rw [UInt32.toNat_add, show (2 : UInt32).toNat = 2 from rfl]
    omega
  have hlast : a.lastHost = a.base := by
    rw [SubnetAllocator.lastHost, if_pos h31]
  refine ⟨a.firstHost, UInt32.le_refl _, ?_, fun hmem => ?_⟩
  · rw [hlast, UInt32.le_iff_toNat_le, SubnetAllocator.firstHost, hlo]
    omega
  · have e := congrArg UInt32.toNat (hused _ hmem)
    rw [SubnetAllocator.firstHost, hlo, UInt32.toNat_add, UInt32.toNat_one] at e
    omega

end Lease

/-- What a new allocator looks like: a block within the address space, and its gateway in use. -/
theorem SubnetAllocator.new_eq_ok {cidr : String} {a : SubnetAllocator}
    (h : SubnetAllocator.new cidr = .ok a) :
    parseCidr cidr = some (a.base, a.prefixLen) ∧ a.prefixLen.toNat ≤ 32 ∧
      a.base.toNat + blockSize a.prefixLen ≤ 2 ^ 32 ∧
      ∀ n, n ∈ a.used ↔ checkedHost a.base a.prefixLen 1 = some n := by
  rw [SubnetAllocator.new] at h
  cases hc : parseCidr cidr with
  | none =>
    rw [hc] at h
    simp at h
  | some r =>
    obtain ⟨base, p⟩ := r
    rw [hc] at h
    obtain rfl := Except.ok.inj h
    obtain ⟨-, -, n, -, -, -, hp, rfl⟩ := parseCidr_eq_some hc
    refine ⟨rfl, hp, base_add_blockSize_le n hp, fun m => ?_⟩
    dsimp only
    cases checkedHost (n &&& networkMask p) p 1 with
    | none => simp
    | some gw => simp [eq_comm]

/-- **Safety of address management.** Over every sequence of operations on an allocator the
arithmetic never overflows, every allocation returns the lowest assignable address that is not in
use, and it fails exactly when there is none, if and only if the subnet is not the whole address
space and, when it has one or two addresses, does not end at the last address. -/
theorem Lease.safe_iff {cidr : String} {a : SubnetAllocator}
    (h : SubnetAllocator.new cidr = .ok a) :
    Lease.Safe a ↔ a.prefixLen ≠ 0 ∧ (31 ≤ a.prefixLen → a.base.toNat + 2 < 2 ^ 32) := by
  obtain ⟨-, hp, hfit, hused⟩ := SubnetAllocator.new_eq_ok h
  constructor
  · rintro ⟨hnew, hops⟩
    have h0 : a.prefixLen ≠ 0 := by
      intro h0
      rw [h0] at hnew
      exact hnew (.shl 32) (by decide) (le_refl 32)
    refine ⟨h0, fun h31 => Nat.lt_of_not_le fun hwrap => ?_⟩
    obtain ⟨-, -, -, hfail⟩ := hops []
    refine SubnetAllocator.allocate_error.1 (hfail h31) (hasFreeHost_of_wrap h31 hwrap ?_)
    intro n hn
    have hgw := (hused n).1 hn
    rw [checkedHost] at hgw
    split_ifs at hgw
    dsimp only at hgw
    split_ifs at hgw
    exact (Option.some.inj hgw).symm
  · intro hr
    have htracks : Lease.Tracks a.base a.prefixLen ⟨a, ∅⟩ := ⟨rfl, rfl, fun n => by simp [hused n]⟩
    refine ⟨fun x hx => ?_, fun ops => ⟨fun op x hx => ?_, ?_⟩⟩
    · rcases List.mem_append.1 hx with hx | hx <;> exact not_overflows_ite hr.1 hp x hx
    · have hpre := (htracks.exec ops).prefix_eq
      cases op with
      | allocate =>
        rw [Lease.arith, hpre] at hx
        exact not_overflows_ite hr.1 hp x hx
      | reserve addr =>
        rw [Lease.arith, hpre] at hx
        split at hx
        · exact not_overflows_ite hr.1 hp x hx
        · simp at hx
      | release addr =>
        rw [Lease.arith, hpre] at hx
        split at hx
        · exact not_overflows_ite hr.1 hp x hx
        · simp at hx
    · exact (htracks.exec ops).allocatesLowest hr hp hfit

theorem Lease.safe_slash24 :
    SubnetAllocator.new "10.0.1.0/24" = .ok ⟨0x0a000100, 24, {0x0a000101}⟩ ∧
      Lease.Safe ⟨0x0a000100, 24, {0x0a000101}⟩ := by
  have h : SubnetAllocator.new "10.0.1.0/24" = .ok ⟨0x0a000100, 24, {0x0a000101}⟩ := by decide
  exact ⟨h, (Lease.safe_iff h).2 ⟨by decide, by decide⟩⟩

/-- The gateway of the whole address space needs a shift by 32, and the last pair of addresses
hands out `0.0.0.0`. -/
theorem Lease.not_safe_at_ends :
    (SubnetAllocator.new "0.0.0.0/0" = .ok ⟨0, 0, ∅⟩ ∧ ¬Lease.Safe ⟨0, 0, ∅⟩) ∧
    SubnetAllocator.new "255.255.255.254/31" = .ok ⟨0xfffffffe, 31, {0xffffffff}⟩ ∧
      (SubnetAllocator.allocate ⟨0xfffffffe, 31, {0xffffffff}⟩).map Prod.fst = .ok "0.0.0.0" ∧
      ¬Lease.Safe ⟨0xfffffffe, 31, {0xffffffff}⟩ := by
  have halloc : (SubnetAllocator.allocate ⟨0xfffffffe, 31, {0xffffffff}⟩).map Prod.fst =
      .ok "0.0.0.0" := by decide
  refine ⟨⟨by decide, fun h => ?_⟩, by decide, halloc, fun h => ?_⟩
  · exact h.1 (.shl 32) (by decide) (le_refl 32)
  · obtain ⟨e, he⟩ := (h.2 []).2.2.2 (by decide)
    rw [Lease.exec, List.foldl_nil] at he
    rw [he] at halloc
    simp [Except.map] at halloc

end OCF.Network
