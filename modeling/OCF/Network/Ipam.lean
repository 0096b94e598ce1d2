import OCF.Core.Resource
import OCF.Foundations.Text
import Mathlib.Algebra.Group.Nat.Defs
import Mathlib.Data.Finset.Basic
import Mathlib.Tactic.Common

/-!
# IP address management

Each subnet owns a `SubnetAllocator` that hands out free host addresses from the subnet's CIDR,
lowest first, skipping the network address, the gateway and the broadcast address. Addresses are
`UInt32`s. The shift operators of `UInt32` reduce the shift amount modulo 32, which is what the
source's `<<` computes in a build without overflow checks; a checked build panics instead, and
only for a prefix length of 0.

The specification of the allocator is `allocate_ok` (a free address, the lowest one in the host
range, is marked as used) and `allocate_error` (nothing in the host range is free). Addresses are
handed out as text and read back when they are released: `parseIpv4_formatIpv4` is the round trip.
-/

namespace OCF.Network

open Text

/-! ## Addresses as text -/

/-- Parse a dotted quad: exactly four octets. -/
def parseIpv4 (s : String) : Option UInt32 :=
  let octets := (trim s.toList).splitOn '.'
  if octets.length ≠ 4 then none
  else octets.foldlM (fun acc octet =>
    (parseUnsigned 256 octet).map fun v => (acc <<< 8) ||| UInt32.ofNat v) 0

/-- One octet of an address in decimal. -/
def octetDigits (n : UInt32) : List Char := Nat.toDigits 10 n.toNat

/-- Render an address as a dotted quad. -/
def formatIpv4 (n : UInt32) : String :=
  String.ofList (octetDigits ((n >>> 24) &&& 0xff) ++ '.' :: (octetDigits ((n >>> 16) &&& 0xff) ++
    '.' :: (octetDigits ((n >>> 8) &&& 0xff) ++ '.' :: octetDigits (n &&& 0xff))))

/-- The mask that keeps the network bits. -/
def networkMask (prefixLen : UInt8) : UInt32 :=
  if prefixLen = 0 then 0 else 0xffffffff <<< (32 - prefixLen).toUInt32

/-- Parse `a.b.c.d/p` into the network base and the prefix length. -/
def parseCidr (cidr : String) : Option (UInt32 × UInt8) := do
  let (addr, len) ← splitOnce '/' cidr.toList
  let addr ← parseIpv4 (String.ofList addr)
  let len ← parseUnsigned 256 len
  if 32 < len then none
  else some (addr &&& networkMask (UInt8.ofNat len), UInt8.ofNat len)

theorem octet_and (n : UInt32) : (n &&& 0xff).toNat = n.toNat % 256 := by
  rw [UInt32.toNat_and, show (0xff : UInt32).toNat = 2 ^ 8 - 1 from rfl,
    Nat.and_two_pow_sub_one_eq_mod]

theorem octet_shift (n : UInt32) (k : UInt32) (hk : k.toNat < 32) :
    ((n >>> k) &&& 0xff).toNat = n.toNat / 2 ^ k.toNat % 256 := by
  rw [octet_and, UInt32.toNat_shiftRight, Nat.mod_eq_of_lt hk, Nat.shiftRight_eq_div_pow]

/-- Appending an octet to the bytes read so far. -/
theorem toNat_push_octet (acc : UInt32) {v : ℕ} (hv : v < 256) (hacc : acc.toNat < 2 ^ 24) :
    ((acc <<< 8) ||| UInt32.ofNat v).toNat = acc.toNat * 256 + v := by
  have hv' : (UInt32.ofNat v).toNat = v := UInt32.toNat_ofNat_of_lt' (by
    simp only [UInt32.size]
    omega)
  have hsh : (acc <<< 8).toNat = acc.toNat <<< 8 := by
    rw [UInt32.toNat_shiftLeft, show (8 : UInt32).toNat % 32 = 8 from rfl, Nat.mod_eq_of_lt]
    rw [Nat.shiftLeft_eq]
    omega
  rw [UInt32.toNat_or, hsh, hv', ← Nat.shiftLeft_add_eq_or_of_lt (by omega), Nat.shiftLeft_eq]

/-- Four octets in text, with dots between them. -/
def quad (o₀ o₁ o₂ o₃ : List Char) : List Char := o₀ ++ '.' :: (o₁ ++ '.' :: (o₂ ++ '.' :: o₃))

theorem dot_notMem_of_parseUnsigned {bound v : ℕ} {s : List Char}
    (h : parseUnsigned bound s = some v) : '.' ∉ s := by
  intro hdot
  rcases (parseUnsigned_eq_some h).2.2 _ hdot with h | h <;> simp at h

theorem not_isWhiteSpace_of_parseUnsigned {bound v : ℕ} {s : List Char} {c : Char}
    (h : parseUnsigned bound s = some v) (hc : c ∈ s) : isWhiteSpace c = false := by
  rcases (parseUnsigned_eq_some h).2.2 _ hc with rfl | h
  · decide
  · exact not_isWhiteSpace_of_isDigit h

section

variable {o₀ o₁ o₂ o₃ : List Char} {v₀ v₁ v₂ v₃ : ℕ} (h₀ : parseUnsigned 256 o₀ = some v₀)
  (h₁ : parseUnsigned 256 o₁ = some v₁) (h₂ : parseUnsigned 256 o₂ = some v₂)
  (h₃ : parseUnsigned 256 o₃ = some v₃)

include h₀ h₁ h₂ h₃

theorem splitOn_quad : (quad o₀ o₁ o₂ o₃).splitOn '.' = [o₀, o₁, o₂, o₃] := by
  rw [quad, List.splitOn_append_cons_self_of_not_mem (dot_notMem_of_parseUnsigned h₀),
    List.splitOn_append_cons_self_of_not_mem (dot_notMem_of_parseUnsigned h₁),
    List.splitOn_append_cons_self_of_not_mem (dot_notMem_of_parseUnsigned h₂),
    List.splitOn_eq_singleton (dot_notMem_of_parseUnsigned h₃)]

omit h₁ h₂ in
theorem trim_quad : trim (quad o₀ o₁ o₂ o₃) = quad o₀ o₁ o₂ o₃ := by
  have hne₀ := (parseUnsigned_eq_some h₀).2.1
  have hne₃ := (parseUnsigned_eq_some h₃).2.1
  apply trim_eq_self
  · intro x hx
    rw [quad, List.head?_append_of_ne_nil _ hne₀] at hx
    exact not_isWhiteSpace_of_parseUnsigned h₀ (List.mem_of_mem_head? hx)
  · intro x hx
    obtain ⟨l, y, hy⟩ := List.eq_nil_or_concat o₃ |>.resolve_left hne₃
    have e : x = y := by simpa [quad, hy, List.getLast?_append, List.getLast?_cons, eq_comm] using hx
    exact not_isWhiteSpace_of_parseUnsigned h₃ (by simp [hy, e])

/-- **Reading a dotted quad**, the most significant octet first. -/
theorem parseIpv4_quad : ∃ n, parseIpv4 (String.ofList (quad o₀ o₁ o₂ o₃)) = some n ∧
    n.toNat = ((v₀ * 256 + v₁) * 256 + v₂) * 256 + v₃ := by
  have b₀ := (parseUnsigned_eq_some h₀).1
  have b₁ := (parseUnsigned_eq_some h₁).1
  have b₂ := (parseUnsigned_eq_some h₂).1
  have b₃ := (parseUnsigned_eq_some h₃).1
  -- the bytes read before each octet
  have e₀ := toNat_push_octet 0 b₀ (by decide)
  have e₁ := toNat_push_octet _ b₁ (by rw [e₀, UInt32.toNat_zero]; omega)
  have e₂ := toNat_push_octet _ b₂ (by rw [e₁, e₀, UInt32.toNat_zero]; omega)
  have e₃ := toNat_push_octet _ b₃ (by rw [e₂, e₁, e₀, UInt32.toNat_zero]; omega)
  rw [parseIpv4, String.toList_ofList, trim_quad h₀ h₃, splitOn_quad h₀ h₁ h₂ h₃]
  simp only [List.length_cons, List.length_nil, ne_eq, not_true_eq_false, if_false,
    List.foldlM_cons, List.foldlM_nil, h₀, h₁, h₂, h₃, Option.map_some, Option.bind_eq_bind,
    Option.bind_some, Option.pure_def, Option.some.injEq, exists_eq_left']
  rw [e₃, e₂, e₁, e₀, UInt32.toNat_zero, Nat.zero_mul, Nat.zero_add]

end

/-- **Printed addresses are read back.** -/
theorem parseIpv4_formatIpv4 (n : UInt32) : parseIpv4 (formatIpv4 n) = some n := by
  have hlt : n.toNat < 2 ^ 32 := n.toNat_lt
  have h24 := octet_shift n 24 (by decide)
  have h16 := octet_shift n 16 (by decide)
  have h8 := octet_shift n 8 (by decide)
  have h0 := octet_and n
  simp only [show (24 : UInt32).toNat = 24 from rfl, show (16 : UInt32).toNat = 16 from rfl,
    show (8 : UInt32).toNat = 8 from rfl] at h24 h16 h8
  have hread : ∀ m : UInt32, m.toNat < 256 → parseUnsigned 256 (octetDigits m) = some m.toNat :=
    fun m hm => parseUnsigned_toDigits hm
  obtain ⟨m, hm, hval⟩ := parseIpv4_quad (hread ((n >>> 24) &&& 0xff) (by rw [h24]; omega))
    (hread ((n >>> 16) &&& 0xff) (by rw [h16]; omega))
    (hread ((n >>> 8) &&& 0xff) (by rw [h8]; omega)) (hread (n &&& 0xff) (by rw [h0]; omega))
  have e : m = n := by
    apply UInt32.toNat_inj.1
    rw [hval, h24, h16, h8, h0]
    omega
  rw [← e, ← hm, e]
  rfl

theorem formatIpv4_injective : Function.Injective formatIpv4 := fun m n h =>
  Option.some.inj (by rw [← parseIpv4_formatIpv4 m, h, parseIpv4_formatIpv4])

/-! ## The allocator -/

/-- A deterministic allocator for one subnet's host addresses. -/
structure SubnetAllocator where
  base : UInt32
  prefixLen : UInt8
  used : Finset UInt32
  deriving DecidableEq

/-- `base + offset` if it lands inside the subnet. -/
def checkedHost (base : UInt32) (prefixLen : UInt8) (offset : UInt32) : Option UInt32 :=
  if 32 ≤ prefixLen then none
  else
    let size : UInt32 := 1 <<< (32 - prefixLen).toUInt32
    if offset < size then some (base + offset) else none

namespace SubnetAllocator

/-- An allocator for a CIDR, with the gateway (`.1`) reserved up front. -/
def new (cidr : String) : Result SubnetAllocator :=
  match parseCidr cidr with
  | none => .error (.invalidArgument ("invalid subnet CIDR `" ++ cidr ++ "`"))
  | some (base, prefixLen) =>
    .ok ⟨base, prefixLen, match checkedHost base prefixLen 1 with
      | some gw => {gw}
      | none => ∅⟩

/-- The first assignable host: after the network address and the gateway. -/
def firstHost (a : SubnetAllocator) : UInt32 := a.base + 2

/-- The last assignable host: one below broadcast. -/
def lastHost (a : SubnetAllocator) : UInt32 :=
  if 31 ≤ a.prefixLen then a.base
  else a.base + (1 <<< (32 - a.prefixLen).toUInt32) - 2

/-- The loop of `allocate`: the first candidate from `c` on that is not in use, up to `hi`. The
fuel is the number of candidates left. -/
def scan (used : Finset UInt32) (hi : UInt32) : ℕ → UInt32 → Option UInt32
  | 0, _ => none
  | n + 1, c => if c ∉ used then some c else if c = hi then none else scan used hi n (c + 1)

/-- Allocate the lowest free host address. -/
def allocate (a : SubnetAllocator) : Result (String × SubnetAllocator) :=
  let lo := a.firstHost
  let hi := a.lastHost
  if hi < lo then
    .error (.conflict ("subnet /" ++ toString a.prefixLen.toNat ++ " has no assignable host addresses"))
  else
    match scan a.used hi (hi.toNat - lo.toNat + 1) lo with
    | none => .error (.conflict "subnet address pool exhausted")
    | some c => .ok (formatIpv4 c, { a with used := insert c a.used })

/-- Whether an address falls within the subnet's range. -/
def contains (a : SubnetAllocator) (n : UInt32) : Bool := n &&& networkMask a.prefixLen = a.base

/-- Mark an address as in use. -/
def reserve (a : SubnetAllocator) (addr : String) : Result SubnetAllocator :=
  match parseIpv4 addr with
  | none => .error (.invalidArgument ("invalid address `" ++ addr ++ "`"))
  | some n =>
    if a.contains n then .ok { a with used := insert n a.used }
    else .error (.invalidArgument ("address `" ++ addr ++ "` is outside this subnet"))

/-- Return an address to the free pool. The gateway is never released. -/
def release (a : SubnetAllocator) (addr : String) : SubnetAllocator :=
  match parseIpv4 addr with
  | none => a
  | some n =>
    if checkedHost a.base a.prefixLen 1 ≠ some n then { a with used := a.used.erase n } else a

/-- Some address of the host range is free. -/
def HasFreeHost (a : SubnetAllocator) : Prop :=
  ∃ n, a.firstHost ≤ n ∧ n ≤ a.lastHost ∧ n ∉ a.used

/-- A candidate below the last host has a successor that does not wrap around. -/
theorem toNat_succ_candidate {c hi : UInt32} (hc : c ≤ hi) (hne : c ≠ hi) :
    (c + 1).toNat = c.toNat + 1 ∧ c + 1 ≤ hi := by
  have hlt : c.toNat < hi.toNat :=
    lt_of_le_of_ne (UInt32.le_iff_toNat_le.1 hc) fun e => hne (UInt32.toNat_inj.1 e)
  have hsucc : (c + 1).toNat = c.toNat + 1 := by
    have := hi.toNat_lt
    rw [UInt32.toNat_add, UInt32.toNat_one]
    omega
  exact ⟨hsucc, UInt32.le_iff_toNat_le.2 (by omega)⟩

theorem succ_le_of_le_of_ne {c hi m : UInt32} (hc : c ≤ hi) (hne : c ≠ hi) (hm : c ≤ m)
    (e : m ≠ c) : c + 1 ≤ m := by
  have hsucc := (toNat_succ_candidate hc hne).1
  have hle := UInt32.le_iff_toNat_le.1 hm
  have hne : m.toNat ≠ c.toNat := fun e' => e (UInt32.toNat_inj.1 e')
  exact UInt32.le_iff_toNat_le.2 (by omega)

theorem scan_eq_some {used : Finset UInt32} {hi c n : UInt32} {fuel : ℕ}
    (h : scan used hi fuel c = some n) (hc : c ≤ hi) :
    c ≤ n ∧ n ≤ hi ∧ n ∉ used ∧ ∀ m, c ≤ m → m < n → m ∈ used := by
  induction fuel generalizing c with
  | zero => simp [scan] at h
  | succ k ih =>
    rw [scan] at h
    by_cases hfree : c ∈ used
    · rw [if_neg (not_not.2 hfree)] at h
      split_ifs at h with hlast
      obtain ⟨hsucc, hle⟩ := toNat_succ_candidate hc hlast
      obtain ⟨h₁, h₂, h₃, h₄⟩ := ih h hle
      refine ⟨UInt32.le_iff_toNat_le.2 ?_, h₂, h₃, fun m hm hmn => ?_⟩
      · have := UInt32.le_iff_toNat_le.1 h₁
        omega
      · by_cases e : m = c
        · exact e ▸ hfree
        · exact h₄ m (succ_le_of_le_of_ne hc hlast hm e) hmn
    · rw [if_pos hfree] at h
      obtain rfl := Option.some.inj h
      exact ⟨UInt32.le_refl _, hc, hfree, fun m h₁ h₂ => absurd h₁ (UInt32.not_le.2 h₂)⟩

theorem scan_eq_none {used : Finset UInt32} {hi c : UInt32} {fuel : ℕ}
    (h : scan used hi fuel c = none) (hc : c ≤ hi) (hf : fuel = hi.toNat - c.toNat + 1) :
    ∀ m, c ≤ m → m ≤ hi → m ∈ used := by
  induction fuel generalizing c with
  | zero => omega
  | succ k ih =>
    rw [scan] at h
    by_cases hfree : c ∈ used
    · rw [if_neg (not_not.2 hfree)] at h
      intro m h₁ h₂
      by_cases e : m = c
      · exact e ▸ hfree
      · have hlast : c ≠ hi := fun e' => e (UInt32.le_antisymm (e' ▸ h₂) h₁)
        rw [if_neg hlast] at h
        obtain ⟨hsucc, hle⟩ := toNat_succ_candidate hc hlast
        have := UInt32.le_iff_toNat_le.1 hle
        exact ih h hle (by omega) m (succ_le_of_le_of_ne hc hlast h₁ e) h₂
    · rw [if_pos hfree] at h
      simp at h

/-- **A successful allocation** hands out the lowest free address of the host range and marks
it as used; nothing else changes. -/
theorem allocate_ok {a a' : SubnetAllocator} {addr : String} (h : a.allocate = .ok (addr, a')) :
    ∃ n, addr = formatIpv4 n ∧ a' = { a with used := insert n a.used } ∧ n ∉ a.used ∧
      a.firstHost ≤ n ∧ n ≤ a.lastHost ∧ ∀ m, a.firstHost ≤ m → m < n → m ∈ a.used := by
  rw [allocate] at h
  split_ifs at h with hr
  split at h
  · simp at h
  · rename_i c hs
    obtain ⟨rfl, rfl⟩ := Prod.mk.inj (Except.ok.inj h)
    obtain ⟨h₁, h₂, h₃, h₄⟩ := scan_eq_some hs (UInt32.not_lt.1 hr)
    exact ⟨c, rfl, rfl, h₃, h₁, h₂, h₄⟩

/-- **An allocation fails** exactly when the host range has no free address. -/
theorem allocate_error {a : SubnetAllocator} :
    (∃ e, a.allocate = .error e) ↔ ¬ a.HasFreeHost := by
  constructor
  · rintro ⟨e, h⟩ ⟨n, hlo, hhi, hfree⟩
    rw [allocate] at h
    split_ifs at h with hr
    · exact absurd (UInt32.le_trans hlo hhi) (UInt32.not_le.2 hr)
    · split at h
      · rename_i hs
        exact hfree (scan_eq_none hs (UInt32.not_lt.1 hr) rfl n hlo hhi)
      · simp at h
  · intro hfree
    rcases h : a.allocate with e | ⟨addr, a'⟩
    · exact ⟨e, rfl⟩
    · obtain ⟨n, -, -, h₁, h₂, h₃, -⟩ := allocate_ok h
      exact absurd ⟨n, h₂, h₃, h₁⟩ hfree

/-- Releasing a printed address frees that address, or nothing when it is the gateway. -/
theorem release_formatIpv4 (a : SubnetAllocator) (n : UInt32) :
    a.release (formatIpv4 n) =
      if checkedHost a.base a.prefixLen 1 ≠ some n then { a with used := a.used.erase n } else a := by
  rw [release, parseIpv4_formatIpv4]

end SubnetAllocator

example : (SubnetAllocator.new "10.0.1.0/30").bind (fun a => a.allocate.map Prod.fst) =
    .ok "10.0.1.2" := by decide

end OCF.Network
