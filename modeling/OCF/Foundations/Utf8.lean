import Mathlib.Data.List.Lex
import Mathlib.Data.String.Basic
import Mathlib.Logic.Function.Basic

/-!
# Strings as UTF-8

The bytes of a string, and that strings are ordered by their characters as they are by their bytes:
`utf8_lt_iff`. Two characters differ first in a byte that is smaller in the smaller one, and no
encoding of a character starts another one, so the order carries over to whole strings.
-/

namespace OCF

/-- The UTF-8 bytes of a text. -/
def bytes (s : List Char) : List UInt8 := s.flatMap String.utf8EncodeChar

/-- The UTF-8 bytes of a string. -/
def utf8 (s : String) : List UInt8 := bytes s.toList

/-- An ASCII string has as many bytes as characters. -/
theorem length_utf8_of_ascii {s : String} (h : ∀ c ∈ s.toList, c.val ≤ 127) :
    (utf8 s).length = s.toList.length := by
  have hone : s.toList.map (fun c => (String.utf8EncodeChar c).length) = s.toList.map fun _ => 1 := by
    refine List.map_congr_left fun c hc => ?_
    rw [String.length_utf8EncodeChar, Char.utf8Size_eq_one_iff]
    exact h c hc
  rw [utf8, bytes, List.length_flatMap, hone, List.map_const', List.sum_replicate_nat, Nat.mul_one]

/-! ## One character -/

namespace Utf8

theorem ofNat_cons_lt_iff {n m : ℕ} (hn : n < 256) (hm : m < 256) (u v : List UInt8) :
    UInt8.ofNat n :: u < UInt8.ofNat m :: v ↔ n < m ∨ n = m ∧ u < v := by
  rw [List.cons_lt_cons_iff, UInt8.lt_iff_toNat_lt, ← UInt8.toNat_inj, UInt8.toNat_ofNat',
    UInt8.toNat_ofNat', Nat.mod_eq_of_lt hn, Nat.mod_eq_of_lt hm]

/-- How many bytes follow the first byte of a code point. -/
def trailing (x : ℕ) : ℕ :=
  if x ≤ 0x7f then 0 else if x ≤ 0x7ff then 1 else if x ≤ 0xffff then 2 else 3

/-- What marks the first byte when `k` bytes follow. -/
def leadMark : ℕ → ℕ
  | 0 => 0
  | 1 => 192
  | 2 => 224
  | _ => 240

/-- The last `k` groups of six bits, each in a byte of its own. -/
def groups (x : ℕ) : ℕ → List UInt8
  | 0 => []
  | k + 1 => UInt8.ofNat (x / 64 ^ k % 64 + 128) :: groups x k

theorem toNat_lt (c : Char) : c.val.toNat < 0x110000 := by
  have hvalid := c.valid
  simp only [UInt32.isValidChar, Nat.isValidChar] at hvalid
  omega

/-- The encoding of a character: the highest bits under the mark, then the groups. -/
theorem utf8EncodeChar_eq (c : Char) : String.utf8EncodeChar c =
    UInt8.ofNat (c.val.toNat / 64 ^ trailing c.val.toNat + leadMark (trailing c.val.toNat)) ::
      groups c.val.toNat (trailing c.val.toNat) := by
  have hlt := toNat_lt c
  unfold String.utf8EncodeChar trailing
  generalize c.val.toNat = x at hlt
  dsimp only
  split_ifs with h₁ h₂ h₃
  · simp [groups, leadMark]
  · have hlead : x / 64 % 32 = x / 64 := Nat.mod_eq_of_lt (by omega)
    simp [groups, leadMark, hlead]
  · have hlead : x / 4096 % 16 = x / 4096 := Nat.mod_eq_of_lt (by omega)
    simp [groups, leadMark, hlead]
  · have hlead : x / 262144 % 8 = x / 262144 := Nat.mod_eq_of_lt (by omega)
    simp [groups, leadMark, hlead]

/-- The first byte of a longer encoding is larger. -/
theorem lead_lt {x y : ℕ} (hy : y < 0x110000) (h : trailing x < trailing y) :
    x / 64 ^ trailing x + leadMark (trailing x) < y / 64 ^ trailing y + leadMark (trailing y) := by
  unfold trailing at *
  split_ifs at * <;> simp only [leadMark] <;> omega

theorem lead_lt_256 {x : ℕ} (hx : x < 0x110000) :
    x / 64 ^ trailing x + leadMark (trailing x) < 256 := by
  unfold trailing
  split_ifs <;> simp only [leadMark] <;> omega

theorem trailing_mono {x y : ℕ} (h : x ≤ y) : trailing x ≤ trailing y := by
  unfold trailing
  split_ifs <;> omega

/-- Numbers in a radix are compared digit by digit. -/
theorem radix_lt {b q q' r r' : ℕ} (hr' : r' < b) (h : r + b * q < r' + b * q') :
    q < q' ∨ q = q' ∧ r < r' := by
  obtain hq | rfl | hq := lt_trichotomy q q'
  · exact .inl hq
  · exact .inr ⟨rfl, by omega⟩
  · have hle := Nat.mul_le_mul_left b hq
    rw [Nat.mul_succ] at hle
    omega

theorem groups_append_lt {x y k : ℕ} (h : x % 64 ^ k < y % 64 ^ k) (u v : List UInt8) :
    groups x k ++ u < groups y k ++ v := by
  induction k with
  | zero => simp [Nat.mod_one] at h
  | succ k ih =>
    rw [Nat.mod_pow_succ, Nat.mod_pow_succ] at h
    rw [groups, groups, List.cons_append, List.cons_append,
      ofNat_cons_lt_iff (by omega) (by omega)]
    obtain hlt | ⟨heq, hlt⟩ := radix_lt (Nat.mod_lt y (Nat.pow_pos (by decide))) h
    · exact .inl (by omega)
    · exact .inr ⟨by omega, ih hlt⟩

/-- The encoding of a smaller character is smaller, whatever follows. -/
theorem utf8EncodeChar_append_lt {c d : Char} (h : c < d) (u v : List UInt8) :
    String.utf8EncodeChar c ++ u < String.utf8EncodeChar d ++ v := by
  have hlt : c.val.toNat < d.val.toNat := h
  have hc := toNat_lt c
  have hd := toNat_lt d
  rw [utf8EncodeChar_eq, utf8EncodeChar_eq]
  generalize c.val.toNat = x at hlt hc ⊢
  generalize d.val.toNat = y at hlt hd ⊢
  rw [List.cons_append, List.cons_append, ofNat_cons_lt_iff (lead_lt_256 hc) (lead_lt_256 hd)]
  obtain hshort | hsame := (trailing_mono hlt.le).lt_or_eq
  · exact .inl (lead_lt hd hshort)
  · rw [hsame]
    generalize trailing y = k
    rw [← Nat.mod_add_div x (64 ^ k), ← Nat.mod_add_div y (64 ^ k)] at hlt
    obtain hlead | ⟨hlead, hrest⟩ := radix_lt (Nat.mod_lt y (Nat.pow_pos (by decide))) hlt
    · exact .inl (by omega)
    · exact .inr ⟨by omega, groups_append_lt hrest u v⟩

end Utf8

/-! ## Whole strings -/

theorem utf8_lt_of_lt {a b : String} (h : a < b) : utf8 a < utf8 b := by
  have key : ∀ l m : List Char, l < m →
      l.flatMap String.utf8EncodeChar < m.flatMap String.utf8EncodeChar := by
    intro l m hlt
    induction hlt with
    | @nil d m =>
      obtain ⟨x, xs, hx⟩ := List.exists_cons_of_ne_nil (String.utf8EncodeChar_ne_nil (c := d))
      rw [List.flatMap_nil, List.flatMap_cons, hx]
      exact List.nil_lt_cons _ _
    | cons _ ih =>
      rw [List.flatMap_cons, List.flatMap_cons]
      exact List.append_left_lt ih
    | rel hcd =>
      rw [List.flatMap_cons, List.flatMap_cons]
      exact Utf8.utf8EncodeChar_append_lt hcd _ _
  exact key _ _ h

/-- **Strings are ordered as their bytes are.** -/
theorem utf8_lt_iff {a b : String} : utf8 a < utf8 b ↔ a < b := by
  refine ⟨fun h => ?_, utf8_lt_of_lt⟩
  obtain hlt | rfl | hgt := lt_trichotomy a b
  · exact hlt
  · exact absurd h (List.lt_irrefl _)
  · exact absurd h (List.lt_asymm (utf8_lt_of_lt hgt))

theorem utf8_injective : Function.Injective utf8 := by
  intro a b h
  obtain hlt | heq | hgt := lt_trichotomy a b
  · exact absurd (h ▸ utf8_lt_of_lt hlt) (List.lt_irrefl _)
  · exact heq
  · exact absurd (h ▸ utf8_lt_of_lt hgt) (List.lt_irrefl _)

/-- The order of strings that compares their bytes. -/
def compareUtf8 (a b : String) : Ordering := compareOfLessAndEq (utf8 a) (utf8 b)

theorem compareUtf8_eq_compare : compareUtf8 = compare := by
  funext a b
  simp only [compareUtf8, compareOfLessAndEq, utf8_lt_iff, utf8_injective.eq_iff]
  rfl

theorem compareUtf8_eq_lt {a b : String} : compareUtf8 a b = .lt ↔ a < b := by
  rw [compareUtf8_eq_compare, compare_lt_iff_lt]

theorem isLE_compareUtf8 {a b : String} : (compareUtf8 a b).isLE ↔ ¬b < a := by
  rw [compareUtf8_eq_compare, ← Ordering.ne_gt_iff_isLE]
  exact not_congr compare_gt_iff_gt

end OCF
