import Mathlib.Data.Int.Log
import Mathlib.Data.Rat.Floor
import Mathlib.Algebra.Order.Monoid.WithTop
import Mathlib.Tactic.Linarith
import Mathlib.Tactic.Positivity
import Mathlib.Tactic.Ring
import Mathlib.Tactic.FieldSimp

/-!
# Double-precision numbers

The values of the IEEE 754 format binary64 that are numbers or infinite: `Binary64`. A finite one is an
integer of 53 bits scaled by a power of two (`IsBinary64`). A sum is computed exactly and then rounded
to the nearest number, to the one with the even last place between two; what lies half a last place
beyond the largest number, or further, becomes infinite (`Binary64.round`, `Binary64.add`). The value
that is not a number is left out: a finite number added to any of these values never gives it.

* `abs_nearest_sub_le`: no number is nearer than the one that is rounded to.
* `round_of_isBinary64` and `isBinary64_of_round`: rounding gives a number, and leaves numbers alone.
* `round_mono` and `add_mono`: rounding and addition respect the order, so that adding a number that
  is not negative does not decrease a sum (`le_add_of_nonneg`).
-/

namespace OCF

/-- The nearest integer; of two, the even one. -/
def roundHalfEven (x : ℚ) : ℤ :=
  if x - ⌊x⌋ < 1 / 2 then ⌊x⌋
  else if 1 / 2 < x - ⌊x⌋ then ⌊x⌋ + 1
  else if ⌊x⌋ % 2 = 0 then ⌊x⌋ else ⌊x⌋ + 1

/-- The two ways to round. -/
theorem roundHalfEven_cases (x : ℚ) :
    roundHalfEven x = ⌊x⌋ ∧ x - ⌊x⌋ ≤ 1 / 2 ∨ roundHalfEven x = ⌊x⌋ + 1 ∧ 1 / 2 ≤ x - ⌊x⌋ := by
  unfold roundHalfEven
  split_ifs with h1 h2
  · exact .inl ⟨rfl, h1.le⟩
  · exact .inr ⟨rfl, h2.le⟩
  · exact .inl ⟨rfl, not_lt.1 h2⟩
  · exact .inr ⟨rfl, not_lt.1 h1⟩

/-- No integer is nearer. -/
theorem abs_roundHalfEven_sub_le (x : ℚ) (k : ℤ) : |(roundHalfEven x : ℚ) - x| ≤ |(k : ℚ) - x| := by
  have hfloor := Int.floor_le x
  have hlt := Int.lt_floor_add_one x
  -- an integer is at most the floor or at least the next one
  have hk : (k : ℚ) ≤ ⌊x⌋ ∨ (⌊x⌋ : ℚ) + 1 ≤ k := by
    rcases le_or_gt k ⌊x⌋ with h | h
    · exact .inl (by exact_mod_cast h)
    · exact .inr (by exact_mod_cast h)
  obtain ⟨hr, hhalf⟩ | ⟨hr, hhalf⟩ := roundHalfEven_cases x
  · rw [hr, abs_of_nonpos (by linarith)]
    rcases hk with hk | hk
    · rw [abs_of_nonpos (by linarith)]
      linarith
    · rw [abs_of_nonneg (by linarith)]
      linarith
  · rw [hr, Int.cast_add, Int.cast_one, abs_of_nonneg (by linarith)]
    rcases hk with hk | hk
    · rw [abs_of_nonpos (by linarith)]
      linarith
    · rw [abs_of_nonneg (by linarith)]
      linarith

theorem abs_roundHalfEven_sub_le_half (x : ℚ) : |(roundHalfEven x : ℚ) - x| ≤ 1 / 2 := by
  have hfloor := Int.floor_le x
  have hlt := Int.lt_floor_add_one x
  obtain ⟨hr, hhalf⟩ | ⟨hr, hhalf⟩ := roundHalfEven_cases x
  · rw [hr, abs_of_nonpos (by linarith)]
    linarith
  · rw [hr, Int.cast_add, Int.cast_one, abs_of_nonneg (by linarith)]
    linarith

theorem abs_roundHalfEven_le (x : ℚ) : |(roundHalfEven x : ℚ)| ≤ |x| + 1 / 2 := by
  have hhalf := abs_roundHalfEven_sub_le_half x
  have htri := abs_add_le ((roundHalfEven x : ℚ) - x) x
  rw [sub_add_cancel] at htri
  linarith

/-- A finite number of the format: an integer of 53 bits times a power of two. -/
def IsBinary64 (q : ℚ) : Prop :=
  ∃ m e : ℤ, |m| < 2 ^ 53 ∧ -1074 ≤ e ∧ e ≤ 971 ∧ q = m * 2 ^ e

/-- A value of the format that is not NaN. -/
inductive Binary64
  | negInf
  | finite (q : ℚ)
  | posInf
  deriving DecidableEq

namespace Binary64

/-! ## The order -/

def toExtended : Binary64 → WithBot (WithTop ℚ)
  | negInf => ⊥
  | finite q => ((q : WithTop ℚ) : WithBot (WithTop ℚ))
  | posInf => ((⊤ : WithTop ℚ) : WithBot (WithTop ℚ))

theorem toExtended_injective : Function.Injective toExtended := by
  intro a b h
  cases a <;> cases b <;> simp_all [toExtended]

instance : LinearOrder Binary64 := LinearOrder.lift' toExtended toExtended_injective

variable {a b : ℚ} {x y : Binary64}

theorem le_iff : x ≤ y ↔ toExtended x ≤ toExtended y := Iff.rfl

theorem lt_iff : x < y ↔ toExtended x < toExtended y := Iff.rfl

@[simp] theorem finite_le_finite : finite a ≤ finite b ↔ a ≤ b := by
  simp [le_iff, toExtended]

@[simp] theorem finite_lt_finite : finite a < finite b ↔ a < b := by
  simp [lt_iff, toExtended]

@[simp] theorem le_posInf : x ≤ posInf := by
  cases x <;> simp [le_iff, toExtended]

@[simp] theorem negInf_le : negInf ≤ x := by
  simp [le_iff, toExtended]

@[simp] theorem not_posInf_le_finite : ¬posInf ≤ finite a := by
  simp [le_iff, toExtended]

@[simp] theorem not_finite_le_negInf : ¬finite a ≤ negInf := by
  simp [le_iff, toExtended]

@[simp] theorem not_posInf_le_negInf : ¬posInf ≤ negInf := by
  simp [le_iff, toExtended]

def isInfinite : Binary64 → Bool
  | finite _ => false
  | _ => true

theorem isInfinite_eq_false : x.isInfinite = false ↔ ∃ q, x = finite q := by
  cases x <;> simp [isInfinite]

/-! ## Rounding -/

/-- The exponent of the last place of a number of this size. -/
def lastPlace (x : ℚ) : ℤ := max (Int.log 2 |x| - 52) (-1074)

/-- The nearest multiple of the last place. -/
def nearest (x : ℚ) : ℚ := roundHalfEven (x / 2 ^ lastPlace x) * 2 ^ lastPlace x

/-- Half a last place beyond the largest number. -/
def limit : ℚ := 2 ^ 1024 - 2 ^ 970

/-- Round to nearest, ties to even. -/
def round (x : ℚ) : Binary64 :=
  if limit ≤ x then posInf else if x ≤ -limit then negInf else finite (nearest x)

/-- The sum of a value and a finite number. -/
def add (x : Binary64) (w : ℚ) : Binary64 :=
  match x with
  | negInf => negInf
  | finite q => round (q + w)
  | posInf => posInf

theorem two_zpow_pos (e : ℤ) : (0 : ℚ) < 2 ^ e := zpow_pos two_pos e

/-- The last place of a large enough number is 52 places below its first one. -/
theorem lastPlace_bounds (x : ℚ) :
    -1074 ≤ lastPlace x ∧ |x| < 2 ^ (lastPlace x + 53) ∧
      (-1074 < lastPlace x → x ≠ 0 → 2 ^ (lastPlace x + 52) ≤ |x|) := by
  have hlog : |x| < (2 : ℚ) ^ (Int.log 2 |x| + 1) := by
    exact_mod_cast Int.lt_zpow_succ_log_self one_lt_two |x|
  refine ⟨le_max_right .., hlog.trans_le (zpow_le_zpow_right₀ one_le_two ?_), fun hlt hx => ?_⟩
  · have := le_max_left (Int.log 2 |x| - 52) (-1074)
    unfold lastPlace
    omega
  · have hplace : lastPlace x = Int.log 2 |x| - 52 := by
      unfold lastPlace at hlt ⊢
      omega
    rw [hplace, sub_add_cancel]
    exact_mod_cast Int.zpow_log_le_self (b := 2) one_lt_two (abs_pos.2 hx)

/-- No multiple of the last place is nearer. -/
theorem abs_nearest_sub_le_mul (x : ℚ) (k : ℤ) :
    |nearest x - x| ≤ |k * 2 ^ lastPlace x - x| := by
  have hpos := two_zpow_pos (lastPlace x)
  have hscale : ∀ a : ℚ, |a * 2 ^ lastPlace x - x| = |a - x / 2 ^ lastPlace x| * 2 ^ lastPlace x := by
    intro a
    rw [← abs_of_pos hpos, ← abs_mul, abs_of_pos hpos, sub_mul, div_mul_cancel₀ x hpos.ne']
  rw [nearest, hscale, hscale]
  exact mul_le_mul_of_nonneg_right (abs_roundHalfEven_sub_le _ k) hpos.le

/-- A number with smaller places is smaller than the power of two that `x` starts with. -/
theorem abs_lt_of_lt_lastPlace {x : ℚ} {m e : ℤ} (hm : |m| < 2 ^ 53) (he : e < lastPlace x) :
    |(m * 2 ^ e : ℚ)| < 2 ^ (lastPlace x + 52) := by
  have hm' : |(m : ℚ)| < 2 ^ (53 : ℤ) := by exact_mod_cast hm
  rw [abs_mul, abs_of_pos (two_zpow_pos e)]
  calc |(m : ℚ)| * 2 ^ e < 2 ^ (53 : ℤ) * 2 ^ e := mul_lt_mul_of_pos_right hm' (two_zpow_pos e)
    _ = 2 ^ (53 + e) := (zpow_add₀ two_ne_zero _ _).symm
    _ ≤ 2 ^ (lastPlace x + 52) := zpow_le_zpow_right₀ one_le_two (by omega)

/-- Between zero and `x` one comes nearer to `x` by moving away from zero. -/
theorem abs_sub_le_of_abs_le {p q x : ℚ} (hq : |q| ≤ p) (hp : p ≤ |x|) :
    |p - x| ≤ |q - x| ∨ |-p - x| ≤ |q - x| := by
  obtain ⟨hlow, hhigh⟩ := abs_le.1 hq
  rcases le_total 0 x with hx | hx
  · rw [abs_of_nonneg hx] at hp
    left
    rw [abs_of_nonpos (by linarith), abs_of_nonpos (by linarith)]
    linarith
  · rw [abs_of_nonpos hx] at hp
    right
    rw [abs_of_nonneg (by linarith), abs_of_nonneg (by linarith)]
    linarith

/-- **No number is nearer** than the one that is rounded to. One with smaller places is smaller than
the power of two that `x` starts with, which is a multiple of the last place. -/
theorem abs_nearest_sub_le (x : ℚ) {q : ℚ} (hq : IsBinary64 q) : |nearest x - x| ≤ |q - x| := by
  obtain ⟨m, e, hm, he, -, rfl⟩ := hq
  obtain ⟨-, -, hfirst⟩ := lastPlace_bounds x
  by_cases hx : x = 0
  · have hzero : nearest x = 0 := by simp [hx, nearest, roundHalfEven]
    rw [hzero, hx, sub_zero, abs_zero]
    exact abs_nonneg _
  by_cases hle : lastPlace x ≤ e
  · -- a multiple of the last place
    obtain ⟨n, hn⟩ := Int.eq_ofNat_of_zero_le (sub_nonneg.2 hle)
    have hmul : (m * 2 ^ e : ℚ) = ((m * 2 ^ n : ℤ) : ℚ) * 2 ^ lastPlace x := by
      have he' : e = n + lastPlace x := by omega
      rw [he', zpow_add₀ two_ne_zero]
      push_cast
      rw [zpow_natCast]
      ring
    rw [hmul]
    exact abs_nearest_sub_le_mul x _
  · have hsmall := abs_lt_of_lt_lastPlace hm (not_le.1 hle)
    have hpow : ((2 ^ 52 : ℤ) : ℚ) * 2 ^ lastPlace x = 2 ^ (lastPlace x + 52) := by
      rw [zpow_add₀ two_ne_zero, mul_comm]
      norm_num
    have hneg : ((-2 ^ 52 : ℤ) : ℚ) * 2 ^ lastPlace x = -2 ^ (lastPlace x + 52) := by
      rw [← hpow]
      push_cast
      ring
    rcases abs_sub_le_of_abs_le hsmall.le (hfirst (by omega) hx) with hnear | hnear
    · rw [← hpow] at hnear
      exact (abs_nearest_sub_le_mul x _).trans hnear
    · rw [← hneg] at hnear
      exact (abs_nearest_sub_le_mul x _).trans hnear

theorem limit_eq : limit = (2 ^ 53 - 1 / 2) * 2 ^ (971 : ℤ) := by
  have hfirst : (2 : ℚ) ^ 1024 = 2 ^ 54 * 2 ^ 970 := by rw [← pow_add]
  have hlast : (2 : ℚ) ^ (971 : ℤ) = 2 * 2 ^ 970 := by rw [← pow_succ']; rfl
  rw [limit, hfirst, hlast]
  generalize (2 : ℚ) ^ 970 = place
  ring

theorem limit_pos : 0 < limit := by
  rw [limit_eq]
  exact mul_pos (by norm_num) (two_zpow_pos 971)

theorem lastPlace_le {x : ℚ} (hx : |x| < limit) : lastPlace x ≤ 971 := by
  obtain ⟨-, -, hfirst⟩ := lastPlace_bounds x
  by_contra hlt
  by_cases h0 : x = 0
  · simp [h0, lastPlace] at hlt
  have hle : (2 : ℚ) ^ (1024 : ℤ) ≤ |x| :=
    (zpow_le_zpow_right₀ one_le_two (by omega)).trans (hfirst (by omega) h0)
  have hlimit : limit < 2 ^ (1024 : ℤ) := by
    unfold limit
    norm_num
  exact absurd (hx.trans hlimit) (not_lt.2 hle)

/-- In units of its last place, `x` has 53 bits before the point. -/
theorem abs_scaled_lt (x : ℚ) : |x / 2 ^ lastPlace x| < 2 ^ 53 := by
  obtain ⟨-, hsize, -⟩ := lastPlace_bounds x
  have hpos := two_zpow_pos (lastPlace x)
  rw [abs_div, abs_of_pos hpos, div_lt_iff₀ hpos]
  refine hsize.trans_le (le_of_eq ?_)
  rw [zpow_add₀ two_ne_zero, mul_comm]
  norm_num

/-- What is within the limit is rounded to a number. -/
theorem isBinary64_nearest {x : ℚ} (hx : |x| < limit) : IsBinary64 (nearest x) := by
  obtain ⟨hlow, -, -⟩ := lastPlace_bounds x
  have hbound := abs_scaled_lt x
  have hround := abs_roundHalfEven_le (x / 2 ^ lastPlace x)
  by_cases hm : |roundHalfEven (x / 2 ^ lastPlace x)| < 2 ^ 53
  · exact ⟨_, _, hm, hlow, lastPlace_le hx, rfl⟩
  -- rounded up to the next power of two
  have htop : |roundHalfEven (x / 2 ^ lastPlace x)| = 2 ^ 53 := by
    have hcast : ((|roundHalfEven (x / 2 ^ lastPlace x)| : ℤ) : ℚ) < ((2 ^ 53 + 1 : ℤ) : ℚ) := by
      push_cast
      linarith
    have hlt : |roundHalfEven (x / 2 ^ lastPlace x)| < 2 ^ 53 + 1 := by exact_mod_cast hcast
    omega
  have hroom : lastPlace x ≤ 970 := by
    have hhigh := lastPlace_le hx
    by_contra hlt
    obtain heq : lastPlace x = 971 := by omega
    have hless : |x / 2 ^ lastPlace x| < 2 ^ 53 - 1 / 2 := by
      have hpos := two_zpow_pos (lastPlace x)
      rw [abs_div, abs_of_pos hpos, div_lt_iff₀ hpos, heq, ← limit_eq]
      exact hx
    have hcast : ((|roundHalfEven (x / 2 ^ lastPlace x)| : ℤ) : ℚ) = 2 ^ 53 := by
      rw [htop]
      norm_num
    push_cast at hcast
    linarith
  rcases abs_eq (by positivity) |>.1 htop with hm' | hm'
  · refine ⟨2 ^ 52, lastPlace x + 1, by norm_num, by omega, by omega, ?_⟩
    rw [nearest, hm', zpow_add_one₀ two_ne_zero]
    push_cast
    ring
  · refine ⟨-2 ^ 52, lastPlace x + 1, by norm_num, by omega, by omega, ?_⟩
    rw [nearest, hm', zpow_add_one₀ two_ne_zero]
    push_cast
    ring

theorem abs_lt_limit_of_isBinary64 {q : ℚ} (hq : IsBinary64 q) : |q| < limit := by
  obtain ⟨m, e, hm, -, he, rfl⟩ := hq
  have hm' : |(m : ℚ)| ≤ 2 ^ 53 - 1 := by
    have hle : |m| ≤ 2 ^ 53 - 1 := by omega
    exact_mod_cast hle
  rw [abs_mul, abs_of_pos (two_zpow_pos e), limit_eq]
  calc |(m : ℚ)| * 2 ^ e ≤ (2 ^ 53 - 1) * 2 ^ (971 : ℤ) :=
        mul_le_mul hm' (zpow_le_zpow_right₀ one_le_two he) (two_zpow_pos e).le (by norm_num)
    _ < (2 ^ 53 - 1 / 2) * 2 ^ (971 : ℤ) :=
        mul_lt_mul_of_pos_right (by norm_num) (two_zpow_pos 971)

theorem round_of_abs_lt {x : ℚ} (hx : |x| < limit) : round x = finite (nearest x) := by
  obtain ⟨hlow, hhigh⟩ := abs_lt.1 hx
  rw [round, if_neg (not_le.2 hhigh), if_neg (not_le.2 hlow)]

/-- What rounding makes finite is within the limit. -/
theorem abs_lt_of_round {x r : ℚ} (h : round x = finite r) : |x| < limit ∧ nearest x = r := by
  unfold round at h
  split_ifs at h with hhigh hlow
  exact ⟨abs_lt.2 ⟨not_le.1 hlow, not_le.1 hhigh⟩, Binary64.finite.inj h⟩

/-- **Rounding gives numbers.** -/
theorem isBinary64_of_round {x r : ℚ} (h : round x = finite r) : IsBinary64 r := by
  obtain ⟨hx, rfl⟩ := abs_lt_of_round h
  exact isBinary64_nearest hx

/-- **Rounding leaves numbers alone.** -/
theorem round_of_isBinary64 {q : ℚ} (hq : IsBinary64 q) : round q = finite q := by
  have hnear := abs_nearest_sub_le q hq
  rw [sub_self, abs_zero] at hnear
  have heq : nearest q = q := sub_eq_zero.1 (abs_eq_zero.1 (le_antisymm hnear (abs_nonneg _)))
  rw [round_of_abs_lt (abs_lt_limit_of_isBinary64 hq), heq]

/-- Two points are not rounded the other way round: what is nearest to both would be on either side of
the middle. -/
theorem nearest_mono {x y : ℚ} (hx : |x| < limit) (hy : |y| < limit) (h : x ≤ y) :
    nearest x ≤ nearest y := by
  by_contra hlt
  rw [not_le] at hlt
  obtain rfl | hxy := eq_or_lt_of_le h
  · exact lt_irrefl _ hlt
  have h1 := abs_nearest_sub_le x (isBinary64_nearest hy)
  have h2 := abs_nearest_sub_le y (isBinary64_nearest hx)
  obtain ⟨ha, hb⟩ := abs_le.1 h1
  obtain ⟨hc, hd⟩ := abs_le.1 h2
  rcases abs_cases (nearest y - x) with ⟨e1, h1'⟩ | ⟨e1, h1'⟩ <;>
    rcases abs_cases (nearest x - y) with ⟨e2, h2'⟩ | ⟨e2, h2'⟩ <;> linarith

/-- **Rounding respects the order.** -/
theorem round_mono {x y : ℚ} (h : x ≤ y) : round x ≤ round y := by
  have hlimit := limit_pos
  unfold round
  split_ifs with hx hy hyl hxl hy' hyl'
  · exact le_rfl
  · linarith
  · linarith
  · exact le_posInf
  · exact le_rfl
  · exact negInf_le
  · exact le_posInf
  · linarith
  · rw [finite_le_finite]
    exact nearest_mono (abs_lt.2 ⟨by linarith, by linarith⟩) (abs_lt.2 ⟨by linarith, by linarith⟩) h

/-! ## Sums -/

theorem add_mono {w : ℚ} (h : x ≤ y) : x.add w ≤ y.add w := by
  cases x with
  | negInf => exact negInf_le
  | posInf =>
    cases y with
    | negInf => simp at h
    | finite q => simp at h
    | posInf => exact le_rfl
  | finite p =>
    cases y with
    | negInf => simp at h
    | finite q =>
      rw [finite_le_finite] at h
      exact round_mono (by linarith)
    | posInf => exact le_posInf

/-- A sum does not decrease when a number is added that is not negative. -/
theorem le_add_of_nonneg {q w : ℚ} (hq : IsBinary64 q) (hw : 0 ≤ w) : finite q ≤ (finite q).add w := by
  calc finite q = round q := (round_of_isBinary64 hq).symm
    _ ≤ round (q + w) := round_mono (le_add_of_nonneg_right hw)

end Binary64

end OCF
