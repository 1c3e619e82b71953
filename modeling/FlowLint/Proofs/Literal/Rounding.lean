import FlowLint.Literal.Binary64
import Mathlib.Algebra.Order.Field.Rat
import Mathlib.Algebra.Order.Ring.Abs
import Mathlib.Order.Monotone.Basic
import Mathlib.Tactic.FieldSimp
import Mathlib.Tactic.GCongr
import Mathlib.Tactic.Linarith
import Mathlib.Tactic.Ring

/-!
What the patterns of binary64 numbers stand for, and that a ratio is rounded to the nearest of them,
a tie to the even pattern. The patterns are ordered as the numbers are, so it is enough to compare
the ratio with the two neighbours it lies between.
-/
namespace FlowLint
set_option autoImplicit true

namespace Binary64

/-- The number with an exponent field and a fraction. -/
def ofFields (field fraction : ℕ) : ℚ :=
  if field = 0 then fraction * 2 ^ (-1074 : ℤ)
  else (2 ^ 52 + fraction) * 2 ^ ((field : ℤ) - 1075)

def toRat (number : Binary64) : ℚ :=
  ofFields (number.bits.toNat / 2 ^ 52) (number.bits.toNat % 2 ^ 52)

def IsFinite (number : Binary64) : Prop :=
  number.bits.toNat < infinityPattern

/-- How many times the least positive number a pattern stands for. -/
def units (pattern : ℕ) : ℕ :=
  if pattern / 2 ^ 52 = 0 then pattern % 2 ^ 52
  else (2 ^ 52 + pattern % 2 ^ 52) * 2 ^ (pattern / 2 ^ 52 - 1)

theorem toRat_eq_units (number : Binary64) :
    number.toRat = units number.bits.toNat * 2 ^ (-1074 : ℤ) := by
  unfold toRat ofFields units
  generalize number.bits.toNat % 2 ^ 52 = fraction
  generalize number.bits.toNat / 2 ^ 52 = field
  cases field with
  | zero => rfl
  | succ field =>
    have he : ((field + 1 : ℕ) : ℤ) - 1075 = field + -1074 := by omega
    rw [if_neg (Nat.succ_ne_zero _), if_neg (Nat.succ_ne_zero _), he, zpow_add₀ two_ne_zero,
      zpow_natCast, Nat.add_sub_cancel]
    generalize (2 : ℚ) ^ (-1074 : ℤ) = unit
    push_cast
    ring

/-- A significand may also be the one past the greatest. -/
theorem units_significand {shift m : ℕ} (hl : shift ≠ 0 → 2 ^ 52 ≤ m) (hu : m ≤ 2 ^ 53) :
    units (shift * 2 ^ 52 + m) = m * 2 ^ shift := by
  unfold units
  rcases Nat.lt_or_ge m (2 ^ 52) with hm | hm
  · obtain rfl : shift = 0 := by_contra fun hs => absurd (hl hs) (Nat.not_le.2 hm)
    rw [Nat.zero_mul, Nat.zero_add, if_pos (Nat.div_eq_of_lt hm), Nat.mod_eq_of_lt hm, Nat.pow_zero,
      Nat.mul_one]
  · rcases Nat.lt_or_ge m (2 ^ 53) with hm' | hm'
    · have hd : (shift * 2 ^ 52 + m) / 2 ^ 52 = shift + 1 := by omega
      have hr : (shift * 2 ^ 52 + m) % 2 ^ 52 = m - 2 ^ 52 := by omega
      rw [hd, hr, if_neg (Nat.succ_ne_zero _), Nat.add_sub_cancel' hm, Nat.add_sub_cancel]
    · obtain rfl := Nat.le_antisymm hu hm'
      have hd : (shift * 2 ^ 52 + 2 ^ 53) / 2 ^ 52 = shift + 1 + 1 := by omega
      have hr : (shift * 2 ^ 52 + 2 ^ 53) % 2 ^ 52 = 0 := by omega
      rw [hd, hr, if_neg (Nat.succ_ne_zero _), Nat.add_zero, Nat.add_sub_cancel]
      ring

theorem exists_significand (p : ℕ) :
    ∃ shift m, p = shift * 2 ^ 52 + m ∧ (shift ≠ 0 → 2 ^ 52 ≤ m) ∧ m < 2 ^ 53 := by
  rcases Nat.lt_or_ge p (2 ^ 52) with hp | hp
  · exact ⟨0, p, by omega, absurd rfl, by omega⟩
  · exact ⟨p / 2 ^ 52 - 1, p - (p / 2 ^ 52 - 1) * 2 ^ 52, by omega, fun _ => by omega, by omega⟩

theorem units_strictMono : StrictMono units := by
  refine strictMono_nat_of_lt_succ fun p => ?_
  obtain ⟨shift, m, rfl, hl, hu⟩ := exists_significand p
  rw [units_significand hl hu.le, Nat.add_assoc,
    units_significand (fun hs => (hl hs).trans (Nat.le_succ m)) hu]
  exact Nat.mul_lt_mul_of_pos_right (Nat.lt_succ_self m) (Nat.two_pow_pos shift)

theorem units_cast_lt {p q : ℕ} : (units p : ℚ) < units q ↔ p < q := by
  rw [Nat.cast_lt, units_strictMono.lt_iff_lt]

theorem units_cast_le {p q : ℕ} : (units p : ℚ) ≤ units q ↔ p ≤ q := by
  rw [Nat.cast_le, units_strictMono.le_iff_le]

theorem units_cast_inj {p q : ℕ} : (units p : ℚ) = units q ↔ p = q := by
  rw [Nat.cast_inj, units_strictMono.injective.eq_iff]

/-- No pattern is nearer to a number of units, and another one as near is only there if this one is
even. The patterns from infinity on count as those of greater and greater numbers. -/
structure Nearest (x : ℚ) (pattern : ℕ) : Prop where
  closest (other : ℕ) : |units pattern - x| ≤ |units other - x|
  even (other : ℕ) (h : |units pattern - x| = |units other - x|) : other = pattern ∨ pattern % 2 = 0

variable {x : ℚ} {k p q : ℕ}

theorem abs_units_sub_of_le (hl : (units k : ℚ) ≤ x) (h : q ≤ k) :
    |(units q : ℚ) - x| = x - units q := by
  rw [abs_sub_comm, abs_of_nonneg (sub_nonneg.2 ((units_cast_le.2 h).trans hl))]

theorem abs_units_sub_of_ge (hu : x ≤ units k) (h : k ≤ q) : |(units q : ℚ) - x| = units q - x :=
  abs_of_nonneg (sub_nonneg.2 (hu.trans (units_cast_le.2 h)))

/-- One of two neighbours is nearest if the other one is not nearer. -/
theorem Nearest.of_neighbours (hl : (units k : ℚ) ≤ x) (hu : x ≤ units (k + 1))
    (hp : p = k ∧ 2 * x ≤ units k + units (k + 1) ∨ p = k + 1 ∧ units k + units (k + 1) ≤ 2 * x)
    (ht : 2 * x = units k + units (k + 1) → p % 2 = 0) : Nearest x p := by
  have hside (q : ℕ) :
      |(units q : ℚ) - x| = x - units q ∧ (units q : ℚ) ≤ units k ∨
        |(units q : ℚ) - x| = units q - x ∧ (units (k + 1) : ℚ) ≤ units q := by
    rcases Nat.lt_or_ge k q with h | h
    · exact .inr ⟨abs_units_sub_of_ge hu h, units_cast_le.2 h⟩
    · exact .inl ⟨abs_units_sub_of_le hl h, units_cast_le.2 h⟩
  have hstep := units_cast_lt.2 (Nat.lt_succ_self k)
  refine ⟨fun q => ?_, fun q hq => ?_⟩
  · rcases hp with ⟨rfl, hm⟩ | ⟨rfl, hm⟩
    · rcases hside q with ⟨hd, hq⟩ | ⟨hd, hq⟩ <;> rw [hd, abs_units_sub_of_le hl le_rfl] <;> linarith
    · rcases hside q with ⟨hd, hq⟩ | ⟨hd, hq⟩ <;> rw [hd, abs_units_sub_of_ge hu le_rfl] <;> linarith
  · rcases hp with ⟨rfl, hm⟩ | ⟨rfl, hm⟩
    · rw [abs_units_sub_of_le hl le_rfl] at hq
      rcases hside q with ⟨hd, hle⟩ | ⟨hd, hle⟩ <;> rw [hd] at hq
      · exact .inl (units_cast_inj.1 (by linarith))
      · exact .inr (ht (by linarith))
    · rw [abs_units_sub_of_ge hu le_rfl] at hq
      rcases hside q with ⟨hd, hle⟩ | ⟨hd, hle⟩ <;> rw [hd] at hq
      · exact .inr (ht (by linarith))
      · exact .inl (units_cast_inj.1 (by linarith))

namespace Nearest

/-- A nearest pattern is not beyond the middle between two neighbours. -/
theorem middle_of_le (h : Nearest x p) (hp : p ≤ k) :
    2 * x ≤ units k + units (k + 1) ∧ (2 * x = units k + units (k + 1) → k % 2 = 0) := by
  have hstep := units_cast_lt.2 (Nat.lt_succ_self k)
  have hle := units_cast_le.2 hp
  rcases lt_or_ge x (units k) with hx | hx
  · exact ⟨by linarith, fun he => by linarith⟩
  · have hc := h.closest (k + 1)
    have he := h.even (k + 1)
    rw [abs_units_sub_of_le hx hp] at hc he
    rcases le_or_gt x (units (k + 1)) with hx' | hx'
    · rw [abs_units_sub_of_ge hx' le_rfl] at hc he
      refine ⟨by linarith, fun hm => ?_⟩
      obtain rfl := units_cast_inj.1 (by linarith : (units p : ℚ) = units k)
      exact (he (by linarith)).resolve_left (Nat.succ_ne_self p)
    · rw [abs_units_sub_of_le hx'.le le_rfl] at hc
      linarith

theorem middle_of_gt (h : Nearest x p) (hp : k < p) :
    units k + units (k + 1) ≤ 2 * x ∧ (2 * x = units k + units (k + 1) → k % 2 = 1) := by
  have hstep := units_cast_lt.2 (Nat.lt_succ_self k)
  have hle := units_cast_le.2 (Nat.succ_le_of_lt hp)
  rcases lt_or_ge (units (k + 1) : ℚ) x with hx | hx
  · exact ⟨by linarith, fun he => by linarith⟩
  · have hc := h.closest k
    have he := h.even k
    rw [abs_units_sub_of_ge hx hp] at hc he
    rcases le_or_gt (units k : ℚ) x with hx' | hx'
    · rw [abs_units_sub_of_le hx' le_rfl] at hc he
      refine ⟨by linarith, fun hm => ?_⟩
      obtain rfl := units_cast_inj.1 (by linarith : (units p : ℚ) = units (k + 1))
      have := (he (by linarith)).resolve_left (Nat.succ_ne_self k).symm
      omega
    · rw [abs_units_sub_of_ge hx'.le le_rfl] at hc
      linarith

theorem le_iff_of_even (h : Nearest x p) (hk : k % 2 = 0) :
    p ≤ k ↔ 2 * x ≤ units k + units (k + 1) := by
  refine ⟨fun hp => (h.middle_of_le hp).1, fun hx => ?_⟩
  by_contra hp
  obtain ⟨hm, he⟩ := h.middle_of_gt (Nat.lt_of_not_le hp)
  have := he (le_antisymm hx hm)
  omega

theorem le_iff_of_odd (h : Nearest x p) (hk : k % 2 = 1) :
    p ≤ k ↔ 2 * x < units k + units (k + 1) := by
  constructor
  · intro hp
    obtain ⟨hm, he⟩ := h.middle_of_le hp
    refine lt_of_le_of_ne hm fun hx => ?_
    have := he hx
    omega
  · intro hx
    by_contra hp
    exact absurd (h.middle_of_gt (Nat.lt_of_not_le hp)).1 (not_le.2 hx)

end Nearest

/-- A quotient is rounded to one of the integers around it. -/
theorem roundHalfEven_cases (n : ℕ) (hd : 0 < d) :
    ∃ k, d * k ≤ n ∧ n < d * (k + 1) ∧
      (roundHalfEven n d = k ∧ 2 * n ≤ d * k + d * (k + 1) ∨
        roundHalfEven n d = k + 1 ∧ d * k + d * (k + 1) ≤ 2 * n) ∧
      (2 * n = d * k + d * (k + 1) → roundHalfEven n d % 2 = 0) := by
  have hn := Nat.div_add_mod n d
  have hr := Nat.mod_lt n hd
  refine ⟨n / d, by omega, by rw [Nat.mul_add_one]; omega, ?_⟩
  rw [Nat.mul_add_one]
  unfold roundHalfEven
  dsimp only
  split
  · exact ⟨.inl ⟨rfl, by omega⟩, fun _ => by omega⟩
  · split
    · exact ⟨.inr ⟨rfl, by omega⟩, fun _ => by omega⟩
    · refine ⟨?_, fun _ => by omega⟩
      rcases Nat.mod_two_eq_zero_or_one (n / d) with hk | hk <;> rw [hk]
      · exact .inl ⟨rfl, by omega⟩
      · exact .inr ⟨rfl, by omega⟩

/-- The shift leaves 53 digits of a ratio, or fewer where it is zero. -/
theorem shift_bounds (n : ℕ) (hd : 0 < d) :
    let shift := (n / d).log2 - 52
    (shift ≠ 0 → d * 2 ^ shift * 2 ^ 52 ≤ n) ∧ n < d * 2 ^ shift * 2 ^ 53 := by
  intro shift
  constructor
  · intro hs
    have hne : n / d ≠ 0 := by
      intro h
      simp [shift, h] at hs
    have hlog : shift + 52 = (n / d).log2 := by omega
    rw [Nat.mul_assoc, ← Nat.pow_add, hlog, Nat.mul_comm]
    exact (Nat.le_div_iff_mul_le hd).1 (Nat.log2_self_le hne)
  · have hlog : (n / d).log2 + 1 ≤ shift + 53 := by omega
    rw [Nat.mul_assoc, ← Nat.pow_add, Nat.mul_comm]
    exact (Nat.div_lt_iff_lt_mul hd).1
      (Nat.lt_log2_self.trans_le (Nat.pow_le_pow_right Nat.two_pos hlog))

/-- The pattern of a ratio is nearest to it. -/
theorem pattern_nearest (n : ℕ) {d : ℕ} (hd : 0 < d) : Nearest (n / d) (pattern n d) := by
  obtain ⟨hlow, hhigh⟩ := shift_bounds n hd
  unfold pattern
  dsimp only
  generalize (n / d).log2 - 52 = shift at hlow hhigh
  rw [Nat.shiftLeft_eq, Nat.shiftLeft_eq]
  have hpos : 0 < d * 2 ^ shift := Nat.mul_pos hd (Nat.two_pow_pos shift)
  obtain ⟨k, hl, hu, hm, ht⟩ := roundHalfEven_cases n hpos
  generalize roundHalfEven n (d * 2 ^ shift) = m at hm ht
  have hk : shift ≠ 0 → 2 ^ 52 ≤ k := fun hs =>
    Nat.lt_succ_iff.1 (Nat.lt_of_mul_lt_mul_left ((hlow hs).trans_lt hu))
  have hk' : k < 2 ^ 53 := Nat.lt_of_mul_lt_mul_left (hl.trans_lt hhigh)
  have hunits : (units (shift * 2 ^ 52 + k) : ℚ) = (d * 2 ^ shift * k : ℕ) / d := by
    rw [units_significand hk hk'.le]
    push_cast
    field_simp
  have hunits' : (units (shift * 2 ^ 52 + k + 1) : ℚ) = (d * 2 ^ shift * (k + 1) : ℕ) / d := by
    rw [Nat.add_assoc, units_significand (fun hs => (hk hs).trans (Nat.le_succ k)) hk']
    push_cast
    field_simp
  have hd' : (0 : ℚ) < d := Nat.cast_pos.2 hd
  refine .of_neighbours (k := shift * 2 ^ 52 + k) ?_ ?_ ?_ fun hx => ?_
  · rw [hunits]
    gcongr
  · rw [hunits']
    gcongr
  · rw [hunits, hunits', ← add_div, ← mul_div_assoc]
    refine hm.imp (fun ⟨hm, h⟩ => ⟨by rw [hm], ?_⟩) fun ⟨hm, h⟩ => ⟨by rw [hm, Nat.add_assoc], ?_⟩
    · gcongr
      exact_mod_cast h
    · gcongr
      exact_mod_cast h
  · rw [hunits, hunits', ← add_div, ← mul_div_assoc, div_left_inj' hd'.ne'] at hx
    have := ht (by exact_mod_cast hx)
    omega

/-- A number is an exact value rounded: a nearest one of the finite numbers, the even one of two
that are as near. From the middle between the greatest finite number and the next power of two on it
is infinity, and up to half of the least positive number it is zero. -/
structure Rounds (value : ℚ) (number : Binary64) : Prop where
  overflow (h : 2 ^ 1024 - 2 ^ 970 ≤ value) : number = infinity
  finite (h : value < 2 ^ 1024 - 2 ^ 970) : number.IsFinite
  closest (h : value < 2 ^ 1024 - 2 ^ 970) (other : Binary64) (ho : other.IsFinite) :
    |number.toRat - value| ≤ |other.toRat - value|
  even (h : value < 2 ^ 1024 - 2 ^ 970) (other : Binary64) (ho : other.IsFinite)
    (hd : |number.toRat - value| = |other.toRat - value|) :
    other = number ∨ number.bits.toNat % 2 = 0
  underflow (h : value ≤ 2 ^ (-1075 : ℤ)) : number = zero

theorem units_infinity : (units (infinityPattern - 1) : ℚ) + units (infinityPattern - 1 + 1) =
    2 * ((2 ^ 1024 - 2 ^ 970) * 2 ^ 1074) := by
  have hp : infinityPattern - 1 = 2045 * 2 ^ 52 + (2 ^ 53 - 1) := by decide
  have hlast : (2 : ℚ) ^ 2045 = 2 * 2 ^ 970 * 2 ^ 1074 := by
    rw [← pow_succ', ← pow_add]
  have htop : (2 : ℚ) ^ 1024 = 2 ^ 54 * 2 ^ 970 := by
    rw [← pow_add]
  rw [hp, Nat.add_assoc, units_significand (fun _ => by decide) (by decide),
    units_significand (fun _ => by decide) (by decide), Nat.cast_mul, Nat.cast_mul, Nat.cast_pow,
    Nat.cast_ofNat, hlast, htop]
  generalize (2 : ℚ) ^ 970 = a
  generalize (2 : ℚ) ^ 1074 = b
  norm_num
  ring

variable {number : Binary64} {value : ℚ}

theorem abs_toRat_sub (number : Binary64) (value : ℚ) :
    |number.toRat - value| =
      |units number.bits.toNat - value * 2 ^ 1074| * 2 ^ (-1074 : ℤ) := by
  have hpos : (0 : ℚ) < 2 ^ (-1074 : ℤ) := zpow_pos two_pos _
  have hunit : (2 : ℚ) ^ 1074 * 2 ^ (-1074 : ℤ) = 1 := by
    rw [← zpow_natCast, ← zpow_add₀ two_ne_zero]
    rfl
  rw [← abs_of_pos hpos, ← abs_mul, sub_mul, mul_assoc value, hunit, mul_one, ← toRat_eq_units]

theorem bits_ofNat_min (p : ℕ) :
    (UInt64.ofNat (min p infinityPattern)).toNat = min p infinityPattern := by
  refine UInt64.toNat_ofNat_of_lt' ((Nat.min_le_right ..).trans_lt ?_)
  decide

/-- Infinity starts where the numbers past the greatest finite one would be nearest. -/
theorem Nearest.lt_infinityPattern_iff (h : Nearest (value * 2 ^ 1074) p) :
    p < infinityPattern ↔ value < 2 ^ 1024 - 2 ^ 970 := by
  rw [Nat.lt_iff_le_pred (by decide), h.le_iff_of_odd (by decide), units_infinity]
  rw [mul_lt_mul_iff_right₀ two_pos, mul_lt_mul_iff_left₀ (pow_pos two_pos _)]

theorem Nearest.eq_zero (h : Nearest (value * 2 ^ 1074) p) (hv : value ≤ 2 ^ (-1075 : ℤ)) :
    p = 0 := by
  refine Nat.le_zero.1 ((h.le_iff_of_even rfl).2 ?_)
  have hone : (2 : ℚ) ^ (-1075 : ℤ) * 2 ^ 1075 = 1 := by
    rw [← zpow_natCast, ← zpow_add₀ two_ne_zero]
    rfl
  calc 2 * (value * 2 ^ 1074) = value * 2 ^ 1075 := by rw [mul_left_comm, ← pow_succ']
    _ ≤ 2 ^ (-1075 : ℤ) * 2 ^ 1075 := mul_le_mul_of_nonneg_right hv (pow_pos two_pos _).le
    _ = units 0 + units (0 + 1) := by
      rw [hone]
      norm_num [units]

/-- The pattern nearest to a value, or infinity if it is beyond that. -/
theorem Nearest.rounds (h : Nearest (value * 2 ^ 1074) p) :
    Rounds value ⟨UInt64.ofNat (min p infinityPattern)⟩ where
  overflow hv := by
    have hp : infinityPattern ≤ p :=
      Nat.le_of_not_lt fun hp => not_lt.2 hv (h.lt_infinityPattern_iff.1 hp)
    rw [Nat.min_eq_right hp]
    rfl
  finite hv := by
    have hp := h.lt_infinityPattern_iff.2 hv
    rw [IsFinite, bits_ofNat_min, Nat.min_eq_left hp.le]
    exact hp
  closest hv other ho := by
    have hp := h.lt_infinityPattern_iff.2 hv
    rw [abs_toRat_sub, abs_toRat_sub, bits_ofNat_min, Nat.min_eq_left hp.le]
    exact mul_le_mul_of_nonneg_right (h.closest _) (zpow_pos two_pos _).le
  even hv other ho hd := by
    have hp := h.lt_infinityPattern_iff.2 hv
    rw [abs_toRat_sub, abs_toRat_sub, bits_ofNat_min, Nat.min_eq_left hp.le,
      mul_left_inj' (zpow_pos two_pos _).ne'] at hd
    rw [bits_ofNat_min, Nat.min_eq_left hp.le]
    refine (h.even _ hd).imp_left fun he => ?_
    rw [← he, UInt64.ofNat_toNat]
  underflow hv := by
    rw [h.eq_zero hv]
    rfl

theorem cast_shiftLeft (n s : ℕ) : ((n <<< s : ℕ) : ℚ) = n * 2 ^ s := by
  rw [Nat.shiftLeft_eq, Nat.cast_mul, Nat.cast_pow, Nat.cast_ofNat]

theorem ofRatio_rounds (n : ℕ) {d : ℕ} (hd : 0 < d) : Rounds (n / d) (ofRatio n d) := by
  refine Nearest.rounds ?_
  have h := pattern_nearest (n <<< 1074) hd
  rwa [cast_shiftLeft, ← div_mul_eq_mul_div] at h

end Binary64

end FlowLint
