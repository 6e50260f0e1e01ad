import Mathlib.Algebra.Ring.Int.Parity
import Mathlib.Data.Int.Log
import Mathlib.Data.Rat.Floor
import Mathlib.Tactic.Linarith
import Mathlib.Tactic.Positivity

/-!
# Rounding to doubles

An operation on doubles gives the double that is nearest to the exact result, and of two that
are equally near the one with the even significand. The exponent is not bounded here, so this is
the arithmetic of doubles wherever it neither overflows nor comes near the smallest of them. A
double loses at most one part in `2 ^ 53`, keeps the integers below `2 ^ 53`, and keeps the
order.
-/

namespace Binary64

/-! ## The nearest integer -/

/-- The nearest integer, and of two the even one. -/
def roundEven (x : ℚ) : ℤ :=
  if Int.fract x < 1 / 2 ∨ Int.fract x = 1 / 2 ∧ Even ⌊x⌋ then ⌊x⌋ else ⌊x⌋ + 1

/-- The numbers that are rounded to `z` or above begin half way below it. -/
theorem le_roundEven_iff {z : ℤ} {x : ℚ} :
    z ≤ roundEven x ↔ (z : ℚ) - 1 / 2 < x ∨ x = z - 1 / 2 ∧ Even z := by
  have hsplit := Int.floor_add_fract x
  have hnonneg := Int.fract_nonneg x
  have hlt := Int.fract_lt_one x
  rcases lt_trichotomy z (⌊x⌋ + 1) with hz | rfl | hz
  · -- The integer part is rounded neither below itself.
    have hle : (z : ℚ) ≤ ⌊x⌋ := by exact_mod_cast Int.lt_add_one_iff.mp hz
    have hround : z ≤ roundEven x := by
      rw [roundEven]
      split
      · omega
      · omega
    exact iff_of_true hround (.inl (by linarith))
  · rw [roundEven]
    push_cast
    split
    · next hdown =>
      refine iff_of_false (by omega) ?_
      rintro (hup | ⟨htie, heven⟩)
      · rcases hdown with hdown | ⟨hdown, -⟩
        · linarith
        · linarith
      · rcases hdown with hdown | ⟨-, heven'⟩
        · linarith
        · exact (Int.even_add_one.mp heven) heven'
    · next hup =>
      rw [not_or, not_and, not_lt] at hup
      refine iff_of_true le_rfl ?_
      rcases hup.1.lt_or_eq with hgt | heq
      · exact .inl (by linarith)
      · exact .inr ⟨by linarith, Int.even_add_one.mpr (hup.2 heq.symm)⟩
  · have hge : (⌊x⌋ : ℚ) + 2 ≤ z := by exact_mod_cast (show ⌊x⌋ + 2 ≤ z by omega)
    have hround : roundEven x < z := by
      rw [roundEven]
      split
      · omega
      · omega
    refine iff_of_false hround.not_ge ?_
    rintro (hup | ⟨htie, -⟩)
    · linarith
    · linarith

/-- An integer stays as it is. -/
@[simp] theorem roundEven_intCast (z : ℤ) : roundEven z = z := by
  simp [roundEven]

/-- Rounding keeps the order. -/
theorem roundEven_mono {x y : ℚ} (h : x ≤ y) : roundEven x ≤ roundEven y := by
  rw [le_roundEven_iff]
  rcases le_roundEven_iff.mp (le_refl (roundEven x)) with hlt | ⟨heq, heven⟩
  · exact .inl (hlt.trans_le h)
  · rcases h.lt_or_eq with hlt | rfl
    · exact .inl (heq ▸ hlt)
    · exact .inr ⟨heq, heven⟩

/-- The numbers that are rounded to `z` or below end half way above it. -/
theorem roundEven_le_iff {z : ℤ} {x : ℚ} :
    roundEven x ≤ z ↔ x < (z : ℚ) + 1 / 2 ∨ x = z + 1 / 2 ∧ Even z := by
  rw [← not_lt, Int.lt_iff_add_one_le, le_roundEven_iff, not_or, not_and, Int.even_add_one, not_not,
    not_lt]
  push_cast
  constructor
  · rintro ⟨hle, heven⟩
    rcases hle.lt_or_eq with hlt | heq
    · exact .inl (by linarith)
    · exact .inr ⟨by linarith, heven (by linarith)⟩
  · rintro (hlt | ⟨heq, heven⟩)
    · exact ⟨by linarith, fun heq => by linarith⟩
    · exact ⟨by linarith, fun _ => heven⟩

/-- Ties are rounded to the even integer on both sides of zero. -/
theorem roundEven_neg (x : ℚ) : roundEven (-x) = -roundEven x := by
  have hiff : ∀ z, z ≤ roundEven (-x) ↔ z ≤ -roundEven x := by
    intro z
    rw [le_roundEven_iff, le_neg, roundEven_le_iff, even_neg]
    push_cast
    constructor
    · rintro (hlt | ⟨heq, heven⟩)
      · exact .inl (by linarith)
      · exact .inr ⟨by linarith, heven⟩
    · rintro (hlt | ⟨heq, heven⟩)
      · exact .inl (by linarith)
      · exact .inr ⟨by linarith, heven⟩
  exact le_antisymm ((hiff _).mp le_rfl) ((hiff _).mpr le_rfl)

/-- The error is at most one half. -/
theorem abs_roundEven_sub_le (x : ℚ) : |(roundEven x : ℚ) - x| ≤ 1 / 2 := by
  rw [abs_le]
  constructor
  · rcases roundEven_le_iff.mp (le_refl (roundEven x)) with hlt | ⟨heq, -⟩
    · linarith
    · linarith
  · rcases le_roundEven_iff.mp (le_refl (roundEven x)) with hlt | ⟨heq, -⟩
    · linarith
    · linarith

/-! ## The nearest double -/

/-- The distance between the doubles around `x`, which have 53 binary digits. -/
def ulp (x : ℚ) : ℚ := 2 ^ (Int.log 2 |x| - 52)

/-- The double that is nearest to `x`. -/
def nearest (x : ℚ) : ℚ := roundEven (x / ulp x) * ulp x

/-- Doubles are a positive distance apart. -/
theorem ulp_pos (x : ℚ) : 0 < ulp x := zpow_pos two_pos _

/-- Doubles are as far apart below zero as above. -/
@[simp] theorem ulp_neg (x : ℚ) : ulp (-x) = ulp x := by rw [ulp, ulp, abs_neg]

/-- Zero is a double. -/
@[simp] theorem nearest_zero : nearest 0 = 0 := by simp [nearest, roundEven]

/-- Rounding does not depend on the sign. -/
@[simp] theorem nearest_neg (x : ℚ) : nearest (-x) = -nearest x := by
  rw [nearest, nearest, ulp_neg, neg_div, roundEven_neg, Int.cast_neg, neg_mul]

/-- The doubles between two powers of two have one distance. -/
theorem ulp_of_mem {x : ℚ} {e : ℤ} (hle : 2 ^ e ≤ x) (hlt : x < 2 ^ (e + 1)) :
    ulp x = 2 ^ (e - 52) := by
  have hpos : 0 < x := (zpow_pos two_pos e).trans_le hle
  have hlow : e ≤ Int.log 2 x := (Int.zpow_le_iff_le_log one_lt_two hpos).mp (by exact_mod_cast hle)
  have hhigh : Int.log 2 x < e + 1 :=
    (Int.lt_zpow_iff_log_lt one_lt_two hpos).mp (by exact_mod_cast hlt)
  rw [ulp, abs_of_pos hpos, show Int.log 2 x = e by omega]

/-- The number lies between two powers of two. -/
theorem exists_zpow_le_lt {x : ℚ} (hx : 0 < x) : ∃ e : ℤ, 2 ^ e ≤ x ∧ x < 2 ^ (e + 1) :=
  ⟨Int.log 2 x, by exact_mod_cast Int.zpow_log_le_self one_lt_two hx,
    by exact_mod_cast Int.lt_zpow_succ_log_self one_lt_two x⟩

/-- Between two powers of two the numbers that are rounded to a multiple of the distance or
above begin half way below it. -/
theorem mul_ulp_le_nearest_iff {x : ℚ} {z : ℤ} :
    z * ulp x ≤ nearest x ↔ z * ulp x - ulp x / 2 < x ∨ x = z * ulp x - ulp x / 2 ∧ Even z := by
  have hpos := ulp_pos x
  rw [nearest, mul_le_mul_iff_left₀ hpos, Int.cast_le, le_roundEven_iff]
  refine or_congr ?_ (and_congr_left' ?_)
  · rw [lt_div_iff₀ hpos, sub_mul, one_div_mul_eq_div]
  · rw [div_eq_iff hpos.ne', sub_mul, one_div_mul_eq_div]

/-- A number is rounded to within the powers of two around it. -/
theorem zpow_le_nearest {x : ℚ} {e : ℤ} (hle : 2 ^ e ≤ x) (hlt : x < 2 ^ (e + 1)) :
    2 ^ e ≤ nearest x ∧ nearest x ≤ 2 ^ (e + 1) := by
  have hulp := ulp_of_mem hle hlt
  have hscale : ∀ n : ℕ, ((2 ^ n : ℤ) : ℚ) * ulp x = 2 ^ (n + e - 52) := by
    intro n
    rw [hulp, Int.cast_pow, Int.cast_ofNat, ← zpow_natCast, ← zpow_add₀ two_ne_zero,
      ← add_sub_assoc]
  have hpos := ulp_pos x
  have hlow := hscale 52
  have hhigh := hscale 53
  rw [show ((52 : ℕ) : ℤ) + e - 52 = e by norm_num] at hlow
  rw [show ((53 : ℕ) : ℤ) + e - 52 = e + 1 by push_cast; ring] at hhigh
  rw [← hlow, ← hhigh]
  constructor
  · rw [mul_ulp_le_nearest_iff, hlow]
    exact .inl (by linarith)
  · rw [nearest, mul_le_mul_iff_left₀ hpos, Int.cast_le, roundEven_le_iff, div_lt_iff₀ hpos,
      add_mul, hhigh]
    exact .inl (by linarith)

/-- Rounding does not change the sign. -/
theorem nearest_nonneg {x : ℚ} (hx : 0 ≤ x) : 0 ≤ nearest x := by
  rcases hx.lt_or_eq with hpos | rfl
  · obtain ⟨e, hle, hlt⟩ := exists_zpow_le_lt hpos
    exact (zpow_pos two_pos e).le.trans (zpow_le_nearest hle hlt).1
  · rw [nearest_zero]

/-- Rounding keeps the order of positive numbers. -/
theorem nearest_le_of_pos {x y : ℚ} (hx : 0 < x) (h : x ≤ y) : nearest x ≤ nearest y := by
  obtain ⟨e, hle, hlt⟩ := exists_zpow_le_lt hx
  obtain ⟨f, hle', hlt'⟩ := exists_zpow_le_lt (hx.trans_le h)
  have hef : e < f + 1 := (zpow_lt_zpow_iff_right₀ one_lt_two).mp ((hle.trans h).trans_lt hlt')
  rcases (Int.lt_add_one_iff.mp hef).lt_or_eq with hlt'' | rfl
  · -- A power of two lies between the two numbers, and so between what they are rounded to.
    calc nearest x ≤ 2 ^ (e + 1) := (zpow_le_nearest hle hlt).2
      _ ≤ 2 ^ f := zpow_le_zpow_right₀ one_le_two hlt''
      _ ≤ nearest y := (zpow_le_nearest hle' hlt').1
  · have hulp : ulp x = ulp y := (ulp_of_mem hle hlt).trans (ulp_of_mem hle' hlt').symm
    rw [nearest, nearest, hulp]
    have hround := roundEven_mono (div_le_div_of_nonneg_right h (ulp_pos y).le)
    exact mul_le_mul_of_nonneg_right (by exact_mod_cast hround) (ulp_pos y).le

/-- Rounding keeps the order. -/
theorem nearest_mono {x y : ℚ} (h : x ≤ y) : nearest x ≤ nearest y := by
  rcases lt_or_ge 0 x with hx | hx
  · exact nearest_le_of_pos hx h
  rcases lt_or_ge y 0 with hy | hy
  · have hneg := nearest_le_of_pos (neg_pos.mpr hy) (neg_le_neg h)
    rw [nearest_neg, nearest_neg] at hneg
    exact neg_le_neg_iff.mp hneg
  · have hnonpos := nearest_nonneg (neg_nonneg.mpr hx)
    rw [nearest_neg] at hnonpos
    exact (neg_nonneg.mp hnonpos).trans (nearest_nonneg hy)

/-- A multiple of a power of two with at most 53 binary digits is a double. -/
theorem nearest_eq_self {m e : ℤ} (h : |m| < 2 ^ 53) : nearest (m * 2 ^ e) = m * 2 ^ e := by
  rcases eq_or_ne m 0 with rfl | hm
  · simp
  obtain ⟨x, hx⟩ : ∃ x : ℚ, x = m * 2 ^ e := ⟨_, rfl⟩
  rw [← hx]
  have hpow : (0 : ℚ) < 2 ^ e := zpow_pos two_pos e
  have habs : |x| = |m| * 2 ^ e := by rw [hx, abs_mul, abs_of_pos hpow, Int.cast_abs]
  have hpos : 0 < |x| := by
    rw [habs]
    exact mul_pos (by exact_mod_cast abs_pos.mpr hm) hpow
  have hlt : |x| < 2 ^ (e + 53) := by
    rw [habs, add_comm, zpow_add₀ two_ne_zero]
    exact mul_lt_mul_of_pos_right (by exact_mod_cast h) hpow
  have hlog : Int.log 2 |x| < e + 53 :=
    (Int.lt_zpow_iff_log_lt one_lt_two hpos).mp (by exact_mod_cast hlt)
  obtain ⟨j, hj⟩ := Int.le.dest (show Int.log 2 |x| - 52 ≤ e by omega)
  have hmul : x = ((m * 2 ^ j : ℤ) : ℚ) * ulp x := by
    have hscale : (2 : ℚ) ^ e = 2 ^ j * ulp x := by
      rw [ulp, ← zpow_natCast, ← zpow_add₀ two_ne_zero, ← hj, add_comm]
    rw [Int.cast_mul, Int.cast_pow, Int.cast_ofNat, mul_assoc, ← hscale, hx]
  have hdiv : x / ulp x = ((m * 2 ^ j : ℤ) : ℚ) := by
    rw [div_eq_iff (ulp_pos x).ne']
    exact hmul
  rw [nearest, hdiv, roundEven_intCast]
  exact hmul.symm

/-- The integers below `2 ^ 53` are doubles. -/
theorem nearest_intCast {z : ℤ} (h : |z| < 2 ^ 53) : nearest z = z := by
  simpa using nearest_eq_self (e := 0) h

/-- The natural numbers below `2 ^ 53` are doubles. -/
theorem nearest_natCast {n : ℕ} (h : n < 2 ^ 53) : nearest n = n := by
  have hz : |(n : ℤ)| < 2 ^ 53 := by
    rw [Nat.abs_cast]
    exact_mod_cast h
  exact_mod_cast nearest_intCast hz

/-- The error is at most one part in `2 ^ 53`. -/
theorem abs_nearest_sub_le (x : ℚ) : |nearest x - x| ≤ |x| / 2 ^ 53 := by
  rcases eq_or_ne x 0 with rfl | hx
  · simp
  have hpos := ulp_pos x
  have hround := abs_roundEven_sub_le (x / ulp x)
  have herror : nearest x - x = ((roundEven (x / ulp x) : ℚ) - x / ulp x) * ulp x := by
    rw [sub_mul, div_mul_cancel₀ _ hpos.ne', nearest]
  have hulp : ulp x = 2 ^ Int.log 2 |x| / 2 ^ 52 := by
    rw [ulp, zpow_sub₀ two_ne_zero]
    norm_num
  have hlog : (2 : ℚ) ^ Int.log 2 |x| ≤ |x| := by
    exact_mod_cast Int.zpow_log_le_self one_lt_two (abs_pos.mpr hx)
  calc |nearest x - x| = |(roundEven (x / ulp x) : ℚ) - x / ulp x| * ulp x := by
        rw [herror, abs_mul, abs_of_pos hpos]
    _ ≤ 1 / 2 * ulp x := mul_le_mul_of_nonneg_right hround hpos.le
    _ ≤ |x| / 2 ^ 53 := by
        rw [hulp]
        linarith

/-! ## The integer part -/

/-- Half the distance from a number to the double below it. -/
def slack (n : ℕ) : ℚ := 2 ^ ((Nat.clog 2 n : ℤ) - 54)

/-- Some slack is left below every number. -/
theorem slack_pos (n : ℕ) : 0 < slack n := zpow_pos two_pos _

/-- The doubles below a number are at most one part in `2 ^ 53` of it apart, and not much less. -/
theorem le_slack (n : ℕ) : (n : ℚ) / 2 ^ 54 ≤ slack n := by
  have hpow : (n : ℚ) ≤ 2 ^ Nat.clog 2 n := by exact_mod_cast Nat.le_pow_clog one_lt_two n
  rw [slack, zpow_sub₀ two_ne_zero, zpow_natCast]
  exact div_le_div_of_nonneg_right hpow (by positivity)

/-- Up to `2 ^ 52` the doubles have places behind the point. -/
theorem slack_le {n : ℕ} (hn : n ≤ 2 ^ 52) : slack n ≤ 1 / 4 := by
  have hclog : (Nat.clog 2 n : ℤ) ≤ 52 := by exact_mod_cast Nat.clog_le_of_le_pow hn
  calc slack n ≤ 2 ^ (-2 : ℤ) := zpow_le_zpow_right₀ one_le_two (by omega)
    _ = 1 / 4 := by norm_num

/-- A number is an even multiple of the distance of the doubles below it. -/
theorem exists_eq_mul_slack {n : ℕ} (hpos : 0 < n) (hn : n ≤ 2 ^ 52) :
    ∃ e k : ℤ, (2 : ℚ) ^ (e - 1) < n ∧ (n : ℚ) ≤ 2 ^ e ∧ slack n = 2 ^ (e - 53) / 2 ∧ Even k ∧
      (n : ℚ) = k * 2 ^ (e - 53) := by
  have hsmall : Nat.clog 2 n ≤ 52 := Nat.clog_le_of_le_pow hn
  obtain ⟨d, hd⟩ := Nat.le.dest hsmall
  have hposQ : (0 : ℚ) < n := by exact_mod_cast hpos
  refine ⟨Nat.clog 2 n, n * 2 ^ (d + 1), ?_, ?_, ?_, ?_, ?_⟩
  · have hclog := Int.zpow_pred_clog_lt_self one_lt_two hposQ
    rw [Int.clog_natCast] at hclog
    exact_mod_cast hclog
  · rw [zpow_natCast]
    exact_mod_cast Nat.le_pow_clog one_lt_two n
  · rw [slack, show (Nat.clog 2 n : ℤ) - 54 = (Nat.clog 2 n - 53) - 1 by ring,
      zpow_sub_one₀ two_ne_zero]
    rfl
  · exact (Int.even_pow.mpr ⟨even_two, by omega⟩).mul_left _
  · have hone : (2 : ℚ) ^ (d + 1) * 2 ^ ((Nat.clog 2 n : ℤ) - 53) = 1 := by
      rw [← zpow_natCast, ← zpow_add₀ two_ne_zero]
      rw [show ((d + 1 : ℕ) : ℤ) + (Nat.clog 2 n - 53) = 0 by push_cast; omega, zpow_zero]
    rw [Int.cast_mul, Int.cast_pow, Int.cast_ofNat, mul_assoc, hone, mul_one, Int.cast_natCast]

/-- A multiple of the distance that is above the power of two is that distance away from it. -/
theorem zpow_add_le {e k : ℤ} (h : (2 : ℚ) ^ (e - 1) < k * 2 ^ (e - 53)) :
    (2 : ℚ) ^ (e - 1) + 2 ^ (e - 53) ≤ k * 2 ^ (e - 53) := by
  have hpos : (0 : ℚ) < 2 ^ (e - 53) := zpow_pos two_pos _
  have hbase : (2 : ℚ) ^ (e - 1) = ((2 ^ 52 : ℤ) : ℚ) * 2 ^ (e - 53) := by
    rw [Int.cast_pow, Int.cast_ofNat, ← zpow_natCast, ← zpow_add₀ two_ne_zero]
    rw [show ((52 : ℕ) : ℤ) + (e - 53) = e - 1 by push_cast; ring]
  rw [hbase, mul_lt_mul_iff_left₀ hpos, Int.cast_lt] at h
  have hstep : ((2 ^ 52 : ℤ) : ℚ) + 1 ≤ k := by exact_mod_cast Int.add_one_le_iff.mpr h
  calc (2 : ℚ) ^ (e - 1) + 2 ^ (e - 53) = (((2 ^ 52 : ℤ) : ℚ) + 1) * 2 ^ (e - 53) := by
        rw [add_mul, one_mul, hbase]
    _ ≤ k * 2 ^ (e - 53) := mul_le_mul_of_nonneg_right hstep hpos.le

/-- The numbers that are rounded to `n` or above begin half way below it, also where it is a
power of two. -/
theorem natCast_le_nearest_iff {n : ℕ} (hn : n ≤ 2 ^ 52) {x : ℚ} (hx : 0 ≤ x) :
    (n : ℚ) ≤ nearest x ↔ n - slack n ≤ x := by
  have hslack := slack_pos n
  rcases Nat.eq_zero_or_pos n with rfl | hpos
  · rw [Nat.cast_zero, zero_sub]
    exact iff_of_true (nearest_nonneg hx) (by linarith)
  obtain ⟨e, k, hlower, hupper, hslack_eq, heven, hmultiple⟩ := exists_eq_mul_slack hpos hn
  rcases le_or_gt (n : ℚ) x with hle | hlt
  · refine iff_of_true ?_ (by linarith)
    calc (n : ℚ) = nearest n := (nearest_natCast (by omega)).symm
      _ ≤ nearest x := nearest_mono hle
  rcases lt_or_ge x (2 ^ (e - 1)) with hbelow | habove
  · -- The power of two is a double, and there is another one between it and `n`, or `n` itself.
    have hpow := nearest_eq_self (m := 1) (e := e - 1) (by norm_num)
    rw [Int.cast_one, one_mul] at hpow
    have hround : nearest x < n := ((nearest_mono hbelow.le).trans_eq hpow).trans_lt hlower
    have hprev := zpow_add_le (hlower.trans_eq hmultiple)
    rw [← hmultiple] at hprev
    refine iff_of_false hround.not_ge ?_
    rw [not_le]
    linarith
  · have hulp : ulp x = 2 ^ (e - 53) := by
      rw [ulp_of_mem habove (by rw [sub_add_cancel]; exact hlt.trans_le hupper)]
      congr 1
      ring
    rw [hslack_eq, ← hulp]
    rw [← hulp] at hmultiple
    rw [hmultiple, mul_ulp_le_nearest_iff, le_iff_lt_or_eq, eq_comm (a := x), and_iff_left heven]

/-- What is rounded to a number with the integer part `n`. -/
theorem floor_nearest_eq_iff {n : ℕ} (hn : n < 2 ^ 52) {x : ℚ} (hx : 0 ≤ x) :
    ⌊nearest x⌋ = n ↔ n - slack n ≤ x ∧ x < n + 1 - slack (n + 1) := by
  have hlow := natCast_le_nearest_iff hn.le hx
  have hhigh := natCast_le_nearest_iff (n := n + 1) hn hx
  push_cast at hhigh
  rw [Int.floor_eq_iff, Int.cast_natCast, hlow, ← not_le, hhigh, not_le]

/-- The integer part, as a conversion to an integer gives it. -/
def trunc (x : ℚ) : ℤ := if 0 ≤ x then ⌊x⌋ else ⌈x⌉

/-- An integer has nothing behind the point. -/
@[simp] theorem trunc_intCast (z : ℤ) : trunc z = z := by simp [trunc]

/-- From zero on, truncation is the floor. -/
theorem trunc_of_nonneg {x : ℚ} (hx : 0 ≤ x) : trunc x = ⌊x⌋ := if_pos hx

/-- Truncation does not depend on the sign. -/
theorem trunc_neg (x : ℚ) : trunc (-x) = -trunc x := by
  rcases lt_trichotomy x 0 with hx | rfl | hx
  · rw [trunc, trunc, if_pos (by linarith), if_neg hx.not_ge, Int.floor_neg]
  · simp [trunc]
  · rw [trunc, trunc, if_neg (by linarith), if_pos hx.le, Int.ceil_neg]

/-- The number is on the side of `z` and not so far from it that it would be rounded below `z`
or to the next integer. -/
structure Near (x : ℚ) (z : ℤ) : Prop where
  nonneg : 0 ≤ x → 0 ≤ z
  nonpos : x ≤ 0 → z ≤ 0
  lower : z.natAbs - slack z.natAbs ≤ |x|
  upper : |x| < z.natAbs + 1 - slack (z.natAbs + 1)

/-- Nearness does not depend on the sign. -/
theorem Near.neg {x : ℚ} {z : ℤ} (h : Near x z) : Near (-x) (-z) where
  nonneg hx := neg_nonneg.mpr (h.nonpos (neg_nonneg.mp hx))
  nonpos hx := neg_nonpos.mpr (h.nonneg (neg_nonpos.mp hx))
  lower := by
    rw [Int.natAbs_neg, abs_neg]
    exact h.lower
  upper := by
    rw [Int.natAbs_neg, abs_neg]
    exact h.upper

/-- The numbers that are rounded to a double with a given integer part. -/
theorem trunc_nearest_eq_iff {x : ℚ} {z : ℤ} (hz : z.natAbs < 2 ^ 52) :
    trunc (nearest x) = z ↔ Near x z := by
  have hiff : ∀ (x : ℚ) (z : ℤ), 0 ≤ x → z.natAbs < 2 ^ 52 →
      (trunc (nearest x) = z ↔ Near x z) := by
    intro x z hx hz
    have hround := nearest_nonneg hx
    rw [trunc_of_nonneg hround]
    constructor
    · intro hfloor
      have hnonneg : 0 ≤ z := hfloor ▸ Int.floor_nonneg.mpr hround
      obtain ⟨n, rfl⟩ := Int.eq_ofNat_of_zero_le hnonneg
      obtain ⟨hlower, hupper⟩ := (floor_nearest_eq_iff hz hx).mp hfloor
      refine ⟨fun _ => hnonneg, fun hx' => ?_, ?_, ?_⟩
      · rw [le_antisymm hx' hx, nearest_zero, Int.floor_zero] at hfloor
        exact hfloor.symm.le
      · rwa [abs_of_nonneg hx]
      · rwa [abs_of_nonneg hx]
    · intro h
      obtain ⟨n, rfl⟩ := Int.eq_ofNat_of_zero_le (h.nonneg hx)
      have hlower := h.lower
      have hupper := h.upper
      rw [abs_of_nonneg hx] at hlower hupper
      exact (floor_nearest_eq_iff hz hx).mpr ⟨hlower, hupper⟩
  rcases le_total 0 x with hx | hx
  · exact hiff x z hx hz
  · have hneg := hiff (-x) (-z) (neg_nonneg.mpr hx) (by rwa [Int.natAbs_neg])
    rw [nearest_neg, trunc_neg, neg_inj] at hneg
    rw [hneg]
    exact ⟨fun h => by simpa using h.neg, Near.neg⟩

/-- A double from `2 ^ 52` on is an integer. -/
theorem exists_eq_intCast {x : ℚ} (hx : 0 ≤ x) (hge : 2 ^ 52 ≤ nearest x) :
    ∃ m : ℤ, nearest x = m := by
  have hpos : 0 < x := by
    rcases hx.lt_or_eq with hpos | rfl
    · exact hpos
    · rw [nearest_zero] at hge
      norm_num at hge
  obtain ⟨e, hle, hlt⟩ := exists_zpow_le_lt hpos
  rcases le_or_gt 52 e with he | he
  · obtain ⟨j, rfl⟩ := Int.le.dest he
    refine ⟨roundEven (x / ulp x) * 2 ^ j, ?_⟩
    rw [nearest, ulp_of_mem hle hlt, add_sub_cancel_left, zpow_natCast]
    push_cast
    rfl
  · -- The number is below `2 ^ 52` and rounded up to it.
    refine ⟨2 ^ 52, ?_⟩
    have hpow : (2 : ℚ) ^ (e + 1) ≤ 2 ^ (52 : ℤ) := zpow_le_zpow_right₀ one_le_two he
    push_cast
    exact le_antisymm ((zpow_le_nearest hle hlt).2.trans (by exact_mod_cast hpow)) hge

/-- From `2 ^ 52` on truncation does nothing. -/
theorem trunc_nearest_eq_iff_of_le {x : ℚ} {z : ℤ} (hz : 2 ^ 52 ≤ z.natAbs) :
    trunc (nearest x) = z ↔ nearest x = z := by
  have hint : ∀ (x : ℚ) (z : ℤ), 0 ≤ x → 2 ^ 52 ≤ z.natAbs → trunc (nearest x) = z →
      nearest x = z := by
    intro x z hx hz htrunc
    have hround := nearest_nonneg hx
    rw [trunc_of_nonneg hround] at htrunc
    have hnonneg : 0 ≤ z := htrunc ▸ Int.floor_nonneg.mpr hround
    have hlarge : (2 : ℤ) ^ 52 ≤ z := by omega
    have hge : (2 : ℚ) ^ 52 ≤ nearest x := by
      have hfloor : (z : ℚ) ≤ nearest x := htrunc ▸ Int.floor_le _
      exact le_trans (by exact_mod_cast hlarge) hfloor
    obtain ⟨m, hm⟩ := exists_eq_intCast hx hge
    rw [hm, Int.floor_intCast] at htrunc
    rw [hm, htrunc]
  constructor
  · intro htrunc
    rcases le_total 0 x with hx | hx
    · exact hint x z hx hz htrunc
    · have hneg := hint (-x) (-z) (neg_nonneg.mpr hx) (by rwa [Int.natAbs_neg])
      rw [nearest_neg, trunc_neg, neg_inj, Int.cast_neg, neg_inj] at hneg
      exact hneg htrunc
  · intro hround
    rw [hround, trunc_intCast]

/-- The conversion to `int64_t`. Out of its range it is undefined, and x86-64 gives the least
value. -/
def toInt64 (x : ℚ) : ℤ :=
  if -2 ^ 63 ≤ trunc x ∧ trunc x < 2 ^ 63 then trunc x else -2 ^ 63

/-- In the range it is the integer part. -/
theorem toInt64_eq_iff {x : ℚ} {z : ℤ} (hlow : -2 ^ 63 < z) (hhigh : z < 2 ^ 63) :
    toInt64 x = z ↔ trunc x = z := by
  rw [toInt64]
  split
  · rfl
  · omega

end Binary64
