import Mathlib.Tactic.NormNum
import Reactor.Lib.Binary64

/-!
# Time stamps

`addTime` adds an interval in seconds to a time in microseconds. It does so with doubles: the
time, the interval in microseconds and their sum are rounded, and what is behind the point is cut
off. For the times of this century and intervals that are not too long nothing is lost; a time
near zero may come out a microsecond short, and one beyond `2 ^ 53` may miss by more.
-/

namespace Reactor

open Binary64

/-- `TimeStamp::kSecondsToMicroSeconds`. -/
def kSecondsToMicroSeconds : ℤ := 1000 * 1000

/-- A second has a million microseconds. -/
theorem kSecondsToMicroSeconds_eq : kSecondsToMicroSeconds = 10 ^ 6 := rfl

/-- `addTime`. The interval is a double. -/
def addTime (now : ℤ) (interval : ℚ) : ℤ :=
  toInt64 (nearest (nearest now + nearest (interval * kSecondsToMicroSeconds)))

/-- The double that stands for a number of microseconds, in seconds. -/
def inSeconds (microseconds : ℕ) : ℚ := nearest (microseconds / kSecondsToMicroSeconds)

/-- The number of microseconds that `addTime` gets back from that double. -/
def recovered (microseconds : ℕ) : ℚ := nearest (inSeconds microseconds * kSecondsToMicroSeconds)

/-- The roundings on the way to the sum do not show. Where the doubles have places behind the
point, the time and the recovered interval are together near the exact sum; where they have none,
the exact sum is the double that is nearest to them, and a time stamp. -/
def AddsExactly (now : ℤ) (microseconds : ℕ) : Prop :=
  let time := now + microseconds
  let sum := nearest now + recovered microseconds
  if time.natAbs < 2 ^ 52 then Near sum time else nearest sum = time ∧ time < 2 ^ 63

section

variable {now : ℤ} {n : ℕ}

/-- `addTime` is exact if and only if the roundings do not show. -/
theorem addTime_eq_iff (hnow : -2 ^ 63 ≤ now) :
    addTime now (inSeconds n) = now + n ↔ AddsExactly now n := by
  obtain ⟨sum, hsum⟩ : ∃ sum, sum = nearest now + recovered n := ⟨_, rfl⟩
  rw [addTime, ← recovered, AddsExactly, ← hsum]
  by_cases hsmall : (now + n).natAbs < 2 ^ 52
  · rw [if_pos hsmall, toInt64_eq_iff (by omega) (by omega), trunc_nearest_eq_iff hsmall]
  rw [if_neg hsmall, ← trunc_nearest_eq_iff_of_le (not_lt.mp hsmall), toInt64]
  split
  · next hrange => exact (and_iff_left_of_imp fun heq => heq ▸ hrange.2).symm
  · next hrange =>
    refine iff_of_false ?_ ?_
    · intro heq
      -- Only the least time itself could look like the result of a conversion out of range.
      have hnow : now = -2 ^ 63 := by omega
      have hn : n = 0 := by omega
      subst hnow hn
      have hleast : trunc (nearest sum) = -2 ^ 63 := by
        rw [hsum]
        decide +kernel
      exact hrange (by rw [hleast]; norm_num)
    · rintro ⟨heq, hlt⟩
      exact hrange (by omega)

/-- What the interval loses on the way. -/
theorem abs_recovered_sub_le (n : ℕ) : |recovered n - n| ≤ n * (1 / 2 ^ 52 + 1 / 2 ^ 106) := by
  have hscale : (kSecondsToMicroSeconds : ℚ) = 10 ^ 6 := by norm_num [kSecondsToMicroSeconds]
  have hseconds := abs_nearest_sub_le ((n : ℚ) / 10 ^ 6)
  have hmicro := abs_nearest_sub_le (nearest ((n : ℚ) / 10 ^ 6) * 10 ^ 6)
  have hnonneg : (0 : ℚ) ≤ n / 10 ^ 6 := by positivity
  have hround := nearest_nonneg hnonneg
  rw [abs_of_nonneg hnonneg, abs_le] at hseconds
  rw [abs_of_nonneg (mul_nonneg hround (by positivity)), abs_le] at hmicro
  rw [recovered, inSeconds, hscale, abs_le]
  constructor
  · linarith
  · linarith

/-- An interval that is not negative is recovered as such. -/
theorem recovered_nonneg (n : ℕ) : 0 ≤ recovered n := by
  refine nearest_nonneg (mul_nonneg (nearest_nonneg ?_) ?_)
  · exact div_nonneg n.cast_nonneg (by norm_num [kSecondsToMicroSeconds])
  · norm_num [kSecondsToMicroSeconds]

/-- Where the doubles have places behind the point the sum is that of the time itself and the
recovered interval. -/
theorem nearest_add_recovered (hnow : 0 ≤ now) (hlt : now + n < 2 ^ 52) :
    nearest now + recovered n = now + recovered n := by
  rw [nearest_intCast]
  rw [abs_of_nonneg hnow]
  omega

/-- Nothing is lost of an interval that is at most a quarter of the time. -/
theorem addsExactly_of_le (hquarter : 4 * n ≤ now) (hlt : now + n < 2 ^ 52) :
    AddsExactly now n := by
  have hsum := nearest_add_recovered (show 0 ≤ now by omega) hlt
  obtain ⟨m, rfl⟩ := Int.eq_ofNat_of_zero_le (show 0 ≤ now by omega)
  rw [Int.cast_natCast] at hsum
  have hbound := abs_recovered_sub_le n
  have hrecovered := recovered_nonneg n
  have hquarterQ : (4 : ℚ) * n ≤ m := by exact_mod_cast hquarter
  have hltQ : (m : ℚ) + n < 2 ^ 52 := by exact_mod_cast hlt
  have hn : (0 : ℚ) ≤ n := n.cast_nonneg
  have habs : |(m : ℚ) + recovered n| = m + recovered n := abs_of_nonneg (by positivity)
  have hslack := le_slack (m + n)
  have hslack' := slack_le (n := m + n + 1) (by omega)
  push_cast at hslack
  -- What is lost is at most one part in `2 ^ 54` of the sum.
  have herror : (n : ℚ) * (1 / 2 ^ 52 + 1 / 2 ^ 106) ≤ (m + n) / 2 ^ 54 := by linarith
  rw [abs_le] at hbound
  rw [AddsExactly, if_pos (by omega), Int.cast_natCast, hsum]
  refine ⟨fun _ => by omega, fun hnonpos => ?_, ?_, ?_⟩
  · have hm : (m : ℚ) = 0 := by linarith
    have hm' : m = 0 := by exact_mod_cast hm
    omega
  · rw [habs, ← Nat.cast_add, Int.natAbs_natCast, Nat.cast_add]
    linarith
  · rw [habs, ← Nat.cast_add, Int.natAbs_natCast, Nat.cast_add]
    linarith

/-- A microsecond short of the sum near zero, and exact where the interval is at most a quarter of
the time. -/
example : addTime 0 (inSeconds 249) = 248 ∧ addTime (10 ^ 15) (inSeconds 249) = 10 ^ 15 + 249 := by
  decide +kernel

end

end Reactor
