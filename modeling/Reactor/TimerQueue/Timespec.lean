import Reactor.Machine
import Reactor.TimerQueue.Basic

/-!
# The time of the alarm as a `timespec`

`detail::resetTimer` splits a timestamp into seconds and nanoseconds, but keeps the seconds in
an `int`. The alarm is set for the time of the timer as long as its seconds fit.
-/

namespace Reactor

/-- `struct timespec`. -/
structure Timespec where
  tvSec : ℤ
  tvNsec : ℤ
  deriving DecidableEq, Repr

namespace Timespec

/-- The microseconds since the epoch. -/
def microSeconds (spec : Timespec) : ℤ := spec.tvSec * kSecondsToMicroSeconds + spec.tvNsec / 1000

/-- The nanoseconds are less than a second. -/
def Valid (spec : Timespec) : Prop := 0 ≤ spec.tvNsec ∧ spec.tvNsec < 10 ^ 9

/-- The order of instants. -/
def Before (spec spec' : Timespec) : Prop :=
  spec.tvSec < spec'.tvSec ∨ spec.tvSec = spec'.tvSec ∧ spec.tvNsec < spec'.tvNsec

instance (spec : Timespec) : Decidable spec.Valid := inferInstanceAs (Decidable (_ ∧ _))

end Timespec

/-- `detail::resetTimer`. -/
def resetTimer (microseconds : ℤ) : Timespec :=
  let seconds := toInt (microseconds.tdiv kSecondsToMicroSeconds)
  let nanoseconds := microseconds.tmod kSecondsToMicroSeconds * 1000
  { tvSec := seconds, tvNsec := nanoseconds }

/-- `timerfd_settime` with an absolute time, which must not be negative. A zero time disarms
the descriptor. -/
def Alarm.settime (alarm : Alarm) (spec : Timespec) : Alarm :=
  if 0 ≤ spec.tvSec ∧ spec.Valid then
    if spec.tvSec = 0 ∧ spec.tvNsec = 0 then .disarmed else .armed spec.microSeconds
  else alarm

/-- A positive timestamp of 64 bits. -/
abbrev PositiveTimestamp := { time : ℤ // 0 < time ∧ time < 2 ^ 63 }

/-- The `timespec` is well formed and stands for the timestamp, and those of earlier timers
are before it. -/
structure ProgramsExactly (time : PositiveTimestamp) : Prop where
  valid : (resetTimer time).Valid
  time_eq : (resetTimer time).microSeconds = time
  ordered : ∀ earlier : PositiveTimestamp, earlier.1 < time.1 →
    (resetTimer earlier).Before (resetTimer time)

/-- Seconds that fit an `int` are kept. -/
theorem resetTimer_eq {time : ℤ} (hnonneg : 0 ≤ time) (hlt : time < 2 ^ 31 * 10 ^ 6) :
    resetTimer time = ⟨time / 10 ^ 6, time % 10 ^ 6 * 1000⟩ := by
  obtain ⟨n, rfl⟩ := Int.eq_ofNat_of_zero_le hnonneg
  have hsec : ((n : ℤ).tdiv kSecondsToMicroSeconds) = (n / 10 ^ 6 : ℕ) := rfl
  rw [resetTimer, hsec, toInt_of_lt (by omega)]
  rfl

/-- A time that is not negative is programmed with a valid `timespec`. -/
theorem resetTimer_valid {time : ℤ} (hnonneg : 0 ≤ time) : (resetTimer time).Valid := by
  have hmod := Int.tmod_eq_emod_of_nonneg hnonneg (b := kSecondsToMicroSeconds)
  rw [Timespec.Valid, resetTimer, hmod, kSecondsToMicroSeconds_eq]
  dsimp only
  constructor
  · omega
  · omega

/-- The remainder is exact, so that the time is right exactly if the seconds are. -/
theorem microSeconds_resetTimer {time : ℤ} (hnonneg : 0 ≤ time) :
    (resetTimer time).microSeconds = time ↔ toInt (time / 10 ^ 6) = time / 10 ^ 6 := by
  have hdiv := Int.tdiv_eq_ediv_of_nonneg hnonneg (b := kSecondsToMicroSeconds)
  have hmod := Int.tmod_eq_emod_of_nonneg hnonneg (b := kSecondsToMicroSeconds)
  rw [Timespec.microSeconds, resetTimer, hdiv, hmod, kSecondsToMicroSeconds_eq]
  dsimp only
  omega

/-- The alarm is programmed for the time of a timer exactly if the seconds fit an `int`. -/
theorem programsExactly_iff (time : PositiveTimestamp) :
    ProgramsExactly time ↔ time.1 < 2 ^ 31 * 10 ^ 6 := by
  obtain ⟨time, hpos, hlt⟩ := time
  constructor
  · intro h
    have hsec := (microSeconds_resetTimer hpos.le).mp h.time_eq
    have hint := toInt_lt (time / 10 ^ 6)
    dsimp only
    omega
  · intro hfits
    have heq : ∀ t : ℤ, 0 < t → t ≤ time → resetTimer t = ⟨t / 10 ^ 6, t % 10 ^ 6 * 1000⟩ :=
      fun t ht hle => resetTimer_eq ht.le (hle.trans_lt hfits)
    refine ⟨resetTimer_valid hpos.le, ?_, ?_⟩
    · rw [heq time hpos (le_refl _), Timespec.microSeconds, kSecondsToMicroSeconds_eq]
      dsimp only
      omega
    · rintro ⟨earlier, hpos', hlt'⟩ hearlier
      change earlier < time at hearlier
      dsimp only
      rw [heq time hpos (le_refl _), heq earlier hpos' hearlier.le, Timespec.Before]
      dsimp only
      omega

/-- The first second that does not fit. -/
theorem not_programsExactly : ¬ ProgramsExactly ⟨2147483648000000, by decide⟩ := by
  intro h
  have heq := h.time_eq
  revert heq
  decide +kernel

/-- For such times the alarm of the queue is the one that is programmed. -/
theorem settime_resetTimer {time : ℤ} (hnonneg : 0 ≤ time) (hlt : time < 2 ^ 31 * 10 ^ 6)
    (alarm : Alarm) : alarm.settime (resetTimer time) = alarm.setTimer time := by
  have hvalid := resetTimer_valid hnonneg
  rw [resetTimer_eq hnonneg hlt] at hvalid ⊢
  have hsec : 0 ≤ time / 10 ^ 6 := by omega
  rw [Alarm.settime, if_pos ⟨hsec, hvalid⟩, Alarm.setTimer, if_neg hnonneg.not_gt,
    Timespec.microSeconds, kSecondsToMicroSeconds_eq]
  dsimp only
  by_cases hzero : time = 0
  · rw [if_pos hzero, if_pos (by omega)]
  · rw [if_neg hzero, if_neg (by omega)]
    congr 1
    omega

end Reactor
