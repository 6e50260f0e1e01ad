import Reactor.Lib.Calendar
import Reactor.Logging.Numeral

/-!
# Formatted numbers and times

The conversions that the program uses with `snprintf`. A calendar time is printed with two
digits for each of its fields but the year, so that the text determines the time.
-/

namespace Reactor

open Calendar

/-- What `snprintf` stores in front of the zero in a buffer of `size` bytes. -/
def snprintf (size : ℕ) (text : List UInt8) : List UInt8 := text.take (size - 1)

/-- The sign that is printed. -/
def signOf (val : ℤ) : List UInt8 := if val < 0 then ['-'.toUInt8] else []

/-- `%0<width>d`. -/
def zeroPadded (width : ℕ) (val : ℤ) : List UInt8 :=
  signOf val ++
    List.replicate (width - (signOf val).length - (digitsOf val.natAbs).length) '0'.toUInt8 ++
    digitsOf val.natAbs

/-- `%<width>d`. -/
def spacePadded (width : ℕ) (val : ℤ) : List UInt8 :=
  List.replicate (width - (numeral val).length) ' '.toUInt8 ++ numeral val

/-- The calendar time that is printed behind the year. -/
def dayAndTime (tm : Tm) : List UInt8 :=
  zeroPadded 2 (tm.tmMon + 1) ++ zeroPadded 2 tm.tmMday ++ ['-'.toUInt8] ++
    zeroPadded 2 tm.tmHour ++ [':'.toUInt8] ++ zeroPadded 2 tm.tmMin ++ [':'.toUInt8] ++
    zeroPadded 2 tm.tmSec

section

variable {val val' : ℤ}

/-- Two digits stand for a number below 100. -/
theorem zeroPadded_two (hnonneg : 0 ≤ val) (hlt : val < 100) :
    (zeroPadded 2 val).length = 2 ∧ parseDigits (zeroPadded 2 val) = some val.natAbs := by
  have hall : ∀ n < 100, (zeroPadded 2 (n : ℕ)).length = 2 ∧
      parseDigits (zeroPadded 2 (n : ℕ)) = some n := by decide +kernel
  obtain ⟨n, rfl⟩ := Int.eq_ofNat_of_zero_le hnonneg
  exact hall n (by omega)

/-- Two digits determine the number. -/
theorem zeroPadded_two_inj (h : 0 ≤ val ∧ val < 100) (h' : 0 ≤ val' ∧ val' < 100)
    (heq : zeroPadded 2 val = zeroPadded 2 val') : val = val' := by
  have hparse := (zeroPadded_two h.1 h.2).2
  rw [heq, (zeroPadded_two h'.1 h'.2).2] at hparse
  have := Option.some.inj hparse
  omega

/-- Two digits at the end can be told from what is before them. -/
theorem append_zeroPadded_inj {front front' : List UInt8} (h : 0 ≤ val ∧ val < 100)
    (h' : 0 ≤ val' ∧ val' < 100) (heq : front ++ zeroPadded 2 val = front' ++ zeroPadded 2 val') :
    front = front' ∧ val = val' := by
  have hlen : (zeroPadded 2 val).length = (zeroPadded 2 val').length := by
    rw [(zeroPadded_two h.1 h.2).1, (zeroPadded_two h'.1 h'.2).1]
  obtain ⟨hfront, hval⟩ := List.append_inj' heq hlen
  exact ⟨hfront, zeroPadded_two_inj h h' hval⟩

/-- Different numbers have different numerals. -/
theorem numeral_injective : Function.Injective numeral := by
  intro val val' h
  have hparse := parse_numeral val
  rw [h, parse_numeral] at hparse
  exact (Option.some.inj hparse).symm

/-- A numeral is made of digits and the sign. -/
theorem notMem_numeral {c : UInt8} (hdigit : c ∉ digits) (hsign : c ≠ '-'.toUInt8) (val : ℤ) :
    c ∉ numeral val := by
  intro hmem
  rcases List.mem_append.mp hmem with hmem | hmem
  · split at hmem
    · exact hsign (List.mem_singleton.mp hmem)
    · cases hmem
  · exact hdigit (mem_digits_of_mem_digitsOf _ _ hmem)

/-- A padded number consists of digits and a sign. -/
theorem notMem_zeroPadded {c : UInt8} (hdigit : c ∉ digits) (hsign : c ≠ '-'.toUInt8) (width : ℕ)
    (val : ℤ) : c ∉ zeroPadded width val := by
  intro hmem
  rcases List.mem_append.mp hmem with hmem | hmem
  · rcases List.mem_append.mp hmem with hmem | hmem
    · exact notMem_numeral hdigit hsign val (List.mem_append_left _ hmem)
    · rw [(List.mem_replicate.mp hmem).2] at hdigit
      exact hdigit (by decide)
  · exact hdigit (mem_digits_of_mem_digitsOf _ _ hmem)

/-- The number is behind the spaces. -/
theorem dropWhile_spacePadded (width : ℕ) (val : ℤ) :
    (spacePadded width val).dropWhile (· = ' '.toUInt8) = numeral val := by
  rw [spacePadded, List.dropWhile_append_of_pos]
  · cases hnum : numeral val with
    | nil => rfl
    | cons c text =>
      have hne : c ≠ ' '.toUInt8 := by
        rintro rfl
        exact notMem_numeral (c := ' '.toUInt8) (by decide) (by decide) val (by simp [hnum])
      rw [List.dropWhile_cons_of_neg (by simpa using hne)]
  · intro c hc
    simpa using (List.mem_replicate.mp hc).2

/-- Padding with spaces loses nothing. -/
theorem spacePadded_injective (width : ℕ) : Function.Injective (spacePadded width) := by
  intro val val' h
  have hdrop := congrArg (List.dropWhile (· = ' '.toUInt8)) h
  rw [dropWhile_spacePadded, dropWhile_spacePadded] at hdrop
  exact numeral_injective hdrop

/-- A numeral has at most one character more than its digits, the sign. -/
theorem length_numeral_le {k : ℕ} (hk : 0 < k) (h : val.natAbs < 10 ^ k) :
    (numeral val).length ≤ k + 1 := by
  have hlen := (Nat.length_toDigits_le_iff (by decide : 1 < 10) hk).mpr h
  rw [numeral, List.length_append, List.length_map]
  split
  · rw [List.length_singleton]
    omega
  · rw [List.length_nil]
    omega

end

section

variable {tm tm' : Tm}

/-- The day and the time of day have 13 bytes. -/
theorem length_dayAndTime (h : tm.Regular) : (dayAndTime tm).length = 13 := by
  obtain ⟨hmon, hmday, hhour, hmin, hsec⟩ := h
  simp only [dayAndTime, List.length_append, List.length_singleton,
    (zeroPadded_two (show 0 ≤ tm.tmMon + 1 by omega) (by omega)).1,
    (zeroPadded_two (show 0 ≤ tm.tmMday by omega) (by omega)).1,
    (zeroPadded_two hhour.1 (by omega)).1, (zeroPadded_two hmin.1 (by omega)).1,
    (zeroPadded_two hsec.1 (by omega)).1]

/-- The text behind the year determines the day and the time. -/
theorem dayAndTime_inj (h : tm.Regular) (h' : tm'.Regular) (heq : dayAndTime tm = dayAndTime tm') :
    tm.tmMon = tm'.tmMon ∧ tm.tmMday = tm'.tmMday ∧ tm.tmHour = tm'.tmHour ∧
      tm.tmMin = tm'.tmMin ∧ tm.tmSec = tm'.tmSec := by
  obtain ⟨hmon, hmday, hhour, hmin, hsec⟩ := h
  obtain ⟨hmon', hmday', hhour', hmin', hsec'⟩ := h'
  rw [dayAndTime, dayAndTime] at heq
  obtain ⟨heq, hsecEq⟩ := append_zeroPadded_inj ⟨hsec.1, by omega⟩ ⟨hsec'.1, by omega⟩ heq
  have heq := List.append_cancel_right heq
  obtain ⟨heq, hminEq⟩ := append_zeroPadded_inj ⟨hmin.1, by omega⟩ ⟨hmin'.1, by omega⟩ heq
  have heq := List.append_cancel_right heq
  obtain ⟨heq, hhourEq⟩ := append_zeroPadded_inj ⟨hhour.1, by omega⟩ ⟨hhour'.1, by omega⟩ heq
  have heq := List.append_cancel_right heq
  obtain ⟨heq, hmdayEq⟩ := append_zeroPadded_inj ⟨by omega, by omega⟩ ⟨by omega, by omega⟩ heq
  have hmonEq := zeroPadded_two_inj ⟨by omega, by omega⟩ ⟨by omega, by omega⟩ heq
  exact ⟨by omega, hmdayEq, hhourEq, hminEq, hsecEq⟩

end

end Reactor
