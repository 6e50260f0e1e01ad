import Mathlib.Data.Int.DivMod
import Mathlib.Tactic.Ring

/-!
# Machine integers and faults

The widths of the 64-bit target: `size_t` values are natural numbers below `2 ^ 64`
whose operations wrap, and a conversion to `int` keeps the low 32 bits. System calls
return `ssize_t`, with `none` for the result -1.
-/

namespace Reactor

/-- What ends a run of the program: undefined behaviour that the model does not
continue, a failed `assert`, or a loop that never ends. -/
inductive Fault where
  /-- A null pointer is dereferenced. -/
  | nullDereference
  /-- A pointer to an object that no longer exists is dereferenced. -/
  | useAfterFree
  /-- A copy leaves the block it is made in. -/
  | outOfBounds
  /-- An `assert` of a buffer fails. -/
  | assertFailed
  /-- A loop does not terminate. -/
  | divergence
  deriving DecidableEq, Repr

/-- The action is not possible in the state. -/
inductive Disabled where
  | disabled
  deriving DecidableEq, Repr

/-- Addition of `size_t`. -/
@[irreducible] def sizeAdd (a b : ℕ) : ℕ := (a + b) % 2 ^ 64

/-- Subtraction of `size_t`. -/
@[irreducible] def sizeSub (a b : ℕ) : ℕ := if b ≤ a then a - b else 2 ^ 64 - (b - a)

/-- `static_cast<int>` of a 64-bit value. -/
@[irreducible] def toInt (n : ℤ) : ℤ := n.bmod (2 ^ 32)

/-- The conversion of an `int` to `size_t`. -/
@[irreducible] def intToSize (i : ℤ) : ℕ := (i % 2 ^ 64).toNat

/-- `static_cast<size_t>` of the result of a system call. -/
def ssizeToSize : Option ℕ → ℕ
  | some k => k
  | none => 2 ^ 64 - 1

/-- Sizes that do not overflow are added. -/
theorem sizeAdd_of_lt {a b : ℕ} (h : a + b < 2 ^ 64) : sizeAdd a b = a + b := by
  rw [sizeAdd, Nat.mod_eq_of_lt h]

/-- A sum of sizes is a size. -/
theorem sizeAdd_lt (a b : ℕ) : sizeAdd a b < 2 ^ 64 := by
  unfold sizeAdd
  omega

/-- Adding nothing to a size changes nothing. -/
theorem sizeAdd_zero {a : ℕ} (h : a < 2 ^ 64) : sizeAdd a 0 = a := by
  rw [sizeAdd, Nat.add_zero, Nat.mod_eq_of_lt h]

/-- Sizes can be added up in any order. -/
theorem sizeAdd_assoc (a b c : ℕ) : sizeAdd (sizeAdd a b) c = sizeAdd a (b + c) := by
  unfold sizeAdd
  omega

/-- Sizes that do not fall below zero are subtracted. -/
theorem sizeSub_of_le {a b : ℕ} (h : b ≤ a) : sizeSub a b = a - b := by
  rw [sizeSub, if_pos h]

/-- A length below `2 ^ 31` stays what it is as an `int`. -/
theorem toInt_of_lt {n : ℕ} (h : n < 2 ^ 31) : toInt n = n := by
  rw [toInt, Int.bmod_eq_emod]
  split <;> omega

/-- A length from `2 ^ 31` on is not positive as an `int`. -/
theorem toInt_nonpos {n : ℕ} (h : 2 ^ 31 ≤ n) (hn : n < 2 ^ 32) : toInt n ≤ 0 := by
  rw [toInt, Int.bmod_eq_emod]
  split <;> omega

/-- The conversion to `int` never makes a length greater. -/
theorem toInt_le (n : ℕ) : toInt n ≤ n := by
  rw [toInt, Int.bmod_eq_emod]
  split <;> omega

/-- An `int` is at least `-2 ^ 31`. -/
theorem le_toInt (n : ℤ) : -2 ^ 31 ≤ toInt n := by
  rw [toInt, Int.bmod_eq_emod]
  split <;> omega

/-- An `int` is less than `2 ^ 31`. -/
theorem toInt_lt (n : ℤ) : toInt n < 2 ^ 31 := by
  rw [toInt, Int.bmod_eq_emod]
  split <;> omega

/-- A natural number that is a size stays what it is. -/
theorem intToSize_natCast {n : ℕ} (h : n < 2 ^ 64) : intToSize n = n := by
  unfold intToSize
  omega

end Reactor
