import Mathlib.Data.List.Basic
import Mathlib.Data.List.Range

/-!
# Blocks of memory

A block is the function from offsets to cells. Reading a range gives the list of its
cells, writing a list replaces the cells from an offset on, and `memmove` within a
block is a write of what was read. The lemmas compute a read after a write when the
two ranges agree, adjoin or are apart.
-/

namespace Memory

variable {β : Type*}

/-- The `len` cells from offset `start` on. -/
def read (m : ℕ → β) (start len : ℕ) : List β :=
  (List.range len).map fun i => m (start + i)

/-- The block with the cells of `data` stored from offset `start` on. -/
def write (m : ℕ → β) (start : ℕ) (data : List β) : ℕ → β := fun i =>
  if start ≤ i then (data[i - start]?).getD (m i) else m i

/-- As many bytes are read as are asked for. -/
@[simp] theorem length_read (m : ℕ → β) (start len : ℕ) : (read m start len).length = len := by
  simp [read]

/-- Reading nothing gives nothing. -/
@[simp] theorem read_zero (m : ℕ → β) (start : ℕ) : read m start 0 = [] := rfl

/-- What is read at a position is in the memory behind the start. -/
@[simp] theorem getElem?_read (m : ℕ → β) (start len i : ℕ) :
    (read m start len)[i]? = if i < len then some (m (start + i)) else none := by
  by_cases h : i < len <;> simp [read, h]

/-- A cell is read exactly when its offset lies in the range. -/
theorem mem_read {m : ℕ → β} {start len : ℕ} {x : β} :
    x ∈ read m start len ↔ ∃ i, i < len ∧ m (start + i) = x := by
  simp [read]

/-- Reads of the same range of two blocks agree if the blocks do. -/
theorem read_congr {m m' : ℕ → β} {start len : ℕ}
    (h : ∀ i, start ≤ i → i < start + len → m i = m' i) : read m start len = read m' start len := by
  refine List.map_congr_left fun i hi => h _ (by omega) ?_
  have := List.mem_range.mp hi
  omega

/-- A range is its first part followed by the rest. -/
theorem read_add (m : ℕ → β) (start a b : ℕ) :
    read m start (a + b) = read m start a ++ read m (start + a) b := by
  simp only [read, List.range_add, List.map_append, List.map_map]
  congr 1
  exact List.map_congr_left fun i _ => by simp [Nat.add_assoc]

/-- Dropping cells of a read advances its start. -/
theorem drop_read (m : ℕ → β) (start len k : ℕ) :
    (read m start len).drop k = read m (start + k) (len - k) := by
  apply List.ext_getElem?
  intro i
  simp only [List.getElem?_drop, getElem?_read, Nat.add_assoc]
  by_cases h : k + i < len
  · rw [if_pos h, if_pos (by omega)]
  · rw [if_neg h, if_neg (by omega)]

/-- Taking cells of a read shortens it. -/
theorem take_read (m : ℕ → β) (start len k : ℕ) :
    (read m start len).take k = read m start (min k len) := by
  apply List.ext_getElem?
  intro i
  simp only [List.getElem?_take, getElem?_read]
  by_cases h : i < k
  · rw [if_pos h]
    by_cases h' : i < len
    · rw [if_pos h', if_pos (by omega)]
    · rw [if_neg h', if_neg (by omega)]
  · rw [if_neg h, if_neg (by omega)]

/-- Cells before a write keep their contents. -/
theorem write_of_lt {m : ℕ → β} {start i : ℕ} {data : List β} (h : i < start) :
    write m start data i = m i := by
  simp [write, Nat.not_le.mpr h]

/-- Cells after a write keep their contents. -/
theorem write_of_ge {m : ℕ → β} {start i : ℕ} {data : List β} (h : start + data.length ≤ i) :
    write m start data i = m i := by
  rw [write, if_pos (by omega), List.getElem?_eq_none (by omega), Option.getD_none]

/-- Writing nothing changes nothing. -/
@[simp] theorem write_nil (m : ℕ → β) (start i : ℕ) : write m start [] i = m i := by
  simp [write]

/-- A read of the written range gives the written cells. -/
theorem read_write_self (m : ℕ → β) (start : ℕ) (data : List β) :
    read (write m start data) start data.length = data := by
  apply List.ext_getElem?
  intro i
  rw [getElem?_read]
  by_cases h : i < data.length
  · rw [if_pos h, write, if_pos (by omega), Nat.add_sub_cancel_left,
      List.getElem?_eq_getElem h, Option.getD_some]
  · rw [if_neg h, List.getElem?_eq_none (by omega)]

/-- A read that ends before the written range is unchanged. -/
theorem read_write_before {m : ℕ → β} {start len pos : ℕ} {data : List β}
    (h : start + len ≤ pos) : read (write m pos data) start len = read m start len :=
  read_congr fun _ _ hi => write_of_lt (by omega)

/-- Writing right behind a range appends the written cells to it. -/
theorem read_write_append (m : ℕ → β) (start len : ℕ) (data : List β) :
    read (write m (start + len) data) start (len + data.length) = read m start len ++ data := by
  rw [read_add, read_write_before le_rfl, read_write_self]

end Memory
