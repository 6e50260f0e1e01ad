import Reactor.Buffer.Basic
import Reactor.Lib.Run

/-!
# The buffer of a log record

`FixedBuffer<SIZE>` is an array of `SIZE + 1` bytes with a cursor. `heap_` never leaves
`data_`, and `size_` never changes, because `makeHeap` is not called. A cell holds a byte
once a call has written it; before that it holds the zero of the last `bZero`.
-/

namespace Reactor

open Transition

/-- `kSmallBufferSize`. -/
def kSmallBufferSize : ℕ := 4000

/-- `FixedBuffer<SIZE>`. -/
structure FixedBuffer (size : ℕ) where
  /-- `data_`. -/
  data : ℕ → Cell := fun _ => none
  /-- The offset of `cur_`. -/
  cur : ℕ := 0

namespace FixedBuffer

variable {size : ℕ}

/-- `valid`: `end()` is the last byte of `data_`. -/
def valid (b : FixedBuffer size) : ℤ := toInt ((size : ℤ) - b.cur)

/-- `dataSize`. -/
def dataSize (b : FixedBuffer size) : ℕ := b.cur

/-- A write of bytes into `data_`. -/
def store (b : FixedBuffer size) (pos : ℕ) (bytes : List UInt8) : Except Fault (FixedBuffer size) :=
  if pos + bytes.length ≤ size + 1 then
    .ok { b with data := Memory.write b.data pos (bytes.map some) }
  else .error .outOfBounds

/-- `add`. -/
def add (b : FixedBuffer size) (len : ℕ) : FixedBuffer size := { b with cur := b.cur + len }

/-- `append`: the count of `memcpy` is a `size_t`, and it must not exceed the message. -/
def append (b : FixedBuffer size) (msg : List UInt8) (len : ℤ) : Except Fault (FixedBuffer size) :=
  if len ≤ b.valid then do
    let count := intToSize len
    if msg.length < count then throw .outOfBounds
    let b ← b.store b.cur (msg.take count)
    (b.add count).store size [0]
  else .ok b

/-- Text written at the cursor with a zero behind it, over which the cursor is moved as far
as the caller reports. -/
def print (b : FixedBuffer size) (chars : List UInt8) (reported : ℕ) :
    Except Fault (FixedBuffer size) := do
  let b ← b.store b.cur (chars ++ [0])
  return b.add reported

/-- `bZero`. -/
def bZero (_ : FixedBuffer size) : FixedBuffer size := {}

/-- The cells that a reader of `data()` and `dataSize()` finds. -/
def output (b : FixedBuffer size) : Except Fault (List Cell) :=
  if b.dataSize ≤ size + 1 then .ok (Memory.read b.data 0 b.dataSize) else .error .outOfBounds

/-- The cursor has not passed the end, and all that lies below it has been written. -/
structure Contained (b : FixedBuffer size) : Prop where
  dataSize_le : b.dataSize ≤ size
  valid_nonneg : 0 ≤ b.valid
  written : ∃ bytes : List UInt8, b.output = .ok (bytes.map some)

/-- The bytes below the cursor. Behind it only the cell at the cursor and the last one may
have been written. -/
structure Holds (b : FixedBuffer size) (bytes : List UInt8) : Prop where
  cur_eq : b.cur = bytes.length
  length_le : bytes.length ≤ size
  read_eq : Memory.read b.data 0 bytes.length = bytes.map some
  unwritten : ∀ i, bytes.length < i → i < size → b.data i = none

section

variable {b b' : FixedBuffer size} {bytes msg chars : List UInt8} {len : ℤ}

/-- A new buffer holds nothing. -/
theorem holds_empty : (({} : FixedBuffer size)).Holds [] where
  cur_eq := rfl
  length_le := Nat.zero_le size
  read_eq := rfl
  unwritten _ _ _ := rfl

/-- The bytes of a buffer are those put into it. -/
theorem Holds.output_eq (h : b.Holds bytes) : b.output = .ok (bytes.map some) := by
  have hle := h.length_le
  rw [output, dataSize, h.cur_eq, if_pos (by omega), h.read_eq]

/-- The room is what the bytes leave. -/
theorem Holds.valid_eq (h : b.Holds bytes) (hsize : size < 2 ^ 31) :
    b.valid = (size - bytes.length : ℕ) := by
  have hle := h.length_le
  rw [valid, h.cur_eq, ← Nat.cast_sub hle]
  exact toInt_of_lt (by omega)

/-- A buffer that holds its bytes is not written beyond its end. -/
theorem Holds.contained (h : b.Holds bytes) (hsize : size < 2 ^ 31) : b.Contained where
  dataSize_le := by
    rw [dataSize, h.cur_eq]
    exact h.length_le
  valid_nonneg := by
    rw [h.valid_eq hsize]
    exact Int.natCast_nonneg _
  written := ⟨bytes, h.output_eq⟩

/-- A contained buffer has no unwritten cell below its cursor. -/
theorem Contained.data_ne (h : b.Contained) {i : ℕ} (hi : i < b.cur) : b.data i ≠ none := by
  intro hnone
  obtain ⟨bytes, hout⟩ := h.written
  obtain ⟨-, hread⟩ := ite_eq_ok.mp hout
  have hmem : none ∈ bytes.map some := by
    rw [← hread]
    exact Memory.mem_read.mpr ⟨i, hi, by rwa [Nat.zero_add]⟩
  simp at hmem

/-! ## Writing at the cursor -/

/-- Text written at the cursor, over which the cursor is moved. -/
theorem Holds.write (h : b.Holds bytes) (text : List UInt8) {n : ℕ} (hn : n ≤ text.length)
    (hlast : text.length ≤ n + 1) (hroom : bytes.length + n ≤ size) :
    Holds
      ({ data := Memory.write b.data b.cur (text.map some), cur := b.cur + n } : FixedBuffer size)
      (bytes ++ text.take n) := by
  have hcur := h.cur_eq
  have hlen : (bytes ++ text.take n).length = bytes.length + n := by
    rw [List.length_append, List.length_take, Nat.min_eq_left hn]
  constructor
  · rw [hlen, hcur]
  · omega
  · have hwritten : Memory.read (Memory.write b.data b.cur (text.map some)) b.cur n =
        (text.map some).take n := by
      have hself := Memory.read_write_self b.data b.cur (text.map some)
      rw [List.length_map] at hself
      rw [← Nat.min_eq_left hn, ← Memory.take_read, hself, Nat.min_eq_left hn]
    rw [hcur] at hwritten
    rw [hlen, Memory.read_add, hcur, Memory.read_write_before (by omega), h.read_eq,
      Nat.zero_add, hwritten, List.map_append, List.map_take]
  · intro i hi hlt
    rw [hlen] at hi
    dsimp only
    rw [Memory.write_of_ge (by rw [List.length_map]; omega)]
    exact h.unwritten i (by omega) hlt

/-- The zero in the last cell. -/
theorem Holds.terminate (h : b.Holds bytes) :
    ∃ b', b.store size [0] = .ok b' ∧ b'.Holds bytes := by
  refine ⟨_, if_pos (Nat.le_refl _), h.cur_eq, h.length_le, ?_, ?_⟩
  · rw [Memory.read_write_before (by have := h.length_le; omega)]
    exact h.read_eq
  · intro i hi hlt
    dsimp only
    rw [Memory.write_of_lt hlt]
    exact h.unwritten i hi hlt

/-- `append` writes a message that fits and leaves out one that does not. -/
theorem Holds.append_ok (h : b.Holds bytes) (hsize : size < 2 ^ 31) {n : ℕ}
    (hmsg : n ≤ msg.length) :
    (bytes.length + n ≤ size → ∃ b', b.append msg n = .ok b' ∧ b'.Holds (bytes ++ msg.take n)) ∧
      (size < bytes.length + n → b.append msg n = .ok b) := by
  have hvalid := h.valid_eq hsize
  have hle := h.length_le
  have hcur := h.cur_eq
  constructor
  · intro hroom
    have hcount : intToSize n = n := intToSize_natCast (by omega)
    have hlen : (msg.take n).length = n := by rw [List.length_take, Nat.min_eq_left hmsg]
    have hstore := h.write (msg.take n) (n := n) (by omega) (by omega) hroom
    rw [List.take_take, Nat.min_self] at hstore
    obtain ⟨b', hok, hholds⟩ := hstore.terminate
    refine ⟨b', ?_, hholds⟩
    rw [append, if_pos (by omega), hcount]
    dsimp only
    rw [if_neg (by omega), store, if_pos (by omega), ok_bind]
    exact hok
  · intro hfull
    rw [append, if_neg (by omega)]

/-- Either way the buffer holds bytes. -/
theorem Holds.exists_append (h : b.Holds bytes) (hsize : size < 2 ^ 31) {n : ℕ}
    (hmsg : n ≤ msg.length) : ∃ b' bytes', b.append msg n = .ok b' ∧ b'.Holds bytes' := by
  obtain ⟨hfits, hfull⟩ := h.append_ok hsize hmsg
  by_cases hroom : bytes.length + n ≤ size
  · obtain ⟨b', hok, hholds⟩ := hfits hroom
    exact ⟨b', _, hok, hholds⟩
  · exact ⟨b, bytes, hfull (Nat.not_le.mp hroom), h⟩

/-- A length that is negative as an `int` is an enormous count. -/
theorem Holds.append_error (h : b.Holds bytes) (hsize : size < 2 ^ 31) (hneg : len < 0)
    (hint : -2 ^ 31 ≤ len) : b.append msg len = .error .outOfBounds := by
  have hvalid := h.valid_eq hsize
  have hcount : 2 ^ 63 ≤ intToSize len := by
    unfold intToSize
    omega
  rw [append, if_pos (by omega)]
  dsimp only
  split
  · rfl
  · next hlong =>
    have hlen : (msg.take (intToSize len)).length = intToSize len := by
      rw [List.length_take, Nat.min_eq_left (Nat.not_lt.mp hlong)]
    rw [store, if_neg (by omega), error_bind]

/-! ## Printing behind the cursor -/

/-- Characters that fit with a null byte behind them are printed. -/
theorem Holds.print_ok (h : b.Holds bytes) {reported : ℕ} (hle : chars.length ≤ reported)
    (hlast : reported ≤ chars.length + 1) (hroom : bytes.length + reported ≤ size) :
    ∃ b', b.print chars reported = .ok b' ∧
      b'.Holds (bytes ++ (chars ++ [0]).take reported) := by
  have hcur := h.cur_eq
  have hlen : (chars ++ [0]).length = chars.length + 1 := List.length_append
  have hshort : (chars ++ [0]).length ≤ reported + 1 := by
    rw [hlen]
    exact Nat.succ_le_succ hle
  refine ⟨_, ?_, h.write _ (by omega) hshort hroom⟩
  rw [print, store, if_pos (by omega), ok_bind]
  rfl

/-- A printed buffer that is contained has been printed with room enough. -/
theorem Holds.print_contained (h : b.Holds bytes) {reported : ℕ}
    (hok : b.print chars reported = .ok b') (hcontained : b'.Contained) :
    reported ≤ chars.length + 1 ∧ bytes.length + reported ≤ size := by
  have hcur := h.cur_eq
  have hlen : (chars ++ [0]).length = chars.length + 1 := List.length_append
  obtain ⟨b₁, hstore, hret⟩ := bind_eq_ok.mp hok
  obtain rfl := Except.ok.inj hret
  obtain ⟨-, rfl⟩ := ite_eq_ok.mp hstore
  have hroom := hcontained.dataSize_le
  rw [dataSize, add] at hroom
  dsimp only at hroom
  refine ⟨?_, by omega⟩
  by_contra hlong
  -- the cell behind the zero lies below the new cursor, and nothing has been written to it
  have hunwritten := h.unwritten (bytes.length + chars.length + 1) (by omega) (by omega)
  refine hcontained.data_ne (i := bytes.length + chars.length + 1) ?_ ?_
  · rw [add]
    dsimp only
    omega
  · rw [add]
    dsimp only
    rw [Memory.write_of_ge (by rw [List.length_map]; omega)]
    exact hunwritten

end

end FixedBuffer

end Reactor
