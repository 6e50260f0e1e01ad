import Reactor.Buffer.Basic
import Reactor.Lib.Run
import Mathlib.Data.List.TakeWhile

/-!
# One chain of the buffer

What a well-formed chain computes: its free room, the effect of a copy behind its
data and of a realignment, and the size of a new chain. Also the walks from a pointer
to the chain it names.
-/

namespace Reactor

namespace BufferChain

/-- The data of the chain lie in its block, whose size is that of some allocation. -/
structure Bounded (c : BufferChain) : Prop where
  data_le : c.misalign + c.off ≤ c.bufferSize
  pos : 0 < c.bufferSize
  size_le : c.bufferSize ≤ 2 ^ 63

/-- A chain holds `off_` bytes. -/
@[simp] theorem length_stored (c : BufferChain) : c.stored.length = c.off :=
  Memory.length_read ..

/-- A chain that counts no bytes holds none. -/
theorem stored_of_off_eq_zero {c : BufferChain} (h : c.off = 0) : c.stored = [] := by
  rw [stored, h, Memory.read_zero]

/-- In a chain within its bounds the room is what the data and the gap before it leave. -/
theorem Bounded.room_eq {c : BufferChain} (h : c.Bounded) :
    c.room = c.bufferSize - c.off - c.misalign := by
  have := h.data_le
  rw [room, sizeSub_of_le (a := c.bufferSize) (by omega),
    sizeSub_of_le (by omega)]

/-- Whether to realign is a matter of what the data leave, gap included. -/
theorem Bounded.shouldRealign_iff {c : BufferChain} (h : c.Bounded) (n : ℕ) :
    c.shouldRealign n = true ↔ n < c.bufferSize - c.off := by
  have := h.data_le
  rw [shouldRealign, sizeSub_of_le (by omega), decide_eq_true_iff]

/-- A copy that stays in the buffer of the chain succeeds. -/
theorem memcpy_of_le {c : BufferChain} {p : ℕ} {d : List Cell}
    (h : p + d.length ≤ c.bufferSize) :
    c.memcpy p d = .ok (c.written p d) :=
  if_pos h

/-- A read that stays in the buffer of the chain succeeds. -/
theorem copyFrom_of_le {c : BufferChain} {p n : ℕ} (h : p + n ≤ c.bufferSize) :
    c.copyFrom p n = .ok (Memory.read c.buffer p n) :=
  if_pos h

/-- Writing into a chain does not move the chain. -/
@[simp] theorem addr_written (c : BufferChain) (p : ℕ) (d : List Cell) :
    (c.written p d).addr = c.addr := rfl

/-- Writing into a chain does not move its data. -/
@[simp] theorem misalign_written (c : BufferChain) (p : ℕ) (d : List Cell) :
    (c.written p d).misalign = c.misalign := rfl

/-- Writing into a chain does not change the size of its buffer. -/
@[simp] theorem bufferSize_written (c : BufferChain) (p : ℕ) (d : List Cell) :
    (c.written p d).bufferSize = c.bufferSize := rfl

/-- Bytes that are written are not counted yet. -/
@[simp] theorem off_written (c : BufferChain) (p : ℕ) (d : List Cell) :
    (c.written p d).off = c.off := rfl

/-- Bounds do not depend on what is written. -/
theorem Bounded.written {c : BufferChain} (hc : c.Bounded) (p : ℕ) (d : List Cell) :
    (c.written p d).Bounded :=
  ⟨hc.data_le, hc.pos, hc.size_le⟩

/-- The room depends on the offsets alone. -/
@[simp] theorem room_written (c : BufferChain) (p : ℕ) (d : List Cell) :
    (c.written p d).room = c.room := rfl

/-- The chain after a copy of `data` behind its data and the increase of `off_`. -/
def append (c : BufferChain) (data : List Cell) : BufferChain :=
  (c.written (c.misalign + c.off) data).grow data.length

/-- A chain that takes data keeps its address. -/
@[simp] theorem addr_append (c : BufferChain) (data : List Cell) : (c.append data).addr = c.addr :=
  rfl

/-- A chain that takes data keeps its buffer. -/
@[simp] theorem bufferSize_append (c : BufferChain) (data : List Cell) :
    (c.append data).bufferSize = c.bufferSize := rfl

/-- Data are put behind what is there, and the gap stays. -/
@[simp] theorem misalign_append (c : BufferChain) (data : List Cell) :
    (c.append data).misalign = c.misalign := rfl

section

variable {c : BufferChain} {d : List Cell}

/-- Data that fit are counted without wrapping around. -/
theorem Bounded.off_append (hc : c.Bounded)
    (h : c.misalign + c.off + d.length ≤ c.bufferSize) :
    (c.append d).off = c.off + d.length := by
  have := hc.size_le
  rw [BufferChain.append, grow, off_written, sizeAdd_of_lt (by omega)]

/-- A copy into the free room appends to the data of the chain. -/
theorem Bounded.stored_append (hc : c.Bounded)
    (h : c.misalign + c.off + d.length ≤ c.bufferSize) :
    (c.append d).stored = c.stored ++ d := by
  rw [stored, hc.off_append h]
  exact Memory.read_write_append ..

/-- Data that fit leave the chain within its bounds. -/
theorem Bounded.append (hc : c.Bounded)
    (h : c.misalign + c.off + d.length ≤ c.bufferSize) : (c.append d).Bounded where
  data_le := by
    rw [hc.off_append h, misalign_append, bufferSize_append]
    omega
  pos := hc.pos
  size_le := hc.size_le

/-- As much as there is room for. -/
theorem Bounded.append_take (hc : c.Bounded) (h : c.room ≤ d.length) :
    c.misalign + c.off + (d.take c.room).length ≤ c.bufferSize ∧
      (c.append (d.take c.room)).off = c.off + c.room := by
  have hle := hc.data_le
  have hroom := hc.room_eq
  have hlen : (d.take c.room).length = c.room := List.length_take_of_le h
  have hfit : c.misalign + c.off + (d.take c.room).length ≤ c.bufferSize := by omega
  refine ⟨hfit, ?_⟩
  rw [hc.off_append hfit, hlen]

/-- Cells behind the data of the enlarged chain keep their contents. -/
theorem Bounded.buffer_append (hc : c.Bounded)
    (h : c.misalign + c.off + d.length ≤ c.bufferSize) {i : ℕ}
    (hi : c.misalign + (c.append d).off ≤ i) : (c.append d).buffer i = c.buffer i := by
  rw [hc.off_append h] at hi
  exact Memory.write_of_ge (by omega)

end

/-- Realigning moves the data and keeps them. -/
@[simp] theorem stored_realign (c : BufferChain) : c.realign.stored = c.stored := by
  have h := Memory.read_write_self c.buffer 0 c.stored
  rwa [length_stored] at h

/-- Realigning does not move the chain itself. -/
@[simp] theorem addr_realign (c : BufferChain) : c.realign.addr = c.addr := rfl

/-- A realigned chain has no gap before its data. -/
@[simp] theorem misalign_realign (c : BufferChain) : c.realign.misalign = 0 := rfl

/-- A realigned chain has its old buffer. -/
@[simp] theorem bufferSize_realign (c : BufferChain) : c.realign.bufferSize = c.bufferSize := rfl

/-- Realigning loses no byte. -/
@[simp] theorem off_realign (c : BufferChain) : c.realign.off = c.off := rfl

/-- Realigning makes room and breaks no bound. -/
theorem Bounded.realign {c : BufferChain} (hc : c.Bounded) : c.realign.Bounded where
  data_le := by
    have := hc.data_le
    rw [misalign_realign, off_realign, bufferSize_realign]
    omega
  pos := hc.pos
  size_le := hc.size_le

/-- What is less than the room fits behind the data. -/
theorem Bounded.fits_of_lt {c : BufferChain} (hc : c.Bounded) {n : ℕ} (h : n < c.room) :
    c.misalign + c.off + n ≤ c.bufferSize := by
  have hroom := hc.room_eq
  omega

/-- The data fit behind those that a realignment has moved to the front. -/
theorem Bounded.realign_fits {c : BufferChain} (hc : c.Bounded) {n : ℕ}
    (h : c.shouldRealign n = true) :
    c.realign.misalign + c.realign.off + n ≤ c.realign.bufferSize := by
  have hlt := (hc.shouldRealign_iff n).mp h
  rw [misalign_realign, off_realign, bufferSize_realign]
  omega

/-- A chain as `createNewBufferChain` returns it. -/
def empty (addr bufferSize : ℕ) : BufferChain :=
  { addr, bufferSize, misalign := 0, off := 0, buffer := fun _ => none }

/-- A new chain is where it has been allocated. -/
@[simp] theorem addr_empty (addr size : ℕ) : (empty addr size).addr = addr := rfl

/-- A new chain has the size that was asked for. -/
@[simp] theorem bufferSize_empty (addr size : ℕ) : (empty addr size).bufferSize = size := rfl

/-- A new chain has no gap. -/
@[simp] theorem misalign_empty (addr size : ℕ) : (empty addr size).misalign = 0 := rfl

/-- A new chain has no data. -/
@[simp] theorem off_empty (addr size : ℕ) : (empty addr size).off = 0 := rfl

end BufferChain

/-! ## Allocation -/

/-- `toalloc` after `k` rounds of the loop that doubles it. -/
def sizeAfter (k : ℕ) : ℕ := kDefaultAllocSize * 2 ^ k % 2 ^ 64

/-- One more doubling, with its overflow. -/
theorem sizeAfter_succ (k : ℕ) : sizeAfter (k + 1) = sizeAfter k * 2 % 2 ^ 64 := by
  rw [sizeAfter, sizeAfter, pow_succ, ← Nat.mul_assoc, Nat.mod_mul_mod]

/-- The sizes are the powers of two from 512. -/
theorem kDefaultAllocSize_mul (k : ℕ) : kDefaultAllocSize * 2 ^ k = 2 ^ (9 + k) :=
  (pow_add 2 9 k).symm

/-- The 54 first rounds do not wrap. -/
theorem sizeAfter_of_le {k : ℕ} (h : k ≤ 54) : sizeAfter k = 2 ^ (9 + k) := by
  rw [sizeAfter, kDefaultAllocSize_mul, Nat.mod_eq_of_lt]
  exact Nat.pow_lt_pow_right (by omega) (by omega)

/-- The 55th round wraps to zero, which no further one leaves. -/
theorem sizeAfter_of_lt {k : ℕ} (h : 54 < k) : sizeAfter k = 0 := by
  rw [sizeAfter, kDefaultAllocSize_mul]
  exact Nat.mod_eq_zero_of_dvd (pow_dvd_pow 2 (by omega))

/-- The sizes that doubling reaches are at most `2 ^ 63`. -/
theorem sizeAfter_le (k : ℕ) : sizeAfter k ≤ 2 ^ 63 := by
  rcases Nat.lt_or_ge 54 k with h | h
  · rw [sizeAfter_of_lt h]
    exact Nat.zero_le _
  · rw [sizeAfter_of_le h]
    exact Nat.pow_le_pow_right (by omega) (by omega)

/-- The loop ends in the first of the sizes that covers the request, if one of its tests
meets such a size. -/
theorem doubleUntil_eq_some_iff {totalSize size : ℕ} (fuel k : ℕ) :
    doubleUntil totalSize fuel (sizeAfter k) = some size ↔
      ∃ j < fuel, size = sizeAfter (k + j) ∧ totalSize ≤ size ∧
        ∀ i < j, sizeAfter (k + i) < totalSize := by
  induction fuel generalizing k with
  | zero => simp [doubleUntil]
  | succ fuel ih =>
    rw [doubleUntil, ← sizeAfter_succ]
    by_cases hlt : sizeAfter k < totalSize
    · rw [if_pos hlt, ih]
      constructor
      · rintro ⟨j, hj, heq, hle, hleast⟩
        refine ⟨j + 1, by omega, by rw [heq, Nat.add_assoc, Nat.add_comm 1], hle, ?_⟩
        intro i hi
        cases i with
        | zero => exact hlt
        | succ i => simpa only [Nat.add_assoc, Nat.add_comm 1] using hleast i (by omega)
      · rintro ⟨j, hj, heq, hle, hleast⟩
        cases j with
        | zero =>
          rw [heq] at hle
          exact absurd hlt (Nat.not_lt.mpr hle)
        | succ j =>
          refine ⟨j, by omega, by rw [heq, Nat.add_assoc, Nat.add_comm 1], hle, ?_⟩
          intro i hi
          simpa only [Nat.add_assoc, Nat.add_comm 1] using hleast (i + 1) (by omega)
    · rw [if_neg hlt]
      constructor
      · intro heq
        obtain rfl := Option.some.inj heq
        exact ⟨0, by omega, rfl, Nat.not_lt.mp hlt, by omega⟩
      · rintro ⟨j, -, heq, -, hleast⟩
        cases j with
        | zero => rw [heq, Nat.add_zero]
        | succ j => exact absurd (hleast 0 (by omega)) hlt

/-- A request of at most `2 ^ 63` bytes is covered after at most 54 rounds. -/
theorem exists_sizeAfter {n : ℕ} (h : n ≤ 2 ^ 63) :
    ∃ k ≤ 54, n ≤ sizeAfter k ∧ ∀ i < k, sizeAfter i < n := by
  have hlast : n ≤ sizeAfter 54 := by rwa [sizeAfter_of_le le_rfl]
  have hcovered : ∃ k, n ≤ sizeAfter k := ⟨54, hlast⟩
  refine ⟨Nat.find hcovered, Nat.find_min' hcovered hlast, Nat.find_spec hcovered, ?_⟩
  intro i hi
  exact Nat.not_le.mp (Nat.find_min hcovered hi)

/-- The loop ends in the first of all sizes that covers the request. -/
theorem doubleUntil_eq_some {n k fuel : ℕ} (hle : n ≤ sizeAfter k)
    (hleast : ∀ i < k, sizeAfter i < n) (hfuel : k < fuel) :
    doubleUntil n fuel kDefaultAllocSize = some (sizeAfter k) :=
  (doubleUntil_eq_some_iff fuel 0).mpr ⟨k, hfuel, by rw [Nat.zero_add], hle, by simpa⟩

/-- No size covers a request beyond `2 ^ 63` bytes, so the loop never ends. -/
theorem doubleUntil_eq_none {n : ℕ} (h : 2 ^ 63 < n) (fuel : ℕ) :
    doubleUntil n fuel kDefaultAllocSize = none := by
  rw [Option.eq_none_iff_forall_ne_some]
  intro size heq
  obtain ⟨j, -, hsize, hle, -⟩ := (doubleUntil_eq_some_iff fuel 0).mp heq
  have := sizeAfter_le (0 + j)
  omega

/-- If the doubling ends, the chain has the size at which it ends. -/
theorem createNewBufferChain_of_ends {n toalloc : ℕ} (addr : ℕ)
    (h : doubleUntil n 64 kDefaultAllocSize = some toalloc) :
    createNewBufferChain addr n = .ok (.empty addr toalloc) := by
  rw [createNewBufferChain, h]
  rfl

/-- The size allocated for a request of at most `2 ^ 63` bytes. -/
theorem exists_toalloc {n : ℕ} (h : n ≤ 2 ^ 63) :
    ∃ toalloc, doubleUntil n 64 kDefaultAllocSize = some toalloc ∧ n ≤ toalloc ∧
      ∀ addr, (BufferChain.empty addr toalloc).Bounded := by
  obtain ⟨k, hk, hle, hleast⟩ := exists_sizeAfter h
  have hends := doubleUntil_eq_some hle hleast (show k < 64 by omega)
  refine ⟨sizeAfter k, hends, hle, fun addr => ⟨Nat.zero_le _, ?_, sizeAfter_le k⟩⟩
  rw [BufferChain.bufferSize_empty, sizeAfter_of_le hk]
  exact Nat.two_pow_pos _

/-- A request of at most `2 ^ 63` bytes is served by an empty chain that holds it. -/
theorem createNewBufferChain_ok {n : ℕ} (addr : ℕ) (h : n ≤ 2 ^ 63) :
    ∃ size, createNewBufferChain addr n = .ok (.empty addr size) ∧ n ≤ size ∧
      (BufferChain.empty addr size).Bounded := by
  obtain ⟨size, hends, hle, hbounded⟩ := exists_toalloc h
  exact ⟨size, createNewBufferChain_of_ends addr hends, hle, hbounded addr⟩

/-- A request beyond `2 ^ 63` bytes is never served. -/
theorem createNewBufferChain_error {n : ℕ} (addr : ℕ) (h : 2 ^ 63 < n) :
    createNewBufferChain addr n = .error .divergence := by
  rw [createNewBufferChain, doubleUntil_eq_none h]

/-! ## From a pointer to its chain -/

/-- A chain is found under its address if no earlier chain has the same one. -/
theorem locate_append {addr : ℕ} {before : List BufferChain} {c : BufferChain}
    (rest : List BufferChain) (hc : c.addr = addr) (h : ∀ d ∈ before, d.addr ≠ addr) :
    locate addr (before ++ c :: rest) = .ok (before, c, rest) := by
  induction before with
  | nil => simp [locate, hc]
  | cons d before ih =>
    rw [List.cons_append, locate, if_neg (h d (by simp)), ih fun e he => h e (by simp [he])]
    rfl

/-- A pointer into the list is found: the list splits at the chain it names. -/
theorem exists_locate {addr : ℕ} {chains : List BufferChain}
    (h : addr ∈ chains.map BufferChain.addr) :
    ∃ before c rest, locate addr chains = .ok (before, c, rest) ∧
      chains = before ++ c :: rest ∧ c.addr = addr := by
  induction chains with
  | nil => simp at h
  | cons d chains ih =>
    by_cases hd : d.addr = addr
    · exact ⟨[], d, chains, by simp [locate, hd], rfl, hd⟩
    · have hmem : addr ∈ chains.map BufferChain.addr := by
        rcases List.mem_cons.mp h with heq | hmem
        · exact absurd heq.symm hd
        · exact hmem
      obtain ⟨before, c, rest, hloc, hsplit, hc⟩ := ih hmem
      refine ⟨d :: before, c, rest, ?_, by rw [hsplit, List.cons_append], hc⟩
      rw [locate, if_neg hd, hloc]
      rfl

/-- A walk over one more chain goes on from the link in that chain. -/
theorem Buffer.linkAfter_cons (slot : Slot) (c : BufferChain) (walked : List BufferChain) :
    linkAfter slot (c :: walked) = linkAfter (.next c.addr) walked := by
  cases h : walked.getLast? <;> simp [linkAfter, List.getLast?_cons, h]

/-- Where a walk ends depends on the addresses of the chains only. -/
theorem Buffer.linkAfter_congr {walked walked' : List BufferChain} (slot : Slot)
    (h : walked.map BufferChain.addr = walked'.map BufferChain.addr) :
    linkAfter slot walked = linkAfter slot walked' := by
  have hlast := congrArg List.getLast? h
  rw [List.getLast?_map, List.getLast?_map] at hlast
  unfold linkAfter
  cases hw : walked.getLast? <;> cases hw' : walked'.getLast? <;> simp_all

/-- A walk goes on where one before it has ended. -/
theorem Buffer.linkAfter_append (slot : Slot) (walked more : List BufferChain) :
    linkAfter slot (walked ++ more) = linkAfter (linkAfter slot walked) more := by
  cases h : more.getLast? <;> simp [linkAfter, List.getLast?_append, h]

/-! ## Addresses -/

section

variable {chains chains' : List BufferChain} {c : BufferChain} {fresh : ℕ}

/-- A chain at a fresh address is different from those allocated before. -/
theorem nodup_addr_concat (hnodup : (chains.map BufferChain.addr).Nodup)
    (hlt : ∀ d ∈ chains, d.addr < fresh) (haddr : c.addr = fresh) :
    ((chains ++ [c]).map BufferChain.addr).Nodup := by
  rw [List.map_append, List.nodup_append]
  refine ⟨hnodup, by simp, ?_⟩
  intro a ha a' ha' heq
  obtain ⟨d, hd, rfl⟩ := List.mem_map.mp ha
  have := hlt d hd
  rw [List.map_singleton, List.mem_singleton] at ha'
  omega

/-- The next address is beyond a chain that has just got the last one. -/
theorem addr_lt_concat (hlt : ∀ d ∈ chains, d.addr < fresh) (haddr : c.addr = fresh) :
    ∀ d ∈ chains ++ [c], d.addr < fresh + 1 := by
  refine List.forall_mem_append.mpr ⟨fun d hd => Nat.lt_succ_of_lt (hlt d hd), ?_⟩
  rw [List.forall_mem_singleton, haddr]
  exact Nat.lt_succ_self fresh

/-- The next address is beyond chains that keep their addresses. -/
theorem addr_lt_of_map_eq
    (haddr : chains'.map BufferChain.addr = chains.map BufferChain.addr)
    (hlt : ∀ d ∈ chains, d.addr < fresh) : ∀ d ∈ chains', d.addr < fresh := by
  have h : ∀ addr ∈ chains.map BufferChain.addr, addr < fresh := List.forall_mem_map.mpr hlt
  exact List.forall_mem_map.mp (haddr ▸ h)

end

end Reactor
