import Reactor.Buffer.Linked

/-!
# Requests for a chain

`createNewBufferChain` doubles a `size_t` until it covers the request. The largest size
that it meets is `2 ^ 63`; behind it the product wraps to zero, where it stays. So a larger
request is never covered and the loop runs on. `bufferAdd` passes on the length that its
caller gives, whatever it is.
-/

namespace Reactor

open Transition

/-! ## The doubling loop -/

/-- What is asked of a request: the loop ends, after the least number of rounds whose size
covers the request, and the chain is of that size. -/
def SizesCorrectly (totalSize : ℕ) : Prop :=
  ∃ k, totalSize ≤ sizeAfter k ∧ (∀ i < k, sizeAfter i < totalSize) ∧
    (∃ fuel, doubleUntil totalSize fuel kDefaultAllocSize = some (sizeAfter k)) ∧
    ∀ addr, createNewBufferChain addr totalSize = .ok (.empty addr (sizeAfter k))

/-- The doubling loop ends. -/
def LoopEnds (totalSize : ℕ) : Prop :=
  ∃ fuel toalloc, doubleUntil totalSize fuel kDefaultAllocSize = some toalloc

/-- Requests up to `2 ^ 63` bytes are sized correctly. -/
theorem sizesCorrectly_of_le {n : ℕ} (h : n ≤ 2 ^ 63) : SizesCorrectly n := by
  obtain ⟨k, hk, hle, hleast⟩ := exists_sizeAfter h
  have hends := doubleUntil_eq_some hle hleast (show k < 64 by omega)
  exact ⟨k, hle, hleast, ⟨64, hends⟩, fun addr => createNewBufferChain_of_ends addr hends⟩

/-- A request is sized correctly only if the doubling ends. -/
theorem SizesCorrectly.loopEnds {n : ℕ} (h : SizesCorrectly n) : LoopEnds n := by
  obtain ⟨k, -, -, ⟨fuel, hends⟩, -⟩ := h
  exact ⟨fuel, sizeAfter k, hends⟩

/-- The loop ends only if there is no wrap on the way. -/
theorem LoopEnds.le {n : ℕ} (h : LoopEnds n) : n ≤ 2 ^ 63 := by
  obtain ⟨fuel, toalloc, hends⟩ := h
  by_contra hbig
  rw [doubleUntil_eq_none (Nat.not_le.mp hbig)] at hends
  cases hends

/-- The 64 tests of the model decide whether the loop ends. -/
theorem createNewBufferChain_eq_divergence_iff (addr n : ℕ) :
    createNewBufferChain addr n = .error .divergence ↔ ¬ LoopEnds n := by
  constructor
  · intro hdiverges hends
    obtain ⟨size, hnew, -⟩ := createNewBufferChain_ok addr hends.le
    rw [hdiverges] at hnew
    cases hnew
  · intro hnever
    exact createNewBufferChain_error addr
      (Nat.not_le.mp fun hle => hnever (sizesCorrectly_of_le hle).loopEnds)

/-! ## Calls that end -/

/-- The computation does not run forever. -/
abbrev Ends {α : Type} (x : Except Fault α) : Prop := Ensures x (fun _ => True) (· ≠ .divergence)

/-- Ending means not to diverge. -/
theorem ends_iff {α : Type} {x : Except Fault α} : Ends x ↔ x ≠ .error .divergence := by
  cases x with
  | ok a => simp [Ends, Ensures]
  | error e => simp [Ends, Ensures]

/-- The search for a chain ends. -/
theorem ends_locate (addr : ℕ) (chains : List BufferChain) : Ends (locate addr chains) := by
  induction chains with
  | nil => exact Fault.noConfusion
  | cons c chains ih =>
    rw [locate]
    split
    · trivial
    · exact ih.bind fun _ _ => trivial

/-- A copy ends, in its bounds or out of them. -/
theorem BufferChain.ends_memcpy (c : BufferChain) (pos : ℕ) (data : List Cell) :
    Ends (c.memcpy pos data) := by
  rw [memcpy]
  split
  · trivial
  · exact Fault.noConfusion

/-- Allocating a chain ends for requests up to `2 ^ 63` bytes. -/
theorem ends_createNewBufferChain (addr : ℕ) {n : ℕ} (h : n ≤ 2 ^ 63) :
    Ends (createNewBufferChain addr n) := by
  obtain ⟨size, hnew, -⟩ := createNewBufferChain_ok addr h
  rw [hnew]
  trivial

namespace Buffer

/-- Following a link ends. -/
theorem ends_follow (b : Buffer) (slot : Slot) : Ends (b.follow slot) := by
  cases slot with
  | first => trivial
  | next addr => exact (ends_locate addr b.chains).bind fun _ _ => trivial

/-- Reading a link ends. -/
theorem ends_pointee (b : Buffer) (slot : Slot) : Ends (b.pointee slot) :=
  (b.ends_follow slot).bind fun _ _ => trivial

/-- Deleting chains ends, if only at a freed one. -/
theorem ends_deleteAfterChain (chains : List BufferChain) : Ends (deleteAfterChain chains) := by
  cases chains with
  | nil => trivial
  | cons c chains => exact Fault.noConfusion

/-- Inserting a chain ends. -/
theorem ends_bufferInsertChain (b : Buffer) (chain : BufferChain) :
    Ends (b.bufferInsertChain chain) := by
  refine (b.ends_follow b.lastWithData).bind fun split _ => ?_
  dsimp only
  split
  · split
    · exact Fault.noConfusion
    · exact (ends_deleteAfterChain _).bind fun _ _ => trivial
  · trivial

/-- The new chain is asked for the number of bytes to add. -/
theorem ends_targetChain (b : Buffer) {n : ℕ} (h : n ≤ 2 ^ 63) : Ends (b.targetChain n) := by
  refine (b.ends_pointee b.lastWithData).bind fun target _ => ?_
  split
  · trivial
  · exact (ends_createNewBufferChain b.fresh h).bind fun chain _ =>
      (ends_bufferInsertChain _ chain).bind fun _ _ => trivial

/-- Adding a chain ends for as many bytes as a size can be found for. -/
theorem ends_addChain (b : Buffer) {data : List Cell} (h : data.length ≤ 2 ^ 63) :
    Ends (b.addChain data) := by
  refine (ends_createNewBufferChain b.fresh h).bind fun newChain _ => ?_
  refine (newChain.ends_memcpy _ data).bind fun newChain _ => ?_
  refine (ends_bufferInsertChain _ newChain).bind fun b' _ => ?_
  exact (ends_locate newChain.addr b'.chains).bind fun _ _ => trivial

/-- The new chain is asked for what did not fit into the target chain. -/
theorem ends_addTo (b : Buffer) (addr : ℕ) {data : List Cell} (h : data.length ≤ 2 ^ 63) :
    Ends (b.addTo addr data) := by
  refine (ends_locate addr b.chains).bind fun found _ => ?_
  obtain ⟨before, chain, rest⟩ := found
  dsimp only
  split
  · exact (chain.ends_memcpy _ data).bind fun _ _ => trivial
  · split
    · exact (chain.realign.ends_memcpy _ data).bind fun _ _ => trivial
    · refine (chain.ends_memcpy _ _).bind fun _ _ => ends_addChain _ ?_
      rw [List.length_drop]
      omega

/-- An addition of at most `2 ^ 63` bytes ends, whatever the buffer. -/
theorem ends_bufferAdd (b : Buffer) {data : List UInt8} (h : data.length ≤ 2 ^ 63) :
    Ends (b.bufferAdd data) :=
  (b.ends_targetChain h).bind fun target _ => ends_addTo target.1 target.2 (by simpa using h)

/-- An expansion for at most `2 ^ 63` bytes asks for at most as many. -/
theorem Expandable.ends_bufferExpandFast {b : Buffer} (hb : b.Expandable) {n : ℕ}
    (h : n ≤ 2 ^ 63) : Ends (b.bufferExpandFast n) := by
  obtain ⟨before, rest, hsplit⟩ := hb.link
  obtain ⟨rest', -, ⟨hok, -⟩ | ⟨hok, -⟩⟩ := hb.bufferExpandFast_eq hsplit h
  · rw [hok]
    trivial
  · rw [hok]
    trivial

/-! ## Calls that run forever -/

/-- On an empty buffer `bufferAdd` passes on the length that it is given, before it looks at
the data. -/
theorem bufferAdd_of_big (fresh : ℕ) {data : List UInt8} (h : 2 ^ 63 < data.length) :
    ({ fresh } : Buffer).bufferAdd data = .error .divergence := by
  rw [bufferAdd, targetChain, createNewBufferChain_error fresh h]
  rfl

/-- No power of two from 512 is large enough for more than `2 ^ 63` bytes: the doubling goes on
with zero. -/
theorem bufferExpandFast_of_big (fresh : ℕ) {n : ℕ} (h : 2 ^ 63 < n) :
    ({ fresh } : Buffer).bufferExpandFast n = .error .divergence := by
  rw [bufferExpandFast, createNewBufferChain_error fresh h]
  rfl

/-- Every addition of `n` bytes ends. -/
def AddEnds (n : ℕ) : Prop :=
  ∀ (b : Buffer) (data : List UInt8), data.length = n → b.bufferAdd data ≠ .error .divergence

/-- Every expansion for `n` bytes ends. -/
def ExpandEnds (n : ℕ) : Prop :=
  ∀ b : Buffer, b.Expandable → b.bufferExpandFast n ≠ .error .divergence

/-- `bufferAdd` ends exactly for sizes up to `2 ^ 63`. -/
theorem addEnds_iff (n : ℕ) : AddEnds n ↔ n ≤ 2 ^ 63 := by
  constructor
  · intro h
    by_contra hbig
    have hlen : (List.replicate n (0 : UInt8)).length = n := List.length_replicate
    exact h {} _ hlen (bufferAdd_of_big 0 (by rwa [hlen, ← Nat.not_le]))
  · rintro h b data rfl
    exact ends_iff.mp (b.ends_bufferAdd h)

/-- `bufferExpandFast` ends exactly for sizes up to `2 ^ 63`. -/
theorem expandEnds_iff (n : ℕ) : ExpandEnds n ↔ n ≤ 2 ^ 63 := by
  constructor
  · intro h
    by_contra hbig
    exact h {} linked_empty.expandable (bufferExpandFast_of_big 0 (Nat.not_le.mp hbig))
  · intro h b hb
    exact ends_iff.mp (hb.ends_bufferExpandFast h)

end Buffer

/-- A request is served as it should be exactly up to `2 ^ 63` bytes, and both callers pass
on larger ones. -/
theorem sizesCorrectly_iff (totalSize : ℕ) :
    (SizesCorrectly totalSize ↔ totalSize ≤ 2 ^ 63) ∧
      (LoopEnds totalSize ↔ totalSize ≤ 2 ^ 63) ∧
      (Buffer.AddEnds totalSize ↔ totalSize ≤ 2 ^ 63) ∧
      (Buffer.ExpandEnds totalSize ↔ totalSize ≤ 2 ^ 63) := by
  refine ⟨⟨fun h => h.loopEnds.le, sizesCorrectly_of_le⟩, ⟨LoopEnds.le, fun h => ?_⟩,
    Buffer.addEnds_iff totalSize, Buffer.expandEnds_iff totalSize⟩
  exact (sizesCorrectly_of_le h).loopEnds

/-- The result -1 of a failed call, converted to the length of an addition. -/
theorem not_sizesCorrectly_failed :
    ¬ SizesCorrectly (ssizeToSize none) ∧ ¬ LoopEnds (ssizeToSize none) ∧
      ({} : Buffer).bufferAdd (List.replicate (ssizeToSize none) 0) = .error .divergence := by
  have hbig : 2 ^ 63 < ssizeToSize none := by decide
  refine ⟨fun h => ?_, fun h => ?_, Buffer.bufferAdd_of_big 0 ?_⟩
  · exact absurd h.loopEnds.le (Nat.not_le.mpr hbig)
  · exact absurd h.le (Nat.not_le.mpr hbig)
  · rwa [List.length_replicate]

end Reactor
