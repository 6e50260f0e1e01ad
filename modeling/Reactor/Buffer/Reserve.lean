import Reactor.Buffer.Expand

/-!
# The room that a read from a socket offers

Between reads and drains every chain with data is full, and `*lastWithData_` is the
last chain with data unless the list is empty. `bufferExpandFast` then adds at most one
chain at the end of the list, and `bufferSetUpVecs` offers the free room of up to four
chains from `*lastWithData_` on.
-/

namespace Reactor

open Transition

namespace BufferChain

/-- A chain as reads leave it: full if it holds data, without a gap if it does not. -/
structure Packed (c : BufferChain) : Prop extends c.Bounded where
  aligned : c.off = 0 → c.misalign = 0
  full : c.off ≠ 0 → c.misalign + c.off = c.bufferSize

/-- A packed chain with data has no room, -/
theorem Packed.room_of_data {c : BufferChain} (hc : c.Packed) (h : c.off ≠ 0) : c.room = 0 := by
  have := hc.full h
  rw [hc.room_eq]
  omega

/-- A packed chain without data is all room. -/
theorem Packed.room_of_empty {c : BufferChain} (hc : c.Packed) (h : c.off = 0) :
    c.room = c.bufferSize :=
  hc.toBounded.room_of_empty (hc.aligned h) h

/-- A new chain is packed. -/
theorem packed_empty {addr size : ℕ} (h : (empty addr size).Bounded) :
    (empty addr size).Packed where
  toBounded := h
  aligned _ := rfl
  full h := absurd rfl h

end BufferChain

/-- A count that fits into 32 bits is passed on. -/
theorem getSockfdBytes_of_lt {n : ℕ} (hn : n < 2 ^ 32) : getSockfdBytes n = n := by
  unfold getSockfdBytes kBufferMaxRead
  omega

/-- The count that `ioctl` gives is an unsigned 32-bit number. -/
theorem getSockfdBytes_lt (pending : ℕ) : getSockfdBytes pending < 2 ^ 32 := by
  unfold getSockfdBytes kBufferMaxRead
  omega

namespace Buffer

/-- The list splits at `lastWithData_`: the chains behind the one it leads to are
empty, and it leads to a chain unless there is none. -/
structure SplitsAt (b : Buffer) (before rest : List BufferChain) : Prop where
  chains_eq : b.chains = before ++ rest
  link_eq : b.lastWithData = linkAfter .first before
  leads : rest = [] → before = []
  tail_empty : ∀ d ∈ rest.tail, d.off = 0

/-- The position of `lastWithData_` in an aligned buffer is one in any buffer. -/
theorem SplitsAt.splits {b : Buffer} {before rest : List BufferChain}
    (hsplit : b.SplitsAt before rest) : b.Splits before rest :=
  ⟨hsplit.chains_eq, hsplit.link_eq, hsplit.leads⟩

/-- What all operations on a buffer keep: the pointers of the list, and chains that are
bounded and without a gap if they are empty. -/
structure Linked (b : Buffer) : Prop where
  distinct : (b.chains.map BufferChain.addr).Nodup
  allocated : ∀ c ∈ b.chains, c.addr < b.fresh
  bounded : ∀ c ∈ b.chains, c.Bounded
  aligned : ∀ c ∈ b.chains, c.off = 0 → c.misalign = 0
  last_eq : b.last = b.chains.getLast?.map BufferChain.addr
  link : ∃ before rest, b.Splits before rest

/-- What reads from a socket and the user's drains keep. -/
structure ReadState (b : Buffer) : Prop extends b.WellFormed where
  packed : ∀ c ∈ b.chains, c.Packed
  link : ∃ before rest, b.SplitsAt before rest

/-- A new buffer is ready to be read into. -/
theorem readState_empty : ({} : Buffer).ReadState where
  toWellFormed := wellFormed_empty
  packed := by simp
  link := ⟨[], [], rfl, rfl, fun _ => rfl, by simp⟩

/-- A buffer that is read into is linked. -/
theorem ReadState.linked {b : Buffer} (hb : b.ReadState) : b.Linked where
  distinct := hb.distinct
  allocated := hb.allocated
  bounded := hb.bounded
  aligned c hc := (hb.packed c hc).aligned
  last_eq := hb.last_eq
  link := by
    obtain ⟨before, rest, hsplit⟩ := hb.link
    exact ⟨before, rest, hsplit.splits⟩

/-- Following `lastWithData_` leads to the last chain with data. -/
theorem SplitsAt.follow_eq {b : Buffer} {before rest : List BufferChain}
    (hsplit : b.SplitsAt before rest) (hb : (b.chains.map BufferChain.addr).Nodup) :
    b.follow b.lastWithData = .ok (before, rest) :=
  hsplit.splits.follow_eq hb

/-- A change of the chains that keeps their addresses. -/
theorem WellFormed.setChains {b : Buffer} (hb : b.WellFormed) {chains : List BufferChain}
    (haddr : chains.map BufferChain.addr = b.chains.map BufferChain.addr)
    (hbounded : ∀ c ∈ chains, c.Bounded) {slot : Slot} {totalSize : ℕ}
    (htotal : totalSize = (chains.map BufferChain.off).sum) (hlt : totalSize < 2 ^ 64) :
    ({ b with chains, lastWithData := slot, totalSize } : Buffer).WellFormed where
  distinct := haddr ▸ hb.distinct
  allocated := addr_lt_of_map_eq haddr hb.allocated
  bounded := hbounded
  last_eq := by rw [hb.last_eq, ← List.getLast?_map, ← List.getLast?_map, haddr]
  total_eq := htotal
  total_lt := hlt

/-! ## Expanding -/

/-- A chain put behind the others leaves the last one with data where it is. -/
theorem SplitsAt.withChain {b : Buffer} {before rest : List BufferChain}
    (hsplit : b.SplitsAt before rest) (size : ℕ) :
    (b.withChain size).SplitsAt before (rest ++ [.empty b.fresh size]) where
  chains_eq := by rw [Buffer.withChain, hsplit.chains_eq, List.append_assoc]
  link_eq := hsplit.link_eq
  leads := by simp
  tail_empty := by
    intro d hd
    cases rest with
    | nil => simp at hd
    | cons c rest =>
      rcases List.mem_append.mp hd with hd | hd
      · exact hsplit.tail_empty d hd
      · rw [List.mem_singleton.mp hd, BufferChain.off_empty]

/-- A buffer takes a new chain and is still ready to be read into. -/
theorem ReadState.withChain {b : Buffer} (hb : b.ReadState) {size : ℕ}
    (hsize : (BufferChain.empty b.fresh size).Bounded) : (b.withChain size).ReadState where
  toWellFormed :=
    hb.toWellFormed.snoc (BufferChain.addr_empty ..) hsize (Nat.add_zero _).symm hb.total_lt
  packed := by
    intro c hc
    rcases List.mem_append.mp hc with hc | hc
    · exact hb.packed c hc
    · rw [List.mem_singleton.mp hc]
      exact BufferChain.packed_empty hsize
  link := by
    obtain ⟨before, rest, hsplit⟩ := hb.link
    exact ⟨before, _, hsplit.withChain size⟩

/-- The free room of the chains that a read of `n` bytes offers: those from
`*lastWithData_` on, and a new one if they do not suffice. -/
def reservation (b : Buffer) (n : ℕ) : List ℕ :=
  match b.follow b.lastWithData with
  | .ok (_, rest) =>
    if n ≤ (rooms rest).sum then rooms rest
    else rooms rest ++ [allocatedSize (n - (rooms rest).sum)]
  | .error _ => []

/-- What a read of `n` bytes finds in the buffer that has been expanded for it. -/
structure Reserved (b b' : Buffer) (n : ℕ) (before rest : List BufferChain) : Prop where
  state : b'.ReadState
  split : b'.SplitsAt before rest
  nonempty : rest ≠ []
  suffices_rooms : n ≤ (rooms rest).sum
  rooms_eq : 0 < n → rooms rest = b.reservation n
  stored_eq : b'.stored = b.stored
  total_eq : b'.totalSize = b.totalSize

/-- A linked buffer can be expanded. -/
theorem Linked.expandable {b : Buffer} (hb : b.Linked) : b.Expandable :=
  ⟨hb.distinct, hb.allocated, hb.bounded, hb.last_eq, hb.link⟩

/-- `bufferExpandFast` leaves a buffer alone that has room for `n` bytes from
`*lastWithData_` on, and else links a chain for the bytes that lack room at the end. -/
theorem Linked.bufferExpandFast_ok {b : Buffer} (hb : b.Linked) {before rest : List BufferChain}
    (hsplit : b.Splits before rest) {n : ℕ} (hn : n < 2 ^ 32) :
    (b.bufferExpandFast n = .ok b ∧ rest ≠ [] ∧ n ≤ (rooms rest).sum) ∨
    (b.bufferExpandFast n = .ok (b.withChain (allocatedSize (n - (rooms rest).sum))) ∧
      (rest = [] ∨ (rooms rest).sum < n)) := by
  have hn' : n ≤ 2 ^ 63 := by omega
  obtain ⟨rest', hkeeps, hscan⟩ := hb.expandable.bufferExpandFast_eq hsplit hn'
  -- empty chains have no gap, so the scan changes nothing
  have haligned : ∀ c ∈ rest, c.off = 0 → c.misalign = 0 :=
    fun c hc => hb.aligned c (by simp [hsplit.chains_eq, hc])
  have hsame : ({ b with chains := before ++ rest' } : Buffer) = b := by
    rw [hkeeps.eq_of_aligned haligned, ← hsplit.chains_eq]
  rw [hsame, hkeeps.eq_of_aligned haligned] at hscan
  exact hscan

/-- `bufferExpandFast` reserves room for `n` bytes. -/
theorem ReadState.bufferExpandFast_ok {b : Buffer} (hb : b.ReadState) {n : ℕ} (hn : n < 2 ^ 32) :
    ∃ b' before rest, b.bufferExpandFast n = .ok b' ∧ b.Reserved b' n before rest := by
  obtain ⟨before, rest, hsplit⟩ := hb.link
  have hfollow := hsplit.follow_eq hb.distinct
  rcases hb.linked.bufferExpandFast_ok hsplit.splits hn with ⟨hok, hrest, hroom⟩ | ⟨hok, hlack⟩
  · refine ⟨b, before, rest, hok, hb, hsplit, hrest, hroom, fun _ => ?_, rfl, rfl⟩
    rw [reservation, hfollow]
    exact (if_pos hroom).symm
  · obtain ⟨-, hle, hbounded⟩ :=
      createNewBufferChain_eq b.fresh (n := n - (rooms rest).sum) (by omega)
    refine ⟨_, before, _, hok, hb.withChain hbounded, hsplit.withChain _, by simp, ?_,
      fun hpos => ?_, by simp, rfl⟩
    · rw [rooms_append_empty hbounded, List.sum_append, List.sum_singleton]
      omega
    · have hlt : (rooms rest).sum < n := by
        rcases hlack with rfl | hlt
        · simpa using hpos
        · exact hlt
      rw [reservation, hfollow, rooms_append_empty hbounded]
      exact (if_neg (Nat.not_le.mpr hlt)).symm

end Buffer

end Reactor
