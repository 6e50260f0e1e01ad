import Reactor.Buffer.Fifo
import Reactor.Buffer.Linked

/-!
# What a read from a socket offers

`bufferExpandFast` counts the free room of the whole list from `*lastWithData_` on, and
`bufferSetUpVecs` looks at four chains only. If these are full the read offers no room,
and its result 0 is taken for the end of the stream. This happens exactly when
`lastWithData_` lags four full chains behind the free room.
-/

namespace Reactor

open Transition

/-- An operation on a buffer, by its user or by the connection that fills it. -/
inductive BufferOp where
  | user (op : UserOp)
  /-- `bufferRead(fd)` when `FIONREAD` reports `pending`; `readv` fails if `socket` is
  `none`. -/
  | receive (pending : ℕ) (socket : Option (List UInt8))

namespace Buffer

/-- The operations as `Buffer.cpp` carries them out. -/
def opStep (b : Buffer) : BufferOp → Except Fault Buffer
  | .user (.add data) => b.bufferAdd data
  | .user (.drain n) => b.bufferDrain n
  | .user (.read n) => do
    let (b, _) ← b.bufferRead n
    return b
  | .receive pending socket => do
    let (b, _) ← b.bufferReadFd pending socket
    return b

/-- After `bufferExpandFast(n, 4)`, `bufferSetUpVecs(n, vecs, 4)` stays in the list and
its vectors take at least one and at most `n` bytes. -/
def OffersRoom (b : Buffer) (n : ℕ) : Prop :=
  ∃ b' vecs, b.bufferExpandFast n = .ok b' ∧ b'.bufferSetUpVecs n kNumReadIovec = .ok vecs ∧
    1 ≤ totalLen vecs ∧ totalLen vecs ≤ n

/-- A read of `n` pending bytes from a socket that has data offers room and returns a
number other than 0. -/
def KeepsAlive (b : Buffer) (n : ℕ) : Prop :=
  b.OffersRoom n ∧ ∀ socket ≠ [], ∃ b' k, b.bufferReadFd n (some socket) = .ok (b', k) ∧ k ≠ 0

/-- The chains from `*lastWithData_` on. -/
def fromLastWithData (b : Buffer) : List BufferChain :=
  match b.follow b.lastWithData with
  | .ok (_, rest) => rest
  | .error _ => []

/-- There are fewer than four chains from `*lastWithData_` on, or one of the first four
has free room. -/
def RoomInReach (b : Buffer) : Prop :=
  b.fromLastWithData.length < kNumReadIovec ∨
    ∃ c ∈ b.fromLastWithData.take kNumReadIovec, c.room ≠ 0

instance (b : Buffer) : Decidable b.RoomInReach :=
  inferInstanceAs (Decidable (_ ∨ ∃ c ∈ b.fromLastWithData.take kNumReadIovec, c.room ≠ 0))

/-- Every operation that ends without a fault keeps the list linked. -/
theorem Linked.opStep {b b' : Buffer} (hb : b.Linked) {op : BufferOp}
    (hok : b.opStep op = .ok b') : b'.Linked := by
  cases op with
  | user op =>
    cases op with
    | add data => exact hb.bufferAdd hok
    | drain n => exact hb.bufferDrain hok
    | read n =>
      obtain ⟨⟨b₁, data⟩, hread, hok⟩ := bind_eq_ok.mp hok
      obtain rfl := Except.ok.inj hok
      exact hb.bufferRead hread
  | receive pending socket =>
    obtain ⟨⟨b₁, k⟩, hread, hok⟩ := bind_eq_ok.mp hok
    obtain rfl := Except.ok.inj hok
    exact hb.bufferReadFd hread

/-- A buffer that a run reaches is linked. -/
theorem linked_of_run {ops : List BufferOp} {b : Buffer} (hrun : run opStep {} ops = .ok b) :
    b.Linked := by
  have hkeep : Always opStep Linked {} ops :=
    along_of_guarded Linked (fun _ _ hb _ _ hok => hb.opStep hok)
      (fun _ _ _ hb _ hok => hb.opStep hok) linked_empty guarded_true
  exact hkeep.at_end linked_empty hrun

/-! ## The first four chains -/

/-- The sum of some sizes is positive if and only if one of them is. -/
theorem sum_pos_iff {chains : List BufferChain} :
    0 < (rooms chains).sum ↔ ∃ c ∈ chains, c.room ≠ 0 := by
  induction chains with
  | nil => simp
  | cons c chains ih =>
    rw [rooms_cons, List.sum_cons, List.exists_mem_cons_iff, ← ih]
    omega

/-- The first four chains of the expanded list have free room if and only if room was in
reach before. -/
theorem Linked.roomInReach_iff {b b₁ : Buffer} (hb : b.Linked) {n : ℕ} (hpos : 0 < n)
    (hn : n < 2 ^ 32) (hexpand : b.bufferExpandFast n = .ok b₁) {before₁ rest₁ : List BufferChain}
    (hsplit₁ : b₁.follow b₁.lastWithData = .ok (before₁, rest₁)) :
    b.RoomInReach ↔ 0 < ((rooms rest₁).take kNumReadIovec).sum := by
  obtain ⟨before, rest, hsplit⟩ := hb.link
  have hfollow := hsplit.follow_eq hb.distinct
  have htake : (rooms rest₁).take kNumReadIovec = rooms (rest₁.take kNumReadIovec) :=
    List.map_take.symm
  rw [htake, sum_pos_iff, RoomInReach, fromLastWithData, hfollow]
  dsimp only
  rcases hb.bufferExpandFast_ok hsplit hn with ⟨hok, -, hroom⟩ | ⟨hok, hlack⟩
  · -- the room suffices, so it is found among fewer than four chains
    obtain rfl := Except.ok.inj (hok.symm.trans hexpand)
    obtain ⟨-, rfl⟩ := Prod.mk.inj (Except.ok.inj (hfollow.symm.trans hsplit₁))
    refine ⟨fun h => h.elim (fun hlen => ?_) id, .inr⟩
    rw [List.take_of_length_le hlen.le]
    exact sum_pos_iff.mp (by omega)
  · -- the new chain is in reach if it is at most the fourth
    have hlt : n - (rooms rest).sum ≠ 0 := by
      rcases hlack with rfl | hlt
      · simpa using hpos.ne'
      · omega
    obtain ⟨-, hle, hbounded⟩ :=
      createNewBufferChain_eq b.fresh (n := n - (rooms rest).sum) (by omega)
    obtain rfl := Except.ok.inj (hok.symm.trans hexpand)
    have hlinked := hb.snoc (BufferChain.addr_empty ..) hbounded (fun _ => rfl) b.totalSize
    have hfollow₁ := (hsplit.withChain (allocatedSize (n - (rooms rest).sum))).follow_eq
      hlinked.distinct
    obtain ⟨-, rfl⟩ := Prod.mk.inj (Except.ok.inj (hfollow₁.symm.trans hsplit₁))
    have hnew : (BufferChain.empty b.fresh (allocatedSize (n - (rooms rest).sum))).room ≠ 0 := by
      rw [hbounded.room_of_empty rfl rfl, BufferChain.bufferSize_empty]
      omega
    by_cases hlen : rest.length < kNumReadIovec
    · refine iff_of_true (.inl hlen) ⟨_, ?_, hnew⟩
      rw [List.take_of_length_le (by rw [List.length_append, List.length_singleton]; omega)]
      simp
    · rw [List.take_append_of_le_length (Nat.not_lt.mp hlen)]
      exact ⟨fun h => h.resolve_left hlen, .inr⟩

/-- What the vectors for a read take. -/
theorem totalLen_readVectors {n : ℕ} (hn : n < 2 ^ 31) (rest : List BufferChain) :
    totalLen (readVectors n rest) = min n ((rooms rest).take kNumReadIovec).sum := by
  rw [readVectors, if_pos hn, totalLen_vectors]

/-- A read offers room if and only if there is room in reach, unless its size is negative as
an `int`. -/
theorem Linked.offersRoom_iff {b : Buffer} (hb : b.Linked) {n : ℕ} (hpos : 0 < n)
    (hn : n < 2 ^ 32) : b.OffersRoom n ↔ n < 2 ^ 31 ∧ b.RoomInReach := by
  obtain ⟨b₁, before, rest, -, hb₁, hsplit, -, -, hexpand, hvecs, -⟩ := hb.bufferReadFd_eq n none
  rw [getSockfdBytes_of_lt hn] at hexpand hvecs
  have hfollow := hsplit.follow_eq hb₁.distinct
  constructor
  · rintro ⟨b₁', vecs, hexpand', hvecs', hone, -⟩
    obtain rfl := Except.ok.inj (hexpand.symm.trans hexpand')
    obtain rfl := Except.ok.inj (hvecs.symm.trans hvecs')
    by_cases hlt : n < 2 ^ 31
    · rw [totalLen_readVectors hlt] at hone
      exact ⟨hlt, (hb.roomInReach_iff hpos hn hexpand hfollow).mpr (by omega)⟩
    · rw [readVectors, if_neg hlt, vectors_zero] at hone
      simp [totalLen] at hone
  · rintro ⟨hlt, hreach⟩
    have hroom := (hb.roomInReach_iff hpos hn hexpand hfollow).mp hreach
    have htotal := totalLen_readVectors hlt rest
    exact ⟨b₁, _, hexpand, hvecs, by omega, by omega⟩

/-- With room in reach a read takes something from a socket that has data. -/
theorem Linked.bufferReadFd_pos {b : Buffer} (hb : b.Linked) {n : ℕ} (hpos : 0 < n)
    (hlt : n < 2 ^ 31) (hreach : b.RoomInReach) {socket : List UInt8} (hsocket : socket ≠ []) :
    ∃ b' k, b.bufferReadFd n (some socket) = .ok (b', k) ∧ k ≠ 0 := by
  obtain ⟨b₁, before, rest, written, hb₁, hsplit, hrest, -, hexpand, -, haddr, hrooms, hgood,
    heq⟩ := hb.bufferReadFd_eq n (some socket)
  rw [getSockfdBytes_of_lt (by omega)] at hexpand heq
  have hroom := (hb.roomInReach_iff hpos (by omega) hexpand (hsplit.follow_eq hb₁.distinct)).mp
    hreach
  have htotal := totalLen_readVectors hlt rest
  have hreadVectors : readVectors n rest = vectors kNumReadIovec n rest := by
    rw [readVectors, if_pos hlt]
  rw [hreadVectors] at htotal heq
  -- the vectors lie in chains that `readv` writes to, so that the adjustment stays in the list
  have hlen := congrArg List.length haddr
  rw [List.length_map, List.length_map] at hlen
  have hvlen := length_vectors_le kNumReadIovec n rest
  have hvpos := List.length_pos_iff.mpr
    (vectors_ne_nil (i := kNumReadIovec) (by decide) hpos hrest)
  have hvtotal := totalLen_vectors_le kNumReadIovec n rest
  have hsize := List.length_pos_iff.mpr hsocket
  obtain ⟨done, c, next, -, -, -, -, hadjust⟩ := adjustLoop_ok (fun c hc => (hgood c hc).1) hvpos
    (by omega) b₁.lastWithData
    (k := (socket.take (totalLen (vectors kNumReadIovec n rest))).length) (by
      rw [hrooms, List.length_take]
      omega)
  simp only [Option.map_some, ssizeToSize, hadjust, ok_bind] at heq
  refine ⟨_, _, heq, ?_⟩
  rw [List.length_take]
  omega

/-- On a linked buffer a readable descriptor is kept alive if and only if its count is an `int`
and there is room in the chains that are offered. -/
theorem Linked.keepsAlive_iff {b : Buffer} (hb : b.Linked) {n : ℕ} (hpos : 0 < n)
    (hn : n < 2 ^ 32) : b.KeepsAlive n ↔ n < 2 ^ 31 ∧ b.RoomInReach := by
  rw [KeepsAlive, hb.offersRoom_iff hpos hn]
  exact and_iff_left_of_imp fun h socket hsocket => hb.bufferReadFd_pos hpos h.1 h.2 hsocket

/-- In a buffer that any operations have led to, a read of `n` pending bytes offers room
and does not return 0 while the socket has data, if and only if `n` is an `int` and there
is room in reach. -/
theorem keepsAlive_iff_roomInReach {ops : List BufferOp} {b : Buffer}
    (hrun : run opStep {} ops = .ok b) {n : ℕ} (hpos : 0 < n) (hn : n < 2 ^ 32) :
    b.KeepsAlive n ↔ n < 2 ^ 31 ∧ b.RoomInReach :=
  (linked_of_run hrun).keepsAlive_iff hpos hn

/-- A partial read and a failed one leave room in reach. -/
theorem keepsAlive_after_failed_read :
    ∃ b, run opStep {} [.user (.add [1, 2, 3]), .receive 600 (some [4, 5]), .user (.drain 4),
      .receive 9 none] = .ok b ∧ b.KeepsAlive 700 := by
  have hcode : (run opStep {} [.user (.add [1, 2, 3]), .receive 600 (some [4, 5]),
      .user (.drain 4), .receive 9 none]).map (fun b => decide b.RoomInReach) = .ok true := by
    decide +kernel
  obtain ⟨b, hrun, hreach⟩ := map_eq_ok.mp hcode
  exact ⟨b, hrun, (keepsAlive_iff_roomInReach hrun (by omega) (by omega)).mpr
    ⟨by omega, of_decide_eq_true hreach⟩⟩

/-- Four additions that fill four chains, with `lastWithData_` at the first. -/
def fullChainsRun : List BufferOp :=
  [.user (.add (List.replicate 511 0)), .user (.add (List.replicate 513 0)),
    .user (.add (List.replicate 512 0)), .user (.add (List.replicate 512 0))]

/-- The chain that `bufferExpandFast` links is the fifth, and a read of the byte pending
returns 0. -/
theorem fullChainsRun_not_keepsAlive :
    ∃ b, run opStep {} fullChainsRun = .ok b ∧ ¬ b.KeepsAlive 1 := by
  have hcode : (run opStep {} fullChainsRun >>= fun b =>
      (b.bufferReadFd 1 (some [7])).map Prod.snd) = .ok 0 := by
    decide +kernel
  obtain ⟨b, hrun, hread⟩ := bind_eq_ok.mp hcode
  obtain ⟨⟨b', k⟩, hread, rfl⟩ := map_eq_ok.mp hread
  refine ⟨b, hrun, fun h => ?_⟩
  obtain ⟨b'', k', hread', hne⟩ := h.2 [7] (by simp)
  rw [hread'] at hread
  exact hne (Prod.mk.inj (Except.ok.inj hread)).2

end Buffer

end Reactor
