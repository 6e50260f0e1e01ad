import Reactor.Buffer.Scatter
import Mathlib.Algebra.BigOperators.Group.List.Basic

/-!
# Reading from a socket into the buffer

The adjustment of `off_` takes the last chain for full, however little of it was read.
A read is therefore recorded correctly exactly when it filled the chains it reached,
and this condition is decided by the free room before the read. Over a run of reads and
drains every step keeps the input intact if and only if every read meets it.
-/

namespace Reactor

open Transition

namespace Buffer

/-- The number of bytes that the vectors for a read of `n` bytes can take. -/
def offered (b : Buffer) (n : ℕ) : ℕ :=
  if n = 0 ∨ 2 ^ 31 ≤ n then 0 else min n ((b.reservation n).take kNumReadIovec).sum

/-- The bytes read fill the chains that the read reaches, unless none is offered, and
the size stays a `size_t`. -/
def ReadsWholeChains (b : Buffer) (pending : ℕ) (socket : List UInt8) : Prop :=
  b.totalSize + min socket.length (b.offered (getSockfdBytes pending)) < 2 ^ 64 ∧
  (getSockfdBytes pending = 0 ∨ 2 ^ 31 ≤ getSockfdBytes pending ∨
    ∃ j < kNumReadIovec, min socket.length (b.offered (getSockfdBytes pending)) =
      ((b.reservation (getSockfdBytes pending)).take (j + 1)).sum)

instance (b : Buffer) (pending : ℕ) (socket : List UInt8) :
    Decidable (b.ReadsWholeChains pending socket) :=
  inferInstanceAs (Decidable (_ ∧ (_ ∨ _ ∨ ∃ j < kNumReadIovec, _)))

/-- The read appends the `k` bytes that `readv` took from the socket, and `totalSize_`
counts them and the data of all chains. -/
def ReadsIntact (b : Buffer) (pending : ℕ) (socket : List UInt8) : Prop :=
  ∃ b' k, b.bufferReadFd pending (some socket) = .ok (b', k) ∧
    b'.stored = b.stored ++ (socket.take k).map some ∧
    b'.totalSize = b.totalSize + k ∧ b'.totalSize = (b'.chains.map BufferChain.off).sum

/-! ## One read -/

/-- With a chain behind `lastWithData_` the vectors are those of the loop. -/
theorem SplitsAt.bufferSetUpVecs_eq {b : Buffer} {before rest : List BufferChain}
    (hsplit : b.SplitsAt before rest) (hb : (b.chains.map BufferChain.addr).Nodup)
    (hrest : rest ≠ []) (n i : ℕ) : b.bufferSetUpVecs n i = setUpVecsLoop n i rest 0 := by
  rw [bufferSetUpVecs, hsplit.follow_eq hb, ok_bind]
  simp [List.isEmpty_eq_false_iff.mpr hrest]

section

variable {b : Buffer} (hb : b.ReadState) {pending : ℕ} (socket : List UInt8)

include hb

/-- A read of no bytes, or of more than an `int` counts, leaves the data alone. -/
theorem ReadState.bufferReadFd_nothing
    (h : getSockfdBytes pending = 0 ∨ 2 ^ 31 ≤ getSockfdBytes pending) :
    ∃ b', b.bufferReadFd pending (some socket) = .ok (b', 0) ∧ b'.ReadState ∧
      b'.stored = b.stored ∧ b'.totalSize = b.totalSize := by
  have hlt := getSockfdBytes_lt pending
  obtain ⟨b', before, rest, hexpand, hres⟩ := hb.bufferExpandFast_ok hlt
  have hfollow := hres.split.follow_eq hres.state.distinct
  have hint : toInt (getSockfdBytes pending) ≤ 0 := by
    rcases h with h | h
    · rw [h, toInt_of_lt (by omega), Nat.cast_zero]
    · exact toInt_nonpos h hlt
  have hvecs : b'.bufferSetUpVecs (getSockfdBytes pending) kNumReadIovec = .ok [] := by
    rw [hres.split.bufferSetUpVecs_eq hres.state.distinct hres.nonempty,
      setUpVecsLoop_of_nonpos hint]
  have hsame : ({ b' with
      chains := before ++ rest, totalSize := sizeAdd b'.totalSize 0 } : Buffer) = b' := by
    rw [← hres.split.chains_eq, sizeAdd_zero hres.state.total_lt]
  refine ⟨b', ?_, hres.state, hres.stored_eq, hres.total_eq⟩
  rw [bufferReadFd, hexpand, ok_bind, hvecs, ok_bind]
  simp only [readv, hfollow, totalLen, List.map_nil, List.sum_nil, List.take_zero, Option.map_some,
    List.length_nil, ssizeToSize, adjustLoop, ok_bind, Option.getD_none, hsame, pure_eq_ok]

/-- A read fills the first of the chains that have room for what it takes, whatever it
takes. -/
theorem ReadState.bufferReadFd_some (hpos : 0 < getSockfdBytes pending)
    (hlt : getSockfdBytes pending < 2 ^ 31) :
    ∃ b' before rest, b.Reserved b' (getSockfdBytes pending) before rest ∧
      ∃ done c next, scatter kNumReadIovec (getSockfdBytes pending) rest
        ((socket.take (b.offered (getSockfdBytes pending))).map some) = done ++ c :: next ∧
      done.length < kNumReadIovec ∧
      ((rooms done).sum < min socket.length (b.offered (getSockfdBytes pending)) ∨ done = []) ∧
      min socket.length (b.offered (getSockfdBytes pending)) ≤ (rooms done).sum + c.room ∧
      b.bufferReadFd pending (some socket) = .ok ({ b' with
        chains := before ++ (done.map fill ++ fill c :: next)
        lastWithData := linkAfter .first (before ++ done)
        totalSize := sizeAdd b'.totalSize
          (min socket.length (b.offered (getSockfdBytes pending))) },
        min socket.length (b.offered (getSockfdBytes pending))) := by
  obtain ⟨b', before, rest, hexpand, hres⟩ := hb.bufferExpandFast_ok (getSockfdBytes_lt pending)
  refine ⟨b', before, rest, hres, ?_⟩
  have hpacked (c) (hc : c ∈ rest) : c.Packed :=
    hres.state.packed c (by simp [hres.split.chains_eq, hc])
  have hnodup := hres.state.distinct
  rw [hres.split.chains_eq] at hnodup
  rw [bufferReadFd, hexpand, ok_bind]
  generalize getSockfdBytes pending = n at *
  have hvecs : b'.bufferSetUpVecs n kNumReadIovec = .ok (vectors kNumReadIovec n rest) := by
    rw [hres.split.bufferSetUpVecs_eq hres.state.distinct hres.nonempty]
    exact setUpVecsLoop_eq hlt kNumReadIovec (Nat.zero_le n) hres.suffices_rooms
  have htotal : totalLen (vectors kNumReadIovec n rest) = b.offered n := by
    rw [totalLen_vectors, hres.rooms_eq hpos, offered, if_neg (by omega)]
  have hne := vectors_ne_nil (i := kNumReadIovec) (by decide) hpos hres.nonempty
  have hlen := length_vectors_le kNumReadIovec n rest
  have hle := totalLen_vectors_le kNumReadIovec n rest
  rw [htotal] at hle
  generalize hdata : (socket.take (b.offered n)).map some = data
  have hk : min (b.offered n) socket.length = data.length := by
    rw [← hdata, List.length_map, List.length_take]
  rw [Nat.min_comm]
  have hsame : ({ b' with chains := before ++ rest } : Buffer) = b' := by
    rw [← hres.split.chains_eq]
  have hreadv := readv_vectors b' before hnodup (fun c hc => (hpacked c hc).toBounded)
    kNumReadIovec n data
  rw [hsame] at hreadv
  have hfollow' := (hres.split.scatter kNumReadIovec n data).follow_eq (by
    rwa [List.map_append, addr_scatter, ← List.map_append])
  have hlength := congrArg List.length (addr_scatter kNumReadIovec n rest data)
  simp only [List.length_map] at hlength
  obtain ⟨done, c, next, hscatter, hdone, hsum, hroom, hadjust⟩ :=
    adjustLoop_ok (fun c hc => (packed_scatter kNumReadIovec n data hpacked c hc).toBounded)
      (List.length_pos_iff.mpr hne) (by omega) b'.lastWithData (k := data.length)
      (by rw [rooms_scatter, ← hk]; omega)
  refine ⟨done, c, next, hscatter, by omega, ?_, ?_, ?_⟩
  · rwa [hk]
  · rwa [hk]
  · rw [hvecs, ok_bind, hk]
    simp only [Option.map_some, Option.getD_some, htotal, hdata, hreadv, ok_bind, hfollow',
      ssizeToSize, List.length_take]
    rw [hk, hadjust, ok_bind, hres.split.link_eq, linkAfter_append]
    rfl

end

/-! ## The condition is exact -/

/-- What is taken fills the chains that the read reaches exactly when it is the room of
some of the chains offered. -/
theorem exists_take_sum_iff {done : List ℕ} {room k n : ℕ} (next : List ℕ)
    (hlen : done.length < n) (hlt : done.sum < k ∨ done = []) (hle : k ≤ done.sum + room) :
    (∃ j < n, k = ((done ++ room :: next).take (j + 1)).sum) ↔ k = done.sum + room := by
  have hreach (j : ℕ) (h : done.length ≤ j) :
      done.sum + room ≤ ((done ++ room :: next).take (j + 1)).sum := by
    rw [List.take_append, List.take_of_length_le (by omega), List.sum_append,
      show j + 1 - done.length = j - done.length + 1 by omega, List.take_succ_cons, List.sum_cons]
    omega
  constructor
  · rintro ⟨j, -, hk⟩
    by_cases hj : done.length ≤ j
    · have := hreach j hj
      omega
    · rcases hlt with hlt | rfl
      · have hsum := List.sum_take_add_sum_drop done (j + 1)
        rw [List.take_append_of_le_length (by omega)] at hk
        omega
      · simp at hj
  · intro hk
    refine ⟨done.length, hlen, ?_⟩
    rw [hk, List.take_length_add_append]
    simp

/-- Filled chains hold more data by the room they had. -/
theorem sum_off_fill {chains : List BufferChain} (hb : ∀ c ∈ chains, c.Bounded) :
    ((chains.map fill).map BufferChain.off).sum =
      (chains.map BufferChain.off).sum + (rooms chains).sum := by
  induction chains with
  | nil => rfl
  | cons c chains ih =>
    have hih := ih fun d hd => hb d (List.mem_cons_of_mem c hd)
    have hoff := off_fill (hb c List.mem_cons_self)
    simp only [List.map_cons, List.sum_cons, rooms_cons]
    omega

section

variable {b b' : Buffer} {n i : ℕ} {before rest : List BufferChain} {data : List Cell}
  {done : List BufferChain} {c : BufferChain} {next : List BufferChain}

/-- The room reserved, as the chains that the read has filled and those behind them. -/
theorem Reserved.reservation_eq (hres : b.Reserved b' n before rest) (hpos : 0 < n)
    (hscatter : scatter i n rest data = done ++ c :: next) :
    b.reservation n = rooms done ++ c.room :: rooms next := by
  rw [← hres.rooms_eq hpos, ← rooms_scatter, hscatter, rooms_append, rooms_cons]

/-- A read has read whole chains exactly if what it takes is the room of those it has filled. -/
theorem Reserved.readsWholeChains_iff {pending : ℕ} {socket : List UInt8}
    (hres : b.Reserved b' (getSockfdBytes pending) before rest) (hpos : 0 < getSockfdBytes pending)
    (hlt : getSockfdBytes pending < 2 ^ 31)
    (hscatter : scatter i (getSockfdBytes pending) rest data = done ++ c :: next)
    (hlen : done.length < kNumReadIovec)
    (hsum : (rooms done).sum < min socket.length (b.offered (getSockfdBytes pending)) ∨ done = [])
    (hle : min socket.length (b.offered (getSockfdBytes pending)) ≤ (rooms done).sum + c.room) :
    b.ReadsWholeChains pending socket ↔
      b.totalSize + min socket.length (b.offered (getSockfdBytes pending)) < 2 ^ 64 ∧
        min socket.length (b.offered (getSockfdBytes pending)) = (rooms done).sum + c.room := by
  rw [ReadsWholeChains, hres.reservation_eq hpos hscatter, exists_take_sum_iff (rooms next)
    (by rwa [rooms, List.length_map]) (hsum.imp_right fun h => by rw [h, rooms_nil]) hle,
    or_iff_right hpos.ne', or_iff_right hlt.not_ge]

/-- The data counted in the chains after a read. -/
theorem Reserved.sum_off (hres : b.Reserved b' n before rest)
    (hscatter : scatter i n rest data = done ++ c :: next) :
    ((before ++ (done.map fill ++ fill c :: next)).map BufferChain.off).sum =
      b'.totalSize + ((rooms done).sum + c.room) := by
  have hpacked : ∀ d ∈ done ++ c :: next, d.Packed := by
    rw [← hscatter]
    exact packed_scatter i n data fun d hd =>
      hres.state.packed d (by simp [hres.split.chains_eq, hd])
  have hdone := sum_off_fill fun d hd => (hpacked d (List.mem_append_left _ hd)).toBounded
  have hc := off_fill (hpacked c (by simp)).toBounded
  have hoff := off_scatter i n rest data
  rw [hscatter] at hoff
  rw [hres.state.total_eq, hres.split.chains_eq, @List.map_append _ _ _ _ rest, ← hoff]
  simp only [List.map_append, List.sum_append, List.map_cons, List.sum_cons] at hdone ⊢
  omega

/-- The buffer after a read of whole chains. -/
theorem Reserved.readState (hres : b.Reserved b' n before rest)
    (hscatter : scatter i n rest data = done ++ c :: next) {k : ℕ}
    (hk : k = (rooms done).sum + c.room) (hlt : b'.totalSize + k < 2 ^ 64) :
    ReadState { b' with
      chains := before ++ (done.map fill ++ fill c :: next)
      lastWithData := linkAfter .first (before ++ done)
      totalSize := sizeAdd b'.totalSize k } := by
  have hchains := hres.split.chains_eq
  have hpacked : ∀ d ∈ done ++ c :: next, d.Packed := by
    rw [← hscatter]
    exact packed_scatter i n data fun d hd => hres.state.packed d (by simp [hchains, hd])
  have hpacked' : ∀ d ∈ before ++ (done.map fill ++ fill c :: next), d.Packed := by
    intro d hd
    simp only [List.mem_append, List.mem_cons, List.mem_map] at hd
    rcases hd with hd | ⟨e, he, rfl⟩ | rfl | hd
    · exact hres.state.packed d (by simp [hchains, hd])
    · exact packed_fill (hpacked e (by simp [he]))
    · exact packed_fill (hpacked c (by simp))
    · exact hpacked d (by simp [hd])
  have haddr : (before ++ (done.map fill ++ fill c :: next)).map BufferChain.addr =
      b'.chains.map BufferChain.addr := by
    have haddr := addr_scatter i n rest data
    rw [hscatter] at haddr
    rw [hchains, @List.map_append _ _ _ _ rest, ← haddr]
    simp [Function.comp_def]
  have htotal : sizeAdd b'.totalSize k =
      ((before ++ (done.map fill ++ fill c :: next)).map BufferChain.off).sum := by
    rw [sizeAdd_of_lt hlt, hres.sum_off hscatter, hk]
  refine ⟨hres.state.toWellFormed.setChains haddr (fun d hd => (hpacked' d hd).toBounded) htotal
    (sizeAdd_lt ..), hpacked', before ++ done.map fill, fill c :: next, by simp,
    linkAfter_congr _ (by simp [Function.comp_def]), by simp, ?_⟩
  have htail := tail_scatter i n data hres.split.tail_empty
  rw [hscatter] at htail
  intro d hd
  refine htail d ?_
  cases done with
  | nil => exact hd
  | cons e done => exact List.mem_append_right _ (List.mem_cons_of_mem _ hd)

end

section

variable {b : Buffer} (hb : b.ReadState) {pending : ℕ} {socket : List UInt8}

include hb

/-- A read of whole chains appends what it read and keeps the invariant. -/
theorem ReadState.bufferReadFd_whole (h : b.ReadsWholeChains pending socket) :
    ∃ b' k, b.bufferReadFd pending (some socket) = .ok (b', k) ∧ b'.ReadState ∧
      b'.stored = b.stored ++ (socket.take k).map some ∧ b'.totalSize = b.totalSize + k := by
  by_cases hnone : getSockfdBytes pending = 0 ∨ 2 ^ 31 ≤ getSockfdBytes pending
  · obtain ⟨b', hok, hb', hstored, htotal⟩ := hb.bufferReadFd_nothing socket hnone
    exact ⟨b', 0, hok, hb', by simpa using hstored, htotal⟩
  · obtain ⟨hpos, hlt⟩ : 0 < getSockfdBytes pending ∧ getSockfdBytes pending < 2 ^ 31 := by omega
    obtain ⟨b', before, rest, hres, done, c, next, hscatter, hlen, hsum, hle, hok⟩ :=
      hb.bufferReadFd_some socket hpos hlt
    obtain ⟨hbound, hk⟩ := (hres.readsWholeChains_iff hpos hlt hscatter hlen hsum hle).mp h
    refine ⟨_, _, hok, hres.readState hscatter hk (hres.total_eq ▸ hbound), ?_, ?_⟩
    · have hoffered : b.offered (getSockfdBytes pending) ≤ getSockfdBytes pending := by
        rw [offered, if_neg hnone]
        exact Nat.min_le_left ..
      have hdata : ((socket.take (b.offered (getSockfdBytes pending))).map some).length =
          min socket.length (b.offered (getSockfdBytes pending)) := by
        rw [List.length_map, List.length_take, Nat.min_comm]
      have hfill := stored_fill_scatter
        (fun d hd => hres.state.packed d (by simp [hres.split.chains_eq, hd]))
        hres.split.tail_empty hscatter hlen hpos (by omega) (hdata.trans hk)
      rw [← hres.stored_eq, stored, stored, List.flatMap_append, hfill, hres.split.chains_eq,
        List.flatMap_append, List.append_assoc, Nat.min_comm, ← List.take_eq_take_min]
    · dsimp only
      rw [hres.total_eq, sizeAdd_of_lt hbound]

/-- A read that keeps the input intact has read whole chains. -/
theorem ReadState.wholeChains_of_intact (h : b.ReadsIntact pending socket) :
    b.ReadsWholeChains pending socket := by
  by_cases hnone : getSockfdBytes pending = 0 ∨ 2 ^ 31 ≤ getSockfdBytes pending
  · refine ⟨?_, hnone.imp_right .inl⟩
    rw [offered, if_pos hnone, Nat.min_zero]
    exact hb.total_lt
  · obtain ⟨hpos, hlt⟩ : 0 < getSockfdBytes pending ∧ getSockfdBytes pending < 2 ^ 31 := by omega
    obtain ⟨b', before, rest, hres, done, c, next, hscatter, hlen, hsum, hle, hok⟩ :=
      hb.bufferReadFd_some socket hpos hlt
    obtain ⟨b'', k, hok', -, htotal, hcount⟩ := h
    obtain ⟨rfl, rfl⟩ := Prod.mk.inj (Except.ok.inj (hok.symm.trans hok'))
    have hoff := hres.sum_off hscatter
    have hsame := hres.total_eq
    have hwrap := sizeAdd_lt b'.totalSize (min socket.length (b.offered (getSockfdBytes pending)))
    dsimp only at htotal hcount
    refine (hres.readsWholeChains_iff hpos hlt hscatter hlen hsum hle).mpr ⟨?_, ?_⟩
    · omega
    · omega

end

end Buffer

end Reactor
