import Reactor.Buffer.Drain

/-!
# Adding to a buffer that only its user has touched

`bufferAdd` links a new chain before it sets the chain's `off_`, so the test in
`bufferInsertChain` never moves `lastWithData_`: as long as only the user's operations
run, the pointer stays at `&first_` and `bufferAdd` writes to the first chain. The
lemmas compute its three branches, and the condition says when they append at the end.
-/

namespace Reactor

open Transition

namespace Buffer

/-- What the user's operations keep besides well-formedness: `lastWithData_` is
`&first_`, and a chain without data has no gap. -/
structure UserState (b : Buffer) : Prop extends b.WellFormed where
  link_first : b.lastWithData = .first
  aligned : ∀ c ∈ b.chains, c.off = 0 → c.misalign = 0

/-- A buffer in which nothing has been stored yet. -/
theorem userState_empty : ({} : Buffer).UserState where
  toWellFormed := wellFormed_empty
  link_first := rfl
  aligned := by simp

section

variable {b : Buffer} {c : BufferChain} {rest : List BufferChain}

/-- A change of the first chain that keeps its address and its bounds. -/
theorem WellFormed.setFirst (hb : b.WellFormed) (hchains : b.chains = c :: rest)
    (c' : BufferChain) (haddr : c'.addr = c.addr) (hbounded : c'.Bounded) {totalSize : ℕ}
    (htotal : totalSize = c'.off + (rest.map BufferChain.off).sum) (hlt : totalSize < 2 ^ 64) :
    ({ b with chains := c' :: rest, totalSize } : Buffer).WellFormed where
  distinct := by
    have h := hb.distinct
    rw [hchains] at h
    simpa only [List.map_cons, haddr] using h
  allocated := by
    have h := hb.allocated
    rw [hchains] at h
    simpa only [List.forall_mem_cons, haddr] using h
  bounded := by
    have h := hb.bounded
    rw [hchains] at h
    exact List.forall_mem_cons.mpr ⟨hbounded, (List.forall_mem_cons.mp h).2⟩
  last_eq := by
    rw [hb.last_eq, hchains]
    cases h : rest.getLast? <;> simp [List.getLast?_cons, h, haddr]
  total_eq := by rw [htotal, List.map_cons, List.sum_cons]
  total_lt := hlt

/-- A new chain at the end of the list. -/
theorem WellFormed.snoc (hb : b.WellFormed) (haddr : c.addr = b.fresh) (hbounded : c.Bounded)
    {totalSize : ℕ} (htotal : totalSize = b.totalSize + c.off) (hlt : totalSize < 2 ^ 64) :
    ({ b with
      chains := b.chains ++ [c], last := some c.addr, totalSize, fresh := b.fresh + 1 } :
      Buffer).WellFormed where
  distinct := nodup_addr_concat hb.distinct hb.allocated haddr
  allocated := addr_lt_concat hb.allocated haddr
  bounded := by
    intro d hd
    rcases List.mem_append.mp hd with hd | hd
    · exact hb.bounded d hd
    · rwa [List.mem_singleton.mp hd]
  last_eq := by simp
  total_eq := by simp [htotal, hb.total_eq]
  total_lt := hlt

/-! ## The branches of `bufferAdd` -/

/-- With data in every chain, a new empty chain is linked at the end. -/
theorem bufferInsertChain_ok (hlink : b.lastWithData = .first)
    (hdata : ∀ d ∈ b.chains, d.off ≠ 0) (hc : c.off = 0) :
    b.bufferInsertChain c =
      .ok { b with chains := b.chains ++ [c], last := some c.addr } := by
  have htake : b.chains.takeWhile (fun d => d.off != 0) = b.chains :=
    List.takeWhile_eq_self_iff.mpr fun d hd => bne_iff_ne.mpr (hdata d hd)
  have hdrop : b.chains.dropWhile (fun d => d.off != 0) = [] :=
    List.dropWhile_eq_nil_iff.mpr fun d hd => bne_iff_ne.mpr (hdata d hd)
  simp only [bufferInsertChain, follow, hlink, ok_bind, htake, hdrop]
  simp [hc]

/-- An empty chain in the list is deleted and then read. -/
theorem bufferInsertChain_error (hlink : b.lastWithData = .first)
    (hempty : ∃ d ∈ b.chains, d.off = 0) : ∃ e, b.bufferInsertChain c = .error e := by
  have hdrop : b.chains.dropWhile (fun d => d.off != 0) ≠ [] := by
    obtain ⟨d, hd, hoff⟩ := hempty
    intro h
    have := List.dropWhile_eq_nil_iff.mp h d hd
    simp [hoff] at this
  obtain ⟨d, tail, htail⟩ := List.exists_cons_of_ne_nil hdrop
  simp only [bufferInsertChain, follow, hlink, ok_bind, htail]
  cases afterChainisEmpty (d :: tail) <;> simp [deleteAfterChain]

/-- The last branch of `bufferAdd` puts what is left of the data into a new last chain. -/
theorem addChain_ok (hlink : b.lastWithData = .first) (hb : ∀ d ∈ b.chains, d.addr < b.fresh)
    (hdata : ∀ d ∈ b.chains, d.off ≠ 0) {data : List Cell} (hlen : data.length ≤ 2 ^ 63) :
    ∃ size, data.length ≤ size ∧ (BufferChain.empty b.fresh size).Bounded ∧
      b.addChain data = .ok { b with
        chains := b.chains ++ [(BufferChain.empty b.fresh size).append data]
        last := some b.fresh
        totalSize := sizeAdd b.totalSize data.length
        fresh := b.fresh + 1 } := by
  obtain ⟨size, hnew, hle, hbounded⟩ := createNewBufferChain_ok b.fresh hlen
  refine ⟨size, hle, hbounded, ?_⟩
  have hcopy := BufferChain.memcpy_of_le (c := BufferChain.empty b.fresh size) (p := 0)
    (d := data) (by simpa using hle)
  have hinsert := bufferInsertChain_ok (b := { b with fresh := b.fresh + 1 }) hlink hdata
    (c := (BufferChain.empty b.fresh size).written 0 data) rfl
  rw [addChain, hnew, ok_bind, BufferChain.misalign_empty, BufferChain.off_empty, Nat.add_zero,
    hcopy, ok_bind, hinsert, ok_bind, locate_append [] rfl fun d hd => (hb d hd).ne]
  rfl

/-- While there is a chain without data a further one cannot be added: the insertion faults. -/
theorem addChain_error (hlink : b.lastWithData = .first) (hempty : ∃ d ∈ b.chains, d.off = 0)
    (data : List Cell) : ∃ e, b.addChain data = .error e := by
  unfold addChain
  cases hnew : createNewBufferChain b.fresh data.length with
  | error e => exact ⟨e, rfl⟩
  | ok chain =>
    cases hcopy : chain.memcpy (chain.misalign + chain.off) data with
    | error e => exact ⟨e, by simp [hcopy]⟩
    | ok chain =>
      obtain ⟨e, he⟩ := bufferInsertChain_error (b := { b with fresh := b.fresh + 1 })
        (c := chain) hlink hempty
      exact ⟨e, by simp [hcopy, he]⟩

/-- The first chain of a nonempty list is the target. -/
theorem targetChain_cons (hlink : b.lastWithData = .first) (hchains : b.chains = c :: rest)
    (n : ℕ) : b.targetChain n = .ok (b, c.addr) := by
  simp [targetChain, hlink, hchains]

/-- A buffer that has chains is added to in its first one. -/
theorem bufferAdd_cons (hlink : b.lastWithData = .first) (hchains : b.chains = c :: rest)
    (data : List UInt8) : b.bufferAdd data = b.addTo c.addr (data.map some) := by
  rw [bufferAdd, targetChain_cons hlink hchains, ok_bind]

/-- An empty list gets a first chain, on which the call then goes on. -/
theorem bufferAdd_nil (hlink : b.lastWithData = .first) (hchains : b.chains = [])
    (hlast : b.last = none) {data : List UInt8} (hlen : data.length ≤ 2 ^ 63) :
    ∃ size, data.length ≤ size ∧ (BufferChain.empty b.fresh size).Bounded ∧
      b.bufferAdd data = bufferAdd { b with
        chains := [BufferChain.empty b.fresh size]
        last := some b.fresh
        fresh := b.fresh + 1 } data := by
  obtain ⟨size, hnew, hle, hbounded⟩ := createNewBufferChain_ok b.fresh hlen
  refine ⟨size, hle, hbounded, ?_⟩
  have hinsert := bufferInsertChain_ok (b := { b with fresh := b.fresh + 1 })
    (c := BufferChain.empty b.fresh size) hlink (by simp [hchains]) rfl
  simp only [hchains, hlink, hlast, List.nil_append] at hinsert
  have htarget : b.targetChain data.length = .ok ({ b with
      chains := [BufferChain.empty b.fresh size]
      last := some b.fresh
      fresh := b.fresh + 1 }, b.fresh) := by
    rw [targetChain, hlink, pointee_first, hchains, hlast, ok_bind]
    simp only [List.head?_nil, Option.map_none, Option.orElse_eq_orElse, Option.orElse_none, hnew,
      ok_bind]
    rw [hinsert]
    rfl
  have htarget' := targetChain_cons (b := { b with
      chains := [BufferChain.empty b.fresh size]
      last := some b.fresh
      fresh := b.fresh + 1 }) hlink rfl data.length
  simp only [bufferAdd, htarget, htarget', ok_bind, BufferChain.addr_empty]

/-! ### On the first chain -/

/-- The first chain is found where it is. -/
theorem locate_first (hchains : b.chains = c :: rest) :
    locate c.addr b.chains = .ok ([], c, rest) := by
  rw [hchains]
  exact locate_append rest rfl (List.forall_mem_nil _)

section

variable {data : List Cell} (hchains : b.chains = c :: rest) (hc : c.Bounded)

include hchains hc

/-- The data fit behind those of the first chain. -/
theorem addTo_fits (h : data.length < c.room) :
    b.addTo c.addr data = .ok { b with
      chains := c.append data :: rest
      totalSize := sizeAdd b.totalSize data.length } := by
  rw [addTo, locate_first hchains, ok_bind]
  dsimp only
  rw [if_pos h, BufferChain.memcpy_of_le (hc.fits_of_lt h), ok_bind, pure_eq_ok, List.nil_append,
    BufferChain.append]

/-- The data fit once those of the first chain have been moved to its front. -/
theorem addTo_realign (h : ¬ data.length < c.room) (h' : c.shouldRealign data.length = true) :
    b.addTo c.addr data = .ok { b with
      chains := c.realign.append data :: rest
      totalSize := sizeAdd b.totalSize data.length } := by
  have hle : c.realign.off + data.length ≤ c.realign.bufferSize := by
    simpa using hc.realign_fits h'
  rw [addTo, locate_first hchains, ok_bind]
  dsimp only
  rw [if_neg h, if_pos h', BufferChain.memcpy_of_le hle, ok_bind, pure_eq_ok, List.nil_append,
    BufferChain.append, BufferChain.misalign_realign, Nat.zero_add]

/-- The data fill the first chain, and what is left goes to a new one. -/
theorem addTo_split (h : ¬ data.length < c.room) (h' : ¬ c.shouldRealign data.length = true) :
    b.addTo c.addr data = addChain { b with
      chains := c.append (data.take c.room) :: rest
      totalSize := sizeAdd b.totalSize c.room } (data.drop c.room) := by
  have hroom := hc.room_eq
  have hdata := hc.data_le
  have hlen : (data.take c.room).length = c.room := List.length_take_of_le (Nat.not_lt.mp h)
  have hle : c.misalign + c.off + (data.take c.room).length ≤ c.bufferSize := by omega
  rw [addTo, locate_first hchains, ok_bind]
  dsimp only
  rw [if_neg h, if_neg h', BufferChain.memcpy_of_le hle, ok_bind, List.nil_append,
    BufferChain.append, hlen]

end

end

/-! ## What the operations count

These lemmas hold of any buffer, well formed or not. -/

/-- Inserting a chain leaves the count of bytes to the caller. -/
theorem bufferInsertChain_totalSize {b b' : Buffer} {c : BufferChain}
    (hok : b.bufferInsertChain c = .ok b') : b'.totalSize = b.totalSize := by
  obtain ⟨⟨before, rest⟩, -, hok⟩ := bind_eq_ok.mp hok
  dsimp only at hok
  split at hok
  · split at hok
    · cases hok
    · obtain ⟨-, -, hok⟩ := bind_eq_ok.mp hok
      obtain rfl := Except.ok.inj hok
      rfl
  · obtain rfl := Except.ok.inj hok
    rfl

/-- The bytes of a new chain are counted. -/
theorem addChain_totalSize {b b' : Buffer} {data : List Cell} (hok : b.addChain data = .ok b') :
    b'.totalSize = sizeAdd b.totalSize data.length := by
  obtain ⟨chain, -, hok⟩ := bind_eq_ok.mp hok
  obtain ⟨chain', -, hok⟩ := bind_eq_ok.mp hok
  obtain ⟨b₁, hinsert, hok⟩ := bind_eq_ok.mp hok
  obtain ⟨⟨before, d, rest⟩, -, hok⟩ := bind_eq_ok.mp hok
  obtain rfl := Except.ok.inj hok
  simp only [bufferInsertChain_totalSize hinsert]

/-- Choosing the chain to write to counts nothing. -/
theorem targetChain_totalSize {b b' : Buffer} {n addr : ℕ}
    (hok : b.targetChain n = .ok (b', addr)) : b'.totalSize = b.totalSize := by
  obtain ⟨target, -, hok⟩ := bind_eq_ok.mp hok
  split at hok
  · obtain ⟨rfl, -⟩ := Prod.mk.inj (Except.ok.inj hok)
    rfl
  · obtain ⟨chain, -, hok⟩ := bind_eq_ok.mp hok
    obtain ⟨b₁, hinsert, hok⟩ := bind_eq_ok.mp hok
    obtain ⟨rfl, -⟩ := Prod.mk.inj (Except.ok.inj hok)
    rw [bufferInsertChain_totalSize hinsert]

/-- The bytes added to a chain are counted. -/
theorem addTo_totalSize {b b' : Buffer} {addr : ℕ} {data : List Cell}
    (hok : b.addTo addr data = .ok b') : b'.totalSize = sizeAdd b.totalSize data.length := by
  obtain ⟨⟨before, c, rest⟩, -, hok⟩ := bind_eq_ok.mp hok
  dsimp only at hok
  split at hok
  · obtain ⟨d, -, hok⟩ := bind_eq_ok.mp hok
    obtain rfl := Except.ok.inj hok
    rfl
  · next hfits =>
    split at hok
    · obtain ⟨d, -, hok⟩ := bind_eq_ok.mp hok
      obtain rfl := Except.ok.inj hok
      rfl
    · obtain ⟨d, -, hok⟩ := bind_eq_ok.mp hok
      rw [addChain_totalSize hok, List.length_drop, sizeAdd_assoc]
      congr 1
      omega

/-- `bufferAdd` counts what it adds. -/
theorem bufferAdd_totalSize {b b' : Buffer} {data : List UInt8} (hok : b.bufferAdd data = .ok b') :
    b'.totalSize = sizeAdd b.totalSize data.length := by
  obtain ⟨⟨b₁, addr⟩, htarget, hok⟩ := bind_eq_ok.mp hok
  rw [addTo_totalSize hok, targetChain_totalSize htarget, List.length_map]

/-- `bufferDrain` counts what it removes. -/
theorem bufferDrain_totalSize {b b' : Buffer} {n : ℕ} (hok : b.bufferDrain n = .ok b') :
    b'.totalSize = b.totalSize - n := by
  rw [bufferDrain] at hok
  split at hok
  · next hle =>
    obtain rfl := Except.ok.inj hok
    dsimp only
    omega
  · obtain ⟨⟨chains, slot, remain⟩, -, hok⟩ := bind_eq_ok.mp hok
    obtain rfl := Except.ok.inj hok
    rfl

end Buffer

end Reactor
