import Reactor.Buffer.Add

/-!
# The buffer as a queue of bytes

The abstract queue appends at one end and removes at the other. The user's operations
on a `Buffer` refine it as long as every `bufferAdd` appends behind all stored bytes,
which is a condition on the shape of the chains and the length added.
-/

namespace Reactor

open Transition

/-- An operation of the user of a buffer. -/
inductive UserOp where
  /-- `bufferAdd(n, data)`. -/
  | add (data : List UInt8)
  /-- `bufferDrain(n)`. -/
  | drain (n : ℕ)
  /-- `bufferRead(char*, n)`. -/
  | read (n : ℕ)

/-- A queue of bytes together with the answers to the reads so far. -/
structure ByteQueue where
  contents : List UInt8 := []
  delivered : List (List UInt8) := []

/-- What the operations mean: `add` appends, `drain` and `read` remove the first bytes,
and `read` delivers the bytes it removes. -/
def ByteQueue.step (q : ByteQueue) : UserOp → ByteQueue
  | .add data => { q with contents := q.contents ++ data }
  | .drain n => { q with contents := q.contents.drop n }
  | .read n =>
    { contents := q.contents.drop n, delivered := q.delivered ++ [q.contents.take n] }

/-- A buffer together with the cells delivered by the reads so far. -/
structure Session where
  buffer : Buffer := {}
  delivered : List (List Cell) := []

/-- The operations as `Buffer.cpp` carries them out. -/
def Session.step (s : Session) : UserOp → Except Fault Session
  | .add data => do return { s with buffer := ← s.buffer.bufferAdd data }
  | .drain n => do return { s with buffer := ← s.buffer.bufferDrain n }
  | .read n => do
    let (buffer, data) ← s.buffer.bufferRead n
    return { buffer, delivered := s.delivered ++ [data] }

namespace Buffer

/-- The chains take `n` more bytes behind all stored ones. If the bytes go to the first
chain as a whole, no later chain holds data; if they are split, every later chain holds
data, the first chain is full unless it is the only one, and the new chain can be
allocated. -/
def TakesInOrder (n : ℕ) : List BufferChain → Prop
  | [] => n ≤ 2 ^ 63
  | c :: rest =>
    if n < c.room ∨ c.shouldRealign n = true then n = 0 ∨ ∀ d ∈ rest, d.off = 0
    else (∀ d ∈ rest, d.off ≠ 0) ∧ (c.room = 0 ∨ rest = []) ∧ n - c.room ≤ 2 ^ 63

/-- `bufferAdd` of `n` bytes appends behind all stored bytes, whose number stays a
`size_t`. -/
def AddsInOrder (b : Buffer) (n : ℕ) : Prop :=
  b.totalSize + n < 2 ^ 64 ∧ TakesInOrder n b.chains

instance (n : ℕ) : ∀ chains, Decidable (TakesInOrder n chains)
  | [] => inferInstanceAs (Decidable (n ≤ 2 ^ 63))
  | c :: rest => inferInstanceAs (Decidable (
      if n < c.room ∨ c.shouldRealign n = true then n = 0 ∨ ∀ d ∈ rest, d.off = 0
      else (∀ d ∈ rest, d.off ≠ 0) ∧
        (c.room = 0 ∨ rest = []) ∧ n - c.room ≤ 2 ^ 63))

instance (b : Buffer) (n : ℕ) : Decidable (b.AddsInOrder n) :=
  inferInstanceAs (Decidable (b.totalSize + n < 2 ^ 64 ∧ TakesInOrder n b.chains))

/-- Chains without data store nothing. -/
theorem flatMap_stored_eq_nil {chains : List BufferChain} (h : ∀ d ∈ chains, d.off = 0) :
    chains.flatMap BufferChain.stored = [] :=
  List.flatMap_eq_nil_iff.mpr fun d hd => BufferChain.stored_of_off_eq_zero (h d hd)

/-- The count is that of the first chain and of those behind it. -/
theorem UserState.total_cons {b : Buffer} (hb : b.UserState) {c : BufferChain}
    {rest : List BufferChain} (hchains : b.chains = c :: rest) :
    b.totalSize = c.off + (rest.map BufferChain.off).sum := by
  rw [hb.total_eq, hchains, List.map_cons, List.sum_cons]

/-- A change of the first chain that leaves no gap in an empty chain. -/
theorem UserState.setFirst {b : Buffer} (hb : b.UserState) {c : BufferChain}
    {rest : List BufferChain} (hchains : b.chains = c :: rest) {c' : BufferChain}
    (haddr : c'.addr = c.addr) (hbounded : c'.Bounded) (haligned : c'.off = 0 → c'.misalign = 0)
    {added : ℕ} (hoff : c'.off = c.off + added) (hlt : b.totalSize + added < 2 ^ 64) :
    UserState { b with chains := c' :: rest, totalSize := sizeAdd b.totalSize added } := by
  have htotal : sizeAdd b.totalSize added = c'.off + (rest.map BufferChain.off).sum := by
    have := hb.total_cons hchains
    rw [sizeAdd_of_lt hlt, hoff]
    omega
  have hwell := hb.toWellFormed.setFirst hchains c' haddr hbounded htotal
    (by rw [sizeAdd_of_lt hlt]; exact hlt)
  have hrest := hb.aligned
  rw [hchains] at hrest
  exact ⟨hwell, hb.link_first,
    List.forall_mem_cons.mpr ⟨haligned, (List.forall_mem_cons.mp hrest).2⟩⟩

/-- Data behind those of a first chain `c'` that stores what `c` stores. -/
theorem UserState.append_first {b : Buffer} (hb : b.UserState) {c : BufferChain}
    {rest : List BufferChain} (hchains : b.chains = c :: rest) (c' : BufferChain)
    (haddr : c'.addr = c.addr) (hstored : c'.stored = c.stored) (hoff : c'.off = c.off)
    (hbounded : c'.Bounded) (haligned : c.off = 0 → c'.misalign = 0) {data : List Cell}
    (hfit : c'.misalign + c'.off + data.length ≤ c'.bufferSize)
    (hlt : b.totalSize + data.length < 2 ^ 64) (horder : data = [] ∨ ∀ d ∈ rest, d.off = 0) :
    let b' : Buffer := { b with
      chains := c'.append data :: rest, totalSize := sizeAdd b.totalSize data.length }
    b'.UserState ∧ b'.stored = b.stored ++ data := by
  have hoff' := hbounded.off_append hfit
  refine ⟨hb.setFirst hchains ((c'.addr_append data).trans haddr) (hbounded.append hfit)
    (fun h => ?_) ?_ hlt, ?_⟩
  · exact haligned (by omega)
  · rw [hoff', hoff]
  · simp only [stored, hchains, List.flatMap_cons, hbounded.stored_append hfit, hstored]
    rcases horder with rfl | hempty
    · simp
    · simp [flatMap_stored_eq_nil hempty]

/-- A full first chain followed by chains with data: the data go to a new last chain. -/
theorem UserState.addChain_ok {b : Buffer} (hb : b.UserState) (hdata : ∀ d ∈ b.chains, d.off ≠ 0)
    (data : List Cell) (hlen : data.length ≤ 2 ^ 63) (hlt : b.totalSize + data.length < 2 ^ 64) :
    ∃ b', b.addChain data = .ok b' ∧ b'.UserState ∧ b'.stored = b.stored ++ data := by
  obtain ⟨size, hsize, hnew, hadd⟩ := Buffer.addChain_ok hb.link_first hb.allocated hdata hlen
  have hfit : (BufferChain.empty b.fresh size).misalign + (BufferChain.empty b.fresh size).off
      + data.length ≤ (BufferChain.empty b.fresh size).bufferSize := by
    simpa using hsize
  have hoff : ((BufferChain.empty b.fresh size).append data).off = data.length := by
    rw [hnew.off_append hfit, BufferChain.off_empty, Nat.zero_add]
  have htotal := sizeAdd_of_lt hlt
  have hwell := hb.toWellFormed.snoc (BufferChain.addr_append _ data) (hnew.append hfit)
    (htotal.trans (by rw [hoff])) (htotal ▸ hlt)
  refine ⟨_, hadd, ⟨hwell, hb.link_first, ?_⟩, ?_⟩
  · intro d hd
    rcases List.mem_append.mp hd with hd | hd
    · exact hb.aligned d hd
    · rw [List.mem_singleton.mp hd]
      exact fun _ => rfl
  · have hempty : (BufferChain.empty b.fresh size).stored = [] := rfl
    simp only [stored, List.flatMap_append, List.flatMap_cons, List.flatMap_nil,
      hnew.stored_append hfit, hempty, List.nil_append, List.append_nil]

/-- The three branches of `bufferAdd` append if the condition holds. -/
theorem UserState.addTo_ok {b : Buffer} (hb : b.UserState) {c : BufferChain}
    {rest : List BufferChain} (hchains : b.chains = c :: rest) {data : List Cell}
    (h : b.AddsInOrder data.length) :
    ∃ b', b.addTo c.addr data = .ok b' ∧ b'.UserState ∧ b'.stored = b.stored ++ data := by
  have hc := hb.bounded c (by simp [hchains])
  have hroom := hc.room_eq
  have haligned := hb.aligned c (by simp [hchains])
  obtain ⟨hlt, h⟩ := h
  rw [hchains, TakesInOrder] at h
  by_cases hfits : data.length < c.room
  · rw [if_pos (.inl hfits), List.length_eq_zero_iff] at h
    exact ⟨_, addTo_fits hchains hc hfits,
      hb.append_first hchains c rfl rfl rfl hc haligned (hc.fits_of_lt hfits) hlt h⟩
  by_cases hrealign : c.shouldRealign data.length = true
  · rw [if_pos (.inr hrealign), List.length_eq_zero_iff] at h
    exact ⟨_, addTo_realign hchains hc hfits hrealign, hb.append_first hchains c.realign rfl
      c.stored_realign rfl hc.realign (fun _ => rfl) (hc.realign_fits hrealign) hlt h⟩
  · rw [if_neg (not_or.mpr ⟨hfits, hrealign⟩)] at h
    obtain ⟨hdata, horder, halloc⟩ := h
    obtain ⟨hfit, hoff⟩ := hc.append_take (Nat.not_lt.mp hfits)
    have hpos : (c.append (data.take c.room)).off ≠ 0 := by
      have := hc.pos
      omega
    have hdrop : (data.drop c.room).length = data.length - c.room := List.length_drop
    -- the first chain is filled before the new chain is linked behind the others
    have hfull := hb.setFirst hchains (BufferChain.addr_append c _) (hc.append hfit)
      (fun h => absurd h hpos) hoff (by omega)
    obtain ⟨b', hok, hb', hstored⟩ := hfull.addChain_ok
      (List.forall_mem_cons.mpr ⟨hpos, hdata⟩) (data.drop c.room) (hdrop ▸ halloc) (by
        rw [hdrop]
        dsimp only
        rw [sizeAdd_of_lt (by omega)]
        omega)
    refine ⟨b', by rw [addTo_split hchains hc hfits hrealign, hok], hb', ?_⟩
    have hsplit : data.take c.room ++ data.drop c.room = data := List.take_append_drop ..
    rw [hstored]
    simp only [stored, hchains, List.flatMap_cons, hc.stored_append hfit]
    rcases horder with hroom0 | rfl
    · simp [hroom0]
    · simp [hsplit]

/-- `bufferAdd` appends the data if the condition holds. -/
theorem UserState.bufferAdd_ok {b : Buffer} (hb : b.UserState) {data : List UInt8}
    (h : b.AddsInOrder data.length) :
    ∃ b', b.bufferAdd data = .ok b' ∧ b'.UserState ∧ b'.stored = b.stored ++ data.map some := by
  cases hchains : b.chains with
  | cons c rest =>
    rw [bufferAdd_cons hb.link_first hchains]
    exact hb.addTo_ok hchains (by rwa [List.length_map])
  | nil =>
    have hlast : b.last = none := by rw [hb.last_eq, hchains]; rfl
    have hlen : data.length ≤ 2 ^ 63 := by
      have := h.2
      rwa [hchains, TakesInOrder] at this
    obtain ⟨size, hsize, hbounded, hadd⟩ := bufferAdd_nil hb.link_first hchains hlast hlen
    have hwell := hb.toWellFormed.snoc (BufferChain.addr_empty b.fresh size) hbounded
      (Nat.add_zero b.totalSize).symm hb.total_lt
    rw [hchains] at hwell
    have hb' : UserState { b with
        chains := [BufferChain.empty b.fresh size], last := some b.fresh, fresh := b.fresh + 1 } :=
      ⟨hwell, hb.link_first, by simp⟩
    rw [hadd, bufferAdd_cons hb'.link_first rfl]
    have horder : AddsInOrder { b with
        chains := [BufferChain.empty b.fresh size], last := some b.fresh, fresh := b.fresh + 1 }
        (data.map some).length := by
      rw [List.length_map]
      refine ⟨h.1, ?_⟩
      dsimp only [TakesInOrder]
      split
      · exact .inr (List.forall_mem_nil _)
      · exact ⟨List.forall_mem_nil _, .inr rfl, by omega⟩
    obtain ⟨b', hok, hstate, hstored⟩ := hb'.addTo_ok rfl horder
    refine ⟨b', hok, hstate, ?_⟩
    rw [hstored]
    simp [stored, hchains, BufferChain.stored]

/-- `bufferDrain` keeps the user's invariant. -/
theorem UserState.bufferDrain_ok {b : Buffer} (hb : b.UserState) (n : ℕ) :
    ∃ b', b.bufferDrain n = .ok b' ∧ b'.UserState ∧ b'.stored = b.stored.drop n := by
  have hlink : b.HasLink b.lastWithData := by
    rw [hb.link_first]
    trivial
  obtain ⟨b', hok, hwell, -, hstored, -⟩ := hb.toWellFormed.bufferDrain_ok hlink n
  by_cases hn : b.totalSize ≤ n
  · rw [bufferDrain_of_le hn] at hok
    obtain rfl := Except.ok.inj hok
    exact ⟨_, bufferDrain_of_le hn, ⟨hwell, rfl, by simp⟩, hstored⟩
  · obtain ⟨dropped, c, next, remain, hsplit, hlt, -, heq⟩ :=
      hb.toWellFormed.accounted.bufferDrain_lt hlink (Nat.not_le.mp hn)
    obtain rfl := Except.ok.inj (hok.symm.trans heq)
    refine ⟨_, heq, ⟨hwell, by rw [hb.link_first]; rfl, ?_⟩, hstored⟩
    refine List.forall_mem_cons.mpr ⟨fun h => ?_, fun d hd => hb.aligned d (by simp [hsplit, hd])⟩
    simp only [BufferChain.consume] at h
    omega

/-- `bufferRead` delivers the first bytes and keeps the user's invariant. -/
theorem UserState.bufferRead_ok {b : Buffer} (hb : b.UserState) (n : ℕ) :
    ∃ b', b.bufferRead n = .ok (b', b.stored.take n) ∧ b'.UserState ∧
      b'.stored = b.stored.drop n := by
  have hlink : b.HasLink b.lastWithData := by
    rw [hb.link_first]
    trivial
  obtain ⟨b', hread, hdrain | ⟨rfl, hchains⟩⟩ := hb.toWellFormed.accounted.bufferRead_ok hlink n
  · obtain ⟨b'', hok, hstate, hstored⟩ := hb.bufferDrain_ok n
    obtain rfl : b' = b'' := Except.ok.inj (hdrain.symm.trans hok)
    exact ⟨b', hread, hstate, hstored⟩
  · exact ⟨b', hread, hb, by simp [stored, hchains]⟩

end Buffer

end Reactor
