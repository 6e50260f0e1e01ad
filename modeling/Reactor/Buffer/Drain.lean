import Reactor.Buffer.Chain

/-!
# Well-formed buffers, draining and copying out

A buffer is well formed when its chains are distinct allocated blocks that hold their
data, `last_` is the end of the list and `totalSize_` counts the data. On such a
buffer `bufferDrain` removes the first bytes and `bufferCopyout` delivers them,
wherever `lastWithData_` points in the list.
-/

namespace Reactor

open Transition

namespace Buffer

/-- The representation invariant that adding, draining and reading have in common. -/
structure WellFormed (b : Buffer) : Prop where
  distinct : (b.chains.map BufferChain.addr).Nodup
  allocated : ∀ c ∈ b.chains, c.addr < b.fresh
  bounded : ∀ c ∈ b.chains, c.Bounded
  last_eq : b.last = b.chains.getLast?.map BufferChain.addr
  total_eq : b.totalSize = (b.chains.map BufferChain.off).sum
  total_lt : b.totalSize < 2 ^ 64

/-- What draining and copying out rely on, of which well-formed buffers have more. -/
structure Accounted (b : Buffer) : Prop where
  distinct : (b.chains.map BufferChain.addr).Nodup
  data_le : ∀ c ∈ b.chains, c.misalign + c.off ≤ c.bufferSize
  size_lt : ∀ c ∈ b.chains, c.bufferSize < 2 ^ 64
  total_eq : b.totalSize = (b.chains.map BufferChain.off).sum

/-- A well-formed buffer counts its bytes. -/
theorem WellFormed.accounted {b : Buffer} (hb : b.WellFormed) : b.Accounted where
  distinct := hb.distinct
  data_le c hc := (hb.bounded c hc).data_le
  size_lt c hc := by
    have := (hb.bounded c hc).size_le
    omega
  total_eq := hb.total_eq

/-- A link is `&first_` or lies in a chain of the list. -/
def HasLink (b : Buffer) : Slot → Prop
  | .first => True
  | .next addr => addr ∈ b.chains.map BufferChain.addr

/-- A new buffer is well formed. -/
theorem wellFormed_empty : ({} : Buffer).WellFormed where
  distinct := List.nodup_nil
  allocated := by simp
  bounded := by simp
  last_eq := rfl
  total_eq := rfl
  total_lt := by norm_num

/-- The chains hold as many bytes as their counts add up to. -/
theorem length_flatMap_stored (chains : List BufferChain) :
    (chains.flatMap BufferChain.stored).length = (chains.map BufferChain.off).sum := by
  simp [List.length_flatMap]

/-- What is stored is what `totalSize_` says. -/
theorem Accounted.length_stored {b : Buffer} (hb : b.Accounted) :
    b.stored.length = b.totalSize := by
  rw [hb.total_eq, stored, length_flatMap_stored]

/-- A well-formed buffer stores `totalSize_` bytes. -/
theorem WellFormed.length_stored {b : Buffer} (hb : b.WellFormed) :
    b.stored.length = b.totalSize :=
  hb.accounted.length_stored

/-- The first link points to the first chain. -/
@[simp] theorem pointee_first (b : Buffer) :
    b.pointee .first = .ok (b.chains.head?.map BufferChain.addr) := rfl

/-! ## The links of a list with distinct addresses -/

section

variable {done next : List BufferChain} {c : BufferChain}

/-- The address of a chain is not that of one before it. -/
theorem ne_addr_of_nodup (h : ((done ++ c :: next).map BufferChain.addr).Nodup) :
    ∀ d ∈ done, d.addr ≠ c.addr := by
  intro d hd heq
  rw [List.map_append, List.nodup_append] at h
  exact h.2.2 _ (List.mem_map_of_mem hd) _ (List.mem_map_of_mem List.mem_cons_self) heq

/-- The walk from `first_` over some chains ends at a link that leads behind them. -/
theorem follow_linkAfter {b : Buffer}
    (hb : (b.chains.map BufferChain.addr).Nodup) {before rest : List BufferChain}
    (hsplit : b.chains = before ++ rest) :
    b.follow (linkAfter .first before) = .ok (before, rest) := by
  rcases List.eq_nil_or_concat before with rfl | ⟨init, d, rfl⟩
  · rw [linkAfter, List.getLast?_nil, follow, hsplit, List.nil_append]
  · have hchains : b.chains = init ++ d :: rest := by rw [hsplit]; simp
    have hloc := locate_append rest rfl (ne_addr_of_nodup (hchains ▸ hb))
    simp [linkAfter, follow, hchains, hloc]

/-- A link behind the head of the rest of the list does not lead to that head. -/
theorem pointee_next_ne {b : Buffer} (hb : (b.chains.map BufferChain.addr).Nodup)
    (hsplit : b.chains = done ++ c :: next) {addr : ℕ}
    (haddr : addr ∈ (c :: next).map BufferChain.addr) :
    ∃ target, b.pointee (.next addr) = .ok target ∧ target ≠ some c.addr := by
  have hmem : addr ∈ b.chains.map BufferChain.addr := by
    rw [hsplit, List.map_append]
    exact List.mem_append_right _ haddr
  obtain ⟨before, d, rest, hloc, hchains, hd⟩ := exists_locate hmem
  refine ⟨rest.head?.map BufferChain.addr, by simp [pointee, follow, hloc], ?_⟩
  intro htarget
  cases rest with
  | nil => simp at htarget
  | cons e rest =>
    have he : e.addr = c.addr := by simpa using htarget
    have hchains' : b.chains = (before ++ [d]) ++ e :: rest := by simp [hchains]
    have h₁ := locate_append next rfl (ne_addr_of_nodup (hsplit ▸ hb))
    have h₂ := locate_append rest rfl (ne_addr_of_nodup (hchains' ▸ hb))
    rw [← hsplit] at h₁
    rw [← hchains', he, h₁] at h₂
    have hdone : done = before ++ [d] := congrArg Prod.fst (Except.ok.inj h₂)
    have hin : d ∈ done := by simp [hdone]
    rw [hsplit, List.map_append, List.nodup_append] at hb
    exact hb.2.2 _ (List.mem_map_of_mem hin) _ haddr hd

end

/-! ## Draining -/

/-- `lastWithData_` after the chains of a list have been deleted from the front. -/
def linkAfterDrain (slot : Slot) (dropped : List BufferChain) : Slot :=
  match slot with
  | .first => .first
  | .next addr => if addr ∈ dropped.map BufferChain.addr then .first else .next addr

/-- The link is moved by the deletions one after another as by all of them. -/
theorem linkAfterDrain_cons (slot : Slot) (c : BufferChain) (dropped : List BufferChain) :
    linkAfterDrain (linkAfterDrain slot [c]) dropped = linkAfterDrain slot (c :: dropped) := by
  cases slot with
  | first => rfl
  | next addr =>
    by_cases h : addr = c.addr <;> simp [linkAfterDrain, h]

/-- A link that a walk ended at is reset if the walk is part of what is deleted. -/
theorem linkAfterDrain_of_prefix (walked more : List BufferChain) :
    linkAfterDrain (linkAfter .first walked) (walked ++ more) = .first := by
  rcases List.eq_nil_or_concat walked with rfl | ⟨init, c, rfl⟩
  · rfl
  · simp [linkAfter, linkAfterDrain]

/-- A link behind what is deleted is kept. -/
theorem linkAfterDrain_append {dropped walked : List BufferChain}
    (hb : ((dropped ++ walked).map BufferChain.addr).Nodup) (hne : walked ≠ []) :
    linkAfterDrain (linkAfter .first (dropped ++ walked)) dropped = linkAfter .first walked := by
  rcases List.eq_nil_or_concat walked with rfl | ⟨init, c, rfl⟩
  · exact absurd rfl hne
  · have hnot : c.addr ∉ dropped.map BufferChain.addr := by
      intro hmem
      rw [List.map_append, List.nodup_append] at hb
      exact hb.2.2 _ hmem c.addr (List.mem_map_of_mem (by simp)) rfl
    simp only [linkAfter, ← List.append_assoc, List.concat_eq_append, List.getLast?_append,
      List.getLast?_singleton, Option.some_or, linkAfterDrain, if_neg hnot]

/-- The drain loop deletes a chain that the amount covers, and resets `lastWithData_` if
the link is in it. -/
theorem drainLoop_cons {b : Buffer} (hb : (b.chains.map BufferChain.addr).Nodup)
    {done next : List BufferChain} {c : BufferChain} (hsplit : b.chains = done ++ c :: next)
    {slot : Slot}
    (hslot : slot = .first ∨ ∃ addr ∈ (c :: next).map BufferChain.addr, slot = .next addr) {n : ℕ}
    (hle : c.off ≤ n) :
    b.drainLoop (c :: next) slot n = b.drainLoop next (linkAfterDrain slot [c]) (n - c.off) ∧
      (linkAfterDrain slot [c] = .first ∨
        ∃ addr ∈ next.map BufferChain.addr, linkAfterDrain slot [c] = .next addr) := by
  rcases hslot with rfl | ⟨addr, haddr, rfl⟩
  · exact ⟨by simp [drainLoop, hle, linkAfterDrain], .inl rfl⟩
  · constructor
    · obtain ⟨target, htarget, hne⟩ := pointee_next_ne hb hsplit haddr
      rw [drainLoop, if_pos hle, htarget, ok_bind]
      simp only [if_neg hne.symm, linkAfterDrain, List.map_cons, List.map_nil,
        List.mem_singleton, Slot.next.injEq, eq_comm (a := c.addr)]
    · by_cases h : addr = c.addr
      · exact .inl (by simp [linkAfterDrain, h])
      · have hmem : addr ∈ next.map BufferChain.addr := by simpa [h] using haddr
        exact .inr ⟨addr, hmem, by simp [linkAfterDrain, h]⟩

/-- The drain loop runs past the end of the list if the chains hold no more than the
amount. -/
theorem drainLoop_error {b : Buffer} (hb : (b.chains.map BufferChain.addr).Nodup)
    (done : List BufferChain) {rest : List BufferChain} (hsplit : b.chains = done ++ rest)
    {slot : Slot} (hslot : slot = .first ∨ ∃ addr ∈ rest.map BufferChain.addr, slot = .next addr)
    {n : ℕ} (hn : (rest.map BufferChain.off).sum ≤ n) :
    b.drainLoop rest slot n = .error .nullDereference := by
  induction rest generalizing done slot n with
  | nil => rfl
  | cons c next ih =>
    rw [List.map_cons, List.sum_cons] at hn
    obtain ⟨hstep, hslot'⟩ := drainLoop_cons hb hsplit hslot (n := n) (by omega)
    rw [hstep]
    exact ih (done ++ [c]) (by simp [hsplit]) hslot' (by omega)

/-- The drain loop stops inside the chain that holds the last byte to remove; it has
deleted the chains before it, and reset `lastWithData_` if the link was in one. -/
theorem drainLoop_ok {b : Buffer} (hb : (b.chains.map BufferChain.addr).Nodup)
    (done : List BufferChain) {rest : List BufferChain} (hsplit : b.chains = done ++ rest)
    {slot : Slot}
    (hslot : slot = .first ∨ ∃ addr ∈ rest.map BufferChain.addr, slot = .next addr) {n : ℕ}
    (hn : n < (rest.map BufferChain.off).sum) :
    ∃ dropped c next remain, rest = dropped ++ c :: next ∧ remain < c.off ∧
      (dropped.map BufferChain.off).sum + remain = n ∧
      b.drainLoop rest slot n = .ok (c :: next, linkAfterDrain slot dropped, remain) := by
  induction rest generalizing done slot n with
  | nil => simp at hn
  | cons c next ih =>
    by_cases hle : c.off ≤ n
    · obtain ⟨hstep, hslot'⟩ := drainLoop_cons hb hsplit hslot hle
      have hsum : n - c.off < (next.map BufferChain.off).sum := by
        simp only [List.map_cons, List.sum_cons] at hn
        omega
      obtain ⟨dropped, d, last, remain, hrest, hlt, hremain, heq⟩ :=
        ih (done ++ [c]) (by simp [hsplit]) hslot' hsum
      refine ⟨c :: dropped, d, last, remain, by simp [hrest], hlt, ?_, ?_⟩
      · simp only [List.map_cons, List.sum_cons]
        omega
      · rw [hstep, heq, linkAfterDrain_cons]
    · refine ⟨[], c, next, n, rfl, by omega, by simp, ?_⟩
      rw [drainLoop, if_neg hle]
      cases slot <;> rfl

end Buffer

/-- The chain without its first `k` bytes of data. -/
def BufferChain.consume (c : BufferChain) (k : ℕ) : BufferChain :=
  { c with misalign := c.misalign + k, off := c.off - k }

/-- Consuming drops bytes at the front. -/
theorem BufferChain.stored_consume (c : BufferChain) (k : ℕ) :
    (c.consume k).stored = c.stored.drop k :=
  (Memory.drop_read ..).symm

/-- A chain from which no more is consumed than it holds stays within its bounds. -/
theorem BufferChain.Bounded.consume {c : BufferChain} (hc : c.Bounded) {k : ℕ} (hk : k ≤ c.off) :
    (c.consume k).Bounded where
  data_le := by
    have := hc.data_le
    simp only [BufferChain.consume]
    omega
  pos := hc.pos
  size_le := hc.size_le

namespace Buffer

/-- A link is the first one or that of a chain. -/
theorem HasLink.cases {b : Buffer} {slot : Slot} (h : b.HasLink slot) :
    slot = .first ∨ ∃ addr ∈ b.chains.map BufferChain.addr, slot = .next addr := by
  cases slot with
  | first => exact .inl rfl
  | next addr => exact .inr ⟨addr, h, rfl⟩

/-- A drain of less than the chains hold deletes the chains it covers and opens a gap in
the next one. -/
theorem bufferDrain_of_lt {b : Buffer} (hb : (b.chains.map BufferChain.addr).Nodup)
    (hbounded : ∀ c ∈ b.chains, c.misalign + c.off ≤ c.bufferSize ∧ c.bufferSize < 2 ^ 64)
    (hlink : b.HasLink b.lastWithData) {n : ℕ} (hn : n < b.totalSize)
    (hheld : n < (b.chains.map BufferChain.off).sum) :
    ∃ dropped c next remain, b.chains = dropped ++ c :: next ∧ remain < c.off ∧
      (dropped.map BufferChain.off).sum + remain = n ∧
      b.bufferDrain n = .ok { b with
        chains := c.consume remain :: next
        lastWithData := linkAfterDrain b.lastWithData dropped
        totalSize := b.totalSize - n } := by
  obtain ⟨dropped, c, next, remain, hsplit, hlt, hsum, hloop⟩ :=
    drainLoop_ok hb [] rfl hlink.cases hheld
  refine ⟨dropped, c, next, remain, hsplit, hlt, hsum, ?_⟩
  have hadd : sizeAdd c.misalign remain = c.misalign + remain := by
    have := hbounded c (by simp [hsplit])
    exact sizeAdd_of_lt (by omega)
  rw [bufferDrain, if_neg (by omega), hloop]
  by_cases h : remain = 0
  · subst h
    rfl
  · simp [h, hadd, BufferChain.consume]

/-- A partial drain deletes the chains it covers and opens a gap in the next one. -/
theorem Accounted.bufferDrain_lt {b : Buffer} (hb : b.Accounted)
    (hlink : b.HasLink b.lastWithData) {n : ℕ} (hn : n < b.totalSize) :
    ∃ dropped c next remain, b.chains = dropped ++ c :: next ∧ remain < c.off ∧
      (dropped.map BufferChain.off).sum + remain = n ∧
      b.bufferDrain n = .ok { b with
        chains := c.consume remain :: next
        lastWithData := linkAfterDrain b.lastWithData dropped
        totalSize := b.totalSize - n } :=
  bufferDrain_of_lt hb.distinct (fun c hc => ⟨hb.data_le c hc, hb.size_lt c hc⟩) hlink hn
    (hb.total_eq ▸ hn)

/-- Draining at least the stored bytes frees the whole list. -/
theorem bufferDrain_of_le {b : Buffer} {n : ℕ} (hn : b.totalSize ≤ n) :
    b.bufferDrain n =
      .ok { b with chains := [], last := none, lastWithData := .first, totalSize := 0 } :=
  if_pos hn

/-- Without the chains deleted and the gap opened, the first bytes are missing. -/
theorem stored_eq_drop {b : Buffer} {dropped : List BufferChain} {c : BufferChain}
    {next : List BufferChain} {remain n : ℕ} (hsplit : b.chains = dropped ++ c :: next)
    (hle : remain ≤ c.off) (hsum : (dropped.map BufferChain.off).sum + remain = n) :
    (c.consume remain :: next).flatMap BufferChain.stored = b.stored.drop n := by
  have hlen : (dropped.flatMap BufferChain.stored).length + remain = n := by
    rw [length_flatMap_stored, hsum]
  simp only [stored, hsplit, List.flatMap_append, List.flatMap_cons, BufferChain.stored_consume]
  rw [← hlen, List.drop_length_add_append, List.drop_append_of_le_length]
  rwa [BufferChain.length_stored]

/-- A link stays valid when chains are drained: it falls back to the first one if its own chain
goes. -/
theorem hasLink_linkAfterDrain {b b' : Buffer} {dropped : List BufferChain}
    (hsub : ∀ addr ∈ b.chains.map BufferChain.addr, addr ∉ dropped.map BufferChain.addr →
      addr ∈ b'.chains.map BufferChain.addr) {slot : Slot} (hlink : b.HasLink slot) :
    b'.HasLink (linkAfterDrain slot dropped) := by
  cases slot with
  | first => trivial
  | next addr =>
    by_cases h : addr ∈ dropped.map BufferChain.addr
    · simp only [linkAfterDrain, if_pos h, HasLink]
    · simp only [linkAfterDrain, if_neg h]
      exact hsub addr hlink h

/-- `bufferDrain` removes the first bytes, and keeps the buffer well formed. -/
theorem WellFormed.bufferDrain_ok {b : Buffer} (hb : b.WellFormed)
    (hlink : b.HasLink b.lastWithData) (n : ℕ) :
    ∃ b', b.bufferDrain n = .ok b' ∧ b'.WellFormed ∧ b'.HasLink b'.lastWithData ∧
      b'.stored = b.stored.drop n ∧ b'.totalSize = b.totalSize - n := by
  by_cases hn : b.totalSize ≤ n
  · refine ⟨_, bufferDrain_of_le hn, ⟨?_, ?_, ?_, rfl, rfl, by norm_num⟩, trivial, ?_, by simp [hn]⟩
    · exact List.nodup_nil
    · simp
    · simp
    · rw [List.drop_eq_nil_of_le (by rw [hb.length_stored]; exact hn)]
      rfl
  · obtain ⟨dropped, c, next, remain, hsplit, hlt, hsum, heq⟩ :=
      hb.accounted.bufferDrain_lt hlink (Nat.not_le.mp hn)
    have htotal : b.totalSize = (dropped.map BufferChain.off).sum + (c.off +
        (next.map BufferChain.off).sum) := by
      rw [hb.total_eq, hsplit]
      simp
    refine ⟨_, heq, ⟨?_, ?_, ?_, ?_, ?_, ?_⟩, ?_, ?_, rfl⟩
    · have h := hb.distinct
      rw [hsplit, List.map_append] at h
      exact (List.nodup_append.mp h).2.1
    · intro d hd
      rcases List.mem_cons.mp hd with rfl | hd
      · exact hb.allocated c (by simp [hsplit])
      · exact hb.allocated d (by simp [hsplit, hd])
    · intro d hd
      rcases List.mem_cons.mp hd with rfl | hd
      · exact (hb.bounded c (by simp [hsplit])).consume hlt.le
      · exact hb.bounded d (by simp [hsplit, hd])
    · rw [hb.last_eq, hsplit]
      cases h : next.getLast? <;>
        simp [List.getLast?_append, List.getLast?_cons, h, BufferChain.consume]
    · simp only [List.map_cons, List.sum_cons, BufferChain.consume]
      omega
    · have := hb.total_lt
      dsimp only
      omega
    · refine hasLink_linkAfterDrain (fun addr haddr hnot => ?_) hlink
      rw [hsplit, List.map_append, List.mem_append] at haddr
      exact haddr.resolve_left hnot
    · exact stored_eq_drop hsplit hlt.le hsum

/-! ## Copying out -/

/-- The copy loop delivers the first bytes of the chains it walks. -/
theorem copyoutLoop_ok {chains : List BufferChain}
    (hb : ∀ c ∈ chains, c.misalign + c.off ≤ c.bufferSize) {n : ℕ}
    (hn : n ≤ (chains.map BufferChain.off).sum) :
    copyoutLoop chains n = .ok ((chains.flatMap BufferChain.stored).take n) := by
  induction chains generalizing n with
  | nil =>
    have : n = 0 := by simpa using hn
    simp [copyoutLoop, this]
  | cons c next ih =>
    have hdata := hb c List.mem_cons_self
    rw [copyoutLoop]
    by_cases hle : c.off ≤ n
    · have hsum : n - c.off ≤ (next.map BufferChain.off).sum := by
        simp only [List.map_cons, List.sum_cons] at hn
        omega
      rw [if_pos hle, BufferChain.copyFrom_of_le hdata, ok_bind,
        ih (fun d hd => hb d (List.mem_cons_of_mem _ hd)) hsum, ok_bind, pure_eq_ok,
        List.flatMap_cons, List.take_append, BufferChain.length_stored,
        List.take_of_length_le (l := c.stored) (by rwa [BufferChain.length_stored])]
      rfl
    · rw [if_neg hle, List.flatMap_cons, List.take_append_of_le_length (by simp; omega)]
      by_cases h0 : n = 0
      · simp [h0]
      · rw [if_pos h0, BufferChain.copyFrom_of_le (by omega), BufferChain.stored,
          Memory.take_read, Nat.min_eq_left (by omega)]

/-- `bufferDrain` never fails. -/
theorem Accounted.exists_bufferDrain {b : Buffer} (hb : b.Accounted)
    (hlink : b.HasLink b.lastWithData) (n : ℕ) : ∃ b', b.bufferDrain n = .ok b' := by
  by_cases hn : b.totalSize ≤ n
  · exact ⟨_, bufferDrain_of_le hn⟩
  · obtain ⟨dropped, c, next, remain, -, -, -, hok⟩ := hb.bufferDrain_lt hlink (Nat.not_le.mp hn)
    exact ⟨_, hok⟩

/-- `bufferRead(char*, size_t)` delivers the first bytes and removes them. -/
theorem Accounted.bufferRead_ok {b : Buffer} (hb : b.Accounted)
    (hlink : b.HasLink b.lastWithData) (n : ℕ) :
    ∃ b', b.bufferRead n = .ok (b', b.stored.take n) ∧
      (b.bufferDrain n = .ok b' ∨ b' = b ∧ b.chains = []) := by
  obtain ⟨b', hdrain⟩ := hb.exists_bufferDrain hlink n
  cases hchains : b.chains with
  | nil =>
    refine ⟨b, ?_, .inr ⟨rfl, rfl⟩⟩
    simp [bufferRead, bufferCopyout, hchains, stored]
  | cons c next =>
    refine ⟨b', ?_, .inl hdrain⟩
    have hlen : (if b.totalSize ≤ n then b.totalSize else n) ≤
        ((c :: next).map BufferChain.off).sum := by
      rw [← hchains, ← hb.total_eq]
      split <;> omega
    have htake : b.stored.take (if b.totalSize ≤ n then b.totalSize else n) = b.stored.take n := by
      split
      · next h => rw [← hb.length_stored, List.take_length, List.take_of_length_le]
                  rwa [hb.length_stored]
      · rfl
    have hcopy := copyoutLoop_ok (hchains ▸ hb.data_le) hlen
    rw [← hchains] at hcopy
    simp only [bufferRead, bufferCopyout, hchains]
    rw [← hchains, hcopy, ← stored, htake]
    simp [hdrain]

end Buffer

end Reactor
