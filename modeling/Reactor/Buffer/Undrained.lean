import Reactor.Buffer.Reserve

/-!
# A buffer that has only been added to

Before the first drain `bufferAdd` appends whenever it does not fault: the chains have
no gaps, all but the last are full as soon as a second one is linked, and the free cells
have never been written. `writeIovec` offers these free cells, so that all it offers is
indeterminate.
-/

namespace Reactor

open Transition

namespace BufferChain

/-- A chain filled from the front whose other cells are as they were allocated. -/
structure Unwritten (c : BufferChain) : Prop extends c.Bounded where
  misalign_eq : c.misalign = 0
  free : ∀ i, c.off ≤ i → c.buffer i = none

/-- A new chain has not been written from. -/
theorem unwritten_empty {addr size : ℕ} (h : (empty addr size).Bounded) :
    (empty addr size).Unwritten where
  toBounded := h
  misalign_eq := rfl
  free _ _ := rfl

/-- In a chain that has not been written from the room is what the data leave. -/
theorem Unwritten.room_eq {c : BufferChain} (hc : c.Unwritten) : c.room = c.bufferSize - c.off := by
  rw [hc.toBounded.room_eq, hc.misalign_eq, Nat.sub_zero]

/-- Data that fit leave a chain that has not been written from as such. -/
theorem Unwritten.append {c : BufferChain} (hc : c.Unwritten) {data : List Cell}
    (h : data.length ≤ c.room) : (c.append data).Unwritten := by
  have hroom := hc.room_eq
  have hdata := hc.data_le
  have hmis := hc.misalign_eq
  have hfit : c.misalign + c.off + data.length ≤ c.bufferSize := by omega
  have hoff := hc.off_append hfit
  refine ⟨hc.toBounded.append hfit, hmis, fun i hi => ?_⟩
  rw [hc.buffer_append hfit (by omega)]
  exact hc.free i (by omega)

/-- The free cells of such a chain hold no byte. -/
theorem Unwritten.free_cells {c : BufferChain} (hc : c.Unwritten) (n : ℕ) :
    ∀ x ∈ Memory.read c.buffer (c.misalign + c.off) n, x = none := by
  intro x hx
  obtain ⟨i, -, rfl⟩ := Memory.mem_read.mp hx
  exact hc.free _ (by omega)

end BufferChain

namespace Buffer

/-- What additions alone keep. -/
structure Undrained (b : Buffer) : Prop where
  link_first : b.lastWithData = .first
  last_eq : b.chains = [] → b.last = none
  distinct : (b.chains.map BufferChain.addr).Nodup
  allocated : ∀ c ∈ b.chains, c.addr < b.fresh
  unwritten : ∀ c ∈ b.chains, c.Unwritten
  filled : ∀ c rest, b.chains = c :: rest → rest = [] ∨ c.room = 0

/-- A new buffer is undrained. -/
theorem undrained_empty : ({} : Buffer).Undrained where
  link_first := rfl
  last_eq _ := rfl
  distinct := List.nodup_nil
  allocated := by simp
  unwritten := by simp
  filled _ _ h := by simp at h

section

variable {b : Buffer} (hb : b.Undrained) {c : BufferChain} {rest : List BufferChain}

include hb

/-- More data in the first chain. -/
theorem Undrained.setFirst (hchains : b.chains = c :: rest) {data : List Cell}
    (hfit : data.length ≤ c.room) (hfilled : rest = [] ∨ (c.append data).room = 0)
    (totalSize : ℕ) : Undrained { b with chains := c.append data :: rest, totalSize } where
  link_first := hb.link_first
  last_eq h := by simp at h
  distinct := by
    have h := hb.distinct
    rwa [hchains] at h
  allocated := by
    have h := hb.allocated
    rw [hchains, List.forall_mem_cons] at h
    exact List.forall_mem_cons.mpr h
  unwritten := by
    have h := hb.unwritten
    rw [hchains, List.forall_mem_cons] at h
    exact List.forall_mem_cons.mpr ⟨h.1.append hfit, h.2⟩
  filled d next h := by
    obtain ⟨rfl, rfl⟩ := List.cons.inj h
    exact hfilled

/-- A new chain behind full ones. -/
theorem Undrained.snoc (hc : c.Unwritten) (haddr : c.addr = b.fresh)
    (hfilled : ∀ d rest, b.chains = d :: rest → d.room = 0) (totalSize : ℕ) :
    Undrained { b with
      chains := b.chains ++ [c], last := some b.fresh, totalSize, fresh := b.fresh + 1 } where
  link_first := hb.link_first
  last_eq h := by simp at h
  distinct := nodup_addr_concat hb.distinct hb.allocated haddr
  allocated := addr_lt_concat hb.allocated haddr
  unwritten := by
    intro d hd
    rcases List.mem_append.mp hd with hd | hd
    · exact hb.unwritten d hd
    · rwa [List.mem_singleton.mp hd]
  filled := by
    intro d next h
    cases hchains : b.chains with
    | nil =>
      simp only [hchains, List.nil_append, List.cons.injEq] at h
      exact .inl h.2.symm
    | cons e es =>
      simp only [hchains, List.cons_append, List.cons.injEq] at h
      exact .inr (h.1 ▸ hfilled e es hchains)

/-- What does not fit goes to a new chain, unless the call faults. -/
theorem Undrained.addChain_keeps (hfilled : ∀ d rest, b.chains = d :: rest → d.room = 0)
    {data : List Cell} {b' : Buffer} (hok : b.addChain data = .ok b') :
    b'.Undrained ∧ b'.stored = b.stored ++ data := by
  by_cases hlen : data.length ≤ 2 ^ 63
  · by_cases hempty : ∃ d ∈ b.chains, d.off = 0
    · obtain ⟨e, he⟩ := addChain_error hb.link_first hempty data
      rw [he] at hok
      cases hok
    · have hdata : ∀ d ∈ b.chains, d.off ≠ 0 := fun d hd h => hempty ⟨d, hd, h⟩
      obtain ⟨size, hsize, hbounded, hadd⟩ :=
        addChain_ok hb.link_first hb.allocated hdata hlen
      have hnew := BufferChain.unwritten_empty hbounded
      have hfit : data.length ≤ (BufferChain.empty b.fresh size).room := by
        rw [hnew.room_eq, BufferChain.bufferSize_empty, BufferChain.off_empty]
        exact hsize
      obtain rfl := Except.ok.inj (hadd.symm.trans hok)
      refine ⟨hb.snoc (hnew.append hfit) rfl hfilled _, ?_⟩
      have hstored : ((BufferChain.empty b.fresh size).append data).stored = data :=
        hbounded.stored_append (by simpa using hsize)
      simp [stored, hstored]
  · rw [addChain, createNewBufferChain_error _ (Nat.not_le.mp hlen), error_bind] at hok
    cases hok

/-- The first chain takes what fits. -/
theorem Undrained.addTo_keeps (hchains : b.chains = c :: rest) {data : List Cell} {b' : Buffer}
    (hok : b.addTo c.addr data = .ok b') : b'.Undrained ∧ b'.stored = b.stored ++ data := by
  have hc := hb.unwritten c (by simp [hchains])
  have hroom := hc.room_eq
  have hdata := hc.data_le
  have hmis := hc.misalign_eq
  have hstored {l : List Cell} (hl : l.length ≤ c.room) : (c.append l).stored = c.stored ++ l :=
    hc.toBounded.stored_append (by omega)
  by_cases hfits : data.length < c.room
  · rw [addTo_fits hchains hc.toBounded hfits] at hok
    obtain rfl := Except.ok.inj hok
    obtain rfl : rest = [] := (hb.filled c rest hchains).resolve_right (by omega)
    refine ⟨hb.setFirst hchains hfits.le (.inl rfl) _, ?_⟩
    simp [stored, hchains, hstored hfits.le]
  · have hrealign : ¬ c.shouldRealign data.length = true := by
      rw [hc.toBounded.shouldRealign_iff]
      omega
    rw [addTo_split hchains hc.toBounded hfits hrealign] at hok
    have hlen : (data.take c.room).length = c.room :=
      List.length_take_of_le (Nat.not_lt.mp hfits)
    have hfull : (c.append (data.take c.room)).room = 0 := by
      rw [(hc.append hlen.le).room_eq, hc.toBounded.off_append (by omega), hlen,
        BufferChain.bufferSize_append]
      omega
    have hb' := hb.setFirst hchains hlen.le (.inr hfull) (sizeAdd b.totalSize c.room)
    obtain ⟨hkeep, happend⟩ := hb'.addChain_keeps
      (fun d next h => (List.cons.inj h).1 ▸ hfull) hok
    refine ⟨hkeep, ?_⟩
    rw [happend]
    simp only [stored, hchains, List.flatMap_cons, hstored hlen.le, List.append_assoc]
    rcases hb.filled c rest hchains with rfl | h0
    · simp
    · simp [h0]

/-- An addition that does not fault appends. -/
theorem Undrained.bufferAdd_keeps {data : List UInt8} {b' : Buffer}
    (hok : b.bufferAdd data = .ok b') :
    b'.Undrained ∧ b'.stored = b.stored ++ data.map some := by
  cases hchains : b.chains with
  | cons c rest =>
    rw [bufferAdd_cons hb.link_first hchains] at hok
    exact hb.addTo_keeps hchains hok
  | nil =>
    have hlast := hb.last_eq hchains
    by_cases hlen : data.length ≤ 2 ^ 63
    · obtain ⟨size, -, hbounded, hadd⟩ := bufferAdd_nil hb.link_first hchains hlast hlen
      have hb' := hb.snoc (BufferChain.unwritten_empty hbounded) rfl (by simp [hchains])
        b.totalSize
      simp only [hchains, List.nil_append] at hb'
      rw [hadd, bufferAdd_cons hb'.link_first rfl] at hok
      obtain ⟨hkeep, hstored⟩ := hb'.addTo_keeps rfl hok
      refine ⟨hkeep, ?_⟩
      rw [hstored]
      simp [stored, hchains, BufferChain.stored]
    · rw [bufferAdd, targetChain, hb.link_first, pointee_first, hchains, hlast, ok_bind] at hok
      simp [createNewBufferChain_error _ (Nat.not_le.mp hlen)] at hok

end

/-! ## What is offered to `writev` -/

/-- The loop offers free cells, as many as asked for if there are that many. -/
theorem gather_writeIovecLoop {b : Buffer} (hb : (b.chains.map BufferChain.addr).Nodup)
    (before : List BufferChain) {rest : List BufferChain} (hsplit : b.chains = before ++ rest)
    (hrest : ∀ c ∈ rest, c.Unwritten) (i n : ℕ) :
    ∃ offered, b.gather (writeIovecLoop i rest n) = .ok offered ∧ (∀ x ∈ offered, x = none) ∧
      offered.length = min n ((rooms rest).take i).sum := by
  induction i generalizing before rest n with
  | zero => exact ⟨[], rfl, by simp, by simp⟩
  | succ i ih =>
    cases rest with
    | nil => exact ⟨[], rfl, by simp, by simp⟩
    | cons c next =>
      have hc := hrest c List.mem_cons_self
      have hroom := hc.room_eq
      have hdata := hc.data_le
      have hmis := hc.misalign_eq
      have hloc := locate_append next rfl (ne_addr_of_nodup (hsplit ▸ hb))
      rw [← hsplit] at hloc
      rw [writeIovecLoop]
      by_cases h0 : n = 0
      · exact ⟨[], by rw [if_pos h0]; rfl, by simp, by simp [h0]⟩
      · rw [if_neg h0, rooms_cons, List.take_succ_cons, List.sum_cons]
        by_cases hle : c.room ≤ n
        · obtain ⟨offered, hgather, hnone, hlen⟩ := ih (before ++ [c]) (by simp [hsplit])
            (fun d hd => hrest d (List.mem_cons_of_mem _ hd)) (n - c.room)
          refine ⟨Memory.read c.buffer (c.misalign + c.off) c.room ++ offered, ?_, ?_, ?_⟩
          · rw [if_pos hle, gather, hloc, ok_bind]
            simp only [BufferChain.copyFrom_of_le (c := c) (p := c.misalign + c.off)
              (n := c.room) (by omega), ok_bind, hgather, pure_eq_ok]
          · intro x hx
            rcases List.mem_append.mp hx with hx | hx
            · exact hc.free_cells _ x hx
            · exact hnone x hx
          · rw [List.length_append, Memory.length_read, hlen]
            omega
        · refine ⟨Memory.read c.buffer (c.misalign + c.off) n, ?_, hc.free_cells _, ?_⟩
          · rw [if_neg hle, gather, hloc, ok_bind]
            simp only [BufferChain.copyFrom_of_le (c := c) (p := c.misalign + c.off)
              (n := n) (by omega), ok_bind, gather, pure_eq_ok, List.append_nil]
          · rw [Memory.length_read]
            omega

/-- `writeIovec` offers no byte that has been stored. -/
theorem Undrained.writeIovec_ok {b : Buffer} (hb : b.Undrained) (n : ℕ) :
    ∃ offered, b.writeIovec n = .ok offered ∧ (∀ x ∈ offered, x = none) ∧
      offered.length = min n ((rooms b.chains).take kNumWriteIovec).sum :=
  gather_writeIovecLoop hb.distinct [] rfl hb.unwritten kNumWriteIovec n

end Buffer

end Reactor
