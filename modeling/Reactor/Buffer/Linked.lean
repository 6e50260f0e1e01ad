import Reactor.Buffer.Scatter

/-!
# The list of chains under every operation

Whatever the counters say, no operation that ends without a fault breaks the list:
its chains stay distinct and bounded, `last_` is its end and `lastWithData_` a link of it
that leads to a chain. This covers reads that fail or fill only part of what they were
offered, after which neither `totalSize_` nor `off_` counts the data any more.
-/

namespace Reactor

open Transition

namespace Buffer

section

variable {b : Buffer} {before rest : List BufferChain}

/-- Where the chains split there is a link. -/
theorem Splits.hasLink (hsplit : b.Splits before rest) : b.HasLink b.lastWithData := by
  rw [hsplit.link_eq]
  rcases List.eq_nil_or_concat before with rfl | ⟨init, c, rfl⟩
  · trivial
  · simp [linkAfter, HasLink, hsplit.chains_eq]

/-- A list of chains with the same addresses splits in the same way. -/
theorem Splits.congr (hsplit : b.Splits before rest) {b' : Buffer}
    (haddr : b'.chains.map BufferChain.addr = b.chains.map BufferChain.addr)
    (hslot : b'.lastWithData = b.lastWithData) :
    b'.Splits (b'.chains.take before.length) (b'.chains.drop before.length) := by
  have hlen := congrArg List.length haddr
  rw [hsplit.chains_eq, List.length_map, List.length_map, List.length_append] at hlen
  have hbefore : (b'.chains.take before.length).map BufferChain.addr =
      before.map BufferChain.addr := by
    rw [List.map_take, haddr, hsplit.chains_eq, ← List.map_take, List.take_left]
  refine ⟨(List.take_append_drop ..).symm, ?_, fun h => ?_⟩
  · rw [hslot, hsplit.link_eq]
    exact linkAfter_congr _ hbefore.symm
  · have hrest : rest = [] := by
      rw [← List.length_eq_zero_iff]
      have := List.drop_eq_nil_iff.mp h
      omega
    rw [hsplit.leads hrest]
    rfl

/-- After a drain the pointer leads to the first chain, if the chain that it led to or
the one that holds it has been deleted, and else to the same chain. -/
theorem Splits.drained (hsplit : b.Splits before rest)
    (hb : (b.chains.map BufferChain.addr).Nodup) {dropped next : List BufferChain}
    {c : BufferChain} (hchains : b.chains = dropped ++ c :: next) {k : ℕ} (b' : Buffer)
    (hchains' : b'.chains = c.consume k :: next)
    (hslot : b'.lastWithData = linkAfterDrain b.lastWithData dropped) :
    (∃ m, dropped = before ++ m ∧ b'.Splits [] (c.consume k :: next)) ∨
      ∃ m, before = dropped ++ c :: m ∧ b'.Splits (c.consume k :: m) rest := by
  have hfirst (m) (h : dropped = before ++ m) : b'.Splits [] (c.consume k :: next) := by
    refine ⟨hchains', ?_, by simp⟩
    rw [hslot, hsplit.link_eq, h, linkAfterDrain_of_prefix]
    rfl
  rcases List.append_eq_append_iff.mp (hsplit.chains_eq.symm.trans hchains) with
    ⟨m, hm, -⟩ | ⟨m, hm, hrest⟩
  · exact .inl ⟨m, hm, hfirst m hm⟩
  · cases m with
    | nil =>
      rw [List.append_nil] at hm
      exact .inl ⟨[], by rw [hm, List.append_nil], hfirst [] (by rw [hm, List.append_nil])⟩
    | cons d m =>
      obtain ⟨rfl, rfl⟩ : c = d ∧ next = m ++ rest := List.cons.inj hrest
      rw [hsplit.chains_eq, List.map_append] at hb
      subst hm
      refine .inr ⟨m, rfl, hchains', ?_, fun h => absurd (hsplit.leads h) (by simp)⟩
      rw [hslot, hsplit.link_eq, linkAfterDrain_append (List.nodup_append.mp hb).1 (by simp)]
      exact linkAfter_congr .first rfl

end

/-- A new buffer is linked. -/
theorem linked_empty : ({} : Buffer).Linked :=
  readState_empty.linked

section

variable {b b' : Buffer}

/-- A buffer fit to be expanded is linked if its empty chains have no gap. -/
theorem Expandable.linked (hb : b.Expandable)
    (haligned : ∀ c ∈ b.chains, c.off = 0 → c.misalign = 0) : b.Linked :=
  ⟨hb.distinct, hb.allocated, hb.bounded, haligned, hb.last_eq, hb.link⟩

/-- A change of the chains that keeps their addresses. -/
theorem Linked.setChains (hb : b.Linked) {chains : List BufferChain}
    (haddr : chains.map BufferChain.addr = b.chains.map BufferChain.addr)
    (hbounded : ∀ c ∈ chains, c.Bounded) (haligned : ∀ c ∈ chains, c.off = 0 → c.misalign = 0)
    {slot : Slot} {totalSize : ℕ}
    (hlink : ∃ before rest, Splits { b with chains, lastWithData := slot, totalSize } before rest) :
    Linked { b with chains, lastWithData := slot, totalSize } :=
  (hb.expandable.setChains haddr hbounded hlink).linked haligned

/-- A change of one chain. -/
theorem Linked.setChain (hb : b.Linked) {init next : List BufferChain} {c : BufferChain}
    (hchains : b.chains = init ++ c :: next) (c' : BufferChain) (haddr : c'.addr = c.addr)
    (hbounded : c'.Bounded) (haligned : c'.off = 0 → c'.misalign = 0) (totalSize : ℕ) :
    Linked { b with chains := init ++ c' :: next, totalSize } := by
  have haddr' : (init ++ c' :: next).map BufferChain.addr = b.chains.map BufferChain.addr := by
    simp [hchains, haddr]
  have hold := hb.bounded
  have hold' := hb.aligned
  rw [hchains, List.forall_mem_append, List.forall_mem_cons] at hold hold'
  obtain ⟨before, rest, hsplit⟩ := hb.link
  refine hb.setChains haddr' ?_ ?_ ⟨_, _, hsplit.congr haddr' rfl⟩
  · exact List.forall_mem_append.mpr ⟨hold.1, List.forall_mem_cons.mpr ⟨hbounded, hold.2.2⟩⟩
  · exact List.forall_mem_append.mpr ⟨hold'.1, List.forall_mem_cons.mpr ⟨haligned, hold'.2.2⟩⟩

/-- An address has been given to a chain that is not in the list yet. -/
theorem Linked.allocate (hb : b.Linked) : Linked { b with fresh := b.fresh + 1 } := by
  obtain ⟨before, rest, hsplit⟩ := hb.link
  exact { hb with
    allocated := fun c hc => Nat.lt_succ_of_lt (hb.allocated c hc)
    link := ⟨before, rest, hsplit.chains_eq, hsplit.link_eq, hsplit.leads⟩ }

/-- A new chain at the end of the list. -/
theorem Linked.snoc (hb : b.Linked) {c : BufferChain} (haddr : c.addr = b.fresh)
    (hbounded : c.Bounded) (haligned : c.off = 0 → c.misalign = 0) (totalSize : ℕ) :
    Linked { b with
      chains := b.chains ++ [c], last := some c.addr, totalSize, fresh := b.fresh + 1 } :=
  (hb.expandable.snoc haddr hbounded totalSize).linked
    (List.forall_mem_append.mpr ⟨hb.aligned, List.forall_mem_singleton.mpr haligned⟩)

/-! ## Adding -/

/-- An insertion that ends without a fault has found no chain to delete. -/
theorem Linked.insert_eq (hb : b.Linked) {c : BufferChain} (hc : c.off = 0)
    (hok : b.bufferInsertChain c = .ok b') :
    b' = { b with chains := b.chains ++ [c], last := some c.addr } := by
  obtain ⟨before, rest, hsplit⟩ := hb.link
  rw [bufferInsertChain, hsplit.follow_eq hb.distinct, ok_bind] at hok
  dsimp only at hok
  cases htail : rest.dropWhile fun d => d.off != 0 with
  | cons d tail =>
    rw [htail] at hok
    cases h : afterChainisEmpty (d :: tail) <;> simp [h, deleteAfterChain] at hok
  | nil =>
    have hwalked : rest.takeWhile (fun d => d.off != 0) = rest := by
      have := List.takeWhile_append_dropWhile (p := fun d => d.off != 0) (l := rest)
      rwa [htail, List.append_nil] at this
    rw [htail, hwalked] at hok
    simp only [List.isEmpty_nil, Bool.not_true, Bool.false_eq_true, if_false, hc, bne_self_eq_false,
      pure_eq_ok] at hok
    obtain rfl := Except.ok.inj hok
    rw [hsplit.chains_eq]

/-- A new chain is linked in. -/
theorem Linked.addChain (hb : b.Linked) {data : List Cell} (hok : b.addChain data = .ok b') :
    b'.Linked := by
  obtain ⟨new, hnew, hok⟩ := bind_eq_ok.mp hok
  obtain ⟨rfl, hle, hbounded⟩ := of_createNewBufferChain hnew
  rw [BufferChain.misalign_empty, BufferChain.off_empty,
    BufferChain.memcpy_of_le (by simpa using hle), ok_bind] at hok
  obtain ⟨b₁, hinsert, hok⟩ := bind_eq_ok.mp hok
  obtain rfl := hb.allocate.insert_eq rfl hinsert
  have hfit : (BufferChain.empty b.fresh (allocatedSize data.length)).misalign +
      (BufferChain.empty b.fresh (allocatedSize data.length)).off + data.length ≤
      (BufferChain.empty b.fresh (allocatedSize data.length)).bufferSize := by
    simpa using hle
  rw [locate_append [] rfl fun d hd => (hb.allocated d hd).ne, ok_bind] at hok
  obtain rfl := Except.ok.inj hok
  exact hb.snoc (BufferChain.addr_append _ data) (hbounded.append hfit) (fun _ => rfl) _

/-- The three branches of `bufferAdd` write to a chain of the list, and the last one
links a new chain. -/
theorem Linked.addTo (hb : b.Linked) {before next : List BufferChain} {c : BufferChain}
    (hchains : b.chains = before ++ c :: next) {data : List Cell}
    (hok : b.addTo c.addr data = .ok b') : b'.Linked := by
  have hc := hb.bounded c (by simp [hchains])
  have hcdata := hc.data_le
  have hroom := hc.room_eq
  have haligned := hb.aligned c (by simp [hchains])
  have hloc := locate_append next rfl (ne_addr_of_nodup (hchains ▸ hb.distinct))
  rw [Buffer.addTo, hchains, hloc, ok_bind] at hok
  dsimp only at hok
  have happend (c' : BufferChain) (haddr : c'.addr = c.addr) (hoff : c'.off = c.off)
      (hbounded : c'.Bounded) (haligned' : c.off = 0 → c'.misalign = 0) (data : List Cell)
      (hfit : c'.misalign + c'.off + data.length ≤ c'.bufferSize) (totalSize : ℕ) :
      Linked { b with chains := before ++ c'.append data :: next, totalSize } := by
    refine hb.setChain hchains _ ((c'.addr_append data).trans haddr) (hbounded.append hfit)
      (fun h => haligned' ?_) totalSize
    have := hbounded.off_append hfit
    omega
  by_cases hfits : data.length < c.room
  · have hle := hc.fits_of_lt hfits
    rw [if_pos hfits, BufferChain.memcpy_of_le hle, ok_bind] at hok
    obtain rfl := Except.ok.inj hok
    exact happend c rfl rfl hc haligned data hle _
  rw [if_neg hfits] at hok
  by_cases hrealign : c.shouldRealign data.length = true
  · have hle := hc.realign_fits hrealign
    rw [if_pos hrealign, BufferChain.memcpy_of_le (by simpa using hle), ok_bind] at hok
    obtain rfl := Except.ok.inj hok
    have h := happend c.realign rfl rfl hc.realign (fun _ => rfl) data hle
      (sizeAdd b.totalSize data.length)
    simpa only [BufferChain.append, BufferChain.misalign_realign, Nat.zero_add] using h
  · have hlen : (data.take c.room).length = c.room :=
      List.length_take_of_le (Nat.not_lt.mp hfits)
    have hle : c.misalign + c.off + (data.take c.room).length ≤ c.bufferSize := by omega
    rw [if_neg hrealign, BufferChain.memcpy_of_le hle, ok_bind] at hok
    have hfull := happend c rfl rfl hc haligned (data.take c.room) hle (sizeAdd b.totalSize c.room)
    rw [BufferChain.append, hlen] at hfull
    exact hfull.addChain hok

/-- `bufferAdd` keeps the list linked. -/
theorem Linked.bufferAdd (hb : b.Linked) {data : List UInt8} (hok : b.bufferAdd data = .ok b') :
    b'.Linked := by
  obtain ⟨before, rest, hsplit⟩ := hb.link
  obtain ⟨⟨b₁, addr⟩, htarget, hok⟩ := bind_eq_ok.mp hok
  rw [targetChain, pointee, hsplit.follow_eq hb.distinct, ok_bind] at htarget
  cases rest with
  | cons c next =>
    obtain ⟨rfl, rfl⟩ : b = b₁ ∧ c.addr = addr := by simpa using htarget
    exact hb.addTo hsplit.chains_eq hok
  | nil =>
    obtain rfl := hsplit.leads rfl
    have hchains : b.chains = [] := hsplit.chains_eq
    have hlast : b.last = none := by rw [hb.last_eq, hchains]; rfl
    simp only [List.head?_nil, Option.map_none, pure_eq_ok, ok_bind, hlast,
      Option.orElse_eq_orElse, Option.orElse_none] at htarget
    obtain ⟨new, hnew, htarget⟩ := bind_eq_ok.mp htarget
    obtain ⟨rfl, -, hbounded⟩ := of_createNewBufferChain hnew
    obtain ⟨b₂, hinsert, htarget⟩ := bind_eq_ok.mp htarget
    obtain rfl := hb.allocate.insert_eq rfl hinsert
    obtain ⟨rfl, rfl⟩ := Prod.mk.inj (Except.ok.inj htarget)
    have hnew := hb.snoc (BufferChain.addr_empty ..) hbounded (fun _ => rfl) b.totalSize
    exact hnew.addTo rfl hok

/-! ## Draining and copying out -/

/-- `bufferDrain` keeps the list linked. -/
theorem Linked.bufferDrain (hb : b.Linked) {n : ℕ} (hok : b.bufferDrain n = .ok b') :
    b'.Linked := by
  obtain ⟨before, rest, hsplit⟩ := hb.link
  have hbounded (c) (hc : c ∈ b.chains) :
      c.misalign + c.off ≤ c.bufferSize ∧ c.bufferSize < 2 ^ 64 := by
    have := hb.bounded c hc
    exact ⟨this.data_le, this.size_le.trans_lt (by norm_num)⟩
  by_cases hn : b.totalSize ≤ n
  · rw [bufferDrain_of_le hn] at hok
    obtain rfl := Except.ok.inj hok
    exact ⟨List.nodup_nil, by simp, by simp, by simp, rfl, [], [], rfl, rfl, fun _ => rfl⟩
  by_cases hheld : n < (b.chains.map BufferChain.off).sum
  · obtain ⟨dropped, c, next, remain, hchains, hlt, -, heq⟩ :=
      bufferDrain_of_lt hb.distinct hbounded hsplit.hasLink (Nat.not_le.mp hn) hheld
    obtain rfl := Except.ok.inj (heq.symm.trans hok)
    have hdistinct := hb.distinct
    have hallocated := hb.allocated
    have hbounded := hb.bounded
    have haligned := hb.aligned
    have hlast := hb.last_eq
    simp only [hchains, List.forall_mem_append, List.forall_mem_cons]
      at hallocated hbounded haligned
    rw [hchains, List.map_append] at hdistinct
    refine ⟨(List.nodup_append.mp hdistinct).2.1, ?_, ?_, ?_, ?_, ?_⟩
    · exact List.forall_mem_cons.mpr hallocated.2
    · exact List.forall_mem_cons.mpr ⟨hbounded.2.1.consume hlt.le, hbounded.2.2⟩
    · refine List.forall_mem_cons.mpr ⟨fun h => ?_, haligned.2.2⟩
      simp only [BufferChain.consume] at h
      omega
    · rw [hlast, hchains]
      cases h : next.getLast? <;>
        simp [List.getLast?_append, List.getLast?_cons, h, BufferChain.consume]
    · rcases hsplit.drained hb.distinct hchains { b with
          chains := c.consume remain :: next
          lastWithData := linkAfterDrain b.lastWithData dropped
          totalSize := b.totalSize - n } rfl rfl with ⟨m, -, h⟩ | ⟨m, -, h⟩
      · exact ⟨_, _, h⟩
      · exact ⟨_, _, h⟩
  · rw [Buffer.bufferDrain, if_neg hn, drainLoop_error hb.distinct [] rfl hsplit.hasLink.cases
      (Nat.not_lt.mp hheld)] at hok
    cases hok

/-- `bufferRead(char*, size_t)` keeps the list linked. -/
theorem Linked.bufferRead (hb : b.Linked) {n : ℕ} {data : List Cell}
    (hok : b.bufferRead n = .ok (b', data)) : b'.Linked := by
  obtain ⟨copied, -, hok⟩ := bind_eq_ok.mp hok
  cases copied with
  | none =>
    obtain ⟨rfl, -⟩ := Prod.mk.inj (Except.ok.inj hok)
    exact hb
  | some copied =>
    obtain ⟨b₁, hdrain, hok⟩ := bind_eq_ok.mp hok
    obtain ⟨rfl, -⟩ := Prod.mk.inj (Except.ok.inj hok)
    exact hb.bufferDrain hdrain

/-! ## Reading from a socket -/

/-- The buffer that a read of `n` bytes finds after `bufferExpandFast`. -/
theorem Linked.expanded (hb : b.Linked) {n : ℕ} (hn : n < 2 ^ 32) :
    ∃ b₁ before rest, b.bufferExpandFast n = .ok b₁ ∧ b₁.Linked ∧ b₁.Splits before rest ∧
      rest ≠ [] ∧ n ≤ (rooms rest).sum := by
  obtain ⟨before, rest, hsplit⟩ := hb.link
  rcases hb.bufferExpandFast_ok hsplit hn with ⟨hok, hrest, hroom⟩ | ⟨hok, -⟩
  · exact ⟨b, before, rest, hok, hb, hsplit, hrest, hroom⟩
  · obtain ⟨-, hle, hbounded⟩ :=
      createNewBufferChain_eq b.fresh (n := n - (rooms rest).sum) (by omega)
    refine ⟨_, before, _, hok, ?_, hsplit.withChain _, by simp, ?_⟩
    · exact hb.snoc (BufferChain.addr_empty ..) hbounded (fun _ => rfl) b.totalSize
    · rw [rooms_append_empty hbounded, List.sum_append, List.sum_singleton]
      omega

/-- The vectors for a read of `n` bytes are those of the chains from `*lastWithData_` on,
and there are none if `n` is not a positive `int`. -/
theorem Splits.vectors_eq {before rest : List BufferChain} (hsplit : b.Splits before rest)
    (hb : (b.chains.map BufferChain.addr).Nodup) (hrest : rest ≠ []) {n : ℕ} (hn : n < 2 ^ 32)
    (hroom : n ≤ (rooms rest).sum) :
    b.bufferSetUpVecs n kNumReadIovec =
      .ok (vectors kNumReadIovec (if n < 2 ^ 31 then n else 0) rest) := by
  rw [bufferSetUpVecs, hsplit.follow_eq hb, ok_bind]
  simp only [List.isEmpty_eq_false_iff.mpr hrest, Bool.false_eq_true, if_false]
  by_cases hlt : n < 2 ^ 31
  · rw [if_pos hlt]
    exact setUpVecsLoop_eq hlt kNumReadIovec (Nat.zero_le n) hroom
  · rw [if_neg hlt, vectors_zero]
    exact setUpVecsLoop_of_nonpos (toInt_nonpos (Nat.not_lt.mp hlt) hn) _ _

/-- The loop that adjusts `off_` fills some of the chains, and the link it returns leads
to the last of them. -/
theorem adjustLoop_filled {i : ℕ} {chains chains' : List BufferChain} {slot : Slot}
    {slot' : Option Slot} {k : ℕ} (hok : adjustLoop i chains slot k = .ok (chains', slot')) :
    ∃ done next, chains = done ++ next ∧ chains' = done.map fill ++ next ∧
      (slot' = none ∨ ∃ init c, done = init ++ [c] ∧ slot' = some (linkAfter slot init)) := by
  induction i generalizing chains chains' slot slot' k with
  | zero =>
    obtain ⟨rfl, rfl⟩ := Prod.mk.inj (Except.ok.inj hok)
    exact ⟨[], chains, rfl, rfl, .inl rfl⟩
  | succ i ih =>
    cases chains with
    | nil => cases hok
    | cons c next =>
      rw [adjustLoop] at hok
      by_cases hlt : c.chainSpace < k
      · rw [if_pos hlt] at hok
        obtain ⟨⟨more, link⟩, hmore, hok⟩ := bind_eq_ok.mp hok
        obtain ⟨rfl, rfl⟩ := Prod.mk.inj (Except.ok.inj hok)
        obtain ⟨done, last, rfl, rfl, hlink⟩ := ih hmore
        refine ⟨c :: done, last, rfl, rfl, ?_⟩
        rcases hlink with hnone | ⟨init, d, rfl, hsome⟩
        · exact .inl hnone
        · exact .inr ⟨c :: init, d, rfl, by rw [hsome, linkAfter_cons]⟩
      · rw [if_neg hlt] at hok
        obtain ⟨rfl, rfl⟩ := Prod.mk.inj (Except.ok.inj hok)
        exact ⟨[c], next, rfl, rfl, .inr ⟨[], c, rfl, rfl⟩⟩

/-- A chain filled to its end is within its bounds. -/
theorem bounded_fill {c : BufferChain} (hc : c.Bounded) : (fill c).Bounded where
  data_le := by
    have := hc.data_le
    have := hc.room_eq
    rw [off_fill hc, misalign_fill, bufferSize_fill]
    omega
  pos := hc.pos
  size_le := hc.size_le

/-- Scattered data leave every chain within its bounds, and the empty ones without a gap. -/
theorem linked_scatter (i left : ℕ) {chains : List BufferChain} (data : List Cell)
    (h : ∀ c ∈ chains, c.Bounded ∧ (c.off = 0 → c.misalign = 0)) :
    ∀ c ∈ scatter i left chains data, c.Bounded ∧ (c.off = 0 → c.misalign = 0) := by
  induction i generalizing left chains data with
  | zero => exact h
  | succ i ih =>
    cases chains with
    | nil => exact h
    | cons c next =>
      rw [scatter]
      split
      · exact h
      · obtain ⟨hc, haligned⟩ := h c List.mem_cons_self
        exact List.forall_mem_cons.mpr
          ⟨⟨hc.written .., haligned⟩, ih _ _ fun d hd => h d (List.mem_cons_of_mem _ hd)⟩

/-- The vectors that a read of `n` bytes fills. -/
def readVectors (n : ℕ) (rest : List BufferChain) : List Iovec :=
  vectors kNumReadIovec (if n < 2 ^ 31 then n else 0) rest

/-- `bufferRead(int)` up to the adjustment of `off_`: the list has room for the bytes
pending, and the chains that `readv` writes to have kept their counters. -/
theorem Linked.bufferReadFd_eq (hb : b.Linked) (pending : ℕ) (socket : Option (List UInt8)) :
    ∃ b₁ before rest written, b₁.Linked ∧ b₁.Splits before rest ∧ rest ≠ [] ∧
      getSockfdBytes pending ≤ (rooms rest).sum ∧
      b.bufferExpandFast (getSockfdBytes pending) = .ok b₁ ∧
      b₁.bufferSetUpVecs (getSockfdBytes pending) kNumReadIovec =
        .ok (readVectors (getSockfdBytes pending) rest) ∧
      written.map BufferChain.addr = rest.map BufferChain.addr ∧ rooms written = rooms rest ∧
      (∀ c ∈ written, c.Bounded ∧ (c.off = 0 → c.misalign = 0)) ∧
      b.bufferReadFd pending socket = (do
        let received := socket.map fun data =>
          data.take (totalLen (readVectors (getSockfdBytes pending) rest))
        let n := ssizeToSize (received.map List.length)
        let (chains, slot) ← adjustLoop (readVectors (getSockfdBytes pending) rest).length written
          b₁.lastWithData n
        return ({ b₁ with
          chains := before ++ chains
          lastWithData := slot.getD b₁.lastWithData
          totalSize := sizeAdd b₁.totalSize n }, n)) := by
  have hlt := getSockfdBytes_lt pending
  obtain ⟨b₁, before, rest, hexpand, hb₁, hsplit, hrest, hroom⟩ := hb.expanded hlt
  have hvecs := hsplit.vectors_eq hb₁.distinct hrest hlt hroom
  have hbounded (c) (hc : c ∈ rest) : c.Bounded := hb₁.bounded c (by simp [hsplit.chains_eq, hc])
  have hsame : ({ b₁ with chains := before ++ rest } : Buffer) = b₁ := by rw [← hsplit.chains_eq]
  have hnodup := hb₁.distinct
  rw [hsplit.chains_eq] at hnodup
  rw [Buffer.bufferReadFd, hexpand, ok_bind, hvecs, ok_bind]
  simp only [readVectors]
  generalize (if getSockfdBytes pending < 2 ^ 31 then getSockfdBytes pending else 0) = left at *
  generalize ((socket.map fun data =>
    data.take (totalLen (vectors kNumReadIovec left rest))).getD []).map some = data
  have hreadv := readv_vectors b₁ before hnodup hbounded kNumReadIovec left data
  rw [hsame] at hreadv
  have hchains : (before ++ scatter kNumReadIovec left rest data).map BufferChain.addr =
      (before ++ rest).map BufferChain.addr := by
    rw [List.map_append, addr_scatter, List.map_append]
  have hfollow := follow_linkAfter (b := { b₁ with
    chains := before ++ scatter kNumReadIovec left rest data }) (hchains ▸ hnodup) rfl
  rw [← hsplit.link_eq] at hfollow
  refine ⟨b₁, before, rest, scatter kNumReadIovec left rest data, hb₁, hsplit, hrest, hroom,
    rfl, hvecs, addr_scatter .., rooms_scatter .., ?_, ?_⟩
  · have haligned (c) (hc : c ∈ rest) := hb₁.aligned c (by simp [hsplit.chains_eq, hc])
    exact linked_scatter _ _ data fun c hc => ⟨hbounded c hc, haligned c hc⟩
  · rw [hreadv, ok_bind, hfollow, ok_bind]

/-- `bufferRead(int)` keeps the list linked, however much `readv` takes. -/
theorem Linked.bufferReadFd (hb : b.Linked) {pending k : ℕ} {socket : Option (List UInt8)}
    (hok : b.bufferReadFd pending socket = .ok (b', k)) : b'.Linked := by
  obtain ⟨b₁, before, rest, written, hb₁, hsplit, -, -, -, -, hwritten, -, hold, heq⟩ :=
    hb.bufferReadFd_eq pending socket
  rw [heq] at hok
  obtain ⟨⟨chains, slot⟩, hadjust, hok⟩ := bind_eq_ok.mp hok
  obtain ⟨rfl, -⟩ := Prod.mk.inj (Except.ok.inj hok)
  obtain ⟨done, next, rfl, rfl, hslot⟩ := adjustLoop_filled hadjust
  have haddr : (before ++ (done.map fill ++ next)).map BufferChain.addr =
      b₁.chains.map BufferChain.addr := by
    rw [hsplit.chains_eq, @List.map_append _ _ _ _ rest, ← hwritten]
    simp [Function.comp_def]
  have hchain (c) (hc : c ∈ done.map fill) : c.Bounded ∧ (c.off = 0 → c.misalign = 0) := by
    obtain ⟨d, hd, rfl⟩ := List.mem_map.mp hc
    obtain ⟨hbounded, haligned⟩ := hold d (by simp [hd])
    have hoff := off_fill hbounded
    exact ⟨bounded_fill hbounded, fun h => haligned (by omega)⟩
  refine hb₁.setChains haddr ?_ ?_ ?_
  · rw [List.forall_mem_append, List.forall_mem_append]
    exact ⟨fun c hc => hb₁.bounded c (by simp [hsplit.chains_eq, hc]),
      fun c hc => (hchain c hc).1, fun c hc => (hold c (by simp [hc])).1⟩
  · rw [List.forall_mem_append, List.forall_mem_append]
    exact ⟨fun c hc => hb₁.aligned c (by simp [hsplit.chains_eq, hc]),
      fun c hc => (hchain c hc).2, fun c hc => (hold c (by simp [hc])).2⟩
  · rcases hslot with rfl | ⟨init, c, rfl, rfl⟩
    · exact ⟨_, _, hsplit.congr haddr rfl⟩
    · refine ⟨before ++ init.map fill, fill c :: next, by simp, ?_, by simp⟩
      rw [Option.getD_some, hsplit.link_eq, ← linkAfter_append]
      exact linkAfter_congr .first (by simp [Function.comp_def])

end

end Buffer

end Reactor
