import Reactor.Buffer.Reserve

/-!
# Filling the offered room

The three loops that a read from a socket runs over the chains from `*lastWithData_` on:
`bufferSetUpVecs` offers their room, `readv` fills the vectors, and the last loop adds
the whole free room of every chain it passes to its `off_`. If that is exactly what was
read, the bytes read have become the data of those chains.
-/

namespace Reactor

open Transition

namespace Buffer

/-- The vectors that offer the room of at most `i` chains for `left` bytes. -/
def vectors : ℕ → ℕ → List BufferChain → List Iovec
  | 0, _, _ => []
  | _ + 1, _, [] => []
  | i + 1, left, c :: next =>
    if left = 0 then []
    else ⟨c.addr, c.misalign, min left c.room⟩ :: vectors i (left - min left c.room) next

/-- For no bytes nothing is offered. -/
theorem vectors_zero (i : ℕ) (chains : List BufferChain) : vectors i 0 chains = [] := by
  cases i <;> cases chains <;> rfl

/-- While the requested size is an `int`, the loop sets up these vectors. -/
theorem setUpVecsLoop_eq {n : ℕ} (hn : n < 2 ^ 31) (i : ℕ) {chains : List BufferChain} {s : ℕ}
    (hs : s ≤ n) (hroom : n - s ≤ (rooms chains).sum) :
    setUpVecsLoop n i chains s = .ok (vectors i (n - s) chains) := by
  induction i generalizing chains s with
  | zero => rfl
  | succ i ih =>
    unfold setUpVecsLoop
    rw [toInt_of_lt hn]
    rcases hs.eq_or_lt with rfl | hlt
    · rw [if_neg (lt_irrefl _), Nat.sub_self, vectors_zero]
    · rw [if_pos (by omega)]
      cases chains with
      | nil => simp at hroom; omega
      | cons c next =>
        have hleft : sizeSub n (intToSize s) = n - s := by
          rw [intToSize_natCast (by omega), sizeSub_of_le hs]
        have hspace : (if n - s < c.room then n - s else c.room) = min (n - s) c.room := by
          split <;> omega
        have hnext : toInt (sizeAdd (intToSize s) (min (n - s) c.room)) =
            ((s + min (n - s) c.room : ℕ) : ℤ) := by
          rw [intToSize_natCast (by omega), sizeAdd_of_lt (by omega), toInt_of_lt (by omega)]
        simp only [rooms_cons, List.sum_cons] at hroom
        simp only [hleft, hspace, hnext]
        rw [ih (s := s + min (n - s) c.room) (by omega) (by omega), vectors,
          if_neg (by omega), Nat.sub_add_eq]
        rfl

/-- A size that is no `int`, or zero, offers no room. -/
theorem setUpVecsLoop_of_nonpos {n : ℕ} (h : toInt n ≤ 0) (i : ℕ) (chains : List BufferChain) :
    setUpVecsLoop n i chains 0 = .ok [] := by
  cases i with
  | zero => rfl
  | succ i =>
    unfold setUpVecsLoop
    exact if_neg (by omega)

/-- What is offered is the room of the first `i` chains, up to the number of bytes. -/
theorem totalLen_vectors (i left : ℕ) (chains : List BufferChain) :
    totalLen (vectors i left chains) = min left ((rooms chains).take i).sum := by
  induction i generalizing left chains with
  | zero => simp [vectors, totalLen]
  | succ i ih =>
    cases chains with
    | nil => simp [vectors, totalLen]
    | cons c next =>
      have hih := ih (left - min left c.room) next
      rw [vectors]
      by_cases h : left = 0
      · simp [h, totalLen]
      · rw [if_neg h]
        simp only [totalLen, List.map_cons, List.sum_cons, rooms_cons, List.take_succ_cons] at hih ⊢
        omega

/-- The chains that the vectors name have room for all that is offered. -/
theorem totalLen_vectors_le (i left : ℕ) (chains : List BufferChain) :
    totalLen (vectors i left chains) ≤
      ((rooms chains).take (vectors i left chains).length).sum := by
  induction i generalizing left chains with
  | zero => simp [vectors, totalLen]
  | succ i ih =>
    cases chains with
    | nil => simp [vectors, totalLen]
    | cons c next =>
      have hih := ih (left - min left c.room) next
      rw [vectors]
      by_cases h : left = 0
      · simp [h, totalLen]
      · rw [if_neg h]
        simp only [totalLen, List.map_cons, List.sum_cons, rooms_cons, List.length_cons,
          List.take_succ_cons] at hih ⊢
        omega

/-- There are at most `i` vectors, and one a chain. -/
theorem length_vectors_le (i left : ℕ) (chains : List BufferChain) :
    (vectors i left chains).length ≤ min i chains.length := by
  induction i generalizing left chains with
  | zero => simp [vectors]
  | succ i ih =>
    cases chains with
    | nil => simp [vectors]
    | cons c next =>
      have hih := ih (left - min left c.room) next
      rw [vectors]
      split
      · simp
      · simp only [List.length_cons]
        omega

/-- Something is offered unless nothing is asked for or there is no chain. -/
theorem vectors_ne_nil {i left : ℕ} {chains : List BufferChain} (hi : 0 < i) (hleft : 0 < left)
    (hchains : chains ≠ []) : vectors i left chains ≠ [] := by
  obtain ⟨i, rfl⟩ : ∃ j, i = j + 1 := ⟨i - 1, by omega⟩
  obtain ⟨c, next, rfl⟩ := List.exists_cons_of_ne_nil hchains
  rw [vectors, if_neg hleft.ne']
  simp

/-! ## The effect of `readv` -/

/-- The chains with `data` written through the vectors. -/
def scatter : ℕ → ℕ → List BufferChain → List Cell → List BufferChain
  | 0, _, chains, _ => chains
  | _ + 1, _, [], _ => []
  | i + 1, left, c :: next, data =>
    if left = 0 then c :: next
    else c.written c.misalign (data.take (min left c.room)) ::
      scatter i (left - min left c.room) next (data.drop (min left c.room))

/-- What a write to a block does not change holds of the chains written to. -/
theorem map_scatter {α : Type*} {f : BufferChain → α} (hf : ∀ c p d, f (c.written p d) = f c)
    (i left : ℕ) (chains : List BufferChain) (data : List Cell) :
    (scatter i left chains data).map f = chains.map f := by
  induction i generalizing left chains data with
  | zero => rfl
  | succ i ih =>
    cases chains with
    | nil => rfl
    | cons c next =>
      rw [scatter]
      split
      · rfl
      · rw [List.map_cons, List.map_cons, hf, ih]

/-- Scattering keeps the addresses. -/
theorem addr_scatter (i left : ℕ) (chains : List BufferChain) (data : List Cell) :
    (scatter i left chains data).map BufferChain.addr = chains.map BufferChain.addr :=
  map_scatter (fun _ _ _ => rfl) ..

/-- Scattering counts nothing. -/
theorem off_scatter (i left : ℕ) (chains : List BufferChain) (data : List Cell) :
    (scatter i left chains data).map BufferChain.off = chains.map BufferChain.off :=
  map_scatter (fun _ _ _ => rfl) ..

/-- Scattering takes no room away. -/
theorem rooms_scatter (i left : ℕ) (chains : List BufferChain) (data : List Cell) :
    rooms (scatter i left chains data) = rooms chains :=
  map_scatter (fun _ _ _ => rfl) ..

/-- Packed chains are packed when data are scattered over their room. -/
theorem packed_scatter (i left : ℕ) {chains : List BufferChain} (data : List Cell)
    (h : ∀ c ∈ chains, c.Packed) : ∀ c ∈ scatter i left chains data, c.Packed := by
  induction i generalizing left chains data with
  | zero => exact h
  | succ i ih =>
    cases chains with
    | nil => exact h
    | cons c next =>
      rw [scatter]
      split
      · exact h
      · have hc := h c List.mem_cons_self
        exact List.forall_mem_cons.mpr
          ⟨⟨hc.toBounded.written .., hc.aligned, hc.full⟩,
            ih _ _ fun d hd => h d (List.mem_cons_of_mem _ hd)⟩

/-- What was empty behind the first chain is empty after the write. -/
theorem tail_scatter (i left : ℕ) {chains : List BufferChain} (data : List Cell)
    (h : ∀ d ∈ chains.tail, d.off = 0) : ∀ d ∈ (scatter i left chains data).tail, d.off = 0 := by
  have hoff : ∀ n ∈ (chains.map BufferChain.off).tail, n = 0 := by
    rw [← List.map_tail]
    exact List.forall_mem_map.mpr h
  rw [← off_scatter i left chains data, ← List.map_tail] at hoff
  exact List.forall_mem_map.mp hoff

/-- Data are scattered behind the last chain that has some. -/
theorem SplitsAt.scatter {b : Buffer} {before rest : List BufferChain}
    (hsplit : b.SplitsAt before rest) (i left : ℕ) (data : List Cell) :
    SplitsAt { b with chains := before ++ Buffer.scatter i left rest data } before
      (Buffer.scatter i left rest data) where
  chains_eq := rfl
  link_eq := hsplit.link_eq
  leads h := by
    have hlen := congrArg List.length (addr_scatter i left rest data)
    rw [h, List.map_nil, List.length_nil, List.length_map] at hlen
    exact hsplit.leads (List.length_eq_zero_iff.mp hlen.symm)
  tail_empty := tail_scatter i left data hsplit.tail_empty

/-- `readv` writes through the vectors, one chain after the other. -/
theorem readv_vectors (b : Buffer) (before : List BufferChain) {chains : List BufferChain}
    (hb : ((before ++ chains).map BufferChain.addr).Nodup) (hbounded : ∀ c ∈ chains, c.Bounded)
    (i left : ℕ) (data : List Cell) :
    readv { b with chains := before ++ chains } (vectors i left chains) data =
      .ok { b with chains := before ++ scatter i left chains data } := by
  induction i generalizing before chains left data with
  | zero => rfl
  | succ i ih =>
    cases chains with
    | nil => rfl
    | cons c next =>
      rw [vectors, scatter]
      by_cases h : left = 0
      · rw [if_pos h, if_pos h, readv]
      · have hc := hbounded c List.mem_cons_self
        have hdata := hc.data_le
        have hroom := hc.room_eq
        have hle : c.misalign + (data.take (min left c.room)).length ≤ c.bufferSize := by
          rw [List.length_take]
          omega
        have hnodup : ((before ++ [c.written c.misalign (data.take (min left c.room))] ++
            next).map BufferChain.addr).Nodup := by
          simpa using hb
        have hih := ih (before ++ [c.written c.misalign (data.take (min left c.room))]) hnodup
          (fun d hd => hbounded d (List.mem_cons_of_mem _ hd)) (left - min left c.room)
          (data.drop (min left c.room))
        rw [if_neg h, if_neg h, readv, locate_append next rfl (ne_addr_of_nodup hb), ok_bind]
        simp only [BufferChain.memcpy_of_le hle, ok_bind]
        simpa only [List.append_assoc, List.singleton_append] using hih

/-! ## The adjustment of `off_` -/

/-- `off_` increased by the whole free room of the chain. -/
def fill (c : BufferChain) : BufferChain := c.grow c.chainSpace

/-- Filling a chain keeps its address. -/
@[simp] theorem addr_fill (c : BufferChain) : (fill c).addr = c.addr := rfl

/-- Filling a chain keeps its buffer. -/
@[simp] theorem bufferSize_fill (c : BufferChain) : (fill c).bufferSize = c.bufferSize := rfl

/-- Filling a chain keeps its gap. -/
@[simp] theorem misalign_fill (c : BufferChain) : (fill c).misalign = c.misalign := rfl

/-- Filling a chain counts all its room. -/
theorem off_fill {c : BufferChain} (hc : c.Bounded) : (fill c).off = c.off + c.room := by
  have hlt : c.off + c.room < 2 ^ 64 := by
    have := hc.room_eq
    have := hc.data_le
    have := hc.size_le
    omega
  rw [fill, hc.chainSpace_eq, BufferChain.grow]
  exact sizeAdd_of_lt hlt

/-- A filled chain has no room left. -/
theorem packed_fill {c : BufferChain} (hc : c.Packed) : (fill c).Packed := by
  have hoff := off_fill hc.toBounded
  have hroom := hc.room_eq
  have hdata := hc.data_le
  have hpos := hc.pos
  have hfull : (fill c).misalign + (fill c).off = (fill c).bufferSize := by
    rw [hoff, misalign_fill, bufferSize_fill]
    omega
  refine ⟨⟨hfull.le, hpos, hc.size_le⟩, fun h => ?_, fun _ => hfull⟩
  rw [hoff] at h
  exact hc.aligned (by omega)

/-- A chain whose free room has been written to and is then filled. -/
theorem stored_fill_written {c : BufferChain} (hc : c.Packed) {data : List Cell}
    (hlen : data.length = c.room) :
    (fill (c.written c.misalign data)).stored = c.stored ++ data := by
  have hoff : (fill (c.written c.misalign data)).off = c.off + c.room :=
    off_fill (hc.written c.misalign data)
  rw [BufferChain.stored, hoff]
  by_cases hempty : c.off = 0
  · rw [BufferChain.stored_of_off_eq_zero hempty, hempty, Nat.zero_add, List.nil_append, ← hlen]
    exact Memory.read_write_self ..
  · have hroom := hc.room_of_data hempty
    obtain rfl : data = [] := List.length_eq_zero_iff.mp (hlen.trans hroom)
    rw [hroom, List.append_nil, Nat.add_zero]
    exact Memory.read_congr fun i _ _ => Memory.write_nil ..

/-- The loop fills chains until the sum of their room has reached what was read. -/
theorem adjustLoop_ok {i : ℕ} {chains : List BufferChain} (hb : ∀ c ∈ chains, c.Bounded)
    (hpos : 0 < i) (hi : i ≤ chains.length) (slot : Slot) {k : ℕ}
    (hk : k ≤ ((rooms chains).take i).sum) :
    ∃ done c next, chains = done ++ c :: next ∧ done.length < i ∧
      ((rooms done).sum < k ∨ done = []) ∧ k ≤ (rooms done).sum + c.room ∧
      adjustLoop i chains slot k =
        .ok (done.map fill ++ fill c :: next, some (linkAfter slot done)) := by
  induction i generalizing chains slot k with
  | zero => omega
  | succ i ih =>
    cases chains with
    | nil => simp at hi
    | cons c next =>
      have hc := hb c List.mem_cons_self
      rw [rooms_cons, List.take_succ_cons, List.sum_cons] at hk
      by_cases hlt : c.room < k
      · have hi' : 0 < i := by
          by_contra h
          obtain rfl : i = 0 := by omega
          simp at hk
          omega
        obtain ⟨done, d, last, rfl, hlen, hsum, hle, heq⟩ := ih
          (fun d hd => hb d (List.mem_cons_of_mem _ hd)) hi' (by simpa using hi) (.next c.addr)
          (k := k - c.room) (by omega)
        refine ⟨c :: done, d, last, rfl, by simpa using hlen, .inl ?_, ?_, ?_⟩
        · rw [rooms_cons, List.sum_cons]
          rcases hsum with hsum | rfl
          · omega
          · simpa using hlt
        · rw [rooms_cons, List.sum_cons]
          omega
        · rw [adjustLoop, hc.chainSpace_eq, if_pos hlt, heq, ok_bind, linkAfter_cons]
          simp only [fill, hc.chainSpace_eq, List.map_cons, List.cons_append, pure_eq_ok]
      · refine ⟨[], c, next, rfl, by simp, .inr rfl, by simpa using hlt, ?_⟩
        rw [adjustLoop, hc.chainSpace_eq, if_neg hlt]
        simp only [fill, hc.chainSpace_eq, List.map_nil, List.nil_append]
        rfl

/-- If the chains filled have room for exactly the data, the data are behind what was
stored. Only the first of the chains can have held data before. -/
theorem stored_fill_scatter {i left : ℕ} {chains : List BufferChain} {data : List Cell}
    (hpacked : ∀ c ∈ chains, c.Packed) (hempty : ∀ d ∈ chains.tail, d.off = 0)
    {done : List BufferChain} {c : BufferChain} {next : List BufferChain}
    (hsplit : scatter i left chains data = done ++ c :: next) (hi : done.length < i)
    (hpos : 0 < left) (hleft : data.length ≤ left)
    (hlen : data.length = (rooms done).sum + c.room) :
    (done.map fill ++ fill c :: next).flatMap BufferChain.stored =
      chains.flatMap BufferChain.stored ++ data := by
  induction i generalizing left chains data done with
  | zero => omega
  | succ i ih =>
    cases chains with
    | nil => simp [scatter] at hsplit
    | cons e es =>
      have he := hpacked e List.mem_cons_self
      have hes : es.flatMap BufferChain.stored = [] :=
        List.flatMap_eq_nil_iff.mpr fun d hd => BufferChain.stored_of_off_eq_zero (hempty d hd)
      have hpacked' (d) (hd : d ∈ es) : d.Packed := hpacked d (List.mem_cons_of_mem _ hd)
      rw [scatter, if_neg hpos.ne'] at hsplit
      cases done with
      | nil =>
        obtain ⟨rfl, rfl⟩ := List.cons.inj hsplit
        have hroom : data.length = e.room := by simpa using hlen
        have hmin : min left e.room = e.room := by omega
        have hnext : (scatter i (left - min left e.room) es
            (data.drop (min left e.room))).flatMap BufferChain.stored = [] := by
          refine List.flatMap_eq_nil_iff.mpr fun d hd => BufferChain.stored_of_off_eq_zero ?_
          have hd' := List.mem_map_of_mem (f := BufferChain.off) hd
          rw [off_scatter] at hd'
          obtain ⟨d', hd', heq⟩ := List.mem_map.mp hd'
          rw [← heq, hempty d' hd']
        rw [List.map_nil, List.nil_append, List.flatMap_cons, hnext, hmin, ← hroom,
          List.take_length, stored_fill_written he hroom, List.flatMap_cons, hes,
          List.append_nil, List.append_nil]
      | cons d done =>
        obtain ⟨rfl, hrest⟩ := List.cons.inj hsplit
        have hlen' : data.length = e.room + ((rooms done).sum + c.room) := by
          rw [hlen, rooms_cons, List.sum_cons, Nat.add_assoc]
          rfl
        have hmin : min left e.room = e.room := by omega
        rw [hmin] at hrest
        have hc : c.off = 0 ∧ c.Packed := by
          have hmem : c ∈ scatter i (left - e.room) es (data.drop e.room) := by simp [hrest]
          have hoff := List.mem_map_of_mem (f := BufferChain.off) hmem
          rw [off_scatter] at hoff
          obtain ⟨d', hd', heq⟩ := List.mem_map.mp hoff
          exact ⟨heq ▸ hempty d' hd', packed_scatter _ _ _ hpacked' c hmem⟩
        have hcroom := hc.2.room_of_empty hc.1
        have hcpos := hc.2.pos
        have hih := ih hpacked'
          (fun d hd => hempty d (List.mem_of_mem_tail hd)) hrest (by simpa using hi) (by omega)
          (by rw [List.length_drop]; omega) (by rw [List.length_drop]; omega)
        rw [List.map_cons, List.cons_append, List.flatMap_cons, hih, hmin,
          stored_fill_written he (by rw [List.length_take]; omega), List.flatMap_cons, hes,
          List.nil_append, List.append_nil, List.append_assoc, List.take_append_drop]

end Buffer

end Reactor
