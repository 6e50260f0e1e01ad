import Reactor.Buffer.Fifo

/-!
# Runs of the user's operations

A run whose additions all append in order refines the queue of bytes. The condition is
exact: in a state that such a run reaches, an addition appends every data of its length
only if it appends in order. A partial drain makes the next addition land between the
bytes of the first chain and those behind it.
-/

namespace Reactor

open Transition

/-- The operation of the run is one that keeps the order of the queue. -/
def Session.InOrder (s : Session) : UserOp → Prop
  | .add data => s.buffer.AddsInOrder data.length
  | .drain _ => True
  | .read _ => True

/-- A buffer between operations of its user stores what the queue contains, and its
reads have delivered what the queue delivered. -/
structure Session.Refines (s : Session) (q : ByteQueue) : Prop where
  state : s.buffer.UserState
  stored_eq : s.buffer.stored = q.contents.map some
  delivered_eq : s.delivered = q.delivered.map fun data => data.map some

/-- An empty session refines the empty queue. -/
theorem Session.refines_empty : ({} : Session).Refines {} where
  state := Buffer.userState_empty
  stored_eq := rfl
  delivered_eq := rfl

instance (s : Session) : ∀ op, Decidable (s.InOrder op)
  | .add data => inferInstanceAs (Decidable (s.buffer.AddsInOrder data.length))
  | .drain _ => .isTrue trivial
  | .read _ => .isTrue trivial

/-- One operation is matched by the queue. -/
theorem Session.Refines.step_ok {s : Session} {q : ByteQueue} (h : s.Refines q) (op : UserOp)
    (hop : s.InOrder op) : ∃ t, s.step op = .ok t ∧ t.Refines (q.step op) := by
  cases op with
  | add data =>
    obtain ⟨b, hok, hb, hstored⟩ := h.state.bufferAdd_ok hop
    refine ⟨{ s with buffer := b }, by rw [Session.step, hok]; rfl, hb, ?_, h.delivered_eq⟩
    rw [hstored, h.stored_eq, ByteQueue.step, List.map_append]
  | drain n =>
    obtain ⟨b, hok, hb, hstored⟩ := h.state.bufferDrain_ok n
    refine ⟨{ s with buffer := b }, by rw [Session.step, hok]; rfl, hb, ?_, h.delivered_eq⟩
    rw [hstored, h.stored_eq, ByteQueue.step, List.map_drop]
  | read n =>
    obtain ⟨b, hok, hb, hstored⟩ := h.state.bufferRead_ok n
    refine ⟨_, by rw [Session.step, hok]; rfl, hb, ?_, ?_⟩
    · rw [hstored, h.stored_eq, ByteQueue.step, List.map_drop]
    · simp only [ByteQueue.step, h.delivered_eq, h.stored_eq, List.map_append, List.map_cons,
        List.map_nil, List.map_take]

/-- `bufferAdd` appends every data of a length. -/
def Buffer.AppendsAll (b : Buffer) (n : ℕ) : Prop :=
  ∀ data : List UInt8, data.length = n →
    ∃ b', b.bufferAdd data = .ok b' ∧ b'.stored = b.stored ++ data.map some

/-! ## The condition is exact -/

/-- No cell holds every byte. -/
theorem exists_byte_ne (x : Cell) : ∃ y : UInt8, some y ≠ x := by
  cases x with
  | none => exact ⟨0, by simp⟩
  | some z =>
    by_cases hz : z = 0
    · exact ⟨1, by simp [hz]⟩
    · exact ⟨0, fun h => hz (Option.some.inj h).symm⟩

/-- Cells that data of a length can always precede as well as follow are none at all. -/
theorem eq_nil_of_forall_data {cells : List Cell} {n k : ℕ} (hk : 0 < k) (hkn : k ≤ n)
    (h : ∀ data : List UInt8, data.length = n →
      ∃ l l', (data.map some).take k ++ l = cells ++ l') : cells = [] := by
  cases cells with
  | nil => rfl
  | cons x cells =>
    obtain ⟨y, hy⟩ := exists_byte_ne x
    obtain ⟨l, l', heq⟩ := h (List.replicate n y) List.length_replicate
    have hhead : some (some y) = some x := by
      have := congrArg List.head? heq
      rwa [List.map_replicate, List.take_replicate, Nat.min_eq_left hkn,
        List.head?_append_of_ne_nil _ (by simp; omega), List.head?_replicate,
        if_neg (by omega)] at this
    exact absurd (Option.some.inj hhead) hy

/-- If chains store nothing, they are without data. -/
theorem off_eq_zero_of_flatMap {chains : List BufferChain}
    (h : chains.flatMap BufferChain.stored = []) : ∀ d ∈ chains, d.off = 0 := fun d hd => by
  rw [← d.length_stored, List.flatMap_eq_nil_iff.mp h d hd, List.length_nil]

namespace Buffer

/-- An addition that goes to the first chain as a whole appends only if nothing is
stored behind that chain. -/
theorem AppendsAll.order_of_append_first {b : Buffer} {n : ℕ} (h : b.AppendsAll n)
    {c c' : BufferChain} {rest : List BufferChain} (hchains : b.chains = c :: rest)
    (hstored : c'.stored = c.stored) (hbounded : c'.Bounded)
    (hfit : c'.misalign + c'.off + n ≤ c'.bufferSize)
    (hadd : ∀ data : List UInt8, data.length = n → b.bufferAdd data = .ok { b with
      chains := c'.append (data.map some) :: rest, totalSize := sizeAdd b.totalSize n }) :
    n = 0 ∨ ∀ d ∈ rest, d.off = 0 := by
  refine Nat.eq_zero_or_pos n |>.imp_right fun hpos => off_eq_zero_of_flatMap ?_
  refine eq_nil_of_forall_data hpos le_rfl fun data hlen => ?_
  obtain ⟨b', hok, happend⟩ := h data hlen
  obtain rfl := Except.ok.inj ((hadd data hlen).symm.trans hok)
  have hlen' : (data.map some).length = n := by rw [List.length_map, hlen]
  have hall := hbounded.stored_append (d := data.map some) (hlen' ▸ hfit)
  rw [stored, stored, hchains, List.flatMap_cons, List.flatMap_cons, hall, hstored,
    List.append_assoc, List.append_assoc] at happend
  exact ⟨_, _, by rw [List.take_of_length_le hlen'.le]; exact List.append_cancel_left happend⟩

/-- An addition that is split over the first and a new chain appends only if the new
chain can be linked and nothing is stored between the two parts. -/
theorem AppendsAll.order_of_split {b : Buffer} (hb : b.UserState) {n : ℕ} (h : b.AppendsAll n)
    (hlt : b.totalSize + n < 2 ^ 64) {c : BufferChain} {rest : List BufferChain}
    (hchains : b.chains = c :: rest) (hfits : ¬ n < c.room)
    (hrealign : ¬ c.shouldRealign n = true) :
    (∀ d ∈ rest, d.off ≠ 0) ∧ (c.room = 0 ∨ rest = []) ∧ n - c.room ≤ 2 ^ 63 := by
  have hc := hb.bounded c (by simp [hchains])
  have hroom := hc.room_eq
  have hsplit (data : List UInt8) (hlen : data.length = n) : b.bufferAdd data = addChain { b with
      chains := c.append ((data.map some).take c.room) :: rest
      totalSize := sizeAdd b.totalSize c.room } ((data.map some).drop c.room) := by
    rw [bufferAdd_cons hb.link_first hchains, addTo_split hchains hc] <;>
      rwa [List.length_map, hlen]
  have halloc : n - c.room ≤ 2 ^ 63 := by
    by_contra hbig
    obtain ⟨b', hok, -⟩ := h (List.replicate n 0) List.length_replicate
    rw [hsplit _ List.length_replicate, addChain, createNewBufferChain_error, error_bind] at hok
    · cases hok
    · simpa using Nat.not_le.mp hbig
  have hdata : ∀ d ∈ rest, d.off ≠ 0 := by
    by_contra hempty
    obtain ⟨d, hd, hoff⟩ : ∃ d ∈ rest, d.off = 0 := by simpa using hempty
    obtain ⟨b', hok, -⟩ := h (List.replicate n 0) List.length_replicate
    obtain ⟨e, he⟩ := addChain_error (b := { b with
        chains := c.append (((List.replicate n 0).map some).take c.room) :: rest
        totalSize := sizeAdd b.totalSize c.room }) hb.link_first
      ⟨d, List.mem_cons_of_mem _ hd, hoff⟩ (((List.replicate n (0 : UInt8)).map some).drop c.room)
    rw [hsplit _ List.length_replicate, he] at hok
    cases hok
  refine ⟨hdata, or_iff_not_imp_left.mpr fun hne => ?_, halloc⟩
  have hnil : rest.flatMap BufferChain.stored = [] := by
    refine eq_nil_of_forall_data (Nat.pos_of_ne_zero hne) (Nat.not_lt.mp hfits)
      fun data hlen => ?_
    have hlen' : ((data.map some).take c.room).length = c.room := by
      rw [List.length_take, List.length_map, hlen, Nat.min_eq_left (Nat.not_lt.mp hfits)]
    have hfit : c.misalign + c.off + ((data.map some).take c.room).length ≤ c.bufferSize := by
      omega
    have hpos : (c.append ((data.map some).take c.room)).off ≠ 0 := by
      rw [hc.off_append hfit]
      omega
    obtain ⟨b', hok, happend⟩ := h data hlen
    have hfull := hb.setFirst hchains (BufferChain.addr_append c _) (hc.append hfit)
      (fun h => absurd h hpos) ((hc.off_append hfit).trans (by rw [hlen'])) (by omega)
    obtain ⟨b'', hok', -, hstored⟩ := hfull.addChain_ok (List.forall_mem_cons.mpr ⟨hpos, hdata⟩)
      ((data.map some).drop c.room) (by simpa [hlen] using halloc) (by
        rw [List.length_drop, List.length_map, hlen]
        dsimp only
        rw [sizeAdd_of_lt (by omega)]
        omega)
    obtain rfl := Except.ok.inj (hok'.symm.trans ((hsplit data hlen).symm.trans hok))
    rw [hstored] at happend
    simp only [stored, hchains, List.flatMap_cons, hc.stored_append hfit, List.append_assoc,
      List.append_cancel_left_eq] at happend
    exact ⟨_, _, happend⟩
  cases rest with
  | nil => rfl
  | cons d rest =>
    exact absurd (off_eq_zero_of_flatMap hnil d List.mem_cons_self) (hdata d List.mem_cons_self)

/-- The condition is exact as long as the size does not wrap. -/
theorem UserState.appendsAll_iff {b : Buffer} (hb : b.UserState) {n : ℕ}
    (hlt : b.totalSize + n < 2 ^ 64) : b.AppendsAll n ↔ b.AddsInOrder n := by
  constructor
  · refine fun h => ⟨hlt, ?_⟩
    cases hchains : b.chains with
    | nil =>
      rw [TakesInOrder]
      by_contra hbig
      obtain ⟨b', hok, -⟩ := h (List.replicate n 0) List.length_replicate
      have hlast : b.last = none := by rw [hb.last_eq, hchains]; rfl
      rw [bufferAdd, targetChain, hb.link_first, pointee_first, hchains, hlast, ok_bind,
        List.length_replicate] at hok
      simp [createNewBufferChain_error _ (Nat.not_le.mp hbig)] at hok
    | cons c rest =>
      have hc := hb.bounded c (by simp [hchains])
      have hadd := bufferAdd_cons hb.link_first hchains
      rw [TakesInOrder]
      by_cases hfits : n < c.room
      · rw [if_pos (.inl hfits)]
        refine h.order_of_append_first hchains rfl hc (hc.fits_of_lt hfits) fun data hlen => ?_
        rw [hadd, addTo_fits hchains hc (by rwa [List.length_map, hlen]), List.length_map, hlen]
      · by_cases hrealign : c.shouldRealign n = true
        · rw [if_pos (.inr hrealign)]
          refine h.order_of_append_first hchains c.stored_realign hc.realign
            (hc.realign_fits hrealign) fun data hlen => ?_
          rw [hadd, addTo_realign hchains hc (by rwa [List.length_map, hlen])
            (by rwa [List.length_map, hlen]), List.length_map, hlen]
        · rw [if_neg (not_or.mpr ⟨hfits, hrealign⟩)]
          exact h.order_of_split hb hlt hchains hfits hrealign
  · intro h data hlen
    obtain ⟨b', hok, -, hstored⟩ := hb.bufferAdd_ok (hlen ▸ h)
    exact ⟨b', hok, hstored⟩

end Buffer

/-- A run of the user's operations ends without a fault in a buffer that stores the
bytes of the queue, and its reads delivered the bytes the queue delivered. -/
def Session.RunsAsQueue (ops : List UserOp) : Prop :=
  ∃ t, run Session.step {} ops = .ok t ∧
    t.buffer.stored = (ops.foldl ByteQueue.step {}).contents.map some ∧
    t.delivered = (ops.foldl ByteQueue.step {}).delivered.map fun data => data.map some

/-- A run in which every addition appends in order runs as the queue. In the state it
reaches, an addition whose size can be counted appends all data if and only if it
appends in order. -/
theorem Session.runsAsQueue_of_inOrder {ops : List UserOp}
    (h : Guarded Session.step Session.InOrder {} ops) :
    Session.RunsAsQueue ops ∧ ∀ t, run Session.step {} ops = .ok t →
      ∀ n, t.buffer.totalSize + n < 2 ^ 64 → (t.buffer.AppendsAll n ↔ t.buffer.AddsInOrder n) := by
  obtain ⟨t, ht, href⟩ := run_of_simulation
    (fun s q op href hop => href.step_ok op hop) Session.refines_empty h
  refine ⟨⟨t, ht, href.stored_eq, href.delivered_eq⟩, fun t' ht' n hn => ?_⟩
  obtain rfl := Except.ok.inj (ht.symm.trans ht')
  exact href.state.appendsAll_iff hn

/-- Two additions, a partial read and a drain of everything, by the theorem. -/
theorem Session.runsAsQueue_five_operations :
    Session.RunsAsQueue [.add [1, 2, 3], .read 2, .add [4], .drain 5, .add [6]] ∧
      ∀ t, run Session.step {} [.add [1, 2, 3], .read 2, .add [4], .drain 5, .add [6]] = .ok t →
        ∀ n, t.buffer.totalSize + n < 2 ^ 64 →
          (t.buffer.AppendsAll n ↔ t.buffer.AddsInOrder n) :=
  Session.runsAsQueue_of_inOrder (by decide +kernel)

/-- A run that splits an addition and then drains all but one byte of the first chain. -/
def drainedRun : List UserOp := [.add [0], .add (List.replicate 512 0), .drain 511, .add [1]]

/-- The last addition of the run goes to the first chain, in front of the last byte
stored before. -/
theorem Session.not_runsAsQueue : ¬ Session.RunsAsQueue drainedRun := by
  rintro ⟨t, ht, hstored, -⟩
  have hcode : (run Session.step {} drainedRun).map (fun s => s.buffer.stored) =
      .ok [some 0, some 1, some 0] := by decide +kernel
  have hqueue : (drainedRun.foldl ByteQueue.step {}).contents = [0, 0, 1] := by decide +kernel
  rw [ht, Except.map, hstored, hqueue] at hcode
  exact absurd (Except.ok.inj hcode) (by decide)

end Reactor
