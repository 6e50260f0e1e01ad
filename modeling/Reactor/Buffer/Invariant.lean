import Reactor.Buffer.Fifo

/-!
# The representation invariant under the user's operations

An addition that fits a chain exactly leaves an empty chain at the end of the list. The
next addition that needs a new chain lets `bufferInsertChain` delete that chain and read
its link afterwards. A run keeps the representation invariant if and only if no addition
needs a new chain while the list has an empty one behind its first chain.
-/

namespace Reactor

open Transition

namespace Buffer

/-- The representation invariant. -/
structure Represented (b : Buffer) : Prop where
  total_eq : b.totalSize = (b.chains.map BufferChain.off).sum
  data_le : ∀ c ∈ b.chains, c.misalign + c.off ≤ c.bufferSize
  last_eq : b.last = b.chains.getLast?.map BufferChain.addr
  link : b.HasLink b.lastWithData
  trailing : b.totalSize ≠ 0 → b.chains.Pairwise fun c d => c.off = 0 → d.off = 0

/-- What the user's operations keep: only trailing chains are empty. -/
structure Trailing (b : Buffer) : Prop extends b.UserState where
  trailing : b.chains.Pairwise fun c d => c.off = 0 → d.off = 0

/-- Chains that trail the data are represented. -/
theorem Trailing.represented {b : Buffer} (hb : b.Trailing) : b.Represented where
  total_eq := hb.total_eq
  data_le c hc := (hb.bounded c hc).data_le
  last_eq := hb.last_eq
  link := by
    rw [hb.link_first]
    trivial
  trailing _ := hb.trailing

/-- A new buffer trails nothing. -/
theorem trailing_empty : ({} : Buffer).Trailing :=
  ⟨userState_empty, List.Pairwise.nil⟩

/-- `n` bytes fit into the first chain, or no chain behind it is empty. -/
def Admits (n : ℕ) : List BufferChain → Prop
  | [] => True
  | c :: rest => n < c.room ∨ c.shouldRealign n = true ∨ ∀ d ∈ rest, d.off ≠ 0

instance (n : ℕ) : ∀ chains, Decidable (Admits n chains)
  | [] => .isTrue trivial
  | c :: rest =>
    inferInstanceAs (Decidable (n < c.room ∨ c.shouldRealign n = true ∨ ∀ d ∈ rest, d.off ≠ 0))

section

variable {b : Buffer} {c : BufferChain} {rest : List BufferChain}

/-- A change of the first chain by which it does not become empty. -/
theorem Trailing.setFirst (hb : b.Trailing) (hchains : b.chains = c :: rest) {c' : BufferChain}
    (haddr : c'.addr = c.addr) (hbounded : c'.Bounded) (haligned : c'.off = 0 → c'.misalign = 0)
    {added : ℕ} (hoff : c'.off = c.off + added) (hlt : b.totalSize + added < 2 ^ 64) :
    Trailing { b with chains := c' :: rest, totalSize := sizeAdd b.totalSize added } := by
  refine ⟨hb.toUserState.setFirst hchains haddr hbounded haligned hoff hlt, ?_⟩
  have h := hb.trailing
  rw [hchains, List.pairwise_cons] at h
  exact List.pairwise_cons.mpr ⟨fun d hd hzero => h.1 d hd (by omega), h.2⟩

/-- Data behind those of a first chain `c'` as large as `c`. -/
theorem Trailing.append_first (hb : b.Trailing) (hchains : b.chains = c :: rest) (c' : BufferChain)
    (haddr : c'.addr = c.addr) (hoff : c'.off = c.off) (hbounded : c'.Bounded)
    (haligned : c.off = 0 → c'.misalign = 0) {data : List Cell}
    (hfit : c'.misalign + c'.off + data.length ≤ c'.bufferSize)
    (hlt : b.totalSize + data.length < 2 ^ 64) :
    Trailing { b with
      chains := c'.append data :: rest, totalSize := sizeAdd b.totalSize data.length } := by
  have hoff' := hbounded.off_append hfit
  refine hb.setFirst hchains ((c'.addr_append data).trans haddr) (hbounded.append hfit)
    (fun hzero => haligned (by omega)) ?_ hlt
  rw [hoff', hoff]

/-- A new last chain behind chains that all hold data. -/
theorem Trailing.addChain (hb : b.Trailing) (hdata : ∀ d ∈ b.chains, d.off ≠ 0) {data : List Cell}
    (hlen : data.length ≤ 2 ^ 63) (hlt : b.totalSize + data.length < 2 ^ 64) :
    ∃ b', b.addChain data = .ok b' ∧ b'.Trailing := by
  obtain ⟨size, -, -, hadd⟩ := addChain_ok hb.link_first hb.allocated hdata hlen
  obtain ⟨b', hok, hb', -⟩ := hb.toUserState.addChain_ok hdata data hlen hlt
  obtain rfl := Except.ok.inj (hadd.symm.trans hok)
  refine ⟨_, hadd, hb', ?_⟩
  rw [List.pairwise_append]
  refine ⟨hb.trailing, List.pairwise_singleton _ _, ?_⟩
  intro d hd e _ hzero
  exact absurd hzero (hdata d hd)

/-- `bufferAdd` on a list with a first chain keeps the invariant, or links a new chain to
a list with an empty one. -/
theorem Trailing.addTo_decides (hb : b.Trailing) (hchains : b.chains = c :: rest)
    (data : List Cell) (hlt : b.totalSize + data.length < 2 ^ 63) :
    (Admits data.length b.chains → ∃ b', b.addTo c.addr data = .ok b' ∧ b'.Trailing) ∧
      (¬ Admits data.length b.chains → ∃ e, b.addTo c.addr data = .error e) := by
  have hc := hb.bounded c (by simp [hchains])
  have hroom := hc.room_eq
  have haligned := hb.aligned c (by simp [hchains])
  rw [hchains]
  by_cases hfits : data.length < c.room
  · refine ⟨fun _ => ?_, fun hnot => absurd (.inl hfits) hnot⟩
    exact ⟨_, addTo_fits hchains hc hfits,
      hb.append_first hchains c rfl rfl hc haligned (hc.fits_of_lt hfits) (by omega)⟩
  by_cases hrealign : c.shouldRealign data.length = true
  · refine ⟨fun _ => ?_, fun hnot => absurd (.inr (.inl hrealign)) hnot⟩
    exact ⟨_, addTo_realign hchains hc hfits hrealign, hb.append_first hchains c.realign rfl rfl
      hc.realign (fun _ => rfl) (hc.realign_fits hrealign) (by omega)⟩
  rw [addTo_split hchains hc hfits hrealign]
  by_cases hdata : ∀ d ∈ rest, d.off ≠ 0
  · refine ⟨fun _ => ?_, fun hnot => absurd (.inr (.inr hdata)) hnot⟩
    obtain ⟨hfit, hoff⟩ := hc.append_take (Nat.not_lt.mp hfits)
    -- an empty chain has no gap, so the first chain holds data once it is full
    have hpos : (c.append (data.take c.room)).off ≠ 0 := by
      have := hc.pos
      omega
    have hdrop : (data.drop c.room).length = data.length - c.room := List.length_drop
    have hfull := hb.setFirst hchains (BufferChain.addr_append c _) (hc.append hfit)
      (fun hzero => absurd hzero hpos) hoff (by omega)
    refine hfull.addChain (List.forall_mem_cons.mpr ⟨hpos, hdata⟩) (by omega) ?_
    rw [hdrop]
    dsimp only
    rw [sizeAdd_of_lt (by omega)]
    omega
  · refine ⟨fun hadmits => ?_, fun _ => ?_⟩
    · exact absurd ((hadmits.resolve_left hfits).resolve_left hrealign) hdata
    obtain ⟨d, hd, hzero⟩ : ∃ d ∈ rest, d.off = 0 := by simpa using hdata
    exact addChain_error (b := { b with
      chains := c.append (data.take c.room) :: rest, totalSize := sizeAdd b.totalSize c.room })
      hb.link_first ⟨d, List.mem_cons_of_mem _ hd, hzero⟩ _

end

/-- `bufferAdd` keeps the invariant if the chains admit the data, and else fails. -/
theorem Trailing.bufferAdd_decides {b : Buffer} (hb : b.Trailing) {data : List UInt8}
    (hlt : b.totalSize + data.length < 2 ^ 63) :
    (Admits data.length b.chains → ∃ b', b.bufferAdd data = .ok b' ∧ b'.Trailing) ∧
      (¬ Admits data.length b.chains → ∃ e, b.bufferAdd data = .error e) := by
  cases hchains : b.chains with
  | cons c rest =>
    rw [bufferAdd_cons hb.link_first hchains]
    have h := hb.addTo_decides hchains (data.map some) (by rwa [List.length_map])
    rwa [List.length_map, hchains] at h
  | nil =>
    have hlast : b.last = none := by rw [hb.last_eq, hchains]; rfl
    obtain ⟨size, -, hbounded, hadd⟩ :=
      bufferAdd_nil hb.link_first hchains hlast (show data.length ≤ 2 ^ 63 by omega)
    have hwell := hb.toWellFormed.snoc (BufferChain.addr_empty b.fresh size) hbounded
      (Nat.add_zero b.totalSize).symm hb.total_lt
    rw [hchains] at hwell
    have hb' : Trailing { b with
        chains := [BufferChain.empty b.fresh size], last := some b.fresh, fresh := b.fresh + 1 } :=
      ⟨⟨hwell, hb.link_first, by simp⟩, List.pairwise_singleton _ _⟩
    have h := hb'.addTo_decides rfl (data.map some) (by rwa [List.length_map])
    have hadmits : Admits (data.map some).length [BufferChain.empty b.fresh size] :=
      .inr (.inr (List.forall_mem_nil _))
    refine ⟨fun _ => ?_, fun hnot => absurd trivial hnot⟩
    rw [hadd, bufferAdd_cons hb'.link_first rfl]
    exact h.1 hadmits

/-- `bufferDrain` keeps the invariant: the chain it stops in holds data. -/
theorem Trailing.bufferDrain_ok {b : Buffer} (hb : b.Trailing) (n : ℕ) :
    ∃ b', b.bufferDrain n = .ok b' ∧ b'.Trailing := by
  obtain ⟨b', hok, hb', -⟩ := hb.toUserState.bufferDrain_ok n
  refine ⟨b', hok, hb', ?_⟩
  by_cases hn : b.totalSize ≤ n
  · rw [bufferDrain_of_le hn] at hok
    obtain rfl := Except.ok.inj hok
    exact List.Pairwise.nil
  · have hlink : b.HasLink b.lastWithData := hb.represented.link
    obtain ⟨dropped, c, next, remain, hsplit, hlt, -, heq⟩ :=
      hb.toWellFormed.accounted.bufferDrain_lt hlink (Nat.not_le.mp hn)
    obtain rfl := Except.ok.inj (hok.symm.trans heq)
    have h := hb.trailing
    rw [hsplit, List.pairwise_append, List.pairwise_cons] at h
    refine List.pairwise_cons.mpr ⟨fun d _ hzero => ?_, h.2.1.2⟩
    simp only [BufferChain.consume] at hzero
    omega

/-- Reading succeeds and leaves the empty chains at the end. -/
theorem Trailing.bufferRead_ok {b : Buffer} (hb : b.Trailing) (n : ℕ) :
    ∃ b' data, b.bufferRead n = .ok (b', data) ∧ b'.Trailing := by
  obtain ⟨b', hread, hdrain | ⟨rfl, -⟩⟩ :=
    hb.toWellFormed.accounted.bufferRead_ok hb.represented.link n
  · obtain ⟨b'', hok, hb''⟩ := hb.bufferDrain_ok n
    obtain rfl := Except.ok.inj (hdrain.symm.trans hok)
    exact ⟨b', _, hread, hb''⟩
  · exact ⟨b', _, hread, hb⟩

end Buffer

/-! ## Runs -/

/-- The number of bytes that an operation adds. -/
def UserOp.added : UserOp → ℕ
  | .add data => data.length
  | .drain _ => 0
  | .read _ => 0

/-- An addition does not need a new chain while a chain behind the first is empty. -/
def Session.Admits (s : Session) : UserOp → Prop
  | .add data => Buffer.Admits data.length s.buffer.chains
  | .drain _ => True
  | .read _ => True

instance (s : Session) : ∀ op, Decidable (s.Admits op)
  | .add data => inferInstanceAs (Decidable (Buffer.Admits data.length s.buffer.chains))
  | .drain _ => .isTrue trivial
  | .read _ => .isTrue trivial

/-- No operation stores more bytes than it adds. -/
theorem Session.totalSize_step_le {s t : Session} {op : UserOp} (h : s.step op = .ok t) :
    t.buffer.totalSize ≤ s.buffer.totalSize + op.added := by
  cases op with
  | add data =>
    obtain ⟨b, hadd, h⟩ := bind_eq_ok.mp h
    obtain rfl := Except.ok.inj h
    rw [Buffer.bufferAdd_totalSize hadd, sizeAdd]
    exact Nat.mod_le _ _
  | drain n =>
    obtain ⟨b, hdrain, h⟩ := bind_eq_ok.mp h
    obtain rfl := Except.ok.inj h
    rw [Buffer.bufferDrain_totalSize hdrain]
    exact Nat.sub_le_of_le_add (by omega)
  | read n =>
    obtain ⟨⟨b, data⟩, hread, h⟩ := bind_eq_ok.mp h
    obtain rfl := Except.ok.inj h
    dsimp only
    rw [Buffer.bufferRead] at hread
    obtain ⟨copied, -, hread⟩ := bind_eq_ok.mp hread
    cases copied with
    | none =>
      obtain ⟨rfl, -⟩ := Prod.mk.inj (Except.ok.inj hread)
      exact Nat.le_add_right ..
    | some copied =>
      obtain ⟨b', hdrain, hread⟩ := bind_eq_ok.mp hread
      obtain ⟨rfl, -⟩ := Prod.mk.inj (Except.ok.inj hread)
      rw [Buffer.bufferDrain_totalSize hdrain]
      omega

/-- One operation keeps the invariant if and only if it is admitted. -/
theorem Session.step_decides {s : Session} (hs : s.buffer.Trailing) (op : UserOp)
    (hlt : s.buffer.totalSize + op.added < 2 ^ 63) :
    (s.Admits op → ∃ t, s.step op = .ok t ∧ t.buffer.Trailing) ∧
      (¬ s.Admits op → ∃ e, s.step op = .error e) := by
  cases op with
  | add data =>
    obtain ⟨hadmits, hnot⟩ := hs.bufferAdd_decides hlt
    constructor
    · intro h
      obtain ⟨b, hok, hb⟩ := hadmits h
      exact ⟨{ s with buffer := b }, by rw [Session.step, hok]; rfl, hb⟩
    · intro h
      obtain ⟨e, he⟩ := hnot h
      exact ⟨e, by rw [Session.step, he]; rfl⟩
  | drain n =>
    obtain ⟨b, hok, hb⟩ := hs.bufferDrain_ok n
    refine ⟨fun _ => ?_, fun hnot => absurd trivial hnot⟩
    exact ⟨{ s with buffer := b }, by rw [Session.step, hok]; rfl, hb⟩
  | read n =>
    obtain ⟨b, data, hok, hb⟩ := hs.bufferRead_ok n
    refine ⟨fun _ => ?_, fun hnot => absurd trivial hnot⟩
    exact ⟨{ buffer := b, delivered := s.delivered ++ [data] }, by rw [Session.step, hok]; rfl, hb⟩

/-- A run keeps the representation invariant, and none of its loops, copies and
assertions fails, if and only if no addition needs a new chain while a chain behind the
first is empty. -/
theorem Session.represented_iff {ops : List UserOp} (hlen : (ops.map UserOp.added).sum < 2 ^ 63) :
    Safe Session.step (fun s => s.buffer.Represented) {} ops ↔
      Guarded Session.step Session.Admits {} ops := by
  have hguard : Guarded Session.step (fun s op => s.buffer.totalSize + op.added < 2 ^ 63) {} ops :=
    guarded_of_cost (fun s => s.buffer.totalSize) UserOp.added
      (fun s op t h => Session.totalSize_step_le h) (by simpa using hlen)
  refine along_congr_of_guarded (fun s => s.buffer.Trailing) ?_ ?_ Buffer.trailing_empty hguard
  · intro s op hs hlt
    obtain ⟨hadmits, hnot⟩ := Session.step_decides hs op hlt
    constructor
    · rintro ⟨t, hok, -⟩
      by_contra h
      obtain ⟨e, he⟩ := hnot h
      rw [he] at hok
      cases hok
    · intro h
      obtain ⟨t, hok, ht⟩ := hadmits h
      exact ⟨t, hok, ht.represented⟩
  · intro s op t hs hlt hadmits hok
    obtain ⟨t', hok', ht'⟩ := (Session.step_decides hs op hlt).1 hadmits
    obtain rfl := Except.ok.inj (hok.symm.trans hok')
    exact ht'

/-- Additions, a partial read and drains that leave the invariant. -/
theorem Session.represented_six_operations :
    Safe Session.step (fun s => s.buffer.Represented) {}
      [.add [1, 2, 3], .read 2, .add (List.replicate 600 0), .drain 601, .add [4], .drain 9] :=
  (Session.represented_iff (by decide +kernel)).mpr (by decide +kernel)

/-- An addition that fits the first chain exactly, and one that needs another chain. -/
def exactFitRun : List UserOp := [.add (List.replicate 512 0), .add [1]]

/-- The second addition deletes the empty chain and then reads its link. -/
theorem Session.exactFitRun_not_represented :
    (exactFitRun.map UserOp.added).sum < 2 ^ 63 ∧
      (run Session.step {} exactFitRun).map (fun _ => ()) = .error .useAfterFree ∧
      ¬ Safe Session.step (fun s => s.buffer.Represented) {} exactFitRun := by
  have hrun : (run Session.step {} exactFitRun).map (fun _ => ()) = .error .useAfterFree := by
    decide +kernel
  refine ⟨by decide +kernel, hrun, fun hsafe => ?_⟩
  obtain ⟨t, ht⟩ := hsafe.run_ok
  rw [ht] at hrun
  cases hrun

end Reactor
