import Reactor.Buffer.Linked
import Reactor.Buffer.Receive

/-!
# Runs of reads from a socket and drains

Drains remove whole chains and open gaps in full ones, so they keep what reads rely on.
A run keeps the input intact if and only if every read from the socket reads whole
chains.
-/

namespace Reactor

open Transition

/-- What happens to the input buffer of a connection. -/
inductive InputOp where
  /-- `bufferRead(fd)` when `FIONREAD` reports `pending` and `readv` finds `socket`. -/
  | receive (pending : ℕ) (socket : List UInt8)
  /-- `bufferDrain(n)`. -/
  | drain (n : ℕ)
  /-- `bufferRead(char*, n)`. -/
  | read (n : ℕ)

namespace Buffer

/-- The operations as `Buffer.cpp` carries them out. -/
def inputStep (b : Buffer) : InputOp → Except Fault Buffer
  | .receive pending socket => do
    let (b, _) ← b.bufferReadFd pending (some socket)
    return b
  | .drain n => b.bufferDrain n
  | .read n => do
    let (b, _) ← b.bufferRead n
    return b

/-- The step ends without a fault, and a read from the socket keeps the input intact. -/
def InputIntact (b : Buffer) (op : InputOp) (r : Except Fault Buffer) : Prop :=
  (∃ b', r = .ok b') ∧
  match op with
  | .receive pending socket => b.ReadsIntact pending socket
  | .drain _ | .read _ => True

/-- A read from the socket reads whole chains. -/
def InputWhole (b : Buffer) : InputOp → Prop
  | .receive pending socket => b.ReadsWholeChains pending socket
  | .drain _ | .read _ => True

/-! ## Drains -/

/-- A chain from which not all is read stays packed. -/
theorem packed_consume {c : BufferChain} (hc : c.Packed) {k : ℕ} (hk : k < c.off) :
    (c.consume k).Packed where
  toBounded := hc.toBounded.consume hk.le
  aligned h := by
    simp only [BufferChain.consume] at h
    omega
  full _ := by
    have := hc.full (by omega)
    simp only [BufferChain.consume]
    omega

/-- `bufferDrain` keeps the invariant. -/
theorem ReadState.bufferDrain_ok {b : Buffer} (hb : b.ReadState) (n : ℕ) :
    ∃ b', b.bufferDrain n = .ok b' ∧ b'.ReadState := by
  obtain ⟨before, rest, hsplit⟩ := hb.link
  obtain ⟨b', hok, hwell, -⟩ := hb.toWellFormed.bufferDrain_ok hsplit.splits.hasLink n
  refine ⟨b', hok, ?_⟩
  by_cases hn : b.totalSize ≤ n
  · rw [bufferDrain_of_le hn] at hok
    obtain rfl := Except.ok.inj hok
    exact ⟨hwell, by simp, [], [], rfl, rfl, fun _ => rfl, by simp⟩
  · obtain ⟨dropped, c, next, remain, hchains, hlt, -, heq⟩ :=
      hb.toWellFormed.accounted.bufferDrain_lt hsplit.splits.hasLink (Nat.not_le.mp hn)
    obtain rfl := Except.ok.inj (hok.symm.trans heq)
    refine ⟨hwell, List.forall_mem_cons.mpr ⟨packed_consume (hb.packed c (by simp [hchains])) hlt,
      fun d hd => hb.packed d (by simp [hchains, hd])⟩, ?_⟩
    rcases hsplit.splits.drained hb.distinct hchains { b with
        chains := c.consume remain :: next
        lastWithData := linkAfterDrain b.lastWithData dropped
        totalSize := b.totalSize - n } rfl rfl with ⟨m, rfl, h⟩ | ⟨m, -, h⟩
    · refine ⟨[], c.consume remain :: next, h.chains_eq, h.link_eq, by simp, fun d hd => ?_⟩
      have hrest : rest = m ++ c :: next := by
        have := hsplit.chains_eq.symm.trans hchains
        rwa [List.append_assoc, List.append_cancel_left_eq] at this
      -- the chain where the drain stops holds data, so it is not behind the last with data
      cases m with
      | nil =>
        refine hsplit.tail_empty d ?_
        rw [hrest]
        exact hd
      | cons e m =>
        have hoff := hsplit.tail_empty c (by simp [hrest])
        omega
    · exact ⟨_, _, h.chains_eq, h.link_eq, h.leads, hsplit.tail_empty⟩

/-- Reading from a buffer that is read into succeeds, and leaves it so. -/
theorem ReadState.bufferRead_ok {b : Buffer} (hb : b.ReadState) (n : ℕ) :
    ∃ b' data, b.bufferRead n = .ok (b', data) ∧ b'.ReadState := by
  obtain ⟨before, rest, hsplit⟩ := hb.link
  obtain ⟨b', hread, hdrain | ⟨rfl, -⟩⟩ :=
    hb.toWellFormed.accounted.bufferRead_ok hsplit.splits.hasLink n
  · obtain ⟨b'', hok, hb''⟩ := hb.bufferDrain_ok n
    obtain rfl := Except.ok.inj (hdrain.symm.trans hok)
    exact ⟨b', _, hread, hb''⟩
  · exact ⟨b', _, hread, hb⟩

/-! ## Runs -/

/-- A step keeps the input intact if and only if it reads whole chains. -/
theorem ReadState.inputIntact_iff {b : Buffer} (hb : b.ReadState) (op : InputOp) :
    b.InputIntact op (b.inputStep op) ↔ b.InputWhole op := by
  cases op with
  | receive pending socket =>
    refine ⟨fun h => hb.wholeChains_of_intact h.2, fun h => ?_⟩
    obtain ⟨b', k, hok, hb', hstored, htotal⟩ := hb.bufferReadFd_whole h
    exact ⟨⟨b', by rw [inputStep, hok]; rfl⟩, b', k, hok, hstored, htotal, hb'.total_eq⟩
  | drain n =>
    obtain ⟨b', hok, -⟩ := hb.bufferDrain_ok n
    exact iff_of_true ⟨⟨b', hok⟩, trivial⟩ trivial
  | read n =>
    obtain ⟨b', data, hok, -⟩ := hb.bufferRead_ok n
    exact iff_of_true ⟨⟨b', by rw [inputStep, hok]; rfl⟩, trivial⟩ trivial

/-- An operation that keeps the input whole leaves the buffer ready to be read into. -/
theorem ReadState.inputStep_keeps {b b' : Buffer} (hb : b.ReadState) (op : InputOp)
    (h : b.InputWhole op) (hok : b.inputStep op = .ok b') : b'.ReadState := by
  cases op with
  | receive pending socket =>
    obtain ⟨b'', k, hread, hb'', -⟩ := hb.bufferReadFd_whole h
    rw [inputStep, hread] at hok
    exact Except.ok.inj hok ▸ hb''
  | drain n =>
    obtain ⟨b'', hdrain, hb''⟩ := hb.bufferDrain_ok n
    exact Except.ok.inj (hdrain.symm.trans hok) ▸ hb''
  | read n =>
    obtain ⟨b'', data, hread, hb''⟩ := hb.bufferRead_ok n
    rw [inputStep, hread] at hok
    exact Except.ok.inj hok ▸ hb''

/-- Along a run from the empty buffer every step keeps the input intact if and only if
every read reads whole chains. -/
theorem inputIntact_iff_whole (ops : List InputOp) :
    Along inputStep InputIntact {} ops ↔ Guarded inputStep InputWhole {} ops :=
  along_iff_guarded (fun _ op hb => ReadState.inputIntact_iff hb op)
    (fun _ op _ hb h hok => hb.inputStep_keeps op h hok) readState_empty

/-- Five bytes read into the first chain of 512 are recorded as 512. -/
theorem not_inputIntact : ¬ Along inputStep InputIntact {} [.receive 5 [1, 2, 3, 4, 5]] := by
  rintro ⟨⟨-, b', k, hok, -, -, hcount⟩, -⟩
  have hcode : (({} : Buffer).bufferReadFd 5 (some [1, 2, 3, 4, 5])).map
      (fun r => (r.1.totalSize, (r.1.chains.map BufferChain.off).sum)) = .ok (5, 512) := by
    decide +kernel
  rw [hok, Except.map] at hcode
  obtain ⟨htotal, hsum⟩ : b'.totalSize = 5 ∧ (b'.chains.map BufferChain.off).sum = 512 :=
    Prod.mk.inj (Except.ok.inj hcode)
  omega

end Buffer

end Reactor
