import Reactor.Buffer.Basic

/-!
# Scatter and gather

The parts of `Buffer.cpp` that hand regions of the chains to `readv` and `writev`. An
`iovec` names a chain, a position in its block and a length. The kernel's part is the
data that `readv` finds and the number of bytes that a system call returns.
-/

namespace Reactor

/-- `BUFFER_MAX_READ`. -/
def kBufferMaxRead : ℕ := 4096

/-- `NUM_READ_IOVEC`. -/
def kNumReadIovec : ℕ := 4

/-- `NUM_WRITE_IOVEC`. -/
def kNumWriteIovec : ℕ := 64

/-- `detail::getSockfdBytes`: `ioctl` stores an `int` in the low half of the `size_t`. -/
def getSockfdBytes (pending : ℕ) : ℕ := kBufferMaxRead / 2 ^ 32 * 2 ^ 32 + pending % 2 ^ 32

/-- `struct iovec`. -/
structure Iovec where
  /-- The address of the chain whose block `iov_base` points into. -/
  chain : ℕ
  /-- The offset of `iov_base` in that block. -/
  base : ℕ
  len : ℕ
  deriving DecidableEq, Repr

/-- The number of bytes that vectors can take. -/
def totalLen (vecs : List Iovec) : ℕ := (vecs.map Iovec.len).sum

/-- The free room of a chain as the routines for reading compute it. -/
def BufferChain.chainSpace (c : BufferChain) : ℕ := sizeSub (sizeSub c.bufferSize c.misalign) c.off

namespace Buffer

/-! ## Reading from a socket -/

/-- The first loop of `bufferExpandFast`: the chains, whose `misalign_` it resets if they
are empty, and `avail` and `used` unless it has returned because the room suffices. -/
def expandLoop (n : ℕ) : List BufferChain → ℕ → ℕ → List BufferChain × Option (ℕ × ℕ)
  | [], avail, used => ([], some (avail, used))
  | chain :: next, avail, used =>
    let chainSpace := chain.chainSpace
    let (chain, avail, used) :=
      if chain.off ≠ 0 then
        if chainSpace ≠ 0 then (chain, sizeAdd avail chainSpace, sizeAdd used 1)
        else (chain, avail, used)
      else ({ chain with misalign := 0 }, sizeAdd avail chain.bufferSize, sizeAdd used 1)
    if n ≤ avail then (chain :: next, none)
    else if used = n then (chain :: next, some (avail, used))
    else
      let (next, result) := expandLoop n next avail used
      (chain :: next, result)

/-- The loop of `bufferExpandFast` that deletes chains: `chain->next_` is read after
`delete chain`. -/
def deleteEmptyChains : List BufferChain → Except Fault Unit
  | [] => .ok ()
  | chain :: _ => if chain.off = 0 then .error .useAfterFree else .error .assertFailed

/-- `Buffer::bufferExpandFast`. -/
def bufferExpandFast (b : Buffer) (n : ℕ) : Except Fault Buffer := do
  if b.last = none then
    let chain ← createNewBufferChain b.fresh n
    { b with fresh := b.fresh + 1 }.bufferInsertChain chain
  else
    let (before, rest) ← b.follow b.lastWithData
    let (rest, outcome) := expandLoop n rest 0 0
    let b := { b with chains := before ++ rest }
    match outcome with
    | none => return b
    | some (avail, used) =>
      if used < n then
        let newChain ← createNewBufferChain b.fresh (sizeSub n avail)
        return { b with
          chains := b.chains ++ [newChain], last := some newChain.addr, fresh := b.fresh + 1 }
      else
        match rest with
        | [] => throw .nullDereference
        | chain :: next =>
          deleteEmptyChains (if chain.off = 0 then chain :: next else next)
          let newChain ← createNewBufferChain b.fresh (sizeSub n chain.chainSpace)
          return { b with
            chains := before ++ [chain, newChain]
            last := some newChain.addr
            fresh := b.fresh + 1 }

/-- The loop of `bufferSetUpVecs` over at most `numIovec` chains. -/
def setUpVecsLoop (n : ℕ) : ℕ → List BufferChain → ℤ → Except Fault (List Iovec)
  | 0, _, _ => .ok []
  | numIovec + 1, chains, sofar =>
    if sofar < toInt n then
      match chains with
      | [] => .error .nullDereference
      | chain :: next => do
        let chainSpace := chain.room
        let left := sizeSub n (intToSize sofar)
        let chainSpace := if left < chainSpace then left else chainSpace
        let vecs ← setUpVecsLoop n numIovec next (toInt (sizeAdd (intToSize sofar) chainSpace))
        return ⟨chain.addr, chain.misalign, chainSpace⟩ :: vecs
    else .ok []

/-- `Buffer::bufferSetUpVecs`. -/
def bufferSetUpVecs (b : Buffer) (n numIovec : ℕ) : Except Fault (List Iovec) := do
  let (_, chains) ← b.follow b.lastWithData
  if chains.isEmpty then throw .assertFailed
  setUpVecsLoop n numIovec chains 0

/-- `readv` fills the vectors in order. -/
def readv (b : Buffer) : List Iovec → List Cell → Except Fault Buffer
  | [], _ => .ok b
  | vec :: vecs, data => do
    let (before, chain, rest) ← locate vec.chain b.chains
    let chain ← chain.memcpy vec.base (data.take vec.len)
    readv { b with chains := before ++ chain :: rest } vecs (data.drop vec.len)

/-- The loop of `bufferRead(int)` that adjusts `off_`; the link is the new
`lastWithData_` if the loop has reached the last chain that was read into. -/
def adjustLoop : ℕ → List BufferChain → Slot → ℕ → Except Fault (List BufferChain × Option Slot)
  | 0, chains, _, _ => .ok (chains, none)
  | _ + 1, [], _, _ => .error .nullDereference
  | i + 1, chain :: next, chainp, remain =>
    let chainSpace := chain.chainSpace
    if chainSpace < remain then do
      let (next, slot) ← adjustLoop i next (.next chain.addr) (remain - chainSpace)
      return (chain.grow chainSpace :: next, slot)
    else .ok (chain.grow chainSpace :: next, some chainp)

/-- `Buffer::bufferRead(int)`: `pending` is what `FIONREAD` reports, and `readv` takes
from `socket` what fits in the vectors, or fails if it is `none`. The test `n < 0` of an
unsigned `n` never holds. -/
def bufferReadFd (b : Buffer) (pending : ℕ) (socket : Option (List UInt8)) :
    Except Fault (Buffer × ℕ) := do
  let n := getSockfdBytes pending
  let b ← b.bufferExpandFast n
  let vecs ← b.bufferSetUpVecs n kNumReadIovec
  let received := socket.map fun data => data.take (totalLen vecs)
  let b ← b.readv vecs ((received.getD []).map some)
  let n := ssizeToSize (received.map List.length)
  let (before, chains) ← b.follow b.lastWithData
  let (chains, slot) ← adjustLoop vecs.length chains b.lastWithData n
  return ({ b with
    chains := before ++ chains
    lastWithData := slot.getD b.lastWithData
    totalSize := sizeAdd b.totalSize n }, n)

/-! ## Writing to a socket -/

/-- The loop of `writeIovec`. -/
def writeIovecLoop : ℕ → List BufferChain → ℕ → List Iovec
  | 0, _, _ => []
  | _, [], _ => []
  | i + 1, chain :: next, remain =>
    if remain = 0 then []
    else
      let chainSpace := chain.room
      let base := chain.misalign + chain.off
      if chainSpace ≤ remain then
        ⟨chain.addr, base, chainSpace⟩ :: writeIovecLoop i next (remain - chainSpace)
      else [⟨chain.addr, base, remain⟩]

/-- The cells that `writev` reads through the vectors. -/
def gather (b : Buffer) : List Iovec → Except Fault (List Cell)
  | [] => .ok []
  | vec :: vecs => do
    let (_, chain, _) ← locate vec.chain b.chains
    let cells ← chain.copyFrom vec.base vec.len
    return cells ++ (← b.gather vecs)

/-- `Buffer::writeIovec`: the cells offered to `writev`. -/
def writeIovec (b : Buffer) (howmuch : ℕ) : Except Fault (List Cell) :=
  b.gather (writeIovecLoop kNumWriteIovec b.chains howmuch)

end Buffer

end Reactor
