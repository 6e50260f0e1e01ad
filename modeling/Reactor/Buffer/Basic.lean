import Reactor.Lib.Memory
import Reactor.Machine

/-!
# The chained buffer of `Buffer.cpp`

A `Buffer` is a singly linked list of `BufferChain` blocks. The model keeps the list
from `first_` on as a Lean list; a chain has the address that `new` gave it, and
`last_` and `lastWithData_` are the pointers of the source: `last_` an address,
`lastWithData_` the address of a link, either `&first_` or `&chain->next_`. A cell
that `new char[]` has left uninitialised holds no byte.
-/

namespace Reactor

/-- A cell of a chain's block; `none` is an indeterminate value. -/
abbrev Cell := Option UInt8

/-- `BufferChain`: the cells `[misalign, misalign + off)` of `buffer` hold data and
those behind them up to `bufferSize` are free. -/
structure BufferChain where
  /-- The address of the chain. -/
  addr : ℕ
  bufferSize : ℕ
  misalign : ℕ
  off : ℕ
  buffer : ℕ → Cell

namespace BufferChain

/-- The data of a chain. -/
def stored (c : BufferChain) : List Cell := Memory.read c.buffer c.misalign c.off

/-- The free room behind the data of a chain, as the source computes it. -/
def room (c : BufferChain) : ℕ := sizeSub (sizeSub c.bufferSize c.off) c.misalign

/-- `BufferChain::shouldRealign`. -/
def shouldRealign (c : BufferChain) (dataSize : ℕ) : Bool :=
  decide (dataSize < sizeSub c.bufferSize c.off)

/-- The chain with `data` stored in its block from `pos` on. -/
def written (c : BufferChain) (pos : ℕ) (data : List Cell) : BufferChain :=
  { c with buffer := Memory.write c.buffer pos data }

/-- `BufferChain::Realign`: move the data to the front of the block. -/
def realign (c : BufferChain) : BufferChain := { c.written 0 c.stored with misalign := 0 }

/-- The increase `chain->off_ += n`. -/
def grow (c : BufferChain) (n : ℕ) : BufferChain := { c with off := sizeAdd c.off n }

/-- `memcpy` into the block of a chain. -/
def memcpy (c : BufferChain) (pos : ℕ) (data : List Cell) : Except Fault BufferChain :=
  if pos + data.length ≤ c.bufferSize then .ok (c.written pos data) else .error .outOfBounds

/-- `memcpy` of `len` cells out of the block of a chain. -/
def copyFrom (c : BufferChain) (pos len : ℕ) : Except Fault (List Cell) :=
  if pos + len ≤ c.bufferSize then .ok (Memory.read c.buffer pos len) else .error .outOfBounds

end BufferChain

/-- `kDefaultAllocSize`. -/
def kDefaultAllocSize : ℕ := 512

/-- The loop `while (toalloc < totalSize) toalloc *= 2`, given up after `fuel` tests. -/
def doubleUntil (totalSize : ℕ) : ℕ → ℕ → Option ℕ
  | 0, _ => none
  | fuel + 1, toalloc =>
    if toalloc < totalSize then doubleUntil totalSize fuel (toalloc * 2 % 2 ^ 64)
    else some toalloc

/-- `detail::createNewBufferChain`. After 55 doublings the product has wrapped to zero,
which the loop never leaves, so 64 tests decide whether it ends. -/
def createNewBufferChain (addr totalSize : ℕ) : Except Fault BufferChain :=
  match doubleUntil totalSize 64 kDefaultAllocSize with
  | some toalloc =>
    .ok { addr, bufferSize := toalloc, misalign := 0, off := 0, buffer := fun _ => none }
  | none => .error .divergence

/-- The address of a link of the list: `&first_` or `&chain->next_`. -/
inductive Slot where
  | first
  | next (chain : ℕ)
  deriving DecidableEq, Repr

/-- `Buffer`. -/
structure Buffer where
  /-- The chains linked from `first_`. -/
  chains : List BufferChain := []
  last : Option ℕ := none
  lastWithData : Slot := .first
  totalSize : ℕ := 0
  /-- The address that the next `new BufferChain` returns. -/
  fresh : ℕ := 0

/-- The chains before, at and behind an address. -/
def locate (addr : ℕ) :
    List BufferChain → Except Fault (List BufferChain × BufferChain × List BufferChain)
  | [] => .error .useAfterFree
  | c :: cs =>
    if c.addr = addr then .ok ([], c, cs)
    else do
      let (before, chain, rest) ← locate addr cs
      return (c :: before, chain, rest)

namespace Buffer

/-- The data of a buffer. -/
def stored (b : Buffer) : List Cell := b.chains.flatMap BufferChain.stored

/-- The list split at a link: the chains up to it, and those it leads to. -/
def follow (b : Buffer) : Slot → Except Fault (List BufferChain × List BufferChain)
  | .first => .ok ([], b.chains)
  | .next addr => do
    let (before, chain, rest) ← locate addr b.chains
    return (before ++ [chain], rest)

/-- The pointer stored in a link. -/
def pointee (b : Buffer) (slot : Slot) : Except Fault (Option ℕ) := do
  let (_, rest) ← b.follow slot
  return rest.head?.map BufferChain.addr

/-- The link at which a walk over `walked`, begun at `slot`, ends. -/
def linkAfter (slot : Slot) (walked : List BufferChain) : Slot :=
  match walked.getLast? with
  | none => slot
  | some c => .next c.addr

/-- `Buffer::afterChainisEmpty`. -/
def afterChainisEmpty (chains : List BufferChain) : Bool := chains.all fun c => c.off == 0

/-- `Buffer::deleteAfterChain`: the loop reads `chain->next_` after `delete chain`. -/
def deleteAfterChain : List BufferChain → Except Fault Unit
  | [] => .ok ()
  | _ :: _ => .error .useAfterFree

/-- `Buffer::bufferInsertChain`. -/
def bufferInsertChain (b : Buffer) (chain : BufferChain) : Except Fault Buffer := do
  let (before, rest) ← b.follow b.lastWithData
  let walked := rest.takeWhile fun c => c.off != 0
  let tail := rest.dropWhile fun c => c.off != 0
  if !tail.isEmpty then
    if !afterChainisEmpty tail then throw .assertFailed
    deleteAfterChain tail
  return { b with
    chains := before ++ walked ++ [chain]
    lastWithData := if chain.off != 0 then linkAfter b.lastWithData walked else b.lastWithData
    last := some chain.addr }

/-- The chain that `bufferAdd` writes to: `*lastWithData_`, else `last_`, else a new chain. -/
def targetChain (b : Buffer) (dataSize : ℕ) : Except Fault (Buffer × ℕ) := do
  match (← b.pointee b.lastWithData) <|> b.last with
  | some addr => return (b, addr)
  | none =>
    let chain ← createNewBufferChain b.fresh dataSize
    let b ← { b with fresh := b.fresh + 1 }.bufferInsertChain chain
    return (b, chain.addr)

/-- The last branch of `bufferAdd`: a new chain takes the data that did not fit. Its
`off_` is set after `bufferInsertChain` has linked it. -/
def addChain (b : Buffer) (data : List Cell) : Except Fault Buffer := do
  let newChain ← createNewBufferChain b.fresh data.length
  let newChain ← newChain.memcpy (newChain.misalign + newChain.off) data
  let b ← { b with fresh := b.fresh + 1 }.bufferInsertChain newChain
  let (before, chain, rest) ← locate newChain.addr b.chains
  return { b with
    chains := before ++ chain.grow data.length :: rest
    totalSize := sizeAdd b.totalSize data.length }

/-- `bufferAdd` once the target chain is known. -/
def addTo (b : Buffer) (addr : ℕ) (data : List Cell) : Except Fault Buffer := do
  let dataSize := data.length
  let (before, chain, rest) ← locate addr b.chains
  let remain := chain.room
  if dataSize < remain then
    let chain ← chain.memcpy (chain.misalign + chain.off) data
    return { b with
      chains := before ++ chain.grow dataSize :: rest
      totalSize := sizeAdd b.totalSize dataSize }
  else if chain.shouldRealign dataSize then
    let chain := chain.realign
    let chain ← chain.memcpy chain.off data
    return { b with
      chains := before ++ chain.grow dataSize :: rest
      totalSize := sizeAdd b.totalSize dataSize }
  else
    let chain ← chain.memcpy (chain.misalign + chain.off) (data.take remain)
    let b := { b with
      chains := before ++ chain.grow remain :: rest
      totalSize := sizeAdd b.totalSize remain }
    b.addChain (data.drop remain)

/-- `Buffer::bufferAdd`. -/
def bufferAdd (b : Buffer) (data : List UInt8) : Except Fault Buffer := do
  let (b, addr) ← b.targetChain data.length
  b.addTo addr (data.map some)

/-! ## Draining and copying out -/

/-- The loop of `bufferDrain`: delete chains while the rest of the amount covers them.
`b` is the buffer before the loop, through which `*lastWithData_` is read. -/
def drainLoop (b : Buffer) :
    List BufferChain → Slot → ℕ → Except Fault (List BufferChain × Slot × ℕ)
  | [], _, _ => .error .nullDereference
  | chain :: next, lastWithData, remain =>
    if chain.off ≤ remain then do
      let target ← b.pointee lastWithData
      let lastWithData := if some chain.addr = target then .first else lastWithData
      let lastWithData := if .next chain.addr = lastWithData then .first else lastWithData
      drainLoop b next lastWithData (remain - chain.off)
    else .ok (chain :: next, lastWithData, remain)

/-- `Buffer::bufferDrain`. -/
def bufferDrain (b : Buffer) (datalen : ℕ) : Except Fault Buffer := do
  if b.totalSize ≤ datalen then
    return { b with chains := [], last := none, lastWithData := .first, totalSize := 0 }
  else
    let (chains, lastWithData, remain) ← b.drainLoop b.chains b.lastWithData datalen
    let chains := match chains with
      | [] => []
      | chain :: next =>
        if remain ≠ 0 then
          { chain with
            misalign := sizeAdd chain.misalign remain
            off := chain.off - remain } :: next
        else chain :: next
    return { b with chains, lastWithData, totalSize := b.totalSize - datalen }

/-- The loop of `bufferCopyout` and the partial copy behind it. -/
def copyoutLoop : List BufferChain → ℕ → Except Fault (List Cell)
  | [], remain => if remain ≠ 0 then .error .nullDereference else .ok []
  | chain :: next, remain =>
    if chain.off ≤ remain then do
      let copied ← chain.copyFrom chain.misalign chain.off
      let more ← copyoutLoop next (remain - chain.off)
      return copied ++ more
    else if remain ≠ 0 then chain.copyFrom chain.misalign remain
    else .ok []

/-- `Buffer::bufferCopyout`; `none` is the result -1. -/
def bufferCopyout (b : Buffer) (len : ℕ) : Except Fault (Option (List Cell)) := do
  let len := if b.totalSize ≤ len then b.totalSize else len
  match b.chains with
  | [] => return none
  | chains => return some (← copyoutLoop chains len)

/-- `Buffer::bufferRead(char*, size_t)`: the buffer left and the cells copied out. -/
def bufferRead (b : Buffer) (datalen : ℕ) : Except Fault (Buffer × List Cell) := do
  match ← b.bufferCopyout datalen with
  | none => return (b, [])
  | some data => return (← b.bufferDrain datalen, data)

end Buffer

end Reactor
