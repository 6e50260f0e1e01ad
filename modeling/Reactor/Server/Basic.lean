import Mathlib.Data.Finmap
import Mathlib.Data.Fintype.Basic
import Reactor.Lib.Memory
import Reactor.Lib.Run
import Reactor.TcpConnection.Basic

/-!
# The server and its loops

`TcpServer` with the threads of its loops. Connections are accepted and removed in the
base loop and served in their own loops; what one loop wants done in another it queues
there. A connection lives as long as a `shared_ptr` refers to it: the entry in
`connections_`, a functor that is bound to it, or a pointer that user code keeps. The
steps of the loops, of the kernel and of user code are interleaved at will.
-/

namespace Reactor

open Transition

/-- A `TcpConnection` object, by its identity. -/
structure Connection (ι : Type*) where
  id : ℕ
  sockfd : ℕ
  /-- The loop that `getLoop` returns. -/
  ioLoop : ι
  deriving DecidableEq, Repr

/-- A functor in the queue of a loop. -/
inductive LoopFunctor (ι : Type*) where
  | connectEstablished (conn : Connection ι)
  | removeConnection (conn : Connection ι)
  | removeConnectionInPoller (conn : Connection ι)
  /-- `sendInLoop` with the address of the message; `sent` records the bytes that it held
  at the time of the call, and no function reads it. -/
  | sendInLoop (conn : Connection ι) (message datalen : ℕ) (sent : List UInt8)
  | shutdownInLoop (conn : Connection ι)
  deriving DecidableEq, Repr

/-- The connection that a `shared_ptr` in the functor refers to. -/
def LoopFunctor.owner {ι : Type*} : LoopFunctor ι → Option (Connection ι)
  | .connectEstablished conn | .removeConnection conn | .removeConnectionInPoller conn => some conn
  | .sendInLoop _ _ _ _ | .shutdownInLoop _ => none

/-- The connection that the functor calls through the pointer `this`. -/
def LoopFunctor.target {ι : Type*} : LoopFunctor ι → Option (Connection ι)
  | .sendInLoop conn _ _ _ | .shutdownInLoop conn => some conn
  | .connectEstablished _ | .removeConnection _ | .removeConnectionInPoller _ => none

/-- What a loop thread is doing. -/
inductive LoopPhase (ι : Type*) where
  /-- It polls or runs the handlers of the active channels. -/
  | handlers
  /-- It runs the batch of `doPendingFunctors`, which keeps the functors that have been
  called until its end. -/
  | functors (called rest : List (LoopFunctor ι))
  deriving DecidableEq, Repr

/-- An `EventLoop` of the server. -/
structure ServerLoop (ι : Type*) where
  pendingFunctors : List (LoopFunctor ι) := []
  phase : LoopPhase ι := .handlers
  /-- `channelMap_` of the poller, as far as it holds channels of connections. -/
  channelMap : Finmap (fun _ : ℕ => Connection ι) := ∅

namespace ServerLoop

variable {ι : Type*}

/-- The functors that are still to be called. -/
def unexecuted (loop : ServerLoop ι) : List (LoopFunctor ι) :=
  match loop.phase with
  | .handlers => loop.pendingFunctors
  | .functors _ rest => rest ++ loop.pendingFunctors

/-- The functors that exist. -/
def held (loop : ServerLoop ι) : List (LoopFunctor ι) :=
  match loop.phase with
  | .handlers => loop.pendingFunctors
  | .functors called rest => called ++ rest ++ loop.pendingFunctors

end ServerLoop

/-- What a `TcpConnection` object contains, as far as its functors use it. -/
structure ConnectionData where
  state : ConnectionState := .connecting
  /-- The bytes appended to `outputBuffer_`. -/
  output : List UInt8 := []

/-- `TcpServer` with its loops, its user and the memory that messages are sent from. -/
structure Server (ι : Type*) where
  name : String
  base : ι
  connections : Finmap (fun _ : String => Connection ι) := ∅
  loops : ι → ServerLoop ι := fun _ => {}
  /-- The base loop is in `removeConnection`, behind the erase; with the number of
  entries erased. -/
  removing : Option (Connection ι × ℕ) := none
  /-- The connections that user code keeps a `shared_ptr` of. -/
  userRefs : Finset (Connection ι) := ∅
  data : ℕ → ConnectionData := fun _ => {}
  /-- `none` where no memory is allocated. -/
  memory : ℕ → Option UInt8
  nextId : ℕ := 0

/-- What ends a run of the server. -/
inductive ServerFault where
  /-- The step is not possible in the state. -/
  | disabled
  | fault (fault : Fault)
  deriving DecidableEq, Repr

/-- A step of a loop, of the kernel or of user code. -/
inductive ServerAction (ι : Type*) where
  /-- `accept` returns a descriptor, and `OnConnection` picks a loop. -/
  | onConnection (sockfd : ℕ) (ioLoop : ι)
  /-- The handler of a registered channel calls `handleClose`. -/
  | handleClose (conn : Connection ι)
  /-- The rest of `removeConnection`, behind the erase. -/
  | queueRemoval
  /-- `doPendingFunctors` swaps the queue of the loop. -/
  | swap (loop : ι)
  /-- The next functor of the batch is called. -/
  | callFunctor (loop : ι)
  /-- `doPendingFunctors` returns and destroys the batch. -/
  | endBatch (loop : ι)
  /-- User code copies a `shared_ptr` that it is given. -/
  | retain (conn : Connection ι)
  /-- User code drops its `shared_ptr`. -/
  | release (conn : Connection ι)
  /-- User code calls `send`, in the loop thread or in another one. -/
  | send (inLoop : Bool) (conn : Connection ι) (message datalen : ℕ)
  /-- User code calls `shutdown`. -/
  | shutdown (inLoop : Bool) (conn : Connection ι)
  /-- User code writes, frees or allocates a byte of its memory. -/
  | setMemory (address : ℕ) (value : Option UInt8)

/-- The bytes of a message, unless some of its memory is not allocated. -/
def readMessage (memory : ℕ → Option UInt8) (message datalen : ℕ) : Option (List UInt8) :=
  (Memory.read memory message datalen).mapM id

namespace Server

variable {ι : Type*}

/-- `name_` followed by the decimal digits of the descriptor. -/
def nameOf (s : Server ι) (sockfd : ℕ) : String := s.name ++ toString sockfd

/-- The connection has an entry in `connections_`. -/
def InMap (s : Server ι) (conn : Connection ι) : Prop :=
  ∃ key, s.connections.lookup key = some conn

/-- The base loop is in `removeConnection` for the connection. -/
def Removing (s : Server ι) (conn : Connection ι) : Prop := ∃ n, s.removing = some (conn, n)

/-- The base loop is in `removeConnection` and does nothing else meanwhile. -/
def Busy (s : Server ι) (l : ι) : Prop := l = s.base ∧ s.removing ≠ none

variable [DecidableEq ι]

/-- The channel of the connection is registered in the poller of its loop. -/
def Registered (s : Server ι) (conn : Connection ι) : Prop :=
  (s.loops conn.ioLoop).channelMap.lookup conn.sockfd = some conn

instance (s : Server ι) (l : ι) : Decidable (s.Busy l) :=
  decidable_of_iff (l = s.base ∧ s.removing.isSome = true)
    (by simp [Busy, Option.isSome_iff_ne_none])

instance (s : Server ι) (conn : Connection ι) : Decidable (s.Registered conn) :=
  inferInstanceAs (Decidable (_ = _))

/-- The loop `l` moves on. -/
def setLoop (s : Server ι) (l : ι) (loop : ServerLoop ι) : Server ι :=
  { s with loops := Function.update s.loops l loop }

/-- `EventLoop::queueInLoop` of the loop `l`. -/
def queueInLoop (s : Server ι) (l : ι) (functor : LoopFunctor ι) : Server ι :=
  s.setLoop l { s.loops l with pendingFunctors := (s.loops l).pendingFunctors ++ [functor] }

/-- A change of what the connection contains. -/
def setData (s : Server ι) (conn : Connection ι) (data : ConnectionData) : Server ι :=
  { s with data := Function.update s.data conn.id data }

section

variable [Fintype ι]

/-- The connections that a `shared_ptr` refers to; the others have been destroyed. -/
def references (s : Server ι) : Finset (Connection ι) :=
  (s.connections.keys.biUnion fun key => (s.connections.lookup key).toFinset) ∪
    (s.removing.map Prod.fst).toFinset ∪ s.userRefs ∪
    Finset.univ.biUnion fun l => ((s.loops l).held.filterMap LoopFunctor.owner).toFinset

/-- A `shared_ptr` refers to the connection. -/
def Owned (s : Server ι) (conn : Connection ι) : Prop := conn ∈ s.references

/-- A descriptor is open as long as the connection exists that closes it. -/
def FdOpen (s : Server ι) (sockfd : ℕ) : Prop := ∃ conn ∈ s.references, conn.sockfd = sockfd

instance (s : Server ι) (conn : Connection ι) : Decidable (s.Owned conn) :=
  inferInstanceAs (Decidable (_ ∈ _))

instance (s : Server ι) (sockfd : ℕ) : Decidable (s.FdOpen sockfd) :=
  inferInstanceAs (Decidable (∃ conn ∈ s.references, _))

/-- The owners of a connection: the map, the removal, the user and the functors. -/
theorem owned_iff {s : Server ι} {conn : Connection ι} :
    s.Owned conn ↔ s.InMap conn ∨ s.Removing conn ∨ conn ∈ s.userRefs ∨
      ∃ l, ∃ f ∈ (s.loops l).held, f.owner = some conn := by
  have hmap : (∃ key ∈ s.connections.keys, s.connections.lookup key = some conn) ↔
      s.InMap conn := by
    constructor
    · rintro ⟨key, -, hkey⟩
      exact ⟨key, hkey⟩
    · rintro ⟨key, hkey⟩
      exact ⟨key, Finmap.mem_keys.mpr (Finmap.mem_of_lookup_eq_some hkey), hkey⟩
  have hremoving : (∃ p, s.removing = some p ∧ p.1 = conn) ↔ s.Removing conn := by
    constructor
    · rintro ⟨⟨conn', n⟩, hp, rfl⟩
      exact ⟨n, hp⟩
    · rintro ⟨n, hn⟩
      exact ⟨(conn, n), hn, rfl⟩
  simp only [Owned, references, Finset.mem_union, Finset.mem_biUnion, Finset.mem_univ, true_and,
    Option.mem_toFinset, List.mem_toFinset, List.mem_filterMap, Option.mem_def,
    Option.map_eq_some_iff, or_assoc, hmap, hremoving]

/-- A connection in the map is owned. -/
theorem owned_of_inMap {s : Server ι} {conn : Connection ι} (h : s.InMap conn) : s.Owned conn :=
  owned_iff.mpr (.inl h)

/-- A connection that is being removed is owned. -/
theorem owned_of_removing {s : Server ι} {conn : Connection ι} (h : s.Removing conn) :
    s.Owned conn :=
  owned_iff.mpr (.inr (.inl h))

/-- A connection that the user refers to is owned. -/
theorem owned_of_userRef {s : Server ι} {conn : Connection ι} (h : conn ∈ s.userRefs) :
    s.Owned conn :=
  owned_iff.mpr (.inr (.inr (.inl h)))

/-- A connection that a functor holds is owned. -/
theorem owned_of_held {s : Server ι} {conn : Connection ι} {l : ι} {f : LoopFunctor ι}
    (hf : f ∈ (s.loops l).held) (hown : f.owner = some conn) : s.Owned conn :=
  owned_iff.mpr (.inr (.inr (.inr ⟨l, f, hf, hown⟩)))

/-! ## The functions of the source -/

/-- `TcpConnection::connectEstablished`: the poller's `insert` keeps an entry that exists. -/
def connectEstablished (s : Server ι) (conn : Connection ι) : Server ι :=
  let loop := s.loops conn.ioLoop
  let channelMap :=
    if conn.sockfd ∈ loop.channelMap then loop.channelMap
    else loop.channelMap.insert conn.sockfd conn
  (s.setLoop conn.ioLoop { loop with channelMap }).setData conn
    { s.data conn.id with state := .connected }

/-- `TcpServer::removeConnection` up to the `assert` behind the erase. -/
def removeConnection (s : Server ι) (conn : Connection ι) : Server ι :=
  let key := s.nameOf conn.sockfd
  { s with
    connections := s.connections.erase key
    removing := some (conn, if key ∈ s.connections then 1 else 0) }

/-- `TcpServer::closeConnection`: `runInLoop` of the base loop. -/
def closeConnection (s : Server ι) (conn : Connection ι) : Server ι :=
  if conn.ioLoop = s.base then s.removeConnection conn
  else s.queueInLoop s.base (.removeConnection conn)

/-- `TcpConnection::removeConnectionInPoller`. -/
def removeConnectionInPoller (s : Server ι) (conn : Connection ι) :
    Except ServerFault (Server ι) :=
  let loop := s.loops conn.ioLoop
  if conn.sockfd ∈ loop.channelMap then
    .ok (s.setLoop conn.ioLoop { loop with channelMap := loop.channelMap.erase conn.sockfd })
  else .error (.fault .assertFailed)

/-- `TcpServer::OnConnection`. -/
def onConnection (s : Server ι) (sockfd : ℕ) (ioLoop : ι) : Server ι :=
  let conn : Connection ι := ⟨s.nextId, sockfd, ioLoop⟩
  let s := { s with
    nextId := s.nextId + 1
    connections := s.connections.insert (s.nameOf sockfd) conn }
  if ioLoop = s.base then s.connectEstablished conn
  else s.queueInLoop ioLoop (.connectEstablished conn)

/-- `TcpConnection::handleClose`. -/
def handleClose (s : Server ι) (conn : Connection ι) : Server ι :=
  (s.setData conn { s.data conn.id with state := .disConnected }).closeConnection conn

/-- `TcpConnection::sendInLoop`, of which only `bufferAdd` reads the message. -/
def sendInLoop (s : Server ι) (conn : Connection ι) (message datalen : ℕ) :
    Except ServerFault (Server ι) :=
  if s.Owned conn then
    match readMessage s.memory message datalen with
    | some bytes =>
      let data := s.data conn.id
      .ok (s.setData conn { data with output := data.output ++ bytes })
    | none => .error (.fault .useAfterFree)
  else .error (.fault .useAfterFree)

/-- `TcpConnection::shutdownInLoop`. -/
def shutdownInLoop (s : Server ι) (conn : Connection ι) : Except ServerFault (Server ι) :=
  if s.Owned conn then
    if (s.data conn.id).state = .connected then
      .ok (s.setData conn { s.data conn.id with state := .disConnecting })
    else .ok s
  else .error (.fault .useAfterFree)

/-- The call of a functor. -/
def call (s : Server ι) : LoopFunctor ι → Except ServerFault (Server ι)
  | .connectEstablished conn => .ok (s.connectEstablished conn)
  | .removeConnection conn => .ok (s.removeConnection conn)
  | .removeConnectionInPoller conn => s.removeConnectionInPoller conn
  | .sendInLoop conn message datalen _ => s.sendInLoop conn message datalen
  | .shutdownInLoop conn => s.shutdownInLoop conn

/-- A step of the interleaving. -/
def step (s : Server ι) : ServerAction ι → Except ServerFault (Server ι)
  | .onConnection sockfd ioLoop =>
    match (s.loops s.base).phase with
    | .handlers =>
      if s.removing = none ∧ ¬ s.FdOpen sockfd then .ok (s.onConnection sockfd ioLoop)
      else .error .disabled
    | .functors _ _ => .error .disabled
  | .handleClose conn =>
    match (s.loops conn.ioLoop).phase with
    | .handlers =>
      if s.Registered conn ∧ ¬ s.Busy conn.ioLoop then .ok (s.handleClose conn)
      else .error .disabled
    | .functors _ _ => .error .disabled
  | .queueRemoval =>
    match s.removing with
    | some (conn, 1) =>
      .ok ({ s with removing := none }.queueInLoop conn.ioLoop (.removeConnectionInPoller conn))
    | some _ => .error (.fault .assertFailed)
    | none => .error .disabled
  | .swap l =>
    match (s.loops l).phase with
    | .handlers =>
      if ¬ s.Busy l then
        .ok (s.setLoop l { s.loops l with
          phase := .functors [] (s.loops l).pendingFunctors
          pendingFunctors := [] })
      else .error .disabled
    | .functors _ _ => .error .disabled
  | .callFunctor l =>
    match (s.loops l).phase with
    | .functors called (functor :: rest) =>
      if ¬ s.Busy l then
        (s.setLoop l { s.loops l with phase := .functors (called ++ [functor]) rest }).call functor
      else .error .disabled
    | _ => .error .disabled
  | .endBatch l =>
    match (s.loops l).phase with
    | .functors _ [] =>
      if ¬ s.Busy l then .ok (s.setLoop l { s.loops l with phase := .handlers })
      else .error .disabled
    | _ => .error .disabled
  | .retain conn =>
    if s.Owned conn then .ok { s with userRefs := insert conn s.userRefs } else .error .disabled
  | .release conn =>
    if conn ∈ s.userRefs then .ok { s with userRefs := s.userRefs.erase conn }
    else .error .disabled
  | .send inLoop conn message datalen =>
    match readMessage s.memory message datalen with
    | some bytes =>
      if inLoop = true ∧ s.Owned conn then s.sendInLoop conn message datalen
      else if inLoop = false ∧ conn ∈ s.userRefs then
        .ok (s.queueInLoop conn.ioLoop (.sendInLoop conn message datalen bytes))
      else .error .disabled
    | none => .error .disabled
  | .shutdown inLoop conn =>
    if inLoop = true ∧ s.Owned conn then s.shutdownInLoop conn
    else if inLoop = false ∧ conn ∈ s.userRefs then
      .ok (s.queueInLoop conn.ioLoop (.shutdownInLoop conn))
    else .error .disabled
  | .setMemory address value =>
    .ok { s with memory := Function.update s.memory address value }

end

end Server

end Reactor
