import Mathlib.Data.Fintype.Sum
import Mathlib.Tactic.DeriveFintype
import Reactor.EventLoopThreadPool
import Reactor.Server.Ownership

/-!
# Which loop a connection is served in

`OnConnection` asks the pool of event loops for the next loop. With the pool in place of the
arbitrary choice, a run of the server is still one of its runs; every connection lives in
the loop that its number falls to, and the loops get their shares of the connections.
-/

namespace Reactor

open Transition

/-- The loops of a server with `n` threads. -/
inductive LoopRef (n : ℕ) where
  | base
  | thread (i : Fin n)
  deriving DecidableEq, Fintype

/-- The loop of the thread number `i`. -/
def LoopRef.ofThread (n i : ℕ) : LoopRef n := if h : i < n then .thread ⟨i, h⟩ else .base

/-- A server with its pool of loops. -/
structure PooledServer (n : ℕ) where
  server : Server (LoopRef n)
  pool : EventLoopThreadPool (LoopRef n)
  /-- The loops of the connections, in the order in which they have been accepted. -/
  accepted : List (LoopRef n) := []

/-- A step of the server, in which `OnConnection` is called with the descriptor only. -/
inductive PooledAction (n : ℕ) where
  | onConnection (sockfd : ℕ)
  | other (action : ServerAction (LoopRef n))

namespace PooledServer

variable {n : ℕ}

/-- A step of the interleaving. -/
def step (s : PooledServer n) : PooledAction n → Except ServerFault (PooledServer n)
  | .onConnection sockfd =>
    match s.pool.getNextLoop with
    | .ok (ioLoop, pool) =>
      (s.server.step (.onConnection sockfd ioLoop)).map fun server =>
        { server, pool, accepted := s.accepted ++ [ioLoop] }
    | .error fault => .error (.fault fault)
  | .other (.onConnection _ _) => .error .disabled
  | .other action => (s.server.step action).map fun server => { s with server }

/-- `setThreadNum` and `start` have been called. -/
def started (n : ℕ) (name : String) (memory : ℕ → Option UInt8) : PooledServer n where
  server := Server.started name .base memory
  pool := (({ baseLoop := .base } : EventLoopThreadPool (LoopRef n)).setThreadNum n).start
    (LoopRef.ofThread n)

/-- The loop of the connection number `k`. -/
def loopOf (n k : ℕ) : LoopRef n := EventLoopThreadPool.turn .base n (LoopRef.ofThread n) k

/-- Every connection that exists is served in the loop of its number. -/
structure Sound (s : PooledServer n) : Prop where
  server : s.server.Sound
  pool_eq : s.pool = EventLoopThreadPool.afterCalls .base n (LoopRef.ofThread n) s.server.nextId
  accepted_eq : s.accepted = (List.range s.server.nextId).map (loopOf n)
  ioLoop_eq : ∀ conn, s.server.Owned conn → conn.ioLoop = loopOf n conn.id

end PooledServer

namespace Server

variable {ι : Type*} [DecidableEq ι] [Fintype ι] {s s' : Server ι} {c d : Connection ι} {l : ι}
  {f : LoopFunctor ι}

/-- No connection has been created. -/
def CreatesNone (s s' : Server ι) : Prop :=
  s'.nextId = s.nextId ∧ ∀ conn, s'.Owned conn → s.Owned conn

/-- Two steps that create no connection create none. -/
theorem CreatesNone.trans {t : Server ι} (h : s.CreatesNone s') (h' : s'.CreatesNone t) :
    s.CreatesNone t :=
  ⟨h'.1.trans h.1, fun conn hconn => h.2 conn (h'.2 conn hconn)⟩

/-- What only moves owners about creates no connection. -/
theorem Frame.createsNone (h : s.Frame s') : s.CreatesNone s' := ⟨h.nextId_eq, h.owned⟩

/-- Queueing a functor creates no connection. -/
theorem createsNone_queueInLoop (hf : ∀ c, f.owner = some c → s.Owned c) :
    s.CreatesNone (s.queueInLoop l f) :=
  ⟨rfl, fun _ hd => owned_of_queueInLoop hf hd⟩

/-- `removeConnection` returns. -/
theorem createsNone_removed (s : Server ι) : s.CreatesNone { s with removing := none } := by
  refine ⟨rfl, fun d hd => ?_⟩
  rcases owned_iff.mp hd with hmap | ⟨n, hn⟩ | huser | ⟨l, f, hf, hown⟩
  · exact owned_of_inMap hmap
  · cases hn
  · exact owned_of_userRef huser
  · exact owned_of_held hf hown

/-- The connections behind `OnConnection`. -/
theorem owned_of_onConnection {sockfd : ℕ} {ioLoop : ι}
    (hd : (s.onConnection sockfd ioLoop).Owned d) :
    s.Owned d ∨ d = ⟨s.nextId, sockfd, ioLoop⟩ := by
  apply owned_of_accepted
  unfold onConnection at hd
  dsimp only at hd
  split at hd
  · exact owned_of_connectEstablished hd
  · apply owned_of_queueInLoop ?_ hd
    intro c hc
    obtain rfl := Option.some.inj hc
    exact owned_of_inMap ⟨s.nameOf sockfd, lookup_insert_iff.mpr (.inl ⟨rfl, rfl⟩)⟩

omit [Fintype ι] in
/-- Each accepted connection takes a number. -/
theorem nextId_onConnection (s : Server ι) (sockfd : ℕ) (ioLoop : ι) :
    (s.onConnection sockfd ioLoop).nextId = s.nextId + 1 := by
  unfold onConnection
  dsimp only
  split <;> rfl

/-- Closing a connection creates none. -/
theorem Sound.createsNone_handleClose (h : s.Sound) (hc : s.Registered c) :
    s.CreatesNone (s.handleClose c) := by
  have howned := (h.kept hc).owned
  unfold Server.handleClose closeConnection
  split
  · exact ⟨rfl, fun _ hd => owned_of_removeConnection (s := s.setData c _) howned hd⟩
  · apply createsNone_queueInLoop (s := s.setData c _)
    intro d hd
    obtain rfl := Option.some.inj hd
    exact howned

/-- A functor of a batch is called. -/
theorem createsNone_call {called rest : List (LoopFunctor ι)}
    (hphase : (s.loops l).phase = .functors called (f :: rest))
    (hok : (s.popped l called f rest).call f = .ok s') : s.CreatesNone s' := by
  have hpopped : s.CreatesNone (s.popped l called f rest) := ⟨rfl, fun _ => owned_of_popped hphase⟩
  apply hpopped.trans
  cases f with
  | connectEstablished c =>
    obtain rfl := Except.ok.inj hok
    exact ⟨rfl, fun _ hd => owned_of_connectEstablished hd⟩
  | removeConnection c =>
    obtain rfl := Except.ok.inj hok
    exact ⟨rfl, fun _ hd => owned_of_removeConnection (owned_popped_self rfl) hd⟩
  | removeConnectionInPoller c =>
    obtain ⟨-, rfl⟩ := ite_eq_ok.mp hok
    exact ⟨rfl, fun _ hd => owned_of_unregistered hd⟩
  | sendInLoop c message datalen sent => exact (frame_sendInLoop hok).createsNone
  | shutdownInLoop c => exact (frame_shutdownInLoop hok).createsNone

/-- Only `OnConnection` creates a connection. -/
theorem Sound.createsNone_of_step (h : s.Sound) {action : ServerAction ι}
    (hnot : ∀ sockfd ioLoop, action ≠ .onConnection sockfd ioLoop)
    (hok : s.step action = .ok s') : s.CreatesNone s' := by
  rcases step_cases hok with hframe | ⟨sockfd, ioLoop, haction, -⟩ | ⟨c, hc, -, rfl⟩ |
    ⟨c, n, hremoving, rfl⟩ | ⟨l, called, f, rest, hphase, -, hcall⟩
  · exact hframe.createsNone
  · exact absurd haction (hnot sockfd ioLoop)
  · exact h.createsNone_handleClose hc
  · have hqueued : s.CreatesNone (s.queueInLoop c.ioLoop (.removeConnectionInPoller c)) := by
      apply createsNone_queueInLoop
      intro d hd
      obtain rfl := Option.some.inj hd
      exact owned_of_removing ⟨n, hremoving⟩
    exact hqueued.trans (createsNone_removed _)
  · exact createsNone_call hphase hcall

/-- The step that accepts a connection is `onConnection`. -/
theorem eq_onConnection_of_step {sockfd : ℕ} {ioLoop : ι}
    (hok : s.step (.onConnection sockfd ioLoop) = .ok s') : s' = s.onConnection sockfd ioLoop := by
  rw [step] at hok
  split at hok
  · exact (ite_eq_ok.mp hok).2.symm
  · cases hok

end Server

namespace PooledServer

variable {n : ℕ} {s s' : PooledServer n}

/-- A server that has been started is sound. -/
theorem sound_started (n : ℕ) (name : String) (memory : ℕ → Option UInt8) :
    (started n name memory).Sound where
  server := Server.sound_started name LoopRef.base memory
  pool_eq := EventLoopThreadPool.afterCalls_zero.symm
  accepted_eq := rfl
  ioLoop_eq conn hconn := absurd hconn (Server.not_owned_started name LoopRef.base memory conn)

/-- A step of the server that creates no connection. -/
theorem Sound.other (h : s.Sound) {server : Server (LoopRef n)} (hserver : server.Sound)
    (hnone : s.server.CreatesNone server) : Sound { s with server } where
  server := hserver
  pool_eq := by rw [hnone.1]; exact h.pool_eq
  accepted_eq := by rw [hnone.1]; exact h.accepted_eq
  ioLoop_eq conn hconn := h.ioLoop_eq conn (hnone.2 conn hconn)

/-- `OnConnection` takes the next loop. -/
theorem Sound.onConnection (h : s.Sound) {sockfd : ℕ}
    (hok : s.step (.onConnection sockfd) = .ok s') : s'.Sound := by
  rw [PooledServer.step, h.pool_eq, EventLoopThreadPool.getNextLoop_afterCalls] at hok
  obtain ⟨server, hstep, rfl⟩ := map_eq_ok.mp hok
  have hserver := h.server.step hstep
  obtain rfl := Server.eq_onConnection_of_step hstep
  have hnext := Server.nextId_onConnection s.server sockfd (loopOf n s.server.nextId)
  constructor
  · exact hserver
  · exact congrArg (EventLoopThreadPool.afterCalls .base n (LoopRef.ofThread n)) hnext.symm
  · change s.accepted ++ [loopOf n s.server.nextId] =
      (List.range (s.server.onConnection sockfd (loopOf n s.server.nextId)).nextId).map (loopOf n)
    rw [hnext, List.range_succ, List.map_append, List.map_singleton, h.accepted_eq]
  · intro conn hconn
    rcases Server.owned_of_onConnection hconn with hold | rfl
    · exact h.ioLoop_eq conn hold
    · rfl

/-- Every step of the interleaving keeps the invariant. -/
theorem Sound.step (h : s.Sound) {action : PooledAction n} (hok : s.step action = .ok s') :
    s'.Sound := by
  cases action with
  | onConnection sockfd => exact h.onConnection hok
  | other action =>
    cases action with
    | onConnection sockfd ioLoop => cases hok
    | _ =>
      simp only [PooledServer.step, map_eq_ok] at hok
      obtain ⟨server, hstep, rfl⟩ := hok
      exact h.other (h.server.step hstep) (h.server.createsNone_of_step (by simp) hstep)

/-- What is known of the connections of a server with `n` threads. -/
structure Dispatched (s : PooledServer n) : Prop where
  /-- The connection number `k` is served by the thread `k % n`, or in the base loop. -/
  ioLoop_eq : ∀ conn, s.server.Owned conn →
    conn.ioLoop = if n = 0 then .base else LoopRef.ofThread n (conn.id % n)
  /-- Of the connections accepted so far each thread has got its share. -/
  count_eq : ∀ i : Fin n, s.accepted.count (.thread i) =
    s.accepted.length / n + if i < s.accepted.length % n then 1 else 0
  channelsOwned : s.server.ChannelsOwned

/-- Sound servers have dealt their connections out in turn. -/
theorem Sound.dispatched (h : s.Sound) : s.Dispatched where
  ioLoop_eq := h.ioLoop_eq
  count_eq i := by
    have hthread : LoopRef.ofThread n i = .thread i := by simp [LoopRef.ofThread]
    have hinj : ∀ j < n, LoopRef.ofThread n j = LoopRef.ofThread n i → j = i := by
      intro j hj heq
      rw [hthread, LoopRef.ofThread, dif_pos hj] at heq
      exact congrArg Fin.val (LoopRef.thread.inj heq)
    rw [h.accepted_eq, List.length_map, List.length_range, ← hthread]
    exact EventLoopThreadPool.count_turn i.isLt hinj s.server.nextId
  channelsOwned := h.server.channelsOwned

/-- In every interleaving of accepting, serving and removing connections the connections are
dealt out in turn. -/
theorem connections_dispatched (n : ℕ) (name : String) (memory : ℕ → Option UInt8)
    (actions : List (PooledAction n)) :
    Always PooledServer.step Dispatched (started n name memory) actions := by
  apply along_of_guarded Sound ?_ ?_ (sound_started n name memory) guarded_true
  · intro s action h _ s' hok
    exact (h.step hok).dispatched
  · intro s action s' h _ hok
    exact h.step hok

end PooledServer

end Reactor
