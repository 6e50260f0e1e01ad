import Reactor.Lib.Run
import Reactor.Machine
import Mathlib.Data.Finset.Basic

/-!
# The server's table of connections

The part of `TcpServer` that a connection reaches through its `closeCallback_`. The
server's loop may run in another thread than the connection's; `removeConnection` is
then queued there.
-/

namespace Reactor

open Transition

/-- What ends a run of a connection. -/
inductive ConnectionFault where
  /-- A fault of one of its buffers. -/
  | buffer (fault : Fault)
  /-- The `assert` in `TcpServer::removeConnection` fails. -/
  | connectionMissing
  deriving DecidableEq, Repr

/-- An operation of a buffer of the connection. -/
def liftBuffer {α : Type} (x : Except Fault α) : Except ConnectionFault α := x.mapError .buffer

/-- The buffer succeeds exactly if the connection does. -/
theorem liftBuffer_eq_ok {α : Type} {x : Except Fault α} {a : α} :
    liftBuffer x = .ok a ↔ x = .ok a := by
  cases x <;> simp [liftBuffer, Except.mapError]

/-- `TcpServer`. -/
structure TcpServer where
  /-- The names in `connections_`. -/
  connections : Finset String := ∅
  /-- Whether the connection's loop is also the server's. -/
  inLoop : Bool := true
  /-- The calls of `removeConnection` queued in the server's loop. -/
  pendingRemovals : List String := []
  /-- The calls of `removeConnectionInPoller` queued in the connection's loop. -/
  pollerRemovals : List String := []

namespace TcpServer

/-- `TcpServer::OnConnection`: the entry `connections_[name]`. -/
def onConnection (s : TcpServer) (name : String) : TcpServer :=
  { s with connections := insert name s.connections }

/-- `TcpServer::removeConnection`. -/
def removeConnection (s : TcpServer) (name : String) : Except ConnectionFault TcpServer :=
  if name ∈ s.connections then
    .ok { s with
      connections := s.connections.erase name
      pollerRemovals := s.pollerRemovals ++ [name] }
  else .error .connectionMissing

/-- `TcpServer::closeConnection`. -/
def closeConnection (s : TcpServer) (name : String) : Except ConnectionFault TcpServer :=
  if s.inLoop then s.removeConnection name
  else .ok { s with pendingRemovals := s.pendingRemovals ++ [name] }

/-- The server's loop runs the first queued functor. -/
def runPending (s : TcpServer) : Except ConnectionFault TcpServer :=
  match s.pendingRemovals with
  | [] => .ok s
  | name :: rest => { s with pendingRemovals := rest }.removeConnection name

/-- The removal of a connection is done, or queued while the connection is registered. -/
def Removing (name : String) (s : TcpServer) : Prop :=
  s.pendingRemovals = [] ∨ s.pendingRemovals = [name] ∧ name ∈ s.connections

/-- A registered connection that has not been closed is found. -/
theorem closeConnection_ok {s : TcpServer} {name : String} (hname : name ∈ s.connections)
    (hpending : s.pendingRemovals = []) :
    Ensures (s.closeConnection name) (Removing name) (· ≠ .connectionMissing) := by
  rw [closeConnection]
  split
  · rw [removeConnection, if_pos hname]
    exact .inl hpending
  · exact .inr ⟨by rw [hpending, List.nil_append], hname⟩

/-- Without pending removals nothing is done. -/
theorem runPending_of_nil {s : TcpServer} (h : s.pendingRemovals = []) : s.runPending = .ok s := by
  simp only [runPending, h]

/-- The connection whose removal is queued is found. -/
theorem runPending_ok {s : TcpServer} {name : String} (h : s.Removing name) :
    Ensures s.runPending (Removing name) (· ≠ .connectionMissing) := by
  rcases h with hpending | ⟨hpending, hname⟩
  · rw [runPending_of_nil hpending]
    exact .inl hpending
  · simp only [runPending, hpending, removeConnection, if_pos hname]
    exact .inl rfl

end TcpServer

end Reactor
