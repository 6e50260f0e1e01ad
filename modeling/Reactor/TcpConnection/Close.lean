import Reactor.Lib.Run
import Reactor.TcpConnection.Basic

/-!
# Closing a connection

`handleClose` drops all interest of the channel, so that no further event is dispatched
to the connection. Within one event, however, `handlerEvent` goes on: after `POLLERR` has
closed the connection `POLLIN` still runs `handleRead`, which reads once more or closes
again. Without such an event a connection is closed at most once, and last.
-/

namespace Reactor

open Transition

namespace TcpConnection

/-- A step of the loop of a connection, or of its server's loop. -/
inductive LoopOp where
  /-- An event of the connection's channel. -/
  | event (e : EventInput)
  /-- User code run by a functor or a timer, or by `connectionCallback_`. -/
  | user (code : UserCode)
  /-- The server's loop runs a queued functor. -/
  | serverLoop

/-- A poller reports no event of a channel without interest. -/
def loopStep (conn : TcpConnection) : LoopOp → Except ConnectionFault TcpConnection
  | .event e => if conn.channel.isNoneEvent then .ok conn else conn.handlerEvent e
  | .user code => runUserCode code conn
  | .serverLoop => do return { conn with server := ← conn.server.runPending }

/-- The connection as `OnConnection` and `connectEstablished` leave it to
`connectionCallback_`, among other connections of the server. -/
def accepted (name : String) (fd : ℤ) (writeCompleteCallback inLoop : Bool)
    (others : Finset String) : TcpConnection :=
  invoke { established name fd writeCompleteCallback with
    server := TcpServer.onConnection { connections := others, inLoop } name } .connection

/-- Nothing but error callbacks follows the first `closeCallback_`. -/
def ClosesOnceLast (conn : TcpConnection) : Prop :=
  ∀ before after, conn.invoked = before ++ .close :: after →
    .close ∉ after ∧ .message ∉ after ∧ .writeComplete ∉ after

/-- The step ends in a state in which the connection was closed at most once, and last,
or in a fault of a buffer; the assertion of `removeConnection` does not fail. -/
def CloseSafe (_ : TcpConnection) (_ : LoopOp) (r : Except ConnectionFault TcpConnection) : Prop :=
  Ensures r ClosesOnceLast (· ≠ .connectionMissing)

/-- An event is not both an error and readable, and user code runs before the close. -/
def CloseGuard (conn : TcpConnection) : LoopOp → Prop
  | .event e => ¬ (e.revents.has pollErr = true ∧ e.revents.has pollIn = true)
  | .user _ => conn.state ≠ .disConnected
  | .serverLoop => True

/-- The connection has not been closed. -/
structure Open (conn : TcpConnection) : Prop where
  state_ne : conn.state ≠ .disConnected
  not_closed : .close ∉ conn.invoked
  registered : conn.connName ∈ conn.server.connections
  pending_eq : conn.server.pendingRemovals = []

/-- The connection has been closed once. -/
structure Closed (conn : TcpConnection) : Prop where
  state_eq : conn.state = .disConnected
  noInterest : conn.channel.isNoneEvent = true
  invoked_eq : ∃ before, conn.invoked = before ++ [.close] ∧ .close ∉ before
  removing : conn.server.Removing conn.connName

/-- An open connection has not been closed. -/
theorem Open.closesOnceLast {conn : TcpConnection} (h : conn.Open) : conn.ClosesOnceLast :=
  fun _ _ heq => absurd (heq ▸ by simp) h.not_closed

/-- A closed connection has been closed once, and its last callback says so. -/
theorem Closed.closesOnceLast {conn : TcpConnection} (h : conn.Closed) : conn.ClosesOnceLast := by
  intro before after heq
  obtain ⟨before', heq', hnot⟩ := h.invoked_eq
  rw [heq'] at heq
  rcases List.append_eq_append_iff.mp heq with ⟨m, rfl, hm⟩ | ⟨m, rfl, hm⟩
  · cases m with
    | nil =>
      obtain ⟨-, rfl⟩ := List.cons.inj hm
      simp
    | cons x m => simp at hm
  · cases m with
    | nil =>
      obtain ⟨-, rfl⟩ := List.cons.inj hm
      simp
    | cons x m =>
      obtain ⟨rfl, -⟩ := List.cons.inj hm
      simp at hnot

/-- Changes that concern neither the server nor the history of callbacks. -/
theorem Open.congr {conn conn' : TcpConnection} (h : conn.Open) (hstate : conn'.state = conn.state)
    (hinvoked : conn'.invoked = conn.invoked) (hname : conn'.connName = conn.connName)
    (hserver : conn'.server = conn.server) : conn'.Open where
  state_ne := hstate ▸ h.state_ne
  not_closed := hinvoked ▸ h.not_closed
  registered := by
    rw [hname, hserver]
    exact h.registered
  pending_eq := hserver ▸ h.pending_eq

/-- Callbacks other than the one for closing leave the connection open. -/
theorem Open.invoke {conn : TcpConnection} (h : conn.Open) {callback : Callback}
    (hne : callback ≠ .close) : (conn.invoke callback).Open where
  state_ne := h.state_ne
  not_closed := by
    simpa [TcpConnection.invoke, h.not_closed] using hne.symm
  registered := h.registered
  pending_eq := h.pending_eq

/-- An operation of a buffer fails with a fault of a buffer only. -/
theorem ensures_liftBuffer {α : Type} (x : Except Fault α) :
    Ensures (liftBuffer x) (fun _ => True) (· ≠ .connectionMissing) := by
  cases x with
  | ok a => trivial
  | error e => exact ConnectionFault.noConfusion

section

variable {conn : TcpConnection}

/-! ## An open connection -/

/-- Storing output leaves the connection open. -/
theorem Open.addOutput (h : conn.Open) (message : List UInt8) :
    Ensures (conn.addOutput message) Open (· ≠ .connectionMissing) :=
  (ensures_liftBuffer _).bind fun _ _ => h.congr rfl rfl rfl rfl

/-- Writing leaves the connection open. -/
theorem Open.writeIovec (h : conn.Open) (howmuch : ℕ) (answer : Option ℕ) :
    Ensures (conn.writeIovec howmuch answer) (fun r => r.1.Open) (· ≠ .connectionMissing) :=
  (ensures_liftBuffer _).bind fun _ _ => h.congr rfl rfl rfl rfl

/-- Draining leaves the connection open. -/
theorem Open.drainWritten (h : conn.Open) (result : Option ℕ) :
    Ensures (conn.drainWritten result) Open (· ≠ .connectionMissing) := by
  rcases result with _ | _ | n
  · exact h
  · exact h
  · exact (ensures_liftBuffer _).bind fun _ _ => h.congr rfl rfl rfl rfl

section

variable {complete : TcpConnection → Except ConnectionFault TcpConnection}
  (hcomplete : ∀ {conn : TcpConnection}, conn.Open →
    Ensures (complete conn) Open (· ≠ .connectionMissing))

include hcomplete

/-- The callback for written output leaves the connection open. -/
theorem Open.runWriteComplete (h : conn.Open) :
    Ensures (conn.runWriteComplete complete) Open (· ≠ .connectionMissing) := by
  rw [TcpConnection.runWriteComplete]
  split
  · exact hcomplete (h.invoke (by decide))
  · exact h

/-- Sending leaves the connection open. -/
theorem Open.sendInLoop (h : conn.Open) (message : List UInt8) (answer : Option ℕ) :
    Ensures (conn.sendInLoop message answer complete) Open (· ≠ .connectionMissing) := by
  rw [TcpConnection.sendInLoop]
  split
  · refine (h.addOutput message).bind fun conn₀ h₀ => (h₀.writeIovec _ _).bind fun r h₁ => ?_
    refine Ensures.bind ?_ fun conn₂ (h₂ : conn₂.Open) => h₂.drainWritten r.2
    rw [afterSend]
    split
    · exact h₁.congr rfl rfl rfl rfl
    · exact h₁.runWriteComplete hcomplete
  · exact h.addOutput message

end

/-- User code does not close the connection. -/
theorem Open.runUserCode (h : conn.Open) (code : UserCode) :
    Ensures (TcpConnection.runUserCode code conn) Open (· ≠ .connectionMissing) := by
  induction code generalizing conn with
  | done => exact h
  | send message written complete next ihComplete ihNext =>
    exact (h.sendInLoop ihComplete _ _).bind fun _ h₁ => ihNext h₁
  | shutdown next ih =>
    refine ih ?_
    rw [shutdownInLoop]
    split
    · exact ⟨by simp, h.not_closed, h.registered, h.pending_eq⟩
    · exact h
  | drain n next ih => exact (ensures_liftBuffer _).bind fun b _ => ih (h.congr rfl rfl rfl rfl)
  | read n next ih => exact (ensures_liftBuffer _).bind fun r _ => ih (h.congr rfl rfl rfl rfl)

/-- A writable event leaves the connection open. -/
theorem Open.handleWrite (h : conn.Open) (answer : Option ℕ) (complete : UserCode) :
    Ensures (conn.handleWrite answer complete) Open (· ≠ .connectionMissing) := by
  rw [TcpConnection.handleWrite]
  split
  · refine (h.writeIovec _ _).bind fun r h₁ => ?_
    refine Ensures.bind ?_ fun conn₂ (h₂ : conn₂.Open) => h₂.drainWritten r.2
    rw [afterWrite]
    split
    · refine Open.runWriteComplete (fun h => h.runUserCode complete) ?_
      exact h₁.congr rfl rfl rfl rfl
    · exact h₁
  · exact h

/-- `handleClose` closes an open connection, which its server has registered. -/
theorem Open.handleClose (h : conn.Open) :
    Ensures conn.handleClose Closed (· ≠ .connectionMissing) :=
  (TcpServer.closeConnection_ok h.registered h.pending_eq).bind fun _ hremoving =>
    ⟨rfl, rfl, ⟨_, rfl, h.not_closed⟩, hremoving⟩

/-- A readable event leaves the connection open or closes it. -/
theorem Open.handleRead (h : conn.Open) (pending : ℕ) (socket : Option (List UInt8))
    (onMessage : UserCode) :
    Ensures (conn.handleRead pending socket onMessage) (fun conn => conn.Open ∨ conn.Closed)
      (· ≠ .connectionMissing) := by
  refine (ensures_liftBuffer _).bind fun r _ => ?_
  have h₁ : Open { conn with inputBuffer := r.1 } := h.congr rfl rfl rfl rfl
  dsimp only
  split
  · exact ((h₁.invoke (by decide)).runUserCode onMessage).imp fun _ => .inl
  · exact h₁.handleClose.imp fun _ => .inr

/-! ## A closed connection -/

/-- Without interest the connection does not write. -/
theorem handleWrite_of_isNoneEvent (h : conn.channel.isNoneEvent = true) (answer : Option ℕ)
    (complete : UserCode) : conn.handleWrite answer complete = .ok conn := by
  have hevents : conn.channel.events = kNone := by simpa [Channel.isNoneEvent] using h
  have hwriting : conn.channel.isWriting = false := by
    simp [Channel.isWriting, EventMask.has, hevents, kNone]
  rw [TcpConnection.handleWrite, if_neg (by simp [hwriting])]
  rfl

/-- An event that is not both an error and readable. -/
theorem Open.handlerEvent (h : conn.Open) (e : EventInput)
    (hmask : ¬ (e.revents.has pollErr = true ∧ e.revents.has pollIn = true)) :
    Ensures (conn.handlerEvent e) (fun conn => conn.Open ∨ conn.Closed)
      (· ≠ .connectionMissing) := by
  have h₀ : Open { conn with channel := { conn.channel with revents := e.revents } } :=
    h.congr rfl rfl rfl rfl
  have h₁ (b : Bool) : Open (if b then handleError { conn with
      channel := { conn.channel with revents := e.revents } } else { conn with
      channel := { conn.channel with revents := e.revents } }) := by
    cases b with
    | true => exact h₀.invoke (by decide)
    | false => exact h₀
  refine Ensures.bind (P := fun conn => if e.revents.has pollErr then conn.Closed else conn.Open)
    ?_ fun conn₂ h₂ => Ensures.bind (P := fun conn => conn.Open ∨ conn.Closed) ?_
      fun conn₃ h₃ => ?_
  · split
    · exact (h₁ _).handleClose
    · exact h₁ _
  · by_cases herr : e.revents.has pollErr = true
    · rw [if_pos herr] at h₂
      rw [if_neg fun hin => hmask ⟨herr, hin⟩]
      exact .inr h₂
    · rw [if_neg herr] at h₂
      split
      · exact h₂.handleRead _ _ _
      · exact .inl h₂
  · split
    · rcases h₃ with ho | hc
      · exact (ho.handleWrite _ _).imp fun _ => .inl
      · rw [handleWrite_of_isNoneEvent hc.noInterest]
        exact .inr hc
    · exact h₃

/-! ## Runs -/

/-- An accepted connection is open. -/
theorem open_accepted (name : String) (fd : ℤ) (writeCompleteCallback inLoop : Bool)
    (others : Finset String) : (accepted name fd writeCompleteCallback inLoop others).Open where
  state_ne := by simp [accepted, TcpConnection.invoke, established]
  not_closed := by simp [accepted, TcpConnection.invoke, established]
  registered := Finset.mem_insert_self ..
  pending_eq := rfl

/-- A guarded step keeps a connection open or closed. -/
theorem loopStep_keeps (h : conn.Open ∨ conn.Closed) (op : LoopOp) (hguard : conn.CloseGuard op) :
    Ensures (conn.loopStep op) (fun conn => conn.Open ∨ conn.Closed) (· ≠ .connectionMissing) := by
  cases op with
  | event e =>
    rw [loopStep]
    split
    · exact h
    · next hinterest =>
      exact (h.resolve_right fun hc => hinterest hc.noInterest).handlerEvent e hguard
  | user code =>
    exact ((h.resolve_right fun hc => hguard hc.state_eq).runUserCode code).imp fun _ => .inl
  | serverLoop =>
    rcases h with ho | hc
    · rw [loopStep, TcpServer.runPending_of_nil ho.pending_eq]
      exact .inl ho
    · exact (TcpServer.runPending_ok hc.removing).bind fun s hs =>
        .inr ⟨hc.state_eq, hc.noInterest, hc.invoked_eq, hs⟩

/-- In a run without events that are both an error and readable, and without user code
after the close, the connection is closed at most once, no callback of a message or a
completed write follows the close, and the assertion of `removeConnection` holds. -/
theorem closeSafe_of_guard (name : String) (fd : ℤ) (writeCompleteCallback inLoop : Bool)
    (others : Finset String) {ops : List LoopOp}
    (h : Guarded loopStep CloseGuard (accepted name fd writeCompleteCallback inLoop others) ops) :
    Along loopStep CloseSafe (accepted name fd writeCompleteCallback inLoop others) ops := by
  refine along_of_guarded (fun conn => conn.Open ∨ conn.Closed) ?_ ?_ (.inl (open_accepted ..)) h
  · intro conn op hconn hguard
    exact (loopStep_keeps hconn op hguard).imp fun _ h =>
      h.elim Open.closesOnceLast Closed.closesOnceLast
  · intro conn op conn' hconn hguard hok
    have hkeep := loopStep_keeps hconn op hguard
    rwa [hok] at hkeep

end

/-- A message, the end of the stream, the removal in the server's loop, and an error that
is not dispatched any more. -/
theorem closeSafe_four_steps : Along loopStep CloseSafe (accepted "" 3 true false ∅)
    [.event ⟨pollIn, 3, some [1, 2, 3], .send ⟨[4], by decide⟩ (some 0) .done .done, none, .done⟩,
      .event ⟨pollIn ||| pollOut, 0, some [], .done, some 1, .done⟩, .serverLoop,
      .event ⟨pollErr, 0, none, .done, none, .done⟩] := by
  have hmessage : ¬ (pollIn.has pollErr = true ∧ pollIn.has pollIn = true) := by decide
  have hend : ¬ (EventMask.has (pollIn ||| pollOut) pollErr = true ∧
      EventMask.has (pollIn ||| pollOut) pollIn = true) := by decide
  have herror : ¬ (pollErr.has pollErr = true ∧ pollErr.has pollIn = true) := by decide
  exact closeSafe_of_guard "" 3 true false ∅ ⟨hmessage, fun _ _ => ⟨hend, fun _ _ => ⟨trivial,
    fun _ _ => ⟨herror, fun _ _ => trivial⟩⟩⟩⟩

/-- An error on a connection whose peer has closed: the second `handleClose` finds the
connection removed. -/
theorem not_closeSafe : ¬ Along loopStep CloseSafe (accepted "" 3 true true ∅)
    [.event ⟨pollErr ||| pollIn, 0, some [], .done, none, .done⟩] := by
  rintro ⟨h, -⟩
  have hcode : (loopStep (accepted "" 3 true true ∅)
      (.event ⟨pollErr ||| pollIn, 0, some [], .done, none, .done⟩)).map (fun _ => ()) =
        .error .connectionMissing := by
    decide +kernel
  cases hstep : loopStep (accepted "" 3 true true ∅)
      (.event ⟨pollErr ||| pollIn, 0, some [], .done, none, .done⟩) with
  | ok conn => simp [hstep, Except.map] at hcode
  | error e =>
    rw [hstep] at h hcode
    exact h (Except.error.inj hcode)

end TcpConnection

end Reactor
