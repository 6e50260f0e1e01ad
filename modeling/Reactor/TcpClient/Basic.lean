import Reactor.Connector.Calls
import Reactor.PollCalls

/-!
# The client

`TcpClient` with its connector and the poller of its loop, in the loop thread. A connection
is named by the number of its socket among those that the connector has created. It lives
as long as a `shared_ptr` refers to it, and closes its descriptor when it is destroyed, but
it does not tell the poller. The kernel gives a new socket any descriptor that is not open.
-/

namespace Reactor

open Transition

/-- The same call for another name of the channel. -/
def PollerOp.map {ι κ : Type*} (f : ι → κ) : PollerOp ι → PollerOp κ
  | .update c mask => .update (f c) mask
  | .remove c => .remove (f c)

/-- A channel of the client's loop. -/
inductive ClientChannel where
  /-- The channels of the loop itself. -/
  | wakeup
  | timer
  /-- The connect channel of a socket. -/
  | connect (socket : ℕ)
  /-- The channel of the connection of a socket. -/
  | connection (socket : ℕ)
  deriving DecidableEq, Repr

/-- `TcpClient`, with the functors and the poller of its loop, and its user. -/
structure TcpClient where
  connector : Connector := {}
  retry : Bool := false
  /-- The connection that `connPtr_` refers to. -/
  connPtr : Option ℕ := none
  /-- The connections that user code keeps a `shared_ptr` of. -/
  userRefs : Finset ℕ := ∅
  /-- The connections that queued calls of `removeConnectionInPoller` refer to. -/
  removals : List ℕ := []
  poll : Poll ClientChannel
  /-- The calls of the poller for channels of connections. -/
  pollerCalls : List (PollerOp ℕ) := []
  wakeupFd : ℕ
  timerFd : ℕ

/-- A step of the client's loop, or of its user. -/
inductive ClientAction where
  /-- A call of `start` or `stop`, or a step of the connector in its loop. -/
  | connector (action : ConnectorAction)
  /-- A handler of a connection calls `handleClose`; with the answer to a `connect`. -/
  | handleClose (socket : ℕ) (answer : ConnectAnswer)
  /-- `send` or a handler of a connection sets another mask. -/
  | setEvents (socket : ℕ) (mask : EventMask)
  /-- The loop runs a queued `removeConnectionInPoller`. -/
  | removal
  /-- User code copies a `shared_ptr` that it is given. -/
  | retain (socket : ℕ)
  /-- User code drops its `shared_ptr`. -/
  | release (socket : ℕ)
  deriving DecidableEq, Repr

/-- An operation of the poller. -/
def liftPoll {α : Type} : Except Fault α → Except ConnectorFault α
  | .ok a => .ok a
  | .error fault => .error (.fault fault)

namespace TcpClient

/-- A `shared_ptr` refers to the connection. -/
def Alive (s : TcpClient) (n : ℕ) : Prop := s.connPtr = some n ∨ n ∈ s.userRefs ∨ n ∈ s.removals

instance (s : TcpClient) (n : ℕ) : Decidable (s.Alive n) := inferInstanceAs (Decidable (_ ∨ _))

/-- The channel has not been destroyed. -/
def Exists (s : TcpClient) : ClientChannel → Prop
  | .wakeup | .timer => True
  | .connect n => ∃ ch ∈ s.connector.connectChannel, ch.socket = n
  | .connection n => s.Alive n

/-- The channels that are registered in the poller. -/
def registered (s : TcpClient) : Finset ClientChannel :=
  {.wakeup, .timer} ∪ s.connector.registered.image .connect ∪
    (Reactor.registered s.pollerCalls).image .connection

/-- The descriptor is in use: by the loop, by the connector, or by a connection. -/
def FdOpen (s : TcpClient) (fd : ℕ) : Prop :=
  fd = s.wakeupFd ∨ fd = s.timerFd ∨ ∃ n < s.connector.fds.length,
    s.connector.fds[n]? = some fd ∧ n ∉ s.connector.closed ∧ (n ∈ s.connector.handed → s.Alive n)

instance (s : TcpClient) (fd : ℕ) : Decidable (s.FdOpen fd) := inferInstanceAs (Decidable (_ ∨ _))

/-- The poller reports an event of the channel's descriptor to the channel. -/
def Reported (s : TcpClient) (c : ClientChannel) : Prop :=
  s.poll.channelMap.lookup (s.poll.channels c).fd = some (some c)

instance (s : TcpClient) (c : ClientChannel) : Decidable (s.Reported c) :=
  inferInstanceAs (Decidable (_ = _))

/-- The channels to come of a new socket. -/
def addChannels (channels : ClientChannel → Channel) (n : ℕ) : List ℕ → ClientChannel → Channel
  | [] => channels
  | fd :: _ =>
    Function.update (Function.update channels (.connect n) { fd }) (.connection n) { fd }

/-- A call of the poller for the channel of a connection. -/
def callPoller (s : TcpClient) (op : PollerOp ℕ) : Except ConnectorFault TcpClient := do
  let poll ← liftPoll (s.poll.step (op.map .connection))
  return { s with poll, pollerCalls := s.pollerCalls ++ [op] }

/-- `TcpConnection::connectEstablished`. -/
def connectEstablished (s : TcpClient) (n : ℕ) : Except ConnectorFault TcpClient :=
  s.callPoller (.update n (s.poll.channels (.connection n)).enableReading.events)

/-- `TcpClient::OnConnection`; the connection that `connPtr_` has referred to is destroyed
unless another `shared_ptr` refers to it. -/
def onConnection (s : TcpClient) (sockfd : ℕ) : Except ConnectorFault TcpClient :=
  { s with connPtr := some sockfd }.connectEstablished sockfd

/-- The connector has moved on: what it has created is new to the kernel, its calls reach
the poller, and `newConnectionCallback_` is `OnConnection`. -/
def moveConnector (s : TcpClient) (connector : Connector) : Except ConnectorFault TcpClient :=
  let created := connector.fds.drop s.connector.fds.length
  if ∀ fd ∈ created, ¬ s.FdOpen fd then do
    let channels := addChannels s.poll.channels s.connector.fds.length created
    let calls := connector.pollerCalls.drop s.connector.pollerCalls.length
    let poll ← liftPoll (run Poll.step { s.poll with channels } (calls.map (.map .connect)))
    let s' := { s with connector, poll }
    match connector.handed.drop s.connector.handed.length with
    | [] => .ok s'
    | sockfd :: _ => s'.onConnection sockfd
  else .error .disabled

/-- `TcpClient::removeConnection`. -/
def removeConnection (s : TcpClient) (n : ℕ) (answer : ConnectAnswer) :
    Except ConnectorFault TcpClient :=
  if s.retry = false then .ok { s with removals := s.removals ++ [n] }
  else s.moveConnector (s.connector.restart answer)

/-- `TcpConnection::handleClose`. -/
def handleClose (s : TcpClient) (n : ℕ) (answer : ConnectAnswer) :
    Except ConnectorFault TcpClient := do
  let s ← s.callPoller (.update n (s.poll.channels (.connection n)).disableAll.events)
  s.removeConnection n answer

/-- Only `removeConnection` calls `restart`, and events come from the poller. -/
def Delivered (s : TcpClient) : ConnectorAction → Prop
  | .restart _ => False
  | .event n _ => s.Reported (.connect n)
  | .start _ _ | .stop _ | .timer _ _ | .functor _ => True

instance (s : TcpClient) : ∀ action : ConnectorAction, Decidable (s.Delivered action)
  | .restart _ => .isFalse id
  | .event n _ => inferInstanceAs (Decidable (s.Reported (.connect n)))
  | .start _ _ | .stop _ | .timer _ _ | .functor _ => .isTrue trivial

/-- A step of the client's loop. An event may close a connection more than once. -/
def step (s : TcpClient) : ClientAction → Except ConnectorFault TcpClient
  | .connector action =>
    if s.Delivered action then do
      let connector ← s.connector.step action
      s.moveConnector connector
    else .error .disabled
  | .handleClose n answer =>
    if s.Reported (.connection n) then
      if s.Alive n then s.handleClose n answer else .error (.fault .useAfterFree)
    else .error .disabled
  | .setEvents n mask =>
    if n ∈ s.connector.handed ∧ s.Alive n then s.callPoller (.update n mask)
    else .error .disabled
  | .removal =>
    match s.removals with
    | n :: removals => { s with removals }.callPoller (.remove n)
    | [] => .error .disabled
  | .retain n =>
    if s.Alive n then .ok { s with userRefs := insert n s.userRefs } else .error .disabled
  | .release n =>
    if n ∈ s.userRefs then .ok { s with userRefs := s.userRefs.erase n } else .error .disabled

/-- The poller of a new loop, with the channels of the loop. -/
def loopPoll (wakeupFd timerFd : ℕ) : Poll ClientChannel :=
  let channels : ClientChannel → Channel
    | .timer => { fd := timerFd, events := kRead, index := 0 }
    | .wakeup => { fd := wakeupFd, events := kRead, index := 1 }
    | .connect _ | .connection _ => { fd := -1 }
  { pollfds := [{ fd := timerFd, events := kRead }, { fd := wakeupFd, events := kRead }]
    channelMap := Finmap.insert wakeupFd (some .wakeup) (Finmap.insert timerFd (some .timer) ∅)
    channels }

/-- A client whose loop is new. -/
def started (retry : Bool) (wakeupFd timerFd : ℕ) : TcpClient :=
  { retry, poll := loopPoll wakeupFd timerFd, wakeupFd, timerFd }

end TcpClient

end Reactor
