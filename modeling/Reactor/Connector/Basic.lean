import Reactor.Lib.Run
import Reactor.Poller

/-!
# The connector

`Connector` opens a connection with a non-blocking `connect`. While an attempt is in
progress its channel waits for `POLLOUT`; after a failure a timer starts the next attempt.
A socket is named by its number among those that `connect` has created, and a connect
channel by the number of its socket. The answers of the system calls are part of the
actions, and the functors and timers of the loop run in any order with its events.
-/

namespace Reactor

open Transition

/-- `EINTR`. -/
def eintr : ℕ := 4

/-- `EAGAIN`. -/
def eagain : ℕ := 11

/-- `EISCONN`. -/
def eisconn : ℕ := 106

/-- `ECONNREFUSED`. -/
def econnrefused : ℕ := 111

/-- `EINPROGRESS`. -/
def einprogress : ℕ := 115

/-- The cases of the `switch` in `connect` that wait for the connection. -/
def waitErrnos : List ℕ := [0, eintr, eisconn, einprogress]

/-- The cases that try again later. -/
def retryErrnos : List ℕ := [econnrefused, eagain]

/-- `Connector::State`. -/
inductive ConnectorState where
  | disConnected
  | connecting
  | connected
  deriving DecidableEq, Repr

/-- What `createNonBlockingSockfd` and `sockets::connect` return. -/
inductive ConnectAnswer where
  /-- There is no socket, and `connect` of the descriptor -1 fails with `EBADF`. -/
  | noSocket
  /-- `connect` returns 0. -/
  | connected (fd : ℕ)
  | failed (fd errno : ℕ)
  deriving DecidableEq, Repr

/-- A connect channel, which watches the descriptor of its socket. -/
structure ConnectChannel where
  socket : ℕ
  channel : Channel
  deriving DecidableEq, Repr

/-- A functor of the connector in the queue of its loop. -/
inductive ConnectorFunctor where
  | startInLoop
  /-- `stopInLoop`; `starts` records the number of starts before the call of `stop`, and no
  function of the source reads it. -/
  | stopInLoop (starts : ℕ)
  | resetChannel
  deriving DecidableEq, Repr

/-- What the handlers of the connect channel find. -/
structure ConnectEvent where
  revents : EventMask
  /-- The result of `getSocketError`. -/
  socketError : ℕ
  /-- The result of `isSelfConnect`. -/
  selfConnect : Bool
  deriving DecidableEq, Repr

/-- `kInitretryDelay`. -/
def kInitretryDelay : ℕ := 500

/-- `kMaxRetryDelay`. -/
def kMaxRetryDelay : ℕ := 500 * 100

/-- `Connector`, with its timers and functors in the loop. The fields behind them record
the history of the connector. -/
structure Connector where
  connecting_ : Bool := false
  retryDelayms : ℕ := kInitretryDelay
  state : ConnectorState := .disConnected
  /-- Whether `newConnectionCallback_` is set. -/
  newConnectionCallback : Bool := true
  /-- The channel that `connectChannel_` owns; any other has been destroyed. -/
  connectChannel : Option ConnectChannel := none
  /-- The delays of the pending timers of `startInLoop`. -/
  timers : List ℕ := []
  functors : List ConnectorFunctor := []
  /-- The descriptors of the sockets that `connect` has created. -/
  fds : List ℕ := []
  /-- The sockets passed to `sockets::close`. -/
  closed : List ℕ := []
  /-- The sockets passed to `newConnectionCallback_`. -/
  handed : List ℕ := []
  /-- The calls of the poller for connect channels. -/
  pollerCalls : List (PollerOp ℕ) := []
  /-- The number of calls of `start` and `restart`. -/
  starts : ℕ := 0
  /-- `stopInLoop` has run for a `stop` that no `start` or `restart` has followed. -/
  stopped : Bool := false

/-- What ends a run of the connector. -/
inductive ConnectorFault where
  /-- The step is not possible in the state. -/
  | disabled
  | fault (fault : Fault)
  deriving DecidableEq, Repr

/-- A call of the connector, or a step of its loop. -/
inductive ConnectorAction where
  /-- `start`, in the loop thread or in another one. -/
  | start (inLoop : Bool) (answer : ConnectAnswer)
  | stop (inLoop : Bool)
  | restart (answer : ConnectAnswer)
  /-- A pending timer expires. -/
  | timer (i : ℕ) (answer : ConnectAnswer)
  /-- The loop runs the first queued functor. -/
  | functor (answer : ConnectAnswer)
  /-- The poller reports an event of the channel of a socket. -/
  | event (socket : ℕ) (e : ConnectEvent)
  deriving DecidableEq, Repr

namespace Connector

/-- The connect channels that are registered in the poller. -/
def registered (s : Connector) : Finset ℕ := Reactor.registered s.pollerCalls

/-- `connectChannel_` owns a channel that is registered. -/
def ChannelRegistered (s : Connector) : Prop :=
  ∃ ch ∈ s.connectChannel, ch.socket ∈ s.registered

instance (s : Connector) : Decidable s.ChannelRegistered :=
  inferInstanceAs (Decidable (∃ ch ∈ s.connectChannel, _))

/-- The descriptor of a socket. -/
def fdOf (s : Connector) (sockfd : ℕ) : ℤ := s.fds.getD sockfd 0

/-- `EventLoop::queueInLoop`. -/
def queueInLoop (s : Connector) (functor : ConnectorFunctor) : Connector :=
  { s with functors := s.functors ++ [functor] }

/-- `Connector::connecting`. -/
def connecting (s : Connector) (sockfd : ℕ) : Connector :=
  if s.connecting_ then
    let channel := Channel.enableWriting { fd := s.fdOf sockfd }
    { s with
      state := .connecting
      connectChannel := some { socket := sockfd, channel }
      pollerCalls := s.pollerCalls ++ [.update sockfd channel.events] }
  else s

/-- `Connector::retry`. -/
def retry (s : Connector) (sockfd : ℕ) : Connector :=
  if s.connecting_ then
    { s with
      state := .disConnected
      closed := s.closed ++ [sockfd]
      timers := s.timers ++ [s.retryDelayms]
      retryDelayms := min (2 * s.retryDelayms) kMaxRetryDelay }
  else s

/-- `createNonBlockingSockfd`, whose socket gets the next number. -/
def createSocket (s : Connector) (fd : ℕ) : Connector := { s with fds := s.fds ++ [fd] }

/-- `Connector::connect`. -/
def connect (s : Connector) : ConnectAnswer → Connector
  | .noSocket => s
  | .connected fd => s.createSocket fd
  | .failed fd errno =>
    let sockfd := s.fds.length
    let s := s.createSocket fd
    if errno ∈ waitErrnos then s.connecting sockfd
    else if errno ∈ retryErrnos then s.retry sockfd
    else s

/-- `Connector::startInLoop`. -/
def startInLoop (s : Connector) (answer : ConnectAnswer) : Connector :=
  if s.state = .disConnected then s.connect answer else s

/-- `connecting_ = true`, with the call in the history. -/
def setConnecting (s : Connector) : Connector :=
  { s with connecting_ := true, starts := s.starts + 1, stopped := false }

/-- `Connector::start`. -/
def start (s : Connector) (inLoop : Bool) (answer : ConnectAnswer) : Connector :=
  if inLoop then s.setConnecting.startInLoop answer
  else s.setConnecting.queueInLoop .startInLoop

/-- `Connector::stopInLoop`, which does nothing but end the call of `stop`. -/
def stopInLoop (s : Connector) (starts : ℕ) : Connector :=
  { s with stopped := s.stopped || starts == s.starts }

/-- `Connector::stop`. -/
def stop (s : Connector) (inLoop : Bool) : Connector :=
  let s := { s with connecting_ := false }
  if inLoop then s.stopInLoop s.starts else s.queueInLoop (.stopInLoop s.starts)

/-- What `restart` sets. -/
def setRestarted (s : Connector) : Connector :=
  { s.setConnecting with
    state := .disConnected
    retryDelayms := kInitretryDelay }

/-- `Connector::restart`. -/
def restart (s : Connector) (answer : ConnectAnswer) : Connector :=
  s.setRestarted.startInLoop answer

/-- `Connector::resetChannel`. -/
def resetChannel (s : Connector) : Connector := { s with connectChannel := none }

/-- `Connector::removeAndReset`. -/
def removeAndReset (s : Connector) : Except ConnectorFault (Connector × ℕ) :=
  match s.connectChannel with
  | some ch =>
    let channel := ch.channel.disableAll
    let calls : List (PollerOp ℕ) := [.update ch.socket channel.events, .remove ch.socket]
    let s := { s with
      connectChannel := some { ch with channel }
      pollerCalls := s.pollerCalls ++ calls }
    .ok (s.queueInLoop .resetChannel, ch.socket)
  | none => .error (.fault .nullDereference)

/-- The end of an attempt, with the call of `newConnectionCallback_`. -/
def reportConnection (s : Connector) (sockfd : ℕ) : Connector :=
  let s := { s with state := .connected }
  if s.newConnectionCallback then { s with handed := s.handed ++ [sockfd] } else s

/-- `Connector::handleWrite`. -/
def handleWrite (s : Connector) (e : ConnectEvent) : Except ConnectorFault Connector :=
  if s.state = .connecting then do
    let (s, sockfd) ← s.removeAndReset
    if e.socketError ≠ 0 then return s.retry sockfd
    else if e.selfConnect then return s.retry sockfd
    else return s.reportConnection sockfd
  else .ok s

/-- `Connector::handleError`. -/
def handleError (s : Connector) : Except ConnectorFault Connector :=
  if s.state = .disConnected then do
    let (s, sockfd) ← s.removeAndReset
    return s.retry sockfd
  else .ok s

/-- `Channel::handlerEvent` of the connect channel, which has no other callbacks. -/
def handlerEvent (s : Connector) (e : ConnectEvent) : Except ConnectorFault Connector := do
  let s ← if e.revents.has pollHup then s.handleError else .ok s
  if e.revents.has pollOut then s.handleWrite e else .ok s

/-- The call of a functor. -/
def call (s : Connector) (answer : ConnectAnswer) : ConnectorFunctor → Connector
  | .startInLoop => s.startInLoop answer
  | .stopInLoop starts => s.stopInLoop starts
  | .resetChannel => s.resetChannel

/-- A step of the connector in its loop. -/
def step (s : Connector) : ConnectorAction → Except ConnectorFault Connector
  | .start inLoop answer => .ok (s.start inLoop answer)
  | .stop inLoop => .ok (s.stop inLoop)
  | .restart answer => .ok (s.restart answer)
  | .timer i answer =>
    if i < s.timers.length then
      .ok ({ s with timers := s.timers.eraseIdx i }.startInLoop answer)
    else .error .disabled
  | .functor answer =>
    match s.functors with
    | functor :: functors => .ok ({ s with functors }.call answer functor)
    | [] => .error .disabled
  | .event socket e =>
    if socket ∈ s.registered then
      if ∃ ch ∈ s.connectChannel, ch.socket = socket then s.handlerEvent e
      else .error (.fault .useAfterFree)
    else .error .disabled

end Connector

end Reactor
