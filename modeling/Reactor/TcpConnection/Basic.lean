import Reactor.Buffer.Socket
import Reactor.Channel
import Reactor.TcpServer

/-!
# A connection in its loop

`TcpConnection` as far as its loop thread runs it: `runInLoop` calls its functor at
once. What user code does in a callback is a script, whose `send` carries the result of
the `writev` that it may lead to and the script of the `writeCompleteCallback_` that it
may invoke. The answers of the system calls are part of the input of each function.
-/

namespace Reactor

/-- The bytes of a message, whose number is a `size_t`. -/
abbrev Message := { data : List UInt8 // data.length < 2 ^ 64 }

/-- What user code does in a callback. -/
inductive UserCode where
  | done
  /-- `send`, with the result of `writev` and the code of `writeCompleteCallback_`. -/
  | send (message : Message) (written : Option ℕ) (complete next : UserCode)
  | shutdown (next : UserCode)
  /-- `bufferDrain` of the input buffer. -/
  | drain (n : ℕ) (next : UserCode)
  /-- `bufferRead` of the input buffer. -/
  | read (n : ℕ) (next : UserCode)

/-- `TcpConnection::State`. -/
inductive ConnectionState where
  | connecting
  | connected
  | disConnecting
  | disConnected
  deriving DecidableEq, Repr

/-- The callbacks of a connection. -/
inductive Callback where
  | connection
  | message
  | writeComplete
  | close
  | error
  deriving DecidableEq, Repr

/-- A call of `writeIovec` with the result of `writev`; `none` is the result -1. -/
structure WritevCall where
  buffer : Buffer
  howmuch : ℕ
  result : Option ℕ

/-- `TcpConnection`. The last four fields record the history of the connection, and no
function reads them. -/
structure TcpConnection where
  connName : String
  state : ConnectionState := .connecting
  channel : Channel
  inputBuffer : Buffer := {}
  outputBuffer : Buffer := {}
  /-- Whether `writeCompleteCallback_` is set. -/
  writeCompleteCallback : Bool
  /-- The server that `closeCallback_` is bound to. -/
  server : TcpServer := {}
  /-- The messages passed to `sendInLoop`. -/
  messages : List UInt8 := []
  /-- The cells that `writev` has accepted. -/
  transmitted : List Cell := []
  calls : List WritevCall := []
  /-- The callbacks invoked. -/
  invoked : List Callback := []

namespace TcpConnection

/-- A call of a callback in the history. -/
def invoke (conn : TcpConnection) (callback : Callback) : TcpConnection :=
  { conn with invoked := conn.invoked ++ [callback] }

/-- `outputBuffer_.writeIovec`: the kernel accepts at most what is offered. -/
def writeIovec (conn : TcpConnection) (howmuch : ℕ) (answer : Option ℕ) :
    Except ConnectionFault (TcpConnection × Option ℕ) := do
  let offered ← liftBuffer (conn.outputBuffer.writeIovec howmuch)
  let result := answer.map (min · offered.length)
  return ({ conn with
    transmitted := conn.transmitted ++ offered.take (result.getD 0)
    calls := conn.calls ++ [⟨conn.outputBuffer, howmuch, result⟩] }, result)

/-- The functor that runs `writeCompleteCallback_`, if that is set. -/
def runWriteComplete (conn : TcpConnection)
    (complete : TcpConnection → Except ConnectionFault TcpConnection) :
    Except ConnectionFault TcpConnection :=
  if conn.writeCompleteCallback then complete (conn.invoke .writeComplete) else .ok conn

/-- `if (nwrite > 0) outputBuffer_.bufferDrain(nwrite)`. -/
def drainWritten (conn : TcpConnection) : Option ℕ → Except ConnectionFault TcpConnection
  | some (n + 1) => do
    let outputBuffer ← liftBuffer (conn.outputBuffer.bufferDrain (n + 1))
    return { conn with outputBuffer }
  | some 0 | none => .ok conn

/-- `outputBuffer_.bufferAdd`. -/
def addOutput (conn : TcpConnection) (message : List UInt8) :
    Except ConnectionFault TcpConnection := do
  let outputBuffer ← liftBuffer (conn.outputBuffer.bufferAdd message)
  return { conn with outputBuffer, messages := conn.messages ++ message }

/-- The test of `sendInLoop` for a message that may be written at once. -/
def isIdle (conn : TcpConnection) : Bool :=
  !conn.channel.isWriting && conn.outputBuffer.totalSize == 0

/-- What `sendInLoop` does between `writeIovec` and the drain. -/
def afterSend (conn : TcpConnection) (nwrite : Option ℕ) (remain : ℕ)
    (complete : TcpConnection → Except ConnectionFault TcpConnection) :
    Except ConnectionFault TcpConnection :=
  if ssizeToSize nwrite < remain then .ok { conn with channel := conn.channel.enableWriting }
  else conn.runWriteComplete complete

/-- `TcpConnection::sendInLoop`. -/
def sendInLoop (conn : TcpConnection) (message : List UInt8) (answer : Option ℕ)
    (complete : TcpConnection → Except ConnectionFault TcpConnection) :
    Except ConnectionFault TcpConnection := do
  if conn.isIdle then
    let conn ← conn.addOutput message
    let remain := message.length
    let (conn, nwrite) ← conn.writeIovec remain answer
    let conn ← conn.afterSend nwrite remain complete
    conn.drainWritten nwrite
  else conn.addOutput message

/-- `TcpConnection::shutdownInLoop`. -/
def shutdownInLoop (conn : TcpConnection) : TcpConnection :=
  if conn.state = .connected then { conn with state := .disConnecting } else conn

/-- User code, run in the loop thread. -/
def runUserCode : UserCode → TcpConnection → Except ConnectionFault TcpConnection
  | .done, conn => .ok conn
  | .send message written complete next, conn => do
    let conn ← conn.sendInLoop message.val written fun conn => runUserCode complete conn
    runUserCode next conn
  | .shutdown next, conn => runUserCode next conn.shutdownInLoop
  | .drain n next, conn => do
    let inputBuffer ← liftBuffer (conn.inputBuffer.bufferDrain n)
    runUserCode next { conn with inputBuffer }
  | .read n next, conn => do
    let (inputBuffer, _) ← liftBuffer (conn.inputBuffer.bufferRead n)
    runUserCode next { conn with inputBuffer }

/-- What `handleWrite` does between `writeIovec` and the drain. -/
def afterWrite (conn : TcpConnection) (n : Option ℕ) (remain : ℕ)
    (complete : TcpConnection → Except ConnectionFault TcpConnection) :
    Except ConnectionFault TcpConnection :=
  if ssizeToSize n = remain then
    runWriteComplete { conn with channel := conn.channel.disableWrite } complete
  else .ok conn

/-- `TcpConnection::handleWrite`. -/
def handleWrite (conn : TcpConnection) (answer : Option ℕ) (complete : UserCode) :
    Except ConnectionFault TcpConnection := do
  if conn.channel.isWriting && conn.outputBuffer.totalSize != 0 then
    let remain := conn.outputBuffer.totalSize
    let (conn, n) ← conn.writeIovec remain answer
    let conn ← conn.afterWrite n remain (runUserCode complete)
    conn.drainWritten n
  else return conn

/-- `TcpConnection::handleClose`. -/
def handleClose (conn : TcpConnection) : Except ConnectionFault TcpConnection := do
  let conn := { conn with state := .disConnected, channel := conn.channel.disableAll }
  let conn := conn.invoke .close
  return { conn with server := ← conn.server.closeConnection conn.connName }

/-- `TcpConnection::handleError`. -/
def handleError (conn : TcpConnection) : TcpConnection := conn.invoke .error

/-- `TcpConnection::handleRead`: the result of `bufferRead` is unsigned, so that the last
branch of the source is never taken. -/
def handleRead (conn : TcpConnection) (pending : ℕ) (socket : Option (List UInt8))
    (onMessage : UserCode) : Except ConnectionFault TcpConnection := do
  let (inputBuffer, n) ← liftBuffer (conn.inputBuffer.bufferReadFd pending socket)
  let conn := { conn with inputBuffer }
  if 0 < n then runUserCode onMessage (conn.invoke .message)
  else conn.handleClose

/-- `TcpConnection::connectEstablished`. -/
def connectEstablished (conn : TcpConnection) (onConnection : UserCode) :
    Except ConnectionFault TcpConnection :=
  let conn := { conn with state := .connected, channel := conn.channel.enableReading }
  runUserCode onConnection (conn.invoke .connection)

/-- What a channel's handlers find and do while they handle one event. -/
structure EventInput where
  revents : EventMask
  /-- What `FIONREAD` reports. -/
  pending : ℕ
  /-- What `readv` finds. -/
  socket : Option (List UInt8)
  onMessage : UserCode
  /-- The result of `writev`. -/
  written : Option ℕ
  onWriteComplete : UserCode

/-- `Channel::handlerEvent` of the connection's channel. -/
def handlerEvent (conn : TcpConnection) (e : EventInput) :
    Except ConnectionFault TcpConnection := do
  let conn := { conn with channel := { conn.channel with revents := e.revents } }
  let conn := if e.revents.has pollHup then conn.handleError else conn
  let conn ← (if e.revents.has pollErr then conn.handleClose else .ok conn)
  let conn ← (if e.revents.has pollIn then conn.handleRead e.pending e.socket e.onMessage
    else .ok conn)
  if e.revents.has pollOut then conn.handleWrite e.written e.onWriteComplete else .ok conn

end TcpConnection

/-! ## The output path alone -/

/-- What makes a connection write. -/
inductive OutputOp where
  /-- `sendInLoop`, with the result of `writev` and the code of `writeCompleteCallback_`. -/
  | send (message : Message) (written : Option ℕ) (complete : UserCode)
  /-- A writable event, handled by `handleWrite`. -/
  | writable (written : Option ℕ) (complete : UserCode)

namespace TcpConnection

/-- The handlers that write. -/
def outputStep (conn : TcpConnection) : OutputOp → Except ConnectionFault TcpConnection
  | .send message written complete =>
    conn.sendInLoop message.val written (runUserCode complete)
  | .writable written complete => conn.handleWrite written complete

/-- An established connection that has not written yet. -/
def established (name : String) (fd : ℤ) (writeCompleteCallback : Bool) : TcpConnection :=
  { connName := name
    state := .connected
    channel := Channel.enableReading { fd }
    writeCompleteCallback }

end TcpConnection

end Reactor
