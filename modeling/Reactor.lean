import Reactor.Buffer.Refinement
import Reactor.Buffer.Input
import Reactor.Buffer.Exact
import Reactor.Buffer.Invariant
import Reactor.Buffer.Offer
import Reactor.Buffer.Request
import Reactor.TcpConnection.Output
import Reactor.TcpConnection.Stall
import Reactor.TcpConnection.Truthful
import Reactor.TcpConnection.Closed
import Reactor.TcpConnection.FailedRead
import Reactor.TcpConnection.Graceful
import Reactor.Poll
import Reactor.Epoll
import Reactor.Polling.Agreement
import Reactor.TimerQueue.Alarm
import Reactor.TimerQueue.Timespec
import Reactor.TimerQueue.Cancel
import Reactor.TimerQueue.Spacing
import Reactor.EventLoop.Stop
import Reactor.EventLoop.Progress
import Reactor.EventLoop.Return
import Reactor.Signal
import Reactor.Signal.Delivery
import Reactor.EventLoopThreadPool.Start
import Reactor.ThreadPool
import Reactor.ThreadPool.Reconfigure
import Reactor.ThreadPool.Stop
import Reactor.ThreadPool.Progress
import Reactor.Server.Basic
import Reactor.Server.Invariant
import Reactor.Server.Ownership
import Reactor.Server.Send
import Reactor.Server.Dispatch
import Reactor.Server.Handlers
import Reactor.Connector.Sockets
import Reactor.Connector.Attempts
import Reactor.Connector.Retries
import Reactor.Connector.Stop
import Reactor.TcpClient.Invariant
import Reactor.TcpClient.Reconnect
import Reactor.Logging.LogStream
import Reactor.Logging.LogFile
import Reactor.Logging.FileUtil
import Reactor.Logging.Shutdown
import Reactor.Logging.Progress
import Reactor.Logging.Recycling
import Reactor.Logging.Numeral
import Reactor.Logging.Format
import Reactor.Logging.BaseName
import Reactor.Logging.Record
import Reactor.Logging.Chronology
import Reactor.Logging.Files
import Reactor.Logging.FileNames
