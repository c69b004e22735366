import ReMuduo.Machine
import ReMuduo.OrderedSet
import ReMuduo.NodeSet
import ReMuduo.Timer
import ReMuduo.TimerQueue
import ReMuduo.TimerSets
import ReMuduo.TimerRuns
import ReMuduo.TimerHandles
import ReMuduo.TimerLife
import ReMuduo.TimerFiring
import ReMuduo.StaleIds
import ReMuduo.TimerPending
import ReMuduo.TimerDeletes
import ReMuduo.TimerfdArming
import ReMuduo.Reinsertion
import ReMuduo.TimerThreads
import ReMuduo.CancelOrder
import ReMuduo.Memory
import ReMuduo.Buffer
import ReMuduo.BufferCalls
import ReMuduo.Delimited
import ReMuduo.LineFraming
import ReMuduo.BufferStorage
import ReMuduo.BufferCopies
import ReMuduo.Channel
import ReMuduo.Poller
import ReMuduo.RemovedChannels
import ReMuduo.TcpConnection
import ReMuduo.DownReport
import ReMuduo.OutputStream
import ReMuduo.BackPressure
import ReMuduo.SharedConnection
import ReMuduo.FinOrder
import ReMuduo.MessageOrder
import ReMuduo.Echo
import ReMuduo.GracefulShutdown
import ReMuduo.ConnectionTimers
import ReMuduo.TimerOwnership
import ReMuduo.TimedSteps
import ReMuduo.EarlyTimeouts
import ReMuduo.KeepAlive
import ReMuduo.ClosedTimers
import ReMuduo.IdleTimeout
import ReMuduo.TimedQueue
import ReMuduo.TimerWaiting
import ReMuduo.IdleClose
import ReMuduo.ForgottenTimers
import ReMuduo.EventLoop
import ReMuduo.LoopStart
import ReMuduo.EventLoopThread
import ReMuduo.LoopShutdown
import ReMuduo.ThreadTeardown
import ReMuduo.LoopAgenda
import ReMuduo.ServerLoop
import ReMuduo.CallbackProtocol
import ReMuduo.CallbackRuns
import ReMuduo.ServerLoops
import ReMuduo.ServerDeeds
import ReMuduo.ConnectionViews
import ReMuduo.ServerViews
import ReMuduo.ServerSteps
import ReMuduo.LifeCycle
import ReMuduo.RawFunctors
import ReMuduo.ChannelPointers
import ReMuduo.EventLoopThreadPool
import ReMuduo.ServerLedger
import ReMuduo.ServerTeardown
import ReMuduo.Chunking
import ReMuduo.AsyncLogging
import ReMuduo.LogConservation
import ReMuduo.LogPool
import ReMuduo.LogShutdown
import ReMuduo.Printf
import ReMuduo.CInteger
import ReMuduo.CStrings
import ReMuduo.InetAddress
import ReMuduo.LogStream
import ReMuduo.AppendFile
import ReMuduo.LogFile
import ReMuduo.LogPipeline
import ReMuduo.Logger
import ReMuduo.LogLevels
import ReMuduo.AsyncOutput
