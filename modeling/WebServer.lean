import WebServer.Lib.OrdMap
import WebServer.Lib.Loop
import WebServer.Lib.Run
import WebServer.Lib.Lines
import WebServer.Lib.Frames
import WebServer.Lib.OrdSet
import WebServer.Lib.Calendar
import WebServer.Mymuduo.RawBuffer
import WebServer.Mymuduo.RetrieveAsString
import WebServer.Mymuduo.BufferStorage
import WebServer.Mymuduo.OutputStream
import WebServer.Mymuduo.CrossThreadSend
import WebServer.Mymuduo.GracefulShutdown
import WebServer.Mymuduo.Lifecycle
import WebServer.Mymuduo.Alike
import WebServer.Mymuduo.Registration
import WebServer.Mymuduo.Quiescence
import WebServer.Mymuduo.ConnectionRemoval
import WebServer.Mymuduo.ServerLoad
import WebServer.Mymuduo.Registry
import WebServer.Mymuduo.Sockets
import WebServer.Mymuduo.LoopThread
import WebServer.Mymuduo.FunctorRounds
import WebServer.Mymuduo.QuitRequest
import WebServer.Mymuduo.EpollPoller
import WebServer.Mymuduo.Polling
import WebServer.Mymuduo.AsyncLogging
import WebServer.Mymuduo.LogBuffers
import WebServer.Mymuduo.BufferRecycling
import WebServer.Mymuduo.StopLogging
import WebServer.Mymuduo.LogProgress
import WebServer.Mymuduo.LogOutput
import WebServer.Mymuduo.Logger
import WebServer.Mymuduo.TimePrefix
import WebServer.Mymuduo.FormatLog
import WebServer.Mymuduo.AppendFile
import WebServer.Mymuduo.ConnectionMap
import WebServer.Mymuduo.DisabledChannel
import WebServer.Mymuduo.HighWaterMark
import WebServer.Mymuduo.EmptyCallback
import WebServer.Mymuduo.WriteInterest
import WebServer.Mymuduo.Flushing
import WebServer.Mymuduo.ChatServer
import WebServer.Mymuduo.TimerArming
import WebServer.Mymuduo.TimerCancel
import WebServer.Mymuduo.TimerFate
import WebServer.Mymuduo.TimerSpacing
import WebServer.Mymuduo.TimerExpiry
import WebServer.Mymuduo.LoopTimers
import WebServer.Mymuduo.EventLoopThread
import WebServer.Mymuduo.EventLoopThreadPool
import WebServer.Mymuduo.PoolStart
import WebServer.Mymuduo.PoolDestruction
import WebServer.Http.Incremental
import WebServer.Http.Acceptance
import WebServer.Http.RoundTrip
import WebServer.Http.Pipelining
import WebServer.Http.Segmentation
import WebServer.Http.ClosingResponse
import WebServer.Http.LateRequest
import WebServer.Http.ResponseFraming
import WebServer.Http.RequestBody
import WebServer.Http.Decomposition
import WebServer.Http.Termination
import WebServer.Http.FailedParse
import WebServer.Http.LetterCase
import WebServer.Http.Transcript
import WebServer.Http.Wire
import WebServer.Http.Client
import WebServer.Http.WebSite
import WebServer.Http.Drain
import WebServer.Http.ServiceClients
