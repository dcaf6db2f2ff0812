import EpollServer.Library.Run
import EpollServer.Library.Tally
import EpollServer.Library.Ring
import EpollServer.Library.Transducer
import EpollServer.Library.Multimap
import EpollServer.EpollWrapper
import EpollServer.ThreadPool.Queue
import EpollServer.ThreadPool.Wakeup
import EpollServer.ThreadPool.Shutdown
import EpollServer.ThreadPool.Holding
import EpollServer.ThreadPool.Submit
import EpollServer.ThreadPool.Closed
import EpollServer.ThreadPool.Graceful
import EpollServer.ThreadPool.Recreate
import EpollServer.ThreadPool.Singleton
import EpollServer.ThreadPool.Affinity
import EpollServer.WorkerPool.Available
import EpollServer.WorkerPool.Timeout
import EpollServer.WorkerPool.Storage
import EpollServer.WorkerPool.Registered
import EpollServer.WorkerPool.Disconnect
import EpollServer.WorkerPool.Reports
import EpollServer.Server.Machine
import EpollServer.Server.Construct
import EpollServer.Server.Counting
import EpollServer.Server.Whereabouts
import EpollServer.Server.Connected
import EpollServer.Server.Arrivals
import EpollServer.Server.Silence
import EpollServer.Server.Unread
import EpollServer.Server.Hosts
import EpollServer.Http.Sent
import EpollServer.Http.Logged
import EpollServer.AsyncSigio
import EpollServer.Library.Journey
import EpollServer.ThreadPool.Running
import EpollServer.WorkerPool.Passing
import EpollServer.Server.Journey
import EpollServer.Server.Readers
import EpollServer.Server.Requests
import EpollServer.Server.Answering
import EpollServer.Server.Replies
import EpollServer.Http.Remains
import EpollServer.Server.Order
import EpollServer.ThreadPool.Names
import EpollServer.Library.Lock
import EpollServer.WorkerPool.Locking
import EpollServer.Server.Locking
import EpollServer.Server.Faults
import EpollServer.Library.Charge
import EpollServer.ThreadPool.Effort
import EpollServer.Server.Waiting
import EpollServer.Server.Draining
import EpollServer.Server.Unblocked
import EpollServer.CodeMap
import EpollServer.ThreadPool.Returning
import EpollServer.WorkerPool.Effort
import EpollServer.Server.Rounds
import EpollServer.Server.Ending
