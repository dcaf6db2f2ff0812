import EpollServer.Cpp
import EpollServer.Epoll

/-!
# The worker pool: clients, workers and their operations

The data of `tcp_worker` and `tcp_worker_pool` and the operations on it that the loop of
`worker_routine` is made of. `WorkerPool.Machine` interleaves them.
-/
namespace EpollServer.WorkerPool

/-- A `const char *`: null, or the static buffer that `inet_ntoa` returns. -/
inductive CharPtr where
  | null
  | inetNtoaBuffer
  deriving DecidableEq, Repr

/-- `client_info`; `eplev` holds the descriptor and the event mask. -/
structure ClientInfo where
  host : CharPtr
  port : Int
  eplev : EpollEvent
  deriving DecidableEq, Repr

/-- Where a worker thread is in `worker_routine`. -/
inductive Pc where
  | unstarted
  /-- At the test of `event_storage_` outside of the lock. -/
  | top
  /-- About to lock `locker_`. -/
  | lock
  /-- At the second test, holding `locker_`. -/
  | retest
  /-- About to take the front of `event_storage_`. -/
  | pop
  /-- Holding the popped client, about to insert it into `client_infos`. -/
  | record (info : ClientInfo)
  /-- About to add the client to the poller. -/
  | register (info : ClientInfo)
  | unlock
  /-- At `avail_woker_num_--`. -/
  | decrement
  /-- At the comparison with `worker_num_ / 2`. -/
  | test
  /-- At `wttme = avail_woker_num_`. -/
  | loadAvail
  /-- At `wttme = worker_num_ % avail_woker_num_`. -/
  | loadDivisor
  /-- In `poll_event(wttme)`. -/
  | poll (wttme : Int)
  /-- In the poller's callback, with the events still to handle. -/
  | handle (events : List EpollEvent)
  /-- In the `read` of `handle_epollin`. -/
  | reading (event : EpollEvent) (rest : List EpollEvent)
  /-- At the test for `EPOLLHUP` and `EPOLLERR`. -/
  | hangup (event : EpollEvent) (rest : List EpollEvent)
  /-- At `avail_woker_num_++`. -/
  | increment
  deriving DecidableEq, Repr

/-- A `tcp_worker`: `clientInfos` is its map from descriptors to clients, `poller` the
interest set of its epoll instance. -/
structure Worker where
  pc : Pc
  clientInfos : List (Int × ClientInfo)
  poller : Interest
  deriving DecidableEq, Repr

def Worker.constructed : Worker := ⟨.unstarted, [], []⟩

/-- `client_infos.insert`: a key that is present keeps its value. -/
def Worker.insert (w : Worker) (info : ClientInfo) : Worker :=
  if w.clientInfos.any (·.1 == info.eplev.fd) then w
  else { w with clientInfos := w.clientInfos ++ [(info.eplev.fd, info)] }

@[simp] theorem Worker.pc_insert (w : Worker) (info : ClientInfo) :
    (w.insert info).pc = w.pc := by
  unfold insert
  split_ifs <;> rfl

@[simp] theorem Worker.poller_insert (w : Worker) (info : ClientInfo) :
    (w.insert info).poller = w.poller := by
  unfold insert
  split_ifs <;> rfl

/-- `poller_.add_event` with its default flag. -/
def Worker.addEvent (w : Worker) (info : ClientInfo) (resources : Bool) : Worker :=
  { w with poller := (w.poller.addEvent info.eplev.fd info.eplev.events false resources).1 }

/-- `handle_disconnect`: its statements are commented out. -/
def Worker.handleDisconnect (w : Worker) (_clientSockfd : Int) : Worker := w

/-- The timeout passed to `poll_event`, from the value of `wttme`. -/
def pollTimeout (wttme : Int) : Int := if wttme = 0 then 1 else wttme

end EpollServer.WorkerPool
