import EpollServer.WorkerPool.Machine
import EpollServer.ThreadPool.Machine
import Mathlib.Algebra.Group.Nat.Defs

/-!
# The server: connections, tasks and the loop of the main thread

A connection lives in the kernel: its peer sends, closes or resets at any time, also before the
server accepts it, and what `read` and `epoll_wait` may return follows from that. `read` on a
blocking socket that has nothing to return does not return.

`Job` is the lambda that `tcp_worker_pool::submit` passes to the thread pool, with the point
its execution has reached.
-/
namespace EpollServer.Server

open WorkerPool (ClientInfo)

def serverMaxConnection : ℕ := 2048

/-- The default of the second parameter of `thread_pool::create`. -/
def defaultQueueSize : Int := 2048

/-- `epoll_wrapper::MAX_EVENTS`. -/
def maxEvents : ℕ := 1024

def normalEpollev : UInt32 := epollIn ||| epollPri ||| epollEt ||| epollHup ||| epollErr

/-- The server's end of a connection; `fd` is its descriptor once it is accepted. -/
structure Connection where
  port : Int
  fd : Option Int
  nonblock : Bool
  /-- The bytes that the peer has sent, and those that `read` has returned. -/
  received : ℕ
  taken : ℕ
  closed : Bool
  reset : Bool
  deriving DecidableEq, Repr

/-- What a peer does with its connection. -/
inductive PeerAct where
  | send (n : ℕ)
  | close
  | reset
  deriving DecidableEq, Repr

namespace Connection

/-- A connection that was just established. Sockets block unless `set_fd_non_block` is
called, and `accept` does not change that. -/
def established (port : Int) : Connection := ⟨port, none, false, 0, 0, false, false⟩

def unread (c : Connection) : ℕ := c.received - c.taken

def peer (c : Connection) : PeerAct → Option Connection
  | .send n =>
    if 0 < n ∧ !c.closed ∧ !c.reset then some { c with received := c.received + n } else none
  | .close => if !c.closed ∧ !c.reset then some { c with closed := true } else none
  | .reset => if !c.reset then some { c with reset := true } else none

/-- `read(fd, buf, BUFSIZ)` may return `n`. -/
def mayRead (c : Connection) (n : Int) : Bool :=
  if n < 0 then c.reset || c.nonblock && c.unread = 0 && !c.closed
  else if n = 0 then c.closed && c.unread = 0
  else n ≤ c.unread && n ≤ bufsiz

/-- `read` has nothing to return. -/
def blocks (c : Connection) : Bool := c.unread = 0 && !c.closed && !c.reset && !c.nonblock

theorem blocks_iff (c : Connection) : c.blocks = true ↔ ∀ n, c.mayRead n = false := by
  constructor
  · intro h n
    obtain ⟨⟨⟨unread, closed⟩, reset⟩, nonblock⟩ :
        ((c.unread = 0 ∧ c.closed = false) ∧ c.reset = false) ∧ c.nonblock = false := by
      simpa [blocks] using h
    unfold mayRead
    split_ifs
    · simp [reset, nonblock]
    · simp [closed]
    · have : ¬ n ≤ (c.unread : Int) := by omega
      simp [this]
  · intro h
    have negative := h (-1)
    have zero := h 0
    have one := h 1
    unfold mayRead at negative zero one
    unfold blocks
    have none_ : c.unread = 0 := by
      by_contra some_
      have : (1 : Int) ≤ c.unread := by omega
      simp [this, bufsiz] at one
    cases hc : c.closed <;> cases hr : c.reset <;> cases hn : c.nonblock <;>
      simp_all

/-- `epoll_wait` may report these events for the socket. -/
def mayReport (c : Connection) (events : UInt32) : Bool :=
  (!hasEvent events epollIn || 0 < c.unread || c.closed || c.reset) &&
    (!hasEvent events (epollHup ||| epollErr) || c.closed || c.reset)

/-- Connected, and nothing heard of the peer since. -/
def silent (c : Connection) : Bool := c.received = 0 && !c.closed && !c.reset

end Connection

/-- What the lambda of `tcp_worker_pool::submit` captures. -/
structure Closure where
  info : ClientInfo
  nonblocking : Bool
  deriving DecidableEq, Repr

/-- How far a task of `tcp_worker_pool::submit` has come. -/
inductive Stage where
  /-- In the `read`; `set_fd_non_block` before it is commented out. -/
  | read
  /-- About to lock `locker_`, the reply sent. -/
  | lock
  | emplace
  | unlock
  | done
  deriving DecidableEq, Repr

/-- A running task. -/
structure Job where
  closure : Option Closure
  stage : Stage
  deriving DecidableEq, Repr

def Job.start (task : ThreadPool.Task Closure Unit) : Job := ⟨task.func, .read⟩

/-- Where the main thread is. -/
inductive Acceptor where
  /-- In `worker_pool.startup()`. -/
  | starting
  /-- In the `poll_event` of `poll_for_connect`. -/
  | polling
  /-- At the test of the event mask in the callback. -/
  | event (events : UInt32)
  | accepting
  /-- In `worker_pool.submit(info)`. -/
  | submitting (info : ClientInfo)
  /-- In the `startup()` that `submit` calls when the pool is not started. -/
  | restarting (info : ClientInfo)
  /-- At `connected_num_++`. -/
  | counting
  | aborted
  deriving DecidableEq, Repr

/-- The outcome of `accept`: a descriptor for the first connection of the accept queue, or -1,
where that connection may be gone. -/
inductive AcceptResult where
  | descriptor (fd : Int)
  | failed (gone : Bool)
  deriving DecidableEq, Repr

/-- The `client_info` that the callback fills in. -/
def clientInfo (fd port : Int) : ClientInfo := ⟨.inetNtoaBuffer, port, ⟨normalEpollev, fd⟩⟩

end EpollServer.Server
