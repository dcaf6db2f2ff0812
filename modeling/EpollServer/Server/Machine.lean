import EpollServer.Server.Basic
import EpollServer.ThreadPool.Holding
import EpollServer.WorkerPool.Storage

/-!
# The running server

The main thread starts both pools and then loops in `poll_for_connect`; the pool threads run the
tasks that `tcp_worker_pool::submit` gave them; the workers take clients from `event_storage_`
and poll them; peers connect, send and close at any time. The two pools move by their own step
functions, so that a run of the server is a run of each of them.

The listening socket is edge triggered: `fresh` says that a connection arrived after the last
report, and only then is there a new report. No descriptor of a client is ever closed, and
`accept` returns one that is not open.

What is read is a number of bytes here. What the threads print of the bytes and send for them, and
how a print can end the process, is added by `answer`, whose runs are runs of this machine.

`accepted` and `submitted` are history: the descriptors that `accept` returned as clients, and
those passed to `tcp_worker_pool::submit`.
-/
namespace EpollServer.Server

open Library
open WorkerPool (ClientInfo)

structure State where
  pool : ThreadPool.State Closure Unit Job
  workers : WorkerPool.State
  acceptor : Acceptor
  /-- `connected_num_`, a `uint32_t`. -/
  connectedNum : ℕ
  /-- Every connection that was ever established. -/
  connections : List Connection
  /-- The accept queue of the listening socket. -/
  acceptQueue : List ℕ
  fresh : Bool
  accepted : List Int
  submitted : List Int

/-- A server with `n` workers that is about to call `worker_pool.startup()`. -/
def State.listening (n : ℕ) : State where
  pool := .constructed
  workers := .constructed n
  acceptor := .starting
  connectedNum := 0
  connections := []
  acceptQueue := []
  fresh := false
  accepted := []
  submitted := []

inductive Act where
  /-- The next step of the main thread up to `poll_for_connect`. -/
  | startup (ok : Bool)
  | connect (port : Int)
  | peer (k : ℕ) (p : PeerAct)
  /-- `epoll_wait` reports the listening socket. -/
  | report (events : UInt32)
  /-- The tests in the callback. -/
  | event
  | accept (result : AcceptResult)
  | submit (woken : List ℕ)
  | count
  /-- A step of pool thread `i` outside of its task. -/
  | thread (i : ℕ)
  | wake (i : ℕ)
  /-- The `read` in the task of pool thread `i` returns `n`. -/
  | taskRead (i : ℕ) (n : Int)
  /-- The task of pool thread `i` goes on to put its client into `event_storage_`. -/
  | task (i : ℕ)
  | worker (i : ℕ)
  | register (i : ℕ) (resources : Bool)
  | poll (i : ℕ) (events : List EpollEvent)
  | read (i : ℕ) (n : Int)
  deriving DecidableEq

namespace State

/-- The thread pool takes a step, or the worker pool. -/
def poolDo (s : State) (b : ThreadPool.Act Closure Unit Job) : Option State :=
  (ThreadPool.step Job.start s.pool b).map fun pool => { s with pool := pool }

def workersDo (s : State) (b : WorkerPool.Act) : Option State :=
  (WorkerPool.step s.workers b).map fun workers => { s with workers := workers }

def isOpen (s : State) (fd : Int) : Bool := s.connections.any (·.fd == some fd)

def connectionOf (s : State) (fd : Int) : Option Connection :=
  s.connections.find? (·.fd == some fd)

/-- `read` on the descriptor has returned `n`. -/
def consume (s : State) (fd n : Int) : State :=
  { s with connections := s.connections.map fun c =>
      if c.fd == some fd then { c with taken := c.taken + n.toNat } else c }

/-- A trap or an abort has ended the process. -/
def stopped (s : State) : Bool :=
  s.pool.fault.isSome || s.workers.fault.isSome || s.acceptor matches .aborted

end State

/-- `tcp_worker_pool::startup`, and the entry into `poll_for_connect`. -/
def startupStep (cpuCore : Int) (s : State) (ok : Bool) : Option State :=
  match s.acceptor with
  | .starting =>
    match s.workers.startup with
    | .returned => some { s with acceptor := .polling }
    | .create =>
      match s.pool.creator with
      | .idle => s.poolDo (.create cpuCore cpuCore defaultQueueSize)
      | .returned _ => s.workersDo (.startup ok)
      | _ => s.poolDo (.creator ok)
    | _ => s.workersDo (.startup ok)
  | _ => none

def reportStep (s : State) (events : UInt32) : Option State :=
  match s.acceptor with
  | .polling =>
    if !hasEvent events epollIn || s.fresh then
      some { s with acceptor := .event events, fresh := s.fresh && !hasEvent events epollIn }
    else none
  | _ => none

def eventStep (s : State) : Option State :=
  match s.acceptor with
  | .event events =>
    if hasEvent events epollIn && s.connectedNum < serverMaxConnection then
      some { s with acceptor := .accepting }
    else if hasEvent events (epollHup ||| epollErr) then some { s with acceptor := .aborted }
    else some { s with acceptor := .polling }
  | _ => none

/-- `accept` with its result, and the test `client_fd > 0`. -/
def acceptStep (s : State) (result : AcceptResult) : Option State :=
  match s.acceptor, result, s.acceptQueue with
  | .accepting, .descriptor fd, k :: rest =>
    match s.connections[k]? with
    | some c =>
      if 0 ≤ fd ∧ !s.isOpen fd then
        let t := { s with connections := s.connections.set k { c with fd := some fd },
                          acceptQueue := rest }
        if fd > 0 then
          some { t with acceptor := .submitting (clientInfo fd c.port),
                        accepted := s.accepted ++ [fd] }
        else some { t with acceptor := .polling }
      else none
    | none => none
  | .accepting, .failed gone, queue =>
    some { s with acceptor := .polling, acceptQueue := if gone then queue.tail else queue }
  | _, _, _ => none

/-- `tcp_worker_pool::submit(info)`; the result of `thread_pool::submit` is dropped. -/
def submitStep (s : State) (woken : List ℕ) : Option State :=
  match s.acceptor with
  | .submitting info =>
    if !s.workers.started then some { s with acceptor := .restarting info }
    else (s.poolDo (.submit none (some ⟨info, true⟩) woken)).map fun t =>
      { t with acceptor := .counting, submitted := s.submitted ++ [info.eplev.fd] }
  | _ => none

def countStep (s : State) : Option State :=
  match s.acceptor with
  | .counting => some { s with connectedNum := (s.connectedNum + 1) % 2 ^ 32, acceptor := .polling }
  | _ => none

/-- The `read` of a task returns. The `printf` of what was read and the reply are in `answer`. -/
def taskReadStep (s : State) (i : ℕ) (n : Int) : Option State :=
  match s.pool.running i with
  | some ⟨some c, .read⟩ =>
    if (s.connectionOf c.info.eplev.fd).any (·.mayRead n) then
      (s.poolDo (.work i ⟨some c, .lock⟩)).map (·.consume c.info.eplev.fd n)
    else none
  | _ => none

def taskStep (s : State) (i : ℕ) : Option State :=
  match s.pool.running i with
  | some ⟨some c, .lock⟩ =>
    (s.workersDo (.taskLock i)).bind (·.poolDo (.work i ⟨some c, .emplace⟩))
  | some ⟨some c, .emplace⟩ =>
    (s.workersDo (.taskEmplace i c.info)).bind (·.poolDo (.work i ⟨some c, .unlock⟩))
  | some ⟨some c, .unlock⟩ =>
    (s.workersDo (.taskUnlock i)).bind (·.poolDo (.work i ⟨some c, .done⟩))
  | _ => none

/-- The events are those of registered descriptors, each as its socket is. -/
def State.mayPoll (s : State) (i : ℕ) (events : List EpollEvent) : Bool :=
  events.length ≤ maxEvents && s.workers.workers[i]?.any fun w =>
    events.all fun e => w.poller.registered e.fd && (s.connectionOf e.fd).any (·.mayReport e.events)

def readStep (s : State) (i : ℕ) (n : Int) : Option State :=
  match s.workers.workers[i]?.map WorkerPool.Worker.pc with
  | some (.reading event _) =>
    if (s.connectionOf event.fd).any (·.mayRead n) then
      (s.workersDo (.read i n)).map (·.consume event.fd n)
    else none
  | _ => none

def step (cpuCore : Int) (s : State) (a : Act) : Option State :=
  if s.stopped then none
  else match a with
  | .startup ok => startupStep cpuCore s ok
  | .connect port =>
    some { s with connections := s.connections ++ [.established port],
                  acceptQueue := s.acceptQueue ++ [s.connections.length], fresh := true }
  | .peer k p =>
    (s.connections[k]?.bind (·.peer p)).map fun c =>
      { s with connections := s.connections.set k c }
  | .report events => reportStep s events
  | .event => eventStep s
  | .accept result => acceptStep s result
  | .submit woken => submitStep s woken
  | .count => countStep s
  | .thread i =>
    if (s.pool.running i).all (·.stage = .done) then s.poolDo (.thread i) else none
  | .wake i => s.poolDo (.wake i)
  | .taskRead i n => taskReadStep s i n
  | .task i => taskStep s i
  | .worker i => s.workersDo (.worker i)
  | .register i resources => s.workersDo (.register i resources)
  | .poll i events => if s.mayPoll i events then s.workersDo (.poll i events) else none
  | .read i n => readStep s i n

/-- Start-up with two workers and one pool thread. -/
def boot : List Act := List.replicate 12 (.startup true)

/-! ## What a step can do -/

/-- The steps one by one. The steps of the two pools stand as they are; what they can be is
said by the moves of the pools. -/
inductive Move (cpuCore : Int) (s : State) : Act → State → Prop where
  | startWorkers (ok : Bool) {workers : WorkerPool.State} (at_ : s.acceptor = .starting)
      (created : s.workers.startup = .create → ∃ code, s.pool.creator = .returned code)
      (step : WorkerPool.step s.workers (.startup ok) = some workers) :
      Move cpuCore s (.startup ok) { s with workers := workers }
  | create (ok : Bool) {pool : ThreadPool.State Closure Unit Job} (at_ : s.acceptor = .starting)
      (idle : s.pool.creator = .idle)
      (step : ThreadPool.step Job.start s.pool (.create cpuCore cpuCore defaultQueueSize) =
        some pool) :
      Move cpuCore s (.startup ok) { s with pool := pool }
  | creator (ok : Bool) {pool : ThreadPool.State Closure Unit Job} (at_ : s.acceptor = .starting)
      (step : ThreadPool.step Job.start s.pool (.creator ok) = some pool) :
      Move cpuCore s (.startup ok) { s with pool := pool }
  | listen (ok : Bool) (at_ : s.acceptor = .starting) (returned : s.workers.startup = .returned) :
      Move cpuCore s (.startup ok) { s with acceptor := .polling }
  | connect (port : Int) :
      Move cpuCore s (.connect port)
        { s with connections := s.connections ++ [.established port],
                 acceptQueue := s.acceptQueue ++ [s.connections.length], fresh := true }
  | peer (k : ℕ) (p : PeerAct) {c c' : Connection} (connection : s.connections[k]? = some c)
      (change : c.peer p = some c') :
      Move cpuCore s (.peer k p) { s with connections := s.connections.set k c' }
  | report (events : UInt32) (at_ : s.acceptor = .polling)
      (new : hasEvent events epollIn = true → s.fresh = true) :
      Move cpuCore s (.report events)
        { s with acceptor := .event events, fresh := s.fresh && !hasEvent events epollIn }
  | acceptEvent {events : UInt32} (at_ : s.acceptor = .event events)
      (epollin : hasEvent events epollIn = true) (room : s.connectedNum < serverMaxConnection) :
      Move cpuCore s .event { s with acceptor := .accepting }
  | abort {events : UInt32} (at_ : s.acceptor = .event events)
      (other : hasEvent events epollIn = true → serverMaxConnection ≤ s.connectedNum) :
      Move cpuCore s .event { s with acceptor := .aborted }
  | ignore {events : UInt32} (at_ : s.acceptor = .event events)
      (other : hasEvent events epollIn = true → serverMaxConnection ≤ s.connectedNum) :
      Move cpuCore s .event { s with acceptor := .polling }
  | accept {fd : Int} {k : ℕ} {rest : List ℕ} {c : Connection} (at_ : s.acceptor = .accepting)
      (queue : s.acceptQueue = k :: rest) (connection : s.connections[k]? = some c)
      (positive : 0 < fd) (new : s.isOpen fd = false) :
      Move cpuCore s (.accept (.descriptor fd))
        { s with connections := s.connections.set k { c with fd := some fd },
                 acceptQueue := rest, acceptor := .submitting (clientInfo fd c.port),
                 accepted := s.accepted ++ [fd] }
  | acceptZero {k : ℕ} {rest : List ℕ} {c : Connection} (at_ : s.acceptor = .accepting)
      (queue : s.acceptQueue = k :: rest) (connection : s.connections[k]? = some c)
      (new : s.isOpen 0 = false) :
      Move cpuCore s (.accept (.descriptor 0))
        { s with connections := s.connections.set k { c with fd := some 0 },
                 acceptQueue := rest, acceptor := .polling }
  | acceptFail (gone : Bool) (at_ : s.acceptor = .accepting) :
      Move cpuCore s (.accept (.failed gone))
        { s with acceptor := .polling,
                 acceptQueue := if gone then s.acceptQueue.tail else s.acceptQueue }
  | restart (woken : List ℕ) {info : ClientInfo} (at_ : s.acceptor = .submitting info)
      (stopped : s.workers.started = false) :
      Move cpuCore s (.submit woken) { s with acceptor := .restarting info }
  | submit (woken : List ℕ) {info : ClientInfo} {pool : ThreadPool.State Closure Unit Job}
      (at_ : s.acceptor = .submitting info) (started : s.workers.started = true)
      (step : ThreadPool.step Job.start s.pool (.submit none (some ⟨info, true⟩) woken) =
        some pool) :
      Move cpuCore s (.submit woken)
        { s with pool := pool, acceptor := .counting,
                 submitted := s.submitted ++ [info.eplev.fd] }
  | count (at_ : s.acceptor = .counting) :
      Move cpuCore s .count
        { s with connectedNum := (s.connectedNum + 1) % 2 ^ 32, acceptor := .polling }
  | thread (i : ℕ) {pool : ThreadPool.State Closure Unit Job}
      (outside : ∀ job, s.pool.running i = some job → job.stage = .done)
      (step : ThreadPool.step Job.start s.pool (.thread i) = some pool) :
      Move cpuCore s (.thread i) { s with pool := pool }
  | wake (i : ℕ) {pool : ThreadPool.State Closure Unit Job}
      (step : ThreadPool.step Job.start s.pool (.wake i) = some pool) :
      Move cpuCore s (.wake i) { s with pool := pool }
  | taskRead (i : ℕ) (n : Int) {c : Closure} {k : Connection}
      {pool : ThreadPool.State Closure Unit Job} (job : s.pool.running i = some ⟨some c, .read⟩)
      (connection : s.connectionOf c.info.eplev.fd = some k) (read : k.mayRead n = true)
      (step : ThreadPool.step Job.start s.pool (.work i ⟨some c, .lock⟩) = some pool) :
      Move cpuCore s (.taskRead i n) ({ s with pool := pool }.consume c.info.eplev.fd n)
  | taskLock (i : ℕ) {c : Closure} {pool : ThreadPool.State Closure Unit Job}
      {workers : WorkerPool.State} (job : s.pool.running i = some ⟨some c, .lock⟩)
      (lock : WorkerPool.step s.workers (.taskLock i) = some workers)
      (step : ThreadPool.step Job.start s.pool (.work i ⟨some c, .emplace⟩) = some pool) :
      Move cpuCore s (.task i) { s with pool := pool, workers := workers }
  | taskEmplace (i : ℕ) {c : Closure} {pool : ThreadPool.State Closure Unit Job}
      {workers : WorkerPool.State} (job : s.pool.running i = some ⟨some c, .emplace⟩)
      (emplace : WorkerPool.step s.workers (.taskEmplace i c.info) = some workers)
      (step : ThreadPool.step Job.start s.pool (.work i ⟨some c, .unlock⟩) = some pool) :
      Move cpuCore s (.task i) { s with pool := pool, workers := workers }
  | taskUnlock (i : ℕ) {c : Closure} {pool : ThreadPool.State Closure Unit Job}
      {workers : WorkerPool.State} (job : s.pool.running i = some ⟨some c, .unlock⟩)
      (unlock : WorkerPool.step s.workers (.taskUnlock i) = some workers)
      (step : ThreadPool.step Job.start s.pool (.work i ⟨some c, .done⟩) = some pool) :
      Move cpuCore s (.task i) { s with pool := pool, workers := workers }
  | worker (i : ℕ) {workers : WorkerPool.State}
      (step : WorkerPool.step s.workers (.worker i) = some workers) :
      Move cpuCore s (.worker i) { s with workers := workers }
  | register (i : ℕ) (resources : Bool) {workers : WorkerPool.State}
      (step : WorkerPool.step s.workers (.register i resources) = some workers) :
      Move cpuCore s (.register i resources) { s with workers := workers }
  | poll (i : ℕ) (events : List EpollEvent) {workers : WorkerPool.State}
      (may : s.mayPoll i events = true)
      (step : WorkerPool.step s.workers (.poll i events) = some workers) :
      Move cpuCore s (.poll i events) { s with workers := workers }
  | read (i : ℕ) (n : Int) {w : WorkerPool.Worker} {event : EpollEvent} {rest : List EpollEvent}
      {k : Connection} {workers : WorkerPool.State} (worker : s.workers.workers[i]? = some w)
      (pc : w.pc = .reading event rest) (connection : s.connectionOf event.fd = some k)
      (read : k.mayRead n = true) (step : WorkerPool.step s.workers (.read i n) = some workers) :
      Move cpuCore s (.read i n) ({ s with workers := workers }.consume event.fd n)

variable {cpuCore : Int} {s s' : State} {a : Act}

theorem poolDo_eq {b : ThreadPool.Act Closure Unit Job} (h : s.poolDo b = some s') :
    ∃ pool, ThreadPool.step Job.start s.pool b = some pool ∧ s' = { s with pool := pool } := by
  obtain ⟨pool, hp, rfl⟩ := Option.map_eq_some_iff.mp h
  exact ⟨pool, hp, rfl⟩

theorem workersDo_eq {b : WorkerPool.Act} (h : s.workersDo b = some s') :
    ∃ workers, WorkerPool.step s.workers b = some workers ∧
      s' = { s with workers := workers } := by
  obtain ⟨workers, hw, rfl⟩ := Option.map_eq_some_iff.mp h
  exact ⟨workers, hw, rfl⟩

theorem Move.of_startupStep {ok : Bool} (h : startupStep cpuCore s ok = some s') :
    Move cpuCore s (.startup ok) s' := by
  unfold startupStep at h
  split at h <;> rename_i at_
  · split at h
    · rename_i returned
      obtain rfl := Option.some.inj h
      exact .listen ok at_ returned
    · split at h
      · rename_i idle
        obtain ⟨pool, step, rfl⟩ := poolDo_eq h
        exact .create ok at_ idle step
      · rename_i code returned
        obtain ⟨workers, step, rfl⟩ := workersDo_eq h
        exact .startWorkers ok at_ (fun _ => ⟨code, returned⟩) step
      · obtain ⟨pool, step, rfl⟩ := poolDo_eq h
        exact .creator ok at_ step
    · rename_i other
      obtain ⟨workers, step, rfl⟩ := workersDo_eq h
      exact .startWorkers ok at_ (fun create => absurd create other) step
  · cases h

theorem Move.of_reportStep {events : UInt32} (h : reportStep s events = some s') :
    Move cpuCore s (.report events) s' := by
  unfold reportStep at h
  split at h
  · rename_i at_
    obtain ⟨new, h⟩ := Option.ite_none_right_eq_some.mp h
    obtain rfl := Option.some.inj h
    exact .report events at_ fun epollin => by simpa [epollin] using new
  · cases h

theorem Move.of_eventStep (h : eventStep s = some s') : Move cpuCore s .event s' := by
  unfold eventStep at h
  split at h
  · rename_i events at_
    split_ifs at h with guard hangup <;> obtain rfl := Option.some.inj h
    · obtain ⟨epollin, room⟩ := Bool.and_eq_true_iff.mp guard
      exact .acceptEvent at_ epollin (of_decide_eq_true room)
    · exact .abort at_ fun epollin => by simpa [epollin] using guard
    · exact .ignore at_ fun epollin => by simpa [epollin] using guard
  · cases h

theorem Move.of_acceptStep {result : AcceptResult} (h : acceptStep s result = some s') :
    Move cpuCore s (.accept result) s' := by
  unfold acceptStep at h
  split at h
  · rename_i fd k rest at_ queue
    split at h
    · rename_i c connection
      obtain ⟨⟨nonneg, new⟩, h⟩ := Option.ite_none_right_eq_some.mp h
      have new : s.isOpen fd = false := by simpa using new
      split_ifs at h with positive <;> obtain rfl := Option.some.inj h
      · exact .accept at_ queue connection positive new
      · obtain rfl : fd = 0 := by omega
        exact .acceptZero at_ queue connection new
    · cases h
  · rename_i gone at_
    obtain rfl := Option.some.inj h
    exact .acceptFail gone at_
  · cases h

theorem Move.of_submitStep {woken : List ℕ} (h : submitStep s woken = some s') :
    Move cpuCore s (.submit woken) s' := by
  unfold submitStep at h
  split at h
  · rename_i info at_
    cases started : s.workers.started with
    | false =>
      obtain rfl := Option.some.inj (by simpa [started] using h)
      exact .restart woken at_ started
    | true =>
      simp only [started, Bool.not_true, Bool.false_eq_true, if_false] at h
      obtain ⟨t, ht, rfl⟩ := Option.map_eq_some_iff.mp h
      obtain ⟨pool, step, rfl⟩ := poolDo_eq ht
      exact .submit woken at_ started step
  · cases h

theorem Move.of_taskReadStep {i : ℕ} {n : Int} (h : taskReadStep s i n = some s') :
    Move cpuCore s (.taskRead i n) s' := by
  unfold taskReadStep at h
  split at h
  · rename_i c job
    obtain ⟨may, h⟩ := Option.ite_none_right_eq_some.mp h
    obtain ⟨k, connection, read⟩ := (Option.any_eq_true _ _).mp may
    obtain ⟨t, ht, rfl⟩ := Option.map_eq_some_iff.mp h
    obtain ⟨pool, step, rfl⟩ := poolDo_eq ht
    exact .taskRead i n job connection read step
  · cases h

theorem Move.of_taskStep {i : ℕ} (h : taskStep s i = some s') : Move cpuCore s (.task i) s' := by
  unfold taskStep at h
  split at h <;> rename_i job
  · obtain ⟨t, ht, h⟩ := Option.bind_eq_some_iff.mp h
    obtain ⟨workers, lock, rfl⟩ := workersDo_eq ht
    obtain ⟨pool, step, rfl⟩ := poolDo_eq h
    exact .taskLock i job lock step
  · obtain ⟨t, ht, h⟩ := Option.bind_eq_some_iff.mp h
    obtain ⟨workers, emplace, rfl⟩ := workersDo_eq ht
    obtain ⟨pool, step, rfl⟩ := poolDo_eq h
    exact .taskEmplace i job emplace step
  · obtain ⟨t, ht, h⟩ := Option.bind_eq_some_iff.mp h
    obtain ⟨workers, unlock, rfl⟩ := workersDo_eq ht
    obtain ⟨pool, step, rfl⟩ := poolDo_eq h
    exact .taskUnlock i job unlock step
  · cases h

theorem Move.of_readStep {i : ℕ} {n : Int} (h : readStep s i n = some s') :
    Move cpuCore s (.read i n) s' := by
  unfold readStep at h
  split at h
  · rename_i event rest at_
    obtain ⟨w, worker, pc⟩ := Option.map_eq_some_iff.mp at_
    obtain ⟨may, h⟩ := Option.ite_none_right_eq_some.mp h
    obtain ⟨k, connection, read⟩ := (Option.any_eq_true _ _).mp may
    obtain ⟨t, ht, rfl⟩ := Option.map_eq_some_iff.mp h
    obtain ⟨workers, step, rfl⟩ := workersDo_eq ht
    exact .read i n worker pc connection read step
  · cases h

/-- Every step is one of the moves. -/
theorem Move.of_step (h : step cpuCore s a = some s') : Move cpuCore s a s' := by
  obtain ⟨-, h⟩ := Option.ite_none_left_eq_some.mp h
  cases a with
  | startup ok => exact .of_startupStep h
  | connect port =>
    obtain rfl := Option.some.inj h
    exact .connect port
  | peer k p =>
    obtain ⟨c', hc, rfl⟩ := Option.map_eq_some_iff.mp h
    obtain ⟨c, connection, change⟩ := Option.bind_eq_some_iff.mp hc
    exact .peer k p connection change
  | report events => exact .of_reportStep h
  | event => exact .of_eventStep h
  | accept result => exact .of_acceptStep h
  | submit woken => exact .of_submitStep h
  | count =>
    simp only [countStep] at h
    split at h
    · rename_i at_
      obtain rfl := Option.some.inj h
      exact .count at_
    · cases h
  | thread i =>
    obtain ⟨outside, h⟩ := Option.ite_none_right_eq_some.mp h
    obtain ⟨pool, step, rfl⟩ := poolDo_eq h
    exact .thread i (fun job hj => by simpa [hj] using outside) step
  | wake i =>
    obtain ⟨pool, step, rfl⟩ := poolDo_eq h
    exact .wake i step
  | taskRead i n => exact .of_taskReadStep h
  | task i => exact .of_taskStep h
  | worker i =>
    obtain ⟨workers, step, rfl⟩ := workersDo_eq h
    exact .worker i step
  | register i resources =>
    obtain ⟨workers, step, rfl⟩ := workersDo_eq h
    exact .register i resources step
  | poll i events =>
    obtain ⟨may, h⟩ := Option.ite_none_right_eq_some.mp h
    obtain ⟨workers, step, rfl⟩ := workersDo_eq h
    exact .poll i events may step
  | read i n => exact .of_readStep h

/-! ## A run of the server is a run of each pool -/

/-- What the server does with the thread pool: it is created once and never shut down. -/
theorem Move.pool (m : Move cpuCore s a s') :
    s'.pool = s.pool ∨ ∃ b, ThreadPool.step Job.start s.pool b = some s'.pool ∧
      (b.administers = false ∨
        s.pool.creator = .idle ∧ b = .create cpuCore cpuCore defaultQueueSize) := by
  cases m
  case create idle step => exact .inr ⟨_, step, .inr ⟨idle, rfl⟩⟩
  case creator step | submit step | thread step | wake step | taskRead step | taskLock step |
      taskEmplace step | taskUnlock step =>
    exact .inr ⟨_, step, .inl rfl⟩
  all_goals exact .inl rfl

theorem Move.workers (m : Move cpuCore s a s') :
    s'.workers = s.workers ∨ ∃ b, WorkerPool.step s.workers b = some s'.workers := by
  cases m
  case startWorkers step | taskLock step _ | taskEmplace step _ | taskUnlock step _ |
      worker step | register step | poll step | read step =>
    exact .inr ⟨_, step⟩
  all_goals exact .inl rfl

variable {n : ℕ} {as : List Act}

theorem pool_run (h : run (step cpuCore) (.listening n) as = some s) :
    ∃ bs, run (ThreadPool.step Job.start) .constructed bs = some s.pool := by
  have forward : ∀ (s : State) a s' pool, s.pool = pool → step cpuCore s a = some s' →
      ∃ bs pool', run (ThreadPool.step Job.start) pool bs = some pool' ∧ s'.pool = pool' := by
    rintro s a s' _ rfl hs
    rcases (Move.of_step hs).pool with same | ⟨b, hb, -⟩
    · exact ⟨[], s.pool, rfl, same⟩
    · exact ⟨[b], s'.pool, by simp [run_cons, hb], rfl⟩
  have start : (State.listening n).pool = .constructed := rfl
  obtain ⟨bs, pool, hrun, rfl⟩ := run_simulation forward start h
  exact ⟨bs, hrun⟩

theorem workers_run (h : run (step cpuCore) (.listening n) as = some s) :
    ∃ bs, run WorkerPool.step (.constructed n) bs = some s.workers := by
  have forward : ∀ (s : State) a s' workers, s.workers = workers → step cpuCore s a = some s' →
      ∃ bs workers', run WorkerPool.step workers bs = some workers' ∧ s'.workers = workers' := by
    rintro s a s' _ rfl hs
    rcases (Move.of_step hs).workers with same | ⟨b, hb⟩
    · exact ⟨[], s.workers, rfl, same⟩
    · exact ⟨[b], s'.workers, by simp [run_cons, hb], rfl⟩
  have start : (State.listening n).workers = .constructed n := rfl
  obtain ⟨bs, workers, hrun, rfl⟩ := run_simulation forward start h
  exact ⟨bs, hrun⟩

end EpollServer.Server
