import EpollServer.WorkerPool.Basic
import EpollServer.Library.Run
import EpollServer.Library.Tally

/-!
# The worker pool as a concurrent system

One thread runs `startup` once, each worker runs `worker_routine` once its thread is
started, and the pool threads put clients into `event_storage_`. Every access of the atomic
`avail_woker_num_` is one step, so are the test of `event_storage_` outside of the lock, and
each statement inside of it; `locker_` is a correct mutex. System calls take their result
from the action.

`disconnected` is history: the descriptors for which `handle_disconnect` was called.
-/
namespace EpollServer.WorkerPool

open Library

/-- Where the caller of `startup` is. -/
inductive Startup where
  | idle
  /-- In iteration `i` of the loop that starts the workers. -/
  | start (i : ℕ)
  /-- At `avail_woker_num_ = worker_num_`. -/
  | store
  /-- In `thread_pool::instance()->create(CPU_CORE)`. -/
  | create
  /-- At `started_ = true`. -/
  | setStarted
  | returned
  deriving DecidableEq, Repr

/-- Who holds `locker_`. -/
inductive Holder where
  | worker (i : ℕ)
  | task (j : ℕ)
  deriving DecidableEq, Repr

structure State where
  startup : Startup
  started : Bool
  avail : Int
  workers : List Worker
  eventStorage : List ClientInfo
  locker : Option Holder
  fault : Option Fault
  disconnected : List Int
  deriving DecidableEq

/-- A pool of `n` workers after its constructor. -/
def State.constructed (n : ℕ) : State where
  startup := .idle
  started := false
  avail := 0
  workers := List.replicate n .constructed
  eventStorage := []
  locker := none
  fault := none
  disconnected := []

/-- `worker_num_`, the size of `workers_`. -/
def State.workerNum (s : State) : Int := s.workers.length

inductive Act where
  /-- The next step of `startup`; `ok` is the outcome of `pthread_create`. -/
  | startup (ok : Bool)
  /-- The next step of worker `i`, where it makes no system call. -/
  | worker (i : ℕ)
  /-- Worker `i` registers its client; `resources` is the kernel's answer. -/
  | register (i : ℕ) (resources : Bool)
  /-- `epoll_wait` of worker `i` returns these events, none on a timeout or an error. -/
  | poll (i : ℕ) (events : List EpollEvent)
  /-- The `read` of worker `i` returns `n`. -/
  | read (i : ℕ) (n : Int)
  /-- The task that pool thread `j` runs locks `locker_`, puts its client into
  `event_storage_`, and unlocks. -/
  | taskLock (j : ℕ)
  | taskEmplace (j : ℕ) (info : ClientInfo)
  | taskUnlock (j : ℕ)
  deriving DecidableEq

def State.setWorker (s : State) (i : ℕ) (w : Worker) : State :=
  { s with workers := s.workers.set i w }

def State.raise (s : State) (f : Fault) : State := { s with fault := some f }

/-- Worker `i` goes to `pc`. -/
def State.goto (s : State) (i : ℕ) (w : Worker) (pc : Pc) : State :=
  s.setWorker i { w with pc := pc }

/-- `tcp_worker::start`; its own flag lets it act once. -/
def Worker.start (w : Worker) (ok : Bool) : Worker :=
  if w.pc = .unstarted ∧ ok then { w with pc := .top } else w

theorem Worker.pc_start (w : Worker) (ok : Bool) :
    (w.start ok).pc = w.pc ∨ w.pc = .unstarted ∧ (w.start ok).pc = .top := by
  unfold start
  split_ifs with h
  · exact .inr ⟨h.1, rfl⟩
  · exact .inl rfl

@[simp] theorem Worker.clientInfos_start (w : Worker) (ok : Bool) :
    (w.start ok).clientInfos = w.clientInfos := by
  unfold start
  split_ifs <;> rfl

@[simp] theorem Worker.poller_start (w : Worker) (ok : Bool) :
    (w.start ok).poller = w.poller := by
  unfold start
  split_ifs <;> rfl

def startupStep (s : State) (ok : Bool) : Option State :=
  match s.startup with
  | .idle => some { s with startup := .start 0 }
  | .start i =>
    match s.workers[i]? with
    | some w => some { s.setWorker i (w.start ok) with startup := .start (i + 1) }
    | none => some { s with startup := .store }
  | .store => some { s with avail := s.workerNum, startup := .create }
  | .create => some { s with startup := .setStarted }
  | .setStarted => some { s with started := true, startup := .returned }
  | .returned => none

/-- The steps of `worker_routine` without system calls. -/
def workerStep (s : State) (i : ℕ) (w : Worker) : Option State :=
  match w.pc with
  | .top => some (s.goto i w (if s.eventStorage.isEmpty then .decrement else .lock))
  | .lock =>
    if s.locker = none then some { s.goto i w .retest with locker := some (.worker i) } else none
  | .retest => some (s.goto i w (if s.eventStorage.isEmpty then .unlock else .pop))
  | .pop =>
    match s.eventStorage with
    | [] => some (s.raise .emptyQueue)
    | info :: rest => some { s.goto i w (.record info) with eventStorage := rest }
  | .record info => some (s.goto i (w.insert info) (.register info))
  | .unlock => some { s.goto i w .decrement with locker := none }
  | .decrement => some { s.goto i w .test with avail := s.avail - 1 }
  | .test =>
    some (s.goto i w (if s.avail > s.workerNum.tdiv 2 then .loadAvail else .loadDivisor))
  | .loadAvail => some (s.goto i w (.poll (pollTimeout s.avail)))
  | .loadDivisor =>
    match cMod s.workerNum s.avail with
    | .error f => some (s.raise f)
    | .ok wttme => some (s.goto i w (.poll (pollTimeout wttme)))
  | .handle [] => some (s.goto i w .increment)
  | .handle (event :: rest) =>
    some (s.goto i w
      (if hasEvent event.events epollIn then .reading event rest else .hangup event rest))
  | .hangup event rest =>
    if hasEvent event.events (epollHup ||| epollErr) then
      some { s.goto i (w.handleDisconnect event.fd) (.handle rest) with
             disconnected := s.disconnected ++ [event.fd] }
    else some (s.goto i w (.handle rest))
  | .increment => some { s.goto i w .top with avail := s.avail + 1 }
  | .unstarted | .register _ | .poll _ | .reading _ _ => none

def registerStep (s : State) (i : ℕ) (resources : Bool) (w : Worker) : Option State :=
  match w.pc with
  | .register info => some (s.goto i (w.addEvent info resources) .unlock)
  | _ => none

def pollStep (s : State) (i : ℕ) (events : List EpollEvent) (w : Worker) : Option State :=
  match w.pc with
  | .poll _ => some (s.goto i w (.handle events))
  | _ => none

/-- `handle_epollin` after its `read` returned `n`. The replies to the client leave the
state of the pool as it is. -/
def readStep (s : State) (i : ℕ) (n : Int) (w : Worker) : Option State :=
  match w.pc with
  | .reading event rest =>
    if n = 0 then
      some { s.goto i (w.handleDisconnect event.fd) (.hangup event rest) with
             disconnected := s.disconnected ++ [event.fd] }
    else some (s.goto i w (.hangup event rest))
  | _ => none

def step (s : State) (a : Act) : Option State :=
  if s.fault.isSome then none
  else match a with
  | .startup ok => startupStep s ok
  | .worker i => s.workers[i]?.bind (workerStep s i)
  | .register i resources => s.workers[i]?.bind (registerStep s i resources)
  | .poll i events => s.workers[i]?.bind (pollStep s i events)
  | .read i n => s.workers[i]?.bind (readStep s i n)
  | .taskLock j =>
    if s.locker = none then some { s with locker := some (.task j) } else none
  | .taskEmplace j info =>
    if s.locker = some (.task j) then some { s with eventStorage := s.eventStorage ++ [info] }
    else none
  | .taskUnlock j =>
    if s.locker = some (.task j) then some { s with locker := none } else none

/-! ## What a step can do -/

/-- The steps one by one, with what enables each of them and what it changes. -/
inductive Move (s : State) : Act → State → Prop where
  | enter (ok : Bool) (at_ : s.startup = .idle) :
      Move s (.startup ok) { s with startup := .start 0 }
  | startWorker (ok : Bool) {i : ℕ} {w : Worker} (at_ : s.startup = .start i)
      (worker : s.workers[i]? = some w) :
      Move s (.startup ok) { s.setWorker i (w.start ok) with startup := .start (i + 1) }
  | startedAll (ok : Bool) {i : ℕ} (at_ : s.startup = .start i) (last : s.workers[i]? = none) :
      Move s (.startup ok) { s with startup := .store }
  | store (ok : Bool) (at_ : s.startup = .store) :
      Move s (.startup ok) { s with avail := s.workerNum, startup := .create }
  | create (ok : Bool) (at_ : s.startup = .create) :
      Move s (.startup ok) { s with startup := .setStarted }
  | setStarted (ok : Bool) (at_ : s.startup = .setStarted) :
      Move s (.startup ok) { s with started := true, startup := .returned }
  | skip (i : ℕ) {w : Worker} (worker : s.workers[i]? = some w) (pc : w.pc = .top)
      (empty : s.eventStorage = []) : Move s (.worker i) (s.goto i w .decrement)
  | see (i : ℕ) {w : Worker} (worker : s.workers[i]? = some w) (pc : w.pc = .top)
      (nonempty : s.eventStorage ≠ []) : Move s (.worker i) (s.goto i w .lock)
  | lock (i : ℕ) {w : Worker} (worker : s.workers[i]? = some w) (pc : w.pc = .lock)
      (free : s.locker = none) :
      Move s (.worker i) { s.goto i w .retest with locker := some (.worker i) }
  | miss (i : ℕ) {w : Worker} (worker : s.workers[i]? = some w) (pc : w.pc = .retest)
      (empty : s.eventStorage = []) : Move s (.worker i) (s.goto i w .unlock)
  | seeAgain (i : ℕ) {w : Worker} (worker : s.workers[i]? = some w) (pc : w.pc = .retest)
      (nonempty : s.eventStorage ≠ []) : Move s (.worker i) (s.goto i w .pop)
  | popEmpty (i : ℕ) {w : Worker} (worker : s.workers[i]? = some w) (pc : w.pc = .pop)
      (empty : s.eventStorage = []) : Move s (.worker i) (s.raise .emptyQueue)
  | pop (i : ℕ) {w : Worker} {info : ClientInfo} {rest : List ClientInfo}
      (worker : s.workers[i]? = some w) (pc : w.pc = .pop)
      (front : s.eventStorage = info :: rest) :
      Move s (.worker i) { s.goto i w (.record info) with eventStorage := rest }
  | record (i : ℕ) {w : Worker} {info : ClientInfo} (worker : s.workers[i]? = some w)
      (pc : w.pc = .record info) :
      Move s (.worker i) (s.goto i (w.insert info) (.register info))
  | register (i : ℕ) (resources : Bool) {w : Worker} {info : ClientInfo}
      (worker : s.workers[i]? = some w) (pc : w.pc = .register info) :
      Move s (.register i resources) (s.goto i (w.addEvent info resources) .unlock)
  | unlock (i : ℕ) {w : Worker} (worker : s.workers[i]? = some w) (pc : w.pc = .unlock) :
      Move s (.worker i) { s.goto i w .decrement with locker := none }
  | decrement (i : ℕ) {w : Worker} (worker : s.workers[i]? = some w) (pc : w.pc = .decrement) :
      Move s (.worker i) { s.goto i w .test with avail := s.avail - 1 }
  | testHigh (i : ℕ) {w : Worker} (worker : s.workers[i]? = some w) (pc : w.pc = .test)
      (high : s.workerNum.tdiv 2 < s.avail) : Move s (.worker i) (s.goto i w .loadAvail)
  | testLow (i : ℕ) {w : Worker} (worker : s.workers[i]? = some w) (pc : w.pc = .test)
      (low : s.avail ≤ s.workerNum.tdiv 2) : Move s (.worker i) (s.goto i w .loadDivisor)
  | loadAvail (i : ℕ) {w : Worker} (worker : s.workers[i]? = some w) (pc : w.pc = .loadAvail) :
      Move s (.worker i) (s.goto i w (.poll (pollTimeout s.avail)))
  | divideByZero (i : ℕ) {w : Worker} (worker : s.workers[i]? = some w)
      (pc : w.pc = .loadDivisor) (zero : s.avail = 0) :
      Move s (.worker i) (s.raise .divideByZero)
  | divide (i : ℕ) {w : Worker} (worker : s.workers[i]? = some w) (pc : w.pc = .loadDivisor)
      (nonzero : s.avail ≠ 0) :
      Move s (.worker i) (s.goto i w (.poll (pollTimeout (s.workerNum.tmod s.avail))))
  | poll (i : ℕ) (events : List EpollEvent) {w : Worker} {wttme : Int}
      (worker : s.workers[i]? = some w) (pc : w.pc = .poll wttme) :
      Move s (.poll i events) (s.goto i w (.handle events))
  | handled (i : ℕ) {w : Worker} (worker : s.workers[i]? = some w) (pc : w.pc = .handle []) :
      Move s (.worker i) (s.goto i w .increment)
  | handleIn (i : ℕ) {w : Worker} {event : EpollEvent} {rest : List EpollEvent}
      (worker : s.workers[i]? = some w) (pc : w.pc = .handle (event :: rest))
      (epollin : hasEvent event.events epollIn = true) :
      Move s (.worker i) (s.goto i w (.reading event rest))
  | handleOther (i : ℕ) {w : Worker} {event : EpollEvent} {rest : List EpollEvent}
      (worker : s.workers[i]? = some w) (pc : w.pc = .handle (event :: rest))
      (other : hasEvent event.events epollIn = false) :
      Move s (.worker i) (s.goto i w (.hangup event rest))
  | readEnd (i : ℕ) {w : Worker} {event : EpollEvent} {rest : List EpollEvent}
      (worker : s.workers[i]? = some w) (pc : w.pc = .reading event rest) :
      Move s (.read i 0)
        { s.goto i (w.handleDisconnect event.fd) (.hangup event rest) with
          disconnected := s.disconnected ++ [event.fd] }
  | read (i : ℕ) (n : Int) {w : Worker} {event : EpollEvent} {rest : List EpollEvent}
      (worker : s.workers[i]? = some w) (pc : w.pc = .reading event rest) (more : n ≠ 0) :
      Move s (.read i n) (s.goto i w (.hangup event rest))
  | hangup (i : ℕ) {w : Worker} {event : EpollEvent} {rest : List EpollEvent}
      (worker : s.workers[i]? = some w) (pc : w.pc = .hangup event rest)
      (up : hasEvent event.events (epollHup ||| epollErr) = true) :
      Move s (.worker i)
        { s.goto i (w.handleDisconnect event.fd) (.handle rest) with
          disconnected := s.disconnected ++ [event.fd] }
  | noHangup (i : ℕ) {w : Worker} {event : EpollEvent} {rest : List EpollEvent}
      (worker : s.workers[i]? = some w) (pc : w.pc = .hangup event rest)
      (up : hasEvent event.events (epollHup ||| epollErr) = false) :
      Move s (.worker i) (s.goto i w (.handle rest))
  | increment (i : ℕ) {w : Worker} (worker : s.workers[i]? = some w) (pc : w.pc = .increment) :
      Move s (.worker i) { s.goto i w .top with avail := s.avail + 1 }
  | taskLock (j : ℕ) (free : s.locker = none) :
      Move s (.taskLock j) { s with locker := some (.task j) }
  | taskEmplace (j : ℕ) (info : ClientInfo) (held : s.locker = some (.task j)) :
      Move s (.taskEmplace j info) { s with eventStorage := s.eventStorage ++ [info] }
  | taskUnlock (j : ℕ) (held : s.locker = some (.task j)) :
      Move s (.taskUnlock j) { s with locker := none }

variable {s s' : State} {a : Act}

theorem Move.of_startupStep {ok : Bool} (h : startupStep s ok = some s') :
    Move s (.startup ok) s' := by
  unfold startupStep at h
  split at h
  · obtain rfl := Option.some.inj h
    exact .enter ok ‹_›
  · split at h <;> obtain rfl := Option.some.inj h
    · exact .startWorker ok ‹_› ‹_›
    · exact .startedAll ok ‹_› ‹_›
  · obtain rfl := Option.some.inj h
    exact .store ok ‹_›
  · obtain rfl := Option.some.inj h
    exact .create ok ‹_›
  · obtain rfl := Option.some.inj h
    exact .setStarted ok ‹_›
  · cases h

theorem Move.of_workerStep {i : ℕ} {w : Worker} (worker : s.workers[i]? = some w)
    (h : workerStep s i w = some s') : Move s (.worker i) s' := by
  unfold workerStep at h
  split at h <;> rename_i pc
  · obtain rfl := Option.some.inj h
    by_cases empty : s.eventStorage = []
    · simpa [empty] using Move.skip i worker pc empty
    · simpa [empty] using Move.see i worker pc empty
  · obtain ⟨free, h⟩ := Option.ite_none_right_eq_some.mp h
    obtain rfl := Option.some.inj h
    exact .lock i worker pc free
  · obtain rfl := Option.some.inj h
    by_cases empty : s.eventStorage = []
    · simpa [empty] using Move.miss i worker pc empty
    · simpa [empty] using Move.seeAgain i worker pc empty
  · split at h <;> obtain rfl := Option.some.inj h
    · exact .popEmpty i worker pc ‹_›
    · exact .pop i worker pc ‹_›
  · obtain rfl := Option.some.inj h
    exact .record i worker pc
  · obtain rfl := Option.some.inj h
    exact .unlock i worker pc
  · obtain rfl := Option.some.inj h
    exact .decrement i worker pc
  · obtain rfl := Option.some.inj h
    by_cases high : s.workerNum.tdiv 2 < s.avail
    · simpa [high] using Move.testHigh i worker pc high
    · simpa [high] using Move.testLow i worker pc (by omega)
  · obtain rfl := Option.some.inj h
    exact .loadAvail i worker pc
  · by_cases zero : s.avail = 0
    · obtain rfl : s.raise .divideByZero = s' := by simpa [cMod, zero] using h
      exact .divideByZero i worker pc zero
    · simp only [cMod, zero, if_false, Option.some.injEq] at h
      subst h
      exact .divide i worker pc zero
  · obtain rfl := Option.some.inj h
    exact .handled i worker pc
  · rename_i event rest
    obtain rfl := Option.some.inj h
    cases epollin : hasEvent event.events epollIn with
    | true => exact .handleIn i worker pc epollin
    | false => exact .handleOther i worker pc epollin
  · rename_i event rest
    cases up : hasEvent event.events (epollHup ||| epollErr) with
    | true =>
      simp only [up, if_true, Option.some.injEq] at h
      subst h
      exact .hangup i worker pc up
    | false =>
      simp only [up, Bool.false_eq_true, if_false, Option.some.injEq] at h
      subst h
      exact .noHangup i worker pc up
  · obtain rfl := Option.some.inj h
    exact .increment i worker pc
  all_goals cases h

/-- Every step is one of the moves. -/
theorem Move.of_step (h : step s a = some s') : Move s a s' := by
  obtain ⟨-, h⟩ := Option.ite_none_left_eq_some.mp h
  cases a with
  | startup ok => exact .of_startupStep h
  | worker i =>
    obtain ⟨w, worker, h⟩ := Option.bind_eq_some_iff.mp h
    exact .of_workerStep worker h
  | register i resources =>
    obtain ⟨w, worker, h⟩ := Option.bind_eq_some_iff.mp h
    unfold registerStep at h
    split at h
    · rename_i pc
      obtain rfl := Option.some.inj h
      exact .register i resources worker pc
    · cases h
  | poll i events =>
    obtain ⟨w, worker, h⟩ := Option.bind_eq_some_iff.mp h
    unfold pollStep at h
    split at h
    · rename_i pc
      obtain rfl := Option.some.inj h
      exact .poll i events worker pc
    · cases h
  | read i n =>
    obtain ⟨w, worker, h⟩ := Option.bind_eq_some_iff.mp h
    unfold readStep at h
    split at h
    · rename_i pc
      split_ifs at h with zero <;> obtain rfl := Option.some.inj h
      · subst zero
        exact .readEnd i worker pc
      · exact .read i n worker pc zero
    · cases h
  | taskLock j =>
    obtain ⟨free, h⟩ := Option.ite_none_right_eq_some.mp h
    obtain rfl := Option.some.inj h
    exact .taskLock j free
  | taskEmplace j info =>
    obtain ⟨held, h⟩ := Option.ite_none_right_eq_some.mp h
    obtain rfl := Option.some.inj h
    exact .taskEmplace j info held
  | taskUnlock j =>
    obtain ⟨held, h⟩ := Option.ite_none_right_eq_some.mp h
    obtain rfl := Option.some.inj h
    exact .taskUnlock j held

end EpollServer.WorkerPool
