import EpollServer.Cpp
import Mathlib.Data.Finset.Insert

/-!
# The thread pool: its object and the operations on it

The data members of `thread_pool`, its constructor, the assignments at the head of
`create`, `submit`, and the critical section of `thread_routine`. Each function is
given here as it runs alone; `ThreadPool.Machine` interleaves them.

A task's function and argument are values of arbitrary types; the empty
`std::function` and the null `shared_ptr` are `none`.
-/
namespace EpollServer.ThreadPool

def threadpoolLockFailure : Int := -2
def threadpoolQueueFull : Int := -3
def threadpoolShutdown : Int := -4

def maxThreads : Int := 1024
def maxQueue : Int := 65535

inductive ShutdownMode where
  | immediateShutdown
  | gracefulShutdown
  deriving DecidableEq, Repr

/-- `thread_pool_task`. -/
structure Task (Fn Arg : Type) where
  func : Option Fn
  args : Option Arg
  deriving DecidableEq, Repr

/-- A default-constructed or cleared slot of `work_queue`. -/
def Task.empty {Fn Arg : Type} : Task Fn Arg := ⟨none, none⟩

/-- The data members of `thread_pool`, without the thread handles, the mutex and the
condition variable, which belong to the machine. `thread_count_` and `started_num_` are
`atomic_int16_t`s; they count threads, and wrap around on no machine with less than `2 ^ 15` cores
(`counters_fit`). -/
structure Pool (Fn Arg : Type) where
  workQueue : List (Task Fn Arg)
  threadCount : Int
  queueSize : Int
  curr : Int
  tail : Int
  workCount : Int
  shutdown : Bool
  shutdownMode : ShutdownMode
  startedNum : Int
  mask : Finset ℕ
  deriving DecidableEq

variable {Fn Arg : Type}

/-- `thread_pool::thread_pool()`. -/
def Pool.constructed : Pool Fn Arg where
  workQueue := []
  threadCount := 0
  queueSize := 0
  curr := 0
  tail := 0
  workCount := 0
  shutdown := false
  shutdownMode := .gracefulShutdown
  startedNum := 0
  mask := ∅

/-- The CPUs that a `cpu_set_t` has a bit for. -/
def cpuSetsize : ℕ := 1024

/-- The macro `CPU_SET`; a CPU without a bit is left out. -/
def cpuSet (cpu : ℕ) (mask : Finset ℕ) : Finset ℕ :=
  if cpu < cpuSetsize then insert cpu mask else mask

/-- The number of threads that `create` starts. -/
def createdThreads (cpuCore threadCount : Int) : Int := coerceIn threadCount cpuCore maxThreads

/-- The assignments of `create` before its loop. -/
def Pool.create (p : Pool Fn Arg) (queueSize : Int) : Pool Fn Arg :=
  let size := coerceIn queueSize 1024 maxQueue
  { p with
    queueSize := size
    threadCount := 0
    workQueue := vectorResize p.workQueue size .empty
    curr := 0
    tail := 0
    workCount := 0
    startedNum := 0 }

/-- The return codes of the three pthread calls of `submit`. -/
structure SubmitCalls where
  mutexLock : Int
  condSignal : Int
  mutexUnlock : Int

def SubmitCalls.succeed : SubmitCalls := ⟨0, 0, 0⟩

/-- The code `submit` returns after its unlock. -/
def SubmitCalls.release (calls : SubmitCalls) (err : Int) : Int :=
  if calls.mutexUnlock ≠ 0 then threadpoolLockFailure else err

/-- The part of `submit` that writes the slot at `tail_`. -/
def Pool.enqueue (p : Pool Fn Arg) (task : Task Fn Arg) : Except Fault (Pool Fn Arg) := do
  let next ← cMod (p.tail + 1) p.queueSize
  let workQueue ← vectorSet p.workQueue p.tail task
  .ok { p with workQueue := workQueue, tail := next, workCount := p.workCount + 1 }

/-- `thread_pool::submit`: the pool after the call and the code returned. -/
def Pool.submit (p : Pool Fn Arg) (args : Option Arg) (func : Option Fn) (calls : SubmitCalls) :
    Except Fault (Pool Fn Arg × Int) :=
  if calls.mutexLock ≠ 0 then .ok (p, threadpoolLockFailure)
  else if p.workCount = p.queueSize then .ok (p, calls.release threadpoolQueueFull)
  else if p.shutdown then .ok (p, calls.release threadpoolShutdown)
  else do
    let q ← p.enqueue ⟨func, args⟩
    .ok (q, calls.release (if calls.condSignal ≠ 0 then threadpoolLockFailure else 0))

/-- What a worker does after its critical section: wait on `cond_`, leave the loop, or
run the task it took. -/
inductive Turn (Fn Arg : Type) where
  | wait
  | leave
  | work (task : Task Fn Arg)
  deriving DecidableEq

/-- The part of `thread_routine` that takes the task at `curr_` and clears its slot. -/
def Pool.dequeue (p : Pool Fn Arg) : Except Fault (Task Fn Arg × Pool Fn Arg) := do
  let task ← vectorAt p.workQueue p.curr
  let workQueue ← vectorSet p.workQueue p.curr .empty
  let curr ← cMod (p.curr + 1) p.queueSize
  .ok (task, { p with workQueue := workQueue, curr := curr, workCount := p.workCount - 1 })

/-- The critical section of `thread_routine`, from taking `lock_` (or getting it back
from `pthread_cond_wait`) to releasing it. -/
def Pool.takeTurn (p : Pool Fn Arg) : Except Fault (Pool Fn Arg × Turn Fn Arg) :=
  if !p.shutdown ∧ p.workCount = 0 then .ok (p, .wait)
  else if p.shutdown then
    -- Both modes leave in the same way; the queue is not drained in the graceful one.
    match p.shutdownMode with
    | .immediateShutdown => .ok ({ p with startedNum := p.startedNum - 1 }, .leave)
    | .gracefulShutdown => .ok ({ p with startedNum := p.startedNum - 1 }, .leave)
  else do
    let (task, q) ← p.dequeue
    .ok (q, .work task)

/-- With successful pthread calls `submit` refuses and changes nothing, or enqueues. -/
theorem Pool.submit_succeed (p : Pool Fn Arg) (args : Option Arg) (func : Option Fn) :
    p.submit args func .succeed =
      if p.workCount = p.queueSize then .ok (p, threadpoolQueueFull)
      else if p.shutdown then .ok (p, threadpoolShutdown)
      else (p.enqueue ⟨func, args⟩).map (·, 0) := by
  unfold submit
  rw [if_neg (by decide)]
  rfl

theorem Pool.enqueue_eq {p q : Pool Fn Arg} {task : Task Fn Arg} (h : p.enqueue task = .ok q) :
    ∃ workQueue tail,
      q = { p with workQueue := workQueue, tail := tail, workCount := p.workCount + 1 } := by
  unfold enqueue at h
  cases hn : cMod (p.tail + 1) p.queueSize with
  | error f => simp [hn, bind, Except.bind] at h
  | ok next =>
    cases hw : vectorSet p.workQueue p.tail task with
    | error f => simp [hn, hw, bind, Except.bind] at h
    | ok workQueue =>
      simp only [hn, hw, bind, Except.bind, Except.ok.injEq] at h
      exact ⟨workQueue, next, h.symm⟩

theorem Pool.dequeue_eq {p q : Pool Fn Arg} {task : Task Fn Arg} (h : p.dequeue = .ok (task, q)) :
    ∃ workQueue curr,
      q = { p with workQueue := workQueue, curr := curr, workCount := p.workCount - 1 } := by
  unfold dequeue at h
  cases ht : vectorAt p.workQueue p.curr with
  | error f => simp [ht, bind, Except.bind] at h
  | ok x =>
    cases hw : vectorSet p.workQueue p.curr .empty with
    | error f => simp [ht, hw, bind, Except.bind] at h
    | ok workQueue =>
      cases hc : cMod (p.curr + 1) p.queueSize with
      | error f => simp [ht, hw, hc, bind, Except.bind] at h
      | ok curr =>
        simp only [ht, hw, hc, bind, Except.bind, Except.ok.injEq, Prod.mk.injEq] at h
        exact ⟨workQueue, curr, h.2.symm⟩

/-- The ring after `enqueue` has the new task beside the old ones. -/
theorem Pool.mem_enqueue {p q : Pool Fn Arg} {task t : Task Fn Arg} (h : p.enqueue task = .ok q)
    (mem : t ∈ q.workQueue) : t ∈ p.workQueue ∨ t = task := by
  unfold enqueue at h
  cases hn : cMod (p.tail + 1) p.queueSize with
  | error f => simp [hn, bind, Except.bind] at h
  | ok next =>
    cases hw : vectorSet p.workQueue p.tail task with
    | error f => simp [hn, hw, bind, Except.bind] at h
    | ok workQueue =>
      simp only [hn, hw, bind, Except.bind, Except.ok.injEq] at h
      subst h
      exact mem_vectorSet hw mem

/-- `dequeue` gives a task of the ring and leaves the other ones. -/
theorem Pool.mem_dequeue {p q : Pool Fn Arg} {task : Task Fn Arg}
    (h : p.dequeue = .ok (task, q)) :
    task ∈ p.workQueue ∧ ∀ t ∈ q.workQueue, t ∈ p.workQueue ∨ t = .empty := by
  unfold dequeue at h
  cases ht : vectorAt p.workQueue p.curr with
  | error f => simp [ht, bind, Except.bind] at h
  | ok x =>
    cases hw : vectorSet p.workQueue p.curr .empty with
    | error f => simp [ht, hw, bind, Except.bind] at h
    | ok workQueue =>
      cases hc : cMod (p.curr + 1) p.queueSize with
      | error f => simp [ht, hw, hc, bind, Except.bind] at h
      | ok curr =>
        simp only [ht, hw, hc, bind, Except.bind, Except.ok.injEq, Prod.mk.injEq] at h
        obtain ⟨rfl, rfl⟩ := h
        exact ⟨mem_of_vectorAt ht, fun t mem => mem_vectorSet hw mem⟩

theorem Pool.enqueue_error {p : Pool Fn Arg} {task : Task Fn Arg} {f : Fault}
    (h : p.enqueue task = .error f) : f = .divideByZero ∨ f = .outOfRange := by
  unfold enqueue at h
  cases hn : cMod (p.tail + 1) p.queueSize with
  | error f' =>
    obtain rfl : f' = f := by simpa [hn, bind, Except.bind] using h
    exact .inl (cMod_error hn)
  | ok next =>
    cases hw : vectorSet p.workQueue p.tail task with
    | error f' =>
      obtain rfl : f' = f := by simpa [hn, hw, bind, Except.bind] using h
      exact .inr (vectorSet_error hw)
    | ok workQueue => simp [hn, hw, bind, Except.bind] at h

theorem Pool.dequeue_error {p : Pool Fn Arg} {f : Fault} (h : p.dequeue = .error f) :
    f = .divideByZero ∨ f = .outOfRange := by
  unfold dequeue at h
  cases ht : vectorAt p.workQueue p.curr with
  | error f' =>
    obtain rfl : f' = f := by simpa [ht, bind, Except.bind] using h
    exact .inr (vectorAt_error ht)
  | ok x =>
    cases hw : vectorSet p.workQueue p.curr .empty with
    | error f' =>
      obtain rfl : f' = f := by simpa [ht, hw, bind, Except.bind] using h
      exact .inr (vectorSet_error hw)
    | ok workQueue =>
      cases hc : cMod (p.curr + 1) p.queueSize with
      | error f' =>
        obtain rfl : f' = f := by simpa [ht, hw, hc, bind, Except.bind] using h
        exact .inl (cMod_error hc)
      | ok curr => simp [ht, hw, hc, bind, Except.bind] at h

/-- The three outcomes of a critical section. -/
theorem Pool.takeTurn_eq (p : Pool Fn Arg) :
    p.takeTurn =
      if p.shutdown then .ok ({ p with startedNum := p.startedNum - 1 }, .leave)
      else if p.workCount = 0 then .ok (p, .wait)
      else p.dequeue.map fun r => (r.2, .work r.1) := by
  unfold takeTurn
  cases p.shutdown with
  | true => cases p.shutdownMode <;> simp
  | false =>
    by_cases hw : p.workCount = 0
    · simp [hw]
    · cases p.dequeue <;> simp [hw, bind, Except.bind, Except.map]

/-- The part of `shutdown_interval` under `lock_`. -/
def Pool.raiseShutdown (p : Pool Fn Arg) (mode : ShutdownMode) : Pool Fn Arg :=
  { p with shutdownMode := mode, shutdown := true }

end EpollServer.ThreadPool
