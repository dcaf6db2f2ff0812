import EpollServer.Server.Machine
import EpollServer.WorkerPool.Available

/-!
# The constructors of the server

`tcp_server::tcp_server` passes the number of threads asked for, a `uint32_t`, on to
`tcp_worker_pool::tcp_worker_pool`, which takes a `uint16_t` and hands `COERCE_IN` the bounds and
the request in another order than `thread_pool::create` does.
-/
namespace EpollServer.Server

open Library

/-- A `tcp_worker` as the loop of `tcp_worker_pool::tcp_worker_pool` leaves it. -/
structure TcpWorker where
  worker : WorkerPool.Worker
  name : String
  cpuAffinityId : ℕ

def TcpWorker.constructed (cpuCore i : ℕ) : TcpWorker where
  worker := .constructed
  name := "worker-thread-" ++ toString i
  cpuAffinityId := i % cpuCore

structure TcpWorkerPool where
  workerNum : Int
  workers : List TcpWorker

/-- `tcp_worker_pool::tcp_worker_pool`. -/
def TcpWorkerPool.constructed (cpuCore : ℕ) (workerNum : UInt16) : TcpWorkerPool :=
  let workerNum := coerceIn cpuCore workerNum.toNat (cpuCore * 12)
  { workerNum := workerNum
    workers := (List.range workerNum.toNat).map (.constructed cpuCore) }

structure TcpServer where
  port : UInt16
  host : String
  serverSockfd : Int
  connectedNum : UInt32
  workerPool : TcpWorkerPool

/-- `tcp_server::tcp_server`; the call of the pool's constructor converts `threadNum`. -/
def TcpServer.constructed (cpuCore : ℕ) (port : UInt16) (threadNum : UInt32)
    (host : String) : TcpServer where
  port := port
  host := host
  serverSockfd := -1
  connectedNum := 0
  workerPool := .constructed cpuCore threadNum.toUInt16

/-- The server with the default arguments of its constructor. -/
def TcpServer.default (cpuCore : ℕ) (port : UInt16) : TcpServer :=
  .constructed cpuCore port (.ofNat cpuCore) "0.0.0.0"

/-- The state of a constructed server when `startup` comes to its worker pool. -/
def TcpServer.listening (server : TcpServer) : State := .listening server.workerPool.workers.length

/-! ## The number of workers -/

/-- The number in the range from `lo` to `hi` that is nearest to `x`. -/
def clamp (lo hi x : ℕ) : ℕ := max lo (min x hi)

theorem clamp_mem {lo hi : ℕ} (h : lo ≤ hi) (x : ℕ) : lo ≤ clamp lo hi x ∧ clamp lo hi x ≤ hi :=
  ⟨le_max_left _ _, max_le h (min_le_right _ _)⟩

theorem clamp_mono (lo hi : ℕ) : Monotone (clamp lo hi) := by
  intro x y h
  exact max_le_max le_rfl (min_le_min_right hi h)

/-- With its arguments in their order the macro clamps, as in `thread_pool::create`. -/
theorem coerceIn_eq_clamp {lo hi : ℕ} (h : lo ≤ hi) (x : ℕ) : coerceIn x lo hi = clamp lo hi x := by
  unfold coerceIn clamp
  split_ifs <;> omega

/-- With the lower bound in the place of the request it only raises the request to that bound. -/
theorem coerceIn_swapped {lo hi : ℕ} (h : lo ≤ hi) (x : ℕ) : coerceIn lo x hi = max lo x := by
  unfold coerceIn
  split_ifs <;> omega

variable {cpuCore : ℕ}

theorem workerNum_constructed (cpuCore : ℕ) (workerNum : UInt16) :
    (TcpWorkerPool.constructed cpuCore workerNum).workerNum = max cpuCore workerNum.toNat := by
  have raised := coerceIn_swapped (show cpuCore ≤ cpuCore * 12 by omega) workerNum.toNat
  simpa [TcpWorkerPool.constructed] using raised

/-- The loop of the constructor makes `worker_num_` workers. -/
theorem length_workers_constructed (cpuCore : ℕ) (workerNum : UInt16) :
    ((TcpWorkerPool.constructed cpuCore workerNum).workers.length : Int) =
      (TcpWorkerPool.constructed cpuCore workerNum).workerNum := by
  have num := workerNum_constructed cpuCore workerNum
  have length : (TcpWorkerPool.constructed cpuCore workerNum).workers.length =
      (TcpWorkerPool.constructed cpuCore workerNum).workerNum.toNat := by
    simp [TcpWorkerPool.constructed]
  omega

/-- Worker `i` gets the name and the CPU of its index. -/
theorem getElem?_workers_constructed {workerNum : UInt16} {i : ℕ} {w : TcpWorker}
    (h : (TcpWorkerPool.constructed cpuCore workerNum).workers[i]? = some w) :
    w = .constructed cpuCore i := by
  simp only [TcpWorkerPool.constructed, List.getElem?_map] at h
  obtain ⟨j, hj, rfl⟩ := Option.map_eq_some_iff.mp h
  obtain ⟨-, rfl⟩ := List.getElem?_eq_some_iff.mp hj
  simp

/-- The number of workers, without the macro. -/
theorem length_workers_eq (cpuCore : ℕ) (port : UInt16) (threadNum : UInt32) (host : String) :
    (TcpServer.constructed cpuCore port threadNum host).workerPool.workers.length =
      max cpuCore (threadNum.toNat % 2 ^ 16) := by
  have length := length_workers_constructed cpuCore threadNum.toUInt16
  have num := workerNum_constructed cpuCore threadNum.toUInt16
  rw [UInt32.toNat_toUInt16] at num
  simp only [TcpServer.constructed]
  omega

/-- The default number of threads gives one worker for each CPU. -/
theorem length_workers_default (small : cpuCore ≤ 65535) (port : UInt16) :
    (TcpServer.default cpuCore port).workerPool.workers.length = cpuCore := by
  have exact_ : (UInt32.ofNat cpuCore).toNat = cpuCore := by
    rw [UInt32.toNat_ofNat']
    omega
  rw [TcpServer.default, length_workers_eq, exact_]
  omega

/-- The server has the number of workers asked for, brought into the range from `CPU_CORE` to
`12 * CPU_CORE`, if and only if at most the upper bound was asked for, or a number whose
lower 16 bits are the upper bound. -/
theorem length_workers_eq_clamp_iff (positive : 1 ≤ cpuCore) (small : 12 * cpuCore ≤ 65535)
    (port : UInt16) (threadNum : UInt32) (host : String) :
    (TcpServer.constructed cpuCore port threadNum host).workerPool.workers.length =
        clamp cpuCore (12 * cpuCore) threadNum.toNat ↔
      threadNum.toNat ≤ 12 * cpuCore ∨ threadNum.toNat % 2 ^ 16 = 12 * cpuCore := by
  rw [length_workers_eq, clamp]
  rcases Nat.lt_or_ge (12 * cpuCore) threadNum.toNat with beyond | within
  · rw [min_eq_right beyond.le]
    omega
  · have narrow : threadNum.toNat % 2 ^ 16 = threadNum.toNat := Nat.mod_eq_of_lt (by omega)
    rw [min_eq_left within, narrow]
    simp [within]

/-- With four CPUs a hundred threads give a hundred workers, and a request for more than 2^16
wraps around to four. -/
theorem length_workers_ne_clamp :
    (TcpServer.constructed 4 8080 100 "0.0.0.0").workerPool.workers.length = 100 ∧
      clamp 4 (12 * 4) (100 : UInt32).toNat = 48 ∧
      (TcpServer.constructed 4 8080 65537 "0.0.0.0").workerPool.workers.length = 4 ∧
      clamp 4 (12 * 4) (65537 : UInt32).toNat = 48 := by
  rw [length_workers_eq, length_workers_eq]
  decide

theorem length_workers_eq_clamp_iff_eight :
    (TcpServer.constructed 4 8080 8 "0.0.0.0").workerPool.workers.length = 8 ↔
      (8 : UInt32).toNat ≤ 12 * 4 ∨ (8 : UInt32).toNat % 2 ^ 16 = 12 * 4 :=
  length_workers_eq_clamp_iff (by decide) (by decide) 8080 8 "0.0.0.0"

/-! ## The workers of a run -/

theorem listening_workers (cpuCore : ℕ) (port : UInt16) (threadNum : UInt32) (host : String) :
    (TcpServer.constructed cpuCore port threadNum host).listening.workers.workers =
      (TcpServer.constructed cpuCore port threadNum host).workerPool.workers.map (·.worker) := by
  refine List.ext_getElem ?_ fun i h₁ h₂ => ?_
  · simp [TcpServer.listening, State.listening, WorkerPool.State.constructed]
  · simp [TcpServer.listening, State.listening, WorkerPool.State.constructed,
      TcpServer.constructed, TcpWorkerPool.constructed, TcpWorker.constructed]

/-- A running server has the workers it was constructed with. -/
theorem length_workers_of_run {cores : Int} {server : TcpServer} {s : State} {as : List Act}
    (h : run (step cores) server.listening as = some s) :
    s.workers.workers.length = server.workerPool.workers.length := by
  refine run_invariant (I := fun s => s.workers.workers.length =
    server.workerPool.workers.length) ?_ ?_ h
  · simp [TcpServer.listening, State.listening, WorkerPool.State.constructed]
  · intro s a s' length hs
    rcases (Move.of_step hs).workers with same | ⟨b, hb⟩
    · rw [same]
      exact length
    · exact (WorkerPool.Move.of_step hb).length_workers.trans length

end EpollServer.Server
