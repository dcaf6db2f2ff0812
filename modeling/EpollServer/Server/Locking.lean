import EpollServer.Server.Faults
import EpollServer.WorkerPool.Locking

/-!
# Who holds `locker_`, and for how long

`locker_` is taken by a task before it puts its client into `event_storage_`, and by a worker that
found the storage not empty. Neither waits for anything while it holds the lock: from each place of
both critical sections the next step of the thread is possible, and at most five of its own steps
later the lock is free again, however the other threads run in between.
-/
namespace EpollServer.Server

open Library
open WorkerPool (Holder)

/-- How many steps of its own a task takes at most until it unlocks `locker_`. -/
def Job.remaining : Job → ℕ
  | ⟨some _, .emplace⟩ => 2
  | ⟨some _, .unlock⟩ => 1
  | ⟨some _, .read⟩ | ⟨some _, .lock⟩ | ⟨some _, .done⟩ | ⟨none, _⟩ => 0

/-- The same for all threads; it is zero outside of the critical sections. -/
def State.remaining (s : State) : Holder → ℕ :=
  s.workers.remaining fun j => (s.pool.running j).elim 0 Job.remaining

/-- The thread that takes the step. -/
def Act.isOf : Act → Holder → Bool
  | .worker i, k | .register i _, k | .poll i _, k | .read i _, k => k == .worker i
  | .thread j, k | .taskRead j _, k | .task j, k => k == .task j
  | .startup _, _ | .connect _, _ | .peer _ _, _ | .report _, _ | .event, _ | .accept _, _
  | .submit _, _ | .count, _ | .wake _, _ => false

variable {cpuCore : Int} {s s' : State} {act : Act} {n : ℕ} {as bs : List Act} {k : Holder}

theorem remaining_update {j : ℕ} {job : Option Job}
    (runs : s'.pool.running = Function.update s.pool.running j job)
    (workers : s'.workers.workers = s.workers.workers) :
    s'.remaining = Function.update s.remaining (.task j) (job.elim 0 Job.remaining) := by
  funext k
  cases k with
  | worker i => simp [State.remaining, WorkerPool.State.remaining, workers]
  | task i =>
    by_cases same : i = j
    · subst same
      simp [State.remaining, WorkerPool.State.remaining, runs]
    · simp [State.remaining, WorkerPool.State.remaining, runs, same]

theorem remaining_task {j : ℕ} {job : Job} (runs : s.pool.running j = some job) :
    s.remaining (.task j) = job.remaining := by
  simp [State.remaining, WorkerPool.State.remaining, runs]

/-- A step that neither moves a worker nor starts, ends or advances a task. -/
theorem remaining_same (workers : s'.workers = s.workers)
    (running : s'.pool.running = s.pool.running) : s'.remaining = s.remaining := by
  rw [State.remaining, State.remaining, workers, running]

/-- A step of the worker pool. -/
theorem Locks.of_workers {own : Holder → Bool} (guarded : WorkerPool.Guarded s.workers)
    {b : WorkerPool.Act} (step : WorkerPool.step s.workers b = some s'.workers)
    (pool : s'.pool = s.pool) (own_eq : own = b.isOf)
    (alone : ∀ j, b ≠ .taskLock j ∧ (∀ info, b ≠ .taskEmplace j info) ∧ b ≠ .taskUnlock j) :
    Locks own s.workers.locker s'.workers.locker s.remaining s'.remaining := by
  have locks := (WorkerPool.Move.of_step step).locks guarded alone
    fun j => (s.pool.running j).elim 0 Job.remaining
  rw [own_eq, State.remaining, State.remaining, pool]
  exact locks

/-- The steps of a task, each of which also is one of the worker pool. -/
theorem Locks.of_task {b : WorkerPool.Act} {j : ℕ} {c : Closure} {before after : Stage}
    (runs : s.pool.running j = some ⟨some c, before⟩)
    (step : WorkerPool.step s.workers b = some s'.workers)
    (work : ThreadPool.step Job.start s.pool (.work j ⟨some c, after⟩) = some s'.pool)
    (which : b = .taskLock j ∧ after = .emplace ∨
      (∃ info, b = .taskEmplace j info) ∧ before = .emplace ∧ after = .unlock ∨
      b = .taskUnlock j ∧ after = .done) :
    Locks (· == .task j) s.workers.locker s'.workers.locker s.remaining s'.remaining := by
  have m := WorkerPool.Move.of_step step
  have update := (work_eq work).2
  have left := remaining_task runs
  generalize workers : s'.workers = w at m
  rcases which with ⟨rfl, rfl⟩ | ⟨⟨info, rfl⟩, rfl, rfl⟩ | ⟨rfl, rfl⟩ <;> cases m
  case taskLock free =>
    exact .take (.task j) 2 free rfl (by decide) (remaining_update update (by rw [workers]))
  case taskEmplace held =>
    refine .go (.task j) 1 rfl (by decide) ?_ (remaining_update update (by rw [workers]))
    rw [left]
    exact Nat.one_lt_two
  case taskUnlock held =>
    exact .release (.task j) held rfl (remaining_update update (by rw [workers]))

/-- The thread pool takes a step by which no task enters or leaves its critical section. -/
theorem Locks.of_pool {j : ℕ} {job : Option Job} (idle : s.remaining (.task j) = 0)
    (runs : s'.pool.running = Function.update s.pool.running j job)
    (outside : job.elim 0 Job.remaining = 0) (workers : s'.workers = s.workers) :
    Locks (· == .task j) s.workers.locker s'.workers.locker s.remaining s'.remaining := by
  apply Locks.other
  · rw [workers]
  · rw [remaining_update runs (by rw [workers]), outside, ← idle, Function.update_eq_self]
  · intro k mine
    rw [eq_of_beq mine, idle]

/-- The step of no thread that takes `locker_`. -/
theorem Locks.of_other {own : Holder → Bool} (workers : s'.workers = s.workers)
    (running : s'.pool.running = s.pool.running)
    (outside : ∀ k, own k = true → s.remaining k = 0) :
    Locks own s.workers.locker s'.workers.locker s.remaining s'.remaining :=
  .other (by rw [workers]) (remaining_same workers running) outside

theorem Move.locks (guarded : WorkerPool.Guarded s.workers) (m : Move cpuCore s act s') :
    Locks act.isOf s.workers.locker s'.workers.locker s.remaining s'.remaining := by
  cases m
  case startWorkers step | worker step | register step | poll step | read step =>
    exact Locks.of_workers guarded step rfl rfl (by simp)
  case taskLock job lock step => exact Locks.of_task job lock step (.inl ⟨rfl, rfl⟩)
  case taskEmplace job emplace step =>
    exact Locks.of_task job emplace step (.inr (.inl ⟨⟨_, rfl⟩, rfl, rfl⟩))
  case taskUnlock job unlock step => exact Locks.of_task job unlock step (.inr (.inr ⟨rfl, rfl⟩))
  case taskRead job _ _ step =>
    exact Locks.of_pool (remaining_task job) (work_eq step).2 rfl rfl
  case thread i pool outside step =>
    have idle : s.remaining (.task i) = 0 := by
      cases runs : s.pool.running i with
      | none => simp [State.remaining, WorkerPool.State.remaining, runs]
      | some job =>
        obtain ⟨closure, stage⟩ := job
        obtain rfl : stage = .done := outside _ runs
        rw [remaining_task runs]
        cases closure <;> rfl
    cases (ThreadPool.Move.of_step step).flow with
    | @take _ task _ _ _ _ runs =>
      refine Locks.of_pool idle runs ?_ rfl
      obtain ⟨func, args⟩ := task
      cases func <;> rfl
    | finish _ _ runs => exact Locks.of_pool idle runs rfl rfl
    | other _ same _ =>
      refine Locks.of_other rfl same fun k mine => ?_
      rw [eq_of_beq mine, idle]
  case create step =>
    cases ThreadPool.Move.of_step step
    exact Locks.of_other rfl rfl (by simp [Act.isOf])
  case creator step | wake step =>
    cases (ThreadPool.Move.of_step step).flow with
    | other _ same _ => exact Locks.of_other rfl same (by simp [Act.isOf])
  case submit step =>
    cases (ThreadPool.Move.of_step step).flow with
    | submit _ _ same => exact Locks.of_other rfl same (by simp [Act.isOf])
    | other _ same _ => exact Locks.of_other rfl same (by simp [Act.isOf])
  all_goals exact Locks.of_other rfl rfl (by simp [Act.isOf])

/-- What is true of `locker_` in every reachable state. -/
structure Locking (s : State) : Prop where
  guarded : WorkerPool.Guarded s.workers
  guards : Guards s.workers.locker s.remaining

theorem Locking.listening (n : ℕ) : Locking (.listening n) where
  guarded := .constructed n
  guards k := by
    refine iff_of_false ?_ (by simp [State.listening, WorkerPool.State.constructed])
    cases k with
    | worker i =>
      simp only [State.remaining, WorkerPool.State.remaining, State.listening,
        WorkerPool.State.constructed, List.getElem?_replicate]
      split_ifs <;> simp [WorkerPool.Worker.constructed, WorkerPool.Pc.remaining]
    | task j =>
      simp [State.remaining, WorkerPool.State.remaining, State.listening,
        ThreadPool.State.constructed, ThreadPool.State.running]

theorem Locking.step (h : Locking s) (m : Move cpuCore s act s') : Locking s' where
  guarded := by
    rcases m.workers with same | ⟨b, step⟩
    · rw [same]
      exact h.guarded
    · exact h.guarded.step (.of_step step)
  guards := h.guards.step (m.locks h.guarded)

theorem locking_of_run (h : run (Server.step cpuCore) (.listening n) as = some s) : Locking s :=
  run_invariant (Locking.listening n) (fun _ _ _ hs ha => hs.step (.of_step ha)) h

/-! ## The holder goes on -/

/-- The server takes a step of the worker pool. -/
theorem exists_step {b : WorkerPool.Act} (own : act.isOf k = true)
    (same : Server.step cpuCore s act = s.workersDo b)
    (step : (WorkerPool.step s.workers b).isSome = true) :
    ∃ act s', act.isOf k = true ∧ Server.step cpuCore s act = some s' := by
  obtain ⟨workers, step⟩ := Option.isSome_iff_exists.mp step
  exact ⟨act, _, own, by rw [same, State.workersDo, step, Option.map_some]⟩

theorem Locking.enabled_worker (h : Locking s) {i : ℕ} (held : s.workers.locker = some (.worker i))
    (runs : s.stopped = false) :
    ∃ act s', act.isOf (.worker i) = true ∧ Server.step cpuCore s act = some s' := by
  have inside := (h.guards (.worker i)).mpr held
  obtain ⟨-, fault, -⟩ := faults_of_running runs
  cases worker : s.workers.workers[i]? with
  | none => simp [State.remaining, WorkerPool.State.remaining, worker] at inside
  | some w =>
    simp only [State.remaining, WorkerPool.State.remaining, worker, Option.elim_some] at inside
    have mine : (Act.worker i).isOf (.worker i) = true := by simp [Act.isOf]
    have act : Server.step cpuCore s (.worker i) = s.workersDo (.worker i) := by
      simp [Server.step, runs]
    cases pc : w.pc with
    | retest | record info | unlock =>
      apply exists_step mine act
      simp [WorkerPool.step, fault, worker, WorkerPool.workerStep, pc]
    | pop =>
      obtain ⟨info, rest, front⟩ := List.exists_cons_of_ne_nil (h.guarded.nonempty i w worker pc)
      apply exists_step mine act
      simp [WorkerPool.step, fault, worker, WorkerPool.workerStep, pc, front]
    | register info =>
      have register : (Act.register i true).isOf (.worker i) = true := mine
      apply exists_step (b := .register i true) register (by simp [Server.step, runs])
      simp [WorkerPool.step, fault, worker, WorkerPool.registerStep, pc]
    | unstarted | top | lock | decrement | test | loadAvail | loadDivisor | poll | handle
    | reading | hangup | increment => simp [WorkerPool.Pc.remaining, pc] at inside

/-- A running task can go on. -/
theorem work_enabled {j : ℕ} {job : Job} (at_ : s.pool.running j = some job)
    (fault : s.pool.fault = none) (job' : Job) :
    ∃ pool, ThreadPool.step Job.start s.pool (.work j job') = some pool := by
  obtain ⟨t, thread, task⟩ := Option.bind_eq_some_iff.mp at_
  cases pc : t.pc <;> simp only [pc, reduceCtorEq] at task
  simp [ThreadPool.step, fault, thread, ThreadPool.workStep, pc]

theorem Locking.enabled_task (h : Locking s) {j : ℕ} (held : s.workers.locker = some (.task j))
    (runs : s.stopped = false) :
    ∃ act s', act.isOf (.task j) = true ∧ Server.step cpuCore s act = some s' := by
  have inside := (h.guards (.task j)).mpr held
  obtain ⟨pool, workers, -⟩ := faults_of_running runs
  cases job : s.pool.running j with
  | none => simp [State.remaining, WorkerPool.State.remaining, job] at inside
  | some job' =>
    rw [remaining_task job] at inside
    have enabled := work_enabled job pool
    refine ⟨.task j, ?_⟩
    obtain ⟨closure, stage⟩ := job'
    cases closure with
    | none => simp [Job.remaining] at inside
    | some c =>
      cases stage with
      | emplace =>
        obtain ⟨pool, work⟩ := enabled ⟨some c, .unlock⟩
        simp [Act.isOf, Server.step, runs, taskStep, job, State.workersDo, State.poolDo,
          WorkerPool.step, workers, held, work]
      | unlock =>
        obtain ⟨pool, work⟩ := enabled ⟨some c, .done⟩
        simp [Act.isOf, Server.step, runs, taskStep, job, State.workersDo, State.poolDo,
          WorkerPool.step, workers, held, work]
      | read | lock | done => simp [Job.remaining] at inside

/-- The holder of `locker_` has at most five steps left. -/
theorem remaining_le (s : State) (k : Holder) : s.remaining k ≤ 5 := by
  cases k with
  | worker i =>
    cases worker : s.workers.workers[i]? with
    | none => simp [State.remaining, WorkerPool.State.remaining, worker]
    | some w =>
      cases pc : w.pc <;>
        simp [State.remaining, WorkerPool.State.remaining, worker, pc, WorkerPool.Pc.remaining]
  | task j =>
    cases runs : s.pool.running j with
    | none => simp [State.remaining, WorkerPool.State.remaining, runs]
    | some job =>
      obtain ⟨closure, stage⟩ := job
      cases closure <;> cases stage <;> simp [remaining_task runs, Job.remaining]

/-- In every reachable state the thread that holds `locker_` is the only one in a critical section.
It waits for nothing: it has a step to take, and it has let go of the lock when it has taken five,
whatever the other threads do in between. -/
theorem locker_released (h : run (step cpuCore) (.listening n) as = some s) :
    (∀ k, 0 < s.remaining k ↔ s.workers.locker = some k) ∧
      ∀ k, s.workers.locker = some k →
        (s.stopped = false → ∃ act s', act.isOf k = true ∧ step cpuCore s act = some s') ∧
        ∀ bs s', run (step cpuCore) s bs = some s' → 5 ≤ bs.countP (·.isOf k) →
          ∃ pre post t, bs = pre ++ post ∧ run (step cpuCore) s pre = some t ∧
            t.workers.locker = none ∧ pre.countP (·.isOf k) ≤ 5 := by
  have locking := locking_of_run h
  refine ⟨locking.guards, fun k held => ⟨fun runs => ?_, fun bs s' later enough => ?_⟩⟩
  · cases k with
    | worker i => exact locking.enabled_worker held runs
    | task j => exact locking.enabled_task held runs
  · have few := remaining_le s k
    obtain ⟨pre, post, t, split, ht, free, count⟩ :=
      released_of_run (I := Locking) (fun _ _ _ hs ha => hs.step (.of_step ha))
        (fun _ hs => hs.guards) (fun _ _ _ hs ha => (Move.of_step ha).locks hs.guarded) locking
        later held (Nat.le_trans few enough)
    exact ⟨pre, post, t, split, ht, free, Nat.le_trans count few⟩

/-- While worker 0 holds the lock to record the first client of `twoClients`, the second one is
accepted. -/
theorem locker_released_twoClients :
    ∃ s s', run (step 1) (.listening 2) (twoClients.take 29) = some s ∧
      run (step 1) s (twoClients.drop 29 ++ [.register 0 true, .worker 0]) = some s' ∧
      s.workers.locker = some (.worker 0) ∧ (∀ k, 0 < s.remaining k ↔ k = .worker 0) ∧
      ∃ pre post t, twoClients.drop 29 ++ [.register 0 true, .worker 0] = pre ++ post ∧
        run (step 1) s pre = some t ∧ t.workers.locker = none ∧
        pre.countP (·.isOf (.worker 0)) ≤ 5 := by
  have before : (run (step 1) (.listening 2) (twoClients.take 29)).map (·.workers.locker) =
      some (some (.worker 0)) := by decide +kernel
  have after : (run (step 1) (.listening 2) (twoClients ++ [.register 0 true, .worker 0])).isSome =
      true := by decide +kernel
  obtain ⟨s, hs, held⟩ := Option.map_eq_some_iff.mp before
  obtain ⟨s', hs'⟩ := Option.isSome_iff_exists.mp after
  rw [← List.take_append_drop 29 twoClients, List.append_assoc, run_append, hs,
    Option.bind_some] at hs'
  obtain ⟨guards, released⟩ := locker_released hs
  refine ⟨s, s', hs, hs', held, fun k => ?_, (released _ held).2 _ s' hs' (by decide)⟩
  rw [guards, held, Option.some.injEq, eq_comm]

end EpollServer.Server
