import EpollServer.Server.Journey

/-!
# What cannot go wrong in the two pools

Nothing in the thread pool can go wrong while the server runs: the pool is never shut down, every
index of the ring is in range, no thread calls an empty function, and `submit` finds the pool
started. What is left is the division in `worker_routine` and the `abort` of the main thread, and,
where the requests are printed, `Answering.fault`.
-/
namespace EpollServer.ThreadPool

variable {Fn Arg R : Type} {start : Task Fn Arg → R} {s s' : State Fn Arg R} {a : Act Fn Arg R}

/-- `CPU_CORE`, by which the loop of `create` divides. -/
def Creator.divisor : Creator → Option Int
  | .zeroMask _ _ c | .setMask _ _ c | .spawn _ _ c => some c
  | .idle | .returned _ => none

theorem Creator.divisor_next {i n c d : Int} (h : (Creator.next i n c).divisor = some d) :
    i < n ∧ d = c := by
  unfold next at h
  split_ifs at h with more
  · exact ⟨more, (Option.some.inj h).symm⟩
  · cases h

theorem Move.divisor_eq (m : Move start s a s')
    (create : ∀ c t q, a ≠ .create c t q) {d : Int} (h : s'.creator.divisor = some d) :
    s.creator.divisor = some d := by
  cases m
  case create => exact absurd rfl (create _ _ _)
  case zeroMask at_ | setMask at_ _ => rwa [at_]
  case spawn at_ =>
    obtain ⟨-, rfl⟩ := Creator.divisor_next h
    rw [at_]
    rfl
  case spawnFail => cases h
  all_goals exact h

/-- A step of a pool that is not shut down. -/
theorem Move.fault_eq (m : Move start s a s')
    (queue : Unborn s ∨ s.creator ≠ .idle ∧ Queued s.pool s.accepted s.delivered)
    (alive : s.released = false) (divisor : s.creator.divisor ≠ some 0) (other : a ≠ .closer) :
    s'.fault = s.fault := by
  cases m
  case setMaskFault i n c f at_ fault =>
    have zero : c ≠ 0 := by
      rintro rfl
      exact divisor (by rw [at_]; rfl)
    simp [cMod, zero] at fault
  case submitFault args func woken f space _ fault =>
    rcases queue with unborn | ⟨-, queued⟩
    · exact absurd (unborn.workCount.trans unborn.queueSize.symm) space
    · obtain ⟨q, he, -⟩ := queued.accept space ⟨func, args⟩
      simp [he] at fault
  case useAfterFree released _ => simp [alive] at released
  case dequeueFault work fault =>
    rcases queue with unborn | ⟨-, queued⟩
    · exact absurd unborn.workCount work
    · obtain ⟨task, q, hd, -⟩ := queued.deliver work
      simp [hd] at fault
  case joinFault => exact absurd rfl other
  all_goals rfl

end EpollServer.ThreadPool

namespace EpollServer.Server

open Library

variable {cpuCore : Int} {s s' : State} {act : Act} {n : ℕ} {as : List Act}

theorem faults_of_running (runs : s.stopped = false) :
    s.pool.fault = none ∧ s.workers.fault = none ∧ s.acceptor ≠ .aborted := by
  simp only [State.stopped, Bool.or_eq_false_iff, Option.isSome_eq_false_iff,
    Option.isNone_iff_eq_none] at runs
  obtain ⟨⟨pool, workers⟩, acceptor⟩ := runs
  refine ⟨pool, workers, fun aborted => ?_⟩
  simp [aborted] at acceptor

theorem fault_cases {w w' : WorkerPool.State} {b : WorkerPool.Act} (m : WorkerPool.Move w b w') :
    w'.fault = w.fault ∨ w'.fault = some .divideByZero ∨ w'.fault = some .emptyQueue := by
  cases m
  case popEmpty => exact .inr (.inr rfl)
  case divideByZero => exact .inr (.inl rfl)
  all_goals exact .inl rfl

/-- What cannot go wrong. -/
structure Unfailing (s : State) : Prop where
  divisor : s.pool.creator.divisor ≠ some 0
  pool : s.pool.fault = none
  workers : s.workers.fault = none ∨ s.workers.fault = some .divideByZero
  acceptor : ∀ info, s.acceptor ≠ .restarting info
  callable : ∀ j job, s.pool.running j = some job → job.closure.isSome = true

theorem Unfailing.listening (n : ℕ) : Unfailing (.listening n) where
  divisor := by simp [State.listening, ThreadPool.State.constructed, ThreadPool.Creator.divisor]
  pool := rfl
  workers := .inl rfl
  acceptor := by simp [State.listening]
  callable := by simp [State.listening, ThreadPool.State.constructed, ThreadPool.State.running]

/-- Every task that the ring has delivered has a function. -/
theorem Sound.callable (h : Sound s) {task : ThreadPool.Task Closure Unit}
    (delivered : task ∈ s.pool.delivered) : task.func.isSome = true := by
  have accepted : task ∈ s.pool.accepted := by
    rcases h.queue with unborn | ⟨-, queued⟩
    · simp [unborn.delivered] at delivered
    · obtain ⟨capacity, ops, q, -, -, -, ha, hd⟩ := queued
      rw [ha, q.history]
      exact List.mem_append_left _ (hd ▸ delivered)
  have known : taskFd task ∈ s.submitted.map some :=
    h.located.accepted ▸ List.mem_map_of_mem accepted
  obtain ⟨fd, -, func⟩ := List.mem_map.mp known
  cases hf : task.func with
  | none => simp [taskFd, hf] at func
  | some c => rfl

/-- One thread goes on to a task that can be called, or to none. -/
theorem callable_update {f g : ℕ → Option Job} {i : ℕ} {x : Option Job}
    (old : ∀ j job, f j = some job → job.closure.isSome = true) (runs : g = Function.update f i x)
    (new : ∀ job, x = some job → job.closure.isSome = true) :
    ∀ j job, g j = some job → job.closure.isSome = true := by
  intro j job running
  rw [runs] at running
  by_cases mine : j = i
  · subst mine
    rw [Function.update_self] at running
    exact new job running
  · rw [Function.update_of_ne mine] at running
    exact old j job running

/-- The thread pool takes a step of the server. -/
theorem Unfailing.step_pool (h : Unfailing s) (sound : Sound s) (sound' : Sound s')
    {b : ThreadPool.Act Closure Unit Job} (step : ThreadPool.step Job.start s.pool b = some s'.pool)
    (create : ∀ c t q, b = .create c t q → t = c) (other : b ≠ .closer)
    (works : ∀ j job, b = .work j job → job.closure.isSome = true)
    (workers : s'.workers.fault = s.workers.fault)
    (acceptor : ∀ info, s'.acceptor ≠ .restarting info) : Unfailing s' := by
  have m := ThreadPool.Move.of_step step
  refine ⟨?_, ?_, workers ▸ h.workers, acceptor, ?_⟩
  · intro zero
    by_cases created : ∃ c t q, b = .create c t q
    · obtain ⟨c, t, q, rfl⟩ := created
      obtain rfl := create c t q rfl
      generalize after : s'.pool = pool at m
      cases m
      rw [after] at zero
      obtain ⟨more, rfl⟩ := ThreadPool.Creator.divisor_next zero
      exact absurd more (by decide)
    · simp only [not_exists] at created
      exact h.divisor (m.divisor_eq created zero)
  · rw [m.fault_eq sound.queue sound.settled.alive h.divisor other]
    exact h.pool
  · cases m.flow with
    | submit _ _ same => exact same ▸ h.callable
    | other _ same _ => exact same ▸ h.callable
    | @take i task _ _ delivered _ runs =>
      refine callable_update h.callable runs fun job started => ?_
      obtain rfl := Option.some.inj started
      exact sound'.callable (by rw [delivered]; simp)
    | finish _ _ runs => exact callable_update h.callable runs (by simp)
    | @work i r₀ r _ _ _ runs =>
      refine callable_update h.callable runs fun job goes => ?_
      exact works i job (by rw [Option.some.inj goes])

theorem Unfailing.step (h : Unfailing s) (sound : Sound s)
    (guarded : WorkerPool.Guarded s'.workers) (m : Move cpuCore s act s') : Unfailing s' := by
  have sound' := sound.step m
  have workers {b : WorkerPool.Act} (step : WorkerPool.step s.workers b = some s'.workers) :
      s'.workers.fault = none ∨ s'.workers.fault = some .divideByZero := by
    rcases fault_cases (.of_step step) with same | zero | empty
    · rw [same]
      exact h.workers
    · exact .inr zero
    · exact absurd empty guarded.fault
  have noTask {b : WorkerPool.Act} {w : WorkerPool.State}
      (step : WorkerPool.step s.workers b = some w) (task : ∀ i, b ≠ .worker i) :
      w.fault = s.workers.fault := by
    have m := WorkerPool.Move.of_step step
    cases m
    case popEmpty i _ _ _ _ | divideByZero i _ _ _ _ => exact absurd rfl (task i)
    all_goals rfl
  cases m
  case create step =>
    refine h.step_pool sound sound' step ?_ (by simp) (by simp) rfl h.acceptor
    rintro c t q create
    cases create
    rfl
  case creator step | thread step | wake step =>
    exact h.step_pool sound sound' step (by simp) (by simp) (by simp) rfl h.acceptor
  case submit step =>
    exact h.step_pool sound sound' step (by simp) (by simp) (by simp) rfl (by simp)
  case taskRead step =>
    refine h.step_pool sound sound' step (by simp) (by simp) ?_ rfl h.acceptor
    rintro j job work
    cases work
    rfl
  case taskLock job lock step | taskEmplace job lock step | taskUnlock job lock step =>
    refine h.step_pool sound sound' step (by simp) (by simp) ?_ (noTask lock (by simp)) h.acceptor
    rintro j job work
    cases work
    rfl
  case startWorkers step | worker step | register step | poll step | read step =>
    exact ⟨h.divisor, h.pool, workers step, h.acceptor, h.callable⟩
  case restart info at_ stopped =>
    have listening := sound.settled.listening (by simp [at_])
    simp [sound.settled.started listening] at stopped
  case connect | peer => exact ⟨h.divisor, h.pool, h.workers, h.acceptor, h.callable⟩
  all_goals exact ⟨h.divisor, h.pool, h.workers, by simp, h.callable⟩

theorem unfailing_of_run (h : run (Server.step cpuCore) (.listening n) as = some s) :
    Unfailing s := by
  refine run_induction (P := fun _ s => Unfailing s) (.listening n) ?_ as s h
  intro as s act s' hs ih ha
  have whole : run (Server.step cpuCore) (.listening n) (as ++ [act]) = some s' :=
    run_concat.mpr ⟨s, hs, ha⟩
  obtain ⟨_, workers⟩ := workers_run whole
  exact ih.step (sound_of_run hs) (WorkerPool.guarded_of_run workers) (.of_step ha)

theorem Unfailing.stopped_iff_abort (h : Unfailing s) :
    s.stopped = true ↔ s.acceptor = .aborted ∨ s.workers.fault = some .divideByZero := by
  simp only [State.stopped, h.pool, Option.isSome_none, Bool.false_or, Bool.or_eq_true]
  rw [or_comm]
  refine or_congr ?_ ?_
  · cases s.acceptor <;> simp
  · rcases h.workers with fine | zero
    · simp [fine]
    · simp [zero]

end EpollServer.Server
