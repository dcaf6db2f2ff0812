import EpollServer.Library.Charge
import EpollServer.Server.Faults
import EpollServer.Server.Readers
import EpollServer.WorkerPool.Available
import EpollServer.WorkerPool.Effort

/-!
# The rounds of the main thread and of the workers

The main thread and each worker go round a loop with an `epoll_wait` in it, and between two returns
of theirs each of them takes a bounded number of steps: nobody spins. The main thread waits for
nothing else, from the start-up of both pools to the last client that it submits.
-/
namespace EpollServer.ThreadPool

variable {Fn Arg R : Type} {start : Task Fn Arg → R} {s s' : State Fn Arg R} {k : ℕ}

/-- The steps of the caller of `create`, which is to create `k` threads. -/
def Creator.left (k : ℕ) : Creator → ℕ
  | .idle => 3 * k + 1
  | .zeroMask i n _ => 3 * (n - (i + 1)).toNat + 3
  | .setMask i n _ => 3 * (n - (i + 1)).toNat + 2
  | .spawn i n _ => 3 * (n - (i + 1)).toNat + 1
  | .returned _ => 0

theorem Creator.left_next (i n cpuCore : Int) :
    (Creator.next i n cpuCore).left k ≤ 3 * (n - i).toNat := by
  unfold Creator.next
  split_ifs with more
  · simp only [Creator.left]
    omega
  · exact Nat.zero_le _

theorem Move.left_creator {ok : Bool} (m : Move start s (.creator ok) s')
    (fine : s'.fault = none) : s'.creator.left k + 1 ≤ s.creator.left k := by
  cases m
  case zeroMask at_ | setMask at_ _ =>
    rw [at_]
    exact Nat.le_refl _
  case setMaskFault => simp [State.raise] at fine
  case spawn i n cpuCore at_ =>
    rw [at_]
    exact Nat.succ_le_succ (Creator.left_next (i + 1) n cpuCore)
  case spawnFail at_ =>
    rw [at_]
    exact Nat.le_add_left _ _

/-- A signal that unparks every parked thread. -/
theorem signals_range (threads : List (Thread R)) :
    signals (List.range threads.length) threads = true := by
  cases parked : threads.any (·.pc.isParked) with
  | false => simp [signals, parked]
  | true =>
    obtain ⟨t, mem, pc⟩ := List.any_eq_true.mp parked
    obtain ⟨i, at_⟩ := List.mem_iff_getElem?.mp mem
    have inside := (List.getElem?_eq_some_iff.mp at_).1
    have chosen : (List.range threads.length).any
        (fun i => threads[i]?.any (·.pc.isParked)) = true :=
      List.any_eq_true.mpr ⟨i, List.mem_range.mpr inside, by simp [at_, pc]⟩
    rw [signals, chosen, Bool.or_true]

/-- `submit` waits for nothing but `lock_`. -/
theorem submit_enabled (running : s.fault = none) (alive : s.released = false)
    (args : Option Arg) (func : Option Fn) :
    ∃ woken, (step start s (.submit args func woken)).isSome = true := by
  refine ⟨List.range s.threads.length, ?_⟩
  simp only [step, running, Option.isSome_none, alive, Bool.false_eq_true, if_false, submitStep]
  split
  · rfl
  · split_ifs with refused signal
    · rfl
    · rfl
    · exact absurd (signals_range s.threads) signal

end EpollServer.ThreadPool

namespace EpollServer.Server

open Library

variable {cpuCore : Int} {s s' : State} {act : Act} {n : ℕ} {as bs : List Act} {i : ℕ}

/-! ## The main thread -/

/-- The steps of the main thread to its next `epoll_wait`. -/
def State.mainLeft (cpuCore : Int) (s : State) : ℕ :=
  match s.acceptor with
  | .starting => s.workers.startup.left s.workers.workers.length +
      s.pool.creator.left (ThreadPool.createdThreads cpuCore cpuCore).toNat + 1
  | .event _ => 4
  | .accepting => 3
  | .submitting _ => 2
  | .counting => 1
  | .polling | .restarting _ | .aborted => 0

/-- The steps of the main thread other than the return of its `epoll_wait`. -/
def Act.ofMain : Act → Bool
  | .startup _ | .event | .accept _ | .submit _ | .count => true
  | _ => false

/-- What `epoll_wait` gives the main thread to do. -/
def Act.reported : Act → ℕ
  | .report _ => 4
  | _ => 0

/-- A step that leaves the main thread where it is. -/
theorem main_same (acceptor : s'.acceptor = s.acceptor)
    (creator : s'.pool.creator = s.pool.creator)
    (workers : s'.workers.startup = s.workers.startup ∧
      s'.workers.workers.length = s.workers.workers.length) (other : act.ofMain = false) :
    s'.mainLeft cpuCore + ind act.ofMain ≤ s.mainLeft cpuCore + act.reported := by
  have same : s'.mainLeft cpuCore = s.mainLeft cpuCore := by
    simp only [State.mainLeft, acceptor, creator, workers]
  rw [same, other]
  exact Nat.le_add_right _ _

/-- The thread pool takes a step that is none of `create`. -/
theorem main_pool {b : ThreadPool.Act Closure Unit Job}
    (step : ThreadPool.step Job.start s.pool b = some s'.pool) (quiet : b.administers = false)
    (created : ∀ ok, b ≠ .creator ok) (acceptor : s'.acceptor = s.acceptor)
    (workers : s'.workers.startup = s.workers.startup ∧
      s'.workers.workers.length = s.workers.workers.length) (other : act.ofMain = false) :
    s'.mainLeft cpuCore + ind act.ofMain ≤ s.mainLeft cpuCore + act.reported :=
  main_same acceptor ((ThreadPool.Move.of_step step).creator_eq quiet created).1 workers other

theorem startup_length_eq {w w' : WorkerPool.State} {b : WorkerPool.Act}
    (step : WorkerPool.step w b = some w') (other : ∀ ok, b ≠ .startup ok) :
    w'.startup = w.startup ∧ w'.workers.length = w.workers.length := by
  have m := WorkerPool.Move.of_step step
  exact ⟨(startup_eq m other).1, m.length_workers⟩

theorem mainLeft_starting (at_ : s.acceptor = .starting) :
    s.mainLeft cpuCore = s.workers.startup.left s.workers.workers.length +
      s.pool.creator.left (ThreadPool.createdThreads cpuCore cpuCore).toNat + 1 := by
  simp only [State.mainLeft, at_]

theorem Move.main_le (m : Move cpuCore s act s') (fine : s'.pool.fault = none) :
    s'.mainLeft cpuCore + ind act.ofMain ≤ s.mainLeft cpuCore + act.reported := by
  cases m
  case startWorkers at_ _ step =>
    have less := (WorkerPool.Move.of_step step).left_startup
    rw [mainLeft_starting at_, mainLeft_starting (by exact at_)]
    simp only [Act.ofMain, Act.reported, ind_true]
    omega
  case create pool at_ idle step =>
    have loop := ThreadPool.Creator.left_next
      (k := (ThreadPool.createdThreads cpuCore cpuCore).toNat) 0
      (ThreadPool.createdThreads cpuCore cpuCore) cpuCore
    have before : s.pool.creator.left (ThreadPool.createdThreads cpuCore cpuCore).toNat =
        3 * (ThreadPool.createdThreads cpuCore cpuCore).toNat + 1 := by
      rw [idle]
      rfl
    have m := ThreadPool.Move.of_step step
    rw [mainLeft_starting at_, mainLeft_starting (by exact at_)]
    cases m
    rw [Int.sub_zero] at loop
    simp only [before, Act.ofMain, Act.reported, ind_true]
    omega
  case creator at_ step =>
    have less := (ThreadPool.Move.of_step step).left_creator
      (k := (ThreadPool.createdThreads cpuCore cpuCore).toNat) fine
    rw [mainLeft_starting at_, mainLeft_starting (by exact at_)]
    simp only [Act.ofMain, Act.reported, ind_true]
    omega
  case listen at_ _ =>
    rw [mainLeft_starting at_]
    exact Nat.le_add_left _ _
  case thread step | wake step | taskRead step =>
    exact main_pool step rfl (by simp) rfl ⟨rfl, rfl⟩ rfl
  case taskLock lock step | taskEmplace lock step | taskUnlock lock step =>
    exact main_pool step rfl (by simp) rfl (startup_length_eq lock (by simp)) rfl
  case worker step | register step | poll step | read step =>
    exact main_same rfl rfl (startup_length_eq step (by simp)) rfl
  case connect | peer => exact Nat.le_refl _
  all_goals simp [State.mainLeft, Act.ofMain, Act.reported, *]

/-- The thread pool is never shut down. -/
theorem closer_of_run (h : run (step cpuCore) (.listening n) as = some s) :
    s.pool.closer = .idle := by
  refine run_invariant (I := fun s => s.pool.closer = .idle) rfl ?_ h
  intro s act s' idle ha
  rcases (Move.of_step ha).pool with same | ⟨b, step, quiet | ⟨-, rfl⟩⟩
  · rwa [same]
  · exact ((ThreadPool.Move.of_step step).settings quiet).2.2.1.trans idle
  · have m := ThreadPool.Move.of_step step
    generalize s'.pool = pool at m ⊢
    cases m
    exact idle

theorem running_of_step (h : step cpuCore s act = some s') : s.workers.fault = none := by
  have runs : s.stopped = false := by
    simpa using (Option.ite_none_left_eq_some.mp h).1
  exact (faults_of_running runs).2.1

/-- Start-up goes on. -/
theorem startup_enabled (runs : s.stopped = false) (open_ : s.pool.closer = .idle)
    (at_ : s.acceptor = .starting) : (step cpuCore s (.startup true)).isSome = true := by
  obtain ⟨pool, workers, -⟩ := faults_of_running runs
  have go : step cpuCore s (.startup true) = startupStep cpuCore s true := by simp [step, runs]
  rw [go]
  unfold startupStep
  simp only [at_]
  cases startup : s.workers.startup with
  | returned => rfl
  | start k =>
    cases worker : s.workers.workers[k]? <;>
      simp [State.workersDo, WorkerPool.step, workers, WorkerPool.startupStep, startup, worker]
  | idle | store | setStarted =>
    simp [State.workersDo, WorkerPool.step, workers, WorkerPool.startupStep, startup]
  | create =>
    cases creator : s.pool.creator with
    | idle => simp [State.poolDo, ThreadPool.step, pool, creator, open_]
    | returned code =>
      simp [State.workersDo, WorkerPool.step, workers, WorkerPool.startupStep, startup]
    | zeroMask | spawn =>
      simp [State.poolDo, ThreadPool.step, pool, ThreadPool.creatorStep, creator]
    | setMask k m cores =>
      cases cpu : cMod k cores <;>
        simp [State.poolDo, ThreadPool.step, pool, ThreadPool.creatorStep, creator, cpu]

/-- Outside of `epoll_wait` the main thread has a step to take. -/
theorem main_enabled (sound : Sound s) (unfailing : Unfailing s) (open_ : s.pool.closer = .idle)
    (runs : s.stopped = false) (busy : s.acceptor ≠ .polling) :
    ∃ act, act.ofMain = true ∧ (step cpuCore s act).isSome = true := by
  obtain ⟨fine, -, alive⟩ := faults_of_running runs
  cases at_ : s.acceptor with
  | polling => exact absurd at_ busy
  | aborted => exact absurd at_ alive
  | restarting info => exact absurd at_ (unfailing.acceptor info)
  | starting => exact ⟨.startup true, rfl, startup_enabled runs open_ at_⟩
  | event events =>
    refine ⟨.event, rfl, ?_⟩
    simp only [step, runs, Bool.false_eq_true, if_false, eventStep, at_]
    split_ifs <;> rfl
  | accepting => exact ⟨.accept (.failed false), rfl, by simp [step, runs, acceptStep, at_]⟩
  | counting => exact ⟨.count, rfl, by simp [step, runs, countStep, at_]⟩
  | submitting info =>
    have listening := sound.settled.listening (by simp [at_])
    have started := sound.settled.started listening
    have accepts : ∃ woken, (ThreadPool.step Job.start s.pool
        (.submit none (some ⟨info, true⟩) woken)).isSome = true :=
      ThreadPool.submit_enabled fine sound.settled.alive _ _
    obtain ⟨woken, accepts⟩ := accepts
    obtain ⟨pool, goes⟩ := Option.isSome_iff_exists.mp accepts
    exact ⟨.submit woken, rfl,
      by simp [step, runs, submitStep, at_, started, State.poolDo, goes]⟩

/-- In every reachable state in which the server runs, the main thread is in `epoll_wait` or has a
step to take. All its steps, those to its next `epoll_wait` included, are at most those of start-up
with `n` workers and the threads that `create` starts, and four for each time that `epoll_wait`
returned. -/
theorem main_goes_on (h : run (step cpuCore) (.listening n) as = some s) :
    (s.stopped = true ∨ s.acceptor = .polling ∨
      ∃ act, act.ofMain = true ∧ (step cpuCore s act).isSome = true) ∧
    s.mainLeft cpuCore + tally (fun act => ind act.ofMain) as ≤
      n + 3 * (ThreadPool.createdThreads cpuCore cpuCore).toNat + 7 + tally Act.reported as := by
  constructor
  · cases runs : s.stopped with
    | true => exact .inl rfl
    | false =>
      by_cases waits : s.acceptor = .polling
      · exact .inr (.inl waits)
      · exact .inr (.inr
          (main_enabled (sound_of_run h) (unfailing_of_run h) (closer_of_run h) runs waits))
  · have charged : s.mainLeft cpuCore +
        total (step cpuCore) (fun _ act => ind act.ofMain) (.listening n) as ≤
        (State.listening n).mainLeft cpuCore +
          total (step cpuCore) (fun _ => Act.reported) (.listening n) as := by
      refine charge_of_run (P := fun s => s.pool.fault = none) ?_ ?_ h
      · intro s act s' _ fine ha
        exact (Move.of_step ha).main_le fine
      · intro _ _ t _ ht
        exact (unfailing_of_run ht).pool
    have first : (State.listening n).mainLeft cpuCore =
        n + 5 + (3 * (ThreadPool.createdThreads cpuCore cpuCore).toNat + 1) + 1 := by
      rw [mainLeft_starting rfl]
      simp [State.listening, WorkerPool.State.constructed, ThreadPool.State.constructed,
        WorkerPool.Startup.left, ThreadPool.Creator.left]
    rw [total_eq_tally _ h, total_eq_tally _ h] at charged
    omega

/-- The second client is about to be submitted, and no step of the bound is left over. -/
theorem main_goes_on_twoClients :
    ∃ s, run (step 1) (.listening 2) twoClients = some s ∧
      s.acceptor = .submitting (clientInfo 6 2) ∧
      (∃ act, act.ofMain = true ∧ (step 1 s act).isSome = true) ∧
      s.mainLeft 1 + tally (fun act => ind act.ofMain) twoClients ≤ 20 := by
  have end_ : (run (step 1) (.listening 2) twoClients).map (fun s => (s.stopped, s.acceptor)) =
      some (false, .submitting (clientInfo 6 2)) := by decide +kernel
  obtain ⟨s, hs, he⟩ := Option.map_eq_some_iff.mp end_
  obtain ⟨runs, at_⟩ := Prod.mk.inj he
  obtain ⟨goes, few⟩ := main_goes_on hs
  refine ⟨s, hs, at_, ?_, few⟩
  rcases goes with stopped | polling | goes
  · simp [runs] at stopped
  · simp [at_] at polling
  · exact goes

/-! ## The workers -/

/-- What `epoll_wait` gives worker `i` to do. -/
def Act.polled (i : ℕ) : Act → ℕ
  | .poll j events => if j = i then 3 * events.length + 12 else 0
  | _ => 0

/-- The action is a step of worker `i` other than the return of its `epoll_wait`. -/
def Act.ofWorker (i : ℕ) : Act → Bool
  | .worker j | .register j _ | .read j _ => j == i
  | _ => false

theorem Move.worker_le (m : Move cpuCore s act s') (fine : s.workers.fault = none) :
    s'.workers.effort i + ind (act.ofWorker i) ≤ s.workers.effort i + act.polled i := by
  cases m
  case startWorkers step | taskLock step _ | taskEmplace step _ | taskUnlock step _ |
      worker step | register step | poll step | read step =>
    exact (WorkerPool.Move.of_step step).effort_le fine
  all_goals exact Nat.le_refl _

theorem effort_poll {w w' : WorkerPool.State} {events : List EpollEvent}
    (step : WorkerPool.step w (.poll i events) = some w') : w.effort i = 0 := by
  have m := WorkerPool.Move.of_step step
  cases m
  case poll worker pc =>
    unfold WorkerPool.State.effort
    split_ifs
    · rfl
    · simp [worker, pc, WorkerPool.Pc.effort]

/-- A worker is never further from its `epoll_wait` than when it has just returned. -/
theorem effort_le_of_run (h : run (step cpuCore) (.listening n) as = some s) (i : ℕ) :
    s.workers.effort i ≤ 3 * maxEvents + 12 := by
  refine run_invariant (I := fun s => s.workers.effort i ≤ 3 * maxEvents + 12) ?_ ?_ h
  · have each : ∀ w ∈ (State.listening n).workers.workers, w.pc.effort ≤ 10 := by
      intro w mem
      rw [List.eq_of_mem_replicate mem]
      exact Nat.le_refl _
    rw [WorkerPool.effort_eq rfl]
    cases worker : (State.listening n).workers.workers[i]? with
    | none => exact Nat.zero_le _
    | some w => exact (each w (List.mem_of_getElem? worker)).trans (by decide)
  · intro s act s' few ha
    have m := Move.of_step ha
    have less := m.worker_le (i := i) (running_of_step ha)
    by_cases polls : ∃ events, act = .poll i events
    · obtain ⟨events, rfl⟩ := polls
      cases m
      case poll may step =>
        have size := of_decide_eq_true (Bool.and_eq_true_iff.mp may).1
        rw [effort_poll step] at less
        simp only [Act.polled, if_true] at less ⊢
        omega
    · have none_ : act.polled i = 0 := by
        cases act <;> simp_all [Act.polled]
      omega

/-- No worker spins: over any part of any run worker `i` takes no more steps than it had left to
its `epoll_wait` at the beginning, and twelve for each time that `epoll_wait` returned, with three
for each event. At no time it has more left than after a return with `MAX_EVENTS` events. -/
theorem worker_rounds_bounded (h : run (step cpuCore) (.listening n) as = some s)
    (later : run (step cpuCore) s bs = some s') (i : ℕ) :
    s'.workers.effort i + tally (fun act => ind (act.ofWorker i)) bs ≤
        s.workers.effort i + tally (Act.polled i) bs ∧
      s.workers.effort i ≤ 3 * maxEvents + 12 := by
  refine ⟨?_, effort_le_of_run h i⟩
  have pay : ∀ (s : State) act s', True → True → step cpuCore s act = some s' →
      s'.workers.effort i + ind (act.ofWorker i) ≤ s.workers.effort i + act.polled i := by
    intro s act s' _ _ ha
    exact (Move.of_step ha).worker_le (running_of_step ha)
  have charged := charge_of_run pay (fun _ _ _ _ _ => trivial) later
  rwa [total_eq_tally _ later, total_eq_tally _ later] at charged

/-- A worker registers its client and goes round to the request of that client. -/
theorem worker_rounds_bounded_secondRequest :
    ∃ s s', run (step 1) (.listening 2) twoClients = some s ∧
      run (step 1) s secondRequest = some s' ∧ s.workers.effort 0 = 5 ∧ s'.workers.effort 0 = 14 ∧
      s'.workers.effort 0 + tally (fun act => ind (act.ofWorker 0)) secondRequest ≤
        s.workers.effort 0 + tally (Act.polled 0) secondRequest ∧
      s.workers.effort 0 ≤ 3 * maxEvents + 12 := by
  have before : (run (step 1) (.listening 2) twoClients).map (·.workers.effort 0) = some 5 := by
    decide +kernel
  have after : (run (step 1) (.listening 2) (twoClients ++ secondRequest)).map
      (·.workers.effort 0) = some 14 := by decide +kernel
  obtain ⟨s, hs, five⟩ := Option.map_eq_some_iff.mp before
  obtain ⟨s', hs', left⟩ := Option.map_eq_some_iff.mp after
  rw [run_append, hs, Option.bind_some] at hs'
  exact ⟨s, s', hs, hs', five, left, worker_rounds_bounded hs hs' 0⟩

end EpollServer.Server
