import EpollServer.Library.Charge
import EpollServer.Server.Faults
import EpollServer.Server.Locking
import EpollServer.Server.Order
import EpollServer.ThreadPool.Effort
import EpollServer.ThreadPool.Wakeup

/-!
# What a submitted client waits for

While a client is in the ring, a pool thread is on its way to take a task, or every pool thread is
in a task: in the `read` of a client that has sent nothing, or at `locker_` while a worker holds
it, which lets it go by itself. So the pool never stands still for a reason of its own. Nor does it
spin: without new clients and spurious wake-ups the steps it still takes are bounded.
-/
namespace EpollServer.Server

open Library

variable {cpuCore : Int} {s s' : State} {act : Act} {n : ℕ} {as bs : List Act} {fd : Int} {i : ℕ}

/-! ## No thread leaves the pool -/

def Staying (s : State) : Prop := ∀ t ∈ s.pool.threads, t.pc ≠ .leaving ∧ t.pc ≠ .terminated

theorem staying_set {pool : ThreadPool.State Closure Unit Job} {u : ThreadPool.Thread Job}
    (h : ∀ t ∈ pool.threads, t.pc ≠ .leaving ∧ t.pc ≠ .terminated)
    (stays : u.pc ≠ .leaving ∧ u.pc ≠ .terminated) :
    ∀ t ∈ pool.threads.set i u, t.pc ≠ .leaving ∧ t.pc ≠ .terminated := by
  intro t mem
  rcases List.mem_or_eq_of_mem_set mem with old | rfl
  · exact h t old
  · exact stays

theorem staying_unpark {pool : ThreadPool.State Closure Unit Job} {selected : ℕ → Bool}
    (h : ∀ t ∈ pool.threads, t.pc ≠ .leaving ∧ t.pc ≠ .terminated) :
    ∀ t ∈ ThreadPool.unpark selected pool.threads, t.pc ≠ .leaving ∧ t.pc ≠ .terminated := by
  intro t mem
  obtain ⟨j, inside, rfl⟩ := List.mem_mapIdx.mp mem
  split_ifs
  · simp
  · exact h _ (List.getElem_mem _)

theorem Staying.step (h : Staying s) (sound : Sound s) (m : Move cpuCore s act s') :
    Staying s' := by
  rcases m.pool with same | ⟨b, step, quiet⟩
  · unfold Staying
    rw [same]
    exact h
  · have m' := ThreadPool.Move.of_step step
    unfold Staying
    generalize s'.pool = pool at m'
    cases m'
    case spawn =>
      intro t mem
      rcases List.mem_append.mp mem with old | new
      · exact h t old
      · rw [List.mem_singleton.mp new]
        simp
    case accept | wake => exact staying_unpark h
    case shutdown => rcases quiet with quiet | ⟨-, create⟩ <;> simp_all [ThreadPool.Act.administers]
    case leave closed => simp [sound.settled.open_] at closed
    case exit t at_ pc => exact absurd pc (h t (List.mem_of_getElem? at_)).1
    case start | count | pin | park | take | finish | work =>
      exact staying_set h (by simp)
    all_goals exact h

theorem staying_of_run (h : run (step cpuCore) (.listening n) as = some s) : Staying s := by
  refine (run_invariant (I := fun s => Sound s ∧ Staying s) ⟨.listening n, ?_⟩ ?_ h).2
  · simp [Staying, State.listening, ThreadPool.State.constructed]
  · rintro s act s' ⟨sound, staying⟩ ha
    exact ⟨sound.step (.of_step ha), staying.step sound (.of_step ha)⟩

/-! ## Steps that are possible -/

/-- A thread that is awake, or whose task is done, has a step to take. -/
theorem thread_enabled (runs : s.stopped = false) {t : ThreadPool.Thread Job}
    (thread : s.pool.threads[i]? = some t)
    (pc : t.pc.isAwake = true ∨ ∃ job : Job, t.pc = .running job ∧ job.stage = .done) :
    (step cpuCore s (.thread i)).isSome = true := by
  obtain ⟨fault, -, -⟩ := faults_of_running runs
  have outside : (s.pool.running i).all (·.stage = .done) = true := by
    rw [ThreadPool.running_eq, thread, Option.bind_some]
    rcases pc with awake | ⟨job, pc, stage⟩
    · cases hpc : t.pc <;> simp_all [ThreadPool.Pc.task, ThreadPool.Pc.isAwake]
    · simp [pc, ThreadPool.Pc.task, stage]
  have goes : (ThreadPool.threadStep Job.start s.pool i t).isSome = true := by
    unfold ThreadPool.threadStep
    split_ifs
    · rfl
    · rcases pc with awake | ⟨job, pc, -⟩
      · cases hpc : t.pc <;> simp_all [ThreadPool.Pc.isAwake]
      · simp [pc]
  obtain ⟨pool, goes⟩ := Option.isSome_iff_exists.mp goes
  simp [step, runs, outside, State.poolDo, ThreadPool.step, fault, thread, goes]

/-- The `read` of a task returns if the socket has something to return. -/
theorem taskRead_enabled (runs : s.stopped = false) {c : Closure} {k : Connection} {r : Int}
    (job : s.pool.running i = some ⟨some c, .read⟩)
    (connection : s.connectionOf c.info.eplev.fd = some k) (ready : k.mayRead r = true) :
    (step cpuCore s (.taskRead i r)).isSome = true := by
  obtain ⟨fault, -, -⟩ := faults_of_running runs
  obtain ⟨pool, work⟩ := work_enabled job fault ⟨some c, .lock⟩
  simp [step, runs, taskReadStep, job, connection, ready, State.poolDo, work]

/-- A task takes `locker_` if it is free. -/
theorem lock_enabled (runs : s.stopped = false) {c : Closure}
    (job : s.pool.running i = some ⟨some c, .lock⟩) (free : s.workers.locker = none) :
    (step cpuCore s (.task i)).isSome = true := by
  obtain ⟨fault, workers, -⟩ := faults_of_running runs
  obtain ⟨pool, work⟩ := work_enabled job fault ⟨some c, .emplace⟩
  simp [step, runs, taskStep, job, State.workersDo, State.poolDo, WorkerPool.step, workers, free,
    work]

/-- A client on its way has a socket. -/
theorem Sound.exists_connection (h : Sound s) {p : Place} (at_ : s.isAt fd p = true) :
    ∃ k, s.connectionOf fd = some k := by
  have opened := h.counting.opened fd (h.exists_isAt.mp ⟨p, at_⟩)
  obtain ⟨k, mem, hk⟩ := List.any_eq_true.mp opened
  exact Option.isSome_iff_exists.mp (List.find?_isSome.mpr ⟨k, mem, hk⟩)

/-- A client in the ring is a task that is counted. -/
theorem Sound.workCount_pos (h : Sound s) (at_ : s.isAt fd .ring = true) :
    0 < s.pool.pool.workCount := by
  obtain ⟨submitted, inside⟩ := h.isAt_ring.mp at_
  have accepted : some fd ∈ s.pool.accepted.map taskFd := by
    rw [h.located.accepted]
    exact List.mem_map_of_mem submitted
  obtain unborn | ⟨-, capacity, ops, q, -, hp, -, ha, hd⟩ := h.queue
  · simp [unborn.accepted] at accepted
  · rw [ha, q.history, List.map_append, ← hd] at accepted
    have items := (List.mem_append.mp accepted).resolve_left inside
    have count := hp.workCount_eq
    have : 0 < q.items.length := by
      obtain ⟨task, mem, -⟩ := List.mem_map.mp items
      exact List.length_pos_of_mem mem
    omega

/-! ## What the pool waits for -/

/-- The steps of the pool threads. -/
def Act.ofPool : Act → Bool
  | .thread _ | .taskRead _ _ | .task _ => true
  | _ => false

/-- A pool thread is in the `read` of a client that has sent nothing, or at `locker_`, which a
worker holds. -/
def State.waits (s : State) (i : ℕ) : Prop :=
  ∃ c : Closure,
    s.pool.running i = some ⟨some c, .read⟩ ∧
      (s.connectionOf c.info.eplev.fd).any Connection.blocks = true ∨
    s.pool.running i = some ⟨some c, .lock⟩ ∧ ∃ j, s.workers.locker = some (.worker j)

/-- A thread in a task goes on or waits. -/
theorem task_goes_on (sound : Sound s) (locking : Locking s) (runs : s.stopped = false)
    {c : Closure} {stage : Stage} (job : s.pool.running i = some ⟨some c, stage⟩) :
    (∃ act, act.ofPool = true ∧ (step cpuCore s act).isSome = true) ∨ s.waits i := by
  have held {k : ℕ} (held : s.workers.locker = some (.task k)) :
      ∃ act, act.ofPool = true ∧ (step cpuCore s act).isSome = true := by
    have holder : ∃ act s', act.isOf (.task k) = true ∧ step cpuCore s act = some s' :=
      locking.enabled_task held runs
    obtain ⟨act, s', own, goes⟩ := holder
    refine ⟨act, ?_, by rw [goes]; rfl⟩
    cases act <;> simp_all [Act.isOf, Act.ofPool]
  cases stage with
  | read =>
    have at_ : s.isAt c.info.eplev.fd (.reading i) = true := by
      simp [State.isAt, job, Job.reading]
    obtain ⟨k, connection⟩ := sound.exists_connection at_
    cases blocks : k.blocks with
    | true => exact .inr ⟨c, .inl ⟨job, by simp [connection, blocks]⟩⟩
    | false =>
      have ready : ¬ ∀ r, k.mayRead r = false := by
        rw [← k.blocks_iff, blocks]
        exact Bool.false_ne_true
      obtain ⟨r, ready⟩ := not_forall.mp ready
      have returns := Bool.of_not_eq_false ready
      exact .inl ⟨.taskRead i r, rfl, taskRead_enabled runs job connection returns⟩
  | lock =>
    cases locker : s.workers.locker with
    | none =>
      exact .inl ⟨.task i, rfl, lock_enabled runs job locker⟩
    | some holder =>
      cases holder with
      | worker j => exact .inr ⟨c, .inr ⟨job, j, locker⟩⟩
      | task j => exact .inl (held locker)
  | emplace | unlock =>
    have inside : 0 < s.remaining (.task i) := by simp [remaining_task job, Job.remaining]
    exact .inl (held ((locking.guards _).mp inside))
  | done =>
    obtain ⟨t, thread, task⟩ := Option.bind_eq_some_iff.mp (ThreadPool.running_eq s.pool i ▸ job)
    have pc : t.pc = .running ⟨some c, .done⟩ := by
      cases pc : t.pc <;> simp_all [ThreadPool.Pc.task]
    exact .inl ⟨.thread i, rfl, thread_enabled runs thread (.inr ⟨_, pc, rfl⟩)⟩

/-- In every reachable state in which the server runs and a client is in the ring, a pool thread
has a step to take, or all of them wait: each in the `read` of a client that has sent nothing and
is still there, or at `locker_` while a worker holds it. -/
theorem waits_only_outside (h : run (step cpuCore) (.listening n) as = some s)
    (runs : s.stopped = false) (queued : s.isAt fd .ring = true) :
    (∃ act, act.ofPool = true ∧ (step cpuCore s act).isSome = true) ∨
      ∀ i, i < s.pool.threads.length → s.waits i := by
  have sound := sound_of_run h
  have staying := staying_of_run h
  by_cases goes : ∃ act, act.ofPool = true ∧ (step cpuCore s act).isSome = true
  · exact .inl goes
  refine .inr fun i inside => ?_
  have asleep : ∀ (j : ℕ) t, s.pool.threads[j]? = some t → t.pc.isAwake = false := by
    intro j t thread
    by_contra awake
    have awake := Bool.of_not_eq_false awake
    exact goes ⟨.thread j, rfl, thread_enabled runs thread (.inl awake)⟩
  -- an awake thread is on its way to the task unless nobody is parked
  have nobody : ThreadPool.parkedIn s.pool.threads = 0 := by
    obtain ⟨bs, pool⟩ := pool_run h
    have covered := (ThreadPool.attended_of_run pool).covered sound.settled.open_
    have work := sound.workCount_pos queued
    have none_awake : ThreadPool.awakeIn s.pool.threads = 0 := by
      refine tally_eq_zero.mpr fun t mem => ?_
      obtain ⟨j, thread⟩ := List.mem_iff_getElem?.mp mem
      rw [asleep j t thread, ind_false]
    by_contra parked
    have := covered (Nat.pos_of_ne_zero parked)
    omega
  have thread := List.getElem?_eq_getElem inside
  generalize s.pool.threads[i] = t at thread
  have mem := List.mem_of_getElem? thread
  have awake := asleep i t thread
  cases pc : t.pc with
  | created | started | counted | ready | woken => simp [pc, ThreadPool.Pc.isAwake] at awake
  | leaving => exact absurd pc (staying t mem).1
  | terminated => exact absurd pc (staying t mem).2
  | parked =>
    have somebody := ThreadPool.parkedIn_pos.mpr ⟨t, mem, pc⟩
    omega
  | running job =>
    have running := ThreadPool.State.running_of thread pc
    obtain ⟨closure, stage⟩ := job
    obtain ⟨c, rfl⟩ := Option.isSome_iff_exists.mp ((unfailing_of_run h).callable i _ running)
    exact (task_goes_on sound (locking_of_run h) runs running).resolve_left goes

/-- The first client is silent, and the second one is in the ring. -/
def silentAhead : List Act :=
  boot ++ [.thread 0, .thread 0, .thread 0, .connect 1, .report epollIn, .event,
    .accept (.descriptor 5), .submit [], .count, .thread 0, .connect 2, .report epollIn, .event,
    .accept (.descriptor 6), .submit []]

theorem waits_only_outside_silentAhead :
    ∃ s, run (step 1) (.listening 2) silentAhead = some s ∧ s.stopped = false ∧
      s.isAt 6 .ring = true ∧ s.pool.threads.length = 1 ∧
      ((∃ act, act.ofPool = true ∧ (step 1 s act).isSome = true) ∨
        ∀ i, i < s.pool.threads.length → s.waits i) := by
  have end_ : (run (step 1) (.listening 2) silentAhead).map
      (fun s => (s.stopped, s.isAt 6 .ring, s.pool.threads.length)) = some (false, true, 1) := by
    decide +kernel
  obtain ⟨s, hs, he⟩ := Option.map_eq_some_iff.mp end_
  simp only [Prod.mk.injEq] at he
  obtain ⟨runs, queued, length⟩ := he
  exact ⟨s, hs, runs, queued, length, waits_only_outside hs runs queued⟩

/-! ## How many steps the pool takes -/

/-- The steps of a task until it is done. -/
def Stage.left : Stage → ℕ
  | .read => 4
  | .lock => 3
  | .emplace => 2
  | .unlock => 1
  | .done => 0

theorem Stage.left_le (stage : Stage) : stage.left ≤ 4 := by cases stage <;> decide

/-- The steps that the pool threads have to take before all of them are parked. -/
def State.effort (s : State) : ℕ := s.pool.effort (·.stage.left) 4

/-- What a step adds to them: four for a step of start-up, six for a client that is submitted, and
one for each thread that is parked before the step and not after it. -/
def State.brought (cpuCore : Int) (s : State) (act : Act) : ℕ :=
  (match act with
    | .startup _ => 4
    | .submit _ => 6
    | _ => 0) +
  (step cpuCore s act).elim 0 fun s' =>
    ThreadPool.parkedIn s.pool.threads - ThreadPool.parkedIn s'.pool.threads

/-- The thread pool takes a step that is none of a task. -/
theorem effort_pool (sound : Sound s) (fine : s'.pool.fault = none)
    {b : ThreadPool.Act Closure Unit Job} (step : ThreadPool.step Job.start s.pool b = some s'.pool)
    (shutdown : ∀ mode, b ≠ .shutdown mode) (works : ∀ j job, b ≠ .work j job) :
    s'.effort + ind b.byThread ≤ s.effort + b.brought 4 +
      (ThreadPool.parkedIn s.pool.threads - ThreadPool.parkedIn s'.pool.threads) := by
  have count : 0 ≤ s.pool.pool.workCount := by
    rcases sound.queue with unborn | ⟨-, _, _, _, -, held, -⟩
    · exact unborn.workCount.ge
    · exact held.workCount_nonneg
  exact (ThreadPool.Move.of_step step).effort_le (w := fun job : Job => job.stage.left)
    (fun _ => Stage.left_le _) sound.settled.open_ count fine shutdown works

/-- A task goes on by a stage. -/
theorem effort_task {before after : Job} (job : s.pool.running i = some before)
    (step : ThreadPool.step Job.start s.pool (.work i after) = some s'.pool)
    (less : after.stage.left + 1 = before.stage.left) : s'.effort + 1 ≤ s.effort := by
  have moved : s'.effort + before.stage.left = s.effort + after.stage.left :=
    (ThreadPool.Move.of_step step).effort_work job
  omega

theorem effort_le (sound : Sound s) (fine : s'.pool.fault = none)
    (ha : step cpuCore s act = some s') :
    s'.effort + ind act.ofPool ≤ s.effort + s.brought cpuCore act := by
  unfold State.brought
  rw [ha, Option.elim_some, ← Nat.add_assoc]
  cases Move.of_step ha
  case create step =>
    refine Nat.le_trans (effort_pool sound fine step (by simp) (by simp)) ?_
    exact Nat.add_le_add_right (Nat.add_le_add_left (Nat.zero_le 4) _) _
  case creator step | submit step | thread step | wake step =>
    exact effort_pool sound fine step (by simp) (by simp)
  case taskRead job _ _ step =>
    exact Nat.le_trans (effort_task job step rfl) (Nat.le_add_right _ _)
  case taskLock job _ step | taskEmplace job _ step | taskUnlock job _ step =>
    exact Nat.le_trans (effort_task job step rfl) (Nat.le_add_right _ _)
  all_goals exact Nat.le_trans (Nat.le_add_right _ _) (Nat.le_add_right _ _)

theorem effort_le_mul (s : State) :
    s.effort ≤ 6 * (s.pool.threads.length + s.pool.pool.workCount.toNat) :=
  ThreadPool.effort_le_mul (fun _ _ _ _ => Stage.left_le _) (by decide)

/-- The pool does not spin: in every continuation of a run its threads take no more steps than
they had to take at its beginning, six for each client submitted, one for each thread unparked and
four for each step of start-up. At the beginning they had at most six to take for each thread and
for each client in the ring. -/
theorem pool_steps_bounded (h : run (step cpuCore) (.listening n) as = some s)
    (later : run (step cpuCore) s bs = some s') :
    s'.effort + tally (fun act => ind act.ofPool) bs ≤
        s.effort + total (step cpuCore) (State.brought cpuCore) s bs ∧
      s.effort ≤ 6 * (s.pool.threads.length + s.pool.pool.workCount.toNat) := by
  refine ⟨?_, effort_le_mul s⟩
  rw [← total_eq_tally _ later]
  refine charge_of_run (P := fun s => ∃ as, run (step cpuCore) (.listening n) as = some s) ?_ ?_
    later
  · rintro s act s' ⟨as, hs⟩ ⟨as', hs'⟩ ha
    exact effort_le (sound_of_run hs) (unfailing_of_run hs').pool ha
  · intro pre post t _ ht
    exact ⟨as ++ pre, by rw [run_append, h, Option.bind_some, ht]⟩

/-- After `twoClients` the only pool thread parks; the signal for the second client unparks it, and
it takes the task. -/
def submitToParked : List Act := [.thread 0, .thread 0, .submit [0], .count, .thread 0]

theorem pool_steps_bounded_submitToParked :
    ∃ s s', run (step 1) (.listening 2) twoClients = some s ∧
      run (step 1) s submitToParked = some s' ∧ s.effort = 2 ∧ s'.effort = 6 ∧
      total (step 1) (State.brought 1) s submitToParked = 7 ∧
      s'.effort + tally (fun act => ind act.ofPool) submitToParked ≤
        s.effort + total (step 1) (State.brought 1) s submitToParked ∧
      s.effort ≤ 6 * (s.pool.threads.length + s.pool.pool.workCount.toNat) := by
  have before : (run (step 1) (.listening 2) twoClients).map
      (fun s => (s.effort, total (step 1) (State.brought 1) s submitToParked)) = some (2, 7) := by
    decide +kernel
  have after : (run (step 1) (.listening 2) (twoClients ++ submitToParked)).map State.effort =
      some 6 := by decide +kernel
  obtain ⟨s, hs, he⟩ := Option.map_eq_some_iff.mp before
  obtain ⟨two, seven⟩ := Prod.mk.inj he
  obtain ⟨s', hs', six⟩ := Option.map_eq_some_iff.mp after
  rw [run_append, hs, Option.bind_some] at hs'
  exact ⟨s, s', hs, hs', two, six, seven, pool_steps_bounded hs hs'⟩

end EpollServer.Server
