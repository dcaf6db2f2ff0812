import EpollServer.Server.Counting
import EpollServer.ThreadPool.Queue

/-!
# Every client is in exactly one place

A descriptor passed to `tcp_worker_pool::submit` travels through the ring of the thread pool, a
pool thread, `event_storage_` and a worker into the `client_infos` of that worker. The two
queues have their own locks and the result of `thread_pool::submit` is dropped; nothing is
lost because fewer than `SERVER_MAX_CONNECTION` clients were ever accepted when the next one
is submitted, and the ring has as many slots.

`Settled` says which parts of the pools are in place once the server accepts clients,
`Located` balances the history of the thread pool against what threads and workers hold.
-/
namespace EpollServer.Server

open Library
open WorkerPool (ClientInfo)

variable {cpuCore : Int} {s s' : State} {a : Act} {n : ℕ} {as : List Act}

/-! ## After start-up -/

structure Settled (s : State) : Prop where
  open_ : s.pool.pool.shutdown = false
  alive : s.pool.released = false
  size : s.pool.creator ≠ .idle → s.pool.pool.queueSize = defaultQueueSize
  created : s.workers.startup = .setStarted ∨ s.workers.startup = .returned →
    ∃ code, s.pool.creator = .returned code
  started : s.workers.startup = .returned → s.workers.started = true
  listening : s.acceptor ≠ .starting → s.workers.startup = .returned

/-- The steps of `startup` are the only ones that change its progress. -/
theorem startup_eq {w w' : WorkerPool.State} {b : WorkerPool.Act} (m : WorkerPool.Move w b w')
    (other : ∀ ok, b ≠ .startup ok) : w'.startup = w.startup ∧ w'.started = w.started := by
  cases m
  all_goals first
    | exact ⟨rfl, rfl⟩
    | exact absurd rfl (other _)

/-- A step that leaves the start-up of both pools as it is. -/
theorem Settled.keep (h : Settled s) (shutdown : s'.pool.pool.shutdown = s.pool.pool.shutdown)
    (released : s'.pool.released = s.pool.released)
    (size : s'.pool.pool.queueSize = s.pool.pool.queueSize)
    (creator : s'.pool.creator = s.pool.creator)
    (workers : s'.workers.startup = s.workers.startup ∧ s'.workers.started = s.workers.started)
    (acceptor : s'.acceptor ≠ .starting → s.workers.startup = .returned) : Settled s' := by
  obtain ⟨startup, started⟩ := workers
  refine ⟨shutdown ▸ h.open_, released ▸ h.alive, ?_, ?_, ?_, ?_⟩
  · rw [creator, size]
    exact h.size
  · rw [startup, creator]
    exact h.created
  · rw [startup, started]
    exact h.started
  · rw [startup]
    exact acceptor

/-- The same for a step of the thread pool that is none of `create`. -/
theorem Settled.keep_pool (h : Settled s) {b : ThreadPool.Act Closure Unit Job}
    (step : ThreadPool.step Job.start s.pool b = some s'.pool) (quiet : b.administers = false)
    (other : ∀ ok, b ≠ .creator ok)
    (workers : s'.workers.startup = s.workers.startup ∧ s'.workers.started = s.workers.started)
    (acceptor : s'.acceptor ≠ .starting → s.workers.startup = .returned) : Settled s' := by
  have m := ThreadPool.Move.of_step step
  obtain ⟨size, shutdown, -, released⟩ := m.settings quiet
  exact h.keep shutdown released size (m.creator_eq quiet other).1 workers acceptor

theorem Settled.startup (h : Settled s) (at_ : s.acceptor = .starting) {ok : Bool}
    {workers : WorkerPool.State}
    (created : s.workers.startup = .create → ∃ code, s.pool.creator = .returned code)
    (step : WorkerPool.step s.workers (.startup ok) = some workers) :
    Settled { s with workers := workers } := by
  have m := WorkerPool.Move.of_step step
  refine ⟨h.open_, h.alive, h.size, ?_, ?_, fun other => absurd at_ other⟩ <;> cases m <;>
    simp_all [WorkerPool.State.setWorker]
  exact h.created (.inl ‹_›)

theorem Settled.step (h : Settled s) (m : Move cpuCore s a s') : Settled s' := by
  cases m
  case startWorkers at_ created step => exact h.startup at_ created step
  case create pool at_ idle step =>
    have m := ThreadPool.Move.of_step step
    cases m
    refine ⟨h.open_, h.alive, fun _ => ?_, fun late => ?_, h.started, h.listening⟩
    · have coerced : coerceIn defaultQueueSize 1024 ThreadPool.maxQueue = defaultQueueSize := by
        decide
      exact coerced
    · obtain ⟨code, returned⟩ := h.created late
      simp [idle] at returned
  case creator pool at_ step =>
    have m := ThreadPool.Move.of_step step
    obtain ⟨size, shutdown, -, released⟩ := m.settings rfl
    have underWay : s.pool.creator ≠ .idle ∧ ∀ code, s.pool.creator ≠ .returned code := by
      cases m <;> simp_all
    refine ⟨shutdown ▸ h.open_, released ▸ h.alive, fun _ => size ▸ h.size underWay.1,
      fun late => ?_, h.started, h.listening⟩
    obtain ⟨code, returned⟩ := h.created late
    exact absurd returned (underWay.2 code)
  case listen at_ returned => exact h.keep rfl rfl rfl rfl ⟨rfl, rfl⟩ fun _ => returned
  case submit info pool at_ _ step =>
    exact h.keep_pool step rfl (by simp) ⟨rfl, rfl⟩ fun _ => h.listening (by simp [at_])
  case thread step | wake step | taskRead step =>
    exact h.keep_pool step rfl (by simp) ⟨rfl, rfl⟩ h.listening
  case taskLock workers step | taskEmplace workers step | taskUnlock workers step =>
    exact h.keep_pool step rfl (by simp) (startup_eq (.of_step workers) (by simp)) h.listening
  case worker step | register step | poll step | read step =>
    exact h.keep rfl rfl rfl rfl (startup_eq (.of_step step) (by simp)) h.listening
  case connect | peer => exact h.keep rfl rfl rfl rfl ⟨rfl, rfl⟩ h.listening
  all_goals exact h.keep rfl rfl rfl rfl ⟨rfl, rfl⟩ fun _ => h.listening (by simp [*])

/-! ## Where the clients are -/

/-- The descriptor that a task is about. -/
def taskFd (task : ThreadPool.Task Closure Unit) : Option Int := task.func.map (·.info.eplev.fd)

/-- The task is about a descriptor that satisfies `p`. -/
def taskCounts (p : Int → Bool) (task : ThreadPool.Task Closure Unit) : ℕ :=
  ind ((taskFd task).any p)

/-- A running task holds its client until it has put it into `event_storage_`. -/
def Job.counts (p : Int → Bool) (job : Job) : ℕ :=
  match job.stage with
  | .read | .lock | .emplace => ind ((job.closure.map (·.info.eplev.fd)).any p)
  | .unlock | .done => 0

/-- The tasks accepted by the thread pool are those submitted, and those delivered are with
the pool threads or have reached the worker pool. -/
structure Located (s : State) : Prop where
  accepted : s.pool.accepted.map taskFd = s.submitted.map some
  delivered : ∀ p, tally (taskCounts p) s.pool.delivered =
    s.pool.held (Job.counts p) + s.workers.located p

theorem Located.tally_accepted (h : Located s) (p : Int → Bool) :
    tally (taskCounts p) s.pool.accepted = tally (fun fd => ind (p fd)) s.submitted := by
  calc tally (taskCounts p) s.pool.accepted
      = tally (fun fd => ind (fd.any p)) (s.pool.accepted.map taskFd) :=
        (tally_map (fun fd : Option Int => ind (fd.any p)) taskFd _).symm
    _ = tally (fun fd => ind (fd.any p)) (s.submitted.map some) := by rw [h.accepted]
    _ = tally (fun fd => ind (p fd)) s.submitted := tally_map ..

/-- What is true in every reachable state of the server. -/
structure Sound (s : State) : Prop where
  settled : Settled s
  counting : Counting s
  located : Located s
  queue : ThreadPool.Unborn s.pool ∨
    s.pool.creator ≠ .idle ∧ ThreadPool.Queued s.pool.pool s.pool.accepted s.pool.delivered

theorem Counting.submitted_nodup (h : Counting s) : s.submitted.Nodup := by
  have := h.nodup
  rw [h.pending] at this
  exact this.of_append_left

theorem tally_nodup {fds : List Int} (h : fds.Nodup) (fd : Int) :
    tally (fun x => ind (x == fd)) fds = if fd ∈ fds then 1 else 0 := by
  induction fds with
  | nil => rfl
  | cons x fds ih =>
    obtain ⟨fresh, rest⟩ := List.nodup_cons.mp h
    rw [tally_cons, ih rest]
    by_cases same : x = fd
    · subst same
      simp [fresh]
    · have beq : (x == fd) = false := by simpa using same
      simp [beq, Ne.symm same]

/-- What was delivered is part of what was accepted. -/
theorem Sound.delivered_le (h : Sound s) (f : ThreadPool.Task Closure Unit → ℕ) :
    tally f s.pool.delivered ≤ tally f s.pool.accepted := by
  rcases h.queue with unborn | ⟨-, queued⟩
  · simp [unborn.accepted, unborn.delivered]
  · obtain ⟨capacity, ops, q, -, -, -, ha, hd⟩ := queued
    rw [ha, hd, q.history, tally_append]
    omega

/-- No descriptor is located twice inside of the worker pool. -/
theorem Sound.once (h : Sound s) (fd : Int) : s.workers.located (· == fd) ≤ 1 := by
  have delivered := h.located.delivered (· == fd)
  have le := h.delivered_le (taskCounts (· == fd))
  rw [h.located.tally_accepted, tally_nodup h.counting.submitted_nodup] at le
  split_ifs at le <;> omega

/-- When a client is about to be submitted, the ring has a free slot and is not shut down. -/
theorem Sound.admits (h : Sound s) {info : ClientInfo} (at_ : s.acceptor = .submitting info) :
    ThreadPool.Queued s.pool.pool s.pool.accepted s.pool.delivered ∧
      s.pool.pool.workCount ≠ s.pool.pool.queueSize ∧ s.pool.pool.shutdown = false := by
  obtain ⟨code, returned⟩ := h.settled.created (.inr (h.settled.listening (by simp [at_])))
  have born : s.pool.creator ≠ .idle := by simp [returned]
  obtain unborn | ⟨-, queued⟩ := h.queue
  · exact absurd unborn.creator born
  refine ⟨queued, ?_, h.settled.open_⟩
  obtain ⟨capacity, ops, q, -, hp, -, ha, -⟩ := queued
  have size := h.settled.size born
  have count := hp.workCount_eq
  have entered := q.length_entered
  have submitted : s.pool.accepted.length = s.submitted.length := by
    simpa using congrArg List.length h.located.accepted
  have accepted := congrArg List.length h.counting.pending
  have room := h.counting.room (by rw [at_]; rfl)
  have tally := h.counting.tally
  rw [at_] at accepted tally
  simp only [Acceptor.pending, Acceptor.uncounted, List.length_append, List.length_singleton]
    at accepted tally
  rw [ha] at submitted
  unfold defaultQueueSize at size
  unfold serverMaxConnection at room
  omega

/-- A step of the worker pool alone that brings no client into it. -/
theorem Sound.located_workers (h : Sound s) {b : WorkerPool.Act}
    {workers : WorkerPool.State} (step : WorkerPool.step s.workers b = some workers)
    (quiet : ∀ p, b.emplaced p = 0) (p : Int → Bool) : workers.located p = s.workers.located p := by
  have := (WorkerPool.Move.of_step step).located (p := p) h.once
  rw [quiet] at this
  exact this

theorem Sound.located_keep (h : Sound s) {b : WorkerPool.Act}
    (step : WorkerPool.step s.workers b = some s'.workers) (quiet : ∀ p, b.emplaced p = 0)
    (pool : s'.pool = s.pool) (submitted : s'.submitted = s.submitted) : Located s' where
  accepted := by rw [pool, submitted, h.located.accepted]
  delivered p := by rw [pool, h.located_workers step quiet, h.located.delivered]

/-- A step of a task, which goes on from `job` to `job'`: what it gives away is found in the
worker pool. -/
theorem Located.work (h : Located s) {i : ℕ} {job job' : Job}
    (at_ : s.pool.running i = some job)
    (step : ThreadPool.step Job.start s.pool (.work i job') = some s'.pool)
    (submitted : s'.submitted = s.submitted)
    (moved : ∀ p, s'.workers.located p + job'.counts p = s.workers.located p + job.counts p) :
    Located s' := by
  have work (p : Int → Bool) : s'.pool.accepted = s.pool.accepted ∧
      s'.pool.delivered = s.pool.delivered ∧
      s'.pool.held (Job.counts p) + job.counts p = s.pool.held (Job.counts p) + job'.counts p := by
    cases (ThreadPool.Move.of_step step).handling (Job.counts p) with
    | work running accepted delivered held =>
      obtain rfl := Option.some.inj (at_.symm.trans running)
      exact ⟨accepted, delivered, held⟩
    | other _ _ _ idle => exact absurd rfl (idle _ _)
  refine ⟨?_, fun p => ?_⟩
  · rw [(work fun _ => true).1, submitted, h.accepted]
  · obtain ⟨-, delivered, held⟩ := work p
    have before := h.delivered p
    have moved := moved p
    rw [delivered]
    omega

/-- A step of the thread pool that has nothing to do with tasks. -/
theorem Located.quiet (h : Located s) {b : ThreadPool.Act Closure Unit Job}
    (step : ThreadPool.step Job.start s.pool b = some s'.pool)
    (submit : ∀ args func woken, b ≠ .submit args func woken) (thread : ∀ i, b ≠ .thread i)
    (work : ∀ i job, b ≠ .work i job) (workers : s'.workers = s.workers)
    (submitted : s'.submitted = s.submitted) : Located s' := by
  have same (p : Int → Bool) : s'.pool.accepted = s.pool.accepted ∧
      s'.pool.delivered = s.pool.delivered ∧
      s'.pool.held (Job.counts p) = s.pool.held (Job.counts p) := by
    cases (ThreadPool.Move.of_step step).handling (Job.counts p) with
    | submit => exact absurd rfl (submit _ _ _)
    | take => exact absurd rfl (thread _)
    | finish => exact absurd rfl (thread _)
    | work => exact absurd rfl (work _ _)
    | other accepted delivered held => exact ⟨accepted, delivered, held⟩
  refine ⟨?_, fun p => ?_⟩
  · rw [(same fun _ => true).1, submitted, h.accepted]
  · obtain ⟨-, delivered, held⟩ := same p
    rw [delivered, held, workers, h.delivered]

/-- A thread takes a task off the ring, or returns from one that has put its client away. -/
theorem Located.thread (h : Located s) {i : ℕ} {pool : ThreadPool.State Closure Unit Job}
    (outside : ∀ job, s.pool.running i = some job → job.stage = .done)
    (step : ThreadPool.step Job.start s.pool (.thread i) = some pool) :
    Located { s with pool := pool } := by
  have m := ThreadPool.Move.of_step step
  refine ⟨?_, fun p => ?_⟩
  · cases m.handling (Job.counts fun _ => true) <;> simpa [*] using h.accepted
  · have before := h.delivered p
    cases m.handling (Job.counts p) with
    | take accepted delivered held =>
      rename_i task
      have same : (Job.start task).counts p = taskCounts p task := rfl
      simp only [delivered, held, same, tally_append, tally_cons, tally_nil]
      omega
    | finish running accepted delivered held =>
      rename_i job
      have gone : job.counts p = 0 := by
        rw [Job.counts, outside job running]
      simp only [delivered]
      omega
    | other _ delivered held =>
      simp only [delivered, held]
      omega

/-- A client is submitted: the ring accepts its task. -/
theorem Sound.submit_eq (h : Sound s) {woken : List ℕ} {info : ClientInfo}
    {pool : ThreadPool.State Closure Unit Job} (at_ : s.acceptor = .submitting info)
    (step : ThreadPool.step Job.start s.pool (.submit none (some ⟨info, true⟩) woken) =
      some pool) :
    ∃ ring, s.pool.pool.enqueue ⟨some ⟨info, true⟩, none⟩ = .ok ring ∧
      pool = { s.pool with
        pool := ring
        threads := ThreadPool.unpark (woken.contains ·) s.pool.threads
        accepted := s.pool.accepted ++ [⟨some ⟨info, true⟩, none⟩] } := by
  obtain ⟨queued, space, open_⟩ := h.admits at_
  cases ThreadPool.Move.of_step step with
  | refuse _ _ _ refused =>
    rcases refused with full | closed
    · exact absurd full space
    · simp [open_] at closed
  | submitFault _ _ _ _ _ fault =>
    obtain ⟨q, he, -⟩ := queued.accept space ⟨some ⟨info, true⟩, none⟩
    simp [he] at fault
  | accept _ _ _ _ _ enqueued _ => exact ⟨_, enqueued, rfl⟩

theorem Sound.located_step (h : Sound s) (m : Move cpuCore s a s') : Located s' := by
  cases m
  case startWorkers step | worker step | register step | poll step | read step =>
    exact h.located_keep step (fun _ => rfl) rfl rfl
  case create step =>
    cases ThreadPool.Move.of_step step
    exact ⟨h.located.accepted, h.located.delivered⟩
  case creator step | wake step => exact h.located.quiet step (by simp) (by simp) (by simp) rfl rfl
  case submit info pool at_ _ step =>
    obtain ⟨ring, -, rfl⟩ := h.submit_eq at_ step
    refine ⟨by simp [h.located.accepted, taskFd], fun p => ?_⟩
    simp only [ThreadPool.State.held, ThreadPool.holding_unpark]
    exact h.located.delivered p
  case thread outside step => exact h.located.thread outside step
  case taskRead job _ _ step => exact h.located.work job step rfl fun _ => rfl
  case taskLock job lock step =>
    refine h.located.work job step rfl fun p => ?_
    rw [h.located_workers lock fun _ => rfl]
    rfl
  case taskEmplace i c pool workers job emplace step =>
    refine h.located.work job step rfl fun p => ?_
    have brought : workers.located p = s.workers.located p + c.info.counts p :=
      (WorkerPool.Move.of_step emplace).located h.once
    exact brought
  case taskUnlock job unlock step =>
    refine h.located.work job step rfl fun p => ?_
    rw [h.located_workers unlock fun _ => rfl]
    rfl
  all_goals exact ⟨h.located.accepted, h.located.delivered⟩

/-- The thread pool of the server in one step. -/
theorem queue_step (h : ThreadPool.Unborn s.pool ∨ s.pool.creator ≠ .idle ∧
    ThreadPool.Queued s.pool.pool s.pool.accepted s.pool.delivered) (m : Move cpuCore s a s') :
    ThreadPool.Unborn s'.pool ∨ s'.pool.creator ≠ .idle ∧
      ThreadPool.Queued s'.pool.pool s'.pool.accepted s'.pool.delivered := by
  rcases m.pool with same | ⟨b, step, -⟩
  · rw [same]
    exact h
  · have m := ThreadPool.Move.of_step step
    rcases h with unborn | ⟨born, queued⟩
    · exact unborn.step m
    · exact .inr (ThreadPool.Queued.step born queued m)

theorem Sound.listening (n : ℕ) : Sound (.listening n) where
  settled := by constructor <;> simp [State.listening, ThreadPool.State.constructed,
    ThreadPool.Pool.constructed, WorkerPool.State.constructed]
  counting := .listening n
  located := by
    refine ⟨rfl, fun p => ?_⟩
    have idle : WorkerPool.Worker.constructed.located p = 0 := rfl
    simp [State.listening, ThreadPool.State.constructed, WorkerPool.State.constructed,
      ThreadPool.State.held, WorkerPool.State.located, WorkerPool.State.stored, idle]
  queue := .inl ⟨rfl, rfl, rfl, rfl, rfl, rfl, rfl⟩

theorem Sound.step (h : Sound s) (m : Move cpuCore s a s') : Sound s' :=
  ⟨h.settled.step m, h.counting.step m, h.located_step m, queue_step h.queue m⟩

theorem sound_of_run (h : run (step cpuCore) (.listening n) as = some s) : Sound s :=
  run_invariant (Sound.listening n) (fun _ _ _ hs ha => hs.step (Move.of_step ha)) h

/-! ## The places of a client -/

/-- How often a descriptor occurs in the ring, in the hands of pool threads, in
`event_storage_`, in the hands of workers that popped it, and in their `client_infos`. -/
def State.inRing (s : State) (fd : Int) : ℕ := tally (taskCounts (· == fd)) s.pool.pool.workQueue

def State.inTask (s : State) (fd : Int) : ℕ := s.pool.held (Job.counts (· == fd))

def State.inStorage (s : State) (fd : Int) : ℕ := s.workers.stored (· == fd)

def State.popped (s : State) (fd : Int) : ℕ :=
  tally (fun w => w.pc.popped (· == fd)) s.workers.workers

def State.recorded (s : State) (fd : Int) : ℕ :=
  tally (fun w => w.recorded (· == fd)) s.workers.workers

/-- The slots of the ring hold what was accepted and not delivered. -/
theorem Sound.inRing (h : Sound s) (fd : Int) :
    s.inRing fd + tally (taskCounts (· == fd)) s.pool.delivered =
      tally (taskCounts (· == fd)) s.pool.accepted := by
  rcases h.queue with unborn | ⟨-, queued⟩
  · simp [State.inRing, unborn.workQueue, unborn.accepted, unborn.delivered]
  · obtain ⟨capacity, ops, q, -, hp, -, ha, hd⟩ := queued
    have slots : s.inRing fd = tally (taskCounts (· == fd)) q.items := hp.ring.tally_slots rfl
    rw [slots, ha, hd, q.history, tally_append]
    omega

theorem Sound.places (h : Sound s) (fd : Int) :
    s.inRing fd + s.inTask fd + s.inStorage fd + s.popped fd + s.recorded fd =
      if fd ∈ s.submitted then 1 else 0 := by
  have ring := h.inRing fd
  have delivered := h.located.delivered (· == fd)
  have workers : s.workers.located (· == fd) = s.inStorage fd + (s.popped fd + s.recorded fd) := by
    rw [State.popped, State.recorded, ← tally_add]
    rfl
  rw [h.located.tally_accepted, tally_nodup h.counting.submitted_nodup] at ring
  rw [← ring, delivered, workers, State.inTask]
  omega

theorem length_submitted_le (h : Counting s) : s.submitted.length ≤ serverMaxConnection := by
  have accepted := congrArg List.length h.pending
  have tally := h.tally
  have bound := h.bound
  have room := h.room
  rw [List.length_append] at accepted
  cases at_ : s.acceptor <;> simp [at_, Acceptor.uncounted, Acceptor.admitted] at * <;> omega

theorem Sound.length_eventStorage_le (h : Sound s) :
    s.workers.eventStorage.length ≤ serverMaxConnection := by
  have all : tally (WorkerPool.ClientInfo.counts fun _ => true) s.workers.eventStorage =
      s.workers.eventStorage.length :=
    tally_ind_eq_length.mpr fun _ _ => rfl
  have delivered := h.located.delivered fun _ => true
  have le := h.delivered_le (taskCounts fun _ => true)
  have accepted := h.located.tally_accepted fun _ => true
  have submitted : tally (fun _ => ind true) s.submitted = s.submitted.length :=
    tally_ind_eq_length.mpr fun _ _ => rfl
  have := length_submitted_le h.counting
  unfold WorkerPool.State.located WorkerPool.State.stored at delivered
  omega

/-- In every run of the server each submitted client is in exactly one place, no worker takes
from an empty `event_storage_`, which never holds more than `SERVER_MAX_CONNECTION` clients, and
the thread pool accepts every client that is submitted. -/
theorem client_in_one_place (h : run (step cpuCore) (.listening n) as = some s) :
    (∀ fd ∈ s.submitted,
      s.inRing fd + s.inTask fd + s.inStorage fd + s.popped fd + s.recorded fd = 1) ∧
    s.workers.fault ≠ some .emptyQueue ∧
    s.workers.eventStorage.length ≤ serverMaxConnection ∧
    ∀ info, s.acceptor = .submitting info → s.workers.started = true ∧
      ∃ pool, s.pool.pool.submit none (some ⟨info, true⟩) .succeed = .ok (pool, 0) := by
  have sound := sound_of_run h
  obtain ⟨bs, hw⟩ := workers_run h
  refine ⟨fun fd hfd => ?_, (WorkerPool.guarded_of_run hw).fault, sound.length_eventStorage_le,
    fun info at_ => ⟨sound.settled.started (sound.settled.listening (by simp [at_])), ?_⟩⟩
  · rw [sound.places, if_pos hfd]
  · obtain ⟨queued, space, open_⟩ := sound.admits at_
    obtain ⟨pool, enqueued, -⟩ := queued.accept space ⟨some ⟨info, true⟩, none⟩
    refine ⟨pool, ?_⟩
    rw [ThreadPool.Pool.submit_succeed, if_neg space, open_, enqueued]
    rfl

/-- A client is accepted, its task is run, and a worker records it while the next client waits
to be submitted. -/
def twoClients : List Act :=
  boot ++ [.thread 0, .thread 0, .thread 0, .connect 1, .peer 0 (.send 10), .report epollIn, .event,
    .accept (.descriptor 5), .submit [], .count, .thread 0, .taskRead 0 10, .task 0, .task 0,
    .task 0, .worker 0, .worker 0, .worker 0, .worker 0, .worker 0, .connect 2, .report epollIn,
    .event, .accept (.descriptor 6)]

theorem client_in_one_place_twoClients :
    ∃ s, run (step 1) (.listening 2) twoClients = some s ∧ s.recorded 5 = 1 ∧
      s.acceptor = .submitting (clientInfo 6 2) ∧
      s.inRing 5 + s.inTask 5 + s.inStorage 5 + s.popped 5 + s.recorded 5 = 1 ∧
      s.workers.started = true ∧
      ∃ pool, s.pool.pool.submit none (some ⟨clientInfo 6 2, true⟩) .succeed = .ok (pool, 0) := by
  have end_ : (run (step 1) (.listening 2) twoClients).map
      (fun s => (s.recorded 5, s.acceptor, s.submitted)) =
      some (1, .submitting (clientInfo 6 2), [5]) := by decide +kernel
  obtain ⟨s, hs, he⟩ := Option.map_eq_some_iff.mp end_
  simp only [Prod.mk.injEq] at he
  obtain ⟨recorded, at_, submitted⟩ := he
  obtain ⟨once, -, -, accepts⟩ := client_in_one_place hs
  exact ⟨s, hs, recorded, at_, once 5 (by simp [submitted]), accepts _ at_⟩

end EpollServer.Server
