import EpollServer.Server.Waiting

/-!
# How long a client waits in a queue

A pool thread that passes its critical section while a client is in the ring takes a task, so it
brings the client forward by one. A worker that tests `event_storage_` at the top of its loop while
a client is in it goes on to pop the front. So the place of a client in its queue bounds how often
the threads come round before it leaves: nobody is passed over for ever.
-/
namespace EpollServer.WorkerPool

open Library

variable {s s' : State} {a : Act} {i : ℕ} {fd : Int}

/-- The step is a worker's test of `event_storage_` outside of the lock. -/
def State.tests (s : State) : Act → ℕ
  | .worker i => (s.workers[i]?).elim 0 fun w => ind (w.pc = .top)
  | _ => 0

/-- Between that test and the pop. -/
def Pc.isPopping : Pc → Bool
  | .lock | .retest | .pop => true
  | _ => false

/-- The clients before this one, and the workers that may still test. -/
def State.ahead (s : State) (fd : Int) : ℕ :=
  (s.eventStorage.map (·.eplev.fd)).idxOf fd + tally (fun w => ind (!w.pc.isPopping)) s.workers

/-- A worker goes on and leaves the queue alone. -/
theorem ahead_goto {w v : Worker} (worker : s.workers[i]? = some w)
    (workers : s'.workers = s.workers.set i v) (queue : s'.eventStorage = s.eventStorage)
    {c : ℕ} (pays : ind (!v.pc.isPopping) + c ≤ ind (!w.pc.isPopping)) :
    s'.ahead fd + c ≤ s.ahead fd := by
  have moved := tally_set (f := fun w : Worker => ind (!w.pc.isPopping)) (u := v) worker
  simp only [State.ahead, workers, queue]
  omega

theorem Move.ahead_le (m : Move s a s') (waits : fd ∈ s.eventStorage.map (·.eplev.fd))
    (still : fd ∈ s'.eventStorage.map (·.eplev.fd))
    (distinct : (s.eventStorage.map (·.eplev.fd)).Nodup) :
    s'.ahead fd + s.tests a ≤ s.ahead fd := by
  have nonempty : s.eventStorage ≠ [] := by
    rintro empty
    simp [empty] at waits
  cases m
  case skip empty | popEmpty empty | miss empty => exact absurd empty nonempty
  case startWorker w at_ worker =>
    apply ahead_goto worker
    · rfl
    · rfl
    · rcases w.pc_start _ with same | ⟨before, after⟩
      · rw [same]
        exact Nat.le_refl _
      · rw [before, after]
        exact Nat.le_refl _
  case pop i w info rest worker pc front =>
    have behind : (s.eventStorage.map (·.eplev.fd)).idxOf fd =
        (rest.map (·.eplev.fd)).idxOf fd + 1 := by
      rw [front, List.map_cons, List.nodup_cons] at distinct
      have other : info.eplev.fd ≠ fd := fun same => distinct.1 (same ▸ still)
      rw [front, List.map_cons, List.idxOf_cons_ne _ other]
    have moved := tally_set (f := fun w : Worker => ind (!w.pc.isPopping))
      (u := { w with pc := .record info }) worker
    have before : ind (!w.pc.isPopping) = 0 := by rw [pc]; rfl
    have after : ind (!Pc.isPopping (.record info)) = 1 := rfl
    have none_ : s.tests (.worker i) = 0 := by simp [State.tests, worker, pc]
    rw [before, after] at moved
    simp only [State.ahead, State.goto, State.setWorker, behind, none_]
    omega
  case taskEmplace j info held =>
    have same : ((s.eventStorage ++ [info]).map (·.eplev.fd)).idxOf fd =
        (s.eventStorage.map (·.eplev.fd)).idxOf fd := by
      rw [List.map_append, List.idxOf_append_of_mem waits]
    simp only [State.ahead, same]
    exact Nat.le_refl _
  case divideByZero i w worker pc _ =>
    have none_ : s.tests (.worker i) = 0 := by simp [State.tests, worker, pc]
    rw [none_]
    exact Nat.le_refl _
  case enter | startedAll | store | create | setStarted | taskLock | taskUnlock =>
    exact Nat.le_refl _
  all_goals
    apply ahead_goto ‹s.workers[_]? = some _›
    · rfl
    · rfl
    · simp [State.tests, Pc.isPopping, *]

end EpollServer.WorkerPool

namespace EpollServer.Server

open Library

variable {cpuCore : Int} {s s' : State} {act : Act} {n : ℕ} {as bs : List Act} {fd : Int}
  {p : Place}

/-- A client that is at the same place before and after a part of a run has been there all the
time. -/
theorem stays_of_runs (h : run (step cpuCore) (.listening n) as = some s)
    (later : run (step cpuCore) s bs = some s') (at_ : s.isAt fd p = true)
    (still : s'.isAt fd p = true) :
    EveryState (step cpuCore) (fun t => (∃ as, run (step cpuCore) (.listening n) as = some t) ∧
      t.isAt fd p = true) s bs := by
  intro pre post t split ht
  have whole : run (step cpuCore) (.listening n) (as ++ pre) = some t := by
    rw [run_append, h, Option.bind_some, ht]
  have rest : run (step cpuCore) t post = some s' := by
    rwa [split, run_append, ht, Option.bind_some] at later
  refine ⟨⟨_, whole⟩, ?_⟩
  obtain ⟨q, path, here⟩ := path_of_runs h ht at_
  obtain ⟨r, path', there⟩ := path_of_runs whole rest ((here q).mpr rfl)
  obtain rfl := (there p).mp still
  rcases path.eq_or_rank_lt fun _ _ => Place.rank_lt with same | lower
  · exact (here p).mpr same.symm
  · rcases path'.eq_or_rank_lt fun _ _ => Place.rank_lt with same | lower'
    · exact (here p).mpr same
    · omega

/-! ## In `event_storage_` -/

/-- The step is a worker's test of `event_storage_` at the top of its loop. -/
def State.tests (s : State) : Act → ℕ
  | .worker i => s.workers.tests (.worker i)
  | _ => 0

theorem Move.ahead_le (m : Move cpuCore s act s') (sound : Sound s)
    (waits : s.isAt fd .stored = true) (still : s'.isAt fd .stored = true) :
    s'.workers.ahead fd + s.tests act ≤ s.workers.ahead fd := by
  have pays {b : WorkerPool.Act} (step : WorkerPool.step s.workers b = some s'.workers) :
      s'.workers.ahead fd + s.workers.tests b ≤ s.workers.ahead fd :=
    (WorkerPool.Move.of_step step).ahead_le (isAt_stored.mp waits) (isAt_stored.mp still)
      sound.line_nodup
  cases m
  case startWorkers step | worker step | register step | poll step | read step => exact pays step
  case taskLock lock _ => exact pays lock
  case taskEmplace emplace _ => exact pays emplace
  case taskUnlock unlock _ => exact pays unlock
  all_goals exact Nat.le_refl _

/-! ## In the ring -/

/-- The step is the critical section of a pool thread. -/
def State.turns (s : State) : Act → ℕ
  | .thread i => (s.pool.threads[i]?).elim 0 fun t => ind (t.pc = .ready ∨ t.pc = .woken)
  | _ => 0

/-- The clients in the ring before this one. -/
def State.before (s : State) (fd : Int) : ℕ := s.submitted.idxOf fd - s.pool.delivered.length

theorem Sound.delivered_length_le (h : Sound s) (at_ : s.isAt fd .ring = true) :
    s.pool.delivered.length ≤ s.submitted.idxOf fd := by
  obtain ⟨submitted, inside⟩ := h.isAt_ring.mp at_
  obtain ⟨rest, prefix_⟩ := h.delivered_prefix
  have split : s.submitted.map some = s.pool.delivered.map taskFd ++ rest.map taskFd := by
    rw [← h.located.accepted, prefix_, List.map_append]
  by_contra passed
  have early : s.submitted.idxOf fd < (s.pool.delivered.map taskFd).length := by
    rw [List.length_map]
    omega
  have found : (s.submitted.map some)[s.submitted.idxOf fd]? = some (some fd) := by
    rw [List.getElem?_map, List.getElem?_eq_getElem (List.idxOf_lt_length_of_mem submitted),
      List.getElem_idxOf, Option.map_some]
  rw [split, List.getElem?_append_left early] at found
  exact inside (List.mem_of_getElem? found)

theorem before_same (submitted : s'.submitted.idxOf fd = s.submitted.idxOf fd)
    (delivered : s'.pool.delivered = s.pool.delivered) : s'.before fd + 0 ≤ s.before fd := by
  rw [State.before, State.before, submitted, delivered]
  exact Nat.le_refl _

/-- While a client is in the ring, no pool thread parks. -/
theorem Sound.before_le_thread (h : Sound s) {i : ℕ} {pool : ThreadPool.State Closure Unit Job}
    (step : ThreadPool.step Job.start s.pool (.thread i) = some pool) (fine : pool.fault = none)
    (waits : s.isAt fd .ring = true) (room : pool.delivered.length ≤ s.submitted.idxOf fd) :
    { s with pool := pool }.before fd + s.turns (.thread i) ≤ s.before fd := by
  cases ThreadPool.Move.of_step step
  case useAfterFree | dequeueFault => simp [ThreadPool.State.raise] at fine
  case park empty _ => exact absurd empty (h.workCount_pos waits).ne'
  case leave closed _ => simp [h.settled.open_] at closed
  case take t task ring pc _ _ _ _ thread =>
    have one : s.turns (.thread i) = 1 := by
      rcases pc with pc | pc <;> simp [State.turns, thread, pc]
    simp only [List.length_append, List.length_singleton] at room
    simp only [State.before, one, List.length_append, List.length_singleton]
    omega
  all_goals
    have none_ : s.turns (.thread i) = 0 := by
      simp [State.turns, ‹s.pool.threads[i]? = some _›, ‹ThreadPool.Thread.pc _ = _›]
    rw [none_]
    exact before_same rfl rfl

theorem Move.before_le (m : Move cpuCore s act s') (sound : Sound s) (sound' : Sound s')
    (fine : s'.pool.fault = none) (waits : s.isAt fd .ring = true)
    (still : s'.isAt fd .ring = true) : s'.before fd + s.turns act ≤ s.before fd := by
  have room := sound'.delivered_length_le still
  cases m
  case thread i pool outside step => exact sound.before_le_thread step fine waits room
  case create step =>
    cases ThreadPool.Move.of_step step
    exact before_same rfl rfl
  case creator step | wake step =>
    cases (ThreadPool.Move.of_step step).flow with
    | other history _ _ => exact before_same rfl history.2
  case submit info pool at_ _ step =>
    obtain ⟨ring, -, rfl⟩ := sound.submit_eq at_ step
    exact before_same (List.idxOf_append_of_mem (sound.isAt_ring.mp waits).1) rfl
  case taskRead step | taskLock step | taskEmplace step | taskUnlock step =>
    exact before_same rfl (work_eq step).1.2
  all_goals exact before_same rfl rfl

/-- While a client waits in the ring or in `event_storage_`, in any part of any run, the pool
threads pass their critical sections at most as often as clients were before it, and the workers
test `event_storage_` at most once more each. -/
theorem waits_bounded (h : run (step cpuCore) (.listening n) as = some s)
    (later : run (step cpuCore) s bs = some s') :
    (s.isAt fd .ring = true → s'.isAt fd .ring = true →
        total (step cpuCore) State.turns s bs ≤
          s.submitted.idxOf fd - s.pool.delivered.length) ∧
      (s.isAt fd .stored = true → s'.isAt fd .stored = true →
        total (step cpuCore) State.tests s bs ≤ s.line.idxOf fd + s.workers.workers.length) := by
  constructor
  · intro waits still
    refine total_le_of_run (·.before fd) ?_ (stays_of_runs h later waits still) later
    rintro t act t' ⟨⟨as, ht⟩, waits⟩ ⟨⟨as', ht'⟩, still⟩ ha
    exact (Move.of_step ha).before_le (sound_of_run ht) (sound_of_run ht')
      (unfailing_of_run ht').pool waits still
  · intro waits still
    have few : s.workers.ahead fd ≤ s.line.idxOf fd + s.workers.workers.length :=
      Nat.add_le_add_left (tally_ind_le_length _ _) _
    refine Nat.le_trans (total_le_of_run (·.workers.ahead fd) ?_
      (stays_of_runs h later waits still) later) few
    rintro t act t' ⟨⟨as, ht⟩, waits⟩ ⟨-, still⟩ ha
    exact (Move.of_step ha).ahead_le (sound_of_run ht) waits still

/-- The second client stays in the ring while the only pool thread takes the task of the first one
and puts that client away; then it stays in `event_storage_` while worker 0 records the first. -/
theorem waits_bounded_bothStored :
    (∃ s s', run (step 1) (.listening 2) (firstStored.take 29) = some s ∧
      run (step 1) s (firstStored.drop 29) = some s' ∧ s.isAt 6 .ring = true ∧
      s'.isAt 6 .ring = true ∧ total (step 1) State.turns s (firstStored.drop 29) = 1 ∧
      total (step 1) State.turns s (firstStored.drop 29) ≤
        s.submitted.idxOf 6 - s.pool.delivered.length) ∧
      ∃ s s', run (step 1) (.listening 2) bothStored = some s ∧
        run (step 1) s (List.replicate 5 (.worker 0)) = some s' ∧ s.isAt 6 .stored = true ∧
        s'.isAt 5 (.recorded 0) = true ∧ s'.isAt 6 .stored = true ∧ s.line.idxOf 6 = 1 ∧
        total (step 1) State.tests s (List.replicate 5 (.worker 0)) ≤
          s.line.idxOf 6 + s.workers.workers.length := by
  constructor
  · have before : (run (step 1) (.listening 2) (firstStored.take 29)).map
        (fun s => (s.isAt 6 .ring, total (step 1) State.turns s (firstStored.drop 29))) =
        some (true, 1) := by decide +kernel
    have after : (run (step 1) (.listening 2) firstStored).map (·.isAt 6 .ring) = some true := by
      decide +kernel
    obtain ⟨s, hs, he⟩ := Option.map_eq_some_iff.mp before
    obtain ⟨waits, turns⟩ := Prod.mk.inj he
    obtain ⟨s', hs', still⟩ := Option.map_eq_some_iff.mp after
    rw [← List.take_append_drop 29 firstStored, run_append, hs, Option.bind_some] at hs'
    exact ⟨s, s', hs, hs', waits, still, turns, (waits_bounded hs hs').1 waits still⟩
  · have before : (run (step 1) (.listening 2) bothStored).map
        (fun s => (s.isAt 6 .stored, s.line.idxOf 6)) = some (true, 1) := by decide +kernel
    have after : (run (step 1) (.listening 2) (bothStored ++ List.replicate 5 (.worker 0))).map
        (fun s => (s.isAt 5 (.recorded 0), s.isAt 6 .stored)) = some (true, true) := by
      decide +kernel
    obtain ⟨s, hs, he⟩ := Option.map_eq_some_iff.mp before
    obtain ⟨waits, second⟩ := Prod.mk.inj he
    obtain ⟨s', hs', he'⟩ := Option.map_eq_some_iff.mp after
    obtain ⟨recorded, still⟩ := Prod.mk.inj he'
    rw [run_append, hs, Option.bind_some] at hs'
    exact ⟨s, s', hs, hs', waits, recorded, still, second, (waits_bounded hs hs').2 waits still⟩

end EpollServer.Server
