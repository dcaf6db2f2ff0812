import EpollServer.WorkerPool.Storage
import EpollServer.Library.Lock

/-!
# Workers and `locker_`

A worker that has found `event_storage_` not empty locks `locker_` and looks again. It is then two
steps from the unlock, or five if it pops a client, and it waits for nothing on the way.
-/
namespace EpollServer.WorkerPool

open Library

/-- How many steps of its own a worker takes at most until it unlocks `locker_`. -/
def Pc.remaining : Pc → ℕ
  | .retest => 5
  | .pop => 4
  | .record _ => 3
  | .register _ => 2
  | .unlock => 1
  | .unstarted | .top | .lock | .decrement | .test | .loadAvail | .loadDivisor | .poll _
  | .handle _ | .reading _ _ | .hangup _ _ | .increment => 0

/-- The same for all threads; `tasks` says it for the pool threads. -/
def State.remaining (s : State) (tasks : ℕ → ℕ) : Holder → ℕ
  | .worker i => s.workers[i]?.elim 0 (·.pc.remaining)
  | .task j => tasks j

/-- The worker that takes the step. -/
def Act.isOf : Act → Holder → Bool
  | .worker i, k | .register i _, k | .poll i _, k | .read i _, k => k == .worker i
  | .startup _, _ | .taskLock _, _ | .taskEmplace _ _, _ | .taskUnlock _, _ => false

variable {s s' : State} {a : Act} {tasks : ℕ → ℕ}

theorem remaining_update {i : ℕ} {w u : Worker} {r : ℕ} (worker : s.workers[i]? = some w)
    (workers : s'.workers = s.workers.set i u) (after : u.pc.remaining = r) :
    s'.remaining tasks = Function.update (s.remaining tasks) (.worker i) r := by
  have inside := (List.getElem?_eq_some_iff.mp worker).1
  funext k
  cases k with
  | worker j =>
    by_cases same : j = i
    · subst same
      simp [State.remaining, workers, inside, after]
    · simp [State.remaining, workers, List.getElem?_set_ne (Ne.symm same), same]
  | task j => simp [State.remaining]

theorem remaining_of {i : ℕ} {w : Worker} (worker : s.workers[i]? = some w) :
    s.remaining tasks (.worker i) = w.pc.remaining := by
  simp [State.remaining, worker]

/-- A step of a worker outside of its critical section. -/
theorem remaining_same {i : ℕ} {w u : Worker} (worker : s.workers[i]? = some w)
    (workers : s'.workers = s.workers.set i u) (same : u.pc.remaining = w.pc.remaining) :
    s'.remaining tasks = s.remaining tasks := by
  have before : s.remaining tasks (.worker i) = w.pc.remaining := remaining_of worker
  rw [remaining_update worker workers same, ← before, Function.update_eq_self]

/-- What a step of the worker pool does to `locker_`, where no task takes part. -/
theorem Move.locks (guarded : Guarded s) (m : Move s a s') (alone : ∀ j, a ≠ .taskLock j ∧
    (∀ info, a ≠ .taskEmplace j info) ∧ a ≠ .taskUnlock j) (tasks : ℕ → ℕ) :
    Locks a.isOf s.locker s'.locker (s.remaining tasks) (s'.remaining tasks) := by
  have outside {i : ℕ} {w : Worker} (worker : s.workers[i]? = some w)
      (pc : w.pc.remaining = 0) (k : Holder) (own : (k == .worker i) = true) :
      s.remaining tasks k = 0 := by
    rw [eq_of_beq own, remaining_of worker, pc]
  cases m
  case startWorker i w _ worker =>
    refine .other rfl (remaining_same worker rfl ?_) (by simp [Act.isOf])
    rcases w.pc_start _ with same | ⟨unstarted, top⟩
    · rw [same]
    · rw [unstarted, top]
      rfl
  case lock i w worker pc free =>
    exact .take (.worker i) 5 free rfl (by decide) (remaining_update worker rfl rfl)
  case miss i w worker pc _ =>
    refine .go (.worker i) 1 rfl (by decide) ?_ (remaining_update worker rfl rfl)
    rw [remaining_of worker, pc]
    decide
  case seeAgain i w worker pc _ =>
    refine .go (.worker i) 4 rfl (by decide) ?_ (remaining_update worker rfl rfl)
    rw [remaining_of worker, pc]
    decide
  case pop i w info rest worker pc _ =>
    refine .go (.worker i) 3 rfl (by decide) ?_ (remaining_update worker rfl rfl)
    rw [remaining_of worker, pc]
    decide
  case record i w info worker pc =>
    refine .go (.worker i) 2 rfl (by decide) ?_ (remaining_update worker rfl rfl)
    rw [remaining_of worker, pc]
    simp [Pc.remaining]
  case register i _ w info worker pc =>
    refine .go (.worker i) 1 rfl (by decide) ?_ (remaining_update worker rfl rfl)
    rw [remaining_of worker, pc]
    simp [Pc.remaining]
  case unlock i w worker pc =>
    exact .release (.worker i) (guarded.holder i w worker (by rw [pc]; rfl)) rfl
      (remaining_update worker rfl rfl)
  case popEmpty i w worker pc empty => exact absurd empty (guarded.nonempty i w worker pc)
  case divideByZero i w worker pc _ =>
    exact .other rfl rfl (outside worker (by rw [pc]; rfl))
  case taskLock j _ => exact absurd rfl (alone j).1
  case taskEmplace j info _ => exact absurd rfl ((alone j).2.1 info)
  case taskUnlock j _ => exact absurd rfl (alone j).2.2
  case enter | startedAll | store | create | setStarted => exact .other rfl rfl (by simp [Act.isOf])
  all_goals
    have worker := ‹s.workers[_]? = some _›
    have pc := ‹Worker.pc _ = _›
    exact .other rfl (remaining_same worker rfl (by rw [pc]; rfl))
      (outside worker (by rw [pc]; rfl))

end EpollServer.WorkerPool
