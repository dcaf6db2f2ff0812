import EpollServer.WorkerPool.Machine

/-!
# What a worker still has to do

A worker has a number of steps to take before it is in `epoll_wait` again, for which it depends on
no other thread but the one that holds `locker_`. Each of its steps lowers the number by one at
least, and it rises only when `epoll_wait` returns. The caller of `startup` has such a number, too.
-/
namespace EpollServer.WorkerPool

open Library

variable {s s' : State} {a : Act} {i : ℕ}

/-- The steps of a worker to its next `epoll_wait`. A worker that has no thread yet begins at the
top of its loop. -/
def Pc.effort : Pc → ℕ
  | .handle events => 3 * events.length + 12
  | .reading _ rest => 3 * rest.length + 14
  | .hangup _ rest => 3 * rest.length + 13
  | .increment => 11
  | .unstarted | .top => 10
  | .lock => 9
  | .retest => 8
  | .pop => 7
  | .record _ => 6
  | .register _ => 5
  | .unlock => 4
  | .decrement => 3
  | .test => 2
  | .loadAvail | .loadDivisor => 1
  | .poll _ => 0

/-- A fault is the last step of every worker. -/
def State.effort (s : State) (i : ℕ) : ℕ :=
  if s.fault.isSome then 0 else (s.workers[i]?).elim 0 (·.pc.effort)

/-- The action is a step of worker `i` other than the return of its `epoll_wait`. -/
def Act.ofWorker (i : ℕ) : Act → Bool
  | .worker j | .register j _ | .read j _ => j == i
  | _ => false

/-- What `epoll_wait` gives worker `i` to do. -/
def Act.polled (i : ℕ) : Act → ℕ
  | .poll j events => if j = i then 3 * events.length + 12 else 0
  | _ => 0

theorem effort_eq (running : s.fault = none) :
    s.effort i = (s.workers[i]?).elim 0 (·.pc.effort) := by
  simp [State.effort, running]

theorem ind_beq {j : ℕ} (other : j ≠ i) : ind (j == i) = 0 := by
  rw [beq_eq_false_iff_ne.mpr other, ind_false]

/-- A worker goes on. -/
theorem effort_set {j : ℕ} {w u : Worker} {c d : ℕ} (running : s.fault = none)
    (worker : s.workers[j]? = some w) (workers : s'.workers = s.workers.set j u)
    (fault : s'.fault = s.fault) (own : j = i → u.pc.effort + c ≤ w.pc.effort + d)
    (foreign : j ≠ i → c = 0) : s'.effort i + c ≤ s.effort i + d := by
  rw [effort_eq running, effort_eq (fault.trans running), workers]
  by_cases mine : j = i
  · subst mine
    have inside := (List.getElem?_eq_some_iff.mp worker).1
    rw [List.getElem?_set_self inside, worker]
    exact own rfl
  · rw [List.getElem?_set_ne mine, foreign mine]
    omega

/-- A worker fails in its own step. -/
theorem effort_raise {j : ℕ} {w : Worker} {f : Fault} (running : s.fault = none)
    (worker : s.workers[j]? = some w) (more : 0 < w.pc.effort) :
    (s.raise f).effort i + ind (j == i) ≤ s.effort i := by
  have last : (s.raise f).effort i = 0 := rfl
  rw [last, effort_eq running]
  by_cases mine : j = i
  · subst mine
    simp only [worker, Option.elim_some, beq_self_eq_true, ind_true]
    omega
  · rw [ind_beq mine]
    exact Nat.zero_le _

theorem Move.effort_le (m : Move s a s') (running : s.fault = none) :
    s'.effort i + ind (a.ofWorker i) ≤ s.effort i + a.polled i := by
  cases m
  case startWorker ok j w at_ worker =>
    refine effort_set running worker rfl rfl (fun _ => ?_) fun _ => rfl
    rcases w.pc_start ok with same | ⟨before, after⟩
    · rw [same]
      exact Nat.le_refl _
    · rw [before, after]
      exact Nat.le_refl _
  case popEmpty worker pc _ | divideByZero worker pc _ =>
    exact effort_raise running worker (by simp [pc, Pc.effort])
  case poll j events w wttme worker pc =>
    refine effort_set running worker rfl rfl (fun mine => ?_) fun _ => rfl
    simp [pc, Pc.effort, Act.ofWorker, Act.polled, mine]
  case enter | startedAll | store | create | setStarted | taskLock | taskEmplace | taskUnlock =>
    exact Nat.le_add_right _ _
  all_goals
    refine effort_set running ‹s.workers[_]? = some _› rfl rfl (fun mine => ?_) fun other => ?_
    · have pc := ‹Worker.pc _ = _›
      rw [pc]
      grind [Pc.effort, Act.ofWorker, Act.polled, State.goto]
    · exact ind_beq other

/-! ## The caller of `startup` -/

/-- The steps of the caller of `startup`, where there are `n` workers. -/
def Startup.left (n : ℕ) : Startup → ℕ
  | .idle => n + 5
  | .start i => n - i + 4
  | .store => 3
  | .create => 2
  | .setStarted => 1
  | .returned => 0

theorem Move.left_startup {ok : Bool} (m : Move s (.startup ok) s') :
    s'.startup.left s'.workers.length + 1 = s.startup.left s.workers.length := by
  cases m
  case startWorker at_ worker =>
    have inside := (List.getElem?_eq_some_iff.mp worker).1
    simp only [at_, Startup.left, State.setWorker, List.length_set]
    omega
  case startedAll i at_ last =>
    have outside := List.getElem?_eq_none_iff.mp last
    simp only [at_, Startup.left]
    omega
  all_goals simp [Startup.left, *]

end EpollServer.WorkerPool
