import EpollServer.ThreadPool.Machine

/-!
# What the pool threads hold

A running task holds something until it gives it away or returns: `held f` adds up `f` over the
states of the running tasks. A task is picked up by the step that delivers it, dropped by the
step that returns from it, and changed by its own steps; no other step of the pool matters.

The second part lists what only `create`, `shutdown` and `submit` can change, for the users of a
pool that call them seldom or never.
-/
namespace EpollServer.ThreadPool

open Library

variable {Fn Arg R : Type} {start : Task Fn Arg → R} {s s' : State Fn Arg R} {a : Act Fn Arg R}

/-- The state of the task that thread `i` runs. -/
def State.running (s : State Fn Arg R) (i : ℕ) : Option R :=
  s.threads[i]?.bind fun t => match t.pc with
    | .running r => some r
    | _ => none

theorem State.running_of {i : ℕ} {t : Thread R} {r : R} (thread : s.threads[i]? = some t)
    (pc : t.pc = .running r) : s.running i = some r := by
  rw [State.running, thread, Option.bind_some, pc]

def Thread.holding (f : R → ℕ) (t : Thread R) : ℕ :=
  match t.pc with
  | .running r => f r
  | _ => 0

def State.held (f : R → ℕ) (s : State Fn Arg R) : ℕ := tally (Thread.holding f) s.threads

variable {f : R → ℕ}

theorem holding_set {i : ℕ} {t u : Thread R} (thread : s.threads[i]? = some t) :
    tally (Thread.holding f) (s.threads.set i u) + t.holding f =
      tally (Thread.holding f) s.threads + u.holding f := tally_set thread

/-- A thread that runs a task neither before nor after its step. -/
theorem holding_set_eq {i : ℕ} {t u : Thread R} (thread : s.threads[i]? = some t)
    (before : t.holding f = 0) (after : u.holding f = 0) :
    tally (Thread.holding f) (s.threads.set i u) = tally (Thread.holding f) s.threads := by
  have := holding_set (f := f) (u := u) thread
  omega

theorem holding_unpark (selected : ℕ → Bool) (threads : List (Thread R)) :
    tally (Thread.holding f) (unpark selected threads) = tally (Thread.holding f) threads := by
  refine tally_mapIdx _ _ _ _ fun i t => ?_
  split_ifs with h
  · obtain ⟨-, parked⟩ := Bool.and_eq_true_iff.mp h
    unfold Thread.holding
    cases hpc : t.pc <;> simp [hpc, Pc.isParked] at parked ⊢
  · rfl

/-- What a step does to the tasks in the hands of the threads, and to the history. -/
inductive Handling (f : R → ℕ) (start : Task Fn Arg → R) (s : State Fn Arg R) :
    Act Fn Arg R → State Fn Arg R → Prop where
  | submit {args : Option Arg} {func : Option Fn} {woken : List ℕ} {s' : State Fn Arg R}
      (accepted : s'.accepted = s.accepted ++ [⟨func, args⟩])
      (delivered : s'.delivered = s.delivered) (held : s'.held f = s.held f) :
      Handling f start s (.submit args func woken) s'
  | take {i : ℕ} {task : Task Fn Arg} {s' : State Fn Arg R} (accepted : s'.accepted = s.accepted)
      (delivered : s'.delivered = s.delivered ++ [task])
      (held : s'.held f = s.held f + f (start task)) : Handling f start s (.thread i) s'
  | finish {i : ℕ} {r : R} {s' : State Fn Arg R} (running : s.running i = some r)
      (accepted : s'.accepted = s.accepted) (delivered : s'.delivered = s.delivered)
      (held : s'.held f + f r = s.held f) : Handling f start s (.thread i) s'
  | work {i : ℕ} {r₀ r : R} {s' : State Fn Arg R} (running : s.running i = some r₀)
      (accepted : s'.accepted = s.accepted) (delivered : s'.delivered = s.delivered)
      (held : s'.held f + f r₀ = s.held f + f r) : Handling f start s (.work i r) s'
  | other {a : Act Fn Arg R} {s' : State Fn Arg R} (accepted : s'.accepted = s.accepted)
      (delivered : s'.delivered = s.delivered) (held : s'.held f = s.held f)
      (idle : ∀ i r, a ≠ .work i r) : Handling f start s a s'

theorem Move.handling (f : R → ℕ) (m : Move start s a s') : Handling f start s a s' := by
  have idle {t : Thread R} {pc : Pc R} (at_ : t.pc = pc) (out : ∀ r, pc ≠ .running r) :
      t.holding f = 0 := by
    unfold Thread.holding
    cases hpc : t.pc with
    | running r => exact absurd (at_.symm.trans hpc) (out r)
    | _ => rfl
  have waiting {t : Thread R} (at_ : t.pc = .ready ∨ t.pc = .woken) : t.holding f = 0 :=
    at_.elim (idle · (by simp)) (idle · (by simp))
  cases m
  case spawn =>
    refine .other rfl rfl ?_ (by simp)
    simp [State.held, Thread.holding]
  case accept => exact .submit rfl rfl (holding_unpark _ _)
  case wake | shutdown => exact .other rfl rfl (holding_unpark _ _) (by simp)
  case start i t at_ pc _ | count i t at_ pc _ | pin i t at_ pc _ | exit i t at_ pc =>
    exact .other rfl rfl (holding_set_eq at_ (idle pc (by simp)) rfl) (by simp)
  case park i t at_ pc _ _ _ | leave i t at_ pc _ _ =>
    exact .other rfl rfl (holding_set_eq at_ (waiting pc) rfl) (by simp)
  case take i t task pool at_ pc _ _ _ _ =>
    have moved : tally (Thread.holding f)
        (s.threads.set i { t with pc := .running (start task) }) + t.holding f =
        tally (Thread.holding f) s.threads + f (start task) := holding_set at_
    exact .take rfl rfl (by rw [waiting pc] at moved; exact moved)
  case finish i t r at_ pc =>
    have moved : tally (Thread.holding f) (s.threads.set i { t with pc := .ready }) +
        t.holding f = tally (Thread.holding f) s.threads + 0 := holding_set at_
    rw [show t.holding f = f r by rw [Thread.holding, pc]] at moved
    exact .finish (State.running_of at_ pc) rfl rfl moved
  case work i r t r₀ at_ pc =>
    have moved : tally (Thread.holding f) (s.threads.set i { t with pc := .running r }) +
        t.holding f = tally (Thread.holding f) s.threads + f r := holding_set at_
    rw [show t.holding f = f r₀ by rw [Thread.holding, pc]] at moved
    exact .work (State.running_of at_ pc) rfl rfl moved
  all_goals exact .other rfl rfl rfl (by simp)

/-! ## What stays as it is -/

/-- The action is a call of `create` or `shutdown`, or a step of the latter. -/
def Act.administers : Act Fn Arg R → Bool
  | .create _ _ _ | .shutdown _ | .closer => true
  | .creator _ | .submit _ _ _ | .wake _ | .thread _ | .work _ _ => false

/-- Tasks, clients and start-up leave the size of the queue and the shutdown state alone. -/
theorem Move.settings (m : Move start s a s') (h : a.administers = false) :
    s'.pool.queueSize = s.pool.queueSize ∧ s'.pool.shutdown = s.pool.shutdown ∧
      s'.closer = s.closer ∧ s'.released = s.released := by
  cases m
  case accept enqueued _ =>
    obtain ⟨_, _, rfl⟩ := Pool.enqueue_eq enqueued
    exact ⟨rfl, rfl, rfl, rfl⟩
  case take dequeued =>
    obtain ⟨_, _, rfl⟩ := Pool.dequeue_eq dequeued
    exact ⟨rfl, rfl, rfl, rfl⟩
  all_goals first
    | exact ⟨rfl, rfl, rfl, rfl⟩
    | cases h

/-- An empty ring is filled by `submit` only. -/
theorem Move.workCount_eq_zero (m : Move start s a s') (empty : s.pool.workCount = 0)
    (other : ∀ args func woken, a ≠ .submit args func woken) : s'.pool.workCount = 0 := by
  cases m
  case take work _ => exact absurd empty work
  all_goals first
    | exact empty
    | rfl
    | exact absurd rfl (other _ _ _)

/-- The caller of `create` goes on by its own steps only. -/
theorem Move.creator_eq (m : Move start s a s') (h : a.administers = false)
    (other : ∀ ok, a ≠ .creator ok) :
    s'.creator = s.creator ∧ s'.threads.length = s.threads.length := by
  cases m
  all_goals first
    | exact ⟨rfl, rfl⟩
    | exact ⟨rfl, by simp [State.setThread, unpark]⟩
    | exact absurd rfl (other _)
    | cases h

/-! ## When all threads run tasks of one kind -/

/-- The thread runs a task in a state that satisfies `q`. -/
def Thread.runs (q : R → Bool) (t : Thread R) : Bool :=
  match t.pc with
  | .running r => q r
  | _ => false

theorem runs_unpark (q : R → Bool) (selected : ℕ → Bool) (threads : List (Thread R)) :
    (unpark selected threads).map (Thread.runs q) = threads.map (Thread.runs q) :=
  unpark_map _ (fun t parked => by simp [Thread.runs, parked]) selected threads

/-- If all threads run tasks of a kind after a step, they did so before it, or the step is the
one by which the last of them came to do so. -/
theorem Move.all_running {q : R → Bool} (m : Move start s a s')
    (all : ∀ t ∈ s'.threads, t.runs q = true) :
    (∀ t ∈ s.threads, t.runs q = true) ∨
    (∃ i t task pool, a = .thread i ∧ s.threads[i]? = some t ∧ (t.pc = .ready ∨ t.pc = .woken) ∧
      s.pool.workCount ≠ 0 ∧ s.pool.dequeue = .ok (task, pool) ∧ s'.pool = pool ∧
      q (start task) = true ∧ ∀ j u, j ≠ i → s.threads[j]? = some u → u.runs q = true) ∨
    ∃ i r, a = .work i r ∧ q r = true := by
  have mine {i : ℕ} {t u : Thread R} (at_ : s.threads[i]? = some t)
      (set : s'.threads = s.threads.set i u) : u.runs q = true := by
    refine all u ?_
    rw [set]
    exact List.mem_set (List.getElem?_eq_some_iff.mp at_).1 u
  have unparked (selected : ℕ → Bool) (threads : s'.threads = unpark selected s.threads) :
      ∀ t ∈ s.threads, t.runs q = true := by
    have same := runs_unpark q selected s.threads
    rw [← threads] at same
    intro t ht
    have : t.runs q ∈ s'.threads.map (Thread.runs q) := same ▸ List.mem_map_of_mem ht
    obtain ⟨u, hu, he⟩ := List.mem_map.mp this
    exact he ▸ all u hu
  cases m
  case spawn => cases all ⟨.created, none⟩ (by simp)
  case accept | wake | shutdown => exact .inl (unparked _ rfl)
  case start at_ _ _ | count at_ _ _ | pin at_ _ _ | park at_ _ _ _ _ | leave at_ _ _ _ |
      finish at_ _ | exit at_ _ =>
    cases mine at_ rfl
  case take i t task pool at_ pc _ _ work dequeued =>
    refine .inr (.inl ⟨i, t, task, pool, rfl, at_, pc, work, dequeued, rfl,
      mine at_ rfl, ?_⟩)
    intro j u other hu
    refine all u (List.mem_of_getElem? (i := j) ?_)
    rw [← hu]
    exact List.getElem?_set_ne (Ne.symm other)
  case work i r t r₀ at_ _ => exact .inr (.inr ⟨i, r, rfl, mine at_ rfl⟩)
  all_goals exact .inl all

/-! ## Tasks of one kind -/

/-- Every function in the ring satisfies `q`, and every task in the hands of a thread `r`. -/
structure Carries (q : Fn → Prop) (r : R → Prop) (s : State Fn Arg R) : Prop where
  queued : ∀ task ∈ s.pool.workQueue, ∀ f, task.func = some f → q f
  running : ∀ t ∈ s.threads, ∀ job, t.pc = .running job → r job

variable {q : Fn → Prop} {r : R → Prop}

theorem Carries.constructed : Carries q r (.constructed : State Fn Arg R) where
  queued := by simp [State.constructed, Pool.constructed]
  running := by simp [State.constructed]

theorem Carries.mono {q' : Fn → Prop} {r' : R → Prop} (h : Carries q r s)
    (functions : ∀ f, q f → q' f) (jobs : ∀ job, r job → r' job) : Carries q' r' s where
  queued task mem f func := functions f (h.queued task mem f func)
  running t mem job pc := jobs job (h.running t mem job pc)

theorem Carries.of_running (h : Carries q r s) {i : ℕ} {job : R} (at_ : s.running i = some job) :
    r job := by
  obtain ⟨t, thread, pc⟩ := Option.bind_eq_some_iff.mp at_
  refine h.running t (List.mem_of_getElem? thread) job ?_
  split at pc
  · obtain rfl := Option.some.inj pc
    assumption
  · cases pc

/-- A step of one thread. -/
theorem Carries.setThread (h : Carries q r s) {i : ℕ} {u : Thread R} {pool : Pool Fn Arg}
    (threads : s'.threads = s.threads.set i u) (pool_ : s'.pool = pool)
    (queued : ∀ task ∈ pool.workQueue, task ∈ s.pool.workQueue ∨ task = .empty)
    (mine : ∀ job, u.pc = .running job → r job) : Carries q r s' where
  queued task mem f func := by
    rcases queued task (pool_ ▸ mem) with old | rfl
    · exact h.queued task old f func
    · cases func
  running t mem job pc := by
    rcases List.mem_or_eq_of_mem_set (threads ▸ mem) with old | rfl
    · exact h.running t old job pc
    · exact mine job pc

theorem Carries.unpark (h : Carries q r s) {selected : ℕ → Bool}
    (threads : s'.threads = unpark selected s.threads)
    (queued : ∀ task ∈ s'.pool.workQueue, ∀ f, task.func = some f → q f) : Carries q r s' where
  queued := queued
  running t mem job pc := by
    let state (t : Thread R) : Option R := match t.pc with
      | .running r => some r
      | _ => none
    have same := unpark_map state (fun t parked => by simp [state, parked]) selected s.threads
    have there : state t ∈ s.threads.map state := by
      rw [← same, ← threads]
      exact List.mem_map_of_mem mem
    obtain ⟨u, hu, he⟩ := List.mem_map.mp there
    have running : state u = some job := by rw [he]; simp only [state, pc]
    refine h.running u hu job ?_
    simp only [state] at running
    split at running
    · obtain rfl := Option.some.inj running
      assumption
    · cases running

/-- A function enters through `submit`, and a task in progress changes by its own steps. -/
theorem Carries.step (h : Carries q r s) (m : Move start s a s')
    (starts : ∀ task, (∀ f, task.func = some f → q f) → r (start task))
    (submits : ∀ args f woken, a = .submit args (some f) woken → q f)
    (works : ∀ i job, a = .work i job → r job) : Carries q r s' := by
  cases m
  case create =>
    refine ⟨fun task mem f func => ?_, h.running⟩
    rcases mem_vectorResize mem with old | rfl
    · exact h.queued task old f func
    · cases func
  case spawn =>
    refine ⟨h.queued, fun t mem job pc => ?_⟩
    rcases List.mem_append.mp mem with old | new
    · exact h.running t old job pc
    · rw [List.mem_singleton.mp new] at pc
      cases pc
  case accept args func woken pool _ _ enqueued _ =>
    refine h.unpark rfl fun task mem f hf => ?_
    rcases Pool.mem_enqueue enqueued mem with old | rfl
    · exact h.queued task old f hf
    · obtain rfl : func = some f := hf
      exact submits args f woken rfl
  case wake | shutdown => exact h.unpark rfl h.queued
  case take i t task pool at_ _ _ _ _ dequeued =>
    obtain ⟨mem, rest⟩ := Pool.mem_dequeue dequeued
    refine h.setThread rfl rfl rest fun job pc => ?_
    obtain rfl : start task = job := by simpa using pc
    exact starts task (h.queued task mem)
  case work i job t _ at_ _ =>
    refine h.setThread rfl rfl (fun _ => .inl) fun job' pc => ?_
    obtain rfl : job = job' := by simpa using pc
    exact works i job rfl
  case start | count | pin | park | leave | finish | exit =>
    exact h.setThread rfl rfl (fun _ => .inl) (by simp)
  all_goals exact ⟨h.queued, h.running⟩

end EpollServer.ThreadPool
