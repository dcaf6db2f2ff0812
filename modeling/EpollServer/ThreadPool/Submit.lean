import EpollServer.ThreadPool.Queue

/-!
# The result of `submit` and what it did

`submit` makes three pthread calls, each of which may fail. The lock comes before every change;
the signal and the unlock come after the task was put into the ring, and their failures are
reported with the code that a failed lock has. So a caller that sees an error code does not know
whether its task is queued, and one that tries again may have it run twice.
-/
namespace EpollServer.ThreadPool

open Library

variable {Fn Arg R : Type}

/-- The pool before `create`, where the ring has no slot, or with a ring that holds `items`. -/
def Pool.Steady (p : Pool Fn Arg) : Prop :=
  p.workCount = p.queueSize ∨ ∃ items, p.Represents items

/-- The ring variables that a refused task must leave alone. -/
structure Pool.SameRing (p q : Pool Fn Arg) : Prop where
  workQueue : q.workQueue = p.workQueue
  tail : q.tail = p.tail
  workCount : q.workCount = p.workCount

/-- The ring of `q` holds what that of `p` holds, with one more task behind it. -/
def Pool.Appended (p : Pool Fn Arg) (task : Task Fn Arg) (q : Pool Fn Arg) : Prop :=
  ∃ items, p.Represents items ∧ q.Represents (items ++ [task])

/-- An error code means that nothing was queued, the code 0 that exactly this task was. -/
def Pool.AllOrNothing (p : Pool Fn Arg) (args : Option Arg) (func : Option Fn)
    (calls : SubmitCalls) : Prop :=
  ∃ q code, p.submit args func calls = .ok (q, code) ∧ (code ≠ 0 → p.SameRing q) ∧
    (code = 0 → p.Appended ⟨func, args⟩ q)

variable {p : Pool Fn Arg} {items : List (Task Fn Arg)} {args : Option Arg} {func : Option Fn}
  {calls : SubmitCalls}

theorem Pool.SameRing.refl (p : Pool Fn Arg) : p.SameRing p := ⟨rfl, rfl, rfl⟩

/-! ## The exits of `submit` -/

theorem SubmitCalls.release_ne_zero {err : Int} (h : err ≠ 0) : calls.release err ≠ 0 := by
  unfold release
  split_ifs
  · decide
  · exact h

/-- The task is in the ring when the last two calls decide about the code. -/
theorem SubmitCalls.release_eq_zero :
    calls.release (if calls.condSignal ≠ 0 then threadpoolLockFailure else 0) = 0 ↔
      calls.condSignal = 0 ∧ calls.mutexUnlock = 0 := by
  unfold release
  split_ifs <;> simp_all [threadpoolLockFailure]

theorem Pool.submit_lock_failure (failed : calls.mutexLock ≠ 0) :
    p.submit args func calls = .ok (p, threadpoolLockFailure) := if_pos failed

theorem Pool.submit_refused (locked : calls.mutexLock = 0)
    (refused : p.workCount = p.queueSize ∨ p.shutdown = true) :
    ∃ code, p.submit args func calls = .ok (p, code) ∧ code ≠ 0 := by
  unfold submit
  rw [if_neg (by simpa using locked)]
  by_cases full : p.workCount = p.queueSize
  · exact ⟨_, if_pos full, calls.release_ne_zero (by decide)⟩
  · have closed := refused.resolve_left full
    rw [if_neg full]
    exact ⟨_, if_pos closed, calls.release_ne_zero (by decide)⟩

theorem Pool.submit_accepted (locked : calls.mutexLock = 0) (space : p.workCount ≠ p.queueSize)
    (open_ : p.shutdown = false) {q : Pool Fn Arg} (enqueued : p.enqueue ⟨func, args⟩ = .ok q) :
    p.submit args func calls =
      .ok (q, calls.release (if calls.condSignal ≠ 0 then threadpoolLockFailure else 0)) := by
  unfold submit
  rw [if_neg (by simpa using locked), if_neg space, if_neg (by simp [open_]), enqueued]
  rfl

/-- The lock fails, or the task is refused under it. -/
def SubmitCalls.Refused (calls : SubmitCalls) (p : Pool Fn Arg) : Prop :=
  calls.mutexLock ≠ 0 ∨ p.workCount = p.queueSize ∨ p.shutdown = true

/-- Both calls after the change of the ring succeed. -/
def SubmitCalls.Completed (calls : SubmitCalls) : Prop :=
  calls.condSignal = 0 ∧ calls.mutexUnlock = 0

/-- `submit` either changes nothing and returns an error code, or appends the task and returns
0 if and only if the calls after that succeed. -/
theorem Pool.Steady.submit (steady : p.Steady) (args : Option Arg) (func : Option Fn)
    (calls : SubmitCalls) :
    ∃ q code, p.submit args func calls = .ok (q, code) ∧
      (calls.Refused p ∧ q = p ∧ code ≠ 0 ∨
        ¬ calls.Refused p ∧ p.Appended ⟨func, args⟩ q ∧ (code = 0 ↔ calls.Completed)) := by
  by_cases locked : calls.mutexLock = 0
  · by_cases refused : p.workCount = p.queueSize ∨ p.shutdown = true
    · obtain ⟨code, submitted, ne⟩ :
          ∃ code, p.submit args func calls = .ok (p, code) ∧ code ≠ 0 :=
        Pool.submit_refused locked refused
      exact ⟨p, code, submitted, .inl ⟨.inr refused, rfl, ne⟩⟩
    · have accepted := refused
      simp only [not_or, Bool.not_eq_true] at refused
      obtain ⟨space, open_⟩ := refused
      obtain ⟨items, h⟩ := steady.resolve_left space
      obtain ⟨q, enqueued, held, -⟩ := h.enqueue space ⟨func, args⟩
      refine ⟨q, _, Pool.submit_accepted locked space open_ enqueued, .inr ⟨?_, ?_, ?_⟩⟩
      · rintro (unlocked | full)
        · exact unlocked locked
        · exact accepted full
      · exact ⟨items, h, held⟩
      · exact SubmitCalls.release_eq_zero
  · exact ⟨p, _, Pool.submit_lock_failure locked, .inl ⟨.inl locked, rfl, by decide⟩⟩

/-- So the state stays of this kind, whatever the calls return. -/
theorem Pool.Steady.after_submit (steady : p.Steady) {q : Pool Fn Arg} {code : Int}
    (submitted : p.submit args func calls = .ok (q, code)) : q.Steady := by
  obtain ⟨q', code', submitted', outcome⟩ := steady.submit args func calls
  obtain ⟨rfl, rfl⟩ : q = q' ∧ code = code' := by simpa [submitted] using submitted'
  rcases outcome with ⟨-, rfl, -⟩ | ⟨-, ⟨items, -, held⟩, -⟩
  · exact steady
  · exact .inr ⟨_, held⟩

/-- A caller that takes such a code for a refusal and tries again has its task run twice. -/
theorem Pool.Represents.retry_twice (h : p.Represents items) (locked : calls.mutexLock = 0)
    (space : p.workCount + 1 < p.queueSize) (open_ : p.shutdown = false)
    (failed : ¬ calls.Completed) :
    ∃ q code q', p.submit args func calls = .ok (q, code) ∧ code ≠ 0 ∧
      q.submit args func .succeed = .ok (q', 0) ∧
      q'.Represents (items ++ [⟨func, args⟩, ⟨func, args⟩]) := by
  obtain ⟨q, enqueued, held, size⟩ := h.enqueue (by omega) ⟨func, args⟩
  have submitted : p.submit args func calls = .ok (q, _) :=
    Pool.submit_accepted locked (by omega) open_ enqueued
  have more : q.workCount ≠ q.queueSize := by
    have := h.workCount_eq
    have := held.workCount_eq
    simp only [List.length_append, List.length_singleton] at this
    omega
  obtain ⟨q', enqueued', held', -⟩ := held.enqueue more ⟨func, args⟩
  have still : q.shutdown = false := by
    obtain ⟨_, _, rfl⟩ := Pool.enqueue_eq enqueued
    exact open_
  refine ⟨q, _, q', submitted, fun zero => ?_, Pool.submit_accepted rfl more still enqueued', ?_⟩
  · exact failed (SubmitCalls.release_eq_zero.mp zero)
  · simpa using held'

/-! ## All or nothing -/

/-- A queued task shows in `work_count`. -/
theorem Pool.Appended.not_sameRing {q : Pool Fn Arg} {task : Task Fn Arg}
    (h : p.Appended task q) : ¬ p.SameRing q := by
  intro same
  obtain ⟨items, before, after⟩ := h
  have := before.workCount_eq
  have := after.workCount_eq
  have := same.workCount
  simp only [List.length_append, List.length_singleton] at *
  omega

/-- An accepted task is reported as refused if one of the last two calls fails. -/
theorem Pool.Steady.not_allOrNothing (steady : p.Steady) (accepted : ¬ calls.Refused p)
    (failed : ¬ calls.Completed) : ¬ p.AllOrNothing args func calls := by
  obtain ⟨q, code, submitted, outcome⟩ := steady.submit args func calls
  obtain ⟨-, appended, zero_iff⟩ := outcome.resolve_left fun refused => accepted refused.1
  rintro ⟨q', code', submitted', unchanged, -⟩
  obtain ⟨rfl, rfl⟩ : q = q' ∧ code = code' := by simpa [submitted] using submitted'
  exact appended.not_sameRing (unchanged fun zero => failed (zero_iff.mp zero))

/-- In every state of the pool `submit` is all-or-nothing if and only if its lock fails, it
refuses the task, or its signal and its unlock both succeed. -/
theorem submit_allOrNothing_iff (steady : p.Steady) :
    p.AllOrNothing args func calls ↔ calls.Refused p ∨ calls.Completed := by
  constructor
  · intro all
    by_contra silent
    obtain ⟨accepted, failed⟩ := not_or.mp silent
    exact steady.not_allOrNothing accepted failed all
  · intro tells
    obtain ⟨q, code, submitted, outcome⟩ := steady.submit args func calls
    rcases outcome with ⟨-, rfl, ne⟩ | ⟨accepted, appended, zero_iff⟩
    · exact ⟨q, code, submitted, fun _ => .refl q, fun zero => absurd zero ne⟩
    · have zero := zero_iff.mpr (tells.resolve_left accepted)
      exact ⟨q, code, submitted, fun ne => absurd zero ne, fun _ => appended⟩

/-- A pool whose ring has 1024 free slots. -/
def emptyPool : Pool ℕ ℕ := (Pool.constructed : Pool ℕ ℕ).create 1024

theorem emptyPool_represents : emptyPool.Represents [] :=
  (Pool.Represents.create .constructed 1024 rfl).1

theorem emptyPool_space : emptyPool.workCount ≠ emptyPool.queueSize := by
  simp [emptyPool, Pool.create, Pool.constructed, coerceIn, maxQueue]

/-- The ring holds one task. While the pool is open a second one is appended, and after
`shutdown` it is refused, though the signal would fail. -/
theorem submit_allOrNothing_iff_oneTask :
    ∃ p : Pool ℕ ℕ, p.Represents [⟨some 1, none⟩] ∧ p.shutdown = false ∧
      p.AllOrNothing none (some 2) .succeed ∧
      (p.raiseShutdown .gracefulShutdown).submit none (some 2) ⟨0, 22, 0⟩ =
        .ok (p.raiseShutdown .gracefulShutdown, threadpoolShutdown) ∧
      (p.raiseShutdown .gracefulShutdown).AllOrNothing none (some 2) ⟨0, 22, 0⟩ := by
  obtain ⟨p, enqueued, held, size⟩ := emptyPool_represents.enqueue emptyPool_space ⟨some 1, none⟩
  have closed : (p.raiseShutdown .gracefulShutdown).Represents [⟨some 1, none⟩] := held
  have open_ : p.shutdown = false := by
    obtain ⟨_, _, rfl⟩ := Pool.enqueue_eq enqueued
    rfl
  have space : (p.raiseShutdown .gracefulShutdown).workCount ≠
      (p.raiseShutdown .gracefulShutdown).queueSize := by
    rw [closed.workCount_eq]
    show ((1 : ℕ) : Int) ≠ p.queueSize
    rw [size]
    decide
  refine ⟨p, held, open_, (submit_allOrNothing_iff (.inr ⟨_, held⟩)).mpr (.inr ⟨rfl, rfl⟩), ?_,
    (submit_allOrNothing_iff (.inr ⟨_, closed⟩)).mpr (.inl (.inr (.inr rfl)))⟩
  rw [Pool.submit, if_neg (by simp), if_neg space]
  rfl

/-- The signal fails after the task was put into the empty ring: the code says failure, and
the task will be run. -/
theorem signalFailure_not_allOrNothing : ¬ emptyPool.AllOrNothing none (some 1) ⟨0, 22, 0⟩ := by
  apply Pool.Steady.not_allOrNothing (.inr ⟨[], emptyPool_represents⟩)
  · have open_ : emptyPool.shutdown = false := rfl
    simp [SubmitCalls.Refused, emptyPool_space, open_]
  · simp [SubmitCalls.Completed]

/-- Every state of the pool that a run reaches is of this kind. -/
theorem steady_of_run {start : Task Fn Arg → R} {s : State Fn Arg R} {acts : List (Act Fn Arg R)}
    (h : run (step start) .constructed acts = some s) : s.pool.Steady := by
  rcases queued_of_run h with unborn | ⟨-, _, _, q, -, held, -⟩
  · exact .inl (unborn.workCount.trans unborn.queueSize.symm)
  · exact .inr ⟨q.items, held⟩

end EpollServer.ThreadPool
