import EpollServer.Library.Charge
import EpollServer.ThreadPool.Closed

/-!
# `shutdown` returns

The caller of `shutdown` waits in `pthread_join` only, and each thread that it joins is on its way
out of its loop once its task has returned. So the caller and the threads have a number of steps
left that falls with each of them, and until `shutdown` has returned one of them can take the
next.

What may come in between is a thread that was not joined and uses the pool after its release.
-/
namespace EpollServer.ThreadPool

open Library

variable {Fn Arg R : Type} {start : Task Fn Arg → R} {s s' s₁ s₂ : State Fn Arg R}
  {a : Act Fn Arg R}

/-- The steps until `shutdown` has returned, where `n` threads were created. -/
def Closer.left (n : ℕ) : Closer → ℕ
  | .joinTest i => 2 * (n - i) + 4
  | .joinWait i => 2 * (n - i) + 3
  | .freeResource => 3
  | .destroy => 2
  | .delete => 1
  | .idle | .deleted => 0

/-- The steps of the caller of `shutdown` and of all threads; a fault is the last one. -/
def State.left (s : State Fn Arg R) : ℕ :=
  if s.fault.isSome then 0
  else s.closer.left s.threads.length + tally (·.pc.stepsLeft) s.threads

/-- The action is a step of the caller of `shutdown`, or of a thread outside of its task. -/
def Act.windsUp : Act Fn Arg R → Bool
  | .thread _ | .closer => true
  | _ => false

/-- What is known of a pool after the call of `shutdown`. -/
structure Shut (s : State Fn Arg R) : Prop where
  closing : Closing s
  attended : Attended s
  sound : Sound s
  closed : s.pool.shutdown = true

/-- A thread that was not joined is about to use the pool, or has just done so. -/
def State.Leaks (s : State Fn Arg R) : Prop :=
  ∃ i t, s.threads[i]? = some t ∧ t.pc.usesPool = true ∧ i ∉ s.joined

theorem shut_of_run {pre post : List (Act Fn Arg R)}
    (h₁ : run (step start) .constructed pre = some s₁) (closed : s₁.pool.shutdown = true)
    (h₂ : run (step start) s₁ post = some s₂) : Shut s₂ := by
  have reached : run (step start) .constructed (pre ++ post) = some s₂ := by
    rw [run_append, h₁]
    exact h₂
  exact ⟨closing_of_run reached, attended_of_run reached, (sound_of_run reached).1,
    (since_of_run h₁ closed h₂).frozen.shutdown.trans closed⟩

theorem State.left_eq (running : s.fault = none) :
    s.left = s.closer.left s.threads.length + tally (·.pc.stepsLeft) s.threads := by
  simp [left, running]

/-! ## Each step leaves less to do -/

/-- A thread takes its next step. -/
theorem left_thread {i : ℕ} {t u : Thread R} (running : s.fault = none)
    (at_ : s.threads[i]? = some t) (threads : s'.threads = s.threads.set i u)
    (closer : s'.closer = s.closer) (fault : s'.fault = none)
    (less : u.pc.stepsLeft + 1 = t.pc.stepsLeft) : s'.left + 1 ≤ s.left := by
  have moved := tally_set (f := fun t => t.pc.stepsLeft) (u := u) at_
  rw [State.left_eq running, State.left_eq fault, threads, closer, List.length_set]
  omega

/-- The caller of `shutdown` takes its next step. -/
theorem left_closer (running : s.fault = none) (threads : s'.threads = s.threads)
    (fault : s'.fault = none)
    (less : s'.closer.left s.threads.length + 1 ≤ s.closer.left s.threads.length) :
    s'.left + 1 ≤ s.left := by
  rw [State.left_eq running, State.left_eq fault, threads]
  omega

theorem Shut.left_step (h : Shut s) (running : s.fault = none) (m : Move start s a s') :
    s'.left + ind a.windsUp ≤ s.left := by
  have busy := h.closing.busy h.closed
  have settled := h.closing.settled busy
  have closed := h.closed
  cases m
  case create open_ => exact absurd open_ busy
  case shutdownAgain first _ _ => exact absurd first busy
  case zeroMask at_ | setMask at_ _ | setMaskFault at_ _ | spawn at_ | spawnFail at_ =>
    simp [at_, Creator.underWay] at settled
  case submitFault open_ _ | accept open_ _ _ | dequeueFault open_ _ _ | park open_ _ |
      take open_ _ _ | shutdown open_ =>
    simp [open_] at closed
  case refuse => exact Nat.le_refl _
  case wake i =>
    have same : unpark (· == i) s.threads = s.threads :=
      unpark_eq_self (h.attended.closed closed) _
    simp only [State.left, same]
    exact Nat.le_refl _
  case useAfterFree i t at_ _ uses =>
    have mine : 0 < t.pc.stepsLeft := by
      revert uses
      cases t.pc <;> simp [Pc.usesPool, Pc.stepsLeft]
    have counted := le_tally (f := fun t => t.pc.stepsLeft) (List.mem_of_getElem? at_)
    have last : (s.raise .useAfterFree).left = 0 := rfl
    rw [last, State.left_eq running]
    simp only [Act.windsUp, ind_true]
    omega
  case start at_ pc _ | count at_ pc _ | pin at_ pc _ | finish at_ pc | exit at_ pc =>
    exact left_thread running at_ rfl rfl running (by rw [pc]; rfl)
  case leave at_ pc _ _ =>
    exact left_thread running at_ rfl rfl running (by rcases pc with pc | pc <;> rw [pc] <;> rfl)
  case work i r t r₀ at_ pc =>
    have moved := tally_set (f := fun t => t.pc.stepsLeft) (u := { t with pc := .running r }) at_
    have same : Pc.stepsLeft (.running r) = t.pc.stepsLeft := by rw [pc]; rfl
    simp only [same] at moved
    rw [State.left_eq running, State.left_eq (s := s.setThread i _) running]
    simp only [State.setThread, List.length_set, Act.windsUp, ind_false]
    omega
  case joinNext at_ _ | joinLast at_ _ | destroy at_ | delete at_ =>
    refine left_closer running rfl running ?_
    rw [at_]
    simp only [Closer.left]
    omega
  case freeResource at_ =>
    refine left_closer running rfl running ?_
    rw [at_]
    simp only
    split_ifs <;> simp [Closer.left]
  case join i t at_ thread _ =>
    refine left_closer running rfl running ?_
    have inside := h.sound.joins i at_
    rw [at_]
    simp only [Closer.left]
    omega
  case joinFault i at_ outside =>
    have inside := h.sound.joins i at_
    have := List.getElem?_eq_none_iff.mp outside
    omega

/-! ## Someone can take the next step -/

variable (start) in
/-- The caller of `shutdown` has a step to take, or the thread that it joins has. -/
theorem Shut.goes_on (h : Shut s) (running : s.fault = none) :
    s.closer = .deleted ∨ (step start s .closer).isSome = true ∨
      ∃ i t, s.closer = .joinWait i ∧ s.threads[i]? = some t ∧ t.pc ≠ .terminated ∧
        (step start s (.thread i)).isSome = true := by
  have busy := h.closing.busy h.closed
  cases at_ : s.closer with
  | idle => exact absurd at_ busy
  | deleted => exact .inl rfl
  | joinTest | freeResource | destroy | delete =>
    exact .inr (.inl (by simp [ThreadPool.step, running, closerStep, at_]))
  | joinWait i =>
    have inside := h.sound.joins i at_
    have thread := List.getElem?_eq_getElem inside
    by_cases done : s.threads[i].pc = .terminated
    · exact .inr (.inl (by simp [ThreadPool.step, running, closerStep, at_, thread, done]))
    · have awake : s.threads[i].pc ≠ .parked := by
        intro parked
        have := parkedIn_pos.mpr ⟨_, List.getElem_mem inside, parked⟩
        have := h.attended.closed h.closed
        omega
      exact .inr (.inr ⟨i, _, rfl, thread, done, thread_enabled running thread done awake⟩)

/-- Nothing fails but what a thread does that was not joined. -/
theorem Shut.fault_step (h : Shut s) (running : s.fault = none) (m : Move start s a s') :
    s'.fault = none ∨ s'.fault = some .useAfterFree ∧ s'.Leaks := by
  have settled := h.closing.settled (h.closing.busy h.closed)
  have closed := h.closed
  cases m
  case setMaskFault at_ _ => simp [at_, Creator.underWay] at settled
  case submitFault open_ _ | dequeueFault open_ _ _ => simp [open_] at closed
  case joinFault i at_ outside =>
    have inside := h.sound.joins i at_
    have := List.getElem?_eq_none_iff.mp outside
    omega
  case useAfterFree i t at_ _ uses =>
    refine .inr ⟨rfl, i, t, at_, uses, fun joined => ?_⟩
    obtain ⟨t', at', pc⟩ := h.closing.joined i joined
    obtain rfl : t = t' := Option.some.inj (at_.symm.trans at')
    simp [pc, Pc.usesPool] at uses
  all_goals exact .inl running

theorem fault_of_run {pre post : List (Act Fn Arg R)}
    (h₁ : run (step start) .constructed pre = some s₁) (closed : s₁.pool.shutdown = true)
    (fine : s₁.fault = none) (h₂ : run (step start) s₁ post = some s₂) :
    s₂.fault = none ∨ s₂.fault = some .useAfterFree ∧ s₂.Leaks := by
  refine run_induction (P := fun _ s => s.fault = none ∨ s.fault = some .useAfterFree ∧ s.Leaks)
    (.inl fine) ?_ post s₂ h₂
  intro as s a s' hrun _ hs
  exact (shut_of_run h₁ closed hrun).fault_step (running_of_step hs) (Move.of_step hs)

/-- The call of `shutdown` closes the pool. -/
theorem left_shutdown {mode : ShutdownMode} (closing : Closing s) (running : s.fault = none)
    (m : Move start s (.shutdown mode) s') :
    s'.pool.shutdown = true ∧ s'.fault = none ∧ s'.left ≤ 7 * s.threads.length + 4 := by
  cases m
  case shutdownAgain first _ closed => simp [(closing.opened first).1] at closed
  case shutdown =>
    refine ⟨rfl, running, ?_⟩
    have each : tally (·.pc.stepsLeft) (unpark (fun _ => true) s.threads) ≤
        5 * (unpark (fun _ => true) s.threads).length := by
      apply tally_le_length
      intro t _
      cases t.pc <;> simp [Pc.stepsLeft]
    simp only [State.left, running, Option.isSome_none, Bool.false_eq_true, if_false, Closer.left,
      length_unpark] at each ⊢
    omega

/-- Whenever `shutdown` is called, it returns if the tasks in progress do: until then its caller
has a step to take, or waits in `pthread_join` for a thread that has one, and all these steps
together are at most seven for each thread and four. Only a thread that is not joined can end the
program before. -/
theorem shutdown_returns {mode : ShutdownMode} {pre post : List (Act Fn Arg R)}
    (h₁ : run (step start) .constructed pre = some s₁)
    (h₂ : run (step start) s₁ (.shutdown mode :: post) = some s₂) :
    (s₂.closer = .deleted ∨ (step start s₂ .closer).isSome = true ∨
      (∃ i t, s₂.closer = .joinWait i ∧ s₂.threads[i]? = some t ∧ t.pc ≠ .terminated ∧
        (step start s₂ (.thread i)).isSome = true) ∨
      s₂.fault = some .useAfterFree ∧ s₂.Leaks) ∧
    tally (fun a => ind (Act.windsUp a)) post ≤ 7 * s₁.threads.length + 4 := by
  obtain ⟨s, call, later⟩ := Option.bind_eq_some_iff.mp h₂
  have called : run (step start) .constructed (pre ++ [.shutdown mode]) = some s :=
    run_concat.mpr ⟨s₁, h₁, call⟩
  obtain ⟨closed, fine, few⟩ :=
    left_shutdown (closing_of_run h₁) (running_of_step call) (Move.of_step call)
  constructor
  · rcases fault_of_run called closed fine later with running | leaks
    · rcases (shut_of_run called closed later).goes_on start running with
        returned | own | joined
      · exact .inl returned
      · exact .inr (.inl own)
      · exact .inr (.inr (.inl joined))
    · exact .inr (.inr (.inr leaks))
  · have spent : total (step start) (fun _ a => ind (Act.windsUp a)) s post ≤ s.left := by
      refine total_le_of_run (P := Shut) State.left ?_ ?_ later
      · intro s a s' shut _ hs
        exact shut.left_step (running_of_step hs) (Move.of_step hs)
      · intro as _ s' _ hs
        exact shut_of_run called closed hs
    rw [total_eq_tally _ later] at spent
    omega

/-- The only thread is in a task when `shutdown` is called. -/
def taskUnderWay : List (Act ℕ ℕ ℕ) :=
  [.create 1 1 1024, .creator true, .creator true, .creator true, .thread 0, .thread 0, .thread 0,
   .submit none (some 1) [], .thread 0]

theorem shutdown_returns_taskUnderWay :
    ∃ s₁ s₂, run (step fun _ => 0) .constructed taskUnderWay = some s₁ ∧
      run (step fun _ => 0) s₁ [.shutdown .gracefulShutdown, .closer] = some s₂ ∧
      s₂.closer = .joinWait 0 ∧ (step (fun _ => 0) s₂ .closer).isSome = false ∧
      (step (fun _ => 0) s₂ (.thread 0)).isSome = true := by
  have end_ : (run (step fun _ => 0) .constructed taskUnderWay).map (fun s₁ =>
      (s₁.fault, (run (step fun _ => 0) s₁ [.shutdown .gracefulShutdown, .closer]).map
        fun s₂ => (s₂.closer, s₂.fault, (step (fun _ => 0) s₂ .closer).isSome))) =
      some (none, some (.joinWait 0, none, false)) := by decide +kernel
  obtain ⟨s₁, h₁, he⟩ := Option.map_eq_some_iff.mp end_
  obtain ⟨-, he⟩ := Prod.mk.inj he
  obtain ⟨s₂, h₂, he⟩ := Option.map_eq_some_iff.mp he
  simp only [Prod.mk.injEq] at he
  obtain ⟨waits, fine, stuck⟩ := he
  refine ⟨s₁, s₂, h₁, h₂, waits, stuck, ?_⟩
  rcases (shutdown_returns h₁ h₂).1 with returned | own | ⟨i, t, at_, -, -, thread⟩ | ⟨fault, -⟩
  · simp [waits] at returned
  · simp [stuck] at own
  · obtain rfl : 0 = i := by simpa [waits] using at_
    exact thread
  · simp [fine] at fault

end EpollServer.ThreadPool
