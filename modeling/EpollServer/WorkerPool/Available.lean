import EpollServer.WorkerPool.Machine

/-!
# The counter of available workers

`avail_woker_num_` starts at 0, each worker decrements it before `poll_event` and
increments it afterwards, and `startup` stores `worker_num_` into it after the threads were
started. So the sum of the counter and the number of workers inside their poll section is 0
until the store and constant from then on; the constant exceeds `worker_num_` by the number of
workers that the store found polling. This one balance decides what the counter means and
when the timeout computation divides by zero.
-/
namespace EpollServer.WorkerPool

open Library

/-- Between `avail_woker_num_--` and `avail_woker_num_++`. -/
def Pc.inPoll : Pc → Bool
  | .test | .loadAvail | .loadDivisor | .poll _ | .handle _ | .reading _ _ | .hangup _ _
  | .increment => true
  | .unstarted | .top | .lock | .retest | .pop | .record _ | .register _ | .unlock
  | .decrement => false

/-- The number of workers inside their poll section. -/
def pollingIn (workers : List Worker) : ℕ := tally (fun w => ind w.pc.inPoll) workers

theorem pollingIn_le (workers : List Worker) : pollingIn workers ≤ workers.length :=
  tally_ind_le_length _ _

theorem pollingIn_eq_length {workers : List Worker} :
    pollingIn workers = workers.length ↔ ∀ w ∈ workers, w.pc.inPoll = true :=
  tally_ind_eq_length

/-- `startup` has stored `worker_num_` into the counter. -/
def Startup.pastStore : Startup → Bool
  | .create | .setStarted | .returned => true
  | .idle | .start _ | .store => false

/-- If this step is the store of `startup`, no worker is inside its poll section. -/
def QuietStore (s : State) : Act → Prop
  | .startup _ => s.startup = .store → ∀ w ∈ s.workers, w.pc.inPoll = false
  | _ => True

/-- If this step evaluates `worker_num_ % avail_woker_num_` after the store, some worker is
outside of its poll section. -/
def SomeoneOut (s : State) : Act → Prop
  | .worker i => ∀ w, s.workers[i]? = some w → w.pc = .loadDivisor →
      s.startup.pastStore = true → ∃ u ∈ s.workers, u.pc.inPoll = false
  | _ => True

variable {s s' : State} {a : Act}

/-! ## What one step does to the balance -/

theorem goto_pollingIn {i : ℕ} {w u : Worker} (worker : s.workers[i]? = some w) :
    pollingIn (s.workers.set i u) + ind w.pc.inPoll = pollingIn s.workers + ind u.pc.inPoll :=
  tally_set worker

/-- A worker that does not enter or leave its poll section. -/
theorem goto_pollingIn_eq {i : ℕ} {w u : Worker} (worker : s.workers[i]? = some w)
    (same : w.pc.inPoll = u.pc.inPoll) :
    pollingIn (s.workers.set i u) = pollingIn s.workers := by
  have := goto_pollingIn (u := u) worker
  rw [same] at this
  omega

theorem inPoll_start (w : Worker) (ok : Bool) : w.pc.inPoll = (w.start ok).pc.inPoll := by
  rcases w.pc_start ok with same | ⟨unstarted, top⟩
  · rw [same]
  · rw [unstarted, top]
    rfl

theorem Move.length_workers (m : Move s a s') : s'.workers.length = s.workers.length := by
  cases m <;> simp [State.goto, State.setWorker, State.raise]

/-- A step is the store of `startup`, or keeps the sum of the counter and the number of
polling workers. -/
theorem Move.balance (m : Move s a s') :
    (s.startup = .store ∧ s' = { s with avail := s.workerNum, startup := .create } ∧
        ∃ ok, a = .startup ok) ∨
      s'.avail + pollingIn s'.workers = s.avail + pollingIn s.workers ∧
        s'.startup.pastStore = s.startup.pastStore ∧
        ∀ ok, a = .startup ok → s.startup ≠ .store := by
  cases m
  case store ok at_ => exact .inl ⟨at_, rfl, ok, rfl⟩
  all_goals refine .inr ⟨?_, ?_, by simp [*]⟩
  case startWorker.refine_1 worker =>
    simp only [State.setWorker]
    rw [goto_pollingIn_eq worker (inPoll_start _ _)]
  case decrement.refine_1 i w worker pc =>
    have entered : pollingIn (s.workers.set i { w with pc := .test }) + ind w.pc.inPoll =
      pollingIn s.workers + 1 := goto_pollingIn worker
    have outside : ind w.pc.inPoll = 0 := by rw [pc]; rfl
    simp only [State.goto, State.setWorker]
    omega
  case increment.refine_1 i w worker pc =>
    have left : pollingIn (s.workers.set i { w with pc := .top }) + ind w.pc.inPoll =
      pollingIn s.workers + 0 := goto_pollingIn worker
    have inside : ind w.pc.inPoll = 1 := by rw [pc]; rfl
    simp only [State.goto, State.setWorker]
    omega
  all_goals first
    | rfl
    | simp [*, Startup.pastStore]; done
    | (simp only [State.goto, State.setWorker]
       rw [goto_pollingIn_eq ‹_› (by rw [‹Worker.pc _ = _›]; rfl)])

/-- A step divides by zero if and only if it evaluates the divisor when the counter is 0. -/
theorem Move.divideByZero_iff (m : Move s a s') (running : s.fault = none) :
    s'.fault = some .divideByZero ↔
      ∃ i w, a = .worker i ∧ s.workers[i]? = some w ∧ w.pc = .loadDivisor ∧ s.avail = 0 := by
  constructor
  · intro fault
    cases m
    case divideByZero i w worker pc zero => exact ⟨i, w, rfl, worker, pc, zero⟩
    all_goals simp [State.goto, State.setWorker, State.raise, running] at fault
  · rintro ⟨i, w, rfl, worker, pc, zero⟩
    cases m
    case divideByZero => rfl
    all_goals simp_all

theorem running_of_step (h : step s a = some s') : s.fault = none := by
  have := (Option.ite_none_left_eq_some.mp h).1
  simpa using this

/-! ## Whole runs -/

/-- The balance after the run `as` to the state `s`: 0 before the store, above `worker_num_`
by a constant `drift` after it. The drift is 0 exactly if the store found no worker polling, and
only without drift can the counter be 0 when it divides. -/
def Balanced (n : ℕ) (as : List Act) (s : State) : Prop :=
  s.workers.length = n ∧
  (s.startup.pastStore = false → s.avail + pollingIn s.workers = 0 ∧
    EveryStep step QuietStore (.constructed n) as ∧
    EveryStep step SomeoneOut (.constructed n) as ∧ s.fault ≠ some .divideByZero) ∧
  (s.startup.pastStore = true → ∃ drift : ℕ,
    s.avail + pollingIn s.workers = s.workerNum + drift ∧
    (EveryStep step QuietStore (.constructed n) as ↔ drift = 0) ∧
    (s.fault = some .divideByZero ↔
      drift = 0 ∧ ¬ EveryStep step SomeoneOut (.constructed n) as))

theorem pollingIn_pos_of {i : ℕ} {w : Worker} (worker : s.workers[i]? = some w)
    (inside : w.pc.inPoll = true) : 0 < pollingIn s.workers :=
  tally_ind_pos.mpr ⟨w, List.mem_of_getElem? worker, inside⟩

theorem pollingIn_lt_iff {workers : List Worker} :
    pollingIn workers < workers.length ↔ ∃ w ∈ workers, w.pc.inPoll = false := by
  have le := pollingIn_le workers
  rw [show pollingIn workers < workers.length ↔ ¬ pollingIn workers = workers.length by omega,
    pollingIn_eq_length]
  simp

theorem pollingIn_eq_zero {workers : List Worker} :
    pollingIn workers = 0 ↔ ∀ w ∈ workers, w.pc.inPoll = false := by
  rw [pollingIn, tally_eq_zero]
  simp [ind]

/-- Given the balance, a step divides by zero only without drift and with every worker
polling. -/
theorem someoneOut_iff (past : s.startup.pastStore = true) {drift : ℕ}
    (balance : s.avail + pollingIn s.workers = s.workerNum + drift) :
    (∃ i w, a = .worker i ∧ s.workers[i]? = some w ∧ w.pc = .loadDivisor ∧ s.avail = 0) ↔
      drift = 0 ∧ ¬ SomeoneOut s a := by
  have le := pollingIn_le s.workers
  unfold State.workerNum at balance
  constructor
  · rintro ⟨i, w, rfl, worker, pc, zero⟩
    refine ⟨by omega, fun out => ?_⟩
    have := pollingIn_lt_iff.mpr (out w worker pc past)
    omega
  · rintro ⟨rfl, all⟩
    cases a
    case worker i =>
      simp only [SomeoneOut, not_forall] at all
      obtain ⟨w, worker, pc, -, none_⟩ := all
      rw [← pollingIn_lt_iff] at none_
      exact ⟨i, w, rfl, worker, pc, by omega⟩
    all_goals simp [SomeoneOut] at all

theorem balanced_of_run {n : ℕ} {as : List Act} (h : run step (.constructed n) as = some s) :
    Balanced n as s := by
  refine run_induction (P := Balanced n) ?_ ?_ as s h
  · refine ⟨by simp [State.constructed], fun _ => ⟨?_, ?_, ?_, by simp [State.constructed]⟩, ?_⟩
    · simp [State.constructed, pollingIn, Worker.constructed, Pc.inPoll]
    · exact everyStep_nil
    · exact everyStep_nil
    · simp [State.constructed, Startup.pastStore]
  · rintro as s a s' hrun ⟨hn, before, after⟩ hs
    have m := Move.of_step hs
    have running := running_of_step hs
    refine ⟨m.length_workers.trans hn, ?_⟩
    rw [everyStep_concat hrun, everyStep_concat hrun, m.divideByZero_iff running]
    rcases m.balance with ⟨at_, rfl, ok, rfl⟩ | ⟨balance, past, noStore⟩
    · -- The store: the drift is the number of workers it finds inside their poll section.
      obtain ⟨-, quiet, out, -⟩ := before (by rw [at_]; rfl)
      refine ⟨by simp [Startup.pastStore], fun _ => ⟨pollingIn s.workers, rfl, ?_, ?_⟩⟩
      · simp [quiet, QuietStore, at_, pollingIn_eq_zero]
      · simp [out, SomeoneOut]
    · have quiet : QuietStore s a := by
        cases a <;> try trivial
        exact fun at_ => absurd at_ (noStore _ rfl)
      rw [past, balance, show s'.workerNum = s.workerNum by
        simp [State.workerNum, m.length_workers]]
      refine ⟨fun early => ?_, fun late => ?_⟩
      · -- Before the store a worker that divides is counted, so the counter is negative.
        obtain ⟨sum, q, o, -⟩ := before early
        refine ⟨sum, ⟨q, quiet⟩, ⟨o, ?_⟩, ?_⟩
        · cases a <;> try trivial
          intro w worker pc late
          simp [early] at late
        · rw [Ne, m.divideByZero_iff running]
          rintro ⟨i, w, rfl, worker, pc, zero⟩
          have := pollingIn_pos_of worker (by rw [pc]; rfl)
          omega
      · obtain ⟨drift, sum, hq, hf⟩ := after late
        rw [running] at hf
        refine ⟨drift, sum, by simp [quiet, hq], ?_⟩
        rw [someoneOut_iff late sum]
        simp only [reduceCtorEq, false_iff, not_and, not_not] at hf
        constructor
        · rintro ⟨rfl, out⟩
          exact ⟨rfl, fun every => out every.2⟩
        · rintro ⟨rfl, every⟩
          exact ⟨rfl, fun out => every ⟨hf rfl, out⟩⟩

/-- The timeout computation never divides by zero in a run if and only if the store of
`startup` found some worker inside its poll section, or each evaluation of the divisor after the
store found some worker outside of it. -/
theorem divisor_nonzero_iff {n : ℕ} {as : List Act} (h : run step (.constructed n) as = some s) :
    s.fault ≠ some .divideByZero ↔
      ¬ EveryStep step QuietStore (.constructed n) as ∨
        EveryStep step SomeoneOut (.constructed n) as := by
  obtain ⟨-, before, after⟩ := balanced_of_run h
  cases past : s.startup.pastStore with
  | false =>
    obtain ⟨-, -, out, ok⟩ := before past
    exact ⟨fun _ => .inr out, fun _ => ok⟩
  | true =>
    obtain ⟨drift, -, hq, hf⟩ := after past
    rw [Ne, hf, hq, not_and_or, not_not]

/-- One worker alone: with the store first, it divides by the counter it has just made 0. -/
def soleWorker : List Act :=
  [.startup true, .startup true, .startup true, .startup true, .worker 0, .worker 0, .worker 0,
   .worker 0]

theorem soleWorker_divideByZero :
    ∃ s, run step (.constructed 1) soleWorker = some s ∧ s.fault = some .divideByZero := by
  have end_ : (run step (.constructed 1) soleWorker).map (·.fault) = some (some .divideByZero) := by
    decide +kernel
  obtain ⟨s, hs, hf⟩ := Option.map_eq_some_iff.mp end_
  exact ⟨s, hs, hf⟩

/-- With a second worker outside of its poll section the divisor is not 0. -/
def firstOfTwo : List Act :=
  [.startup true, .startup true, .startup true, .startup true, .startup true, .worker 0, .worker 0,
   .worker 0, .worker 0]

theorem divisor_nonzero_iff_firstOfTwo :
    ∃ s, run step (.constructed 2) firstOfTwo = some s ∧ s.fault ≠ some .divideByZero ∧
      (¬ EveryStep step QuietStore (.constructed 2) firstOfTwo ∨
        EveryStep step SomeoneOut (.constructed 2) firstOfTwo) := by
  have end_ : (run step (.constructed 2) firstOfTwo).map (·.fault) = some none := by
    decide +kernel
  obtain ⟨s, hs, hf⟩ := Option.map_eq_some_iff.mp end_
  have ok : s.fault ≠ some .divideByZero := by simp [hf]
  exact ⟨s, hs, ok, (divisor_nonzero_iff hs).mp ok⟩

/-- After `startup` has returned the counter is the number of workers outside of their poll
section, and so between 0 and `worker_num_`, if and only if the store found no worker inside
its poll section. -/
theorem available_iff {n : ℕ} {as : List Act} (h : run step (.constructed n) as = some s)
    (returned : s.startup = .returned) :
    (s.avail = s.workerNum - pollingIn s.workers ∧ 0 ≤ s.avail ∧ s.avail ≤ s.workerNum) ↔
      EveryStep step QuietStore (.constructed n) as := by
  obtain ⟨-, -, after⟩ := balanced_of_run h
  obtain ⟨drift, sum, hq, -⟩ := after (by rw [returned]; rfl)
  have le := pollingIn_le s.workers
  rw [hq]
  unfold State.workerNum at *
  omega

/-- The only worker decrements the counter before the store of `startup` overwrites it. -/
def earlyWorker : List Act :=
  [.startup true, .startup true, .worker 0, .worker 0, .startup true, .startup true, .startup true,
   .startup true]

theorem earlyWorker_available :
    ∃ s, run step (.constructed 1) earlyWorker = some s ∧ s.startup = .returned ∧
      s.avail = 1 ∧ s.workerNum - pollingIn s.workers = 0 := by
  have end_ : (run step (.constructed 1) earlyWorker).map
      (fun s => (s.startup, s.avail, (s.workerNum - pollingIn s.workers : Int))) =
      some (.returned, 1, 0) := by decide +kernel
  obtain ⟨s, hs, he⟩ := Option.map_eq_some_iff.mp end_
  simp only [Prod.mk.injEq] at he
  exact ⟨s, hs, he⟩

/-- The same worker, scheduled after `startup` has returned. -/
def lateWorker : List Act :=
  [.startup true, .startup true, .startup true, .startup true, .startup true, .startup true,
   .worker 0, .worker 0]

theorem available_iff_lateWorker :
    ∃ s, run step (.constructed 1) lateWorker = some s ∧ s.avail = 0 ∧
      EveryStep step QuietStore (.constructed 1) lateWorker := by
  have end_ : (run step (.constructed 1) lateWorker).map
      (fun s => (s.startup, s.avail, s.workerNum, pollingIn s.workers)) =
      some (.returned, 0, 1, 1) := by decide +kernel
  obtain ⟨s, hs, he⟩ := Option.map_eq_some_iff.mp end_
  simp only [Prod.mk.injEq] at he
  obtain ⟨hr, ha, hw, hp⟩ := he
  exact ⟨s, hs, ha, (available_iff hs hr).mp (by rw [ha, hw, hp]; decide)⟩

end EpollServer.WorkerPool
