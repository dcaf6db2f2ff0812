import EpollServer.WorkerPool.Available

/-!
# The timeout of `poll_event`

`wttme` is computed from two separate loads of the counter. The sum of the counter and the
number of workers inside their poll section is 0 before the store of `startup`, and from
`worker_num_` up to twice that number after it. A worker takes the branch that uses the counter
itself only after the store, where the counter is not negative; the other branch takes a
remainder of `worker_num_`, which is not negative either, whatever the sign of the divisor.
-/
namespace EpollServer.WorkerPool

open Library

/-- The sum of the counter and the number of workers inside their poll section. -/
def State.sum (s : State) : Int := s.avail + pollingIn s.workers

/-- What the program point of a worker says about the timeout in a pool of `n` workers, when
the store of `startup` is past or not. -/
def Pc.Timed (n : ℕ) (past : Bool) : Pc → Prop
  | .loadAvail => past = true
  | .poll wttme => 1 ≤ wttme ∧ wttme ≤ 2 * n - 1
  | _ => True

/-- The range of the sum, and the timeouts of all workers. -/
structure Timed (n : ℕ) (s : State) : Prop where
  length : s.workers.length = n
  early : s.startup.pastStore = false → s.sum = 0
  late : s.startup.pastStore = true → (n : Int) ≤ s.sum ∧ s.sum ≤ 2 * n
  workers : ∀ w ∈ s.workers, w.pc.Timed n s.startup.pastStore

variable {n : ℕ} {s s' : State} {a : Act}

/-! ## The two branches -/

/-- A remainder of `n` is between 0 and `n`, for every divisor. -/
theorem tmod_bounds (n : ℕ) (d : Int) : 0 ≤ (n : Int).tmod d ∧ (n : Int).tmod d ≤ n := by
  have nonneg := Int.tmod_nonneg d (Int.natCast_nonneg n)
  have size : ((n : Int).tmod d).natAbs = n % d.natAbs := Int.natAbs_tmod n d
  have := Nat.mod_le n d.natAbs
  omega

theorem pollTimeout_bounds {wttme : Int} (lower : 0 ≤ wttme) (upper : wttme ≤ 2 * n - 1)
    (pos : 0 < n) : 1 ≤ pollTimeout wttme ∧ pollTimeout wttme ≤ 2 * n - 1 := by
  unfold pollTimeout
  split_ifs <;> omega

/-- Some worker exists, if one takes a step. -/
theorem Timed.pos (h : Timed n s) {i : ℕ} {w : Worker} (worker : s.workers[i]? = some w) :
    0 < n := by
  have inside := (List.getElem?_eq_some_iff.mp worker).1
  have := h.length
  omega

/-- The counter used as the timeout: the worker that uses it counts as polling. -/
theorem Timed.avail_bounds (h : Timed n s) {i : ℕ} {w : Worker}
    (worker : s.workers[i]? = some w) (pc : w.pc = .loadAvail) :
    0 ≤ s.avail ∧ s.avail ≤ 2 * n - 1 := by
  have past : w.pc.Timed n s.startup.pastStore := h.workers w (List.mem_of_getElem? worker)
  rw [pc] at past
  obtain ⟨lower, upper⟩ := h.late past
  have polling : 0 < pollingIn s.workers := pollingIn_pos_of worker (by rw [pc]; rfl)
  have le := pollingIn_le s.workers
  have := h.length
  unfold State.sum at lower upper
  omega

/-- Before the store the counter is too low for the branch that uses it. -/
theorem Timed.past_of_high (h : Timed n s) (high : s.workerNum.tdiv 2 < s.avail) :
    s.startup.pastStore = true := by
  by_contra early
  have zero := h.early (by simpa using early)
  have half : 0 ≤ s.workerNum.tdiv 2 := Int.tdiv_nonneg (Int.natCast_nonneg _) (by decide)
  unfold State.sum at zero
  omega

/-! ## Whole runs -/

/-- A step of worker `i` to a program point that keeps what the point says. -/
theorem Timed.goto (h : Timed n s) {i : ℕ} {u : Worker} (workers : s'.workers = s.workers.set i u)
    (startup : s'.startup.pastStore = s.startup.pastStore) (sum : s'.sum = s.sum)
    (own : u.pc.Timed n s.startup.pastStore) : Timed n s' where
  length := by
    rw [workers, List.length_set]
    exact h.length
  early early := sum.trans (h.early (startup.symm.trans early))
  late late := sum ▸ h.late (startup.symm.trans late)
  workers v hv := by
    rw [workers] at hv
    rw [startup]
    rcases List.mem_or_eq_of_mem_set hv with old | rfl
    · exact h.workers v old
    · exact own

/-- The store of `startup` finds a sum of 0 and leaves one between `n` and `2 * n`. -/
theorem Timed.store (h : Timed n s) (at_ : s.startup = .store) :
    Timed n { s with avail := s.workerNum, startup := .create } where
  length := h.length
  early early := by cases early
  late _ := by
    have le := pollingIn_le s.workers
    have := h.length
    simp only [State.sum, State.workerNum]
    omega
  workers w hw := by
    have before := h.workers w hw
    rw [at_] at before
    revert before
    cases w.pc <;> first | exact fun _ => trivial | exact id | (intro before; cases before)

theorem Timed.step (h : Timed n s) (m : Move s a s') : Timed n s' := by
  rcases m.balance with ⟨at_, rfl, -⟩ | ⟨sum, past, -⟩
  · exact h.store at_
  replace sum : s'.sum = s.sum := sum
  have pos {i : ℕ} {w : Worker} (worker : s.workers[i]? = some w) : 0 < n := h.pos worker
  have length := h.length
  cases m
  case startWorker ok i w at_ worker =>
    refine h.goto rfl past sum ?_
    rcases w.pc_start ok with same | ⟨-, top⟩
    · rw [same]
      exact h.workers w (List.mem_of_getElem? worker)
    · rw [top]
      trivial
  case testHigh high => exact h.goto rfl past sum (h.past_of_high high)
  case loadAvail worker pc =>
    obtain ⟨lower, upper⟩ := h.avail_bounds worker pc
    exact h.goto rfl past sum (pollTimeout_bounds lower upper (pos worker))
  case divide worker pc nonzero =>
    have := pos worker
    have remainder : 0 ≤ s.workerNum.tmod s.avail ∧ s.workerNum.tmod s.avail ≤ n :=
      length ▸ tmod_bounds s.workers.length s.avail
    exact h.goto rfl past sum (pollTimeout_bounds remainder.1 (by omega) this)
  all_goals first
    | exact h.goto rfl past sum trivial
    | exact ⟨h.length, fun early => sum.trans (h.early (past.symm.trans early)),
        fun late => sum ▸ h.late (past.symm.trans late), past ▸ h.workers⟩

/-- In every run, before and after the store of `startup`, a worker that calls `poll_event`
passes it a timeout of at least 1 and at most `2 * worker_num_ - 1`. -/
theorem timeout_in_range {as : List Act} (h : run step (.constructed n) as = some s) {i : ℕ}
    {w : Worker} {wttme : Int} (worker : s.workers[i]? = some w) (pc : w.pc = .poll wttme) :
    1 ≤ wttme ∧ wttme ≤ 2 * n - 1 := by
  have timed : Timed n s := by
    refine run_invariant ⟨by simp [State.constructed], fun _ => ?_, fun late => ?_, ?_⟩
      (fun _ _ _ hs ha => hs.step (Move.of_step ha)) h
    · simp [State.sum, State.constructed, pollingIn, Worker.constructed, Pc.inPoll]
    · simp [State.constructed, Startup.pastStore] at late
    · intro w hw
      obtain ⟨-, rfl⟩ : n ≠ 0 ∧ w = .constructed := by simpa [State.constructed] using hw
      trivial
  have own := timed.workers w (List.mem_of_getElem? worker)
  rw [pc] at own
  exact own

/-- Two workers decrement the counter before the store; the first of them divides by -2 and the
second one, after the store, uses the counter itself. -/
def earlyPolls : List Act :=
  [.startup true, .startup true, .startup true, .worker 0, .worker 0, .worker 1, .worker 1,
   .worker 0, .worker 0, .startup true, .startup true, .worker 1, .worker 1]

theorem timeout_in_range_earlyPolls :
    ∃ s u v, run step (.constructed 2) earlyPolls = some s ∧ s.workers[0]? = some u ∧
      s.workers[1]? = some v ∧ u.pc = .poll 1 ∧ v.pc = .poll 2 ∧
      (1 ≤ (1 : Int) ∧ (1 : Int) ≤ 2 * (2 : ℕ) - 1) ∧
      (1 ≤ (2 : Int) ∧ (2 : Int) ≤ 2 * (2 : ℕ) - 1) := by
  have end_ : (run step (.constructed 2) earlyPolls).map (fun s => s.workers.map (·.pc)) =
      some [.poll 1, .poll 2] := by decide +kernel
  obtain ⟨s, hs, he⟩ := Option.map_eq_some_iff.mp end_
  obtain ⟨u, v, hw⟩ : ∃ u v, s.workers = [u, v] := by
    have := congrArg List.length he
    exact List.length_eq_two.mp (by simpa using this)
  obtain ⟨hu, hv⟩ : u.pc = .poll 1 ∧ v.pc = .poll 2 := by simpa [hw] using he
  have first : s.workers[0]? = some u := by rw [hw]; rfl
  have second : s.workers[1]? = some v := by rw [hw]; rfl
  exact ⟨s, u, v, hs, first, second, hu, hv, timeout_in_range hs first hu,
    timeout_in_range hs second hv⟩

end EpollServer.WorkerPool
