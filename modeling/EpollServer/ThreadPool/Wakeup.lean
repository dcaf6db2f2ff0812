import EpollServer.ThreadPool.Machine

/-!
# No lost wake-up

A task that is queued while workers are parked has a worker on its way to it. The
invariant compares three numbers: the queued tasks, the parked threads, and the threads
that are awake but not running a task. A submit adds a task and unparks a thread, a dequeue
takes one task and one awake thread, and a thread parks only when no task is queued. Which
thread takes a task does not matter, so a thread that arrives late and takes the task of a
woken one leaves the balance as it is.
-/
namespace EpollServer.ThreadPool

open Library

variable {Fn Arg R : Type}

/-- Starting up, woken, or about to take `lock_`. -/
def Pc.isAwake : Pc R → Bool
  | .created | .started | .counted | .ready | .woken => true
  | .parked | .running _ | .leaving | .terminated => false

def parkedIn (threads : List (Thread R)) : ℕ := tally (fun t => ind t.pc.isParked) threads

def awakeIn (threads : List (Thread R)) : ℕ := tally (fun t => ind t.pc.isAwake) threads

theorem parkedIn_pos {threads : List (Thread R)} :
    0 < parkedIn threads ↔ ∃ t ∈ threads, t.pc = .parked := by
  have parked (t : Thread R) : t.pc.isParked = true ↔ t.pc = .parked := by
    cases t.pc <;> simp [Pc.isParked]
  simp [parkedIn, tally_ind_pos, parked]

/-! ## Unparking -/

/-- An unparked thread is awake. -/
theorem unpark_balance (selected : ℕ → Bool) (threads : List (Thread R)) :
    awakeIn (unpark selected threads) + parkedIn (unpark selected threads) =
      awakeIn threads + parkedIn threads := by
  unfold awakeIn parkedIn unpark
  rw [← tally_add, ← tally_add]
  refine tally_mapIdx _ _ _ _ fun i t => ?_
  by_cases h : (selected i && t.pc.isParked) = true
  · have parked : t.pc = .parked := by
      revert h
      cases t.pc <;> simp [Pc.isParked]
    rw [if_pos h, parked]
    rfl
  · rw [if_neg h]

theorem unpark_parked_le (selected : ℕ → Bool) (threads : List (Thread R)) :
    parkedIn (unpark selected threads) ≤ parkedIn threads := by
  refine tally_mapIdx_le _ _ _ _ fun i t => ?_
  split_ifs
  · exact Nat.zero_le _
  · exact le_rfl

/-- A signal unparks a thread if there is one. -/
theorem signal_parked_lt {woken : List ℕ} {threads : List (Thread R)}
    (signal : signals woken threads = true) (parked : 0 < parkedIn threads) :
    parkedIn (unpark (woken.contains ·) threads) < parkedIn threads := by
  obtain ⟨t₀, mem₀, pc₀⟩ := parkedIn_pos.mp parked
  have some_parked : threads.any (·.pc.isParked) = true :=
    List.any_eq_true.mpr ⟨t₀, mem₀, by simp [pc₀, Pc.isParked]⟩
  simp only [signals, some_parked, Bool.not_true, Bool.false_or, List.any_eq_true] at signal
  obtain ⟨i, mem, hi⟩ := signal
  obtain ⟨t, at_, pc⟩ := (Option.any_eq_true _ _).mp hi
  refine tally_mapIdx_lt _ _ _ _ (fun j u => ?_) at_ ?_
  · split_ifs
    · exact Nat.zero_le _
    · exact le_rfl
  · have selected : (woken.contains i && t.pc.isParked) = true := by simp [mem, pc]
    rw [if_pos selected, pc]
    exact Nat.zero_lt_one

/-- A broadcast leaves nobody parked. -/
theorem broadcast_parked (threads : List (Thread R)) :
    parkedIn (unpark (fun _ => true) threads) = 0 := by
  refine (tally_mapIdx _ _ threads (fun _ => 0) fun i t => ?_).trans (tally_eq_zero.mpr (by simp))
  cases h : t.pc.isParked with
  | false => simp [h]
  | true =>
    simp only [Bool.and_self, if_true]
    rfl

/-! ## The invariant -/

/-- While the pool is open, parked threads leave no task without an awake thread; once it
is shut down nobody is parked. -/
structure Attended (s : State Fn Arg R) : Prop where
  covered : s.pool.shutdown = false → 0 < parkedIn s.threads →
    s.pool.workCount ≤ awakeIn s.threads
  closed : s.pool.shutdown = true → parkedIn s.threads = 0

variable {start : Task Fn Arg → R} {s s' : State Fn Arg R} {a : Act Fn Arg R}

theorem setThread_awakeIn {i : ℕ} {t u : Thread R} (at_ : s.threads[i]? = some t) :
    awakeIn (s.threads.set i u) + ind t.pc.isAwake = awakeIn s.threads + ind u.pc.isAwake :=
  tally_set at_

theorem setThread_parkedIn {i : ℕ} {t u : Thread R} (at_ : s.threads[i]? = some t) :
    parkedIn (s.threads.set i u) + ind t.pc.isParked = parkedIn s.threads + ind u.pc.isParked :=
  tally_set at_

/-- A thread about to take `lock_` is awake. -/
theorem awake_of_atLock {pc : Pc R} (h : pc = .ready ∨ pc = .woken) :
    pc.isAwake = true ∧ pc.isParked = false := by
  rcases h with rfl | rfl <;> exact ⟨rfl, rfl⟩

/-- A thread that does not stop being awake and does not park keeps the balance. -/
theorem Attended.setThread (h : Attended s) {i : ℕ} {t u : Thread R}
    (at_ : s.threads[i]? = some t) (awake : t.pc.isAwake = true → u.pc.isAwake = true)
    (parked : u.pc.isParked = false) : Attended (s.setThread i u) := by
  have ha := setThread_awakeIn (u := u) at_
  have hp := setThread_parkedIn (u := u) at_
  have le : ind t.pc.isAwake ≤ ind u.pc.isAwake := by
    cases ht : t.pc.isAwake with
    | false => exact Nat.zero_le _
    | true => rw [awake ht]
  rw [parked, ind_false] at hp
  refine ⟨fun open_ pos => ?_, fun closed => ?_⟩
  · simp only [State.setThread] at pos ⊢
    have := h.covered open_ (by omega)
    omega
  · have := h.closed closed
    simp only [State.setThread]
    omega

theorem Attended.unpark (h : Attended s) (selected : ℕ → Bool) :
    Attended { s with threads := unpark selected s.threads } := by
  have balance := unpark_balance selected s.threads
  have le := unpark_parked_le selected s.threads
  refine ⟨fun open_ pos => ?_, fun closed => ?_⟩
  · have := h.covered open_ (by simp only at pos; omega)
    simp only
    omega
  · have := h.closed closed
    simp only
    omega

theorem Attended.step (h : Attended s) (m : Move start s a s') : Attended s' := by
  cases m
  case create => exact ⟨fun _ _ => by simp [Pool.create], fun closed => h.closed closed⟩
  case spawn =>
    have ha : awakeIn (s.threads ++ [⟨.created, none⟩]) = awakeIn s.threads + 1 := by
      simp [awakeIn, Pc.isAwake]
    have hp : parkedIn (s.threads ++ [⟨.created, none⟩]) = parkedIn s.threads := by
      simp [parkedIn, Pc.isParked]
    refine ⟨fun open_ pos => ?_, fun closed => hp.trans (h.closed closed)⟩
    have := h.covered open_ (hp ▸ pos)
    simp only [ha]
    omega
  case accept args func woken pool _ open_ enqueued signal =>
    obtain ⟨workQueue, tail, rfl⟩ := Pool.enqueue_eq enqueued
    have balance := unpark_balance (woken.contains ·) s.threads
    have le := unpark_parked_le (woken.contains ·) s.threads
    refine ⟨fun _ pos => ?_, fun closed => ?_⟩
    · have lt := signal_parked_lt signal (by simp only at pos; omega)
      have := h.covered open_ (by omega)
      simp only
      omega
    · simp [open_] at closed
  case wake i => exact h.unpark (· == i)
  case start i t at_ pc _ =>
    have := h.setThread at_ (u := { t with pc := .started }) (fun _ => rfl) rfl
    exact ⟨this.covered, this.closed⟩
  case count i t at_ pc _ =>
    have := h.setThread at_ (u := { t with pc := .counted }) (fun _ => rfl) rfl
    exact ⟨this.covered, this.closed⟩
  case pin at_ pc _ | finish at_ pc => exact h.setThread at_ (fun _ => rfl) rfl
  case park i t at_ pc _ open_ empty =>
    refine ⟨fun _ _ => ?_, fun closed => ?_⟩
    · simp [State.setThread, empty]
    · simp [State.setThread, open_] at closed
  case leave i t at_ pc _ closed =>
    have hp : parkedIn (s.threads.set i { t with pc := .leaving }) + ind t.pc.isParked =
      parkedIn s.threads + 0 := setThread_parkedIn at_
    refine ⟨fun open_ => ?_, fun _ => ?_⟩
    · simp [closed] at open_
    · have := h.closed closed
      simp only [State.setThread]
      omega
  case take i t task pool at_ pc _ open_ work dequeued =>
    obtain ⟨workQueue, curr, rfl⟩ := Pool.dequeue_eq dequeued
    have ha : awakeIn (s.threads.set i { t with pc := .running (start task) }) +
      ind t.pc.isAwake = awakeIn s.threads + 0 := setThread_awakeIn at_
    have hp : parkedIn (s.threads.set i { t with pc := .running (start task) }) +
      ind t.pc.isParked = parkedIn s.threads + 0 := setThread_parkedIn at_
    obtain ⟨awake, parked⟩ := awake_of_atLock pc
    rw [awake, ind_true] at ha
    rw [parked, ind_false] at hp
    refine ⟨fun _ pos => ?_, fun closed => ?_⟩
    · simp only [State.setThread] at pos ⊢
      have := h.covered open_ (by omega)
      omega
    · simp [open_] at closed
  case exit at_ pc | work at_ pc => exact h.setThread at_ (by simp [pc, Pc.isAwake]) rfl
  case shutdown mode _ _ _ =>
    refine ⟨fun open_ => ?_, fun _ => broadcast_parked s.threads⟩
    simp [Pool.raiseShutdown] at open_
  all_goals exact ⟨h.covered, h.closed⟩

theorem attended_of_run {acts : List (Act Fn Arg R)}
    (h : run (step start) .constructed acts = some s) : Attended s :=
  run_invariant ⟨fun _ => by simp [State.constructed, parkedIn], fun _ => rfl⟩
    (fun _ _ _ hs ha => hs.step (Move.of_step ha)) h

/-- No wake-up is lost: in every reachable state of an open pool in which a worker is
parked there is an awake worker for every queued task, and after the critical section of
`shutdown_interval` no worker is parked. -/
theorem no_lost_wakeup {acts : List (Act Fn Arg R)}
    (h : run (step start) .constructed acts = some s) :
    (s.pool.shutdown = false → (∃ t ∈ s.threads, t.pc = .parked) →
      s.pool.workCount ≤ awakeIn s.threads) ∧
    (s.pool.shutdown = true → ∀ t ∈ s.threads, t.pc ≠ .parked) := by
  have attended := attended_of_run h
  refine ⟨fun open_ parked => attended.covered open_ (parkedIn_pos.mpr parked), ?_⟩
  intro closed t mem pc
  have := attended.closed closed
  have := parkedIn_pos.mpr ⟨t, mem, pc⟩
  omega

/-- Both workers of a pool park, and a task arrives whose signal unparks one of them. -/
def oneUnparked : List (Act ℕ ℕ ℕ) :=
  [.create 2 2 1024, .creator true, .creator true, .creator true, .creator true, .creator true,
   .creator true, .thread 0, .thread 0, .thread 0, .thread 0, .thread 1, .thread 1, .thread 1,
   .thread 1, .submit none (some 1) [0]]

theorem no_lost_wakeup_oneUnparked :
    ∃ s s' : State ℕ ℕ ℕ, run (step fun _ => 0) .constructed oneUnparked = some s ∧
      s.threads.map Thread.pc = [.woken, .parked] ∧ s.pool.workCount = 1 ∧
      s.pool.workCount ≤ awakeIn s.threads ∧
      run (step fun _ => 0) .constructed (oneUnparked ++ [.shutdown .gracefulShutdown]) = some s' ∧
      ∀ t ∈ s'.threads, t.pc ≠ .parked := by
  have before : (run (step fun _ => 0) (.constructed : State ℕ ℕ ℕ) oneUnparked).map
      (fun s => (s.pool.shutdown, s.pool.workCount, s.threads.map Thread.pc)) =
      some (false, 1, [.woken, .parked]) := by decide +kernel
  have after : (run (step fun _ => 0) (.constructed : State ℕ ℕ ℕ)
      (oneUnparked ++ [.shutdown .gracefulShutdown])).map (·.pool.shutdown) = some true := by
    decide +kernel
  obtain ⟨s, hs, he⟩ := Option.map_eq_some_iff.mp before
  obtain ⟨s', hs', closed⟩ := Option.map_eq_some_iff.mp after
  simp only [Prod.mk.injEq] at he
  obtain ⟨open_, work, pcs⟩ := he
  have parked : ∃ t ∈ s.threads, t.pc = .parked := by
    have mem : Pc.parked ∈ s.threads.map Thread.pc := by simp [pcs]
    exact List.mem_map.mp mem
  exact ⟨s, s', hs, pcs, work, (no_lost_wakeup hs).1 open_ parked, hs',
    (no_lost_wakeup hs').2 closed⟩

end EpollServer.ThreadPool
