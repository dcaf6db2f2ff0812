import EpollServer.Server.Whereabouts

/-!
# The number of connected clients

`SERVER_MAX_CONNECTION` is meant to bound how many clients are connected at the same time, but
`connected_num_` counts the clients that were ever accepted. The two agree exactly in those runs
in which no worker has handled a disconnect.
-/
namespace EpollServer.Server

open Library
open WorkerPool (ClientInfo)

/-- The accepted clients whose disconnect no worker has handled. -/
def State.connected (s : State) : ℕ :=
  (s.accepted.filter fun fd => !s.workers.disconnected.contains fd).length

/-- `connected_num_`, with the client about to be counted, is the number of connected clients,
and a new arrival is accepted if fewer than `SERVER_MAX_CONNECTION` are connected. -/
def CountsConnected (s : State) : Prop :=
  s.connectedNum + s.acceptor.uncounted = s.connected ∧
    ∀ events, s.acceptor = .event events → hasEvent events epollIn = true →
      s.connected < serverMaxConnection → eventStep s = some { s with acceptor := .accepting }

/-- In this step no worker handles a disconnect. -/
def NoDisconnect (s : State) : Act → Prop
  | .worker i => ¬ WorkerPool.HandlesDisconnect s.workers (.worker i)
  | .read i n => ¬ WorkerPool.HandlesDisconnect s.workers (.read i n)
  | _ => True

variable {cpuCore : Int} {s s' : State} {a : Act} {n : ℕ} {as : List Act}

/-! ## Workers deal with submitted clients only -/

theorem le_held {i : ℕ} {job : Job} {pool : ThreadPool.State Closure Unit Job} (f : Job → ℕ)
    (running : pool.running i = some job) : f job ≤ pool.held f := by
  obtain ⟨t, thread, at_⟩ := Option.bind_eq_some_iff.mp running
  have holds : t.holding f = f job := by
    unfold ThreadPool.Thread.holding
    cases hpc : t.pc <;> simp_all
  rw [← holds]
  exact le_tally (List.mem_of_getElem? thread)

/-- The client of a task that has not put it away was submitted. -/
theorem Sound.mem_submitted (h : Sound s) {i : ℕ} {job : Job} {c : Closure}
    (running : s.pool.running i = some job) (closure : job.closure = some c)
    (stage : job.stage ≠ .unlock ∧ job.stage ≠ .done) : c.info.eplev.fd ∈ s.submitted := by
  have mine : job.counts (· == c.info.eplev.fd) = 1 := by
    unfold Job.counts
    cases hs : job.stage <;> simp_all
  have held := le_held (Job.counts (· == c.info.eplev.fd)) running
  have delivered := h.located.delivered (· == c.info.eplev.fd)
  have le := h.delivered_le (taskCounts (· == c.info.eplev.fd))
  rw [h.located.tally_accepted, tally_nodup h.counting.submitted_nodup] at le
  by_contra absent
  rw [if_neg absent] at le
  omega

theorem concerns_step (sound : Sound s)
    (h : WorkerPool.Concerns (· ∈ s.submitted) s.workers) (m : Move cpuCore s a s') :
    WorkerPool.Concerns (· ∈ s'.submitted) s'.workers := by
  have move {b : WorkerPool.Act} {workers : WorkerPool.State}
      (step : WorkerPool.step s.workers b = some workers)
      (quiet : (∀ j info, b ≠ .taskEmplace j info) ∧ ∀ i events, b ≠ .poll i events) :
      WorkerPool.Concerns (· ∈ s.submitted) workers :=
    h.step (.of_step step) (fun j info he => absurd he (quiet.1 j info))
      fun i events _ he => absurd he (quiet.2 i events)
  cases m
  case startWorkers step | worker step | register step | read step => exact move step (by simp)
  case submit => exact h.mono fun fd hfd => List.mem_append_left _ hfd
  case taskLock lock _ => exact move lock (by simp)
  case taskEmplace i c pool workers job emplace _ =>
    refine h.step (.of_step emplace) (fun j info he => ?_) (by simp)
    obtain ⟨-, rfl⟩ : i = j ∧ c.info = info := by simpa using he
    exact sound.mem_submitted job rfl (by simp)
  case taskUnlock unlock _ => exact move unlock (by simp)
  case poll i events workers may step =>
    refine h.step (.of_step step) (by simp) fun j events' w he worker e hmem => ?_
    obtain ⟨rfl, rfl⟩ : i = j ∧ events = events' := by simpa using he
    have all := (Bool.and_eq_true_iff.mp may).2
    rw [worker, Option.any_some, List.all_eq_true] at all
    exact (Bool.and_eq_true_iff.mp (all e hmem)).1
  all_goals exact h

theorem concerns_of_run (h : run (step cpuCore) (.listening n) as = some s) :
    WorkerPool.Concerns (· ∈ s.submitted) s.workers := by
  refine (run_invariant
    (I := fun s => Sound s ∧ WorkerPool.Concerns (· ∈ s.submitted) s.workers) ?_ ?_ h).2
  · exact ⟨.listening n, .constructed _ n⟩
  · rintro s a s' ⟨sound, concerns⟩ hs
    have m := Move.of_step hs
    exact ⟨sound.step m, concerns_step sound concerns m⟩

/-! ## Disconnects along a run -/

/-- A step of the server handles a disconnect, or leaves those handled as they are. -/
theorem Move.disconnected (m : Move cpuCore s a s') :
    ¬ NoDisconnect s a ∧ s'.workers.disconnected ≠ [] ∨
      NoDisconnect s a ∧ s'.workers.disconnected = s.workers.disconnected := by
  have quiet {b : WorkerPool.Act} {workers : WorkerPool.State}
      (step : WorkerPool.step s.workers b = some workers)
      (none_ : ¬ WorkerPool.HandlesDisconnect s.workers b) :
      workers.disconnected = s.workers.disconnected :=
    (WorkerPool.Move.of_step step).disconnected.elim (fun h => absurd h.1 none_) (·.2)
  cases m
  case startWorkers step | taskLock step _ | taskEmplace step _ | taskUnlock step _ |
      register step | poll step =>
    exact .inr ⟨trivial, quiet step id⟩
  case worker step =>
    simpa only [NoDisconnect, not_not] using (WorkerPool.Move.of_step step).disconnected
  case read step =>
    simpa only [NoDisconnect, not_not, State.consume] using
      (WorkerPool.Move.of_step step).disconnected
  all_goals exact .inr ⟨trivial, rfl⟩

theorem disconnected_eq_nil_iff (h : run (step cpuCore) (.listening n) as = some s) :
    s.workers.disconnected = [] ↔ EveryStep (step cpuCore) NoDisconnect (.listening n) as := by
  refine final_iff_everyStep (P := fun s : State => s.workers.disconnected = [])
    (I := fun _ => True) (A := fun _ => True) trivial
    (fun _ _ _ _ _ _ => trivial) ?_ (fun s a s' _ _ hs => ?_) h fun _ _ => trivial
  · simp [State.listening, WorkerPool.State.constructed]
  · rcases (Move.of_step hs).disconnected with ⟨handled, some_⟩ | ⟨quiet, same⟩
    · simp [handled, some_]
    · simp [quiet, same]

/-- `connected_num_` counts the connected clients, and lets the server accept whenever fewer
than `SERVER_MAX_CONNECTION` are connected, if and only if no disconnect has been handled in
the run. -/
theorem countsConnected_iff (h : run (step cpuCore) (.listening n) as = some s) :
    CountsConnected s ↔ EveryStep (step cpuCore) NoDisconnect (.listening n) as := by
  have counting := (sound_of_run h).counting
  rw [← disconnected_eq_nil_iff h]
  constructor
  · rintro ⟨same, -⟩
    rw [counting.tally, State.connected, eq_comm, List.length_filter_eq_length_iff] at same
    refine List.eq_nil_iff_forall_not_mem.mpr fun fd hfd => ?_
    have submitted := (concerns_of_run h).disconnected fd hfd
    have accepted : fd ∈ s.accepted := counting.pending ▸ List.mem_append_left _ submitted
    simpa [hfd] using same fd accepted
  · intro none_
    have connected : s.connected = s.accepted.length := by simp [State.connected, none_]
    refine ⟨by rw [connected, counting.tally], fun events at_ epollin room => ?_⟩
    have tally := counting.tally
    rw [at_] at tally
    have free : s.connectedNum < serverMaxConnection := by
      simp only [Acceptor.uncounted] at tally
      omega
    simp [eventStep, at_, epollin, free]

/-- One client connects, is served, and closes its connection. -/
def oneDisconnect : List Act :=
  boot ++ [.thread 0, .thread 0, .thread 0, .connect 1, .peer 0 (.send 10), .report epollIn, .event,
    .accept (.descriptor 5), .submit [], .count, .thread 0, .taskRead 0 10, .task 0, .task 0,
    .task 0, .worker 0, .worker 0, .worker 0, .worker 0, .worker 0, .register 0 true, .worker 0,
    .worker 0, .worker 0, .worker 0, .peer 0 .close, .poll 0 [⟨epollIn, 5⟩], .worker 0, .read 0 0]

theorem oneDisconnect_miscounts :
    ∃ s, run (step 1) (.listening 2) oneDisconnect = some s ∧ s.acceptor = .polling ∧
      s.connectedNum = 1 ∧ s.connected = 0 ∧ ¬ CountsConnected s := by
  have end_ : (run (step 1) (.listening 2) oneDisconnect).map
      (fun s => (s.acceptor, s.connectedNum, s.connected)) = some (.polling, 1, 0) := by
    decide +kernel
  obtain ⟨s, hs, he⟩ := Option.map_eq_some_iff.mp end_
  simp only [Prod.mk.injEq] at he
  obtain ⟨at_, num, connected⟩ := he
  refine ⟨s, hs, at_, num, connected, fun ⟨same, _⟩ => ?_⟩
  simp [at_, num, connected, Acceptor.uncounted] at same

theorem countsConnected_iff_twoClients :
    ∃ s, run (step 1) (.listening 2) twoClients = some s ∧ CountsConnected s := by
  have end_ : (run (step 1) (.listening 2) twoClients).map
      (fun s => s.workers.disconnected) = some [] := by decide +kernel
  obtain ⟨s, hs, none_⟩ := Option.map_eq_some_iff.mp end_
  exact ⟨s, hs, (countsConnected_iff hs).mpr ((disconnected_eq_nil_iff hs).mp none_)⟩

end EpollServer.Server
