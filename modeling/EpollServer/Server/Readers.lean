import EpollServer.Server.Journey

/-!
# Who reads from a client

Pool threads and workers read from the sockets of clients, without any lock around the `read`.
None is needed: the place of a client says which thread may read from it. Its first request is
read by the pool thread that runs its task, all later ones by the worker that has recorded it.
-/
namespace EpollServer.Server

open Library

/-- A thread that reads from clients. -/
inductive Reader where
  | thread (i : ℕ)
  | worker (j : ℕ)
  deriving DecidableEq, Repr

/-- The thread is in a `read` on this descriptor. -/
def State.reads (s : State) (fd : Int) : Reader → Bool
  | .thread i => (s.pool.running i).bind Job.reading == some fd
  | .worker j => s.workers.workers[j]?.any fun w =>
      match w.pc with
      | .reading event _ => event.fd == fd
      | _ => false

/-- Where a client is while the thread reads from it. -/
def Reader.place : Reader → Place
  | .thread i => .reading i
  | .worker j => .recorded j

variable {cpuCore : Int} {s s' : State} {a : Act} {n : ℕ} {as bs : List Act} {fd : Int}
  {r r' : Reader}

theorem ownClients_step (h : WorkerPool.OwnClients s.workers) (m : Move cpuCore s a s') :
    WorkerPool.OwnClients s'.workers := by
  have move {b : WorkerPool.Act} {workers : WorkerPool.State}
      (step : WorkerPool.step s.workers b = some workers) (quiet : ∀ i events, b ≠ .poll i events) :
      WorkerPool.OwnClients workers :=
    h.step (.of_step step) fun i events _ he => absurd he (quiet i events)
  cases m
  case startWorkers step | worker step | register step | read step => exact move step (by simp)
  case taskLock step _ | taskEmplace step _ | taskUnlock step _ => exact move step (by simp)
  case poll i events workers may step =>
    refine h.step (.of_step step) fun j events' w he worker e hmem => ?_
    obtain ⟨rfl, rfl⟩ : i = j ∧ events = events' := by simpa using he
    have all := (Bool.and_eq_true_iff.mp may).2
    rw [worker, Option.any_some, List.all_eq_true] at all
    exact (Bool.and_eq_true_iff.mp (all e hmem)).1
  all_goals exact h

theorem ownClients_of_run (h : run (step cpuCore) (.listening n) as = some s) :
    WorkerPool.OwnClients s.workers :=
  run_invariant (I := fun s => WorkerPool.OwnClients s.workers) (.constructed n)
    (fun _ _ _ hs ha => ownClients_step hs (.of_step ha)) h

/-- A thread reads only from clients that are at its place. -/
theorem isAt_of_reads (own : WorkerPool.OwnClients s.workers) (reads : s.reads fd r = true) :
    s.isAt fd r.place = true := by
  cases r with
  | thread i => exact reads
  | worker j =>
    obtain ⟨w, worker, reads⟩ := (Option.any_eq_true _ _).mp reads
    cases pc : w.pc <;> simp only [pc, Bool.false_eq_true] at reads
    case reading event rest =>
      have mine : fd ∈ w.pc.fds := by
        rw [pc, ← eq_of_beq reads]
        exact List.mem_cons_self
      have owns := (own w (List.mem_of_getElem? worker)).handled fd mine
      have recorded : w.records fd = true := owns.resolve_right (by simp [pc, WorkerPool.Pc.inHand])
      simpa [State.isAt, Reader.place, WorkerPool.holdings_getElem? worker,
        WorkerPool.Worker.holdings, WorkerPool.Worker.records] using recorded

/-- At any time at most one thread reads from a client, and over any part of a run it stays the
same one, except that a worker takes over from a pool thread. -/
theorem one_reader (h : run (step cpuCore) (.listening n) as = some s)
    (later : run (step cpuCore) s bs = some s') (reads : s.reads fd r = true) :
    (∀ r', s.reads fd r' = true → r' = r) ∧
      ∀ r', s'.reads fd r' = true → r' = r ∨ ∃ i j, r = .thread i ∧ r' = .worker j := by
  have place_injective (r r' : Reader) (same : r.place = r'.place) : r = r' := by
    cases r <;> cases r' <;> simp_all [Reader.place]
  have own := ownClients_of_run h
  have at_ := isAt_of_reads own reads
  constructor
  · intro r' reads'
    exact place_injective _ _ (unique_of_run h (isAt_of_reads own reads') at_)
  · intro r' reads'
    obtain ⟨q, path, there⟩ := path_of_runs h later at_
    have whole : run (step cpuCore) (.listening n) (as ++ bs) = some s' := by
      rw [run_append, h]
      exact later
    obtain rfl := (there r'.place).mp (isAt_of_reads (ownClients_of_run whole) reads')
    rcases path.eq_or_rank_lt fun _ _ => Place.rank_lt with same | further
    · exact .inl (place_injective _ _ same)
    · cases r <;> cases r' <;> simp_all [Reader.place, Place.rank]

/-- The first client of `twoClients` sends once more, after it is recorded. -/
def secondRequest : List Act :=
  [.register 0 true, .worker 0, .worker 0, .worker 0, .worker 0, .peer 0 (.send 1),
   .poll 0 [⟨epollIn, 5⟩], .worker 0]

/-- Pool thread 0 reads its first request and worker 0 the second one. -/
theorem one_reader_secondRequest :
    ∃ s s', run (step 1) (.listening 2) (twoClients.take 23) = some s ∧
      run (step 1) s (twoClients.drop 23 ++ secondRequest) = some s' ∧
      s.reads 5 (.thread 0) = true ∧ s'.reads 5 (.worker 0) = true ∧
      (∀ r, s.reads 5 r = true → r = .thread 0) ∧
      ∀ r, s'.reads 5 r = true →
        r = .thread 0 ∨ ∃ i j, Reader.thread 0 = .thread i ∧ r = .worker j := by
  have before : (run (step 1) (.listening 2) (twoClients.take 23)).map (·.reads 5 (.thread 0)) =
      some true := by decide +kernel
  have after : (run (step 1) (.listening 2) (twoClients ++ secondRequest)).map
      (·.reads 5 (.worker 0)) = some true := by decide +kernel
  obtain ⟨s, hs, first⟩ := Option.map_eq_some_iff.mp before
  obtain ⟨s', hs', second⟩ := Option.map_eq_some_iff.mp after
  rw [← List.take_append_drop 23 twoClients, List.append_assoc, run_append, hs,
    Option.bind_some] at hs'
  obtain ⟨now, later⟩ := one_reader hs hs' first
  exact ⟨s, s', hs, hs', first, second, now, later⟩

/-! ## Who polls a client -/

/-- The client is registered with the poller of worker `i`. -/
def State.polls (s : State) (i : ℕ) (fd : Int) : Bool :=
  s.workers.workers[i]?.any (·.poller.registered fd)

theorem isAt_of_polls {i : ℕ} (own : WorkerPool.OwnClients s.workers)
    (polls : s.polls i fd = true) : s.isAt fd (.recorded i) = true := by
  obtain ⟨w, worker, registered⟩ := (Option.any_eq_true _ _).mp polls
  obtain ⟨e, mem, same⟩ := List.any_eq_true.mp registered
  have recorded : w.records fd = true :=
    eq_of_beq same ▸ (own w (List.mem_of_getElem? worker)).polled e mem
  simpa [State.isAt, WorkerPool.holdings_getElem? worker, WorkerPool.Worker.holdings,
    WorkerPool.Worker.records] using recorded

theorem Move.polls {i : ℕ} (m : Move cpuCore s a s') (polls : s.polls i fd = true) :
    s'.polls i fd = true := by
  obtain ⟨w, worker, registered⟩ := (Option.any_eq_true _ _).mp polls
  rcases m.workers with same | ⟨b, step⟩
  · rw [State.polls, same]
    exact polls
  · exact (Option.any_eq_true _ _).mpr ((WorkerPool.Move.of_step step).registered worker registered)

/-- A client that is registered with a worker stays registered there for good. The worker has it
recorded, no other worker ever polls it, and no other thread reads from it any more. -/
theorem one_poller {i : ℕ} (h : run (step cpuCore) (.listening n) as = some s)
    (later : run (step cpuCore) s bs = some s') (polls : s.polls i fd = true) :
    s'.polls i fd = true ∧ s'.isAt fd (.recorded i) = true ∧
      (∀ j, s'.polls j fd = true → j = i) ∧ ∀ r, s'.reads fd r = true → r = .worker i := by
  have whole : run (step cpuCore) (.listening n) (as ++ bs) = some s' := by
    rw [run_append, h]
    exact later
  have own := ownClients_of_run whole
  have still : s'.polls i fd = true :=
    run_invariant (I := fun s => s.polls i fd = true) polls
      (fun _ _ _ hs ha => (Move.of_step ha).polls hs) later
  have recorded := isAt_of_polls own still
  refine ⟨still, recorded, fun j other => ?_, fun r reads => ?_⟩
  · exact Place.recorded.inj (unique_of_run whole (isAt_of_polls own other) recorded)
  · have place := unique_of_run whole (isAt_of_reads own reads) recorded
    cases r with
    | thread => cases place
    | worker j => rw [Place.recorded.inj place]

/-- Worker 0 registers the first client, and reads its second request. -/
theorem one_poller_secondRequest :
    ∃ s s', run (step 1) (.listening 2) (twoClients ++ secondRequest.take 1) = some s ∧
      run (step 1) s (secondRequest.drop 1) = some s' ∧ s.polls 0 5 = true ∧
      s'.reads 5 (.worker 0) = true ∧ (∀ j, s'.polls j 5 = true → j = 0) ∧
      ∀ r, s'.reads 5 r = true → r = .worker 0 := by
  have before : (run (step 1) (.listening 2) (twoClients ++ secondRequest.take 1)).map
      (·.polls 0 5) = some true := by decide +kernel
  have after : (run (step 1) (.listening 2)
      ((twoClients ++ secondRequest.take 1) ++ secondRequest.drop 1)).map
      (·.reads 5 (.worker 0)) = some true := by decide +kernel
  obtain ⟨s, hs, polls⟩ := Option.map_eq_some_iff.mp before
  obtain ⟨s', hs', second⟩ := Option.map_eq_some_iff.mp after
  rw [run_append, hs, Option.bind_some] at hs'
  obtain ⟨-, -, once, reader⟩ := one_poller hs hs' polls
  exact ⟨s, s', hs, hs', polls, second, once, reader⟩

end EpollServer.Server
