import EpollServer.Server.Locking
import EpollServer.Server.Readers
import EpollServer.Server.Unread

/-!
# Why no worker blocks

The sockets of the clients block, and a worker reads from them in the callback of its poller. A
`read` without data would stop the worker and all of its clients. It never does: `EPOLLIN` is
reported only of a socket that a `read` returns from at once, nobody but the worker reads from its
clients, and it makes one `read` for each event. So a worker waits for nothing but `locker_`.
-/
namespace EpollServer.WorkerPool

variable {s s' : State} {a : Act} {i : ℕ}

/-- The worker reads only where its event has `EPOLLIN`. -/
def Worker.Prompted (w : Worker) : Prop :=
  ∀ event rest, w.pc = .reading event rest → hasEvent event.events epollIn = true

theorem prompted_step (h : ∀ w ∈ s.workers, w.Prompted) (m : Move s a s') :
    ∀ w ∈ s'.workers, w.Prompted := by
  have set {k : ℕ} {u : Worker} (prompts : u.Prompted) : ∀ w ∈ s.workers.set k u, w.Prompted := by
    intro w mem
    rcases List.mem_or_eq_of_mem_set mem with old | rfl
    · exact h w old
    · exact prompts
  cases m
  case startWorker w at_ worker =>
    refine set fun event rest pc => ?_
    rcases w.pc_start _ with same | ⟨-, top⟩
    · exact h w (List.mem_of_getElem? worker) event rest (same.symm.trans pc)
    · cases top.symm.trans pc
  case handleIn event rest worker pc epollin =>
    refine set fun event' rest' pc' => ?_
    obtain ⟨rfl, rfl⟩ := Pc.reading.inj pc'
    exact epollin
  case enter | startedAll | store | create | setStarted | popEmpty | divideByZero | taskLock |
      taskEmplace | taskUnlock =>
    exact h
  all_goals exact set fun _ _ pc => by cases pc

/-- What a step leaves for a worker to handle; `polls` and `reads` say what the step is, if it is a
step of this worker. -/
inductive Leaves (polls : List EpollEvent → Prop) (reads : Prop) (before after : Pc) : Prop
  | poll {events : List EpollEvent} (act : polls events) (left : after.unhandled = events)
  | read {event : EpollEvent} {rest : List EpollEvent} (pc : before = .reading event rest)
      (left : after.unhandled = rest)
  | fewer (other : ¬ reads) (part : after.unhandled.Sublist before.unhandled)

theorem Move.leaves (m : Move s a s') {w' : Worker} (worker' : s'.workers[i]? = some w') :
    ∃ w, s.workers[i]? = some w ∧
      Leaves (fun events => a = .poll i events) (∃ n, a = .read i n) w.pc w'.pc := by
  have set {k : ℕ} {w u : Worker} (worker : s.workers[k]? = some w)
      (workers : s'.workers = s.workers.set k u) (foreign : k ≠ i → ∀ n, a ≠ .read i n)
      (own : k = i →
        Leaves (fun events => a = .poll i events) (∃ n, a = .read i n) w.pc u.pc) :
      ∃ w, s.workers[i]? = some w ∧
        Leaves (fun events => a = .poll i events) (∃ n, a = .read i n) w.pc w'.pc := by
    rw [workers, List.getElem?_set] at worker'
    split_ifs at worker' with mine
    · subst mine
      obtain rfl := Option.some.inj worker'
      exact ⟨w, worker, own rfl⟩
    · exact ⟨w', worker', .fewer (fun ⟨n, same⟩ => foreign mine n same) (.refl _)⟩
  cases m
  case startWorker ok k w at_ worker =>
    refine set worker rfl (by simp) fun _ => .fewer (by simp) ?_
    rcases w.pc_start ok with same | ⟨-, top⟩
    · rw [same]
    · rw [top]
      exact List.nil_sublist _
  case poll k events w wttme worker pc =>
    exact set worker rfl (by simp) fun mine =>
      .poll (congrArg (Act.poll · events) mine) rfl
  case readEnd worker pc | read worker pc _ =>
    exact set worker rfl (by simp) fun _ => .read pc rfl
  case handleOther worker pc _ =>
    refine set worker rfl (by simp) fun _ => .fewer (by simp) ?_
    rw [pc]
    exact List.sublist_cons_self _ _
  case enter | startedAll | store | create | setStarted | popEmpty | divideByZero | taskLock |
      taskEmplace | taskUnlock =>
    exact ⟨w', worker', .fewer (by simp) (.refl _)⟩
  all_goals
    have worker := ‹s.workers[_]? = some _›
    refine set worker rfl (by simp) fun _ => .fewer (by simp) ?_
    have pc := ‹Worker.pc _ = _›
    rw [pc]
    exact .refl _

/-- A program point where the worker makes no system call. -/
def Pc.isInner : Pc → Bool
  | .unstarted | .register _ | .poll _ | .reading _ _ => false
  | _ => true

theorem workerStep_isSome {w : Worker} (inner : w.pc.isInner = true)
    (free : w.pc = .lock → s.locker = none) : (workerStep s i w).isSome = true := by
  unfold workerStep
  split
  case h_2 pc => simp [free pc]
  case h_4 => split <;> rfl
  case h_10 => split <;> rfl
  case h_13 => split_ifs <;> rfl
  case h_15 pc | h_16 pc | h_17 pc | h_18 pc => simp [pc, Pc.isInner] at inner
  all_goals rfl

end EpollServer.WorkerPool

namespace EpollServer.Server

open Library
open WorkerPool (Leaves)

variable {cpuCore : Int} {s s' : State} {act : Act} {n : ℕ} {as : List Act} {fd : Int} {i : ℕ}

/-! ## What a `read` finds -/

theorem Connection.blocks_eq (c : Connection) (ready : c.readable = true) : c.blocks = false := by
  unfold readable at ready
  unfold blocks
  cases closed : c.closed <;> cases reset : c.reset <;> simp_all [Nat.pos_iff_ne_zero]

theorem Connection.readable_peer {c c' : Connection} {p : PeerAct} (h : c.peer p = some c')
    (ready : c.readable = true) : c'.readable = true := by
  unfold peer at h
  unfold readable unread at ready ⊢
  split at h <;> split_ifs at h <;> obtain rfl := Option.some.inj h <;> simp_all
  omega

/-- A `read` on the descriptor returns at once. -/
def State.readable (s : State) (fd : Int) : Bool := (s.connectionOf fd).any (·.readable)

/-- The thread whose `read` returns in the step. -/
def Act.reader : Act → Option Reader
  | .taskRead i _ => some (.thread i)
  | .read j _ => some (.worker j)
  | _ => none

theorem readable_iff :
    s.readable fd = true ↔ ∃ c, s.connectionOf fd = some c ∧ c.readable = true :=
  Option.any_eq_true _ _

/-- One connection changes, under the same descriptor. -/
theorem readable_set {k : ℕ} {c c' : Connection} (ready : s.readable fd = true)
    (connections : s'.connections = s.connections.set k c')
    (connection : s.connections[k]? = some c) (same : (c'.fd == some fd) = (c.fd == some fd))
    (keeps : c.readable = true → c'.readable = true) : s'.readable fd = true := by
  obtain ⟨d, hd, ready⟩ := readable_iff.mp ready
  obtain ⟨d', found, rfl | ⟨rfl, rfl⟩⟩ := find?_set connection same hd
  · exact readable_iff.mpr ⟨_, by rwa [State.connectionOf, connections], ready⟩
  · exact readable_iff.mpr ⟨_, by rwa [State.connectionOf, connections], keeps ready⟩

/-- The descriptor that `accept` returns is another one. -/
theorem accepted_other {k : ℕ} {rest : List ℕ} {d : Connection} {new : Int} (counting : Counting s)
    (ready : s.readable fd = true) (queue : s.acceptQueue = k :: rest)
    (connection : s.connections[k]? = some d) (closed : s.isOpen new = false) :
    (some new == some fd) = (d.fd == some fd) := by
  obtain ⟨c, hc, -⟩ := readable_iff.mp ready
  obtain ⟨d', hd, none_⟩ := counting.waiting k (by simp [queue])
  obtain rfl : d = d' := by simpa [connection] using hd
  have other : new ≠ fd := by
    rintro rfl
    simp [isOpen_of_connectionOf hc] at closed
  simp [none_, other]

/-- A `read` on one descriptor leaves the others alone. -/
theorem readable_consume {u : State} {fd' m : Int} (ready : s.readable fd = true)
    (connections : u.connections = s.connections) (other : fd' ≠ fd) :
    (u.consume fd' m).readable fd = true := by
  obtain ⟨c, hc, ready⟩ := readable_iff.mp ready
  have before : u.connectionOf fd = some c := by rwa [State.connectionOf, connections]
  refine readable_iff.mpr ⟨c, ?_, ready⟩
  have mine : (c.fd == some fd') = false := by
    rw [fd_of_connectionOf hc]
    simpa using Ne.symm other
  rw [connectionOf_consume, before, Option.map_some, mine]
  rfl

/-- Nothing but a `read` takes away what a socket has to return. -/
theorem Move.readable (m : Move cpuCore s act s') (counting : Counting s)
    (ready : s.readable fd = true) :
    s'.readable fd = true ∨ ∃ r, act.reader = some r ∧ s.reads fd r = true := by
  cases m
  case connect port =>
    obtain ⟨c, hc, ready⟩ := readable_iff.mp ready
    have found : s.connections.find? (·.fd == some fd) = some c := hc
    exact .inl (readable_iff.mpr ⟨c, by simp [State.connectionOf, List.find?_append, found], ready⟩)
  case peer k p c c' connection change =>
    exact .inl (readable_set ready rfl connection (by rw [Connection.fd_peer change])
      (Connection.readable_peer change))
  case accept queue connection _ new | acceptZero queue connection new =>
    exact .inl (readable_set ready rfl connection
      (accepted_other counting ready queue connection new) id)
  case taskRead i n c k pool job _ _ _ =>
    by_cases mine : c.info.eplev.fd = fd
    · exact .inr ⟨.thread i, rfl, by simp [State.reads, job, Job.reading, mine]⟩
    · exact .inl (readable_consume ready rfl mine)
  case read i n w event rest k workers worker pc _ _ _ =>
    by_cases mine : event.fd = fd
    · exact .inr ⟨.worker i, rfl, by simp [State.reads, worker, pc, mine]⟩
    · exact .inl (readable_consume ready rfl mine)
  all_goals exact .inl ready

/-! ## The events that a worker has to handle -/

/-- `epoll_wait` returns each descriptor once at most. -/
def Act.reportsOnce : Act → Bool
  | .poll _ events => (events.map EpollEvent.fd).Nodup
  | _ => true

/-- What every worker that polled its clients can rely on. -/
structure Prompt (s : State) : Prop where
  prompted : ∀ w ∈ s.workers.workers, w.Prompted
  distinct : ∀ (i : ℕ) w, s.workers.workers[i]? = some w →
    (w.pc.unhandled.map EpollEvent.fd).Nodup
  readable : ∀ (i : ℕ) w, s.workers.workers[i]? = some w → ∀ e ∈ w.pc.unhandled,
    hasEvent e.events epollIn = true → s.readable e.fd = true

theorem Prompt.listening (n : ℕ) : Prompt (.listening n) := by
  have constructed (w : WorkerPool.Worker) (mem : w ∈ (State.listening n).workers.workers) :
      w = .constructed := List.eq_of_mem_replicate mem
  refine ⟨fun w mem => ?_, fun i w worker => ?_, fun i w worker => ?_⟩
  · rw [constructed w mem]
    intro _ _ pc
    cases pc
  · rw [constructed w (List.mem_of_getElem? worker)]
    exact List.nodup_nil
  · rw [constructed w (List.mem_of_getElem? worker)]
    intro e he
    cases he

theorem Move.leaves (m : Move cpuCore s act s') {w' : WorkerPool.Worker}
    (worker' : s'.workers.workers[i]? = some w') :
    ∃ w, s.workers.workers[i]? = some w ∧
      Leaves (fun events => act = .poll i events) (∃ n, act = .read i n) w.pc w'.pc := by
  have lift {b : WorkerPool.Act} {workers : WorkerPool.State}
      (step : WorkerPool.step s.workers b = some workers) (after : s'.workers = workers)
      (poll : ∀ events, b = .poll i events → act = .poll i events)
      (read : ∀ n, act = .read i n → b = .read i n) :
      ∃ w, s.workers.workers[i]? = some w ∧
        Leaves (fun events => act = .poll i events) (∃ n, act = .read i n) w.pc w'.pc := by
    obtain ⟨w, worker, leaves⟩ := (WorkerPool.Move.of_step step).leaves (after ▸ worker')
    refine ⟨w, worker, ?_⟩
    cases leaves with
    | poll same left => exact .poll (poll _ same) left
    | read pc left => exact .read pc left
    | fewer other part => exact .fewer (fun ⟨n, same⟩ => other ⟨n, read n same⟩) part
  cases m
  case startWorkers step | taskLock step _ | taskEmplace step _ | taskUnlock step _ |
      worker step | register step | poll step | read step =>
    exact lift step rfl (by simp) (by simp)
  all_goals exact ⟨w', worker', .fewer (by simp) (.refl _)⟩

/-- A descriptor that is reported with `EPOLLIN` can be read from. -/
theorem readable_of_poll {events : List EpollEvent} (may : s.mayPoll i events = true)
    {e : EpollEvent} (mem : e ∈ events) (epollin : hasEvent e.events epollIn = true) :
    s.readable e.fd = true := by
  obtain ⟨w, -, all⟩ := (Option.any_eq_true _ _).mp (Bool.and_eq_true_iff.mp may).2
  have reported := (Bool.and_eq_true_iff.mp (List.all_eq_true.mp all e mem)).2
  obtain ⟨c, connection, report⟩ := (Option.any_eq_true _ _).mp reported
  refine readable_iff.mpr ⟨c, connection, ?_⟩
  have first := (Bool.and_eq_true_iff.mp report).1
  rw [epollin] at first
  exact first

/-- Nobody else reads from a client that a worker has to handle. -/
theorem reader_eq (own : WorkerPool.OwnClients s.workers)
    (unique : ∀ p q, s.isAt fd p = true → s.isAt fd q = true → p = q) {r : Reader}
    (reads : s.reads fd r = true) {w : WorkerPool.Worker}
    (worker : s.workers.workers[i]? = some w) (mem : fd ∈ w.pc.unhandled.map EpollEvent.fd) :
    r = .worker i := by
  have handles : fd ∈ w.pc.fds ∧ w.pc.inHand = none := by
    cases pc : w.pc <;>
      simp_all [WorkerPool.Pc.unhandled, WorkerPool.Pc.fds, WorkerPool.Pc.inHand]
  have recorded : w.records fd = true :=
    ((own w (List.mem_of_getElem? worker)).handled fd handles.1).resolve_right (by simp [handles.2])
  have at_ : s.isAt fd (.recorded i) = true := by
    simpa [State.isAt, WorkerPool.holdings_getElem? worker, WorkerPool.Worker.holdings,
      WorkerPool.Worker.records] using recorded
  have same := unique _ _ (isAt_of_reads own reads) at_
  cases r with
  | thread => cases same
  | worker j => rw [Place.recorded.inj same]

theorem Prompt.step (h : Prompt s) (counting : Counting s) (own : WorkerPool.OwnClients s.workers)
    (unique : ∀ fd p q, s.isAt fd p = true → s.isAt fd q = true → p = q)
    (once : act.reportsOnce = true) (m : Move cpuCore s act s') : Prompt s' := by
  refine ⟨?_, fun i w' worker' => ?_, fun i w' worker' e mem epollin => ?_⟩
  · rcases m.workers with same | ⟨b, step⟩
    · rw [same]
      exact h.prompted
    · exact WorkerPool.prompted_step h.prompted (.of_step step)
  · obtain ⟨w, worker, leaves⟩ := m.leaves worker'
    have before := h.distinct i w worker
    cases leaves with
    | poll same left =>
      rw [left]
      subst same
      exact of_decide_eq_true once
    | read pc left =>
      rw [pc] at before
      rw [left]
      exact (List.nodup_cons.mp before).2
    | fewer _ part => exact before.sublist (part.map _)
  · obtain ⟨w, worker, leaves⟩ := m.leaves worker'
    have before := h.distinct i w worker
    have stays (mem : e ∈ w.pc.unhandled) (other : ¬ (∃ n, act = .read i n) ∨
        s.reads e.fd (.worker i) = false) : s'.readable e.fd = true := by
      rcases m.readable counting (h.readable i w worker e mem epollin) with
        ready | ⟨r, reader, reads⟩
      · exact ready
      · obtain rfl := reader_eq own (unique e.fd) reads worker (List.mem_map_of_mem mem)
        rcases other with other | none_
        · cases act <;> simp_all [Act.reader]
        · simp [none_] at reads
    cases leaves with
    | poll same left =>
      subst same
      rw [left] at mem
      cases m with
      | poll _ _ may _ => exact readable_of_poll may mem epollin
    | read pc left =>
      rename_i event rest
      rw [left] at mem
      refine stays (by rw [pc]; exact List.mem_cons_of_mem _ mem) (.inr ?_)
      rw [pc] at before
      have other : event.fd ≠ e.fd := fun same =>
        (List.nodup_cons.mp before).1 (same ▸ List.mem_map_of_mem mem)
      simpa [State.reads, worker, pc] using other
    | fewer other part => exact stays (part.subset mem) (.inl other)

theorem prompt_of_run (h : run (Server.step cpuCore) (.listening n) as = some s)
    (once : ∀ act ∈ as, act.reportsOnce = true) : Prompt s := by
  have both : (∀ act ∈ as, act.reportsOnce = true) → Prompt s := by
    refine run_induction (P := fun as s => (∀ act ∈ as, act.reportsOnce = true) → Prompt s)
      (fun _ => .listening n) ?_ as s h
    intro as s act s' hs ih ha once
    exact (ih fun b mem => once b (by simp [mem])).step (sound_of_run hs).counting
      (ownClients_of_run hs) (fun _ _ _ at_ at' => unique_of_run hs at_ at') (once act (by simp))
      (.of_step ha)
  exact both once

/-! ## Every worker goes on -/

theorem Prompt.enabled_worker (h : Prompt s) (runs : s.stopped = false) {w : WorkerPool.Worker}
    (worker : s.workers.workers[i]? = some w) (started : w.pc ≠ .unstarted)
    (free : w.pc = .lock → s.workers.locker = none) :
    ∃ act s', act.isOf (.worker i) = true ∧ Server.step cpuCore s act = some s' := by
  obtain ⟨-, fault, -⟩ := faults_of_running runs
  have mine : (Act.worker i).isOf (.worker i) = true := by simp [Act.isOf]
  by_cases inner : w.pc.isInner = true
  · apply exists_step mine (b := .worker i) (by simp [Server.step, runs])
    simp [WorkerPool.step, fault, worker, WorkerPool.workerStep_isSome inner free]
  cases pc : w.pc with
  | unstarted => exact absurd pc started
  | register info =>
    have register : (Act.register i true).isOf (.worker i) = true := mine
    apply exists_step (b := .register i true) register (by simp [Server.step, runs])
    simp [WorkerPool.step, fault, worker, WorkerPool.registerStep, pc]
  | poll wttme =>
    -- The timeout is over.
    have poll : (Act.poll i []).isOf (.worker i) = true := mine
    apply exists_step (b := .poll i []) poll (by simp [Server.step, runs, State.mayPoll, worker])
    simp [WorkerPool.step, fault, worker, WorkerPool.pollStep, pc]
  | reading event rest =>
    have epollin := h.prompted w (List.mem_of_getElem? worker) event rest pc
    have ready := h.readable i w worker event (by simp [pc, WorkerPool.Pc.unhandled]) epollin
    obtain ⟨c, connection, ready⟩ := readable_iff.mp ready
    have some_ : ¬ ∀ r, c.mayRead r = false := by
      rw [← c.blocks_iff, c.blocks_eq ready]
      exact Bool.false_ne_true
    obtain ⟨r, some_⟩ := not_forall.mp some_
    have goes : (Server.step cpuCore s (.read i r)).isSome = true := by
      by_cases end_ : r = 0 <;>
        simp_all [Server.step, readStep, State.workersDo, WorkerPool.step, WorkerPool.readStep]
    obtain ⟨s', goes⟩ := Option.isSome_iff_exists.mp goes
    exact ⟨.read i r, s', mine, goes⟩
  | _ => simp [pc, WorkerPool.Pc.isInner] at inner

/-- If `epoll_wait` returns each descriptor once at most, then in every reachable state each worker
that was started has a step to take, or it waits at `locker_` for a thread that has one. Where it
is in the `read` of a client, that returns at once. -/
theorem workers_go_on (h : run (step cpuCore) (.listening n) as = some s)
    (once : ∀ act ∈ as, act.reportsOnce = true) (runs : s.stopped = false)
    {w : WorkerPool.Worker} (worker : s.workers.workers[i]? = some w)
    (started : w.pc ≠ .unstarted) :
    ((∃ act s', act.isOf (.worker i) = true ∧ step cpuCore s act = some s') ∨
      w.pc = .lock ∧ ∃ k, s.workers.locker = some k ∧
        ∃ act s', act.isOf k = true ∧ step cpuCore s act = some s') ∧
      ∀ event rest, w.pc = .reading event rest →
        ∃ c, s.connectionOf event.fd = some c ∧ c.blocks = false := by
  have prompt := prompt_of_run h once
  refine ⟨?_, fun event rest pc => ?_⟩
  · cases locker : s.workers.locker with
    | none => exact .inl (prompt.enabled_worker runs worker started fun _ => locker)
    | some k =>
      by_cases lock : w.pc = .lock
      · refine .inr ⟨lock, k, rfl, ?_⟩
        cases k with
        | worker j => exact (locking_of_run h).enabled_worker locker runs
        | task j => exact (locking_of_run h).enabled_task locker runs
      · exact .inl (prompt.enabled_worker runs worker started fun pc => absurd pc lock)
  · have epollin := prompt.prompted w (List.mem_of_getElem? worker) event rest pc
    have ready := prompt.readable i w worker event (by simp [pc, WorkerPool.Pc.unhandled]) epollin
    obtain ⟨c, connection, ready⟩ := readable_iff.mp ready
    exact ⟨c, connection, c.blocks_eq ready⟩

/-- Worker 0 reads the second request of the first client. -/
theorem workers_go_on_secondRequest :
    ∃ s w, run (step 1) (.listening 2) (twoClients ++ secondRequest) = some s ∧
      s.workers.workers[0]? = some w ∧ w.pc = .reading ⟨epollIn, 5⟩ [] ∧
      ∃ c, s.connectionOf 5 = some c ∧ c.blocks = false := by
  have end_ : (run (step 1) (.listening 2) (twoClients ++ secondRequest)).map
      (fun s => (s.stopped, s.workers.workers[0]?.map WorkerPool.Worker.pc)) =
      some (false, some (.reading ⟨epollIn, 5⟩ [])) := by decide +kernel
  obtain ⟨s, hs, he⟩ := Option.map_eq_some_iff.mp end_
  obtain ⟨runs, worker⟩ := Prod.mk.inj he
  obtain ⟨w, worker, pc⟩ := Option.map_eq_some_iff.mp worker
  have goes := workers_go_on hs (by decide) runs worker (by simp [pc])
  exact ⟨s, w, hs, worker, pc, goes.2 _ _ pc⟩

end EpollServer.Server
