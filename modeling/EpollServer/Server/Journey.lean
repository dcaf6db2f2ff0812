import EpollServer.Server.Whereabouts
import EpollServer.ThreadPool.Running
import EpollServer.WorkerPool.Passing
import EpollServer.Library.Journey

/-!
# The journey of a client through the server

A client that `accept` returned goes from the main thread into the ring, into the task of one
pool thread, which reads its first request and answers it, into `event_storage_`, and by one
worker into the `client_infos` of that worker. Two queues, two locks and three kinds of threads
are on the way; still each step of the server moves at most one client, and by one leg. So the
server refines a journey of its clients, whatever the interleaving: no client is lost,
duplicated or sent back, and the worker that records it is its last place.
-/
namespace EpollServer.Server

open Library

/-- Where a client can be. -/
inductive Place where
  /-- Returned by `accept`, and not yet submitted. -/
  | accepted
  /-- In the ring of the thread pool. -/
  | ring
  /-- In the task of pool thread `i`, before its `read` has returned. -/
  | reading (i : ℕ)
  /-- In the task of pool thread `i`, after the first reply. -/
  | answered (i : ℕ)
  /-- In `event_storage_`. -/
  | stored
  /-- Popped by worker `j`. -/
  | popped (j : ℕ)
  /-- In `client_infos` of worker `j`. -/
  | recorded (j : ℕ)
  deriving DecidableEq, Repr

/-- The legs of the journey. -/
def Place.next : Place → Place → Bool
  | .accepted, .ring | .ring, .reading _ | .answered _, .stored | .stored, .popped _ => true
  | .reading i, .answered j => i == j
  | .popped i, .recorded j => i == j
  | _, _ => false

/-- How far a client has come. -/
def Place.rank : Place → ℕ
  | .accepted => 0
  | .ring => 1
  | .reading _ => 2
  | .answered _ => 3
  | .stored => 4
  | .popped _ => 5
  | .recorded _ => 6

theorem Place.rank_lt {p q : Place} (leg : p.next q = true) : p.rank < q.rank := by
  cases p <;> cases q <;> simp_all [next, rank]

theorem Place.rank_le (p : Place) : p.rank ≤ 6 := by
  cases p <;> simp [rank]

/-- The client of a task whose `read` has not returned. -/
def Job.reading (job : Job) : Option Int :=
  if job.stage = .read then job.closure.map (·.info.eplev.fd) else none

/-- The client of a task that has sent its reply and has not put the client away. -/
def Job.answered (job : Job) : Option Int :=
  if job.stage = .lock ∨ job.stage = .emplace then job.closure.map (·.info.eplev.fd) else none

/-- The client with this descriptor is at the place. -/
def State.isAt (s : State) (fd : Int) : Place → Bool
  | .accepted => s.acceptor.pending.contains fd
  | .ring => 0 < s.inRing fd
  | .reading i => (s.pool.running i).bind Job.reading == some fd
  | .answered i => (s.pool.running i).bind Job.answered == some fd
  | .stored => s.workers.eventStorage.any (·.eplev.fd == fd)
  | .popped j => s.workers.holdings[j]?.any (·.1 == some fd)
  | .recorded j => s.workers.holdings[j]?.any (·.2.contains fd)

variable {cpuCore : Int} {s s' : State} {a : Act} {n : ℕ} {as : List Act} {fd : Int} {p q : Place}

/-- One step moves at most one client, by one leg. -/
def State.Advances (s s' : State) : Prop :=
  Travels .accepted Place.next (fun fd p => s.isAt fd p = true) fun fd p => s'.isAt fd p = true

/-! ## What stays as it is -/

/-- The two states have the same clients with the main thread and in the ring. -/
structure SameFront (s s' : State) : Prop where
  pending : s'.acceptor.pending = s.acceptor.pending
  ring : ∀ fd, s'.inRing fd = s.inRing fd

/-- The two states have the same clients in the tasks. -/
def SameTasks (s s' : State) : Prop :=
  ∀ i, (s'.pool.running i).bind Job.reading = (s.pool.running i).bind Job.reading ∧
    (s'.pool.running i).bind Job.answered = (s.pool.running i).bind Job.answered

/-- The two states have the same clients in the worker pool. -/
structure SameBack (s s' : State) : Prop where
  stored : s'.workers.eventStorage = s.workers.eventStorage
  holdings : s'.workers.holdings = s.workers.holdings

theorem State.Advances.stay (front : SameFront s s') (tasks : SameTasks s s')
    (back : SameBack s s') : s.Advances s' := by
  refine Travels.stay fun fd p => ?_
  cases p with
  | accepted | ring => simp [isAt, front.pending, front.ring]
  | reading i | answered i => simp [isAt, tasks i]
  | stored | popped | recorded => simp [isAt, back.stored, back.holdings]

theorem inRing_eq (h : Sound s) (h' : Sound s') (history : ThreadPool.SameHistory s.pool s'.pool)
    (fd : Int) : s'.inRing fd = s.inRing fd := by
  have before := h.inRing fd
  have after := h'.inRing fd
  rw [history.1, history.2] at after
  omega

/-- The thread pool and the main thread do nothing. -/
theorem SameFront.of_pool (pending : s'.acceptor.pending = s.acceptor.pending)
    (pool : s'.pool = s.pool) : SameFront s s' :=
  ⟨pending, fun _ => by rw [State.inRing, State.inRing, pool]⟩

theorem SameTasks.of_running (running : s'.pool.running = s.pool.running) : SameTasks s s' :=
  fun _ => by rw [running]; exact ⟨rfl, rfl⟩

theorem SameBack.of_workers (workers : s'.workers = s.workers) : SameBack s s' :=
  ⟨by rw [workers], by rw [workers]⟩

theorem getElem?_set_eq {β : Type*} {l : List β} {i : ℕ} {x : β} (before : l[i]? = some x) (y : β)
    (k : ℕ) : (l.set i y)[k]? = if k = i then some y else l[k]? := by
  have inside := (List.getElem?_eq_some_iff.mp before).1
  by_cases same : k = i
  · subst same
    rw [List.getElem?_set_self inside, if_pos rfl]
  · rw [List.getElem?_set_ne (Ne.symm same), if_neg same]

/-! ## One step -/

/-- A worker pops the front of `event_storage_`. -/
theorem Sound.advances_pop (h : Sound s) {i : ℕ} {info : WorkerPool.ClientInfo}
    {recorded : List Int} (first : s.workers.eventStorage = info :: s'.workers.eventStorage)
    (before : s.workers.holdings[i]? = some (none, recorded))
    (after : s'.workers.holdings = s.workers.holdings.set i (some info.eplev.fd, recorded))
    (front : SameFront s s') (tasks : SameTasks s s') : s.Advances s' := by
  have once : s.inStorage info.eplev.fd ≤ 1 := by
    have := h.places info.eplev.fd
    split_ifs at this <;> omega
  have whole : s.inStorage info.eplev.fd = 1 + s'.inStorage info.eplev.fd := by
    simp [State.inStorage, WorkerPool.State.stored, first, WorkerPool.ClientInfo.counts]
  refine Travels.move info.eplev.fd .stored (.popped i) rfl ?_ ?_ ?_ fun j r other => ?_
  · simp [State.isAt, first]
  · intro again
    have : 0 < s'.inStorage info.eplev.fd := tally_ind_pos.mpr (List.any_eq_true.mp again)
    omega
  · simp [State.isAt, after, getElem?_set_eq before]
  · cases r with
    | accepted | ring => simp [State.isAt, front.pending, front.ring]
    | reading k | answered k => simp [State.isAt, tasks k]
    | stored =>
      have different : info.eplev.fd ≠ j := fun same => other ⟨same.symm, .inl rfl⟩
      simp [State.isAt, first, different]
    | popped k =>
      by_cases same : k = i
      · subst same
        have different : info.eplev.fd ≠ j := fun same => other ⟨same.symm, .inr rfl⟩
        simp [State.isAt, after, getElem?_set_eq before, before, different]
      · simp [State.isAt, after, getElem?_set_eq before, same]
    | recorded k =>
      by_cases same : k = i
      · subst same
        simp [State.isAt, after, getElem?_set_eq before, before]
      · simp [State.isAt, after, getElem?_set_eq before, same]

/-- A worker records its popped client. -/
theorem advances_record {i : ℕ} {fd : Int} {recorded recorded' : List Int}
    (stored : s'.workers.eventStorage = s.workers.eventStorage)
    (before : s.workers.holdings[i]? = some (some fd, recorded))
    (grows : ∀ x, x ∈ recorded' ↔ x ∈ recorded ∨ x = fd)
    (after : s'.workers.holdings = s.workers.holdings.set i (none, recorded'))
    (front : SameFront s s') (tasks : SameTasks s s') : s.Advances s' := by
  refine Travels.move fd (.popped i) (.recorded i) (by simp [Place.next]) ?_ ?_ ?_
    fun j r other => ?_
  · simp [State.isAt, before]
  · simp [State.isAt, after, getElem?_set_eq before]
  · simp [State.isAt, after, getElem?_set_eq before, grows]
  · cases r with
    | accepted | ring => simp [State.isAt, front.pending, front.ring]
    | reading k | answered k => simp [State.isAt, tasks k]
    | stored => simp [State.isAt, stored]
    | popped k =>
      by_cases same : k = i
      · subst same
        have different : fd ≠ j := fun same => other ⟨same.symm, .inl rfl⟩
        simp [State.isAt, after, getElem?_set_eq before, before, different]
      · simp [State.isAt, after, getElem?_set_eq before, same]
    | recorded k =>
      by_cases same : k = i
      · subst same
        have different : j ≠ fd := fun same => other ⟨same, .inr rfl⟩
        simp [State.isAt, after, getElem?_set_eq before, before, grows, different]
      · simp [State.isAt, after, getElem?_set_eq before, same]

theorem Sound.advances_workers (h : Sound s) {b : WorkerPool.Act}
    (m : WorkerPool.Move s.workers b s'.workers) (quiet : ∀ j info, b ≠ .taskEmplace j info)
    (front : SameFront s s') (tasks : SameTasks s s') : s.Advances s' := by
  cases m.passing with
  | emplace => exact absurd rfl (quiet _ _)
  | pop first before after => exact h.advances_pop first before after front tasks
  | record stored before grows after => exact advances_record stored before grows after front tasks
  | other stored same => exact .stay front tasks ⟨stored, same⟩

theorem bind_running {pool pool' : ThreadPool.State Closure Unit Job} {i : ℕ} {job : Option Job}
    (runs : pool'.running = Function.update pool.running i job) (f : Job → Option Int) (k : ℕ) :
    (pool'.running k).bind f = if k = i then job.bind f else (pool.running k).bind f := by
  rw [runs]
  by_cases same : k = i
  · subst same
    rw [Function.update_self, if_pos rfl]
  · rw [Function.update_of_ne same, if_neg same]

/-- A thread goes on, and no client moves. -/
theorem SameTasks.of_update {i : ℕ} {job : Option Job}
    (runs : s'.pool.running = Function.update s.pool.running i job)
    (reading : job.bind Job.reading = (s.pool.running i).bind Job.reading)
    (answered : job.bind Job.answered = (s.pool.running i).bind Job.answered) :
    SameTasks s s' := by
  intro k
  rw [bind_running runs, bind_running runs]
  split_ifs with same
  · subst same
    exact ⟨reading, answered⟩
  · exact ⟨rfl, rfl⟩

/-- A thread takes a task off the ring. -/
theorem Sound.advances_take (h : Sound s) {i : ℕ} {task : ThreadPool.Task Closure Unit}
    (ring : ∀ j, s'.inRing j + taskCounts (· == j) task = s.inRing j)
    (idle : s.pool.running i = none)
    (runs : s'.pool.running = Function.update s.pool.running i (some (Job.start task)))
    (pending : s'.acceptor.pending = s.acceptor.pending) (back : SameBack s s') :
    s.Advances s' := by
  have reading (k : ℕ) : (s'.pool.running k).bind Job.reading =
      if k = i then taskFd task else (s.pool.running k).bind Job.reading := bind_running runs _ k
  have answered : (some (Job.start task)).bind Job.answered =
      (s.pool.running i).bind Job.answered := by
    rw [idle]
    rfl
  cases hfd : taskFd task with
  | none =>
    refine .stay ⟨pending, fun j => ?_⟩ (.of_update runs ?_ answered) back
    · simpa [taskCounts, hfd] using ring j
    · rw [idle]
      exact hfd
  | some fd =>
    have once : s.inRing fd ≤ 1 := by
      have := h.places fd
      split_ifs at this <;> omega
    have moved : s'.inRing fd + 1 = s.inRing fd := by simpa [taskCounts, hfd] using ring fd
    refine Travels.move fd .ring (.reading i) rfl ?_ ?_ ?_ fun j r other => ?_
    · exact decide_eq_true (by omega)
    · simp only [State.isAt, decide_eq_true_eq]
      omega
    · simp [State.isAt, reading, hfd]
    · cases r with
      | accepted => simp [State.isAt, pending]
      | ring =>
        have different : (fd == j) = false :=
          beq_eq_false_iff_ne.mpr fun same => other ⟨same.symm, .inl rfl⟩
        have same : s'.inRing j = s.inRing j := by simpa [taskCounts, hfd, different] using ring j
        simp [State.isAt, same]
      | reading k =>
        by_cases same : k = i
        · subst same
          have different : fd ≠ j := fun same => other ⟨same.symm, .inr rfl⟩
          simp [State.isAt, reading, hfd, idle, different]
        · simp [State.isAt, reading, same]
      | answered k =>
        rw [State.isAt, bind_running runs, answered, State.isAt]
        split_ifs with same
        · rw [same]
        · rfl
      | stored | popped | recorded => simp [State.isAt, back.stored, back.holdings]

/-- A thread takes a task, or returns from one that has put its client away. -/
theorem Sound.advances_thread (h : Sound s) (h' : Sound s') {i : ℕ}
    (outside : ∀ job, s.pool.running i = some job → job.stage = .done)
    (m : ThreadPool.Move Job.start s.pool (.thread i) s'.pool)
    (pending : s'.acceptor.pending = s.acceptor.pending) (back : SameBack s s') :
    s.Advances s' := by
  cases m.flow with
  | other history same => exact .stay ⟨pending, inRing_eq h h' history⟩ (.of_running same) back
  | @finish _ job _ history running runs =>
    have done := outside job running
    refine .stay ⟨pending, inRing_eq h h' history⟩ (.of_update runs ?_ ?_) back
    · simp [running, Job.reading, done]
    · simp [running, Job.answered, done]
  | @take _ task _ accepted delivered idle runs =>
    refine h.advances_take (fun j => ?_) idle runs pending back
    have before := h.inRing j
    have after := h'.inRing j
    rw [accepted, delivered, tally_append, tally_cons, tally_nil] at after
    omega

/-- What a task gives to its thread when it goes on. -/
theorem work_eq {pool pool' : ThreadPool.State Closure Unit Job} {i : ℕ} {job' : Job}
    (step : ThreadPool.step Job.start pool (.work i job') = some pool') :
    ThreadPool.SameHistory pool pool' ∧
      pool'.running = Function.update pool.running i (some job') := by
  cases (ThreadPool.Move.of_step step).flow with
  | work history running runs => exact ⟨history, runs⟩
  | other _ _ idle => exact absurd rfl (idle _ _)

/-- The `read` of a task has returned, and the first reply is sent. -/
theorem Sound.advances_taskRead (h : Sound s) (h' : Sound s') {i : ℕ} {c : Closure}
    (at_ : s.pool.running i = some ⟨some c, .read⟩)
    (step : ThreadPool.step Job.start s.pool (.work i ⟨some c, .lock⟩) = some s'.pool)
    (pending : s'.acceptor.pending = s.acceptor.pending) (back : SameBack s s') :
    s.Advances s' := by
  obtain ⟨history, runs⟩ := work_eq step
  refine Travels.move c.info.eplev.fd (.reading i) (.answered i) (by simp [Place.next]) ?_ ?_ ?_
    fun j r other => ?_
  · simp [State.isAt, at_, Job.reading]
  · simp [State.isAt, runs, Job.reading]
  · simp [State.isAt, runs, Job.answered]
  · cases r with
    | accepted | ring => simp [State.isAt, pending, inRing_eq h h' history]
    | reading k =>
      by_cases same : k = i
      · subst same
        have different : c.info.eplev.fd ≠ j := fun same => other ⟨same.symm, .inl rfl⟩
        simp [State.isAt, bind_running runs, at_, Job.reading, different]
      · simp [State.isAt, bind_running runs, same]
    | answered k =>
      by_cases same : k = i
      · subst same
        have different : c.info.eplev.fd ≠ j := fun same => other ⟨same.symm, .inr rfl⟩
        simp [State.isAt, runs, at_, Job.answered, different]
      · simp [State.isAt, bind_running runs, same]
    | stored | popped | recorded => simp [State.isAt, back.stored, back.holdings]

/-- A task puts its client into `event_storage_`. -/
theorem Sound.advances_taskEmplace (h : Sound s) (h' : Sound s') {i : ℕ} {c : Closure}
    (at_ : s.pool.running i = some ⟨some c, .emplace⟩)
    (step : ThreadPool.step Job.start s.pool (.work i ⟨some c, .unlock⟩) = some s'.pool)
    (emplace : WorkerPool.step s.workers (.taskEmplace i c.info) = some s'.workers)
    (pending : s'.acceptor.pending = s.acceptor.pending) : s.Advances s' := by
  obtain ⟨history, runs⟩ := work_eq step
  cases (WorkerPool.Move.of_step emplace).passing with
  | other _ _ quiet => exact absurd rfl (quiet _ _)
  | emplace stored holdings =>
    refine Travels.move c.info.eplev.fd (.answered i) .stored rfl ?_ ?_ ?_ fun j r other => ?_
    · simp [State.isAt, at_, Job.answered]
    · simp [State.isAt, runs, Job.answered]
    · simp [State.isAt, stored]
    · cases r with
      | accepted | ring => simp [State.isAt, pending, inRing_eq h h' history]
      | reading k =>
        by_cases same : k = i
        · subst same
          simp [State.isAt, runs, at_, Job.reading]
        · simp [State.isAt, bind_running runs, same]
      | answered k =>
        by_cases same : k = i
        · subst same
          have different : c.info.eplev.fd ≠ j := fun same => other ⟨same.symm, .inl rfl⟩
          simp [State.isAt, runs, at_, Job.answered, different]
        · simp [State.isAt, bind_running runs, same]
      | stored =>
        have different : c.info.eplev.fd ≠ j := fun same => other ⟨same.symm, .inr rfl⟩
        simp [State.isAt, stored, different]
      | popped | recorded => simp [State.isAt, holdings]

/-- The main thread submits its client. -/
theorem Sound.advances_submit (h : Sound s) (h' : Sound s') {woken : List ℕ}
    {info : WorkerPool.ClientInfo} (at_ : s.acceptor = .submitting info)
    (step : ThreadPool.step Job.start s.pool (.submit none (some ⟨info, true⟩) woken) =
      some s'.pool) (acceptor : s'.acceptor = .counting) (back : SameBack s s') :
    s.Advances s' := by
  obtain ⟨ring, -, pool⟩ := h.submit_eq at_ step
  have entered (j : Int) : s'.inRing j = s.inRing j + ind (info.eplev.fd == j) := by
    have before := h.inRing j
    have after := h'.inRing j
    rw [pool, tally_append, tally_cons, tally_nil] at after
    simp only [taskCounts, taskFd, Option.map_some, Option.any_some] at after before
    omega
  have running : s'.pool.running = s.pool.running := by
    rw [pool]
    exact funext (ThreadPool.running_unpark rfl)
  refine Travels.move info.eplev.fd .accepted .ring rfl ?_ ?_ ?_ fun j r other => ?_
  · simp [State.isAt, at_, Acceptor.pending]
  · simp [State.isAt, acceptor, Acceptor.pending]
  · simp [State.isAt, entered]
  · cases r with
    | accepted =>
      have different : j ≠ info.eplev.fd := fun same => other ⟨same, .inl rfl⟩
      simp [State.isAt, at_, acceptor, Acceptor.pending, different]
    | ring =>
      have different : info.eplev.fd ≠ j := fun same => other ⟨same.symm, .inr rfl⟩
      simp [State.isAt, entered, beq_eq_false_iff_ne.mpr different]
    | reading | answered => simp [State.isAt, running]
    | stored | popped | recorded => simp [State.isAt, back.stored, back.holdings]

/-! ## Which clients are on the way -/

theorem Job.counts_pos {job : Job} :
    0 < job.counts (· == fd) ↔ job.reading = some fd ∨ job.answered = some fd := by
  obtain ⟨closure, stage⟩ := job
  cases closure with
  | none => cases stage <;> simp [counts, reading, answered]
  | some c => cases stage <;> simp [counts, reading, answered, ind_pos]

theorem inTask_pos :
    0 < s.inTask fd ↔ ∃ i, s.isAt fd (.reading i) = true ∨ s.isAt fd (.answered i) = true := by
  have task (t : ThreadPool.Thread Job) : 0 < t.holding (Job.counts (· == fd)) ↔
      t.pc.task.bind Job.reading = some fd ∨ t.pc.task.bind Job.answered = some fd := by
    unfold ThreadPool.Thread.holding
    cases hpc : t.pc <;> simp [ThreadPool.Pc.task, Job.counts_pos]
  rw [State.inTask, ThreadPool.State.held, tally_pos]
  simp only [State.isAt, ThreadPool.running_eq, beq_iff_eq, List.mem_iff_getElem?, task]
  constructor
  · rintro ⟨t, ⟨i, thread⟩, there⟩
    exact ⟨i, by simpa [thread] using there⟩
  · rintro ⟨i, there⟩
    cases thread : s.pool.threads[i]? with
    | none => simp [thread] at there
    | some t => exact ⟨t, ⟨i, thread⟩, by simpa [thread] using there⟩

theorem inStorage_pos : 0 < s.inStorage fd ↔ s.isAt fd .stored = true :=
  tally_ind_pos.trans List.any_eq_true.symm

/-- A property of what a worker holds, by its index. -/
theorem exists_worker {f : WorkerPool.Worker → ℕ} {r : Option Int × List Int → Bool}
    (counts : ∀ w : WorkerPool.Worker, 0 < f w ↔ r w.holdings = true) :
    0 < tally f s.workers.workers ↔
      ∃ j : ℕ, s.workers.holdings[j]?.any r = true := by
  rw [tally_pos]
  simp only [counts, List.mem_iff_getElem?, WorkerPool.State.holdings, List.getElem?_map,
    Option.any_map]
  constructor
  · rintro ⟨w, ⟨j, worker⟩, there⟩
    exact ⟨j, by simpa [worker] using there⟩
  · rintro ⟨j, there⟩
    obtain ⟨w, worker, there⟩ := (Option.any_eq_true _ _).mp there
    exact ⟨w, ⟨j, worker⟩, there⟩

theorem popped_pos : 0 < s.popped fd ↔ ∃ j, s.isAt fd (.popped j) = true := by
  refine exists_worker fun w => ?_
  unfold WorkerPool.Pc.popped
  cases hpc : w.pc <;>
    simp [WorkerPool.Worker.holdings, WorkerPool.Pc.inHand, WorkerPool.ClientInfo.counts, ind_pos,
      hpc]

theorem recorded_pos : 0 < s.recorded fd ↔ ∃ j, s.isAt fd (.recorded j) = true := by
  refine exists_worker fun w => ?_
  rw [WorkerPool.Worker.recorded, tally_ind_pos]
  simp [WorkerPool.Worker.holdings]

/-- The clients on the way, or at its end, are those that were accepted. -/
theorem Sound.exists_isAt (h : Sound s) : (∃ p, s.isAt fd p = true) ↔ fd ∈ s.accepted := by
  have places := h.places fd
  rw [h.counting.pending, List.mem_append]
  constructor
  · rintro ⟨p, at_⟩
    by_cases front : p = .accepted
    · subst front
      exact .inr (List.contains_iff_mem.mp at_)
    · refine .inl ?_
      by_contra absent
      rw [if_neg absent] at places
      cases p with
      | accepted => exact front rfl
      | ring =>
        have := of_decide_eq_true at_
        omega
      | reading i =>
        have := inTask_pos.mpr ⟨i, .inl at_⟩
        omega
      | answered i =>
        have := inTask_pos.mpr ⟨i, .inr at_⟩
        omega
      | stored =>
        have := inStorage_pos.mpr at_
        omega
      | popped j =>
        have := popped_pos.mpr ⟨j, at_⟩
        omega
      | recorded j =>
        have := recorded_pos.mpr ⟨j, at_⟩
        omega
  · rintro (submitted | waiting)
    · rw [if_pos submitted] at places
      by_contra nowhere
      have absent (p : Place) : ¬ s.isAt fd p = true := fun at_ => nowhere ⟨p, at_⟩
      have ring : ¬ 0 < s.inRing fd := by simpa [State.isAt] using absent .ring
      have task := inTask_pos.not.mpr fun ⟨i, there⟩ => there.elim (absent _) (absent _)
      have stored := inStorage_pos.not.mpr (absent _)
      have popped := popped_pos.not.mpr fun ⟨j, there⟩ => absent _ there
      have recorded := recorded_pos.not.mpr fun ⟨j, there⟩ => absent _ there
      omega
    · exact ⟨.accepted, List.contains_iff_mem.mpr waiting⟩

/-- A client is accepted under a descriptor that no client has. -/
theorem Sound.advances_accept (h : Sound s) (h' : Sound s')
    (before : s.acceptor.pending = []) (after : s'.acceptor.pending = [fd])
    (accepted : s'.accepted = s.accepted ++ [fd]) (pool : s'.pool = s.pool)
    (workers : s'.workers = s.workers) : s.Advances s' := by
  have fresh : fd ∉ s.accepted := by
    have nodup := h'.counting.nodup
    rw [accepted] at nodup
    intro old
    exact (List.nodup_append.mp nodup).2.2 fd old fd (by simp) rfl
  have absent (r : Place) : ¬ s.isAt fd r = true := fun at_ => fresh (h.exists_isAt.mp ⟨r, at_⟩)
  refine Travels.enter fd absent (by simp [State.isAt, after]) fun j r other => ?_
  have ring : s'.inRing j = s.inRing j := by rw [State.inRing, State.inRing, pool]
  cases r with
  | accepted => simp [State.isAt, before, after, show j ≠ fd from fun same => other ⟨same, rfl⟩]
  | ring => simp [State.isAt, ring]
  | reading | answered | stored | popped | recorded => simp [State.isAt, pool, workers]

theorem Sound.advances (h : Sound s) (m : Move cpuCore s a s') : s.Advances s' := by
  have h' := h.step m
  cases m
  case startWorkers step | worker step | register step | poll step | read step =>
    exact h.advances_workers (.of_step step) (by simp) (.of_pool rfl rfl) (.of_running rfl)
  case create step =>
    cases ThreadPool.Move.of_step step
    exact .stay ⟨rfl, inRing_eq h h' ⟨rfl, rfl⟩⟩ (.of_running rfl) (.of_workers rfl)
  case creator step | wake step =>
    cases (ThreadPool.Move.of_step step).flow with
    | other history same _ =>
      exact .stay ⟨rfl, inRing_eq h h' history⟩ (.of_running same) (.of_workers rfl)
  case accept at_ _ _ _ _ =>
    exact h.advances_accept h' (by rw [at_]; rfl) rfl rfl rfl rfl
  case submit at_ _ step => exact h.advances_submit h' at_ step rfl (.of_workers rfl)
  case thread outside step =>
    exact h.advances_thread h' outside (.of_step step) rfl (.of_workers rfl)
  case taskRead job _ _ step => exact h.advances_taskRead h' job step rfl (.of_workers rfl)
  case taskLock job lock step =>
    obtain ⟨history, runs⟩ := work_eq step
    cases (WorkerPool.Move.of_step lock).passing with
    | other stored holdings _ =>
      exact .stay ⟨rfl, inRing_eq h h' history⟩
        (.of_update runs (by rw [job]; rfl) (by rw [job]; rfl)) ⟨stored, holdings⟩
  case taskEmplace job emplace step => exact h.advances_taskEmplace h' job step emplace rfl
  case taskUnlock job unlock step =>
    obtain ⟨history, runs⟩ := work_eq step
    cases (WorkerPool.Move.of_step unlock).passing with
    | other stored holdings _ =>
      exact .stay ⟨rfl, inRing_eq h h' history⟩
        (.of_update runs (by rw [job]; rfl) (by rw [job]; rfl)) ⟨stored, holdings⟩
  case connect | peer => exact .stay (.of_pool rfl rfl) (.of_running rfl) (.of_workers rfl)
  all_goals
    exact .stay (.of_pool (by simp [*, Acceptor.pending]) rfl) (.of_running rfl) (.of_workers rfl)

/-! ## Whole runs -/

theorem journey_of_run {f : Int → Option Place} {bs : List Act} (h : Sound s)
    (graph : ∀ fd p, s.isAt fd p = true ↔ f fd = some p)
    (later : run (step cpuCore) s bs = some s') :
    ∃ legs g, run (journey .accepted Place.next) f legs = some g ∧
      ∀ fd p, s'.isAt fd p = true ↔ g fd = some p :=
  refines_journey (I := Sound) (R := fun s fd p => State.isAt s fd p = true)
    (fun _ _ _ hs ha => hs.step (.of_step ha)) (fun _ _ _ hs ha => hs.advances (.of_step ha))
    h graph later

theorem not_isAt_listening : ¬ (State.listening n).isAt fd p = true := by
  intro at_
  have accepted := (Sound.listening n).exists_isAt.mp ⟨p, at_⟩
  simp [State.listening] at accepted

/-- The server refines a journey of its clients: in every reachable state each accepted client is
at exactly one place, no other client is at any, the clients got there leg by leg, and whatever
thread takes the next step, it moves at most one client, by one leg. -/
theorem refines_clientJourney (h : run (step cpuCore) (.listening n) as = some s) :
    (∃ legs position, run (journey .accepted Place.next) (fun _ => none) legs = some position ∧
      (∀ fd p, s.isAt fd p = true ↔ position fd = some p) ∧
      ∀ fd, (position fd).isSome ↔ fd ∈ s.accepted) ∧
      ∀ a s', step cpuCore s a = some s' → s.Advances s' := by
  have sound := sound_of_run h
  refine ⟨?_, fun a s' ha => sound.advances (.of_step ha)⟩
  obtain ⟨legs, position, hrun, graph⟩ := journey_of_run (f := fun _ => none) (Sound.listening n)
    (fun fd p => by simp [not_isAt_listening]) h
  refine ⟨legs, position, hrun, graph, fun fd => ?_⟩
  rw [← sound.exists_isAt, Option.isSome_iff_exists]
  exact exists_congr fun p => (graph fd p).symm

theorem path_of_runs {bs : List Act} (h : run (step cpuCore) (.listening n) as = some s)
    (later : run (step cpuCore) s bs = some s') (at_ : s.isAt fd p = true) :
    ∃ q, Path Place.next p q ∧ ∀ r, s'.isAt fd r = true ↔ r = q := by
  obtain ⟨_, position, _, graph⟩ := journey_of_run (f := fun _ => none) (Sound.listening n)
    (fun fd p => by simp [not_isAt_listening]) h
  obtain ⟨_, position', legs, graph'⟩ := journey_of_run (sound_of_run h) graph later
  obtain ⟨q, hq, path⟩ := path_of_run legs ((graph fd p).mp at_)
  refine ⟨q, path, fun r => ?_⟩
  rw [graph', hq, Option.some.injEq]
  exact eq_comm

/-- After `twoClients` worker 0 has recorded the first client, the second one is not submitted; the
next step submits it. -/
theorem refines_clientJourney_twoClients :
    (∃ legs position, run (journey .accepted Place.next) (fun _ => none) legs = some position ∧
      position 5 = some (.recorded 0) ∧ position 6 = some .accepted ∧
      ∀ fd, (position fd).isSome ↔ fd ∈ [(5 : Int), 6]) ∧
      ∃ s s', run (step 1) (.listening 2) twoClients = some s ∧ step 1 s (.submit []) = some s' ∧
        s.isAt 6 .accepted = true ∧ s'.isAt 6 .ring = true ∧ s.Advances s' := by
  have before : (run (step 1) (.listening 2) twoClients).map
      (fun s => (s.isAt 5 (.recorded 0), s.isAt 6 .accepted, s.accepted)) =
      some (true, true, [5, 6]) := by decide +kernel
  have after : (run (step 1) (.listening 2) (twoClients ++ [.submit []])).map (·.isAt 6 .ring) =
      some true := by decide +kernel
  obtain ⟨s, hs, he⟩ := Option.map_eq_some_iff.mp before
  obtain ⟨s', hs', ring⟩ := Option.map_eq_some_iff.mp after
  obtain ⟨t, ht, submits⟩ := run_concat.mp hs'
  obtain rfl : s = t := by simpa [hs] using ht
  simp only [Prod.mk.injEq] at he
  obtain ⟨first, second, accepted⟩ := he
  obtain ⟨⟨legs, position, hrun, graph, present⟩, advances⟩ := refines_clientJourney hs
  refine ⟨⟨legs, position, hrun, (graph 5 _).mp first, (graph 6 _).mp second, accepted ▸ present⟩,
    s, s', hs, submits, second, ring, advances _ s' submits⟩

theorem unique_of_run (h : run (step cpuCore) (.listening n) as = some s)
    (at_ : s.isAt fd p = true) (at' : s.isAt fd q = true) : p = q := by
  obtain ⟨r, -, here⟩ := path_of_runs h (run_nil s) at_
  exact ((here p).mp at_).trans ((here q).mp at').symm

/-- Over any part of a run a client goes along a path of legs, so it is later at one place, and it
has stayed or has come further. The worker that recorded it keeps it for good. -/
theorem client_goes_on {bs : List Act} (h : run (step cpuCore) (.listening n) as = some s)
    (later : run (step cpuCore) s bs = some s') (at_ : s.isAt fd p = true) :
    (∃ q, Path Place.next p q ∧ (q = p ∨ p.rank < q.rank) ∧ ∀ r, s'.isAt fd r = true ↔ r = q) ∧
      ∀ j, p = .recorded j → ∀ r, s'.isAt fd r = true ↔ r = .recorded j := by
  obtain ⟨q, path, there⟩ := path_of_runs h later at_
  have further := path.eq_or_rank_lt fun _ _ => Place.rank_lt
  refine ⟨⟨q, path, further, there⟩, ?_⟩
  rintro j rfl
  have last : q = .recorded j := further.resolve_right (Nat.not_lt.mpr q.rank_le)
  exact last ▸ there

/-- After two clients: the first one goes from the main thread to worker 0. -/
theorem client_goes_on_twoClients :
    ∃ s s', run (step 1) (.listening 2) (twoClients.take 20) = some s ∧
      run (step 1) s (twoClients.drop 20) = some s' ∧ s.isAt 5 .accepted = true ∧
      (∃ q, Path Place.next .accepted q ∧ (q = .accepted ∨ Place.rank .accepted < q.rank) ∧
        ∀ r, s'.isAt 5 r = true ↔ r = q) ∧ s'.isAt 5 (.recorded 0) = true := by
  have before : (run (step 1) (.listening 2) (twoClients.take 20)).map (·.isAt 5 .accepted) =
      some true := by decide +kernel
  have after : (run (step 1) (.listening 2) twoClients).map (·.isAt 5 (.recorded 0)) =
      some true := by decide +kernel
  obtain ⟨s, hs, at_⟩ := Option.map_eq_some_iff.mp before
  obtain ⟨s', hs', recorded⟩ := Option.map_eq_some_iff.mp after
  rw [← List.take_append_drop 20 twoClients, run_append, hs, Option.bind_some] at hs'
  exact ⟨s, s', hs, hs', at_, (client_goes_on hs hs' at_).1, recorded⟩

end EpollServer.Server
