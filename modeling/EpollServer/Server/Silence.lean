import EpollServer.Server.Connected

/-!
# Silent clients and the pool threads

A task begins with a `read` on its client's socket. `submit` is called with
`nonblocking = true`, but the statements that would make the socket non-blocking are commented
out, so the `read` of a client that has sent nothing does not return. Such clients take a pool
thread each; what keeps the others served is that a thread is left whenever the task of a
silent client is taken off the ring.
-/
namespace EpollServer.Server

open Library
open WorkerPool (ClientInfo)

/-- A client under this descriptor has sent nothing, and a `read` from it does not return. -/
def State.quiet (s : State) (fd : Int) : Bool :=
  s.connections.any fun k => k.fd == some fd && k.blocks && k.silent

/-- The task is in the `read` of a silent client. -/
def State.stuckJob (s : State) (job : Job) : Bool :=
  job.stage = .read && job.closure.any fun c => s.quiet c.info.eplev.fd

def State.stuck (s : State) (t : ThreadPool.Thread Job) : Bool := t.runs s.stuckJob

/-- Whatever set of silent clients is chosen, while the ring holds the task of another client
some pool thread is not in the `read` of one of them. -/
def NotStarved (s : State) : Prop :=
  ∀ silent : Set Int, (∀ fd ∈ silent, s.quiet fd = true) →
    ∀ task ∈ s.pool.pool.workQueue, ∀ c, task.func = some c → c.info.eplev.fd ∉ silent →
      ∃ t ∈ s.pool.threads, ∀ c', t.pc = .running ⟨some c', .read⟩ → c'.info.eplev.fd ∉ silent

/-- The lambda that pool thread `i` takes off the ring in its next step. -/
def State.taking (s : State) (i : ℕ) : Option Closure :=
  match s.pool.threads[i]? with
  | some t =>
    if (t.pc = .ready ∨ t.pc = .woken) ∧ s.pool.pool.workCount ≠ 0 then
      match s.pool.pool.dequeue with
      | .ok (task, _) => task.func
      | .error _ => none
    else none
  | none => none

/-- When a pool thread takes the task of a silent client and others are queued behind it, and
when a client is submitted, some (other) pool thread is not in the `read` of a silent client. -/
def LeavesOneFree (s : State) : Act → Prop
  | .thread i => ∀ c, s.taking i = some c → s.quiet c.info.eplev.fd = true →
      s.pool.pool.workCount ≠ 1 → ∃ (j : ℕ) (u : ThreadPool.Thread Job), j ≠ i ∧
        s.pool.threads[j]? = some u ∧ s.stuck u = false
  | .submit _ => ∃ u ∈ s.pool.threads, s.stuck u = false
  | _ => True

theorem other_free_iff {s : State} {i : ℕ} :
    (∃ j < s.pool.threads.length, j ≠ i ∧ s.pool.threads[j]?.any (!s.stuck ·) = true) ↔
      ∃ (j : ℕ) (u : ThreadPool.Thread Job), j ≠ i ∧ s.pool.threads[j]? = some u ∧
        s.stuck u = false := by
  constructor
  · rintro ⟨j, -, other, any_⟩
    obtain ⟨u, thread, free⟩ := (Option.any_eq_true _ _).mp any_
    exact ⟨j, u, other, thread, by simpa using free⟩
  · rintro ⟨j, u, other, thread, free⟩
    have inside := (List.getElem?_eq_some_iff.mp thread).1
    exact ⟨j, inside, other, by simp [thread, free]⟩

instance (s : State) : DecidablePred (LeavesOneFree s)
  | .thread i =>
    decidable_of_iff (∀ c ∈ s.taking i, s.quiet c.info.eplev.fd = true →
      s.pool.pool.workCount ≠ 1 → ∃ j < s.pool.threads.length, j ≠ i ∧
        s.pool.threads[j]?.any (!s.stuck ·) = true) (by
          simp only [other_free_iff, Option.mem_def]
          rfl)
  | .submit _ => inferInstanceAs (Decidable (∃ u ∈ s.pool.threads, s.stuck u = false))
  | .startup _ | .connect _ | .peer _ _ | .report _ | .event | .accept _ | .count | .wake _
  | .taskRead _ _ | .task _ | .worker _ | .register _ _ | .poll _ _ | .read _ _ => .isTrue trivial

/-- While the ring holds tasks, some pool thread is not in the `read` of a silent client. -/
def OneFree (s : State) : Prop :=
  s.pool.pool.workCount ≠ 0 → ∃ t ∈ s.pool.threads, s.stuck t = false

namespace Connection

theorem blocks_and_silent (c : Connection) :
    (c.blocks && c.silent) = (c.received = 0 && !c.closed && !c.reset && !c.nonblock) := by
  unfold blocks silent unread
  by_cases h : c.received = 0
  · cases c.closed <;> cases c.reset <;> cases c.nonblock <;> simp [h]
  · simp [h]

/-- Nothing the peer does makes it silent. -/
theorem silent_peer {c c' : Connection} {p : PeerAct} (h : c.peer p = some c')
    (quiet : (c'.blocks && c'.silent) = true) : (c.blocks && c.silent) = true := by
  rw [blocks_and_silent] at quiet ⊢
  unfold peer at h
  split at h <;> split_ifs at h with can <;> obtain rfl := Option.some.inj h
  · simp at quiet
    omega
  · simp at quiet
  · simp at quiet

end Connection

variable {cpuCore : Int} {s s' : State} {a : Act} {n : ℕ} {as : List Act}

theorem quiet_iff {fd : Int} :
    s.quiet fd = true ↔ ∃ k ∈ s.connections, k.fd = some fd ∧ (k.blocks && k.silent) = true := by
  simp [State.quiet, and_assoc]

/-- Only `accept` makes a descriptor a silent client's. -/
theorem Move.quiet (m : Move cpuCore s a s') {fd : Int} (opened : s.isOpen fd = true)
    (quiet : s'.quiet fd = true) : s.quiet fd = true := by
  rw [quiet_iff] at quiet ⊢
  obtain ⟨k, hk, hfd, hq⟩ := quiet
  have set {i : ℕ} {c c' : Connection} (connections : s'.connections = s.connections.set i c')
      (connection : s.connections[i]? = some c)
      (change : c'.fd = some fd → (c'.blocks && c'.silent) = true →
        c.fd = some fd ∧ (c.blocks && c.silent) = true) :
      ∃ k ∈ s.connections, k.fd = some fd ∧ (k.blocks && k.silent) = true := by
    rw [connections] at hk
    rcases List.mem_or_eq_of_mem_set hk with old | rfl
    · exact ⟨k, old, hfd, hq⟩
    · exact ⟨c, List.mem_of_getElem? connection, change hfd hq⟩
  have consumed {s : State} {fd' n : Int} (hk : k ∈ (s.consume fd' n).connections) :
      ∃ k ∈ s.connections, k.fd = some fd ∧ (k.blocks && k.silent) = true := by
    obtain ⟨c, hc, rfl⟩ := List.mem_map.mp hk
    rw [Connection.blocks_and_silent] at hq
    refine ⟨c, hc, ?_, ?_⟩
    · split_ifs at hfd <;> exact hfd
    · rw [Connection.blocks_and_silent]
      split_ifs at hq <;> exact hq
  cases m
  case connect port =>
    rcases List.mem_append.mp hk with old | new
    · exact ⟨k, old, hfd, hq⟩
    · rw [List.mem_singleton.mp new] at hfd
      cases hfd
  case peer connection change =>
    exact set rfl connection fun hfd hq =>
      ⟨(Connection.fd_peer change) ▸ hfd, Connection.silent_peer change hq⟩
  case accept fd' j rest c _ _ connection _ new =>
    refine set rfl connection fun same _ => ?_
    obtain rfl : fd' = fd := by simpa using same
    simp [opened] at new
  case acceptZero j rest c _ _ connection new =>
    refine set rfl connection fun same _ => ?_
    obtain rfl : 0 = fd := by simpa using same
    simp [opened] at new
  case taskRead | read => exact consumed hk
  all_goals exact ⟨k, hk, hfd, hq⟩

/-! ## One step -/

theorem stuckJob_iff {job : Job} :
    s.stuckJob job = true ↔
      ∃ c, job = ⟨some c, .read⟩ ∧ s.quiet c.info.eplev.fd = true := by
  obtain ⟨closure, stage⟩ := job
  cases closure <;> simp [State.stuckJob]

theorem stuck_iff {t : ThreadPool.Thread Job} :
    s.stuck t = true ↔
      ∃ c, t.pc = .running ⟨some c, .read⟩ ∧ s.quiet c.info.eplev.fd = true := by
  unfold State.stuck ThreadPool.Thread.runs
  cases hpc : t.pc <;> simp [stuckJob_iff]

/-- A job in its `read` is about a client that was submitted. -/
theorem Sound.opened (h : Sound s) {t : ThreadPool.Thread Job} {c : Closure}
    (ht : t ∈ s.pool.threads) (pc : t.pc = .running ⟨some c, .read⟩) :
    s.isOpen c.info.eplev.fd = true := by
  obtain ⟨i, hi⟩ := List.mem_iff_getElem?.mp ht
  have submitted := h.mem_submitted (ThreadPool.State.running_of hi pc) rfl (by simp)
  exact h.counting.opened _ (h.counting.pending ▸ List.mem_append_left _ submitted)

theorem taking_eq {i : ℕ} {t : ThreadPool.Thread Job} {task : ThreadPool.Task Closure Unit}
    {pool : ThreadPool.Pool Closure Unit} (thread : s.pool.threads[i]? = some t)
    (pc : t.pc = .ready ∨ t.pc = .woken) (work : s.pool.pool.workCount ≠ 0)
    (dequeued : s.pool.pool.dequeue = .ok (task, pool)) : s.taking i = task.func := by
  simp only [State.taking, thread, dequeued]
  exact if_pos ⟨pc, work⟩

/-- If all pool threads are in the `read` of silent clients after a step, they were so before
it, or the last of them has just taken the task of such a client. -/
theorem Sound.all_stuck (h : Sound s) (m : Move cpuCore s a s')
    (all : ∀ t ∈ s'.pool.threads, s'.stuck t = true) :
    (∀ t ∈ s.pool.threads, s.stuck t = true) ∨
    ∃ i c, a = .thread i ∧ s.taking i = some c ∧ s.quiet c.info.eplev.fd = true ∧
      s'.pool.pool.workCount = s.pool.pool.workCount - 1 ∧
      ∀ j u, j ≠ i → s.pool.threads[j]? = some u → s.stuck u = true := by
  have back {t : ThreadPool.Thread Job} (ht : t ∈ s.pool.threads)
      (runs : t.runs s'.stuckJob = true) : s.stuck t = true := by
    obtain ⟨c, pc, quiet⟩ := stuck_iff.mp (show s'.stuck t = true from runs)
    exact stuck_iff.mpr ⟨c, pc, m.quiet (h.opened ht pc) quiet⟩
  have pooled {b : ThreadPool.Act Closure Unit Job}
      (step : ThreadPool.step Job.start s.pool b = some s'.pool)
      (other : (∀ i, b ≠ .thread i) ∧ ∀ i job, b = .work i job → job.stage ≠ .read) :
      ∀ t ∈ s.pool.threads, s.stuck t = true := by
    rcases (ThreadPool.Move.of_step step).all_running all with
      before | ⟨i, _, _, _, rfl, _⟩ | ⟨i, job, rfl, stuck⟩
    · exact fun t ht => back ht (before t ht)
    · exact absurd rfl (other.1 i)
    · obtain ⟨c, rfl, -⟩ := stuckJob_iff.mp stuck
      exact absurd rfl (other.2 i _ rfl)
  cases m
  case create step | creator step | submit step | wake step | taskRead step | taskLock step |
      taskEmplace step | taskUnlock step =>
    exact .inl (pooled step (by simp))
  case thread i pool outside step =>
    rcases (ThreadPool.Move.of_step step).all_running all with
      before | ⟨j, t, task, ring, same, thread, pc, work, dequeued, rfl, stuck, others⟩ |
      ⟨j, job, he, -⟩
    · exact .inl fun t ht => back ht (before t ht)
    · obtain rfl : i = j := by simpa using same
      obtain ⟨c, start, quiet⟩ := stuckJob_iff.mp stuck
      have func : task.func = some c := congrArg Job.closure start
      obtain ⟨_, _, ring⟩ := ThreadPool.Pool.dequeue_eq dequeued
      exact .inr ⟨i, c, rfl, (taking_eq thread pc work dequeued).trans func, quiet,
        by simp only [ring], others⟩
    · cases he
  all_goals exact .inl fun t ht => back ht (all t ht)

/-- Conversely, taking the task of a silent client adds a thread to those in its `read`. -/
theorem Sound.free_of_taking (h : Sound s) {i : ℕ} {pool : ThreadPool.State Closure Unit Job}
    (step : ThreadPool.step Job.start s.pool (.thread i) = some pool) {c : Closure}
    (taking : s.taking i = some c) (quiet : s.quiet c.info.eplev.fd = true) :
    pool.pool.workCount = s.pool.pool.workCount - 1 ∧
      ((∃ t ∈ pool.threads, s.stuck t = false) →
        ∃ (j : ℕ) (u : ThreadPool.Thread Job), j ≠ i ∧ s.pool.threads[j]? = some u ∧
          s.stuck u = false) := by
  simp only [State.taking] at taking
  split at taking
  · rename_i t thread
    obtain ⟨⟨pc, work⟩, taking⟩ := Option.ite_none_right_eq_some.mp taking
    split at taking
    · rename_i task ring dequeued
      have at_ {u : ThreadPool.Thread Job} (hu : s.pool.threads[i]? = some u) :
          u.pc = .ready ∨ u.pc = .woken := Option.some.inj (thread.symm.trans hu) ▸ pc
      cases ThreadPool.Move.of_step step with
      | useAfterFree _ _ released _ => simp [h.settled.alive] at released
      | leave _ _ _ _ closed => simp [h.settled.open_] at closed
      | park _ _ _ _ _ empty => exact absurd empty work
      | dequeueFault _ _ _ _ _ _ fault => simp [dequeued] at fault
      | start _ hu created _ => simpa [created] using at_ hu
      | count _ hu started _ => simpa [started] using at_ hu
      | pin _ hu counted _ => simpa [counted] using at_ hu
      | finish _ hu running => simpa [running] using at_ hu
      | exit _ hu leaving => simpa [leaving] using at_ hu
      | @take _ t' task' ring' _ _ _ _ _ dequeued' =>
        obtain ⟨rfl, rfl⟩ : task = task' ∧ ring = ring' := by simpa [dequeued] using dequeued'
        obtain ⟨_, _, ring⟩ := ThreadPool.Pool.dequeue_eq dequeued
        refine ⟨by simp only [ring], ?_⟩
        rintro ⟨u, hu, free⟩
        obtain ⟨j, hj⟩ := List.mem_iff_getElem?.mp hu
        have other : j ≠ i := by
          rintro rfl
          have inside := (List.getElem?_eq_some_iff.mp thread).1
          obtain rfl : _ = u := by simpa [inside, ThreadPool.State.setThread] using hj
          have stuck : s.stuck ⟨.running (Job.start task), t'.cpus⟩ = true :=
            stuck_iff.mpr ⟨c, by simp [Job.start, taking], quiet⟩
          simp [stuck] at free
        refine ⟨j, u, other, ?_, free⟩
        rw [← hj]
        exact (List.getElem?_set_ne (Ne.symm other)).symm
    · cases taking
  · cases taking

/-- A client is submitted: its task is queued, and the threads run what they ran. -/
theorem Sound.free_of_submit (h : Sound s) {woken : List ℕ}
    (m : Move cpuCore s (.submit woken) s') :
    s'.pool.pool.workCount ≠ 0 ∧
      ((∃ t ∈ s'.pool.threads, s'.stuck t = false) → ∃ t ∈ s.pool.threads, s.stuck t = false) := by
  cases m with
  | restart _ at_ stopped =>
    have := h.settled.started (h.settled.listening (by simp [at_]))
    simp [this] at stopped
  | submit _ at_ _ step =>
    obtain ⟨⟨_, _, _, _, hp, -⟩, -⟩ := h.admits at_
    have nonneg := hp.workCount_nonneg
    obtain ⟨ring, enqueued, rfl⟩ := h.submit_eq at_ step
    obtain ⟨_, _, rfl⟩ := ThreadPool.Pool.enqueue_eq enqueued
    refine ⟨show s.pool.pool.workCount + 1 ≠ 0 by omega, ?_⟩
    rintro ⟨t, ht, free⟩
    have mem : t.runs s.stuckJob ∈ (ThreadPool.unpark _ s.pool.threads).map
      (ThreadPool.Thread.runs s.stuckJob) := List.mem_map_of_mem ht
    rw [ThreadPool.runs_unpark] at mem
    obtain ⟨u, hu, same⟩ := List.mem_map.mp mem
    exact ⟨u, hu, same.trans free⟩

/-! ## Whole runs -/

theorem Move.workCount_eq_zero (m : Move cpuCore s a s') (empty : s.pool.pool.workCount = 0)
    (other : ∀ woken, a ≠ .submit woken) : s'.pool.pool.workCount = 0 := by
  have pooled {b : ThreadPool.Act Closure Unit Job} {pool : ThreadPool.State Closure Unit Job}
      (step : ThreadPool.step Job.start s.pool b = some pool)
      (other : ∀ args func woken, b ≠ .submit args func woken) : pool.pool.workCount = 0 :=
    (ThreadPool.Move.of_step step).workCount_eq_zero empty other
  cases m
  case submit => exact absurd rfl (other _)
  case create step | creator step | thread step | wake step | taskRead step | taskLock step |
      taskEmplace step | taskUnlock step =>
    exact pooled step (by simp)
  all_goals exact empty

theorem Sound.oneFree (h : Sound s) (m : Move cpuCore s a s') (before : OneFree s)
    (leaves : LeavesOneFree s a) : OneFree s' := by
  intro work
  by_contra none_
  have all : ∀ t ∈ s'.pool.threads, s'.stuck t = true := by simpa using none_
  rcases h.all_stuck m all with stuck | ⟨i, c, rfl, taking, quiet, count, others⟩
  · -- No thread was free before, so the ring was empty and the step is a submission.
    have occupied : ¬ ∃ t ∈ s.pool.threads, s.stuck t = false := by
      rintro ⟨t, ht, free⟩
      simp [stuck t ht] at free
    have empty : s.pool.pool.workCount = 0 := by
      by_contra some_
      exact occupied (before some_)
    refine work (m.workCount_eq_zero empty ?_)
    rintro woken rfl
    exact occupied leaves
  · obtain ⟨j, u, other, hu, free⟩ := leaves c taking quiet (by omega)
    simp [others j u other hu] at free

theorem Sound.leavesOneFree (h : Sound s) (m : Move cpuCore s a s') (after : OneFree s') :
    LeavesOneFree s a := by
  cases a with
  | thread i =>
    cases m with
    | thread _ _ step =>
      intro c taking quiet more
      obtain ⟨count, free⟩ := h.free_of_taking step taking quiet
      exact free (after (by simp only; omega))
  | submit woken =>
    obtain ⟨work, free⟩ := h.free_of_submit m
    exact free (after work)
  | _ => trivial

/-! ## The clients that wait -/

/-- If tasks are queued, the first of them is the task of a client. -/
theorem Sound.exists_waiting (h : Sound s) (work : s.pool.pool.workCount ≠ 0) :
    ∃ task ∈ s.pool.pool.workQueue, ∃ c, task.func = some c := by
  obtain unborn | ⟨-, capacity, ops, q, -, hp, -, ha, -⟩ := h.queue
  · exact absurd unborn.workCount work
  have count := hp.workCount_eq
  obtain ⟨task, rest, items⟩ : ∃ task rest, q.items = task :: rest := by
    cases hi : q.items with
    | nil => simp [hi] at count; omega
    | cons task rest => exact ⟨task, rest, rfl⟩
  refine ⟨task, ?_, ?_⟩
  · have front := hp.ring
    rw [items] at front
    exact List.mem_of_getElem? front.front
  · have mem : taskFd task ∈ s.pool.accepted.map taskFd := by
      refine List.mem_map_of_mem ?_
      simp [ha, q.history, items]
    rw [h.located.accepted] at mem
    obtain ⟨fd, -, he⟩ := List.mem_map.mp mem
    obtain ⟨c, func, -⟩ := Option.map_eq_some_iff.mp he.symm
    exact ⟨c, func⟩

/-- The client of a task that waits in the ring is not in the hands of a thread. -/
theorem Sound.waits_elsewhere (h : Sound s) {task : ThreadPool.Task Closure Unit}
    {c c' : Closure} {t : ThreadPool.Thread Job} (slot : task ∈ s.pool.pool.workQueue)
    (func : task.func = some c) (ht : t ∈ s.pool.threads)
    (pc : t.pc = .running ⟨some c', .read⟩) : c'.info.eplev.fd ≠ c.info.eplev.fd := by
  intro same
  obtain ⟨i, hi⟩ := List.mem_iff_getElem?.mp ht
  have held := le_held (Job.counts (· == c.info.eplev.fd)) (ThreadPool.State.running_of hi pc)
  have waits : taskCounts (· == c.info.eplev.fd) task ≤ s.inRing c.info.eplev.fd :=
    le_tally slot
  have mine : Job.counts (· == c.info.eplev.fd) ⟨some c', .read⟩ = 1 := by
    simp [Job.counts, same]
  have one : taskCounts (· == c.info.eplev.fd) task = 1 := by
    simp [taskCounts, taskFd, func]
  have places := h.places c.info.eplev.fd
  unfold State.inTask at places
  split_ifs at places <;> omega

theorem Sound.work_of_waiting (h : Sound s) {task : ThreadPool.Task Closure Unit} {c : Closure}
    (slot : task ∈ s.pool.pool.workQueue) (func : task.func = some c) :
    s.pool.pool.workCount ≠ 0 := by
  obtain unborn | ⟨-, _, _, q, -, hp, -⟩ := h.queue
  · simp [unborn.workQueue] at slot
  · have holds : tally (fun t => ind t.func.isSome) s.pool.pool.workQueue =
      tally (fun t => ind t.func.isSome) q.items := hp.ring.tally_slots rfl
    have counted : ind task.func.isSome ≤ _ := le_tally (f := fun t => ind t.func.isSome) slot
    have bound := tally_ind_le_length (fun t : ThreadPool.Task Closure Unit => t.func.isSome)
      q.items
    have count := hp.workCount_eq
    simp only [func, Option.isSome_some, ind_true] at counted
    omega

theorem Sound.notStarved_iff (h : Sound s) : NotStarved s ↔ OneFree s := by
  constructor
  · intro served work
    obtain ⟨task, slot, c, func⟩ := h.exists_waiting work
    -- The clients of the stuck threads: the waiting one is none of them.
    let silent : Set Int := { fd | s.quiet fd = true ∧ ∃ t ∈ s.pool.threads, ∃ c' : Closure,
      t.pc = .running ⟨some c', .read⟩ ∧ c'.info.eplev.fd = fd }
    have other : c.info.eplev.fd ∉ silent := by
      rintro ⟨-, t, ht, c', pc, same⟩
      exact h.waits_elsewhere slot func ht pc same
    obtain ⟨t, ht, free⟩ := served silent (fun _ hfd => hfd.1) task slot c func other
    refine ⟨t, ht, Bool.eq_false_iff.mpr fun stuck => ?_⟩
    obtain ⟨c', pc, quiet⟩ := stuck_iff.mp stuck
    exact free c' pc ⟨quiet, t, ht, c', pc, rfl⟩
  · intro free silent quiet task slot c func _
    obtain ⟨t, ht, unstuck⟩ := free (h.work_of_waiting slot func)
    refine ⟨t, ht, fun c' pc mem => ?_⟩
    simp [stuck_iff.mpr ⟨c', pc, quiet _ mem⟩] at unstuck

/-- Along a run, no silent clients ever occupy all pool threads while the ring holds the task
of another client if and only if each time the task of a silent client is taken with others
queued behind it, and each time a client is submitted, some (other) pool thread is not in the
`read` of a silent client. -/
theorem notStarved_iff_leavesOneFree (h : run (step cpuCore) (.listening n) as = some s) :
    EveryState (step cpuCore) NotStarved (.listening n) as ↔
      EveryStep (step cpuCore) LeavesOneFree (.listening n) as := by
  refine everyState_iff_everyStep (I := Sound) (.listening n)
    (fun _ _ _ sound hs => sound.step (Move.of_step hs)) ?_ ?_ ?_ h
  · exact (Sound.listening n).notStarved_iff.mpr fun work => absurd rfl work
  · intro s a s' sound before leaves hs
    have m := Move.of_step hs
    have oneFree := sound.oneFree m (sound.notStarved_iff.mp before) leaves
    exact (sound.step m).notStarved_iff.mpr oneFree
  · intro s a s' sound hs after
    have m := Move.of_step hs
    exact sound.leavesOneFree m ((sound.step m).notStarved_iff.mp after)

/-- The only pool thread waits for a client that sends nothing when the request of a second
client is queued. -/
def silentFirst : List Act :=
  boot ++ [.thread 0, .thread 0, .thread 0, .connect 1, .report epollIn, .event,
    .accept (.descriptor 5), .submit [], .count, .thread 0, .connect 2, .peer 1 (.send 10),
    .report epollIn, .event, .accept (.descriptor 6), .submit []]

theorem silentFirst_starves :
    ∃ s, run (step 1) (.listening 2) silentFirst = some s ∧ s.pool.threads.length = 1 ∧
      s.submitted = [5, 6] ∧ s.pool.pool.workCount = 1 ∧ ¬ NotStarved s := by
  have end_ : (run (step 1) (.listening 2) silentFirst).map
      (fun s => (s.pool.threads.length, s.submitted, s.pool.pool.workCount,
        s.pool.threads.all s.stuck)) = some (1, [5, 6], 1, true) := by decide +kernel
  obtain ⟨s, hs, he⟩ := Option.map_eq_some_iff.mp end_
  simp only [Prod.mk.injEq] at he
  obtain ⟨threads, submitted, work, stuck⟩ := he
  refine ⟨s, hs, threads, submitted, work, fun served => ?_⟩
  obtain ⟨t, ht, free⟩ := (sound_of_run hs).notStarved_iff.mp served (by simp [work])
  simp [List.all_eq_true.mp stuck t ht] at free

/-- Two pool threads; one takes the task of a client that sends nothing while that of a second
client is queued. -/
def silentBesideReady : List Act :=
  List.replicate 15 (.startup true) ++ [.thread 0, .thread 0, .thread 0, .thread 1, .thread 1,
    .thread 1, .connect 1, .report epollIn, .event, .accept (.descriptor 5), .submit [], .count,
    .connect 2, .peer 1 (.send 10), .report epollIn, .event, .accept (.descriptor 6), .submit [],
    .count, .thread 0]

theorem notStarved_iff_leavesOneFree_silentBesideReady :
    ∃ s, run (step 2) (.listening 2) silentBesideReady = some s ∧
      s.pool.running 0 = some ⟨some ⟨clientInfo 5 1, true⟩, .read⟩ ∧ s.quiet 5 = true ∧
      s.pool.threads.map s.stuck = [true, false] ∧ s.quiet 6 = false ∧ s.inRing 6 = 1 ∧
      EveryState (step 2) NotStarved (.listening 2) silentBesideReady := by
  have end_ : (run (step 2) (.listening 2) silentBesideReady).map
      (fun s => (s.pool.running 0, s.quiet 5, s.pool.threads.map s.stuck, s.quiet 6, s.inRing 6)) =
      some (some ⟨some ⟨clientInfo 5 1, true⟩, .read⟩, true, [true, false], false, 1) := by
    decide +kernel
  have leaves : EveryStep (step 2) LeavesOneFree (.listening 2) silentBesideReady := by
    decide +kernel
  obtain ⟨s, hs, he⟩ := Option.map_eq_some_iff.mp end_
  simp only [Prod.mk.injEq] at he
  obtain ⟨reads, silent, stuck, other, waits⟩ := he
  exact ⟨s, hs, reads, silent, stuck, other, waits, (notStarved_iff_leavesOneFree hs).mpr leaves⟩

end EpollServer.Server
