import EpollServer.WorkerPool.Machine
import EpollServer.Library.Tally

/-!
# The clients inside the worker pool

`event_storage_` is tested once outside of `locker_` and once inside, and it is popped only
after the second test. `Guarded` says that a worker inside the critical section holds
`locker_`, so that what it tested still holds when it pops.

`located p` counts the clients whose descriptor satisfies `p`, in `event_storage_`, in the
hands of the worker that popped them, and in the `client_infos` of all workers. As long as no
descriptor is counted twice, only `emplace` changes the count.
-/
namespace EpollServer.WorkerPool

open Library

/-- Inside the critical section of `worker_routine`. -/
def Pc.locked : Pc → Bool
  | .retest | .pop | .record _ | .register _ | .unlock => true
  | .unstarted | .top | .lock | .decrement | .test | .loadAvail | .loadDivisor | .poll _
  | .handle _ | .reading _ _ | .hangup _ _ | .increment => false

/-- Workers in the critical section hold `locker_`, and one about to pop finds a client. -/
structure Guarded (s : State) : Prop where
  holder : ∀ (i : ℕ) (w : Worker), s.workers[i]? = some w → w.pc.locked = true →
    s.locker = some (.worker i)
  nonempty : ∀ (i : ℕ) (w : Worker), s.workers[i]? = some w → w.pc = .pop →
    s.eventStorage ≠ []
  fault : s.fault ≠ some .emptyQueue

variable {s s' : State} {a : Act}

theorem Guarded.constructed (n : ℕ) : Guarded (.constructed n) where
  holder i w worker locked := by
    obtain ⟨-, rfl⟩ : i < n ∧ Worker.constructed = w := by
      simpa [State.constructed, List.getElem?_replicate] using worker
    cases locked
  nonempty i w worker pop := by
    obtain ⟨-, rfl⟩ : i < n ∧ Worker.constructed = w := by
      simpa [State.constructed, List.getElem?_replicate] using worker
    cases pop
  fault := by simp [State.constructed]

/-- A step of worker `i` that keeps the other workers out of their critical sections, or does
not touch what they rely on. -/
theorem Guarded.update {i : ℕ} {w u : Worker} (h : Guarded s) (worker : s.workers[i]? = some w)
    (workers : s'.workers = s.workers.set i u)
    (own : u.pc.locked = true → s'.locker = some (.worker i))
    (pop : u.pc = .pop → s'.eventStorage ≠ [])
    (others : s'.locker = s.locker ∧ s'.eventStorage = s.eventStorage ∨
      s.locker = some (.worker i) ∨ s.locker = none)
    (fault : s'.fault ≠ some .emptyQueue) : Guarded s' := by
  have inside : i < s.workers.length := (List.getElem?_eq_some_iff.mp worker).1
  refine ⟨fun j v hv locked => ?_, fun j v hv at_ => ?_, fault⟩ <;>
    rw [workers] at hv <;> by_cases same : i = j
  · subst same
    obtain rfl : u = v := by simpa [inside] using hv
    exact own locked
  · rw [List.getElem?_set_ne same] at hv
    have held := h.holder j v hv locked
    rcases others with ⟨keep, -⟩ | mine | free
    · exact keep.trans held
    · simp [mine, same] at held
    · simp [free] at held
  · subst same
    obtain rfl : u = v := by simpa [inside] using hv
    exact pop at_
  · rw [List.getElem?_set_ne same] at hv
    have held := h.holder j v hv (by rw [at_]; rfl)
    rcases others with ⟨-, keep⟩ | mine | free
    · rw [keep]
      exact h.nonempty j v hv at_
    · simp [mine, same] at held
    · simp [free] at held

theorem Guarded.step (h : Guarded s) (m : Move s a s') : Guarded s' := by
  have quiet : s.fault ≠ some .emptyQueue := h.fault
  cases m
  case startWorker i w _ worker =>
    refine h.update worker rfl (fun locked => ?_) (fun pop => ?_) (.inl ⟨rfl, rfl⟩) quiet
    · rcases w.pc_start _ with same | ⟨-, top⟩
      · exact h.holder i w worker (same ▸ locked)
      · simp [top, Pc.locked] at locked
    · rcases w.pc_start _ with same | ⟨-, top⟩
      · exact h.nonempty i w worker (same ▸ pop)
      · simp [top] at pop
  case lock i w worker pc free =>
    exact h.update worker rfl (fun _ => rfl) (fun pop => by cases pop) (.inr (.inr free)) quiet
  case seeAgain i w worker pc nonempty =>
    have mine := h.holder i w worker (by rw [pc]; rfl)
    exact h.update worker rfl (fun _ => mine) (fun _ => nonempty) (.inl ⟨rfl, rfl⟩) quiet
  case popEmpty i w worker pc empty => exact absurd empty (h.nonempty i w worker pc)
  case divideByZero => exact ⟨h.holder, h.nonempty, by simp [State.raise]⟩
  case pop i w info rest worker pc front =>
    have mine := h.holder i w worker (by rw [pc]; rfl)
    exact h.update worker rfl (fun _ => mine) (fun pop => by cases pop) (.inr (.inl mine)) quiet
  case miss i w worker pc _ | record i w info worker pc | register i _ w info worker pc =>
    have mine := h.holder i w worker (by rw [pc]; rfl)
    exact h.update worker rfl (fun _ => mine) (fun pop => by cases pop) (.inl ⟨rfl, rfl⟩) quiet
  case unlock i w worker pc =>
    have mine := h.holder i w worker (by rw [pc]; rfl)
    exact h.update worker rfl (fun locked => by cases locked) (fun pop => by cases pop)
      (.inr (.inl mine)) quiet
  case taskLock j free =>
    refine ⟨fun i w worker locked => ?_, h.nonempty, quiet⟩
    have := h.holder i w worker locked
    simp [free] at this
  case taskEmplace j info held =>
    exact ⟨h.holder, fun _ _ _ _ => by simp, quiet⟩
  case taskUnlock j held =>
    refine ⟨fun i w worker locked => ?_, h.nonempty, quiet⟩
    have := h.holder i w worker locked
    simp [held] at this
  case enter | startedAll | store | create | setStarted => exact ⟨h.holder, h.nonempty, quiet⟩
  all_goals
    exact h.update ‹_› rfl (fun locked => by cases locked) (fun pop => by cases pop)
      (.inl ⟨rfl, rfl⟩) quiet

theorem guarded_of_run {n : ℕ} {as : List Act} (h : run step (.constructed n) as = some s) :
    Guarded s :=
  run_invariant (Guarded.constructed n) (fun _ _ _ hs ha => hs.step (Move.of_step ha)) h

/-! ## Where the clients are -/

/-- The descriptor of a client satisfies `p`. -/
def ClientInfo.counts (p : Int → Bool) (info : ClientInfo) : ℕ := ind (p info.eplev.fd)

/-- The client that a worker has popped and not yet recorded. -/
def Pc.popped (p : Int → Bool) : Pc → ℕ
  | .record info => info.counts p
  | .unstarted | .top | .lock | .retest | .pop | .register _ | .unlock | .decrement | .test
  | .loadAvail | .loadDivisor | .poll _ | .handle _ | .reading _ _ | .hangup _ _ | .increment => 0

def Worker.recorded (p : Int → Bool) (w : Worker) : ℕ := tally (fun c => ind (p c.1)) w.clientInfos

/-- What worker `w` has of the clients that satisfy `p`. -/
def Worker.located (p : Int → Bool) (w : Worker) : ℕ := w.pc.popped p + w.recorded p

def State.stored (p : Int → Bool) (s : State) : ℕ := tally (ClientInfo.counts p) s.eventStorage

def State.located (p : Int → Bool) (s : State) : ℕ :=
  s.stored p + tally (Worker.located p) s.workers

/-- What an action brings into the pool. -/
def Act.emplaced (p : Int → Bool) : Act → ℕ
  | .taskEmplace _ info => info.counts p
  | _ => 0

variable {p : Int → Bool}

/-- A worker that goes on with the same popped client and the same recorded ones. -/
theorem tally_located_set {i : ℕ} {w u : Worker} (worker : s.workers[i]? = some w)
    (popped : w.pc.popped p = u.pc.popped p) (recorded : w.clientInfos = u.clientInfos) :
    tally (Worker.located p) (s.workers.set i u) = tally (Worker.located p) s.workers := by
  have moved : tally (Worker.located p) (s.workers.set i u) + w.located p =
    tally (Worker.located p) s.workers + u.located p := tally_set worker
  have same : w.located p = u.located p := by
    rw [Worker.located, Worker.located, Worker.recorded, Worker.recorded, popped, recorded]
  omega

/-- A client that a worker has popped is not among its recorded ones, if no descriptor is
located twice. -/
theorem not_recorded {i : ℕ} {w : Worker} {info : ClientInfo}
    (once : ∀ fd, s.located (· == fd) ≤ 1) (worker : s.workers[i]? = some w)
    (pc : w.pc = .record info) : w.clientInfos.any (·.1 == info.eplev.fd) = false := by
  have le : w.located (· == info.eplev.fd) ≤
      tally (Worker.located (· == info.eplev.fd)) s.workers :=
    le_tally (List.mem_of_getElem? worker)
  have := once info.eplev.fd
  have popped : w.pc.popped (· == info.eplev.fd) = 1 := by
    rw [pc]
    simp [Pc.popped, ClientInfo.counts]
  have none_ : w.recorded (· == info.eplev.fd) = 0 := by
    unfold State.located at this
    rw [Worker.located, popped] at le
    omega
  rw [Worker.recorded, tally_eq_zero] at none_
  rw [List.any_eq_false]
  intro c hc
  simpa [ind] using none_ c hc

/-- Only `emplace` changes how many clients satisfy `p`, if no descriptor is located twice. -/
theorem Move.located (m : Move s a s') (once : ∀ fd, s.located (· == fd) ≤ 1) :
    s'.located p = s.located p + a.emplaced p := by
  cases m
  case startWorker i w _ worker =>
    have popped (ok : Bool) : w.pc.popped p = (w.start ok).pc.popped p := by
      rcases w.pc_start ok with keep | ⟨unstarted, top⟩
      · rw [keep]
      · rw [unstarted, top]
        rfl
    simp only [State.located, State.stored, State.setWorker, Act.emplaced]
    rw [tally_located_set worker (popped _) (w.clientInfos_start _).symm]
    rfl
  case pop i w info rest worker pc front =>
    have moved : tally (Worker.located p) (s.workers.set i { w with pc := .record info }) +
        w.located p = tally (Worker.located p) s.workers + (info.counts p + w.recorded p) :=
      tally_set worker
    have before : w.located p = w.recorded p := by
      rw [Worker.located, pc]
      exact Nat.zero_add _
    simp only [State.located, State.stored, State.goto, State.setWorker, Act.emplaced, front,
      tally_cons]
    omega
  case record i w info worker pc =>
    have fresh := not_recorded once worker pc
    have moved (u : Worker) : tally (Worker.located p) (s.workers.set i u) + w.located p =
        tally (Worker.located p) s.workers + u.located p := tally_set worker
    have before : w.located p = info.counts p + w.recorded p := by
      rw [Worker.located, pc]
      rfl
    have after : Worker.located p ⟨.register info, (w.insert info).clientInfos, w.poller⟩ =
        w.recorded p + info.counts p := by
      simp [Worker.insert, fresh, Worker.located, Worker.recorded, Pc.popped, ClientInfo.counts]
    have moved := moved ⟨.register info, (w.insert info).clientInfos, w.poller⟩
    rw [before, after] at moved
    simp only [State.located, State.stored, State.goto, State.setWorker, Act.emplaced,
      Worker.poller_insert]
    omega
  case taskEmplace j info held =>
    simp only [State.located, State.stored, Act.emplaced, tally_append, tally_cons, tally_nil]
    omega
  all_goals first
    | rfl
    | (simp only [State.located, State.stored, State.goto, State.setWorker, Act.emplaced]
       rw [tally_located_set ‹_› (by rw [‹Worker.pc _ = _›]; rfl) (by rfl)]
       rfl)

/-! ## Which descriptors the pool deals with -/

/-- The descriptors in the hands of a worker at its program point. -/
def Pc.fds : Pc → List Int
  | .record info | .register info => [info.eplev.fd]
  | .handle events => events.map (·.fd)
  | .reading event rest | .hangup event rest => event.fd :: rest.map (·.fd)
  | .unstarted | .top | .lock | .retest | .pop | .unlock | .decrement | .test | .loadAvail
  | .loadDivisor | .poll _ | .increment => []

/-- Every descriptor the pool deals with satisfies `q`. -/
structure Concerns (q : Int → Prop) (s : State) : Prop where
  stored : ∀ info ∈ s.eventStorage, q info.eplev.fd
  held : ∀ w ∈ s.workers, ∀ fd ∈ w.pc.fds, q fd
  polled : ∀ w ∈ s.workers, ∀ e ∈ w.poller, q e.fd
  disconnected : ∀ fd ∈ s.disconnected, q fd

variable {q : Int → Prop}

theorem Concerns.constructed (q : Int → Prop) (n : ℕ) : Concerns q (.constructed n) where
  stored := by simp [State.constructed]
  held w hw := by
    obtain ⟨-, rfl⟩ : n ≠ 0 ∧ w = .constructed := by simpa [State.constructed] using hw
    simp [Worker.constructed, Pc.fds]
  polled w hw := by
    obtain ⟨-, rfl⟩ : n ≠ 0 ∧ w = .constructed := by simpa [State.constructed] using hw
    simp [Worker.constructed]
  disconnected := by simp [State.constructed]

theorem Concerns.mono {r : Int → Prop} (h : Concerns q s) (imp : ∀ fd, q fd → r fd) :
    Concerns r s where
  stored info hi := imp _ (h.stored info hi)
  held w hw fd hfd := imp _ (h.held w hw fd hfd)
  polled w hw e he := imp _ (h.polled w hw e he)
  disconnected fd hfd := imp _ (h.disconnected fd hfd)

/-- A step of worker `i`, which goes from `w` to `u`. -/
theorem Concerns.update {i : ℕ} {w u : Worker} (h : Concerns q s)
    (worker : s.workers[i]? = some w) (workers : s'.workers = s.workers.set i u)
    (held : ∀ fd ∈ u.pc.fds, fd ∈ w.pc.fds ∨ q fd)
    (polled : ∀ e ∈ u.poller, e ∈ w.poller ∨ q e.fd)
    (stored : ∀ info ∈ s'.eventStorage, q info.eplev.fd)
    (disconnected : ∀ fd ∈ s'.disconnected, q fd) : Concerns q s' := by
  have mem : w ∈ s.workers := List.mem_of_getElem? worker
  refine ⟨stored, fun v hv => ?_, fun v hv => ?_, disconnected⟩ <;>
    rw [workers] at hv <;> rcases List.mem_or_eq_of_mem_set hv with old | rfl
  · exact h.held v old
  · exact fun fd hfd => (held fd hfd).elim (h.held w mem fd) id
  · exact h.polled v old
  · exact fun e he => (polled e he).elim (h.polled w mem e) id

theorem mem_poller_addEvent {w : Worker} {info : ClientInfo} {resources : Bool} {e : EpollEvent}
    (h : e ∈ (w.addEvent info resources).poller) : e ∈ w.poller ∨ e.fd = info.eplev.fd := by
  simp only [Worker.addEvent, Interest.addEvent, Interest.ctlAdd, Bool.not_false, if_true] at h
  split_ifs at h
  · exact .inl h
  · rcases List.mem_append.mp h with old | new
    · exact .inl old
    · exact .inr (by rw [List.mem_singleton.mp new])

/-- A client enters the pool through `emplace`, and events name registered descriptors. -/
theorem Concerns.step (h : Concerns q s) (m : Move s a s')
    (brings : ∀ j info, a = .taskEmplace j info → q info.eplev.fd)
    (reports : ∀ i events w, a = .poll i events → s.workers[i]? = some w →
      ∀ e ∈ events, w.poller.registered e.fd = true) : Concerns q s' := by
  have held (i : ℕ) (w : Worker) (worker : s.workers[i]? = some w) : ∀ fd ∈ w.pc.fds, q fd :=
    h.held w (List.mem_of_getElem? worker)
  have handles {i : ℕ} {w : Worker} {fd : Int} (worker : s.workers[i]? = some w)
      (mem : fd ∈ w.pc.fds) : ∀ fd' ∈ s.disconnected ++ [fd], q fd' :=
    List.forall_mem_append.mpr
      ⟨h.disconnected, List.forall_mem_singleton.mpr (held i w worker fd mem)⟩
  cases m
  case startWorker i w _ worker =>
    refine h.update worker rfl (fun fd hfd => ?_) (fun e he => .inl ?_) h.stored h.disconnected
    · rcases w.pc_start _ with keep | ⟨-, top⟩
      · exact .inl (keep ▸ hfd)
      · simp [top, Pc.fds] at hfd
    · exact w.poller_start _ ▸ he
  case pop i w info rest worker pc front =>
    have front_ : q info.eplev.fd := h.stored info (by simp [front])
    refine h.update worker rfl (by simpa [Pc.fds] using .inr front_) (fun _ => .inl) ?_
      h.disconnected
    exact fun info' hi => h.stored info' (by simp [front, hi])
  case record i w info worker pc =>
    refine h.update worker rfl (fun fd hfd => .inl ?_) (fun e he => .inl ?_) h.stored
      h.disconnected
    · rw [pc]
      exact hfd
    · exact w.poller_insert info ▸ he
  case register i _ w info worker pc =>
    refine h.update worker rfl (by simp [Pc.fds]) (fun e he => ?_) h.stored h.disconnected
    refine (mem_poller_addEvent he).imp id fun new => held i w worker e.fd ?_
    rw [pc, new]
    exact List.mem_singleton.mpr rfl
  case poll i events w wttme worker pc =>
    refine h.update worker rfl (fun fd hfd => .inr ?_) (fun _ => .inl) h.stored h.disconnected
    obtain ⟨e, he, rfl⟩ := List.mem_map.mp hfd
    obtain ⟨e', he', same⟩ := List.any_eq_true.mp (reports i events w rfl worker e he)
    exact (eq_of_beq same : e'.fd = e.fd) ▸ h.polled w (List.mem_of_getElem? worker) e' he'
  case readEnd i w event rest worker pc =>
    refine h.update worker rfl (fun fd hfd => .inl ?_) (fun _ => .inl) h.stored
      (handles worker ?_)
    · rw [pc]
      exact hfd
    · rw [pc]
      exact List.mem_cons_self
  case hangup i w event rest worker pc up =>
    refine h.update worker rfl (fun fd hfd => .inl ?_) (fun _ => .inl) h.stored
      (handles worker ?_)
    · rw [pc]
      exact List.mem_cons_of_mem _ hfd
    · rw [pc]
      exact List.mem_cons_self
  case noHangup i w event rest worker pc up =>
    refine h.update worker rfl (fun fd hfd => .inl ?_) (fun _ => .inl) h.stored h.disconnected
    rw [pc]
    exact List.mem_cons_of_mem _ hfd
  case handleIn | handleOther | read =>
    have worker := ‹s.workers[_]? = some _›
    refine h.update worker rfl (fun fd hfd => .inl ?_) (fun _ => .inl) h.stored h.disconnected
    rw [‹Worker.pc _ = _›]
    exact hfd
  case taskEmplace j info _ =>
    refine ⟨fun info' hi => ?_, h.held, h.polled, h.disconnected⟩
    rcases List.mem_append.mp hi with old | new
    · exact h.stored info' old
    · exact List.mem_singleton.mp new ▸ brings j info rfl
  all_goals first
    | exact ⟨h.stored, h.held, h.polled, h.disconnected⟩
    | (have worker := ‹s.workers[_]? = some _›
       exact h.update worker rfl (by simp [Pc.fds]) (fun _ => .inl) h.stored h.disconnected)

/-! ## What the pool knows of its clients -/

/-- The client that a worker has taken and not yet registered. -/
def Pc.info : Pc → Option ClientInfo
  | .record info | .register info => some info
  | .unstarted | .top | .lock | .retest | .pop | .unlock | .decrement | .test | .loadAvail
  | .loadDivisor | .poll _ | .handle _ | .reading _ _ | .hangup _ _ | .increment => none

/-- Every client that the pool holds satisfies `q`, and a map has it under its descriptor. -/
structure Keeps (q : ClientInfo → Prop) (s : State) : Prop where
  stored : ∀ info ∈ s.eventStorage, q info
  taken : ∀ w ∈ s.workers, ∀ info, w.pc.info = some info → q info
  recorded : ∀ w ∈ s.workers, ∀ c ∈ w.clientInfos, c.1 = c.2.eplev.fd ∧ q c.2

variable {r : ClientInfo → Prop}

theorem Keeps.constructed (r : ClientInfo → Prop) (n : ℕ) : Keeps r (.constructed n) where
  stored := by simp [State.constructed]
  taken w hw := by
    obtain ⟨-, rfl⟩ : n ≠ 0 ∧ w = .constructed := by simpa [State.constructed] using hw
    simp [Worker.constructed, Pc.info]
  recorded w hw := by
    obtain ⟨-, rfl⟩ : n ≠ 0 ∧ w = .constructed := by simpa [State.constructed] using hw
    simp [Worker.constructed]

theorem Keeps.mono {r' : ClientInfo → Prop} (h : Keeps r s) (imp : ∀ info, r info → r' info) :
    Keeps r' s where
  stored info mem := imp info (h.stored info mem)
  taken w mem info pc := imp info (h.taken w mem info pc)
  recorded w mem c hc := (h.recorded w mem c hc).imp_right (imp c.2)

/-- A step of worker `i`, which goes from `w` to `u`. -/
theorem Keeps.update {i : ℕ} {w u : Worker} (h : Keeps r s) (worker : s.workers[i]? = some w)
    (workers : s'.workers = s.workers.set i u) (stored : ∀ info ∈ s'.eventStorage, r info)
    (taken : ∀ info, u.pc.info = some info → w.pc.info = some info ∨ r info)
    (recorded : ∀ c ∈ u.clientInfos, c ∈ w.clientInfos ∨ c.1 = c.2.eplev.fd ∧ r c.2) :
    Keeps r s' := by
  have mem : w ∈ s.workers := List.mem_of_getElem? worker
  refine ⟨stored, fun v hv info pc => ?_, fun v hv c hc => ?_⟩ <;>
    rw [workers] at hv <;> rcases List.mem_or_eq_of_mem_set hv with old | rfl
  · exact h.taken v old info pc
  · exact (taken info pc).elim (h.taken w mem info) id
  · exact h.recorded v old c hc
  · exact (recorded c hc).elim (h.recorded w mem c) id

theorem mem_clientInfos_insert {w : Worker} {info : ClientInfo} {c : Int × ClientInfo}
    (h : c ∈ (w.insert info).clientInfos) : c ∈ w.clientInfos ∨ c = (info.eplev.fd, info) := by
  unfold Worker.insert at h
  split_ifs at h
  · exact .inl h
  · exact (List.mem_append.mp h).imp_right List.mem_singleton.mp

/-- A client enters the pool through `emplace`. -/
theorem Keeps.step (h : Keeps r s) (m : Move s a s')
    (brings : ∀ j info, a = .taskEmplace j info → r info) : Keeps r s' := by
  cases m
  case startWorker i w _ worker =>
    refine h.update worker rfl h.stored (fun info pc => ?_) (fun c hc => .inl ?_)
    · rcases w.pc_start _ with keep | ⟨-, top⟩
      · exact .inl (keep ▸ pc)
      · simp [top, Pc.info] at pc
    · exact w.clientInfos_start _ ▸ hc
  case pop i w info rest worker pc front =>
    refine h.update worker rfl (fun info' mem => h.stored info' ?_) (fun info' pc' => .inr ?_)
      (fun _ => .inl)
    · rw [front]
      exact List.mem_cons_of_mem _ mem
    · obtain rfl : info = info' := by simpa [Pc.info] using pc'
      exact h.stored info (by rw [front]; exact List.mem_cons_self)
  case record i w info worker pc =>
    refine h.update worker rfl h.stored (fun info' pc' => .inl ?_) (fun c hc => ?_)
    · rw [pc]
      exact pc'
    · refine (mem_clientInfos_insert hc).imp_right ?_
      rintro rfl
      exact ⟨rfl, h.taken w (List.mem_of_getElem? worker) info (by rw [pc]; rfl)⟩
  case taskEmplace j info _ =>
    refine ⟨fun info' mem => ?_, h.taken, h.recorded⟩
    rcases List.mem_append.mp mem with old | new
    · exact h.stored info' old
    · exact List.mem_singleton.mp new ▸ brings j info rfl
  all_goals first
    | exact ⟨h.stored, h.taken, h.recorded⟩
    | (have worker := ‹s.workers[_]? = some _›
       exact h.update worker rfl h.stored (by simp [Pc.info]) (fun _ => .inl))

/-- The step calls `handle_disconnect`. -/
def HandlesDisconnect (s : State) : Act → Prop
  | .read _ n => n = 0
  | .worker i => ∃ w event rest, s.workers[i]? = some w ∧ w.pc = .hangup event rest ∧
      hasEvent event.events (epollHup ||| epollErr) = true
  | _ => False

theorem not_handlesDisconnect {i : ℕ} {w : Worker} (worker : s.workers[i]? = some w)
    (pc : ∀ event rest, w.pc ≠ .hangup event rest) : ¬ HandlesDisconnect s (.worker i) := by
  rintro ⟨v, event, rest, hv, at_, -⟩
  obtain rfl : w = v := by simpa [worker] using hv
  exact pc event rest at_

theorem Move.disconnected (m : Move s a s') :
    HandlesDisconnect s a ∧ s'.disconnected ≠ [] ∨
      ¬ HandlesDisconnect s a ∧ s'.disconnected = s.disconnected := by
  cases m
  case readEnd => exact .inl ⟨rfl, by simp⟩
  case hangup i w event rest worker pc up => exact .inl ⟨⟨w, event, rest, worker, pc, up⟩, by simp⟩
  case noHangup i w event rest worker pc up =>
    refine .inr ⟨?_, rfl⟩
    rintro ⟨v, event', rest', hv, at_, up'⟩
    obtain rfl : w = v := by simpa [worker] using hv
    obtain ⟨rfl, rfl⟩ : event = event' ∧ rest = rest' := by simpa [pc] using at_
    simp [up] at up'
  case read more => exact .inr ⟨more, rfl⟩
  all_goals first
    | exact .inr ⟨id, rfl⟩
    | (have worker := ‹s.workers[_]? = some _›
       exact .inr ⟨not_handlesDisconnect worker (by simp [‹Worker.pc _ = _›]), rfl⟩)

end EpollServer.WorkerPool
