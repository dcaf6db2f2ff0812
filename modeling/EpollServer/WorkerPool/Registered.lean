import EpollServer.WorkerPool.Machine

/-!
# Recorded and registered clients

A worker records a popped client in `client_infos` and then adds it to its poller. The insertion
does not depend on the registration, and `add_event` returns 0 whatever `epoll_ctl` did, so a
client whose registration fails stays recorded and is never served.
-/
namespace EpollServer.WorkerPool

open Library

/-- The client is a key of `client_infos`. -/
def Worker.records (w : Worker) (fd : Int) : Bool := w.clientInfos.any (·.1 == fd)

/-- The client that the worker is about to add to its poller. -/
def Pc.registering : Pc → Option Int
  | .register info => some info.eplev.fd
  | .unstarted | .top | .lock | .retest | .pop | .record _ | .unlock | .decrement | .test
  | .loadAvail | .loadDivisor | .poll _ | .handle _ | .reading _ _ | .hangup _ _ | .increment =>
    none

/-- The recorded clients are the registered ones, and the one that is about to be. -/
def Worker.Agrees (w : Worker) : Prop :=
  ∀ fd, w.records fd = true ↔ w.poller.registered fd = true ∨ w.pc.registering = some fd

def RecordsRegistered (s : State) : Prop := ∀ w ∈ s.workers, w.Agrees

/-- If this step registers a client that is not in the poller yet, the kernel has the resources
for it. -/
def Registers (s : State) : Act → Prop
  | .register i resources => ∀ w info, s.workers[i]? = some w → w.pc = .register info →
      resources = true ∨ w.poller.registered info.eplev.fd = true
  | _ => True

/-- A client about to be registered is recorded. -/
def RecordsFirst (s : State) : Prop :=
  ∀ w ∈ s.workers, ∀ info, w.pc = .register info → w.records info.eplev.fd = true

variable {s s' : State} {a : Act}

/-! ## Insertion and registration -/

theorem Worker.records_insert (w : Worker) (info : ClientInfo) (fd : Int) :
    (w.insert info).records fd = true ↔ w.records fd = true ∨ info.eplev.fd = fd := by
  unfold insert records
  split_ifs with present
  · refine ⟨.inl, fun h => h.elim id fun same => ?_⟩
    exact same ▸ present
  · simp

theorem Worker.registered_addEvent (w : Worker) (info : ClientInfo) (resources : Bool) (fd : Int) :
    (w.addEvent info resources).poller.registered fd = true ↔
      w.poller.registered fd = true ∨
        info.eplev.fd = fd ∧ resources = true := by
  exact w.poller.registered_ctlAdd info.eplev.fd _ resources fd

/-- A worker at another program point with the same clients. -/
theorem Worker.Agrees.goto {w : Worker} (h : w.Agrees) {pc : Pc}
    (before : w.pc.registering = none) (after : pc.registering = none) :
    Worker.Agrees { w with pc := pc } := by
  intro fd
  simp only [after]
  rw [← before]
  exact h fd

theorem Worker.Agrees.start {w : Worker} (h : w.Agrees) (ok : Bool) : (w.start ok).Agrees := by
  rcases w.pc_start ok with same | ⟨unstarted, top⟩
  · intro fd
    rw [same, w.poller_start, records, w.clientInfos_start]
    exact h fd
  · intro fd
    have := h fd
    rw [unstarted] at this
    rw [top, w.poller_start, records, w.clientInfos_start]
    exact this

theorem Worker.Agrees.record {w : Worker} (h : w.Agrees) {info : ClientInfo}
    (pc : w.pc = .record info) :
    Worker.Agrees { w.insert info with pc := .register info } := by
  intro fd
  have same : w.records fd = true ↔ w.poller.registered fd = true := by
    simpa [pc, Pc.registering] using h fd
  have inserted := w.records_insert info fd
  rw [same] at inserted
  simpa [Worker.records, Pc.registering] using inserted

/-- After the registration the worker agrees if and only if the client is registered. -/
theorem Worker.Agrees.register {w : Worker} (h : w.Agrees) {info : ClientInfo}
    (pc : w.pc = .register info) {resources : Bool}
    (ok : resources = true ∨ w.poller.registered info.eplev.fd = true) :
    Worker.Agrees { w.addEvent info resources with pc := .unlock } := by
  intro fd
  have before := h fd
  simp only [pc, Pc.registering, Option.some.injEq] at before
  have after := w.registered_addEvent info resources fd
  change w.records fd = true ↔ (w.addEvent info resources).poller.registered fd = true ∨ _
  rw [after, before]
  constructor
  · rintro (registered | rfl)
    · exact .inl (.inl registered)
    · exact .inl (ok.elim (fun done => .inr ⟨rfl, done⟩) .inl)
  · rintro ((registered | ⟨same, -⟩) | other)
    · exact .inl registered
    · exact .inr same
    · cases other

/-! ## Whole runs -/

theorem RecordsRegistered.update (h : RecordsRegistered s) {i : ℕ} {u : Worker}
    (workers : s'.workers = s.workers.set i u) (own : u.Agrees) : RecordsRegistered s' := by
  intro w hw
  rw [workers] at hw
  rcases List.mem_or_eq_of_mem_set hw with old | rfl
  · exact h w old
  · exact own

theorem RecordsRegistered.step (h : RecordsRegistered s) (registers : Registers s a)
    (m : Move s a s') : RecordsRegistered s' := by
  have agrees {i : ℕ} {w : Worker} (worker : s.workers[i]? = some w) : w.Agrees :=
    h w (List.mem_of_getElem? worker)
  cases m
  case startWorker ok i w at_ worker => exact h.update rfl ((agrees worker).start _)
  case record i w info worker pc => exact h.update rfl ((agrees worker).record pc)
  case register i resources w info worker pc =>
    exact h.update rfl ((agrees worker).register pc (registers w info worker pc))
  case enter | startedAll | store | create | setStarted | popEmpty | divideByZero |
      taskLock | taskEmplace | taskUnlock =>
    exact h
  all_goals
    exact h.update rfl ((agrees ‹s.workers[_]? = some _›).goto (by rw [‹Worker.pc _ = _›]; rfl) rfl)

theorem RecordsFirst.step (h : RecordsFirst s) (m : Move s a s') : RecordsFirst s' := by
  have update {i : ℕ} {u : Worker} (workers : s'.workers = s.workers.set i u)
      (own : ∀ info, u.pc = .register info → u.records info.eplev.fd = true) :
      RecordsFirst s' := by
    intro w hw
    rw [workers] at hw
    rcases List.mem_or_eq_of_mem_set hw with old | rfl
    · exact h w old
    · exact own
  cases m
  case startWorker ok i w at_ worker =>
    refine update rfl fun info pc => ?_
    rcases w.pc_start ‹Bool› with same | ⟨-, top⟩
    · rw [Worker.records, w.clientInfos_start]
      exact h w (List.mem_of_getElem? worker) info (same ▸ pc)
    · simp [top] at pc
  case record i w info worker pc =>
    refine update rfl fun info' pc' => ?_
    obtain rfl : info = info' := by simpa using pc'
    exact (w.records_insert info _).mpr (.inr rfl)
  case enter | startedAll | store | create | setStarted | popEmpty | divideByZero |
      taskLock | taskEmplace | taskUnlock =>
    exact h
  all_goals
    refine update rfl fun info pc => ?_
    cases pc

/-- A registration after which the worker agrees had the resources it needed. -/
theorem Registers.of_agrees (first : RecordsFirst s) (m : Move s a s') (h : RecordsRegistered s') :
    Registers s a := by
  cases m
  case register i resources w info worker pc =>
    intro v info' hv pc'
    obtain rfl : w = v := by simpa [worker] using hv
    obtain rfl : info = info' := by simpa [pc] using pc'
    have inside := (List.getElem?_eq_some_iff.mp worker).1
    have agrees := h _ (List.mem_set inside { w.addEvent info resources with pc := .unlock })
    have recorded := first w (List.mem_of_getElem? worker) info pc
    rcases (agrees info.eplev.fd).mp recorded with registered | other
    · rcases (w.registered_addEvent info resources _).mp registered with before | ⟨-, done⟩
      · exact .inr before
      · exact .inl done
    · cases other
  all_goals trivial

/-- Along a run the clients that a worker has recorded are the ones registered in its poller, but
for the one it is about to register, if and only if the kernel has the resources for each
registration of a client that is not in the poller yet. -/
theorem recordsRegistered_iff {n : ℕ} {as : List Act} (h : run step (.constructed n) as = some s) :
    EveryState step RecordsRegistered (.constructed n) as ↔
      EveryStep step Registers (.constructed n) as := by
  have fresh (w : Worker) (hw : w ∈ (State.constructed n).workers) : w = .constructed := by
    simpa using (List.mem_replicate.mp hw).2
  refine everyState_iff_everyStep (I := RecordsFirst) ?_
    (fun _ _ _ first ha => first.step (Move.of_step ha)) ?_
    (fun _ _ _ _ agrees registers ha => agrees.step registers (Move.of_step ha))
    (fun _ _ _ first ha agrees => .of_agrees first (Move.of_step ha) agrees) h
  · rintro w hw info pc
    simp [fresh w hw, Worker.constructed] at pc
  · intro w hw fd
    simp [fresh w hw, Worker.constructed, Worker.records, Interest.registered, Pc.registering]

/-- The run of a worker up to the registration of the client with descriptor 5. -/
def untilRegistration : List Act :=
  [.startup true, .startup true, .taskLock 0, .taskEmplace 0 ⟨.null, 0, epollIn, 5⟩, .taskUnlock 0,
   .worker 0, .worker 0, .worker 0, .worker 0, .worker 0]

/-- The kernel has the resources: the client is recorded and registered. -/
theorem recordsRegistered_iff_registration :
    ∃ s w, run step (.constructed 1) (untilRegistration ++ [.register 0 true]) = some s ∧
      s.workers = [w] ∧ w.records 5 = true ∧ w.poller.registered 5 = true ∧
      (EveryState step RecordsRegistered (.constructed 1)
          (untilRegistration ++ [.register 0 true]) ↔
        EveryStep step Registers (.constructed 1) (untilRegistration ++ [.register 0 true])) := by
  have end_ : (run step (.constructed 1) (untilRegistration ++ [.register 0 true])).map
      (fun s => s.workers.map fun w => (w.records 5, w.poller.registered 5)) =
      some [(true, true)] := by decide +kernel
  obtain ⟨s, hs, he⟩ := Option.map_eq_some_iff.mp end_
  obtain ⟨w, hw, he⟩ := List.map_eq_singleton_iff.mp he
  obtain ⟨recorded, registered⟩ := Prod.mk.inj he
  exact ⟨s, w, hs, hw, recorded, registered, recordsRegistered_iff hs⟩

/-- The registration fails: the client is recorded, and not registered. -/
theorem registration_fails :
    ∃ s w, run step (.constructed 1) (untilRegistration ++ [.register 0 false]) = some s ∧
      s.workers = [w] ∧ w.pc = .unlock ∧ w.records 5 = true ∧ w.poller.registered 5 = false ∧
      ¬ RecordsRegistered s := by
  have end_ : (run step (.constructed 1) (untilRegistration ++ [.register 0 false])).map
      (fun s => s.workers.map fun w => (w.pc, w.records 5, w.poller.registered 5)) =
      some [(.unlock, true, false)] := by decide +kernel
  obtain ⟨s, hs, he⟩ := Option.map_eq_some_iff.mp end_
  obtain ⟨w, hw, he⟩ := List.map_eq_singleton_iff.mp he
  simp only [Prod.mk.injEq] at he
  obtain ⟨pc, recorded, registered⟩ := he
  refine ⟨s, w, hs, hw, pc, recorded, registered, fun agrees => ?_⟩
  have := (agrees w (by simp [hw]) 5).mp recorded
  simp [registered, pc, Pc.registering] at this

end EpollServer.WorkerPool
