import EpollServer.WorkerPool.Machine

/-!
# Reports of edge-triggered descriptors

`add_event` adds `EPOLLET` to every event mask. A worker therefore gets one report for what has
arrived on a descriptor, and takes the events of a report one by one: for an event with `EPOLLIN`
it makes one `read`.
-/
namespace EpollServer.WorkerPool

open Library

/-- The poller reports when the descriptor becomes readable. -/
def Worker.watches (w : Worker) (fd : Int) : Bool :=
  w.poller.any fun e => e.fd == fd && hasEvent e.events epollIn

/-- The reported events for which the worker has not made its `read`. -/
def Pc.unhandled : Pc → List EpollEvent
  | .handle events => events
  | .reading event rest => event :: rest
  | .hangup _ rest => rest
  | .unstarted | .top | .lock | .retest | .pop | .record _ | .register _ | .unlock | .decrement
  | .test | .loadAvail | .loadDivisor | .poll _ | .increment => []

/-- Every descriptor in a poller is edge triggered. -/
def EdgeTriggered (s : State) : Prop :=
  ∀ w ∈ s.workers, ∀ e ∈ w.poller, hasEvent e.events epollEt = true

/-- What a step does to the events that a worker has to handle; `polls` and `reads` say what the
step is, if it is a step of this worker. -/
inductive Turn (polls : List EpollEvent → Prop) (reads : Int → Prop) (before after : Pc) : Prop
  | keep (other : ∀ events, ¬ polls events) (same : after.unhandled = before.unhandled)
  | skip {event : EpollEvent} {rest : List EpollEvent} (first : before.unhandled = event :: rest)
      (quiet : hasEvent event.events epollIn = false)
  | read {event : EpollEvent} {rest : List EpollEvent} (n : Int) (act : reads n)
      (pc : before = .reading event rest) (left : after.unhandled = rest)
  | poll {events : List EpollEvent} (act : polls events) (idle : before.unhandled = [])
      (left : after.unhandled = events)

variable {s s' : State} {a : Act}

/-! ## Edge triggering -/

theorem hasEvent_epollEt (events : UInt32) : hasEvent (events ||| epollEt) epollEt = true := by
  have absorb (x y : UInt32) : (x ||| y) &&& y = y := by
    apply UInt32.toBitVec_inj.1
    ext i hi
    simp
    grind
  unfold hasEvent
  rw [absorb]
  decide

theorem Worker.edgeTriggered_addEvent {w : Worker} {info : ClientInfo} {resources : Bool}
    {e : EpollEvent} (he : e ∈ (w.addEvent info resources).poller) :
    e ∈ w.poller ∨ hasEvent e.events epollEt = true := by
  have ctl : e ∈ (w.poller.ctlAdd info.eplev.fd ⟨info.eplev.events ||| epollEt, info.eplev.fd⟩
    resources).1 := he
  unfold Interest.ctlAdd at ctl
  split_ifs at ctl
  · exact .inl ctl
  · rcases List.mem_append.mp ctl with old | new
    · exact .inl old
    · rw [List.mem_singleton.mp new]
      exact .inr (hasEvent_epollEt _)

theorem EdgeTriggered.step (h : EdgeTriggered s) (m : Move s a s') : EdgeTriggered s' := by
  have update {i : ℕ} {w u : Worker} (worker : s.workers[i]? = some w)
      (own : ∀ e ∈ u.poller, e ∈ w.poller ∨ hasEvent e.events epollEt = true) :
      ∀ v ∈ s.workers.set i u, ∀ e ∈ v.poller, hasEvent e.events epollEt = true := by
    intro v hv e he
    rcases List.mem_or_eq_of_mem_set hv with old | rfl
    · exact h v old e he
    · exact (own e he).elim (h w (List.mem_of_getElem? worker) e) id
  cases m
  case startWorker ok i w at_ worker =>
    refine update worker fun e he => .inl ?_
    rwa [w.poller_start] at he
  case record i w info worker pc =>
    refine update worker fun e he => .inl ?_
    exact w.poller_insert info ▸ he
  case register i resources w info worker pc =>
    exact update worker fun e he => Worker.edgeTriggered_addEvent he
  case enter | startedAll | store | create | setStarted | popEmpty | divideByZero |
      taskLock | taskEmplace | taskUnlock =>
    exact h
  all_goals
    have worker := ‹s.workers[_]? = some _›
    exact update worker fun e he => .inl he

theorem edgeTriggered_of_run {n : ℕ} {as : List Act}
    (h : run step (.constructed n) as = some s) : EdgeTriggered s := by
  refine run_invariant ?_ (fun s a s' edge hs => edge.step (.of_step hs)) h
  intro w hw e he
  obtain rfl : w = .constructed := List.eq_of_mem_replicate hw
  cases he

/-! ## The events that are left -/

theorem Turn.imp {polls polls' : List EpollEvent → Prop} {reads reads' : Int → Prop}
    {before after : Pc} (h : Turn polls reads before after)
    (same : ∀ events, polls events ↔ polls' events) (imp : ∀ n, reads n → reads' n) :
    Turn polls' reads' before after := by
  cases h with
  | keep other left => exact .keep (fun events p => other events ((same events).mpr p)) left
  | skip first quiet => exact .skip first quiet
  | read n act pc left => exact .read n (imp n act) pc left
  | poll act idle left => exact .poll ((same _).mp act) idle left

theorem Move.turn (m : Move s a s') {i : ℕ} {w' : Worker} (worker' : s'.workers[i]? = some w') :
    ∃ w, s.workers[i]? = some w ∧
      Turn (fun events => a = .poll i events) (fun n => a = .read i n) w.pc w'.pc := by
  have set {k : ℕ} {w u : Worker} (worker : s.workers[k]? = some w)
      (workers : s'.workers = s.workers.set k u) (foreign : k ≠ i → ∀ events, a ≠ .poll i events)
      (own : k = i →
        Turn (fun events => a = .poll i events) (fun n => a = .read i n) w.pc u.pc) :
      ∃ w, s.workers[i]? = some w ∧
        Turn (fun events => a = .poll i events) (fun n => a = .read i n) w.pc w'.pc := by
    rw [workers, List.getElem?_set] at worker'
    split_ifs at worker' with mine
    · subst mine
      obtain rfl := Option.some.inj worker'
      exact ⟨w, worker, own rfl⟩
    · exact ⟨w', worker', .keep (foreign mine) rfl⟩
  cases m
  case startWorker ok k w at_ worker =>
    refine set worker rfl (by simp) fun _ => .keep (by simp) ?_
    rcases w.pc_start ok with same | ⟨unstarted, top⟩
    · rw [same]
    · rw [unstarted, top]
      rfl
  case poll k events w wttme worker pc =>
    refine set worker rfl ?_ fun mine =>
      .poll (congrArg (Act.poll · events) mine) (by rw [pc]; rfl) rfl
    intro other events' same
    exact other (Act.poll.inj same).1
  case handleOther k w event rest worker pc quiet =>
    exact set worker rfl (by simp) fun _ => .skip (by rw [pc]; rfl) quiet
  case readEnd k w event rest worker pc =>
    exact set worker rfl (by simp) fun mine => .read 0 (by rw [mine]) pc rfl
  case read k n w event rest worker pc more =>
    exact set worker rfl (by simp) fun mine => .read n (by rw [mine]) pc rfl
  case enter | startedAll | store | create | setStarted | popEmpty | divideByZero |
      taskLock | taskEmplace | taskUnlock =>
    exact ⟨w', worker', .keep (by simp) rfl⟩
  all_goals
    have worker := ‹s.workers[_]? = some _›
    refine set worker rfl (by simp) fun _ => .keep (by simp) ?_
    have pc := ‹Worker.pc _ = _›
    rw [pc]
    rfl

/-- After the `read` of a worker, whatever it returned. -/
theorem worker_of_read {i : ℕ} {n : Int} {w : Worker} {event : EpollEvent}
    {rest : List EpollEvent} (h : step s (.read i n) = some s') (worker : s.workers[i]? = some w)
    (pc : w.pc = .reading event rest) :
    s'.workers[i]? = some { w with pc := .hangup event rest } := by
  have inside := (List.getElem?_eq_some_iff.mp worker).1
  cases Move.of_step h with
  | readEnd _ worker' pc' =>
    obtain rfl := Option.some.inj (worker.symm.trans worker')
    obtain ⟨rfl, rfl⟩ := Pc.reading.inj (pc.symm.trans pc')
    exact List.getElem?_set_self inside
  | read _ _ worker' pc' more =>
    obtain rfl := Option.some.inj (worker.symm.trans worker')
    obtain ⟨rfl, rfl⟩ := Pc.reading.inj (pc.symm.trans pc')
    exact List.getElem?_set_self inside

end EpollServer.WorkerPool
