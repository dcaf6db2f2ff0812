import EpollServer.WorkerPool.Registered
import EpollServer.WorkerPool.Storage

/-!
# How clients pass through the worker pool

A client enters `event_storage_`, is popped by one worker and recorded by it. A worker has at
most one popped client in hand, and its recorded clients never get fewer. `Passing` says so for
one step; a step of any other kind leaves the storage and what the workers hold as they are.
-/
namespace EpollServer.WorkerPool

open Library

/-- The client that a worker has popped and not yet recorded. -/
def Pc.inHand : Pc → Option Int
  | .record info => some info.eplev.fd
  | .unstarted | .top | .lock | .retest | .pop | .register _ | .unlock | .decrement | .test
  | .loadAvail | .loadDivisor | .poll _ | .handle _ | .reading _ _ | .hangup _ _ | .increment =>
    none

/-- The client in hand, and the recorded ones. -/
def Worker.holdings (w : Worker) : Option Int × List Int :=
  (w.pc.inHand, w.clientInfos.map Prod.fst)

def State.holdings (s : State) : List (Option Int × List Int) := s.workers.map Worker.holdings

variable {s s' : State} {a : Act}

/-- What a step does to the clients in the pool. -/
inductive Passing (s : State) : Act → State → Prop where
  | emplace {j : ℕ} {info : ClientInfo} {s' : State}
      (stored : s'.eventStorage = s.eventStorage ++ [info]) (same : s'.holdings = s.holdings) :
      Passing s (.taskEmplace j info) s'
  | pop {i : ℕ} {info : ClientInfo} {recorded : List Int} {s' : State}
      (front : s.eventStorage = info :: s'.eventStorage)
      (before : s.holdings[i]? = some (none, recorded))
      (after : s'.holdings = s.holdings.set i (some info.eplev.fd, recorded)) :
      Passing s (.worker i) s'
  | record {i : ℕ} {fd : Int} {recorded recorded' : List Int} {s' : State}
      (stored : s'.eventStorage = s.eventStorage)
      (before : s.holdings[i]? = some (some fd, recorded))
      (grows : ∀ x, x ∈ recorded' ↔ x ∈ recorded ∨ x = fd)
      (after : s'.holdings = s.holdings.set i (none, recorded')) : Passing s (.worker i) s'
  | other {a : Act} {s' : State} (stored : s'.eventStorage = s.eventStorage)
      (same : s'.holdings = s.holdings) (quiet : ∀ j info, a ≠ .taskEmplace j info) :
      Passing s a s'

theorem holdings_getElem? {i : ℕ} {w : Worker} (worker : s.workers[i]? = some w) :
    s.holdings[i]? = some w.holdings := by
  rw [State.holdings, List.getElem?_map, worker, Option.map_some]

theorem mem_keys_insert (w : Worker) (info : ClientInfo) (fd : Int) :
    fd ∈ (w.insert info).clientInfos.map Prod.fst ↔
      fd ∈ w.clientInfos.map Prod.fst ∨ fd = info.eplev.fd := by
  have keys (w : Worker) : fd ∈ w.clientInfos.map Prod.fst ↔ w.records fd = true := by
    simp [Worker.records]
  rw [keys, keys, w.records_insert]
  exact or_congr_right eq_comm

/-- A worker goes on with the same clients. -/
theorem Passing.keep {i : ℕ} {w u : Worker} (worker : s.workers[i]? = some w)
    (workers : s'.workers = s.workers.set i u) (stored : s'.eventStorage = s.eventStorage)
    (hand : u.pc.inHand = w.pc.inHand) (clients : u.clientInfos = w.clientInfos)
    (quiet : ∀ j info, a ≠ .taskEmplace j info) : Passing s a s' := by
  refine .other stored ?_ quiet
  rw [State.holdings, workers]
  exact map_set_same Worker.holdings worker (by rw [Worker.holdings, hand, clients]; rfl)

theorem Move.passing (m : Move s a s') : Passing s a s' := by
  cases m
  case startWorker ok i w _ worker =>
    refine .keep worker rfl rfl ?_ (w.clientInfos_start ok) (by simp)
    rcases w.pc_start ok with same | ⟨unstarted, top⟩
    · rw [same]
    · rw [unstarted, top]
      rfl
  case pop i w info rest worker pc front =>
    refine .pop front (by rw [holdings_getElem? worker, Worker.holdings, pc]; rfl) ?_
    simp [State.holdings, State.goto, State.setWorker, List.map_set, Worker.holdings, Pc.inHand]
  case record i w info worker pc =>
    refine .record rfl (by rw [holdings_getElem? worker, Worker.holdings, pc]; rfl)
      (mem_keys_insert w info) ?_
    simp [State.holdings, State.goto, State.setWorker, List.map_set, Worker.holdings, Pc.inHand]
  case taskEmplace => exact .emplace rfl rfl
  case enter | startedAll | store | create | setStarted | popEmpty | divideByZero | taskLock |
      taskUnlock =>
    exact .other rfl rfl (by simp)
  all_goals
    have worker := ‹s.workers[_]? = some _›
    have pc := ‹Worker.pc _ = _›
    exact .keep worker rfl rfl (by rw [pc]; rfl) rfl (by simp)

/-! ## Workers deal with their own clients -/

/-- Every registered descriptor is that of a recorded client, and so is every one that the worker
handles, but for the popped client. -/
structure Worker.Owns (w : Worker) : Prop where
  polled : ∀ e ∈ w.poller, w.records e.fd = true
  handled : ∀ fd ∈ w.pc.fds, w.records fd = true ∨ w.pc.inHand = some fd

def OwnClients (s : State) : Prop := ∀ w ∈ s.workers, w.Owns

theorem OwnClients.constructed (n : ℕ) : OwnClients (.constructed n) := by
  intro w hw
  obtain rfl : w = .constructed := List.eq_of_mem_replicate hw
  exact ⟨by simp [Worker.constructed], by simp [Worker.constructed, Pc.fds]⟩

/-- A worker goes on with the same clients, and handles no further ones. -/
theorem Worker.Owns.goto {w : Worker} (h : w.Owns) {pc : Pc} (none_ : w.pc.inHand = none)
    (fewer : ∀ fd ∈ pc.fds, fd ∈ w.pc.fds) : Worker.Owns { w with pc := pc } where
  polled := h.polled
  handled fd hfd := by
    rcases h.handled fd (fewer fd hfd) with recorded | inHand
    · exact .inl recorded
    · simp [none_] at inHand

theorem Worker.Owns.start {w : Worker} (h : w.Owns) (ok : Bool) : (w.start ok).Owns := by
  unfold Worker.start
  split_ifs with fresh
  · exact h.goto (by rw [fresh.1]; rfl) (by simp [Pc.fds])
  · exact h

theorem Worker.Owns.record {w : Worker} (h : w.Owns) (info : ClientInfo) :
    Worker.Owns { w.insert info with pc := .register info } where
  polled e he := by
    rw [w.poller_insert info] at he
    exact (w.records_insert info e.fd).mpr (.inl (h.polled e he))
  handled fd hfd := by
    obtain rfl := List.mem_singleton.mp hfd
    exact .inl ((w.records_insert info _).mpr (.inr rfl))

theorem Worker.Owns.register {w : Worker} (h : w.Owns) {info : ClientInfo}
    (pc : w.pc = .register info) (resources : Bool) :
    Worker.Owns { w.addEvent info resources with pc := .unlock } where
  polled e he := by
    rcases mem_poller_addEvent he with old | new
    · exact h.polled e old
    · rcases h.handled info.eplev.fd (by rw [pc]; exact List.mem_singleton.mpr rfl) with
        recorded | inHand
      · rw [new]
        exact recorded
      · simp [pc, Pc.inHand] at inHand
  handled := by simp [Pc.fds]

/-- The events that `epoll_wait` returns name registered descriptors. -/
theorem Worker.Owns.poll {w : Worker} (h : w.Owns) {events : List EpollEvent}
    (registered : ∀ e ∈ events, w.poller.registered e.fd = true) :
    Worker.Owns { w with pc := .handle events } where
  polled := h.polled
  handled fd hfd := by
    obtain ⟨e, he, rfl⟩ := List.mem_map.mp hfd
    obtain ⟨e', he', same⟩ := List.any_eq_true.mp (registered e he)
    exact .inl ((eq_of_beq same : e'.fd = e.fd) ▸ h.polled e' he')

theorem OwnClients.step (h : OwnClients s) (m : Move s a s')
    (reports : ∀ i events w, a = .poll i events → s.workers[i]? = some w →
      ∀ e ∈ events, w.poller.registered e.fd = true) : OwnClients s' := by
  have own {i : ℕ} {w : Worker} (worker : s.workers[i]? = some w) : w.Owns :=
    h w (List.mem_of_getElem? worker)
  have update {i : ℕ} {u : Worker} (workers : s'.workers = s.workers.set i u) (owns : u.Owns) :
      OwnClients s' := by
    intro v hv
    rw [workers] at hv
    rcases List.mem_or_eq_of_mem_set hv with old | rfl
    · exact h v old
    · exact owns
  cases m
  case startWorker worker => exact update rfl ((own worker).start _)
  case pop i w info rest worker pc front =>
    refine update rfl ⟨(own worker).polled, fun fd hfd => .inr ?_⟩
    rw [List.mem_singleton.mp hfd]
    rfl
  case record i w info worker pc => exact update rfl ((own worker).record info)
  case register worker pc => exact update rfl ((own worker).register pc _)
  case poll i events w wttme worker pc =>
    exact update rfl ((own worker).poll (reports i events w rfl worker))
  case handleIn | handleOther | readEnd | read | hangup | noHangup =>
    have worker := ‹s.workers[_]? = some _›
    have pc := ‹Worker.pc _ = _›
    refine update rfl ((own worker).goto (by rw [pc]; rfl) ?_)
    rw [pc]
    simp +contextual [Pc.fds]
  case enter | startedAll | store | create | setStarted | popEmpty | divideByZero | taskLock |
      taskEmplace | taskUnlock =>
    exact h
  all_goals
    have worker := ‹s.workers[_]? = some _›
    have pc := ‹Worker.pc _ = _›
    exact update rfl ((own worker).goto (by rw [pc]; rfl) (by simp [Pc.fds]))

/-- No descriptor leaves a poller. -/
theorem Move.registered {i : ℕ} {w : Worker} {fd : Int} (m : Move s a s')
    (worker : s.workers[i]? = some w) (registered : w.poller.registered fd = true) :
    ∃ w', s'.workers[i]? = some w' ∧ w'.poller.registered fd = true := by
  have set {j : ℕ} {v u : Worker} (at_ : s.workers[j]? = some v)
      (workers : s'.workers = s.workers.set j u)
      (grows : v.poller.registered fd = true → u.poller.registered fd = true) :
      ∃ w', s'.workers[i]? = some w' ∧ w'.poller.registered fd = true := by
    rw [workers]
    by_cases mine : j = i
    · subst mine
      obtain rfl := Option.some.inj (at_.symm.trans worker)
      have inside := (List.getElem?_eq_some_iff.mp worker).1
      exact ⟨u, List.getElem?_set_self inside, grows registered⟩
    · exact ⟨w, by rw [List.getElem?_set_ne mine, worker], registered⟩
  cases m
  case startWorker ok j v at_ at' => exact set at' rfl (by rw [v.poller_start]; exact id)
  case record info at' pc => exact set at' rfl (by rw [Worker.poller_insert]; exact id)
  case register resources v info at' pc =>
    exact set at' rfl fun old => (v.registered_addEvent info resources fd).mpr (.inl old)
  case enter | startedAll | store | create | setStarted | popEmpty | divideByZero | taskLock |
      taskEmplace | taskUnlock =>
    exact ⟨w, worker, registered⟩
  all_goals
    have at' := ‹s.workers[_]? = some _›
    exact set at' rfl id

end EpollServer.WorkerPool
