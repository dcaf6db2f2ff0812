import EpollServer.WorkerPool.Storage

/-!
# Disconnects and what is left of the client

A worker learns of a disconnect in two places, from a `read` that returns 0 and from `EPOLLHUP` or
`EPOLLERR`, and calls `handle_disconnect` in both. All statements of that function are commented
out: it erases no client, removes no descriptor from the poller, and closes none.

The pool is observed together with the disconnects that were handled, the descriptors that were
closed, and what the workers had of the other clients around each of them.
-/
namespace EpollServer.WorkerPool

open Library

/-- The descriptors that `handle_disconnect` closes: `DISCONNECT` is one of the statements that are
commented out. -/
def Worker.closes (_w : Worker) (_clientSockfd : Int) : List Int := []

/-- The call of `handle_disconnect` in a step, with the worker and the descriptor. -/
def disconnects (s : State) : Act → Option (ℕ × Int)
  | .read i n => s.workers[i]?.bind fun w =>
    match w.pc with
    | .reading event _ => if n = 0 then some (i, event.fd) else none
    | _ => none
  | .worker i => s.workers[i]?.bind fun w =>
    match w.pc with
    | .hangup event _ =>
      if hasEvent event.events (epollHup ||| epollErr) then some (i, event.fd) else none
    | _ => none
  | _ => none

/-- What a worker has of its clients: its map and its poller. -/
abbrev Clients := List (Int × ClientInfo) × Interest

def Worker.clients (w : Worker) : Clients := (w.clientInfos, w.poller)

/-- The part about the clients with another descriptor. -/
def Clients.besides (fd : Int) (c : Clients) : Clients :=
  (c.1.filter (·.1 != fd), c.2.filter (·.fd != fd))

def State.besides (s : State) (fd : Int) : List Clients :=
  s.workers.map fun w => Clients.besides fd w.clients

/-- The pool with the history of its disconnects. -/
structure Observed where
  state : State
  handled : List (ℕ × Int)
  closed : List Int
  /-- The other clients of all workers, before and after each disconnect was handled. -/
  beside : List (List Clients × List Clients)

def Observed.constructed (n : ℕ) : Observed := ⟨.constructed n, [], [], []⟩

def observe (o : Observed) (a : Act) : Option Observed :=
  (step o.state a).map fun s =>
    match disconnects o.state a with
    | none => { o with state := s }
    | some (i, fd) =>
      { state := s
        handled := o.handled ++ [(i, fd)]
        closed := o.closed ++ (o.state.workers[i]?.map (·.closes fd)).getD []
        beside := o.beside ++ [(o.state.besides fd, s.besides fd)] }

/-- Every disconnect that worker `i` has handled is cleaned up: the client is neither recorded nor
registered, and its descriptor was closed exactly once; no other descriptor was closed, and the
other clients are recorded and registered as they were. -/
structure CleanedUp (o : Observed) : Prop where
  handled : ∀ i fd, (i, fd) ∈ o.handled → ∃ w, o.state.workers[i]? = some w ∧
    w.clientInfos.any (·.1 == fd) = false ∧ w.poller.registered fd = false ∧
    o.closed.count fd = 1
  others : ∀ fd ∈ o.closed, ∃ i, (i, fd) ∈ o.handled
  untouched : ∀ before after, (before, after) ∈ o.beside → after = before

variable {o o' : Observed} {s s' : State} {a : Act}

theorem step_of_observe (h : observe o a = some o') : step o.state a = some o'.state := by
  obtain ⟨s, hs, he⟩ := Option.map_eq_some_iff.mp h
  rw [hs, ← he]
  split <;> rfl

/-- An enabled step calls `handle_disconnect` in one of the two places. -/
theorem disconnects_eq_none (h : step s a = some s') :
    disconnects s a = none ↔ ¬ HandlesDisconnect s a := by
  cases Move.of_step h
  case readEnd i w event rest worker pc => simp [disconnects, HandlesDisconnect, worker, pc]
  case read i n w event rest worker pc more =>
    simp [disconnects, HandlesDisconnect, worker, pc, more]
  case hangup i w event rest worker pc up | noHangup i w event rest worker pc up =>
    simp [disconnects, HandlesDisconnect, worker, pc, up]
  all_goals simp [disconnects, HandlesDisconnect, *]

/-! ## What is left of the client -/

/-- A step that handles a disconnect leaves the maps and the pollers of all workers as they are, for
the client as for all others. -/
theorem clients_of_disconnect (h : step s a = some s') (handles : HandlesDisconnect s a) :
    s'.workers.map Worker.clients = s.workers.map Worker.clients := by
  cases Move.of_step h
  case readEnd i w event rest worker pc | hangup i w event rest worker pc up |
      noHangup i w event rest worker pc up =>
    exact map_set_same Worker.clients worker rfl
  case read i n w event rest worker pc more => exact absurd handles more
  all_goals first
    | exact absurd handles id
    | (have worker := ‹s.workers[_]? = some _›
       exact absurd handles (not_handlesDisconnect worker (by simp [‹Worker.pc _ = _›])))

theorem besides_of_disconnect (h : step s a = some s') (handles : HandlesDisconnect s a)
    (fd : Int) :
    s'.besides fd = s.besides fd := by
  have := congrArg (List.map (Clients.besides fd)) (clients_of_disconnect h handles)
  simpa [State.besides, Function.comp_def] using this

/-- The part of the clean-up that a function without statements does: nothing is closed, and no
other client is touched. -/
structure Harmless (o : Observed) : Prop where
  closed : o.closed = []
  untouched : ∀ before after, (before, after) ∈ o.beside → after = before

theorem Harmless.observe (harmless : Harmless o) (h : observe o a = some o') : Harmless o' := by
  obtain ⟨s, hs, rfl⟩ := Option.map_eq_some_iff.mp h
  split
  · exact ⟨harmless.closed, harmless.untouched⟩
  · next i fd handled =>
    have handles : HandlesDisconnect o.state a := by
      by_contra quiet
      simp [(disconnects_eq_none hs).mpr quiet] at handled
    refine ⟨?_, fun before after mem => ?_⟩
    · simp only [harmless.closed, List.nil_append]
      cases o.state.workers[i]? <;> rfl
    · rcases List.mem_append.mp mem with mem | mem
      · exact harmless.untouched before after mem
      · obtain ⟨rfl, rfl⟩ := Prod.mk.inj (List.mem_singleton.mp mem)
        exact besides_of_disconnect hs handles fd

theorem observe_handled (h : observe o a = some o') :
    o'.handled = o.handled ++ (disconnects o.state a).toList := by
  obtain ⟨s, hs, rfl⟩ := Option.map_eq_some_iff.mp h
  cases disconnects o.state a with
  | none => simp
  | some d => rfl

/-- So a history that is cleaned up is empty. -/
theorem CleanedUp.handled_eq_nil (h : CleanedUp o) (closed : o.closed = []) : o.handled = [] := by
  refine List.eq_nil_iff_forall_not_mem.mpr fun ⟨i, fd⟩ mem => ?_
  obtain ⟨-, -, -, -, once⟩ := h.handled i fd mem
  simp [closed] at once

theorem Harmless.cleanedUp (h : Harmless o) (handled : o.handled = []) : CleanedUp o where
  handled := by simp [handled]
  others := by simp [h.closed]
  untouched := h.untouched

/-- Along a run every handled disconnect is cleaned up, if and only if no step handles one: no
`read` of a worker returns 0, and no worker handles an event with `EPOLLHUP` or `EPOLLERR`. -/
theorem cleanedUp_iff {n : ℕ} {as : List Act} (h : run observe (.constructed n) as = some o) :
    EveryState observe CleanedUp (.constructed n) as ↔
      EveryStep observe (fun o a => ¬ HandlesDisconnect o.state a) (.constructed n) as := by
  have start : Harmless (.constructed n) := ⟨rfl, by simp [Observed.constructed]⟩
  refine everyState_iff_everyStep start ?_ (start.cleanedUp rfl) ?_ ?_ h
  · intro o a o' harmless ho
    exact harmless.observe ho
  · intro o a o' harmless clean quiet ho
    refine (harmless.observe ho).cleanedUp ?_
    rw [observe_handled ho, (disconnects_eq_none (step_of_observe ho)).mpr quiet,
      clean.handled_eq_nil harmless.closed]
    rfl
  · intro o a o' harmless ho clean
    apply (disconnects_eq_none (step_of_observe ho)).mp
    have := clean.handled_eq_nil (harmless.observe ho).closed
    rw [observe_handled ho, List.append_eq_nil_iff] at this
    simpa using this.2

/-- The only worker registers the client with descriptor 5, and its poller reports these events. -/
def clientReports (events : UInt32) : List Act :=
  [.startup true, .startup true, .taskLock 0, .taskEmplace 0 ⟨.null, 0, epollIn, 5⟩, .taskUnlock 0,
   .worker 0, .worker 0, .worker 0, .worker 0, .worker 0, .register 0 true, .worker 0, .worker 0,
   .worker 0, .worker 0, .poll 0 [⟨events, 5⟩], .worker 0]

/-- The client sends 100 bytes. -/
theorem cleanedUp_iff_request :
    ∃ o, run observe (.constructed 1) (clientReports epollIn ++ [.read 0 100, .worker 0]) = some o ∧
      o.handled = [] ∧
      (EveryState observe CleanedUp (.constructed 1)
          (clientReports epollIn ++ [.read 0 100, .worker 0]) ↔
        EveryStep observe (fun o a => ¬ HandlesDisconnect o.state a) (.constructed 1)
          (clientReports epollIn ++ [.read 0 100, .worker 0])) := by
  have end_ : (run observe (.constructed 1)
      (clientReports epollIn ++ [.read 0 100, .worker 0])).map (·.handled) = some [] := by
    decide +kernel
  obtain ⟨o, ho, handled⟩ := Option.map_eq_some_iff.mp end_
  exact ⟨o, ho, handled, cleanedUp_iff ho⟩

/-- The client has closed its connection: one event makes the worker handle the disconnect twice,
and the client stays recorded and registered, and its descriptor open. -/
theorem hangup_not_cleanedUp :
    ∃ o w, run observe (.constructed 1)
        (clientReports (epollIn ||| epollHup) ++ [.read 0 0, .worker 0]) = some o ∧
      o.handled = [(0, 5), (0, 5)] ∧ o.closed = [] ∧ o.state.workers = [w] ∧
      w.clientInfos.any (·.1 == 5) = true ∧ w.poller.registered 5 = true ∧ ¬ CleanedUp o := by
  have end_ : (run observe (.constructed 1)
      (clientReports (epollIn ||| epollHup) ++ [.read 0 0, .worker 0])).map
        (fun o => (o.handled, o.closed, o.state.workers.map fun w =>
          (w.clientInfos.any (·.1 == 5), w.poller.registered 5))) =
      some ([(0, 5), (0, 5)], [], [(true, true)]) := by decide +kernel
  obtain ⟨o, ho, he⟩ := Option.map_eq_some_iff.mp end_
  simp only [Prod.mk.injEq] at he
  obtain ⟨handled, closed, workers⟩ := he
  obtain ⟨w, hw, he⟩ := List.map_eq_singleton_iff.mp workers
  obtain ⟨recorded, registered⟩ := Prod.mk.inj he
  refine ⟨o, w, ho, handled, closed, hw, recorded, registered, fun clean => ?_⟩
  have := clean.handled_eq_nil closed
  simp [handled] at this

end EpollServer.WorkerPool
