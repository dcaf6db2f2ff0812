import EpollServer.Server.Counting
import EpollServer.WorkerPool.Reports

/-!
# Bytes left unread in a socket

An edge-triggered descriptor is reported when it is registered and already readable, and after that
only when bytes or the end of the stream arrive. `handle_epollin` makes one `read` of at most
`BUFSIZ` bytes for each report, as the task of `tcp_worker_pool::submit` does once before the
registration. What a `read` leaves behind waits until the peer sends again.

`Watched` is the server with the edges of the workers' pollers: what each of them has to report,
and how many bytes had arrived on a descriptor when it was last reported.
-/
namespace EpollServer.Server

open Library
open WorkerPool (Turn Pc)

/-- `read` returns at once. -/
def Connection.readable (c : Connection) : Bool := 0 < c.unread || c.closed || c.reset

/-- `read(fd, buf, BUFSIZ)` returns what there is, up to `BUFSIZ` bytes. -/
def Connection.takes (c : Connection) (n : Int) : Bool := c.unread = 0 || n = min c.unread bufsiz

namespace State

def watches (s : State) (i : ℕ) (fd : Int) : Bool := s.workers.workers[i]?.any (·.watches fd)

/-- The bytes that the peer has sent, and those that `read` has returned. -/
def received (s : State) (fd : Int) : ℕ := (s.connectionOf fd).elim 0 Connection.received

def taken (s : State) (fd : Int) : ℕ := (s.connectionOf fd).elim 0 Connection.taken

/-- Bytes or the end of the stream arrive on the descriptor. -/
def arrives (s : State) (fd : Int) : Act → Bool
  | .peer k _ => s.connections[k]?.any (·.fd == some fd)
  | _ => false

end State

/-- The poller of worker `i` reports the descriptor. -/
def Act.reports (i : ℕ) (fd : Int) : Act → Bool
  | .poll j events => i == j && events.any (·.fd == fd)
  | _ => false

/-- After the step the poller of worker `i` has something to report of the descriptor. -/
def news (s s' : State) (a : Act) (i : ℕ) (fd : Int) : Bool :=
  s'.watches i fd &&
    (s.arrives fd a || !s.watches i fd && (s'.connectionOf fd).any (·.readable))

structure Watched where
  server : State
  /-- The poller of worker `i` has a report of the descriptor outstanding. -/
  due : ℕ → Int → Bool
  /-- The bytes that had arrived on the descriptor when worker `i` last got a report of it. -/
  seen : ℕ → Int → ℕ

def Watched.listening (n : ℕ) : Watched := ⟨.listening n, fun _ _ => false, fun _ _ => 0⟩

/-- What the kernel may answer: `epoll_wait` reports descriptors with a report outstanding, each
once, and `read` returns what there is. -/
def Watched.answers (t : Watched) : Act → Bool
  | .taskRead i n =>
    match t.server.pool.running i with
    | some ⟨some c, _⟩ => (t.server.connectionOf c.info.eplev.fd).all (·.takes n)
    | _ => true
  | .poll i events =>
    (events.map EpollEvent.fd).Nodup &&
      events.all fun e => t.due i e.fd && hasEvent e.events epollIn
  | .read i n =>
    match t.server.workers.workers[i]?.map WorkerPool.Worker.pc with
    | some (.reading event _) => (t.server.connectionOf event.fd).all (·.takes n)
    | _ => true
  | _ => true

def watch (cpuCore : Int) (t : Watched) (a : Act) : Option Watched :=
  if t.answers a then
    (step cpuCore t.server a).map fun s =>
      { server := s
        due := fun i fd => t.due i fd && !a.reports i fd || news t.server s a i fd
        seen := fun i fd => if a.reports i fd then t.server.received fd else t.seen i fd }
  else none

/-- When worker `i` has made its `read` for the last report of a descriptor and no report is
outstanding, no byte that had arrived before that report is unread. -/
def AllRead (t : Watched) : Prop :=
  ∀ (i : ℕ) w fd, t.server.workers.workers[i]? = some w →
    fd ∉ w.pc.unhandled.map EpollEvent.fd → t.due i fd = false →
      t.seen i fd ≤ t.server.taken fd

/-- When a worker is about to `read` and nothing more has arrived since the report, at most
`BUFSIZ` of the bytes that had arrived before it are unread. -/
def FitsBuffer (t : Watched) : Act → Prop
  | .read i _ => ∀ w event rest, t.server.workers.workers[i]? = some w →
      w.pc = .reading event rest → t.due i event.fd = false →
        t.seen i event.fd ≤ t.server.taken event.fd + bufsiz
  | _ => True

/-- What the steps keep: no more bytes were reported than have arrived, and the events that a
worker has to handle are those of different descriptors and have `EPOLLIN`. -/
structure Watching (t : Watched) : Prop where
  counting : Counting t.server
  arrived : ∀ i fd, t.seen i fd ≤ t.server.received fd
  distinct : ∀ (i : ℕ) w, t.server.workers.workers[i]? = some w →
    (w.pc.unhandled.map EpollEvent.fd).Nodup
  epollin : ∀ (i : ℕ) w, t.server.workers.workers[i]? = some w →
    ∀ e ∈ w.pc.unhandled, hasEvent e.events epollIn = true

variable {cpuCore : Int} {s s' : State} {a : Act} {t t' : Watched} {n : ℕ} {as : List Act}

/-! ## Bytes only accumulate -/

theorem find?_set {α : Type*} {p : α → Bool} {l : List α} {k : ℕ} {c c' d : α}
    (hc : l[k]? = some c) (same : p c' = p c) (hd : l.find? p = some d) :
    ∃ d', (l.set k c').find? p = some d' ∧ (d' = d ∨ d = c ∧ d' = c') := by
  induction l generalizing k with
  | nil => cases hd
  | cons x xs ih =>
    cases k with
    | zero =>
      obtain rfl : x = c := by simpa using hc
      rw [List.set_cons_zero, List.find?_cons, same]
      cases hp : p x with
      | true =>
        obtain rfl : x = d := by simpa [hp] using hd
        exact ⟨c', rfl, .inr ⟨rfl, rfl⟩⟩
      | false => exact ⟨d, by simpa [hp] using hd, .inl rfl⟩
    | succ k =>
      rw [List.set_cons_succ, List.find?_cons]
      cases hp : p x with
      | true => exact ⟨d, by simpa [hp] using hd, .inl rfl⟩
      | false => exact ih (by simpa using hc) (by simpa [hp] using hd)

theorem connectionOf_consume (s : State) (fd n fd' : Int) :
    (s.consume fd n).connectionOf fd' = (s.connectionOf fd').map fun c =>
      if c.fd == some fd then { c with taken := c.taken + n.toNat } else c := by
  unfold State.connectionOf State.consume
  rw [List.find?_map]
  congr 2
  funext c
  simp only [Function.comp_apply]
  split_ifs <;> rfl

theorem Connection.peer_received {c c' : Connection} {p : PeerAct} (h : c.peer p = some c') :
    c.received ≤ c'.received ∧ c.taken = c'.taken := by
  unfold peer at h
  split at h <;> split_ifs at h <;> obtain rfl := Option.some.inj h
  · exact ⟨Nat.le_add_right _ _, rfl⟩
  · exact ⟨le_rfl, rfl⟩
  · exact ⟨le_rfl, rfl⟩

theorem fd_of_connectionOf {fd : Int} {c : Connection} (hc : s.connectionOf fd = some c) :
    c.fd = some fd := by
  have same := List.find?_some hc
  simpa using same

theorem isOpen_of_connectionOf {fd : Int} {c : Connection} (hc : s.connectionOf fd = some c) :
    s.isOpen fd = true := by
  have mem : c ∈ s.connections := List.mem_of_find?_eq_some hc
  simpa [State.isOpen] using ⟨c, mem, fd_of_connectionOf hc⟩

/-- An open descriptor stays open, and no bytes are taken back. -/
theorem Move.connectionOf (m : Move cpuCore s a s') (counting : Counting s) {fd : Int}
    {c : Connection} (hc : s.connectionOf fd = some c) :
    ∃ c', s'.connectionOf fd = some c' ∧ c.received ≤ c'.received ∧ c.taken ≤ c'.taken := by
  have set {k : ℕ} {d d' : Connection} (connections : s'.connections = s.connections.set k d')
      (connection : s.connections[k]? = some d) (same : (d'.fd == some fd) = (d.fd == some fd))
      (received : d.received ≤ d'.received) (taken : d.taken ≤ d'.taken) :
      ∃ c', s'.connectionOf fd = some c' ∧ c.received ≤ c'.received ∧ c.taken ≤ c'.taken := by
    obtain ⟨c', found, rfl | ⟨rfl, rfl⟩⟩ := find?_set connection same hc
    · refine ⟨_, ?_, le_rfl, le_rfl⟩
      rwa [State.connectionOf, connections]
    · refine ⟨_, ?_, received, taken⟩
      rwa [State.connectionOf, connections]
  -- The descriptor that `accept` returns is not open, and its connection had none.
  have accepted {k : ℕ} {rest : List ℕ} {d : Connection} {new : Int}
      (queue : s.acceptQueue = k :: rest) (connection : s.connections[k]? = some d)
      (closed : s.isOpen new = false) :
      (some new == some fd) = (d.fd == some fd) := by
    obtain ⟨d', hd, none_⟩ := counting.waiting k (by simp [queue])
    obtain rfl : d = d' := by simpa [connection] using hd
    have other : new ≠ fd := by
      rintro rfl
      simp [isOpen_of_connectionOf hc] at closed
    simp [none_, other]
  have consumed {u : State} {fd' n : Int} (after : s' = u.consume fd' n)
      (connections : u.connections = s.connections) :
      ∃ c', s'.connectionOf fd = some c' ∧ c.received ≤ c'.received ∧ c.taken ≤ c'.taken := by
    have before : u.connectionOf fd = some c := by
      rw [← hc, State.connectionOf, connections]
      rfl
    rw [after, connectionOf_consume, before, Option.map_some]
    split_ifs
    · exact ⟨_, rfl, le_rfl, Nat.le_add_right _ _⟩
    · exact ⟨_, rfl, le_rfl, le_rfl⟩
  cases m
  case connect port =>
    refine ⟨c, ?_, le_rfl, le_rfl⟩
    have found : s.connections.find? (·.fd == some fd) = some c := hc
    simp [State.connectionOf, List.find?_append, found]
  case peer k p d d' connection change =>
    have bytes := Connection.peer_received change
    exact set rfl connection (by rw [Connection.fd_peer change]) bytes.1 bytes.2.le
  case accept queue connection _ new | acceptZero queue connection new =>
    exact set rfl connection (accepted queue connection new) le_rfl le_rfl
  case taskRead | read => exact consumed rfl rfl
  all_goals exact ⟨c, hc, le_rfl, le_rfl⟩

theorem Move.bytes (m : Move cpuCore s a s') (counting : Counting s) (fd : Int) :
    s.received fd ≤ s'.received fd ∧ s.taken fd ≤ s'.taken fd := by
  unfold State.received State.taken
  cases hc : s.connectionOf fd with
  | none => exact ⟨Nat.zero_le _, Nat.zero_le _⟩
  | some c =>
    obtain ⟨c', hc', received, taken⟩ := m.connectionOf counting hc
    rw [hc']
    exact ⟨received, taken⟩

theorem taken_consume {fd n : Int} {c : Connection} (hc : s.connectionOf fd = some c) :
    (s.consume fd n).taken fd = c.taken + n.toNat := by
  simp [State.taken, connectionOf_consume, hc, fd_of_connectionOf hc]

theorem Connection.toNat_le_of_mayRead {c : Connection} {n : Int} (h : c.mayRead n = true) :
    n.toNat ≤ bufsiz := by
  unfold mayRead at h
  split_ifs at h
  · omega
  · omega
  · simp at h
    omega

/-- A `read` returns the first bytes of the buffer, as far as they have arrived. -/
theorem Connection.le_of_takes {c : Connection} {n : Int} (h : c.takes n = true) {k : ℕ}
    (arrived : k ≤ c.received) (fits : k ≤ c.taken + bufsiz) : k ≤ c.taken + n.toNat := by
  unfold takes unread at h
  rcases Bool.or_eq_true_iff.mp h with none_ | all
  · have := of_decide_eq_true none_
    omega
  · have := of_decide_eq_true all
    omega

/-! ## The events of a worker -/

theorem Move.turn (m : Move cpuCore s a s') {i : ℕ} {w' : WorkerPool.Worker}
    (worker' : s'.workers.workers[i]? = some w') :
    ∃ w, s.workers.workers[i]? = some w ∧
      Turn (fun events => a = .poll i events) (fun n => a = .read i n) w.pc w'.pc := by
  have lift {b : WorkerPool.Act} {workers : WorkerPool.State}
      (step : WorkerPool.step s.workers b = some workers) (after : s'.workers = workers)
      (poll : ∀ events, b = .poll i events ↔ a = .poll i events)
      (read : ∀ n, b = .read i n → a = .read i n) :
      ∃ w, s.workers.workers[i]? = some w ∧
        Turn (fun events => a = .poll i events) (fun n => a = .read i n) w.pc w'.pc := by
    obtain ⟨w, worker, turn⟩ := (WorkerPool.Move.of_step step).turn (after ▸ worker')
    exact ⟨w, worker, turn.imp poll read⟩
  cases m
  case startWorkers step | taskLock step _ | taskEmplace step _ | taskUnlock step _ |
      worker step | register step | poll step | read step =>
    exact lift step rfl (by simp) (by simp)
  all_goals exact ⟨w', worker', .keep (by simp) rfl⟩

/-! ## One step -/

theorem watch_eq (h : watch cpuCore t a = some t') :
    t.answers a = true ∧ step cpuCore t.server a = some t'.server ∧
      (∀ i fd, t'.due i fd =
        (t.due i fd && !a.reports i fd || news t.server t'.server a i fd)) ∧
      ∀ i fd, t'.seen i fd = if a.reports i fd then t.server.received fd else t.seen i fd := by
  obtain ⟨answers, h⟩ := Option.ite_none_right_eq_some.mp h
  obtain ⟨s, hs, rfl⟩ := Option.map_eq_some_iff.mp h
  exact ⟨answers, hs, fun _ _ => rfl, fun _ _ => rfl⟩

theorem reports_iff {i : ℕ} {fd : Int} :
    a.reports i fd = true ↔ ∃ events, a = .poll i events ∧ fd ∈ events.map EpollEvent.fd := by
  cases a with
  | poll j events =>
    constructor
    · intro h
      obtain ⟨mine, reported⟩ := Bool.and_eq_true_iff.mp h
      obtain rfl : i = j := eq_of_beq mine
      exact ⟨events, rfl, by simpa using reported⟩
    · rintro ⟨_, same, mem⟩
      obtain ⟨rfl, rfl⟩ := Act.poll.inj same
      simpa [Act.reports] using mem
  | _ => simp [Act.reports]

/-- The `read` of a worker. -/
theorem read_eq {i : ℕ} {n : Int} {w : WorkerPool.Worker} {event : EpollEvent}
    {rest : List EpollEvent} (hw : watch cpuCore t (.read i n) = some t')
    (worker : t.server.workers.workers[i]? = some w) (pc : w.pc = .reading event rest) :
    ∃ c, t.server.connectionOf event.fd = some c ∧ c.mayRead n = true ∧ c.takes n = true ∧
      t'.server.taken event.fd = c.taken + n.toNat ∧
      t'.server.workers.workers[i]? = some { w with pc := .hangup event rest } := by
  obtain ⟨answers, hs, -, -⟩ := watch_eq hw
  generalize hs' : t'.server = s' at hs ⊢
  cases Move.of_step hs with
  | read i n worker' pc' connection read step =>
    obtain rfl := Option.some.inj (worker.symm.trans worker')
    obtain ⟨rfl, rfl⟩ : event = _ ∧ rest = _ := Pc.reading.inj (pc.symm.trans pc')
    refine ⟨_, connection, read, ?_, taken_consume connection,
      WorkerPool.worker_of_read step worker pc⟩
    simpa [Watched.answers, worker, pc, connection] using answers

theorem Watching.listening (n : ℕ) : Watching (.listening n) := by
  have idle (i : ℕ) (w : WorkerPool.Worker)
      (worker : (Watched.listening n).server.workers.workers[i]? = some w) :
      w.pc.unhandled = [] := by
    have constructed : w = .constructed :=
      List.eq_of_mem_replicate (List.mem_of_getElem? worker)
    rw [constructed]
    rfl
  refine ⟨.listening n, fun i fd => Nat.zero_le _, fun i w worker => ?_, fun i w worker => ?_⟩
  · rw [idle i w worker]
    exact List.nodup_nil
  · rw [idle i w worker]
    intro e he
    cases he

theorem Watching.not_quiet (h : Watching t) {i : ℕ} {w : WorkerPool.Worker} {event : EpollEvent}
    {rest : List EpollEvent} (worker : t.server.workers.workers[i]? = some w)
    (first : w.pc.unhandled = event :: rest) : hasEvent event.events epollIn ≠ false := by
  rw [h.epollin i w worker event (by simp [first])]
  decide

theorem Watching.step (h : Watching t) (hw : watch cpuCore t a = some t') : Watching t' := by
  obtain ⟨answers, hs, -, seen⟩ := watch_eq hw
  have m := Move.of_step hs
  refine ⟨h.counting.step m, fun i fd => ?_, fun i w' worker' => ?_, fun i w' worker' => ?_⟩
  · have received := (m.bytes h.counting fd).1
    rw [seen]
    split_ifs
    · exact received
    · exact (h.arrived i fd).trans received
  · obtain ⟨w, worker, turn⟩ := m.turn worker'
    have distinct := h.distinct i w worker
    cases turn with
    | keep _ same => rwa [same]
    | skip first quiet => exact absurd quiet (h.not_quiet worker first)
    | read n act pc left =>
      rw [pc] at distinct
      rw [left]
      exact (List.nodup_cons.mp distinct).2
    | poll act idle left =>
      subst act
      rw [left]
      exact of_decide_eq_true (Bool.and_eq_true_iff.mp answers).1
  · obtain ⟨w, worker, turn⟩ := m.turn worker'
    have epollin := h.epollin i w worker
    cases turn with
    | keep _ same => rwa [same]
    | skip first quiet => exact absurd quiet (h.not_quiet worker first)
    | read n act pc left =>
      rw [pc] at epollin
      rw [left]
      exact fun e he => epollin e (List.mem_cons_of_mem _ he)
    | poll act idle left =>
      subst act
      rw [left]
      intro e he
      have reported := List.all_eq_true.mp (Bool.and_eq_true_iff.mp answers).2 e he
      exact (Bool.and_eq_true_iff.mp reported).2

/-! ## Whole runs -/

/-- What is left after a `read` is left for good, so nothing may be. -/
theorem Watching.allRead (h : Watching t) (hw : watch cpuCore t a = some t') (all : AllRead t)
    (fits : FitsBuffer t a) : AllRead t' := by
  obtain ⟨-, hs, due, seen⟩ := watch_eq hw
  have m := Move.of_step hs
  intro i w' fd worker' handled none_
  obtain ⟨w, worker, turn⟩ := m.turn worker'
  have unreported : a.reports i fd = false := by
    refine Bool.eq_false_iff.mpr fun reported => ?_
    obtain ⟨events, rfl, mem⟩ := reports_iff.mp reported
    cases turn with
    | keep other _ => exact other events rfl
    | skip first quiet => exact h.not_quiet worker first quiet
    | read n act _ _ => cases act
    | poll act idle left =>
      obtain ⟨-, rfl⟩ := Act.poll.inj act
      exact handled (left ▸ mem)
  have notDue : t.due i fd = false := by
    have := due i fd
    simp_all
  rw [seen, unreported, if_neg Bool.false_ne_true]
  have before (handled : fd ∉ w.pc.unhandled.map EpollEvent.fd) :
      t.seen i fd ≤ t'.server.taken fd :=
    (all i w fd worker handled notDue).trans (m.bytes h.counting fd).2
  cases turn with
  | keep _ same => exact before (same ▸ handled)
  | skip first quiet => exact absurd quiet (h.not_quiet worker first)
  | read n act pc left =>
    subst act
    rename_i event rest
    by_cases mine : fd = event.fd
    · subst mine
      obtain ⟨c, connection, -, takes, taken, -⟩ := read_eq hw worker pc
      have arrived := h.arrived i event.fd
      have fits := fits w event rest worker pc notDue
      simp only [State.received, State.taken, connection] at arrived fits
      rw [taken]
      exact Connection.le_of_takes takes arrived fits
    · refine before ?_
      rw [left] at handled
      rw [pc]
      simpa [Pc.unhandled, mine] using handled
  | poll act idle left => exact before (by simp [idle])

/-- A `read` that leaves nothing of the last report behind was about at most `BUFSIZ` bytes. -/
theorem Watching.fitsBuffer (h : Watching t) (hw : watch cpuCore t a = some t')
    (all : AllRead t') : FitsBuffer t a := by
  cases a with
  | read i n =>
    intro w event rest worker pc notDue
    obtain ⟨-, -, due, seen⟩ := watch_eq hw
    obtain ⟨c, connection, read, -, taken, worker'⟩ := read_eq hw worker pc
    have distinct := h.distinct i w worker
    rw [pc] at distinct
    have handled : event.fd ∉ (Pc.hangup event rest).unhandled.map EpollEvent.fd :=
      (List.nodup_cons.mp distinct).1
    have watches : t'.server.watches i event.fd = t.server.watches i event.fd := by
      rw [State.watches, State.watches, worker, worker']
      rfl
    have noNews : t'.due i event.fd = false := by
      rw [due, notDue, news, watches]
      cases t.server.watches i event.fd <;> rfl
    have left := all i _ event.fd worker' handled noNews
    have bound := Connection.toNat_le_of_mayRead read
    have before : t.server.taken event.fd = c.taken := by rw [State.taken, connection]; rfl
    have same : t'.seen i event.fd = t.seen i event.fd := by rw [seen]; rfl
    omega
  | _ => trivial

/-- Along a run no byte that had arrived before a report is left unread once the report is handled
and no new one is outstanding, if and only if at each `read` of a worker with no new report
outstanding at most `BUFSIZ` of those bytes are unread. -/
theorem allRead_iff_fitsBuffer (h : run (watch cpuCore) (.listening n) as = some t) :
    EveryState (watch cpuCore) AllRead (.listening n) as ↔
      EveryStep (watch cpuCore) FitsBuffer (.listening n) as := by
  refine everyState_iff_everyStep (I := Watching) (.listening n)
    (fun _ _ _ watching hw => watching.step hw) ?_ ?_ ?_ h
  · intro i w fd _ _ _
    exact Nat.zero_le _
  · intro t a t' watching all fits hw
    exact watching.allRead hw all fits
  · intro t a t' watching hw all
    exact watching.fitsBuffer hw all

/-- The client sends `k` bytes at once. The task reads the first 8192 of them, and the worker, to
which the registration reports the rest, reads `n` more. -/
def oneMessage (k n : ℕ) : List Act :=
  boot ++ ([.thread 0, .thread 0, .thread 0, .connect 1, .peer 0 (.send k), .report epollIn,
    .event, .accept (.descriptor 5), .submit [], .count, .thread 0, .taskRead 0 8192, .task 0,
    .task 0, .task 0, .worker 0, .worker 0, .worker 0, .worker 0, .worker 0, .register 0 true,
    .worker 0, .worker 0, .worker 0, .worker 0, .poll 0 [⟨epollIn, 5⟩], .worker 0, .read 0 n,
    .worker 0, .worker 0, .worker 0] : List Act)

/-- Two buffers and one byte arrive at once: two `read`s leave the last byte in the socket, and the
worker goes on to poll without a report of it to come. -/
theorem twoBuffers_leave_byte :
    ∃ t, run (watch 1) (.listening 2) (oneMessage 16385 8192) = some t ∧ t.due 0 5 = false ∧
      t.seen 0 5 = 16385 ∧ t.server.taken 5 = 16384 ∧ ¬ AllRead t := by
  have end_ : (run (watch 1) (.listening 2) (oneMessage 16385 8192)).map
      (fun t => (t.due 0 5, t.seen 0 5, t.server.taken 5,
        t.server.workers.workers[0]?.map WorkerPool.Worker.pc)) =
      some (false, 16385, 16384, some .top) := by decide +kernel
  obtain ⟨t, ht, he⟩ := Option.map_eq_some_iff.mp end_
  simp only [Prod.mk.injEq] at he
  obtain ⟨notDue, seen, taken, top⟩ := he
  obtain ⟨w, worker, pc⟩ := Option.map_eq_some_iff.mp top
  refine ⟨t, ht, notDue, seen, taken, fun all => ?_⟩
  have := all 0 w 5 worker (by simp [pc, Pc.unhandled]) notDue
  omega

theorem allRead_iff_fitsBuffer_smallMessage :
    ∃ t, run (watch 1) (.listening 2) (oneMessage 9000 808) = some t ∧ t.due 0 5 = false ∧
      t.seen 0 5 = 9000 ∧ t.server.taken 5 = 9000 ∧
      (EveryState (watch 1) AllRead (.listening 2) (oneMessage 9000 808) ↔
        EveryStep (watch 1) FitsBuffer (.listening 2) (oneMessage 9000 808)) := by
  have end_ : (run (watch 1) (.listening 2) (oneMessage 9000 808)).map
      (fun t => (t.due 0 5, t.seen 0 5, t.server.taken 5)) = some (false, 9000, 9000) := by
    decide +kernel
  obtain ⟨t, ht, he⟩ := Option.map_eq_some_iff.mp end_
  simp only [Prod.mk.injEq] at he
  obtain ⟨notDue, seen, taken⟩ := he
  exact ⟨t, ht, notDue, seen, taken, allRead_iff_fitsBuffer ht⟩

end EpollServer.Server
