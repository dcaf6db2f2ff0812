import EpollServer.Server.Machine

/-!
# What the server counts

`connected_num_` is incremented once for each client that was handed to the worker pool and
nothing ever decrements it: `handle_disconnect` has its statements commented out. So it is the
number of clients accepted so far, and the number of clients still connected only as long as no
disconnect has been handled.

`Counting` is the invariant behind this and behind the bounds on the two queues: at most
`SERVER_MAX_CONNECTION` clients are ever accepted, under different descriptors.
-/
namespace EpollServer.Server

open Library
open WorkerPool (ClientInfo)

/-- Between `accept` and `connected_num_++`. -/
def Acceptor.uncounted : Acceptor → ℕ
  | .submitting _ | .restarting _ | .counting => 1
  | .starting | .polling | .event _ | .accepting | .aborted => 0

/-- The descriptor that was accepted and not yet submitted. -/
def Acceptor.pending : Acceptor → List Int
  | .submitting info | .restarting info => [info.eplev.fd]
  | .starting | .polling | .event _ | .accepting | .counting | .aborted => []

/-- Past the test of `connected_num_` and before its increment. -/
def Acceptor.admitted : Acceptor → Bool
  | .accepting | .submitting _ | .restarting _ | .counting => true
  | .starting | .polling | .event _ | .aborted => false

structure Counting (s : State) : Prop where
  tally : s.connectedNum + s.acceptor.uncounted = s.accepted.length
  bound : s.connectedNum ≤ serverMaxConnection
  room : s.acceptor.admitted = true → s.connectedNum < serverMaxConnection
  pending : s.accepted = s.submitted ++ s.acceptor.pending
  nodup : s.accepted.Nodup
  opened : ∀ fd ∈ s.accepted, s.isOpen fd = true
  waiting : ∀ k ∈ s.acceptQueue, ∃ c, s.connections[k]? = some c ∧ c.fd = none
  distinct : s.acceptQueue.Nodup

variable {cpuCore : Int} {s s' : State} {a : Act}

theorem Counting.listening (n : ℕ) : Counting (.listening n) := by
  constructor <;> simp [State.listening, Acceptor.uncounted, Acceptor.pending, Acceptor.admitted]

theorem isOpen_iff {fd : Int} :
    s.isOpen fd = true ↔
      ∃ (k : ℕ) (c : Connection), s.connections[k]? = some c ∧ c.fd = some fd := by
  simp only [State.isOpen, List.any_eq_true, beq_iff_eq, List.mem_iff_getElem?]
  constructor
  · rintro ⟨c, ⟨k, hk⟩, hc⟩
    exact ⟨k, c, hk, hc⟩
  · rintro ⟨k, c, hk, hc⟩
    exact ⟨c, ⟨k, hk⟩, hc⟩

/-- A change that keeps what is open and what waits. -/
theorem Counting.keep (h : Counting s)
    (keep : ∀ (k : ℕ) (c : Connection), s.connections[k]? = some c →
      ∃ c', s'.connections[k]? = some c' ∧ c'.fd = c.fd)
    (queue : s'.acceptQueue = s.acceptQueue) (num : s'.connectedNum = s.connectedNum)
    (accepted : s'.accepted = s.accepted) (submitted : s'.submitted = s.submitted)
    (uncounted : s'.acceptor.uncounted = s.acceptor.uncounted)
    (pending : s'.acceptor.pending = s.acceptor.pending)
    (room : s'.acceptor.admitted = true → s.connectedNum < serverMaxConnection) :
    Counting s' where
  tally := by rw [num, uncounted, accepted, h.tally]
  bound := num ▸ h.bound
  room := num ▸ room
  pending := by rw [accepted, submitted, pending, h.pending]
  nodup := accepted ▸ h.nodup
  opened fd hfd := by
    obtain ⟨k, c, hk, hc⟩ := isOpen_iff.mp (h.opened fd (accepted ▸ hfd))
    obtain ⟨c', hk', same⟩ := keep k c hk
    exact isOpen_iff.mpr ⟨k, c', hk', same.trans hc⟩
  waiting k hk := by
    obtain ⟨c, hc, none_⟩ := h.waiting k (queue ▸ hk)
    obtain ⟨c', hc', same⟩ := keep k c hc
    exact ⟨c', hc', same.trans none_⟩
  distinct := queue ▸ h.distinct

theorem Connection.fd_peer {c c' : Connection} {p : PeerAct} (h : c.peer p = some c') :
    c'.fd = c.fd := by
  unfold peer at h
  split at h <;> split_ifs at h <;> obtain rfl := Option.some.inj h <;> rfl

theorem consume_getElem? (s : State) (fd n : Int) (k : ℕ) (c : Connection)
    (h : s.connections[k]? = some c) :
    ∃ c', (s.consume fd n).connections[k]? = some c' ∧ c'.fd = c.fd := by
  simp only [State.consume, List.getElem?_map, h, Option.map_some]
  split_ifs
  · exact ⟨_, rfl, rfl⟩
  · exact ⟨_, rfl, rfl⟩

/-- Taking the first connection off the accept queue. -/
theorem Counting.dequeue (h : Counting s) {k : ℕ} {rest : List ℕ}
    (queue : s.acceptQueue = k :: rest) (c : Connection) (fd : Int) :
    (∀ fd' ∈ s.accepted, ∃ (j : ℕ) (c' : Connection),
      (s.connections.set k { c with fd := some fd })[j]? = some c' ∧ c'.fd = some fd') ∧
    (∀ j ∈ rest, ∃ c', (s.connections.set k { c with fd := some fd })[j]? = some c' ∧
      c'.fd = none) ∧ rest.Nodup := by
  have distinct := h.distinct
  rw [queue, List.nodup_cons] at distinct
  refine ⟨fun fd' hfd => ?_, fun j hj => ?_, distinct.2⟩
  · obtain ⟨j, c', hj, hc⟩ := isOpen_iff.mp (h.opened fd' hfd)
    have other : k ≠ j := by
      rintro rfl
      obtain ⟨c'', hc'', none_⟩ := h.waiting k (by simp [queue])
      obtain rfl : c' = c'' := by simpa [hj] using hc''
      simp [hc] at none_
    exact ⟨j, c', by rwa [List.getElem?_set_ne other], hc⟩
  · obtain ⟨c', hc', none_⟩ := h.waiting j (by simp [queue, hj])
    have other : k ≠ j := by
      rintro rfl
      exact distinct.1 hj
    exact ⟨c', by rwa [List.getElem?_set_ne other], none_⟩

/-- The main thread goes on, neither accepting a client nor counting one. -/
theorem Counting.turn (h : Counting s) {p q : Acceptor} (at_ : s.acceptor = p)
    (uncounted : q.uncounted = p.uncounted) (pending : q.pending = p.pending)
    (room : q.admitted = true → s.connectedNum < serverMaxConnection) {fresh : Bool} :
    Counting { s with acceptor := q, fresh := fresh } where
  tally := by
    rw [uncounted, ← at_]
    exact h.tally
  bound := h.bound
  room := room
  pending := by
    rw [pending, ← at_]
    exact h.pending
  nodup := h.nodup
  opened := h.opened
  waiting := h.waiting
  distinct := h.distinct

/-- A new connection waits behind the others. -/
theorem Counting.connect (h : Counting s) (port : Int) :
    Counting { s with
      connections := s.connections ++ [.established port]
      acceptQueue := s.acceptQueue ++ [s.connections.length]
      fresh := true } := by
  have old_ (k : ℕ) (c : Connection) (hk : s.connections[k]? = some c) :
      (s.connections ++ [.established port])[k]? = some c := by
    rw [List.getElem?_append_left (List.getElem?_eq_some_iff.mp hk).1, hk]
  refine ⟨h.tally, h.bound, h.room, h.pending, h.nodup, fun fd hfd => ?_, fun k hk => ?_, ?_⟩
  · obtain ⟨k, c, hk, hc⟩ := isOpen_iff.mp (h.opened fd hfd)
    exact isOpen_iff.mpr ⟨k, c, old_ k c hk, hc⟩
  · rcases List.mem_append.mp hk with old | new
    · obtain ⟨c, hc, none_⟩ := h.waiting k old
      exact ⟨c, old_ k c hc, none_⟩
    · obtain rfl := List.mem_singleton.mp new
      exact ⟨.established port, by simp, rfl⟩
  · refine List.nodup_append.mpr ⟨h.distinct, by simp, ?_⟩
    rintro k hk _ new rfl
    obtain ⟨c, hc, -⟩ := h.waiting k hk
    have := (List.getElem?_eq_some_iff.mp hc).1
    simp at new
    omega

/-- A connection is accepted under a descriptor that is not in use. -/
theorem Counting.accept (h : Counting s) {fd : Int} {k : ℕ} {rest : List ℕ} {c : Connection}
    (at_ : s.acceptor = .accepting) (queue : s.acceptQueue = k :: rest)
    (connection : s.connections[k]? = some c) (new : s.isOpen fd = false) :
    Counting { s with
      connections := s.connections.set k { c with fd := some fd }
      acceptQueue := rest
      acceptor := .submitting (clientInfo fd c.port)
      accepted := s.accepted ++ [fd] } := by
  have tally := h.tally
  have pending := h.pending
  rw [at_] at tally pending
  simp only [Acceptor.uncounted, Acceptor.pending, List.append_nil] at tally pending
  obtain ⟨opened, waiting, distinct⟩ := h.dequeue queue c fd
  refine ⟨?_, h.bound, fun _ => h.room (by rw [at_]; rfl), ?_, ?_, fun fd' hfd => ?_, waiting,
    distinct⟩
  · simp [Acceptor.uncounted, ← tally]
  · simp [Acceptor.pending, clientInfo, pending]
  · refine List.nodup_append.mpr ⟨h.nodup, by simp, ?_⟩
    rintro fd' hfd _ hnew rfl
    obtain rfl := List.mem_singleton.mp hnew
    simp [h.opened _ hfd] at new
  · rcases List.mem_append.mp hfd with old | hnew
    · exact isOpen_iff.mpr (opened fd' old)
    · obtain rfl := List.mem_singleton.mp hnew
      have := (List.getElem?_eq_some_iff.mp connection).1
      exact isOpen_iff.mpr ⟨k, { c with fd := some fd' }, by simp [this], rfl⟩

theorem Counting.step (h : Counting s) (m : Move cpuCore s a s') : Counting s' := by
  have tally := h.tally
  have pending := h.pending
  cases m
  case listen at_ _ | report at_ _ | abort at_ _ | ignore at_ _ =>
    exact h.turn at_ (by rfl) (by rfl) (by simp [Acceptor.admitted])
  case connect port => exact h.connect port
  case peer k p c c' connection change =>
    refine h.keep (fun j d hd => ?_) rfl rfl rfl rfl rfl rfl h.room
    by_cases same : k = j
    · subst same
      obtain rfl : c = d := by simpa [connection] using hd
      have := (List.getElem?_eq_some_iff.mp hd).1
      exact ⟨c', by simp [this], Connection.fd_peer change⟩
    · exact ⟨d, by rwa [List.getElem?_set_ne same], rfl⟩
  case acceptEvent at_ _ room => exact h.turn at_ (by rfl) (by rfl) fun _ => room
  case accept at_ queue connection _ new => exact h.accept at_ queue connection new
  case acceptZero k rest c at_ queue connection new =>
    rw [at_] at tally pending
    obtain ⟨opened, waiting, distinct⟩ := h.dequeue queue c 0
    exact ⟨tally, h.bound, by simp [Acceptor.admitted], pending, h.nodup,
      fun fd' hfd => isOpen_iff.mpr (opened fd' hfd), waiting, distinct⟩
  case acceptFail gone at_ =>
    rw [at_] at tally pending
    refine ⟨tally, h.bound, by simp [Acceptor.admitted], pending, h.nodup, h.opened,
      fun k hk => ?_, ?_⟩
    · refine h.waiting k ?_
      cases gone
      · exact hk
      · exact List.mem_of_mem_tail hk
    · cases gone
      · exact h.distinct
      · exact h.distinct.tail
  case restart at_ _ => exact h.turn at_ (by rfl) (by rfl) fun _ => h.room (by rw [at_]; rfl)
  case submit info pool at_ _ _ =>
    have room := h.room (by rw [at_]; rfl)
    rw [at_] at tally pending
    refine ⟨tally, h.bound, fun _ => room, ?_, h.nodup, h.opened, h.waiting, h.distinct⟩
    simpa [Acceptor.pending] using pending
  case count at_ =>
    have room := h.room (by rw [at_]; rfl)
    rw [at_] at tally pending
    have exact_ : (s.connectedNum + 1) % 2 ^ 32 = s.connectedNum + 1 := by
      unfold serverMaxConnection at room
      omega
    refine ⟨?_, ?_, by simp [Acceptor.admitted], pending, h.nodup, h.opened, h.waiting, h.distinct⟩
    · rw [exact_]
      exact tally
    · rw [exact_]
      exact room
  case taskRead | read => exact h.keep (consume_getElem? _ _ _) rfl rfl rfl rfl rfl rfl h.room
  all_goals exact ⟨h.tally, h.bound, h.room, h.pending, h.nodup, h.opened, h.waiting, h.distinct⟩

end EpollServer.Server
