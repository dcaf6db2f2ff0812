import EpollServer.Server.Readers
import EpollServer.Server.Unread
import EpollServer.Http.Reply

/-!
# The requests that the server reads

Each `read` on the socket of a client that returns is a request, by the thread that is in it. The
first request of a client is read by the task of a pool thread, all others by the worker that has
recorded the client; together they are what was taken from its socket.
-/
namespace EpollServer.Server

open Library

/-- The request that a step reads, with its thread and its client. -/
def State.request (s : State) : Act → Option (Reader × Int × Http.Request)
  | .taskRead i n =>
    match s.pool.running i with
    | some ⟨some c, .read⟩ => some (.thread i, c.info.eplev.fd, .first n)
    | _ => none
  | .read j n =>
    match s.workers.workers[j]?.map WorkerPool.Worker.pc with
    | some (.reading event _) => some (.worker j, event.fd, .epollin n)
    | _ => none
  | _ => none

/-- The requests that a run reads, in their order. -/
def requestsAlong (cpuCore : Int) : State → List Act → List (Reader × Int × Http.Request)
  | _, [] => []
  | s, a :: as =>
    (s.request a).toList ++ ((step cpuCore s a).map (requestsAlong cpuCore · as)).getD []

variable {cpuCore : Int} {s s' : State} {a : Act}

theorem requestsAlong_concat {as : List Act} (h : run (step cpuCore) s as = some s') (a : Act) :
    requestsAlong cpuCore s (as ++ [a]) = requestsAlong cpuCore s as ++ (s'.request a).toList := by
  induction as generalizing s with
  | nil =>
    obtain rfl : s = s' := by simpa using h
    cases hs : step cpuCore s a <;> simp [requestsAlong, hs]
  | cons b as ih =>
    obtain ⟨t, hb, later⟩ := Option.bind_eq_some_iff.mp h
    simp only [List.cons_append, requestsAlong, hb, Option.map_some, Option.getD_some, ih later,
      List.append_assoc]

/-! ## The bytes that were read -/

/-- A connection that was not accepted has not been read from. -/
def Untouched (s : State) : Prop := ∀ c ∈ s.connections, c.fd = none → c.taken = 0

/-- The bytes that a step reads from a client. -/
def State.requestBytes (s : State) (a : Act) (fd : Int) : ℕ :=
  match s.request a with
  | some (_, fd', r) => if fd' = fd then r.readn.toNat else 0
  | none => 0

theorem find?_set_map {α β : Type*} {p : α → Bool} {f : α → β} {l : List α} {k : ℕ} {c c' : α}
    (hc : l[k]? = some c) (same : p c' = p c) (value : f c' = f c) :
    ((l.set k c').find? p).map f = (l.find? p).map f := by
  induction l generalizing k with
  | nil => rfl
  | cons x l ih =>
    cases k with
    | zero =>
      obtain rfl : x = c := by simpa using hc
      rw [List.set_cons_zero, List.find?_cons, List.find?_cons, same]
      cases p x with
      | true => exact congrArg some value
      | false => rfl
    | succ k =>
      rw [List.set_cons_succ, List.find?_cons, List.find?_cons]
      cases p x with
      | true => rfl
      | false => exact ih (by simpa using hc)

theorem taken_eq (s : State) (fd : Int) :
    s.taken fd = ((s.connectionOf fd).map Connection.taken).getD 0 := by
  unfold State.taken
  cases s.connectionOf fd <;> rfl

theorem Untouched.step (h : Untouched s) (m : Move cpuCore s a s') : Untouched s' := by
  have set {k : ℕ} {d d' : Connection} (connection : s.connections[k]? = some d)
      (own : d'.fd = none → d.fd = none ∧ d'.taken = d.taken) :
      ∀ c ∈ s.connections.set k d', c.fd = none → c.taken = 0 := by
    intro c hc none_
    rcases List.mem_or_eq_of_mem_set hc with old | rfl
    · exact h c old none_
    · obtain ⟨before, same⟩ := own none_
      rw [same]
      exact h d (List.mem_of_getElem? connection) before
  have consume {u : State} (connections : u.connections = s.connections) (fd n : Int) :
      Untouched (u.consume fd n) := by
    intro c hc none_
    rw [State.consume, connections] at hc
    obtain ⟨d, hd, rfl⟩ := List.mem_map.mp hc
    by_cases mine : (d.fd == some fd) = true
    · rw [if_pos mine] at none_
      have fd_ : d.fd = none := none_
      simp [fd_] at mine
    · rw [if_neg mine] at none_ ⊢
      exact h d hd none_
  cases m
  case connect port =>
    intro c hc none_
    rcases List.mem_append.mp hc with old | new
    · exact h c old none_
    · rw [List.mem_singleton.mp new]
      rfl
  case peer connection change =>
    refine set connection fun none_ => ⟨?_, (Connection.peer_received change).2.symm⟩
    rw [← Connection.fd_peer change, none_]
  case accept connection _ _ | acceptZero connection _ => exact set connection (by simp)
  case taskRead | read => exact consume rfl _ _
  all_goals exact h

/-- A step of the server takes from a client what it reads from it. -/
theorem Move.taken (m : Move cpuCore s a s') (untouched : Untouched s) (counting : Counting s)
    (fd : Int) : s'.taken fd = s.taken fd + s.requestBytes a fd := by
  have set {k : ℕ} {d d' : Connection} (connections : s'.connections = s.connections.set k d')
      (connection : s.connections[k]? = some d) (same : (d'.fd == some fd) = (d.fd == some fd))
      (value : d'.taken = d.taken) : s'.taken fd = s.taken fd := by
    rw [taken_eq, taken_eq, State.connectionOf, connections,
      find?_set_map connection same value]
    rfl
  -- The connection that `accept` returns under a new descriptor has not been read from.
  have accepted {k : ℕ} {rest : List ℕ} {d : Connection} {new : Int}
      (queue : s.acceptQueue = k :: rest) (connection : s.connections[k]? = some d)
      (closed : s.isOpen new = false)
      (connections : s'.connections = s.connections.set k { d with fd := some new }) :
      s'.taken fd = s.taken fd := by
    obtain ⟨d', hd, none_⟩ := counting.waiting k (by simp [queue])
    obtain rfl : d = d' := by simpa [connection] using hd
    by_cases same : new = fd
    · subst same
      have before : s.taken new = 0 := by
        cases hc : s.connectionOf new with
        | none => simp [State.taken, hc]
        | some c => simp [isOpen_of_connectionOf hc] at closed
      have after : s'.taken new = 0 := by
        cases hc : s'.connectionOf new with
        | none => simp [State.taken, hc]
        | some c =>
          have mem : c ∈ s'.connections := List.mem_of_find?_eq_some hc
          rw [connections] at mem
          rcases List.mem_or_eq_of_mem_set mem with old | rfl
          · have open_ : s.isOpen new = true := by
              simpa [State.isOpen] using ⟨c, old, fd_of_connectionOf hc⟩
            simp [open_] at closed
          · simpa [State.taken, hc] using untouched d (List.mem_of_getElem? connection) none_
      rw [before, after]
    · exact set connections connection (by simp [none_, same]) rfl
  have consumed {u : State} {fd' n : Int} {c : Connection}
      (connections : u.connections = s.connections) (found : s.connectionOf fd' = some c) :
      (u.consume fd' n).taken fd = s.taken fd + if fd' = fd then n.toNat else 0 := by
    have same (j : Int) : u.connectionOf j = s.connectionOf j := by
      rw [State.connectionOf, connections, State.connectionOf]
    split_ifs with mine
    · subst mine
      rw [taken_consume ((same fd').trans found), State.taken, found]
      rfl
    · rw [taken_eq, taken_eq, connectionOf_consume, same]
      cases hc : s.connectionOf fd with
      | none => rfl
      | some d =>
        simp [fd_of_connectionOf hc, Ne.symm mine]
  cases m
  case connect port =>
    have none_ : (Connection.established port).fd = none := rfl
    simp [taken_eq, State.connectionOf, State.requestBytes, State.request, List.find?_append,
      none_]
  case peer connection change =>
    exact set rfl connection (by rw [Connection.fd_peer change])
      (Connection.peer_received change).2.symm
  case accept queue connection _ new => exact accepted queue connection new rfl
  case acceptZero queue connection new => exact accepted queue connection new rfl
  case taskRead i n c k pool job connection _ _ =>
    simp only [State.requestBytes, State.request, job]
    exact consumed rfl connection
  case read i n w event rest k workers worker pc connection _ _ =>
    simp only [State.requestBytes, State.request, worker, Option.map_some, pc]
    exact consumed rfl connection
  all_goals rfl

theorem untouched_of_run {n : ℕ} {as : List Act}
    (h : run (step cpuCore) (.listening n) as = some s) : Untouched s := by
  refine run_invariant (I := Untouched) ?_ (fun _ _ _ hs ha => hs.step (.of_step ha)) h
  intro c hc
  simp [State.listening] at hc

/-! ## Clients whose first request was read -/

/-- The first request of the client has been read. -/
def State.begun (s : State) (fd : Int) : Prop := ∃ p, s.isAt fd p = true ∧ 3 ≤ p.rank

variable {fd : Int} {i : ℕ}

/-- A task comes to hold an answered client by the step that answers it. -/
theorem answered_of_flow {pool pool' : ThreadPool.State Closure Unit Job}
    {b : ThreadPool.Act Closure Unit Job} (m : ThreadPool.Move Job.start pool b pool')
    (at' : (pool'.running i).bind Job.answered = some fd) :
    (pool.running i).bind Job.answered = some fd ∨
      ∃ job, b = .work i job ∧ job.answered = some fd := by
  have own {k : ℕ} {job : Option Job}
      (runs : pool'.running = Function.update pool.running k job) :
      k = i ∧ job.bind Job.answered = some fd ∨ (pool.running i).bind Job.answered = some fd := by
    rw [bind_running runs] at at'
    split_ifs at at' with same
    · exact .inl ⟨same.symm, at'⟩
    · exact .inr at'
  cases m.flow with
  | submit _ _ same | other _ same _ => exact .inl (same ▸ at')
  | take _ _ _ runs =>
    rcases own runs with ⟨-, starting⟩ | old
    · simp [Job.start, Job.answered] at starting
    · exact .inl old
  | finish _ _ runs =>
    rcases own runs with ⟨-, none_⟩ | old
    · cases none_
    · exact .inl old
  | work _ _ runs =>
    rcases own runs with ⟨rfl, mine⟩ | old
    · exact .inr ⟨_, rfl, mine⟩
    · exact .inl old

theorem isAt_answered :
    s.isAt fd (.answered i) = true ↔ (s.pool.running i).bind Job.answered = some fd :=
  beq_iff_eq

theorem Move.answered (m : Move cpuCore s a s') (at' : s'.isAt fd (.answered i) = true) :
    s.isAt fd (.answered i) = true ∨ ∃ n, s.request a = some (.thread i, fd, .first n) := by
  rw [isAt_answered] at at' ⊢
  have idle {b : ThreadPool.Act Closure Unit Job}
      (step : ThreadPool.step Job.start s.pool b = some s'.pool)
      (other : ∀ job, b = .work i job → job.answered ≠ some fd) :
      (s.pool.running i).bind Job.answered = some fd := by
    rcases answered_of_flow (.of_step step) at' with old | ⟨job, work, mine⟩
    · exact old
    · exact absurd mine (other job work)
  cases m
  case create step | creator step | submit step | thread step | wake step =>
    exact .inl (idle step (by simp))
  case taskRead k n c _ pool job _ _ step =>
    rcases answered_of_flow (.of_step step) at' with old | ⟨job', work, mine⟩
    · exact .inl old
    · obtain ⟨rfl, rfl⟩ : k = i ∧ (⟨some c, .lock⟩ : Job) = job' := by simpa using work
      have same : c.info.eplev.fd = fd := by simpa [Job.answered] using mine
      exact .inr ⟨n, by simp [State.request, job, same]⟩
  case taskLock k c pool workers job _ step =>
    rcases answered_of_flow (.of_step step) at' with old | ⟨job', work, mine⟩
    · exact .inl old
    · obtain ⟨rfl, rfl⟩ : k = i ∧ (⟨some c, .emplace⟩ : Job) = job' := by simpa using work
      exact .inl (by simpa [job, Job.answered] using mine)
  case taskEmplace step | taskUnlock step =>
    refine .inl (idle step ?_)
    rintro job work
    obtain ⟨-, rfl⟩ := by simpa using work
    simp [Job.answered]
  all_goals exact .inl at'

/-- A client that has been read from stays so. -/
theorem begun_keep (advances : s.Advances s') (begun : s.begun fd) : s'.begun fd := by
  obtain ⟨p, at_, far⟩ := begun
  cases advances with
  | stay same => exact ⟨p, (same fd p).mpr at_, far⟩
  | enter j absent _ others =>
    refine ⟨p, (others fd p ?_).mpr at_, far⟩
    rintro ⟨rfl, -⟩
    exact absent p at_
  | move j p' q leg _ _ arrived others =>
    have further := Place.rank_lt leg
    by_cases moves : fd = j ∧ (p = p' ∨ p = q)
    · obtain ⟨rfl, rfl | rfl⟩ := moves
      · exact ⟨q, arrived, by omega⟩
      · exact ⟨p, arrived, far⟩
    · exact ⟨p, (others fd p moves).mpr at_, far⟩

/-- The only way past the first `read` is to return from it. -/
theorem begun_new (m : Move cpuCore s a s') (advances : s.Advances s') (begun : s'.begun fd) :
    s.begun fd ∨ ∃ i n, s.request a = some (.thread i, fd, .first n) := by
  obtain ⟨q, at', far⟩ := begun
  cases advances with
  | stay same => exact .inl ⟨q, (same fd q).mp at', far⟩
  | enter j _ _ others =>
    refine .inl ⟨q, (others fd q ?_).mp at', far⟩
    rintro ⟨-, rfl⟩
    exact absurd far (by decide)
  | move j p q' leg before left _ others =>
    by_cases moves : fd = j ∧ (q = p ∨ q = q')
    · obtain ⟨rfl, rfl | rfl⟩ := moves
      · exact absurd at' left
      · by_cases early : 3 ≤ p.rank
        · exact .inl ⟨p, before, early⟩
        · cases q with
          | answered i =>
            rcases m.answered at' with old | ⟨n, read⟩
            · exact .inl ⟨_, old, far⟩
            · exact .inr ⟨i, n, read⟩
          | stored | popped | recorded => cases p <;> simp_all [Place.next, Place.rank]
          | accepted | ring | reading => exact absurd far (by simp [Place.rank])
    · exact .inl ⟨q, (others fd q moves).mp at', far⟩

theorem taskRead_of_request {i : ℕ} {r : Http.Request}
    (read : s.request a = some (.thread i, fd, r)) :
    ∃ n, a = .taskRead i n ∧ r = .first n := by
  unfold State.request at read
  split at read
  · split at read
    · simp only [Option.some.injEq, Prod.mk.injEq, Reader.thread.injEq] at read
      obtain ⟨rfl, -, rfl⟩ := read
      exact ⟨_, rfl, rfl⟩
    · cases read
  · split at read <;> simp at read
  · cases read

theorem begun_first (m : Move cpuCore s a s') {i : ℕ} {n : Int}
    (read : s.request a = some (.thread i, fd, .first n)) :
    s.isAt fd (.reading i) = true ∧ s'.isAt fd (.answered i) = true := by
  cases m
  case taskRead k n' c _ pool job _ _ step =>
    simp only [State.request, job, Option.some.injEq, Prod.mk.injEq, Reader.thread.injEq] at read
    obtain ⟨rfl, rfl, -⟩ := read
    obtain ⟨-, runs⟩ := work_eq step
    constructor
    · simp [State.isAt, job, Job.reading]
    · have answered := bind_running runs Job.answered k
      simpa [State.isAt, State.consume, Job.answered] using answered
  case read j n' w event rest k workers worker pc _ _ _ =>
    simp [State.request, worker, pc] at read
  all_goals cases read

/-- The first request of a client is read by a task, all others by the worker that has recorded
the client. -/
theorem request_cases {sender : Reader} {fd : Int} {r : Http.Request}
    (read : s.request a = some (sender, fd, r)) :
    (∃ i n, sender = .thread i ∧ r = .first n) ∨
      ∃ j n, sender = .worker j ∧ r = .epollin n ∧ s.reads fd (.worker j) = true := by
  unfold State.request at read
  split at read
  · split at read
    · obtain ⟨rfl, -, rfl⟩ : _ = sender ∧ _ = fd ∧ _ = r := by simpa using read
      exact .inl ⟨_, _, rfl, rfl⟩
    · cases read
  · rename_i j n
    split at read
    · rename_i event rest at_
      obtain ⟨rfl, rfl, rfl⟩ : _ = sender ∧ _ = fd ∧ _ = r := by simpa using read
      obtain ⟨w, worker, pc⟩ := Option.map_eq_some_iff.mp at_
      exact .inr ⟨j, n, rfl, rfl, by simp [State.reads, worker, pc]⟩
    · cases read
  · cases read

end EpollServer.Server
