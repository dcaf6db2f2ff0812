import EpollServer.Server.Whereabouts

/-!
# The addresses of the clients

The callback of the listening socket stores the port of a client in its `client_info`, but of its
address only the pointer that `inet_ntoa` returns: to one buffer, which the next call overwrites.
The record is copied through both queues into the map of a worker, and whoever reads its host
there reads the address of the client that was accepted last.
-/
namespace EpollServer.Server

open Library
open WorkerPool (ClientInfo CharPtr)

variable {Host : Type}

/-- The server and the buffer of `inet_ntoa`, which is empty before the first call. -/
structure Addressed (Host : Type) where
  server : State
  buffer : Option Host

/-- The buffer after a step: `accept` fills in the address of the peer of the connection that it
returns, and the callback formats it for a client. -/
def Addressed.format (peer : ℕ → Host) (w : Addressed Host) : Act → Option Host
  | .accept (.descriptor fd) =>
    match w.server.acceptQueue with
    | k :: _ => if 0 < fd then some (peer k) else w.buffer
    | [] => w.buffer
  | _ => w.buffer

/-- The server where the `k`-th connection comes from the address `peer k`. -/
def follow (cpuCore : Int) (peer : ℕ → Host) (w : Addressed Host) (a : Act) :
    Option (Addressed Host) :=
  (step cpuCore w.server a).map fun s => ⟨s, w.format peer a⟩

def Addressed.listening (n : ℕ) : Addressed Host := ⟨.listening n, none⟩

/-- What is found at a `const char *`. -/
def Addressed.deref (w : Addressed Host) : CharPtr → Option Host
  | .null => none
  | .inetNtoaBuffer => w.buffer

/-- The record is in a queued task, also while this runs, in `event_storage_`, or with a worker,
which puts it into its `client_infos`. -/
inductive Held (s : State) (info : ClientInfo) : Prop where
  | queued {task : ThreadPool.Task Closure Unit} {c : Closure} (mem : task ∈ s.pool.pool.workQueue)
      (func : task.func = some c) (same : c.info = info)
  | running {i : ℕ} {job : Job} {c : Closure} (at_ : s.pool.running i = some job)
      (closure : job.closure = some c) (same : c.info = info)
  | stored (mem : info ∈ s.workers.eventStorage)
  | taken {w : WorkerPool.Worker} (mem : w ∈ s.workers.workers) (pc : w.pc.info = some info)
  | recorded {w : WorkerPool.Worker} {fd : Int} (mem : w ∈ s.workers.workers)
      (entry : (fd, info) ∈ w.clientInfos)

/-- The host and the port of the record are those of the peer of its descriptor. -/
def ShowsPeer (peer : ℕ → Host) (w : Addressed Host) (info : ClientInfo) : Prop :=
  ∃ k c, w.server.connections[k]? = some c ∧ c.fd = some info.eplev.fd ∧
    w.deref info.host = some (peer k) ∧ info.port = c.port

/-- So it is with every record that is still held. -/
def HostsCorrect (peer : ℕ → Host) (w : Addressed Host) : Prop :=
  ∀ info, Held w.server info → ShowsPeer peer w info

/-- Connection `k` was accepted with descriptor `fd`. -/
def Opened (s : State) (k : ℕ) (fd port : Int) : Prop :=
  ∃ c, s.connections[k]? = some c ∧ c.fd = some fd ∧ c.port = port

/-- The clients accepted so far come from one address. -/
def OneHost (peer : ℕ → Host) (w : Addressed Host) : Prop :=
  ∀ j k fd fd' port port', Opened w.server j fd port → Opened w.server k fd' port' →
    0 < fd → 0 < fd' → peer j = peer k

/-! ## The table of connections -/

variable {cpuCore : Int} {s s' : State} {a : Act}

/-- `accept` makes connection `k` the descriptor `fd`, which no connection has had. -/
structure Opens (s : State) (fd : Int) (k : ℕ) (port : Int) (s' : State) : Prop where
  accepting : s.acceptor = .accepting
  front : s.acceptQueue.head? = some k
  fresh : ∀ j port', ¬ Opened s j fd port'
  waiting : ∀ fd' port', ¬ Opened s k fd' port'
  opened : ∀ j fd' port', Opened s' j fd' port' ↔
    Opened s j fd' port' ∨ j = k ∧ fd' = fd ∧ port' = port
  pool : s'.pool = s.pool
  workers : s'.workers = s.workers

/-- The client that the main thread is submitting. -/
def Acceptor.info : Acceptor → Option ClientInfo
  | .submitting info | .restarting info => some info
  | .starting | .polling | .event _ | .accepting | .counting | .aborted => none

/-- The descriptors of the connections stay as they are, and no client is new. -/
structure Quiet (s s' : State) : Prop where
  opened : ∀ k fd port, Opened s' k fd port ↔ Opened s k fd port
  accepted : s'.accepted = s.accepted
  info : ∀ info, s'.acceptor.info = some info → s.acceptor.info = some info

theorem opened_congr (same : s'.connections.map (fun c => (c.fd, c.port)) =
    s.connections.map fun c => (c.fd, c.port)) (k : ℕ) (fd port : Int) :
    Opened s' k fd port ↔ Opened s k fd port := by
  have view (t : State) : Opened t k fd port ↔
      (t.connections.map fun c => (c.fd, c.port))[k]? = some (some fd, port) := by
    simp [Opened, List.getElem?_map, Option.map_eq_some_iff]
  rw [view, view, same]

theorem opened_set {k : ℕ} {c : Connection} (connection : s.connections[k]? = some c) (fd : Int)
    (set : s'.connections = s.connections.set k { c with fd := some fd }) (none_ : c.fd = none)
    (j : ℕ) (fd' port' : Int) :
    Opened s' j fd' port' ↔ Opened s j fd' port' ∨ j = k ∧ fd' = fd ∧ port' = c.port := by
  have inside := (List.getElem?_eq_some_iff.mp connection).1
  unfold Opened
  rw [set]
  by_cases same : k = j
  · subst same
    rw [List.getElem?_set_self inside, connection]
    simp [none_, eq_comm]
  · simp [List.getElem?_set_ne same, Ne.symm same]

theorem Counting.opens (h : Counting s) {fd : Int} {k : ℕ} {rest : List ℕ} {c : Connection}
    (accepting : s.acceptor = .accepting) (queue : s.acceptQueue = k :: rest)
    (connection : s.connections[k]? = some c) (new : s.isOpen fd = false)
    (set : s'.connections = s.connections.set k { c with fd := some fd })
    (pool : s'.pool = s.pool) (workers : s'.workers = s.workers) : Opens s fd k c.port s' := by
  obtain ⟨d, hd, none_⟩ := h.waiting k (by simp [queue])
  obtain rfl : c = d := by simpa [connection] using hd
  refine ⟨accepting, by rw [queue]; rfl, ?_, ?_, opened_set connection fd set none_, pool, workers⟩
  · rintro j port' ⟨d, hd, hfd, -⟩
    have open_ : s.isOpen fd = true := isOpen_iff.mpr ⟨j, d, hd, hfd⟩
    simp [new] at open_
  · rintro fd' port' ⟨d, hd, hfd, -⟩
    obtain rfl : c = d := by simpa [connection] using hd
    simp [none_] at hfd

theorem Connection.port_peer {c c' : Connection} {p : PeerAct} (h : c.peer p = some c') :
    c'.port = c.port := by
  unfold peer at h
  split at h <;> split_ifs at h <;> obtain rfl := Option.some.inj h <;> rfl

/-- A new connection has no descriptor. -/
theorem opened_connect (s : State) (port : Int) {queue : List ℕ} {fresh : Bool} (k : ℕ)
    (fd port' : Int) :
    Opened { s with connections := s.connections ++ [.established port], acceptQueue := queue,
                    fresh := fresh } k fd port' ↔ Opened s k fd port' := by
  simp only [Opened]
  rcases Nat.lt_or_ge k s.connections.length with inside | outside
  · rw [List.getElem?_append_left inside]
  · rw [List.getElem?_append_right outside, List.getElem?_eq_none outside]
    refine iff_of_false ?_ (by simp)
    rintro ⟨c, hc, hfd, -⟩
    rw [List.mem_singleton.mp (List.mem_of_getElem? hc)] at hfd
    cases hfd

theorem consume_map (s : State) (fd n : Int) :
    (s.consume fd n).connections.map (fun c => (c.fd, c.port)) =
      s.connections.map fun c => (c.fd, c.port) := by
  rw [State.consume, List.map_map]
  refine List.map_congr_left fun c _ => ?_
  rw [Function.comp_apply]
  split_ifs <;> rfl

/-- What a step does to the connections: it accepts one, as a client or not, or no descriptor is
new. -/
theorem Move.opens (h : Counting s) (m : Move cpuCore s a s') :
    (∃ fd k port, a = .accept (.descriptor fd) ∧ Opens s fd k port s' ∧
      (0 < fd ∧ s'.acceptor.info = some (clientInfo fd port) ∧ s'.accepted = s.accepted ++ [fd] ∨
        fd = 0 ∧ s'.acceptor.info = none ∧ s'.accepted = s.accepted)) ∨
    (∀ fd, a ≠ .accept (.descriptor fd)) ∧ Quiet s s' := by
  have quiet (opened : s'.connections.map (fun c => (c.fd, c.port)) =
      s.connections.map fun c => (c.fd, c.port)) (accepted : s'.accepted = s.accepted)
      (info : ∀ info, s'.acceptor.info = some info → s.acceptor.info = some info) : Quiet s s' :=
    ⟨opened_congr opened, accepted, info⟩
  cases m
  case connect port =>
    exact .inr ⟨by simp, opened_connect s port, rfl, fun _ => id⟩
  case peer k p c c' connection change =>
    refine .inr ⟨by simp, quiet (map_set_same _ connection ?_) rfl fun _ => id⟩
    rw [Connection.fd_peer change, Connection.port_peer change]
  case accept fd k rest c at_ queue connection positive new =>
    refine .inl ⟨fd, k, c.port, rfl, h.opens at_ queue connection new rfl rfl rfl, .inl ?_⟩
    exact ⟨positive, rfl, rfl⟩
  case acceptZero k rest c at_ queue connection new =>
    refine .inl ⟨0, k, c.port, rfl, h.opens at_ queue connection new rfl rfl rfl, .inr ?_⟩
    exact ⟨rfl, rfl, rfl⟩
  case taskRead | read => exact .inr ⟨by simp, quiet (consume_map _ _ _) rfl fun _ => id⟩
  case restart at_ _ =>
    refine .inr ⟨by simp, quiet rfl rfl fun info hi => ?_⟩
    rw [at_]
    exact hi
  case report | acceptEvent | abort | ignore | acceptFail | submit | count | listen =>
    exact .inr ⟨by simp, quiet rfl rfl (by simp [Acceptor.info])⟩
  all_goals exact .inr ⟨by simp, quiet rfl rfl fun _ => id⟩

/-! ## Every record is that of an accepted client -/

/-- The tasks of the thread pool are about clients that satisfy `q`. -/
def Carried (q : ClientInfo → Prop) (pool : ThreadPool.State Closure Unit Job) : Prop :=
  ThreadPool.Carries (fun c : Closure => q c.info)
    (fun job : Job => ∀ c, job.closure = some c → q c.info) pool

variable {q : ClientInfo → Prop}

/-- A client comes into the ring from the main thread. -/
theorem carried_step (h : Carried q s.pool)
    (submitting : ∀ info, s.acceptor.info = some info → q info) (m : Move cpuCore s a s') :
    Carried q s'.pool := by
  have starts (task : ThreadPool.Task Closure Unit) (func : ∀ f, task.func = some f → q f.info) :
      ∀ c, (Job.start task).closure = some c → q c.info := func
  have work {i : ℕ} {c : Closure} {stage stage' : Stage} {pool : ThreadPool.State Closure Unit Job}
      (job : s.pool.running i = some ⟨some c, stage⟩)
      (step : ThreadPool.step Job.start s.pool (.work i ⟨some c, stage'⟩) = some pool) :
      Carried q pool := by
    refine ThreadPool.Carries.step h (.of_step step) starts (by simp) fun j job' he => ?_
    obtain ⟨rfl, rfl⟩ : i = j ∧ ⟨some c, stage'⟩ = job' := by simpa using he
    intro d hd
    exact h.of_running job d hd
  cases m
  case create step | creator step | thread step | wake step =>
    exact ThreadPool.Carries.step h (.of_step step) starts (by simp) (by simp)
  case submit info pool at_ _ step =>
    refine ThreadPool.Carries.step h (.of_step step) starts (fun args f woken he => ?_) (by simp)
    obtain ⟨-, rfl, -⟩ : none = args ∧ ⟨info, true⟩ = f ∧ _ = woken := by simpa using he
    exact submitting info (by rw [at_]; rfl)
  case taskRead job _ _ step => exact work job step
  case taskLock job _ step | taskEmplace job _ step | taskUnlock job _ step => exact work job step
  all_goals exact h

/-- A client comes into the worker pool from its task. -/
theorem kept_step (carried : Carried q s.pool) (h : WorkerPool.Keeps q s.workers)
    (m : Move cpuCore s a s') : WorkerPool.Keeps q s'.workers := by
  cases m
  case startWorkers step | worker step | register step | poll step | read step |
      taskLock step _ | taskUnlock step _ =>
    exact h.step (.of_step step) (by simp)
  case taskEmplace i c pool workers job emplace _ =>
    refine h.step (.of_step emplace) fun j info he => ?_
    obtain ⟨-, rfl⟩ : i = j ∧ c.info = info := by simpa using he
    exact carried.of_running job c rfl
  all_goals exact h

/-- The record of a client that was accepted. -/
def Genuine (s : State) (info : ClientInfo) : Prop :=
  ∃ k fd port, Opened s k fd port ∧ 0 < fd ∧ info = clientInfo fd port

/-- What is true in every reachable state of the server with the buffer. -/
structure Tracked (peer : ℕ → Host) (w : Addressed Host) : Prop where
  sound : Sound w.server
  unique : ∀ j k fd port port', Opened w.server j fd port → Opened w.server k fd port' → j = k
  accepted : ∀ k fd port, Opened w.server k fd port → 0 < fd → fd ∈ w.server.accepted
  formatted : ∀ j fd port, Opened w.server j fd port → 0 < fd →
    ∃ k fd' port', Opened w.server k fd' port' ∧ 0 < fd' ∧ w.buffer = some (peer k)
  pool : Carried (Genuine w.server) w.server.pool
  workers : WorkerPool.Keeps (Genuine w.server) w.server.workers
  submitting : ∀ info, w.server.acceptor.info = some info → Genuine w.server info

variable {peer : ℕ → Host} {w w' : Addressed Host} {n : ℕ}

theorem Tracked.listening (peer : ℕ → Host) (n : ℕ) : Tracked peer (.listening n) where
  sound := .listening n
  unique := by simp [Addressed.listening, State.listening, Opened]
  accepted := by simp [Addressed.listening, State.listening, Opened]
  formatted := by simp [Addressed.listening, State.listening, Opened]
  pool := .constructed
  workers := .constructed _ n
  submitting := by simp [Addressed.listening, State.listening, Acceptor.info]

theorem Genuine.mono (opened : ∀ k fd port, Opened s k fd port → Opened s' k fd port)
    {info : ClientInfo} (h : Genuine s info) : Genuine s' info := by
  obtain ⟨k, fd, port, hk, positive, rfl⟩ := h
  exact ⟨k, fd, port, opened k fd port hk, positive, rfl⟩

/-- A step with the buffer is one of the server, and formats an address if it accepts a
client. -/
theorem follow_cases (h : Tracked peer w) (hw : follow cpuCore peer w a = some w') :
    Move cpuCore w.server a w'.server ∧
      ((∃ fd k port, Opens w.server fd k port w'.server ∧
        (0 < fd ∧ w'.buffer = some (peer k) ∧
            w'.server.acceptor.info = some (clientInfo fd port) ∧
            w'.server.accepted = w.server.accepted ++ [fd] ∨
          fd = 0 ∧ w'.buffer = w.buffer ∧ w'.server.acceptor.info = none ∧
            w'.server.accepted = w.server.accepted)) ∨
        Quiet w.server w'.server ∧ w'.buffer = w.buffer) := by
  obtain ⟨s', hs, rfl⟩ := Option.map_eq_some_iff.mp hw
  have m := Move.of_step hs
  refine ⟨m, ?_⟩
  obtain ⟨fd, k, port, rfl, opens, client⟩ | ⟨other, quiet⟩ := m.opens h.sound.counting
  · obtain ⟨rest, queue⟩ := List.head?_eq_some_iff.mp opens.front
    refine .inl ⟨fd, k, port, opens, ?_⟩
    rcases client with ⟨positive, info, accepted⟩ | ⟨rfl, info, accepted⟩
    · exact .inl ⟨positive, by simp [Addressed.format, queue, positive], info, accepted⟩
    · exact .inr ⟨rfl, by simp [Addressed.format, queue], info, accepted⟩
  · refine .inr ⟨quiet, ?_⟩
    unfold Addressed.format
    split
    · exact absurd rfl (other _)
    · rfl

/-- A descriptor stays with its connection. -/
theorem Opened.follow {k : ℕ} {fd port : Int} (hk : Opened w.server k fd port)
    (h : Tracked peer w) (hw : follow cpuCore peer w a = some w') : Opened w'.server k fd port := by
  obtain ⟨-, ⟨_, _, _, opens, -⟩ | ⟨quiet, -⟩⟩ := follow_cases h hw
  · exact (opens.opened k fd port).mpr (.inl hk)
  · exact (quiet.opened k fd port).mpr hk

/-- No two connections have one descriptor. -/
theorem Opens.unique {fd : Int} {k : ℕ} {port : Int} (h : Opens s fd k port s')
    (unique : ∀ i j fd port port', Opened s i fd port → Opened s j fd port' → i = j) :
    ∀ i j fd port port', Opened s' i fd port → Opened s' j fd port' → i = j := by
  intro i j fd₁ port₁ port₂ hi hj
  rcases (h.opened ..).mp hi with old | ⟨rfl, rfl, -⟩
  · rcases (h.opened ..).mp hj with old' | ⟨-, rfl, -⟩
    · exact unique i j fd₁ port₁ port₂ old old'
    · exact absurd old (h.fresh i port₁)
  · rcases (h.opened ..).mp hj with old' | ⟨rfl, -, -⟩
    · exact absurd old' (h.fresh j port₂)
    · rfl

theorem Tracked.unique_step (h : Tracked peer w) (hw : follow cpuCore peer w a = some w') :
    ∀ i j fd port port', Opened w'.server i fd port → Opened w'.server j fd port' → i = j := by
  obtain ⟨-, ⟨fd, k, port, opens, -⟩ | ⟨quiet, -⟩⟩ := follow_cases h hw
  · exact opens.unique h.unique
  · intro i j fd port port' hi hj
    rw [quiet.opened] at hi hj
    exact h.unique i j fd port port' hi hj

theorem Tracked.accepted_step (h : Tracked peer w) (hw : follow cpuCore peer w a = some w')
    {j : ℕ} {fd' port' : Int} (hj : Opened w'.server j fd' port') (positive : 0 < fd') :
    fd' ∈ w'.server.accepted := by
  obtain ⟨-, ⟨fd, k, port, opens, client⟩ | ⟨quiet, -⟩⟩ := follow_cases h hw
  · rcases client with ⟨-, -, -, accepted⟩ | ⟨rfl, -, -, accepted⟩ <;> rw [accepted]
    · rcases (opens.opened ..).mp hj with old | ⟨-, rfl, -⟩
      · exact List.mem_append_left _ (h.accepted j fd' port' old positive)
      · exact List.mem_append_right _ (List.mem_singleton_self _)
    · rcases (opens.opened ..).mp hj with old | ⟨-, rfl, -⟩
      · exact h.accepted j fd' port' old positive
      · exact absurd positive (lt_irrefl 0)
  · rw [quiet.accepted]
    exact h.accepted j fd' port' ((quiet.opened ..).mp hj) positive

/-- The buffer keeps the address of a client, or gets that of the new one. -/
theorem Tracked.formatted_step (h : Tracked peer w) (hw : follow cpuCore peer w a = some w')
    {j : ℕ} {fd' port' : Int} (hj : Opened w'.server j fd' port') (positive : 0 < fd') :
    ∃ k fd port, Opened w'.server k fd port ∧ 0 < fd ∧ w'.buffer = some (peer k) := by
  have kept (old : Opened w.server j fd' port') (same : w'.buffer = w.buffer) :
      ∃ k fd port, Opened w'.server k fd port ∧ 0 < fd ∧ w'.buffer = some (peer k) := by
    obtain ⟨k, fd, port, hk, client, buffer⟩ := h.formatted j fd' port' old positive
    exact ⟨k, fd, port, hk.follow h hw, client, same ▸ buffer⟩
  obtain ⟨-, ⟨fd, k, port, opens, client⟩ | ⟨quiet, buffer⟩⟩ := follow_cases h hw
  · rcases client with ⟨new, buffer, -, -⟩ | ⟨rfl, buffer, -, -⟩
    · exact ⟨k, fd, port, (opens.opened ..).mpr (.inr ⟨rfl, rfl, rfl⟩), new, buffer⟩
    · rcases (opens.opened ..).mp hj with old | ⟨-, rfl, -⟩
      · exact kept old buffer
      · exact absurd positive (lt_irrefl 0)
  · exact kept ((quiet.opened ..).mp hj) buffer

theorem Tracked.submitting_step (h : Tracked peer w) (hw : follow cpuCore peer w a = some w')
    {info : ClientInfo} (submitting : w'.server.acceptor.info = some info) :
    Genuine w'.server info := by
  obtain ⟨-, ⟨fd, k, port, opens, client⟩ | ⟨quiet, -⟩⟩ := follow_cases h hw
  · rcases client with ⟨positive, -, same, -⟩ | ⟨-, -, none_, -⟩
    · obtain rfl : clientInfo fd port = info := by simpa [same] using submitting
      exact ⟨k, fd, port, (opens.opened ..).mpr (.inr ⟨rfl, rfl, rfl⟩), positive, rfl⟩
    · simp [none_] at submitting
  · refine (h.submitting info (quiet.info info submitting)).mono fun k fd port hk => ?_
    exact hk.follow h hw

theorem Tracked.step (h : Tracked peer w) (hw : follow cpuCore peer w a = some w') :
    Tracked peer w' := by
  have m := (follow_cases h hw).1
  have mono {info : ClientInfo} : Genuine w.server info → Genuine w'.server info :=
    .mono fun _ _ _ hk => hk.follow h hw
  refine ⟨h.sound.step m, h.unique_step hw, fun _ _ _ => h.accepted_step hw,
    fun _ _ _ => h.formatted_step hw, ?_, ?_, fun _ => h.submitting_step hw⟩
  · refine ThreadPool.Carries.mono (carried_step h.pool h.submitting m) (fun _ => mono) ?_
    exact fun job all c hc => mono (all c hc)
  · exact (kept_step h.pool h.workers m).mono fun _ => mono

/-! ## What is still held -/

theorem Held.congr {info : ClientInfo} (h : Held s info) (pool : s'.pool = s.pool)
    (workers : s'.workers = s.workers) : Held s' info := by
  cases h with
  | queued mem func same => exact .queued (pool ▸ mem) func same
  | running at_ closure same => exact .running (pool ▸ at_) closure same
  | stored mem => exact .stored (workers ▸ mem)
  | taken mem pc => exact .taken (workers ▸ mem) pc
  | recorded mem entry => exact .recorded (workers ▸ mem) entry

theorem Tracked.genuine (h : Tracked peer w) {info : ClientInfo} (held : Held w.server info) :
    Genuine w.server info := by
  cases held with
  | queued mem func same => exact same ▸ h.pool.queued _ mem _ func
  | running at_ closure same => exact same ▸ h.pool.of_running at_ _ closure
  | stored mem => exact h.workers.stored info mem
  | taken mem pc => exact h.workers.taken _ mem info pc
  | recorded mem entry => exact (h.workers.recorded _ mem _ entry).2

/-- A client that was submitted is still held: it is in one of its places. -/
theorem held_of_submitted (sound : Sound s) (kept : WorkerPool.Keeps q s.workers) {fd : Int}
    (submitted : fd ∈ s.submitted) : ∃ info, Held s info ∧ info.eplev.fd = fd := by
  by_contra none_
  have other (info : ClientInfo) (held : Held s info) : (info.eplev.fd == fd) = false :=
    beq_false_of_ne fun same => none_ ⟨info, held, same⟩
  have ring : s.inRing fd = 0 := by
    refine tally_eq_zero.mpr fun task mem => ?_
    unfold taskCounts taskFd
    cases func : task.func with
    | none => rfl
    | some c => simp [other c.info (.queued mem func rfl)]
  have task : s.inTask fd = 0 := by
    refine tally_eq_zero.mpr fun t mem => ?_
    obtain ⟨i, thread⟩ := List.mem_iff_getElem?.mp mem
    unfold ThreadPool.Thread.holding
    split
    · rename_i job pc
      have running := ThreadPool.State.running_of thread pc
      unfold Job.counts
      cases closure : job.closure with
      | none => cases job.stage <;> rfl
      | some c =>
        have absent := other c.info (.running running closure rfl)
        cases job.stage <;> simp [absent]
    · rfl
  have storage : s.inStorage fd = 0 := by
    refine tally_eq_zero.mpr fun info mem => ?_
    simp [WorkerPool.ClientInfo.counts, other info (.stored mem)]
  have popped : s.popped fd = 0 := by
    refine tally_eq_zero.mpr fun v mem => ?_
    cases pc : v.pc with
    | record info =>
      have absent := other info (.taken mem (by rw [pc]; rfl))
      simp [WorkerPool.Pc.popped, WorkerPool.ClientInfo.counts, absent]
    | _ => rfl
  have recorded : s.recorded fd = 0 := by
    refine tally_eq_zero.mpr fun v mem => tally_eq_zero.mpr fun c hc => ?_
    rw [(kept.recorded v mem c hc).1]
    exact congrArg ind (other c.2 (.recorded mem hc))
  have places := sound.places fd
  rw [if_pos submitted] at places
  omega

/-! ## What the records show -/

theorem hostsCorrect_of_oneHost (h : Tracked peer w) (one : OneHost peer w) :
    HostsCorrect peer w := by
  intro info held
  obtain ⟨k, fd, port, hk, positive, rfl⟩ := h.genuine held
  obtain ⟨j, fd', port', hj, positive', buffer⟩ := h.formatted k fd port hk positive
  have same : peer j = peer k := one j k fd' fd port' port hj hk positive' positive
  obtain ⟨c, hc, hfd, rfl⟩ := hk
  exact ⟨k, c, hc, hfd, buffer.trans (by rw [same]), rfl⟩

/-- When a client is accepted, the records of the clients before it show its address. -/
theorem Tracked.peer_eq (h : Tracked peer w) (h' : Tracked peer w') {fd : Int} {k : ℕ} {port : Int}
    (opens : Opens w.server fd k port w'.server) (buffer : w'.buffer = some (peer k))
    (correct : HostsCorrect peer w') {j : ℕ} {fd' port' : Int}
    (hj : Opened w.server j fd' port') (positive : 0 < fd') : peer j = peer k := by
  have submitted : fd' ∈ w.server.submitted := by
    have accepted := h.accepted j fd' port' hj positive
    rw [h.sound.counting.pending, opens.accepting] at accepted
    simpa [Acceptor.pending] using accepted
  obtain ⟨info, held, rfl⟩ := held_of_submitted h.sound h.workers submitted
  obtain ⟨i, c, hc, hfd, host, -⟩ := correct info (held.congr opens.pool opens.workers)
  have now : Opened w'.server j info.eplev.fd port' := (opens.opened ..).mpr (.inl hj)
  obtain rfl : i = j := h'.unique i j _ c.port port' ⟨c, hc, hfd, rfl⟩ now
  obtain ⟨_, _, _, -, -, rfl⟩ := h.genuine held
  exact Option.some.inj (host.symm.trans buffer)

theorem oneHost_step (h : Tracked peer w) (hw : follow cpuCore peer w a = some w') :
    OneHost peer w' ↔ OneHost peer w ∧ HostsCorrect peer w' := by
  have h' := h.step hw
  obtain ⟨-, cases_⟩ := follow_cases h hw
  constructor
  · intro one
    refine ⟨fun i j fd fd' port port' hi hj => ?_, hostsCorrect_of_oneHost h' one⟩
    exact one i j fd fd' port port' (hi.follow h hw) (hj.follow h hw)
  · rintro ⟨one, correct⟩ i j fd₁ fd₂ port₁ port₂ hi hj pos₁ pos₂
    obtain ⟨fd, k, port, opens, client⟩ | ⟨quiet, -⟩ := cases_
    · rcases client with ⟨positive, buffer, -, -⟩ | ⟨rfl, -, -, -⟩
      · have old {i : ℕ} {fd' port' : Int} (hi : Opened w.server i fd' port') (pos : 0 < fd') :
            peer i = peer k := h.peer_eq h' opens buffer correct hi pos
        rcases (opens.opened ..).mp hi with hi | ⟨rfl, -, -⟩ <;>
          rcases (opens.opened ..).mp hj with hj | ⟨rfl, -, -⟩
        · exact one i j fd₁ fd₂ port₁ port₂ hi hj pos₁ pos₂
        · exact old hi pos₁
        · exact (old hj pos₂).symm
        · rfl
      · rcases (opens.opened ..).mp hi with hi | ⟨-, rfl, -⟩
        · rcases (opens.opened ..).mp hj with hj | ⟨-, rfl, -⟩
          · exact one i j fd₁ fd₂ port₁ port₂ hi hj pos₁ pos₂
          · exact absurd pos₂ (lt_irrefl 0)
        · exact absurd pos₁ (lt_irrefl 0)
    · rw [quiet.opened] at hi hj
      exact one i j fd₁ fd₂ port₁ port₂ hi hj pos₁ pos₂

/-- In every state of a run each record that is still held shows the address and the port of the
peer of its descriptor, if and only if all clients accepted in the run come from one address. -/
theorem hostsCorrect_iff (peer : ℕ → Host) {as : List Act}
    (h : run (follow cpuCore peer) (.listening n) as = some w) :
    EveryState (follow cpuCore peer) (HostsCorrect peer) (.listening n) as ↔ OneHost peer w := by
  have one : OneHost peer (.listening n) := by
    simp [OneHost, Opened, Addressed.listening, State.listening]
  exact everyState_iff_final (I := Tracked peer) (.listening peer n) (fun _ _ _ hI hw => hI.step hw)
    (hostsCorrect_of_oneHost (.listening peer n) one) one
    (fun _ _ _ hI hw => oneHost_step hI hw) h

/-- The first client is in the map of a worker when a second one, from another address, is
accepted. -/
theorem twoClients_showsOther :
    ∃ w : Addressed ℕ, run (follow 1 id) (.listening 2) twoClients = some w ∧
      (∃ v ∈ w.server.workers.workers, (5, clientInfo 5 1) ∈ v.clientInfos) ∧
      w.deref (clientInfo 5 1).host = some 1 ∧ ¬ HostsCorrect id w := by
  have end_ : (run (follow 1 id) (.listening 2 : Addressed ℕ) twoClients).map
      (fun w => (w.buffer, w.server.workers.workers.map (·.clientInfos),
        w.server.connections.map (·.fd))) =
      some (some 1, [[(5, clientInfo 5 1)], []], [some 5, some 6]) := by decide +kernel
  obtain ⟨w, hw, he⟩ := Option.map_eq_some_iff.mp end_
  simp only [Prod.mk.injEq] at he
  obtain ⟨buffer, maps, fds⟩ := he
  have recorded : ∃ v ∈ w.server.workers.workers, (5, clientInfo 5 1) ∈ v.clientInfos := by
    have first : [(5, clientInfo 5 1)] ∈ w.server.workers.workers.map (·.clientInfos) := by
      rw [maps]
      exact List.mem_cons_self
    obtain ⟨v, hv, same⟩ := List.mem_map.mp first
    exact ⟨v, hv, by rw [same]; exact List.mem_cons_self⟩
  refine ⟨w, hw, recorded, buffer, fun correct => ?_⟩
  obtain ⟨v, hv, entry⟩ := recorded
  obtain ⟨k, c, hc, hfd, host, -⟩ := correct _ (.recorded hv entry)
  obtain rfl : 1 = k := by simpa using buffer.symm.trans host
  have second : w.server.connections.map (·.fd) = [some 5, some 6] := fds
  have at_ := congrArg (·[1]?) second
  simp [hc, hfd, clientInfo] at at_

theorem hostsCorrect_iff_oneHost :
    ∃ w : Addressed ℕ, run (follow 1 fun _ => 7) (.listening 2) twoClients = some w ∧
      w.buffer = some 7 ∧
      EveryState (follow 1 fun _ => 7) (HostsCorrect fun _ => 7) (.listening 2) twoClients := by
  have end_ : (run (follow 1 fun _ => 7) (.listening 2 : Addressed ℕ) twoClients).map
      (fun w => w.buffer) = some (some 7) := by decide +kernel
  obtain ⟨w, hw, buffer⟩ := Option.map_eq_some_iff.mp end_
  exact ⟨w, hw, buffer, (hostsCorrect_iff _ hw).mpr fun _ _ _ _ _ _ _ _ _ _ => rfl⟩

end EpollServer.Server
