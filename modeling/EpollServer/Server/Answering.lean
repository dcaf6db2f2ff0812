import EpollServer.Server.Requests
import EpollServer.Http.Logged
import EpollServer.Http.Remains

/-!
# The server with its replies

Each thread of the server has its own `TRD_RECV_BUF` and its own `TRD_SEND_BUF`. `Answering` is the
server together with these buffers, the requests that were read, the messages that were passed to
`send` and the lines that were printed. What a `read` stores is chosen by the peer, so an action
says it. A pool thread prints its `TRD_RECV_BUF` as a string, and without a NUL there it prints past
the end of the buffer, which ends the process.

On the server itself this machine does what `step` does, up to such an end: its runs are runs of
the server (`server_of_run`), and each step that the server can take is possible here as well
(`answer_enabled`). Each pool thread in it is a `PoolThread`.
-/
namespace EpollServer.Server

open Library
open Http (overwrite ReadResult PoolThread Printable)

/-- A step of the server, and what it stores in a `TRD_RECV_BUF` if it is a `read`. -/
structure Heard where
  act : Act
  received : ReadResult

/-- What a `read` stores is what it returns. The only negative result of `read` is -1. -/
def Heard.fits (x : Heard) : Bool :=
  match x.act with
  | .taskRead _ n | .read _ n => x.received.readn = max n (-1)
  | _ => true

/-- A message passed to `send`. -/
structure Reply where
  sender : Reader
  fd : Int
  request : Http.Request
  message : List UInt8

structure Answering where
  server : State
  /-- `TRD_RECV_BUF` and `TRD_SEND_BUF` of each thread. -/
  recvBuf : Reader → Buffer
  sendBuf : Reader → Buffer
  /-- The requests that were read, each with its thread and its client. -/
  requests : List (Reader × Int × Http.Request)
  wire : List Reply
  /-- What the threads have printed of their requests. -/
  logged : List (Reader × List UInt8)
  /-- The thread that has left a buffer. -/
  fault : Option (Reader × Fault)

def Answering.listening (n : ℕ) : Answering :=
  ⟨.listening n, fun _ => .zero, fun _ => .zero, [], [], [], none⟩

/-- The `read` of a request; a pool thread prints it. -/
def Reader.receive (sender : Reader) (b : Buffer) (received : ReadResult) :
    Except Fault (Buffer × List (List UInt8)) :=
  match sender with
  | .thread _ => Http.receive b received
  | .worker _ => (b.write 0 received.bytes).map fun b => (b, [])

/-- The server has gone on to `s`, and the thread has read a request and answers it. -/
def Answering.serve (w : Answering) (s : State) (sender : Reader) (fd : Int) (r : Http.Request)
    (received : ReadResult) : Except Fault Answering := do
  let (recvBuf, lines) ← sender.receive (w.recvBuf sender) received
  let o ← Http.handle (w.sendBuf sender) r
  return {
    server := s
    recvBuf := Function.update w.recvBuf sender recvBuf
    sendBuf := Function.update w.sendBuf sender o.sendBuf
    requests := w.requests ++ [(sender, fd, r)]
    wire := w.wire ++ (o.message.map fun m => ⟨sender, fd, r, m⟩).toList
    logged := w.logged ++ lines.map fun line => (sender, line)
    fault := none }

/-- A step of the server; a thread that has read a request answers it. -/
def answer (cpuCore : Int) (w : Answering) (x : Heard) : Option Answering :=
  if w.fault.isSome || !x.fits then none
  else (step cpuCore w.server x.act).bind fun s =>
    match w.server.request x.act with
    | none => some { w with server := s }
    | some (sender, fd, r) =>
      match w.serve s sender fd r x.received with
      | .error f => some { w with fault := some (sender, f) }
      | .ok w' => some w'

/-- The lines of one thread. -/
def Answering.loggedBy (w : Answering) (sender : Reader) : List (List UInt8) :=
  (w.logged.filter (·.1 == sender)).map Prod.snd

/-- What pool thread `i` has read. -/
def readsOf (i : ℕ) (xs : List Heard) : List ReadResult :=
  xs.filterMap fun x =>
    match x.act with
    | .taskRead j _ => if j = i then some x.received else none
    | _ => none

/-- No pool thread prints a request past the end of its buffer. -/
def AllPrintable (xs : List Heard) : Prop :=
  ∀ i earlier received later, readsOf i xs = earlier ++ received :: later →
    Printable earlier received

variable {cpuCore : Int} {s s' : State} {a : Act} {n : ℕ} {as : List Act} {w w' : Answering}
  {x : Heard} {xs : List Heard} {sender : Reader} {fd : Int} {r : Http.Request}
  {received : ReadResult} {i : ℕ}

/-! ## One step with its reply -/

/-- What becomes of a request: a message over what the thread sent last, or none. -/
structure Answering.Replies (w w' : Answering) (sender : Reader) (fd : Int) (r : Http.Request)
    (received : ReadResult) : Prop where
  requests : w'.requests = w.requests ++ [(sender, fd, r)]
  others : ∀ t, t ≠ sender → w'.recvBuf t = w.recvBuf t ∧ w'.sendBuf t = w.sendBuf t
  receives : ∃ lines,
    sender.receive (w.recvBuf sender) received = .ok (w'.recvBuf sender, lines) ∧
      w'.logged = w.logged ++ lines.map fun line => (sender, line)
  handles : ∃ o, Http.handle (w.sendBuf sender) r = .ok o ∧ w'.sendBuf sender = o.sendBuf
  own : r.text = none ∧ w'.sendBuf sender = w.sendBuf sender ∧ w'.wire = w.wire ∨
    ∃ text m, r.text = some text ∧ m = overwrite (w.sendBuf sender).bytes text ∧
      (w'.sendBuf sender).bytes = m ∧ w'.wire = w.wire ++ [⟨sender, fd, r, m⟩]
  fault : w'.fault = none

/-- The steps with their replies: no reply path leaves its buffer, and a pool thread leaves its
`TRD_RECV_BUF` only where it prints it. -/
inductive Answers (cpuCore : Int) (w : Answering) (x : Heard) : Answering → Prop where
  | quiet {s : State} (step : step cpuCore w.server x.act = some s)
      (none_ : w.server.request x.act = none) : Answers cpuCore w x { w with server := s }
  | reply {w' : Answering} {sender : Reader} {fd : Int} {r : Http.Request}
      (step : step cpuCore w.server x.act = some w'.server)
      (read : w.server.request x.act = some (sender, fd, r))
      (replies : w.Replies w' sender fd r x.received) : Answers cpuCore w x w'
  | overrun {s : State} {i : ℕ} {fd : Int} {r : Http.Request}
      (step : step cpuCore w.server x.act = some s)
      (read : w.server.request x.act = some (.thread i, fd, r))
      (past : Http.receive (w.recvBuf (.thread i)) x.received = .error .outOfRange) :
      Answers cpuCore w x { w with fault := some (.thread i, .outOfRange) }

/-- A request is served, or a pool thread prints it past the end of its buffer. -/
theorem serve_cases (w : Answering) (s : State) (sender : Reader) (fd : Int) (r : Http.Request)
    (received : ReadResult) :
    (∃ w', w.serve s sender fd r received = .ok w' ∧ w'.server = s ∧
      w.Replies w' sender fd r received) ∨
    ∃ i, sender = .thread i ∧ w.serve s sender fd r received = .error .outOfRange ∧
      Http.receive (w.recvBuf sender) received = .error .outOfRange := by
  have served {recvBuf : Buffer} {lines : List (List UInt8)}
      (receives : sender.receive (w.recvBuf sender) received = .ok (recvBuf, lines)) :
      ∃ w', w.serve s sender fd r received = .ok w' ∧ w'.server = s ∧
        w.Replies w' sender fd r received := by
    have goes {o : Http.Outcome} (handled : Http.handle (w.sendBuf sender) r = .ok o) :=
      show w.serve s sender fd r received = .ok _ from
        (bind_of_eq_ok receives _).trans (bind_of_eq_ok handled _)
    have others {β : Type} (f : Reader → β) (b : β) (t : Reader) (other : t ≠ sender) :
        Function.update f sender b t = f t := Function.update_of_ne other ..
    cases silent : r.text with
    | none =>
      have handled := Http.handle_of_text_none (w.sendBuf sender) silent
      refine ⟨_, goes handled, rfl, rfl, fun t other => ⟨others _ _ t other, others _ _ t other⟩,
        ⟨lines, ?_, rfl⟩, ⟨_, handled, Function.update_self ..⟩, .inl ⟨silent, ?_, ?_⟩, rfl⟩
      · simp only [receives, Function.update_self]
      · exact Function.update_self ..
      · exact List.append_nil _
    | some text =>
      obtain ⟨b, printed, handled⟩ := Http.printsOver_handle (w.sendBuf sender) silent
      refine ⟨_, goes handled, rfl, rfl, fun t other => ⟨others _ _ t other, others _ _ t other⟩,
        ⟨lines, ?_, rfl⟩, ⟨_, handled, Function.update_self ..⟩,
        .inr ⟨text, b.bytes, silent, printed, ?_, rfl⟩, rfl⟩
      · simp only [receives, Function.update_self]
      · exact congrArg Buffer.bytes (Function.update_self ..)
  cases sender with
  | worker j =>
    obtain ⟨b, written, -⟩ := (w.recvBuf (.worker j)).write_zero received.fits
    exact .inl (served (by rw [Reader.receive, written]; rfl))
  | thread i =>
    rcases Http.receive_ok_or_outOfRange (w.recvBuf (.thread i)) received with
      ⟨b, lines, ok⟩ | past
    · exact .inl (served ok)
    · refine .inr ⟨i, rfl, ?_, past⟩
      rw [Answering.serve, Reader.receive, past]
      rfl

theorem Answers.of_answer (h : answer cpuCore w x = some w') :
    w.fault = none ∧ x.fits = true ∧ Answers cpuCore w x w' := by
  unfold answer at h
  split_ifs at h with closed
  obtain ⟨fine, fits⟩ : w.fault = none ∧ x.fits = true := by simpa using closed
  obtain ⟨s, step, h⟩ := Option.bind_eq_some_iff.mp h
  refine ⟨fine, fits, ?_⟩
  cases read : w.server.request x.act with
  | none =>
    obtain rfl := Option.some.inj (read ▸ h)
    exact .quiet step read
  | some request =>
    obtain ⟨sender, fd, r⟩ := request
    simp only [read] at h
    rcases serve_cases w s sender fd r x.received with
      ⟨w₁, served, rfl, replies⟩ | ⟨i, rfl, failed, past⟩
    · rw [served] at h
      obtain rfl := Option.some.inj h
      exact .reply step read replies
    · rw [failed] at h
      obtain rfl := Option.some.inj h
      exact .overrun step read past

/-- While no thread has left a buffer, each step of the server is one with its reply. -/
theorem answer_enabled (fine : w.fault = none) (fits : x.fits = true)
    (h : step cpuCore w.server x.act = some s) : ∃ w', answer cpuCore w x = some w' := by
  simp only [answer, fine, fits, h, Option.isSome_none, Bool.not_true, Bool.or_self,
    Bool.false_eq_true, if_false, Option.bind_some]
  split
  · exact ⟨_, rfl⟩
  · split <;> exact ⟨_, rfl⟩

/-! ## The server without its replies -/

/-- Induction over a run in which no thread has left a buffer, adding the last step. -/
theorem answer_induction {P : List Heard → Answering → Prop} (start : P [] (.listening n))
    (quiet : ∀ xs w x s, run (answer cpuCore) (.listening n) xs = some w → w.fault = none →
      P xs w → step cpuCore w.server x.act = some s → w.server.request x.act = none →
      P (xs ++ [x]) { w with server := s })
    (reply : ∀ xs w x w' sender fd r, run (answer cpuCore) (.listening n) xs = some w →
      w.fault = none → P xs w → x.fits = true → step cpuCore w.server x.act = some w'.server →
      w.server.request x.act = some (sender, fd, r) → w.Replies w' sender fd r x.received →
      P (xs ++ [x]) w') :
    ∀ xs w, run (answer cpuCore) (.listening n) xs = some w → w.fault = none → P xs w := by
  refine run_induction (fun _ => start) ?_
  intro xs w x w' hw ih ha fine'
  obtain ⟨fine, fits, answers⟩ := Answers.of_answer ha
  cases answers with
  | quiet step none_ => exact quiet xs w x _ hw fine (ih fine) step none_
  | reply step read replies => exact reply xs w x w' _ _ _ hw fine (ih fine) fits step read replies
  | overrun => cases fine'

/-- A run with its replies is a run of the server. -/
theorem server_of_run (h : run (answer cpuCore) (.listening n) xs = some w)
    (fine : w.fault = none) :
    run (step cpuCore) (.listening n) (xs.map Heard.act) = some w.server := by
  have extend {xs : List Heard} {x : Heard} {s s' : State}
      (ih : run (step cpuCore) (.listening n) (xs.map Heard.act) = some s)
      (step : step cpuCore s x.act = some s') :
      run (Server.step cpuCore) (.listening n) ((xs ++ [x]).map Heard.act) = some s' := by
    rw [List.map_append, List.map_singleton]
    exact run_concat.mpr ⟨s, ih, step⟩
  refine answer_induction (P := fun xs w =>
    run (step cpuCore) (.listening n) (xs.map Heard.act) = some w.server) rfl ?_ ?_ xs w h fine
  · intro xs w x s _ _ ih step _
    exact extend ih step
  · intro xs w x w' _ _ _ _ _ ih _ step _ _
    exact extend ih step

/-- A thread that leaves a buffer ends the run, and nothing else has changed. -/
theorem fault_cases_of_run (h : run (answer cpuCore) (.listening n) xs = some w) :
    w.fault = none ∨ ∃ pre u i, run (answer cpuCore) (.listening n) pre = some u ∧
      u.fault = none ∧ w = { u with fault := some (.thread i, .outOfRange) } := by
  cases xs using List.reverseRecOn with
  | nil =>
    obtain rfl : Answering.listening n = w := by simpa using h
    exact .inl rfl
  | append_singleton pre x =>
    obtain ⟨u, hu, ha⟩ := run_concat.mp h
    obtain ⟨fine, -, answers⟩ := Answers.of_answer ha
    cases answers with
    | quiet => exact .inl fine
    | reply _ _ replies => exact .inl replies.fault
    | overrun => exact .inr ⟨pre, u, _, hu, fine, rfl⟩

theorem exists_server_run (h : run (answer cpuCore) (.listening n) xs = some w) :
    ∃ as, run (step cpuCore) (.listening n) as = some w.server := by
  rcases fault_cases_of_run h with fine | ⟨pre, u, i, hu, fine, rfl⟩
  · exact ⟨_, server_of_run h fine⟩
  · have before := server_of_run hu fine
    exact ⟨_, before⟩

/-- The requests that were read are those of the server. -/
theorem requests_of_run (h : run (answer cpuCore) (.listening n) xs = some w)
    (fine : w.fault = none) :
    w.requests = requestsAlong cpuCore (.listening n) (xs.map Heard.act) := by
  refine answer_induction (P := fun xs w =>
    w.requests = requestsAlong cpuCore (.listening n) (xs.map Heard.act)) rfl ?_ ?_ xs w h fine
  · intro xs w x s hw fine ih _ none_
    rw [List.map_append, List.map_singleton, requestsAlong_concat (server_of_run hw fine), ← ih,
      none_, Option.toList_none, List.append_nil]
  · intro xs w x w' sender fd r hw fine ih _ _ read replies
    rw [List.map_append, List.map_singleton, requestsAlong_concat (server_of_run hw fine), ← ih,
      read, Option.toList_some, replies.requests]

/-! ## The pool threads -/

/-- Pool thread `i` is where these reads bring a `PoolThread`. -/
def Answering.IsThread (w : Answering) (i : ℕ) (reads : List ReadResult) : Prop :=
  ∃ t, run PoolThread.serve .idle reads = some t ∧ t.recvBuf = w.recvBuf (.thread i) ∧
    t.sender.sendBuf = w.sendBuf (.thread i) ∧ t.logged = w.loggedBy (.thread i)

theorem Answering.IsThread.leaves {reads : List ReadResult} (h : w.IsThread i reads) :
    Http.Leaves reads (w.recvBuf (.thread i)) := by
  obtain ⟨t, served, recvBuf, -, -⟩ := h
  exact recvBuf ▸ Http.leaves_of_run served

theorem readsOf_concat (i : ℕ) (xs : List Heard) (x : Heard) :
    readsOf i (xs ++ [x]) = readsOf i xs ++ readsOf i [x] := List.filterMap_append

theorem readsOf_cases (i : ℕ) (x : Heard) :
    (∃ m, x.act = .taskRead i m) ∧ readsOf i [x] = [x.received] ∨
      (∀ m, x.act ≠ .taskRead i m) ∧ readsOf i [x] = [] := by
  cases act : x.act
  case taskRead j m => by_cases same : j = i <;> simp [readsOf, act, same]
  all_goals exact .inr ⟨by simp, by simp [readsOf, act]⟩

/-- A pool thread reads in its task only. -/
theorem request_thread_iff (m : Move cpuCore s a s') :
    (∃ fd r, s.request a = some (.thread i, fd, r)) ↔ ∃ n, a = .taskRead i n := by
  constructor
  · rintro ⟨fd, r, read⟩
    obtain ⟨n, act, -⟩ := taskRead_of_request read
    exact ⟨n, act⟩
  · rintro ⟨n, rfl⟩
    cases m
    case taskRead c _ _ _ job _ _ =>
      exact ⟨c.info.eplev.fd, .first n, by simp only [State.request, job]⟩

theorem reads_iff (m : Move cpuCore s x.act s') :
    readsOf i [x] = [x.received] ↔ ∃ fd r, s.request x.act = some (.thread i, fd, r) := by
  rw [request_thread_iff m]
  rcases readsOf_cases i x with ⟨mine, reads⟩ | ⟨other, nothing⟩
  · exact iff_of_true reads mine
  · refine iff_of_false (by simp [nothing]) fun ⟨n, act⟩ => other n act

theorem Answering.Replies.loggedBy (h : w.Replies w' sender fd r received) :
    ∃ lines, sender.receive (w.recvBuf sender) received = .ok (w'.recvBuf sender, lines) ∧
      ∀ t, w'.loggedBy t = w.loggedBy t ++ if sender = t then lines else [] := by
  obtain ⟨lines, receives, logged⟩ := h.receives
  refine ⟨lines, receives, fun t => ?_⟩
  rw [Answering.loggedBy, logged, List.filter_append, List.map_append, Answering.loggedBy]
  by_cases same : sender = t <;> simp [List.filter_map, Function.comp_def, same]

/-- The thread serves one more request. -/
theorem Answering.IsThread.reply {reads : List ReadResult} {m : ℤ} (h : w.IsThread i reads)
    (replies : w.Replies w' (.thread i) fd (.first m) received)
    (returns : received.readn = max m (-1)) : w'.IsThread i (reads ++ [received]) := by
  obtain ⟨lines, receives, logged⟩ := replies.loggedBy
  obtain ⟨t, served, recvBuf, sendBuf, log⟩ := h
  obtain ⟨o, handled, sent⟩ := replies.handles
  have answers : Http.step t.sender (.first received.readn) =
      some ⟨o.sendBuf, t.sender.sent ++
        (o.message.map fun m => (.first received.readn, m)).toList⟩ := by
    rw [Http.step, returns, Http.handle_first_max, sendBuf, handled]
  have serves : t.serve received = some ⟨_, _, _⟩ :=
    Http.serve_eq_some.mpr ⟨_, _, _, recvBuf ▸ receives, answers, rfl⟩
  refine ⟨_, run_concat.mpr ⟨t, served, serves⟩, rfl, sent.symm, ?_⟩
  rw [logged, if_pos rfl, log]

/-- Another thread serves a request. -/
theorem Answering.IsThread.other {reads : List ReadResult} (h : w.IsThread i reads)
    (replies : w.Replies w' sender fd r received) (other : sender ≠ .thread i) :
    w'.IsThread i reads := by
  obtain ⟨lines, -, logged⟩ := replies.loggedBy
  obtain ⟨recvBuf, sendBuf⟩ := replies.others _ (Ne.symm other)
  unfold Answering.IsThread
  rw [recvBuf, sendBuf, logged, if_neg other, List.append_nil]
  exact h

/-- Every pool thread of the server is a `PoolThread`, as long as none has left a buffer. -/
theorem threads_of_run (h : run (answer cpuCore) (.listening n) xs = some w)
    (fine : w.fault = none) (i : ℕ) : w.IsThread i (readsOf i xs) := by
  refine answer_induction (P := fun xs w => w.IsThread i (readsOf i xs)) ⟨.idle, rfl, rfl, rfl, rfl⟩
    ?_ ?_ xs w h fine
  · intro xs w x s _ _ thread step none_
    rcases readsOf_cases i x with ⟨mine, -⟩ | ⟨-, nothing⟩
    · obtain ⟨fd, r, read⟩ := (request_thread_iff (.of_step step)).mpr mine
      simp [none_] at read
    · rw [readsOf_concat, nothing, List.append_nil]
      exact thread
  · intro xs w x w' sender fd r _ _ thread fits step read replies
    rw [readsOf_concat]
    rcases readsOf_cases i x with ⟨mine, reads⟩ | ⟨other, nothing⟩
    · obtain ⟨fd', r', read'⟩ := (request_thread_iff (.of_step step)).mpr mine
      obtain ⟨rfl, -⟩ := Prod.mk.inj (Option.some.inj (read.symm.trans read'))
      obtain ⟨m, act, rfl⟩ := taskRead_of_request read
      rw [reads]
      exact thread.reply replies (by simpa [Heard.fits, act] using fits)
    · rw [nothing, List.append_nil]
      refine thread.other replies ?_
      rintro rfl
      obtain ⟨m, act, -⟩ := taskRead_of_request read
      exact other m act

/-- A pool thread leaves its `TRD_RECV_BUF` exactly after a request that it can not print. -/
theorem answer_printable (h : run (answer cpuCore) (.listening n) xs = some w)
    (ha : answer cpuCore w x = some w') :
    w'.fault = none ∧
        (∀ i, readsOf i [x] = [x.received] → Printable (readsOf i xs) x.received) ∨
      ∃ i, w'.fault = some (.thread i, .outOfRange) ∧ readsOf i [x] = [x.received] ∧
        ¬ Printable (readsOf i xs) x.received := by
  obtain ⟨fine, -, answers⟩ := Answers.of_answer ha
  have leaves (i : ℕ) := (threads_of_run h fine i).leaves.receive_cases x.received
  cases answers with
  | quiet step none_ =>
    refine .inl ⟨fine, fun i reads => ?_⟩
    obtain ⟨fd, r, read⟩ := (reads_iff (.of_step step)).mp reads
    simp [none_] at read
  | @reply _ sender _ _ step read replies =>
    refine .inl ⟨replies.fault, fun i reads => ?_⟩
    obtain ⟨fd, r, read'⟩ := (reads_iff (.of_step step)).mp reads
    obtain ⟨rfl, -⟩ := Prod.mk.inj (Option.some.inj (read.symm.trans read'))
    rcases leaves i with ⟨printable, -⟩ | ⟨-, past⟩
    · exact printable
    · obtain ⟨lines, receives, -⟩ := replies.receives
      rw [Reader.receive, past] at receives
      cases receives
  | @overrun _ i _ _ step read past =>
    refine .inr ⟨i, rfl, (reads_iff (.of_step step)).mpr ⟨_, _, read⟩, ?_⟩
    rcases leaves i with ⟨-, b, lines, ok⟩ | ⟨unprintable, -⟩
    · simp [ok] at past
    · exact unprintable

theorem allPrintable_concat (xs : List Heard) (x : Heard) :
    AllPrintable (xs ++ [x]) ↔
      AllPrintable xs ∧
        ∀ i, readsOf i [x] = [x.received] → Printable (readsOf i xs) x.received := by
  unfold AllPrintable
  constructor
  · intro all
    refine ⟨fun i earlier received later reads => ?_, fun i reads => ?_⟩
    · refine all i earlier received (later ++ readsOf i [x]) ?_
      rw [readsOf_concat, reads, List.append_assoc, List.cons_append]
    · exact all i (readsOf i xs) x.received [] (by rw [readsOf_concat, reads])
  · rintro ⟨before, last⟩ i
    rcases readsOf_cases i x with ⟨-, reads⟩ | ⟨-, nothing⟩
    · rw [readsOf_concat, reads]
      exact forall_split_concat.mpr ⟨before i, last i reads⟩
    · rw [readsOf_concat, nothing, List.append_nil]
      exact before i

/-- A run of the server goes through with its replies if and only if each request that a pool
thread prints is ended by a NUL in its buffer. -/
theorem answers_iff_printable (h : run (step cpuCore) (.listening n) (xs.map Heard.act) = some s)
    (fits : ∀ x ∈ xs, x.fits = true) :
    (∃ w, run (answer cpuCore) (.listening n) xs = some w ∧ w.fault = none) ↔ AllPrintable xs := by
  induction xs using List.reverseRecOn generalizing s with
  | nil =>
    refine iff_of_true ⟨_, rfl, rfl⟩ fun i earlier received later reads => ?_
    simp [readsOf] at reads
  | append_singleton xs x ih =>
    rw [List.map_append, List.map_singleton] at h
    obtain ⟨t, ht, step⟩ := run_concat.mp h
    rw [allPrintable_concat, ← ih ht fun y mem => fits y (by simp [mem])]
    constructor
    · rintro ⟨w', hw', fine'⟩
      obtain ⟨w, hw, ha⟩ := run_concat.mp hw'
      rcases answer_printable hw ha with ⟨-, last⟩ | ⟨i, left, -⟩
      · exact ⟨⟨w, hw, (Answers.of_answer ha).1⟩, last⟩
      · simp [left] at fine'
    · rintro ⟨⟨w, hw, fine⟩, last⟩
      obtain rfl : w.server = t := by simpa [ht] using (server_of_run hw fine).symm
      obtain ⟨w', ha⟩ := answer_enabled fine (fits x (by simp)) step
      rcases answer_printable hw ha with ⟨fine', -⟩ | ⟨i, -, reads, unprintable⟩
      · exact ⟨w', run_concat.mpr ⟨w, hw, ha⟩, fine'⟩
      · exact absurd (last i reads) unprintable

/-! ## Clients that send NULs -/

/-- A step in which a client sends NULs, if any bytes are read. -/
def Heard.nul (a : Act) : Heard where
  act := a
  received :=
    match a with
    | .taskRead _ n | .read _ n =>
      if n < 0 then .failed
      else if fits : n.toNat ≤ bufsiz then
        .data (List.replicate n.toNat 0) (List.length_replicate.trans_le fits)
      else .failed
    | _ => .failed

theorem map_act_nul (as : List Act) : (as.map Heard.nul).map Heard.act = as := by
  rw [List.map_map]
  exact List.map_id as

theorem received_nul (a : Act) :
    (Heard.nul a).received.bytes = [] ∨ 0 ∈ (Heard.nul a).received.bytes := by
  have content (n : ℤ) (fits : (List.replicate n.toNat (0 : UInt8)).length ≤ bufsiz) :
      (ReadResult.data _ fits).bytes = [] ∨ 0 ∈ (ReadResult.data _ fits).bytes := by
    by_cases zero : n.toNat = 0
    · exact .inl (by simp [ReadResult.bytes, zero])
    · exact .inr (List.mem_replicate.mpr ⟨zero, rfl⟩)
  unfold Heard.nul
  cases a
  case taskRead i n | read i n =>
    simp only
    split_ifs with failed fits
    · exact .inl rfl
    · exact content n _
    · exact .inl rfl
  all_goals exact .inl rfl

theorem allPrintable_nul (as : List Act) : AllPrintable (as.map Heard.nul) := by
  intro i earlier received later reads
  have mem : received ∈ readsOf i (as.map Heard.nul) := by simp [reads]
  obtain ⟨x, hx, read⟩ := List.mem_filterMap.mp mem
  obtain ⟨a, -, rfl⟩ := List.mem_map.mp hx
  have clean : received.bytes = [] ∨ 0 ∈ received.bytes := by
    split at read
    · split_ifs at read with same
      obtain rfl := Option.some.inj read
      exact received_nul a
    · cases read
  exact clean.imp_right .inl

/-- `read` returns no more than was asked for. -/
theorem Move.fits_nul (m : Move cpuCore s a s') : (Heard.nul a).fits = true := by
  have returns {n : ℤ} {c : Connection} (read : c.mayRead n = true) (nonneg : ¬ n < 0) :
      n.toNat ≤ bufsiz := by
    unfold Connection.mayRead at read
    split_ifs at read with zero
    · omega
    · have bound : n ≤ bufsiz := by simpa using (Bool.and_eq_true_iff.mp read).2
      omega
  have fits {n : ℤ} {c : Connection} (read : c.mayRead n = true) :
      (if n < 0 then ReadResult.failed
        else if fits : n.toNat ≤ bufsiz then
          .data (List.replicate n.toNat 0) (List.length_replicate.trans_le fits)
        else .failed).readn = max n (-1) := by
    split_ifs with failed inside
    · simp only [ReadResult.readn]
      omega
    · simp only [ReadResult.readn, List.length_replicate]
      omega
    · exact absurd (returns read failed) inside
  cases m
  case taskRead read _ | read read _ => exact decide_eq_true (fits read)
  all_goals rfl

theorem fits_nul_of_run (h : run (step cpuCore) (.listening n) as = some s) :
    ∀ x ∈ as.map Heard.nul, x.fits = true := by
  refine run_induction (P := fun as _ => ∀ x ∈ as.map Heard.nul, x.fits = true) (by simp) ?_ as s h
  intro as s a s' _ ih ha x mem
  rw [List.map_append, List.mem_append] at mem
  rcases mem with earlier | last
  · exact ih x earlier
  · obtain rfl := List.mem_singleton.mp last
    exact (Move.of_step ha).fits_nul

/-- Every run of the server is one with its replies, if the clients send NULs. -/
theorem exists_answers (h : run (step cpuCore) (.listening n) as = some s) :
    ∃ w, run (answer cpuCore) (.listening n) (as.map Heard.nul) = some w ∧ w.fault = none ∧
      w.server = s := by
  have whole : run (step cpuCore) (.listening n) ((as.map Heard.nul).map Heard.act) = some s := by
    rw [map_act_nul]
    exact h
  obtain ⟨w, hw, fine⟩ :=
    (answers_iff_printable whole (fits_nul_of_run h)).mpr (allPrintable_nul as)
  exact ⟨w, hw, fine, Option.some.inj ((server_of_run hw fine).symm.trans whole)⟩

end EpollServer.Server
