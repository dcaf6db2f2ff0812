import EpollServer.Server.Answering

/-!
# What the server answers

The requests of a client are answered in the order in which they were read, the first one by the
page of its pool thread, all others by the worker that has recorded the client; and behind its text
each message has the bytes of the last message of the same thread.
-/
namespace EpollServer.Server

open Library
open Http (overwrite)

/-- The requests of one client. -/
def Answering.requestsOf (w : Answering) (fd : Int) : List (Reader × Http.Request) :=
  (w.requests.filter (·.2.1 == fd)).map fun r => (r.1, r.2.2)

/-- The messages to one client. -/
def Answering.repliesTo (w : Answering) (fd : Int) : List Reply := w.wire.filter (·.fd == fd)

/-- The last message of a thread, or the buffer as the thread got it. -/
def lastMessage (wire : List Reply) (sender : Reader) : List UInt8 :=
  ((wire.filter (·.sender == sender)).getLast?).elim (List.replicate bufsiz 0) Reply.message

variable {cpuCore : Int} {s s' : State} {a : Act} {n : ℕ} {as : List Act} {w w' : Answering}
  {xs : List Heard} {sender : Reader} {fd : Int} {r : Http.Request} {received : Http.ReadResult}

/-! ## Whole runs -/

/-- A pool thread has read the first request of the client; all others were read by one worker,
which has recorded the client. -/
def State.InTurn (s : State) (fd : Int) (requests : List (Reader × Http.Request)) : Prop :=
  ∃ (i j : ℕ) (readn : ℤ) (ns : List ℤ),
    requests = (.thread i, .first readn) :: ns.map (fun n => (.worker j, .epollin n)) ∧
      (ns ≠ [] → s.isAt fd (.recorded j) = true)

/-- What the requests and replies of the server have in common with its state. -/
structure Conversing (w : Answering) : Prop where
  begun : ∀ fd, w.server.begun fd → w.server.InTurn fd (w.requestsOf fd)
  fresh : ∀ fd, ¬ w.server.begun fd → w.requestsOf fd = []
  bytes : ∀ fd, ((w.requestsOf fd).map fun r => r.2.readn.toNat).sum = w.server.taken fd
  replies : w.wire.map (fun m => (m.sender, m.fd, m.request)) =
    w.requests.filter (·.2.2.answered)
  buffers : ∀ sender, (w.sendBuf sender).bytes = lastMessage w.wire sender
  texts : ∀ pre m post, w.wire = pre ++ m :: post →
    ∃ text, m.request.text = some text ∧ m.message = overwrite (lastMessage pre m.sender) text

theorem Conversing.listening (n : ℕ) : Conversing (.listening n) where
  begun fd h := by
    obtain ⟨p, at_, -⟩ := h
    exact absurd at_ not_isAt_listening
  fresh _ _ := rfl
  bytes fd := rfl
  replies := rfl
  buffers _ := rfl
  texts pre m post h := by simp [Answering.listening] at h

theorem Answering.Replies.requestsOf (h : w.Replies w' sender fd r received) (fd' : Int) :
    w'.requestsOf fd' = w.requestsOf fd' ++ if fd = fd' then [(sender, r)] else [] := by
  rw [Answering.requestsOf, h.requests, List.filter_append, List.map_append, Answering.requestsOf]
  by_cases same : fd = fd' <;> simp [same]

theorem lastMessage_append (wire : List Reply) (m : Reply) (sender : Reader) :
    lastMessage (wire ++ [m]) sender =
      if m.sender = sender then m.message else lastMessage wire sender := by
  unfold lastMessage
  by_cases same : m.sender = sender <;> simp [List.filter_append, same]

/-- A worker keeps the clients that it has recorded. -/
theorem State.Advances.recorded {j : ℕ} (h : s.Advances s')
    (at_ : s.isAt fd (.recorded j) = true) : s'.isAt fd (.recorded j) = true := by
  rcases h.follow at_ with stays | ⟨q, leg, -⟩
  · exact stays
  · simp [Place.next] at leg

theorem State.InTurn.advance {requests : List (Reader × Http.Request)} (h : s.Advances s')
    (turn : s.InTurn fd requests) : s'.InTurn fd requests := by
  obtain ⟨i, j, readn, ns, order, recorded⟩ := turn
  exact ⟨i, j, readn, ns, order, fun some_ => h.recorded (recorded some_)⟩

theorem Conversing.quiet (h : Conversing w) (m : Move cpuCore w.server a s')
    (sound : Sound w.server) (untouched : Untouched w.server) (quiet : w.server.request a = none) :
    Conversing { w with server := s' } where
  begun fd begun := by
    rcases begun_new m (sound.advances m) begun with old | ⟨i, n, read⟩
    · exact (h.begun fd old).advance (sound.advances m)
    · simp [quiet] at read
  fresh fd fresh := h.fresh fd fun begun => fresh (begun_keep (sound.advances m) begun)
  bytes fd := by
    have same := m.taken untouched sound.counting fd
    rw [State.requestBytes, quiet] at same
    exact (h.bytes fd).trans same.symm
  replies := h.replies
  buffers := h.buffers
  texts := h.texts

/-- The requests of each client are in order after one more request. -/
theorem Conversing.order (h : Conversing w)
    (m : Move cpuCore w.server a w'.server) (sound : Sound w.server)
    (own : WorkerPool.OwnClients w.server.workers)
    (unique : ∀ fd p q, w.server.isAt fd p = true → w.server.isAt fd q = true → p = q)
    (read : w.server.request a = some (sender, fd, r))
    (replies : w.Replies w' sender fd r received) :
    (∀ fd, w'.server.begun fd → w'.server.InTurn fd (w'.requestsOf fd)) ∧
      ∀ fd, ¬ w'.server.begun fd → w'.requestsOf fd = [] := by
  have advances := sound.advances m
  have others (fd' : Int) (other : fd ≠ fd') : (w'.server.begun fd' → w.server.begun fd') ∧
      w'.requestsOf fd' = w.requestsOf fd' := by
    constructor
    · intro begun
      rcases begun_new m advances begun with old | ⟨i, n, read'⟩
      · exact old
      · have same := congrArg (Option.map fun x => x.2.1) (read.symm.trans read')
        exact absurd (Option.some.inj same) other
    · rw [replies.requestsOf, if_neg other, List.append_nil]
  have mine : w'.server.begun fd ∧ w'.server.InTurn fd (w'.requestsOf fd) := by
    rw [replies.requestsOf, if_pos rfl]
    rcases request_cases read with ⟨i, n, rfl, rfl⟩ | ⟨j, n, rfl, rfl, reads⟩
    · obtain ⟨before, after⟩ := begun_first m read
      have fresh : ¬ w.server.begun fd := by
        rintro ⟨p, at_, far⟩
        rw [unique fd p _ at_ before] at far
        exact absurd far (by simp [Place.rank])
      refine ⟨⟨_, after, le_rfl⟩, i, 0, n, [], ?_, fun some_ => absurd rfl some_⟩
      rw [h.fresh fd fresh, List.nil_append, List.map_nil]
    · have at_ : w.server.isAt fd (.recorded j) = true := isAt_of_reads own reads
      have begun : w.server.begun fd := ⟨_, at_, by simp [Place.rank]⟩
      obtain ⟨i, k, readn, ns, earlier, recorded⟩ := h.begun fd begun
      -- the worker that has read from the client before is the one that has recorded it
      have same : ns.map (fun n => (Reader.worker k, Http.Request.epollin n)) =
          ns.map fun n => (Reader.worker j, Http.Request.epollin n) := by
        cases ns with
        | nil => rfl
        | cons m ns =>
          obtain rfl := Place.recorded.inj (unique fd _ _ (recorded (by simp)) at_)
          rfl
      refine ⟨begun_keep advances begun, i, j, readn, ns ++ [n], ?_, fun _ => ?_⟩
      · rw [earlier, same, List.map_append, List.map_singleton, List.cons_append]
      · exact advances.recorded at_
  refine ⟨fun fd' begun => ?_, fun fd' fresh => ?_⟩
  · by_cases other : fd = fd'
    · exact other ▸ mine.2
    · rw [(others fd' other).2]
      exact (h.begun fd' ((others fd' other).1 begun)).advance advances
  · by_cases other : fd = fd'
    · exact absurd (other ▸ mine.1) fresh
    · rw [(others fd' other).2]
      exact h.fresh fd' fun begun => fresh (begun_keep advances begun)

/-- The messages after one more request. -/
theorem Conversing.messages (h : Conversing w) (replies : w.Replies w' sender fd r received) :
    w'.wire.map (fun m => (m.sender, m.fd, m.request)) = w'.requests.filter (·.2.2.answered) ∧
      (∀ sender, (w'.sendBuf sender).bytes = lastMessage w'.wire sender) ∧
      ∀ pre m post, w'.wire = pre ++ m :: post →
        ∃ text, m.request.text = some text ∧
          m.message = overwrite (lastMessage pre m.sender) text := by
  rcases replies.own with ⟨silent, same, wire⟩ | ⟨text, message, said, printed, sent, wire⟩
  · refine ⟨?_, fun t => ?_, ?_⟩
    · rw [wire, replies.requests, h.replies, List.filter_append]
      simp [Http.answered_iff_text, silent]
    · rw [wire, ← h.buffers]
      by_cases other : t = sender
      · rw [other, same]
      · rw [(replies.others t other).2]
    · rw [wire]
      exact h.texts
  · refine ⟨?_, fun t => ?_, ?_⟩
    · rw [wire, replies.requests, List.map_append, h.replies, List.filter_append]
      simp [Http.answered_iff_text, said]
    · rw [wire, lastMessage_append]
      split_ifs with mine
      · rw [← mine, sent]
      · rw [(replies.others t (Ne.symm mine)).2, h.buffers]
    · rw [wire]
      intro pre m post split
      refine (forall_split_concat (T := fun pre (m : Reply) => ∃ text,
        m.request.text = some text ∧ m.message = overwrite (lastMessage pre m.sender) text)).mpr ?_
        pre m post split
      exact ⟨h.texts, text, said, by rw [printed, h.buffers]⟩

theorem Conversing.reply (h : Conversing w) (m : Move cpuCore w.server a w'.server)
    (sound : Sound w.server) (untouched : Untouched w.server)
    (own : WorkerPool.OwnClients w.server.workers)
    (unique : ∀ fd p q, w.server.isAt fd p = true → w.server.isAt fd q = true → p = q)
    (read : w.server.request a = some (sender, fd, r))
    (replies : w.Replies w' sender fd r received) : Conversing w' := by
  obtain ⟨begun, fresh⟩ := h.order m sound own unique read replies
  obtain ⟨answered, buffers, texts⟩ := h.messages replies
  refine ⟨begun, fresh, fun fd' => ?_, answered, buffers, texts⟩
  simp only [m.taken untouched sound.counting, ← h.bytes, replies.requestsOf, State.requestBytes,
    read, List.map_append, List.sum_append]
  by_cases same : fd = fd' <;> simp [same]

theorem conversing_of_run (h : run (answer cpuCore) (.listening n) xs = some w) :
    Conversing w := by
  have fine_ {xs : List Heard} {w : Answering} (h : run (answer cpuCore) (.listening n) xs = some w)
      (fine : w.fault = none) : Conversing w := by
    refine answer_induction (P := fun _ w => Conversing w) (.listening n) ?_ ?_ xs w h fine
    · intro xs w x s hw fine conversing step none_
      have hs := server_of_run hw fine
      exact conversing.quiet (.of_step step) (sound_of_run hs) (untouched_of_run hs) none_
    · intro xs w x w' sender fd r hw fine conversing _ step read replies
      have hs := server_of_run hw fine
      exact conversing.reply (.of_step step) (sound_of_run hs) (untouched_of_run hs)
        (ownClients_of_run hs) (fun _ _ _ => unique_of_run hs) read replies
  rcases fault_cases_of_run h with fine | ⟨pre, u, i, hu, fine, rfl⟩
  · exact fine_ h fine
  · have before := fine_ hu fine
    exact ⟨before.begun, before.fresh, before.bytes, before.replies, before.buffers, before.texts⟩

/-- For every run of the server, whatever its clients send, there is the same run with its replies
as long as a NUL ends in its buffer each request that a pool thread prints; otherwise it ends at
the first one that none ends. In every such run the requests of a client are none before its first
`read` has returned; after that they are one by a pool thread, and then those by the worker that
has recorded it. They make up the bytes that were taken from its socket, and the messages to the
client answer them one by one, each request that is answered at all, by the thread that read it. -/
theorem replies_in_order (h : run (step cpuCore) (.listening n) (xs.map Heard.act) = some s)
    (fits : ∀ x ∈ xs, x.fits = true) :
    ((∃ w, run (answer cpuCore) (.listening n) xs = some w ∧ w.fault = none) ↔ AllPrintable xs) ∧
      ∀ w, run (answer cpuCore) (.listening n) xs = some w → (w.fault = none → w.server = s) ∧
        ∀ fd, (¬ w.server.begun fd → w.requestsOf fd = []) ∧
          (w.server.begun fd → w.server.InTurn fd (w.requestsOf fd)) ∧
          ((w.requestsOf fd).map fun r => r.2.readn.toNat).sum = w.server.taken fd ∧
          (w.repliesTo fd).map (fun m => (m.sender, m.request)) =
            (w.requestsOf fd).filter (·.2.answered) := by
  refine ⟨answers_iff_printable h fits, fun w hw => ⟨fun fine => ?_, fun fd => ?_⟩⟩
  · exact Option.some.inj ((server_of_run hw fine).symm.trans h)
  have conversing := conversing_of_run hw
  refine ⟨conversing.fresh fd, conversing.begun fd, conversing.bytes fd, ?_⟩
  calc (w.repliesTo fd).map (fun m => (m.sender, m.request))
      = ((w.wire.map fun m => (m.sender, m.fd, m.request)).filter (·.2.1 == fd)).map
          fun r => (r.1, r.2.2) := by
        rw [List.filter_map, List.map_map]
        rfl
    _ = ((w.requests.filter (·.2.2.answered)).filter (·.2.1 == fd)).map
          fun r => (r.1, r.2.2) := by
        rw [conversing.replies]
    _ = (w.requestsOf fd).filter (·.2.answered) := by
        rw [Answering.requestsOf, List.filter_map, List.filter_filter, List.filter_filter]
        simp only [Function.comp_def, Bool.and_comm]

/-- A client that sends 10 bytes and then one more. -/
def twoRequests : List Act := twoClients ++ secondRequest ++ [.read 0 1]

theorem replies_in_order_twoRequests :
    ∃ s w, run (step 1) (.listening 2) twoRequests = some s ∧
      run (answer 1) (.listening 2) (twoRequests.map Heard.nul) = some w ∧ w.server = s ∧
      s.taken 5 = 11 ∧ s.isAt 5 (.recorded 0) = true ∧ s.InTurn 5 (w.requestsOf 5) ∧
      ((w.requestsOf 5).map fun r => r.2.readn.toNat).sum = 11 ∧
      (w.repliesTo 5).map (fun m => (m.sender, m.request)) =
        (w.requestsOf 5).filter (·.2.answered) := by
  have end_ : (run (step 1) (.listening 2) twoRequests).map
      (fun s => (s.taken 5, s.isAt 5 (.recorded 0))) = some (11, true) := by decide +kernel
  obtain ⟨s, hs, he⟩ := Option.map_eq_some_iff.mp end_
  obtain ⟨taken, recorded⟩ := Prod.mk.inj he
  have whole :
      run (step 1) (.listening 2) ((twoRequests.map Heard.nul).map Heard.act) = some s := by
    rw [map_act_nul]
    exact hs
  obtain ⟨goes, all⟩ := replies_in_order whole (fits_nul_of_run hs)
  obtain ⟨w, hw, fine⟩ := goes.mpr (allPrintable_nul twoRequests)
  obtain ⟨same, replies⟩ := all w hw
  obtain rfl := same fine
  obtain ⟨-, order, bytes, answered⟩ := replies 5
  exact ⟨w.server, w, hs, hw, rfl, taken, recorded, order ⟨_, recorded, by decide⟩,
    bytes.trans taken, answered⟩

/-- For every run of the server there are runs with its replies, and in each of them every message
is the text for its request, a NUL, and behind it the bytes that the last message of the same
thread had there, whichever client that was for. -/
theorem message_over_last (h : run (step cpuCore) (.listening n) as = some s) :
    (∃ xs w, xs.map Heard.act = as ∧ run (answer cpuCore) (.listening n) xs = some w ∧
        w.fault = none ∧ w.server = s) ∧
      ∀ xs w, xs.map Heard.act = as → run (answer cpuCore) (.listening n) xs = some w →
        (w.fault = none → w.server = s) ∧
        ∀ pre m post, w.wire = pre ++ m :: post → ∃ text, m.request.text = some text ∧
          m.message = text ++ 0 :: (lastMessage pre m.sender).drop (text.length + 1) := by
  constructor
  · obtain ⟨w, hw, fine, same⟩ := exists_answers h
    exact ⟨_, w, map_act_nul as, hw, fine, same⟩
  · rintro xs w rfl hw
    refine ⟨fun fine => ?_, (conversing_of_run hw).texts⟩
    exact Option.some.inj ((server_of_run hw fine).symm.trans h)

/-- The only pool thread answers the request of one client, and then a client that has closed. -/
def pageThenText : List Act :=
  boot ++ [.thread 0, .thread 0, .thread 0, .connect 1, .peer 0 (.send 10), .report epollIn, .event,
    .accept (.descriptor 5), .submit [], .count, .connect 2, .peer 1 .close, .report epollIn,
    .event, .accept (.descriptor 6), .submit [], .count, .thread 0, .taskRead 0 10, .task 0,
    .task 0, .task 0, .thread 0, .thread 0, .taskRead 0 0]

/-- The second client gets the rest of the page that was sent to the first one. -/
theorem message_over_last_pageThenText :
    ∃ w m₁ m₂, run (answer 1) (.listening 2) (pageThenText.map Heard.nul) = some w ∧
      w.wire = [m₁, m₂] ∧ m₁.fd = 5 ∧ m₂.fd = 6 ∧ m₁.sender = .thread 0 ∧ m₂.sender = .thread 0 ∧
      m₂.message = bytes "i will keep you connected\n" ++ 0 :: m₁.message.drop 27 := by
  have requests : requestsAlong 1 (.listening 2) pageThenText =
      [(.thread 0, 5, .first 10), (.thread 0, 6, .first 0)] := by decide +kernel
  have enabled : (run (step 1) (.listening 2) pageThenText).isSome = true := by decide +kernel
  obtain ⟨s, hs⟩ := Option.isSome_iff_exists.mp enabled
  obtain ⟨w, hw, fine, -⟩ := exists_answers hs
  obtain ⟨-, texts⟩ := (message_over_last hs).2 _ w (map_act_nul _) hw
  have sent : w.wire.map (fun m => (m.sender, m.fd, m.request)) =
      [(.thread 0, 5, .first 10), (.thread 0, 6, .first 0)] := by
    rw [(conversing_of_run hw).replies, requests_of_run hw fine, map_act_nul, requests]
    rfl
  obtain ⟨m₁, rest, wire, first, sent⟩ := List.map_eq_cons_iff.mp sent
  obtain ⟨m₂, none_, rfl, second, sent⟩ := List.map_eq_cons_iff.mp sent
  obtain rfl := List.map_eq_nil_iff.mp sent
  simp only [Prod.mk.injEq] at first second
  obtain ⟨text, said, message⟩ := texts [m₁] m₂ [] wire
  obtain rfl : bytes "i will keep you connected\n" = text := by
    rw [second.2.2] at said
    exact Option.some.inj said
  have last : lastMessage [m₁] m₂.sender = m₁.message := by
    simp [lastMessage, first.1, second.1]
  have length : (bytes "i will keep you connected\n").length + 1 = 27 := by decide
  rw [last, length] at message
  exact ⟨w, m₁, m₂, hw, wire, first.2.1, second.2.1, first.1, second.1, message⟩

end EpollServer.Server
