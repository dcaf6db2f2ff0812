import EpollServer.Http.Sent

/-!
# What a pool thread logs

The task of `tcp_worker_pool::submit` reads into `TRD_RECV_BUF`, a buffer that its thread keeps for
the next task, and prints it as a string. `read` stores no NUL, and nothing clears the buffer, so
the text ends where an earlier request, or the end of the buffer, makes it end.
-/
namespace EpollServer.Http
open Library

/-- The outcome of `read(fd, TRD_RECV_BUF, BUFSIZ)`; no bytes are the end of the stream. -/
inductive ReadResult where
  | failed
  | data (bytes : List UInt8) (fits : bytes.length ≤ bufsiz)
  deriving DecidableEq, Repr

namespace ReadResult

/-- What is stored in the buffer. -/
def bytes : ReadResult → List UInt8
  | failed => []
  | data bytes _ => bytes

/-- What is returned. -/
def readn : ReadResult → ℤ
  | failed => -1
  | data bytes _ => bytes.length

end ReadResult

/-- The line of `printf("and http request is: %s\n", …)`. -/
def requestLine (text : List UInt8) : List UInt8 :=
  bytes "and http request is: " ++ text ++ bytes "\n"

/-- The first part of the task: the buffer after it, and the lines logged. -/
def receive (b : Buffer) (received : ReadResult) : Except Fault (Buffer × List (List UInt8)) := do
  let b ← b.write 0 received.bytes
  if 0 < received.readn then do
    let text ← b.text
    return (b, [requestLine text])
  else return (b, [])

/-- A pool thread: its two buffers, what it has sent and what it has logged. -/
structure PoolThread where
  recvBuf : Buffer
  sender : Sender
  logged : List (List UInt8)

/-- One task; a fault stops the thread. -/
def PoolThread.serve (t : PoolThread) (received : ReadResult) : Option PoolThread :=
  match receive t.recvBuf received with
  | .error _ => none
  | .ok (b, lines) =>
    (step t.sender (.first received.readn)).map fun sender => ⟨b, sender, t.logged ++ lines⟩

/-- A pool thread before its first task. -/
def PoolThread.idle : PoolThread := ⟨.zero, Http.idle, []⟩

/-- The lines for a request that show no more than its own bytes. -/
def ReadResult.ownLines (received : ReadResult) : List (List UInt8) :=
  if 0 < received.readn then [requestLine (cString received.bytes)] else []

/-- The thread serves all requests, and logs for each its own bytes up to the first NUL. -/
def LogsOwn (as : List ReadResult) : Prop :=
  ∃ t, run PoolThread.serve .idle as = some t ∧ t.logged = as.flatMap ReadResult.ownLines

/-- Whatever the thread has served before, it logs the same for this request. -/
def SameAfterAll (received : ReadResult) : Prop :=
  ∀ as as' t t', run PoolThread.serve .idle as = some t → run PoolThread.serve .idle as' = some t' →
    ∃ b b' lines, receive t.recvBuf received = .ok (b, lines) ∧
      receive t'.recvBuf received = .ok (b', lines)

/-- Byte `i` of the buffer after earlier requests: that of the last one that was long enough. -/
def behind (earlier : List ReadResult) (i : ℕ) : UInt8 :=
  earlier.foldl (fun c received => received.bytes[i]?.getD c) 0

/-- Nothing was read, or a NUL was, or there is room for one and it is there by chance. -/
def Terminated (earlier : List ReadResult) (received : ReadResult) : Prop :=
  received.bytes = [] ∨ 0 ∈ received.bytes ∨
    received.bytes.length < bufsiz ∧ behind earlier received.bytes.length = 0

/-- Nothing was read, or a NUL ends in the buffer what is printed. -/
def Printable (earlier : List ReadResult) (received : ReadResult) : Prop :=
  received.bytes = [] ∨ 0 ∈ received.bytes ∨
    ∃ i, received.bytes.length ≤ i ∧ i < bufsiz ∧ behind earlier i = 0

/-! ## The buffer after a request -/

/-- The buffer holds what the requests have left in it. -/
def Leaves (earlier : List ReadResult) (b : Buffer) : Prop :=
  ∀ i, i < bufsiz → b.bytes[i]? = some (behind earlier i)

variable {b b' : Buffer} {received : ReadResult} {as earlier : List ReadResult}
  {t : PoolThread} {lines : List (List UInt8)}

theorem ReadResult.fits : received.bytes.length ≤ bufsiz := by
  cases received with
  | failed => exact Nat.zero_le _
  | data bytes fits => exact fits

theorem ReadResult.readn_pos : 0 < received.readn ↔ received.bytes ≠ [] := by
  cases received with
  | failed => simp [readn, bytes]
  | data bytes fits => simp [readn, ReadResult.bytes, List.length_pos_iff]

theorem Leaves.zero : Leaves [] .zero := by
  intro i hi
  simp [Buffer.zero, behind, hi]

theorem Leaves.write (h : Leaves earlier b)
    (written : b'.bytes = received.bytes ++ b.bytes.drop received.bytes.length) :
    Leaves (earlier ++ [received]) b' := by
  intro i hi
  have last : behind (earlier ++ [received]) i = received.bytes[i]?.getD (behind earlier i) := by
    simp [behind]
  rw [last, written]
  rcases Nat.lt_or_ge i received.bytes.length with front | back
  · simp [List.getElem?_append_left front, front]
  · rw [List.getElem?_append_right back, List.getElem?_drop, Nat.add_sub_cancel' back, h i hi,
      List.getElem?_eq_none back]
    rfl

/-- The string in the buffer ends with the request if the request has a NUL or the byte behind it
is one. -/
theorem Leaves.text_iff (h : Leaves earlier b)
    (written : b'.bytes = received.bytes ++ b.bytes.drop received.bytes.length) :
    b'.text = .ok (cString received.bytes) ↔ 0 ∈ received.bytes ∨
      received.bytes.length < bufsiz ∧ behind earlier received.bytes.length = 0 := by
  have next : (b.bytes.drop received.bytes.length)[0]? = some 0 ↔
      received.bytes.length < bufsiz ∧ behind earlier received.bytes.length = 0 := by
    rw [List.getElem?_drop, Nat.add_zero]
    rcases Nat.lt_or_ge received.bytes.length bufsiz with room | full
    · simp [h _ room, room]
    · rw [List.getElem?_eq_none (by rw [b.size]; exact full)]
      simp [Nat.not_lt.mpr full]
  rw [← next, Buffer.text, written]
  generalize b.bytes.drop received.bytes.length = rest
  by_cases nul : 0 ∈ received.bytes
  · simp [nul, cString_append_of_mem nul]
  rw [cString_append_of_notMem nul, cString_of_notMem nul]
  by_cases later : 0 ∈ rest
  · simp [nul, later, cString_eq_nil_iff later]
  · have absent : rest[0]? ≠ some 0 := fun first => later (List.mem_of_getElem? first)
    simp [nul, later, absent]

theorem requestLine_inj {text text' : List UInt8} (h : requestLine text = requestLine text') :
    text = text' :=
  List.append_cancel_left (List.append_cancel_right h)

/-- What the first part of a task comes to, by what was read. -/
theorem receive_eq (b : Buffer) (received : ReadResult) :
    ∃ b', b'.bytes = received.bytes ++ b.bytes.drop received.bytes.length ∧
      receive b received =
        if 0 < received.readn then b'.text.map fun text => (b', [requestLine text])
        else .ok (b', []) := by
  obtain ⟨b', written, bytes⟩ := b.write_zero received.fits
  refine ⟨b', bytes, ?_⟩
  rw [receive, bind_of_eq_ok written]
  split_ifs
  · cases b'.text <;> rfl
  · rfl

theorem Leaves.next (h : Leaves earlier b) (ok : receive b received = .ok (b', lines)) :
    Leaves (earlier ++ [received]) b' ∧ lines.length = received.ownLines.length := by
  obtain ⟨b'', bytes, eq⟩ := receive_eq b received
  rw [eq] at ok
  unfold ReadResult.ownLines
  split_ifs at ok ⊢ with some_
  · cases text : b''.text with
    | error f => simp [text, Except.map] at ok
    | ok x =>
      simp only [text, Except.map, Except.ok.injEq, Prod.mk.injEq] at ok
      obtain ⟨rfl, rfl⟩ := ok
      exact ⟨h.write bytes, rfl⟩
  · obtain ⟨rfl, rfl⟩ := Prod.mk.inj (Except.ok.inj ok)
    exact ⟨h.write bytes, rfl⟩

/-- A request is logged with its own bytes exactly if it is terminated. -/
theorem Leaves.own_iff (h : Leaves earlier b) (received : ReadResult) :
    (∃ b', receive b received = .ok (b', received.ownLines)) ↔ Terminated earlier received := by
  obtain ⟨b'', bytes, eq⟩ := receive_eq b received
  rw [eq, Terminated, ← h.text_iff bytes, ReadResult.ownLines]
  split_ifs with some_
  · have nonempty := ReadResult.readn_pos.mp some_
    simp only [nonempty, false_or]
    cases text : b''.text with
    | error f => simp [Except.map]
    | ok x =>
      simp only [Except.map, Except.ok.injEq, Prod.mk.injEq, List.cons.injEq, and_true]
      constructor
      · rintro ⟨b', -, line⟩
        exact requestLine_inj line
      · rintro rfl
        exact ⟨b'', rfl, rfl⟩
  · have empty : received.bytes = [] := by
      by_contra nonempty
      exact some_ (ReadResult.readn_pos.mpr nonempty)
    simp [empty]

/-- Without a NUL in the request or behind it the buffer is printed past its end. -/
theorem receive_overruns (some_ : received.bytes ≠ []) (noNul : 0 ∉ received.bytes)
    (none_ : 0 ∉ b.bytes.drop received.bytes.length) :
    receive b received = .error .outOfRange := by
  obtain ⟨b', bytes, eq⟩ := receive_eq b received
  have overrun : b'.text = .error .outOfRange := by
    rw [Buffer.text, bytes, if_neg (by simp [noNul, none_])]
  rw [eq, if_pos (ReadResult.readn_pos.mpr some_), overrun]
  rfl

theorem receive_ok_or_outOfRange (b : Buffer) (received : ReadResult) :
    (∃ b' lines, receive b received = .ok (b', lines)) ∨
      receive b received = .error .outOfRange := by
  obtain ⟨b', -, eq⟩ := receive_eq b received
  rw [eq]
  split_ifs
  · by_cases nul : 0 ∈ b'.bytes
    · exact .inl ⟨b', _, by rw [Buffer.text, if_pos nul]; rfl⟩
    · exact .inr (by rw [Buffer.text, if_neg nul]; rfl)
  · exact .inl ⟨b', [], rfl⟩

theorem Leaves.nul_behind (h : Leaves earlier b) (k : ℕ) :
    0 ∈ b.bytes.drop k ↔ ∃ i, k ≤ i ∧ i < bufsiz ∧ behind earlier i = 0 := by
  simp only [List.mem_iff_getElem?, List.getElem?_drop]
  constructor
  · rintro ⟨j, nul⟩
    have inside := (List.getElem?_eq_some_iff.mp nul).1
    rw [b.size] at inside
    rw [h _ inside] at nul
    exact ⟨k + j, Nat.le_add_right k j, inside, Option.some.inj nul⟩
  · rintro ⟨i, le, inside, nul⟩
    exact ⟨i - k, by rw [Nat.add_sub_cancel' le, h i inside, nul]⟩

/-- A request is printed within the buffer exactly if a NUL ends it there. -/
theorem Leaves.receive_cases (h : Leaves earlier b) (received : ReadResult) :
    Printable earlier received ∧ (∃ b' lines, receive b received = .ok (b', lines)) ∨
      ¬ Printable earlier received ∧ receive b received = .error .outOfRange := by
  obtain ⟨b', bytes, eq⟩ := receive_eq b received
  have behind := h.nul_behind received.bytes.length
  by_cases empty : received.bytes = []
  · refine .inl ⟨.inl empty, b', [], ?_⟩
    rw [eq, if_neg fun some_ => ReadResult.readn_pos.mp some_ empty]
  by_cases nul : 0 ∈ b'.bytes
  · refine .inl ⟨?_, b', [requestLine (cString b'.bytes)], ?_⟩
    · rw [bytes, List.mem_append, behind] at nul
      exact .inr nul
    · rw [eq, if_pos (ReadResult.readn_pos.mpr empty), Buffer.text, if_pos nul]
      rfl
  · rw [bytes, List.mem_append, not_or] at nul
    refine .inr ⟨?_, receive_overruns empty nul.1 nul.2⟩
    rintro (nothing | own | later)
    · exact empty nothing
    · exact nul.1 own
    · exact nul.2 (behind.mpr later)

/-- Without a NUL in the request what lies behind it is logged with it. -/
theorem receive_leaks (some_ : received.bytes ≠ []) (noNul : 0 ∉ received.bytes)
    (later : 0 ∈ b.bytes.drop received.bytes.length) :
    ∃ b', b'.bytes = received.bytes ++ b.bytes.drop received.bytes.length ∧
      receive b received = .ok (b', [requestLine
        (received.bytes ++ cString (b.bytes.drop received.bytes.length))]) := by
  obtain ⟨b', bytes, eq⟩ := receive_eq b received
  have text : b'.text = .ok (received.bytes ++ cString (b.bytes.drop received.bytes.length)) := by
    rw [Buffer.text, bytes, if_pos (List.mem_append_right _ later),
      cString_append_of_notMem noNul]
  refine ⟨b', bytes, ?_⟩
  rw [eq, if_pos (ReadResult.readn_pos.mpr some_), text]
  rfl

/-- A request that fills the buffer and has no NUL stops the thread. -/
theorem serve_full (t : PoolThread) (full : received.bytes.length = bufsiz)
    (noNul : 0 ∉ received.bytes) : t.serve received = none := by
  have some_ : received.bytes ≠ [] := by
    rintro empty
    rw [empty] at full
    cases full
  have none_ : 0 ∉ t.recvBuf.bytes.drop received.bytes.length := by
    rw [full, ← t.recvBuf.size, List.drop_length]
    exact List.not_mem_nil
  rw [PoolThread.serve, receive_overruns some_ noNul none_]

/-! ## The log of a thread -/

/-- All failures of the first `read` are handled alike. -/
theorem handle_first_max (b : Buffer) (n : ℤ) :
    handle b (.first (max n (-1))) = handle b (.first n) := by
  by_cases failed : n < -1
  · have cut : max n (-1) = -1 := by omega
    rw [cut, handle, handle, firstReply, firstReply, if_neg (by omega), if_neg (by omega)]
  · have same : max n (-1) = n := by omega
    rw [same]

theorem serve_eq_some {u : PoolThread} : t.serve received = some u ↔
    ∃ b lines sender, receive t.recvBuf received = .ok (b, lines) ∧
      step t.sender (.first received.readn) = some sender ∧ u = ⟨b, sender, t.logged ++ lines⟩ := by
  unfold PoolThread.serve
  cases receive t.recvBuf received with
  | error f => simp
  | ok r =>
    simp only [Option.map_eq_some_iff, Except.ok.injEq]
    constructor
    · rintro ⟨sender, reply, rfl⟩
      exact ⟨r.1, r.2, sender, rfl, reply, rfl⟩
    · rintro ⟨b, lines, sender, rfl, reply, rfl⟩
      exact ⟨sender, reply, rfl⟩

/-- The reply never stops a thread. -/
theorem serve_of_receive (t : PoolThread) (ok : receive t.recvBuf received = .ok (b, lines)) :
    ∃ sender, t.serve received = some ⟨b, sender, t.logged ++ lines⟩ := by
  obtain ⟨sender, reply, -⟩ := step_spec t.sender (.first received.readn)
  exact ⟨sender, serve_eq_some.mpr ⟨b, lines, sender, ok, reply, rfl⟩⟩

/-- The send side of a thread is that of `Sender`, whatever it logs. -/
theorem sender_of_run (h : run PoolThread.serve .idle as = some t) :
    run step idle (as.map fun received => .first received.readn) = some t.sender := by
  refine run_induction (P := fun as t =>
    run step idle (as.map fun received => .first received.readn) = some t.sender) rfl ?_ as t h
  intro as t a u _ ih hs
  obtain ⟨b, lines, sender, -, reply, rfl⟩ := serve_eq_some.mp hs
  rw [List.map_append, List.map_singleton]
  exact run_concat.mpr ⟨t.sender, ih, reply⟩

theorem leaves_of_run (h : run PoolThread.serve .idle as = some t) : Leaves as t.recvBuf := by
  refine run_induction (P := fun as t => Leaves as t.recvBuf) .zero ?_ as t h
  intro as t a u _ leaves hs
  obtain ⟨b, lines, sender, ok, -, rfl⟩ := serve_eq_some.mp hs
  exact (leaves.next ok).1

theorem logsOwn_concat : LogsOwn (as ++ [received]) ↔ LogsOwn as ∧ Terminated as received := by
  constructor
  · rintro ⟨u, hu, logged⟩
    obtain ⟨t, ht, hs⟩ := run_concat.mp hu
    obtain ⟨b, lines, sender, ok, -, rfl⟩ := serve_eq_some.mp hs
    have leaves := leaves_of_run ht
    rw [List.flatMap_append, List.flatMap_singleton] at logged
    obtain ⟨before, own⟩ := List.append_inj' logged (leaves.next ok).2
    exact ⟨⟨t, ht, before⟩, (leaves.own_iff received).mp ⟨b, own ▸ ok⟩⟩
  · rintro ⟨⟨t, ht, logged⟩, terminated⟩
    obtain ⟨b, ok⟩ := ((leaves_of_run ht).own_iff received).mpr terminated
    obtain ⟨sender, hs⟩ := serve_of_receive t ok
    refine ⟨_, run_concat.mpr ⟨t, ht, hs⟩, ?_⟩
    rw [List.flatMap_append, List.flatMap_singleton, logged]

theorem logsOwn_iff_terminated (as : List ReadResult) :
    LogsOwn as ↔ ∀ earlier a later, as = earlier ++ a :: later → Terminated earlier a := by
  induction as using List.reverseRecOn with
  | nil => simp [LogsOwn, PoolThread.idle]
  | append_singleton as a ih => rw [logsOwn_concat, forall_split_concat, ih]

theorem filling_fits : (0 :: List.replicate (bufsiz - 1) (65 : UInt8)).length ≤ bufsiz := by
  rw [List.length_cons, List.length_replicate]
  decide

/-- A request that leaves no NUL in the buffer but in front. -/
def filling : ReadResult := .data (0 :: List.replicate (bufsiz - 1) 65) filling_fits

theorem behind_filling {i : ℕ} (positive : 0 < i) (inside : i < bufsiz) :
    behind [filling] i = 65 := by
  obtain ⟨j, rfl⟩ : ∃ j, i = j + 1 := ⟨i - 1, by omega⟩
  simp [behind, filling, ReadResult.bytes, show j < bufsiz - 1 by omega]

theorem Leaves.noNul_behind (h : Leaves [filling] b) (some_ : received.bytes ≠ []) :
    0 ∉ b.bytes.drop received.bytes.length := by
  intro nul
  obtain ⟨i, hi⟩ := List.mem_iff_getElem?.mp nul
  rw [List.getElem?_drop] at hi
  have inside := (List.getElem?_eq_some_iff.mp hi).1
  rw [b.size] at inside
  have positive : 0 < received.bytes.length := List.length_pos_iff.mpr some_
  rw [h _ inside, behind_filling (by omega) inside] at hi
  exact absurd (Option.some.inj hi) (by decide)

theorem sameAfterAll_iff (received : ReadResult) :
    SameAfterAll received ↔ received.bytes = [] ∨ 0 ∈ received.bytes := by
  constructor
  · intro same
    by_contra other
    obtain ⟨some_, noNul⟩ := not_or.mp other
    have served : LogsOwn ([] ++ [filling]) := by
      refine logsOwn_concat.mpr ⟨⟨.idle, rfl, rfl⟩, .inr (.inl ?_)⟩
      exact List.mem_cons_self
    obtain ⟨t, ht, -⟩ := served
    obtain ⟨b, b', lines, -, ok⟩ := same [] [filling] .idle t rfl ht
    rw [receive_overruns some_ noNul ((leaves_of_run ht).noNul_behind some_)] at ok
    cases ok
  · intro clean as as' t t' ht ht'
    have terminated (earlier : List ReadResult) : Terminated earlier received :=
      clean.imp_right .inl
    obtain ⟨b, ok⟩ := ((leaves_of_run ht).own_iff received).mpr (terminated as)
    obtain ⟨b', ok'⟩ := ((leaves_of_run ht').own_iff received).mpr (terminated as')
    exact ⟨b, b', received.ownLines, ok, ok'⟩

/-- A thread logs for each request its own bytes up to their first NUL, and never prints past the
end of its buffer, if and only if each request contains a NUL, or is shorter than the buffer and
the last earlier request that reached behind its end had a NUL there. What is logged for a
request is the same after all earlier requests if and only if it contains a NUL. -/
theorem logsOwn_iff (as : List ReadResult) :
    (LogsOwn as ↔ ∀ earlier a later, as = earlier ++ a :: later → Terminated earlier a) ∧
      ∀ received, SameAfterAll received ↔ received.bytes = [] ∨ 0 ∈ received.bytes :=
  ⟨logsOwn_iff_terminated as, sameAfterAll_iff⟩

/-- After "AB", the request "C" is logged as "CB". -/
def shortAfterLong : List ReadResult :=
  [.data (bytes "AB") (by decide), .data (bytes "C") (by decide)]

theorem shortAfterLong_leaks :
    ∃ t, run PoolThread.serve .idle shortAfterLong = some t ∧
      t.logged = [requestLine (bytes "AB"), requestLine (bytes "CB")] ∧
      ¬ LogsOwn shortAfterLong := by
  have ab : bytes "AB" = [65, 66] := by decide
  have c : bytes "C" = [67] := by decide
  have cb : bytes "CB" = [67, 66] := by decide
  have zeros : Buffer.zero.bytes = 0 :: 0 :: 0 :: List.replicate (bufsiz - 3) 0 := rfl
  obtain ⟨b, hb, first⟩ : ∃ b, b.bytes = 65 :: 66 :: 0 :: List.replicate (bufsiz - 3) 0 ∧
      receive .zero (.data (bytes "AB") (by decide)) = .ok (b, [requestLine (bytes "AB")]) := by
    obtain ⟨b, hb, ok⟩ := @receive_leaks .zero (.data (bytes "AB") (by decide))
      (by simp [ReadResult.bytes, ab]) (by simp [ReadResult.bytes, ab])
      (by simp [ReadResult.bytes, ab, zeros])
    refine ⟨b, ?_, ?_⟩
    · simpa [ReadResult.bytes, ab, zeros] using hb
    · simpa [ReadResult.bytes, ab, zeros, cString] using ok
  obtain ⟨b', second⟩ : ∃ b',
      receive b (.data (bytes "C") (by decide)) = .ok (b', [requestLine (bytes "CB")]) := by
    obtain ⟨b', -, ok⟩ := @receive_leaks b (.data (bytes "C") (by decide))
      (by simp [ReadResult.bytes, c]) (by simp [ReadResult.bytes, c])
      (by simp [ReadResult.bytes, c, hb])
    exact ⟨b', by simpa [ReadResult.bytes, c, cb, hb, cString] using ok⟩
  obtain ⟨sender, serve⟩ := serve_of_receive .idle first
  obtain ⟨sender', serve'⟩ := serve_of_receive ⟨b, sender, [requestLine (bytes "AB")]⟩ second
  obtain ⟨t, ht, logged⟩ : ∃ t, run PoolThread.serve .idle shortAfterLong = some t ∧
      t.logged = [requestLine (bytes "AB"), requestLine (bytes "CB")] := by
    refine ⟨⟨b', sender', _⟩, ?_, rfl⟩
    rw [shortAfterLong, run_cons, serve, Option.bind_some, run_cons]
    exact Option.bind_eq_some_iff.mpr ⟨_, serve', rfl⟩
  refine ⟨t, ht, logged, ?_⟩
  rintro ⟨u, hu, own⟩
  obtain rfl := Option.some.inj (ht.symm.trans hu)
  rw [logged] at own
  revert own
  decide

end EpollServer.Http
