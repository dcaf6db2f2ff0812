import EpollServer.Http.Reply

/-!
# What is sent is never one response

Each path prints its text correctly, whatever the buffer held before, and two of them print a
complete response; but `send` is passed the whole buffer, so the NUL behind the text and what
earlier replies left behind it are sent as well. No response is the beginning of another one,
hence no message is a complete response.
-/
namespace EpollServer.Http
open Library

/-- The response with status 200 and one header that announces `data`. -/
def okResponse (data : List UInt8) : Response where
  line := ⟨200, bytes "OK", by decide, by decide⟩
  headers := [{
    name := bytes "Content-length"
    value := decimal data.length
    name_ne_nil := by decide
    name_bytes := by decide
    oneLine := ⟨notMem_decimal rfl _, notMem_decimal rfl _⟩ }]
  data := data
  announces := ⟨_, List.mem_singleton_self _, by simp only [Header.IsContentLength]; decide⟩
  announced := by
    intro h hh _
    rw [List.mem_singleton.mp hh]
    exact numeral_decimal _

/-- What a path prints for a request, if it answers it. -/
def Request.text : Request → Option (List UInt8)
  | .first readn =>
    if 0 < readn then some (okResponse page).toBytes
    else if readn = 0 then some (bytes "i will keep you connected\n")
    else none
  | .epollin n =>
    if 0 < n then some (okResponse []).toBytes
    else if n < 0 then some (bytes "HTTP/1.1 400 Bad Request" ++ crlf)
    else none

theorem length_page : page.length ≤ 4000 := by
  have pieces : (body.map fun s => (bytes s).length).sum ≤ 4000 := by decide +kernel
  calc page.length ≤ (body.flatMap bytes).length := (List.takeWhile_sublist _).length_le
    _ = (body.map fun s => (bytes s).length).sum := List.length_flatMap ..
    _ ≤ 4000 := pieces

theorem toBytes_okResponse (data : List UInt8) : (okResponse data).toBytes =
    bytes "HTTP/1.1 200 OK\r\nContent-length: " ++ decimal data.length ++ bytes "\r\n\r\n" ++
      data := by
  have status : bytes "HTTP/1.1 200 OK\r\nContent-length: " =
      httpVersion ++ [space] ++ decimal 200 ++ [space] ++ bytes "OK" ++ crlf ++
        bytes "Content-length" ++ [colon, space] := by decide
  have ending : bytes "\r\n\r\n" = crlf ++ crlf := by decide
  rw [status, ending]
  simp [Response.toBytes, Response.lines, okResponse, block, ResponseLine.text, Header.text]

theorem noNul_page : 0 ∉ page := noNul_cString _

/-- A path that printed `text` passes the buffer as it is now, text and remains. -/
def Prints (outcome : Except Fault Outcome) (text : List UInt8) : Prop :=
  ∃ b, b.Holds text ∧ outcome = .ok ⟨b, some b.bytes⟩

theorem send_bufsiz (b : Buffer) : send b bufsiz = ⟨b, some b.bytes⟩ := by
  rw [send, ← b.size, List.take_length]

theorem prints_handleError (b : Buffer) :
    Prints (handleError b 400) (bytes "HTTP/1.1 400 Bad Request" ++ crlf) := by
  have msg : codeAt 400 = .ok (bytes "Bad Request") := rfl
  have text : bytes "HTTP/1.1 " ++ decimal 400 ++ bytes " " ++ cString (bytes "Bad Request") ++
      bytes "\r\n" = bytes "HTTP/1.1 400 Bad Request" ++ crlf := by decide
  have noNul : 0 ∉ bytes "HTTP/1.1 400 Bad Request" ++ crlf := by decide
  obtain ⟨b', printed, held⟩ := b.holds_sprintf noNul (by decide)
  refine ⟨b', held, ?_⟩
  rw [handleError, bind_of_eq_ok msg, text, bind_of_eq_ok printed, send_bufsiz]
  rfl

theorem prints_handleEpollin (b : Buffer) {n : ℤ} (hn : 0 < n) :
    Prints (handleEpollin b n) (okResponse []).toBytes := by
  have msg : codeAt 200 = .ok (bytes "OK") := rfl
  let status := httpVersion ++ bytes " " ++ decimal 200 ++ bytes " " ++ cString (bytes "OK") ++ crlf
  let header := bytes "Content-length: " ++ decimal 0 ++ crlf ++ crlf
  have noNul : 0 ∉ status ∧ 0 ∉ header := by decide
  obtain ⟨b₁, printed₁, held₁⟩ := b.holds_sprintf noNul.1 (by decide)
  obtain ⟨b₂, printed₂, held₂⟩ := held₁.sprintf noNul.2 (by decide)
  have text : status ++ header = (okResponse []).toBytes := by decide
  refine ⟨b₂, text ▸ held₂, ?_⟩
  rw [handleEpollin, if_neg (by omega), if_neg (by omega), bind_of_eq_ok msg,
    bind_of_eq_ok printed₁, bind_of_eq_ok held₁.strlen, bind_of_eq_ok printed₂, send_bufsiz]
  rfl

theorem prints_firstReply (b : Buffer) {readn : ℤ} (hn : 0 < readn) :
    Prints (firstReply b readn) (okResponse page).toBytes := by
  let head := bytes "HTTP/1.1 200 OK\r\nContent-length: " ++ decimal page.length ++
    bytes "\r\n\r\n"
  have noNul : 0 ∉ head := by
    simp only [head, List.mem_append, not_or]
    exact ⟨⟨by decide, notMem_decimal rfl _⟩, by decide⟩
  have short : head.length ≤ 41 := by
    have digits := length_decimal_le (n := page.length) (k := 4) (by decide)
      (by have := length_page; omega)
    have literals : (bytes "HTTP/1.1 200 OK\r\nContent-length: ").length = 33 ∧
        (bytes "\r\n\r\n").length = 4 := by decide
    simp only [head, List.length_append]
    omega
  have fits : head.length + page.length < bufsiz := by
    have := length_page
    rw [bufsiz]
    omega
  obtain ⟨b₁, printed₁, held₁⟩ := b.holds_sprintf noNul (by omega)
  obtain ⟨b₂, printed₂, held₂⟩ := held₁.sprintf noNul_page fits
  refine ⟨b₂, by rwa [toBytes_okResponse], ?_⟩
  rw [firstReply, if_pos (by omega), if_pos hn, bind_of_eq_ok printed₁,
    bind_of_eq_ok held₁.strlen, Buffer.strcpy_eq_sprintf, ← page, bind_of_eq_ok printed₂,
    send_bufsiz]
  rfl

theorem prints_firstReply_zero (b : Buffer) :
    Prints (firstReply b 0) (bytes "i will keep you connected\n") := by
  have text : cString (bytes "i will keep you connected\n") =
      bytes "i will keep you connected\n" := by decide
  have noNul : 0 ∉ bytes "i will keep you connected\n" := by decide
  obtain ⟨b', printed, held⟩ := b.holds_sprintf noNul (by decide)
  refine ⟨b', held, ?_⟩
  rw [firstReply, if_pos (by omega), if_neg (by omega), Buffer.strcpy_eq_sprintf, text,
    bind_of_eq_ok printed, send_bufsiz]
  rfl

variable {r : Request} {text m : List UInt8}

theorem handle_of_text_none (b : Buffer) (h : r.text = none) : handle b r = .ok ⟨b, none⟩ := by
  cases r with
  | first readn =>
    have failed : ¬ 0 ≤ readn := by
      simp only [Request.text] at h
      split_ifs at h
      omega
    exact if_neg failed
  | epollin n =>
    have closed : n = 0 := by
      simp only [Request.text] at h
      split_ifs at h
      omega
    exact if_pos closed

theorem prints_handle (b : Buffer) (h : r.text = some text) : Prints (handle b r) text := by
  cases r with
  | first readn =>
    simp only [Request.text] at h
    split_ifs at h with some_ zero <;> cases h
    · exact prints_firstReply b some_
    · exact zero ▸ prints_firstReply_zero b
  | epollin n =>
    simp only [Request.text] at h
    split_ifs at h with some_ failed <;> cases h
    · exact prints_handleEpollin b some_
    · rw [handle, handleEpollin, if_neg (by omega), if_pos failed]
      exact prints_handleError b

theorem answered_iff_text (r : Request) : r.answered = r.text.isSome := by
  cases r with
  | first readn =>
    simp only [Request.answered, Request.text]
    split_ifs <;> simp <;> omega
  | epollin n =>
    simp only [Request.answered, Request.text]
    split_ifs <;> simp <;> omega

/-- What `send` is passed for a request: the text, its NUL, and the rest of the buffer. -/
structure Answer (r : Request) (m : List UInt8) : Prop where
  size : m.length = bufsiz
  text : ∃ text rest, r.text = some text ∧ m = text ++ 0 :: rest

theorem step_spec (s : Sender) (r : Request) : ∃ t, step s r = some t ∧
    (r.answered = false ∧ t.sent = s.sent ∨
      r.answered = true ∧ ∃ m, Answer r m ∧ t.sent = s.sent ++ [(r, m)]) := by
  cases h : r.text with
  | none =>
    refine ⟨s, ?_, .inl ⟨by rw [answered_iff_text, h]; rfl, rfl⟩⟩
    rw [step, handle_of_text_none s.sendBuf h]
    simp
  | some text =>
    obtain ⟨b, held, printed⟩ := prints_handle s.sendBuf h
    obtain ⟨rest, hb⟩ := held.followed
    refine ⟨⟨b, s.sent ++ [(r, b.bytes)]⟩, by rw [step, printed]; rfl, .inr ⟨?_, b.bytes, ?_, rfl⟩⟩
    · rw [answered_iff_text, h]; rfl
    · exact ⟨b.size, text, rest, h, hb⟩

/-- A thread never stops, and sends one message for each request that it answers. -/
theorem run_spec (s : Sender) (rs : List Request) : ∃ t new, run step s rs = some t ∧
    t.sent = s.sent ++ new ∧ new.map Prod.fst = rs.filter Request.answered ∧
    ∀ r m, (r, m) ∈ new → Answer r m := by
  induction rs generalizing s with
  | nil => exact ⟨s, [], rfl, by simp, rfl, by simp⟩
  | cons r rs ih =>
    obtain ⟨t, ht, first⟩ := step_spec s r
    obtain ⟨u, new, hu, sent, requests, answers⟩ := ih t
    have whole : run step s (r :: rs) = some u := by rw [run_cons, ht]; exact hu
    rcases first with ⟨silent, same⟩ | ⟨answered, m, answer, more⟩
    · exact ⟨u, new, whole, by rw [sent, same], by rw [requests, List.filter_cons, silent]; rfl,
        answers⟩
    · refine ⟨u, (r, m) :: new, whole, by simp [sent, more], ?_, ?_⟩
      · rw [List.map_cons, requests, List.filter_cons, answered]
        rfl
      · rintro r' m' (_ | ⟨_, mem⟩)
        · exact answer
        · exact answers r' m' mem

/-- The two other texts are no beginning of a response that a byte of the buffer, or nothing,
could go on. -/
theorem not_complete_of_text (h : r.text = some text) (hr : r.readn ≤ 0) {x : List UInt8}
    (hx : ∀ b ∈ x.head?, b = 0) : ¬ CompleteResponse (text ++ x) := by
  cases r with
  | first readn =>
    have zero : readn = 0 ∧ text = bytes "i will keep you connected\n" := by
      simp only [Request.text] at h
      split_ifs at h <;> cases h
      · exact absurd hr (by simpa [Request.readn])
      · exact ⟨‹_›, rfl⟩
    refine not_complete_of_head ?_
    rw [zero.2, List.head?_append_of_ne_nil _ (by decide)]
    decide
  | epollin n =>
    have failed : text = bytes "HTTP/1.1 400 Bad Request" ++ crlf := by
      simp only [Request.text] at h
      split_ifs at h <;> cases h
      · exact absurd hr (by simpa [Request.readn])
      · rfl
    rw [failed]
    refine not_complete_after_statusLine (by decide) fun b hb => ?_
    rw [hx b hb]
    decide

theorem text_of_readn_pos (h : r.text = some text) (hr : 0 < r.readn) :
    ∃ data, text = (okResponse data).toBytes := by
  cases r with
  | first readn => exact ⟨page, by simpa [Request.text, show 0 < readn from hr] using h.symm⟩
  | epollin n => exact ⟨[], by simpa [Request.text, show 0 < n from hr] using h.symm⟩

/-- Where the request was read, the text alone is a complete response. -/
theorem text_complete_iff (h : r.text = some text) : CompleteResponse text ↔ 0 < r.readn := by
  refine ⟨fun complete => ?_, fun hr => ?_⟩
  · by_contra hr
    exact not_complete_of_text h (Int.not_lt.mp hr) (x := []) (by simp) (by rwa [List.append_nil])
  · obtain ⟨data, rfl⟩ := text_of_readn_pos h hr
    exact ⟨_, rfl⟩

theorem Answer.not_complete (answer : Answer r m) : ¬ CompleteResponse m := by
  obtain ⟨text, rest, h, rfl⟩ := answer.text
  by_cases hr : 0 < r.readn
  · obtain ⟨data, rfl⟩ := text_of_readn_pos h hr
    exact (okResponse data).not_complete_append (List.cons_ne_nil _ _)
  · exact not_complete_of_text h (Int.not_lt.mp hr) (by simp)

theorem sent_not_complete (rs : List Request) : ∃ s, run step idle rs = some s ∧
    s.sent.map Prod.fst = rs.filter Request.answered ∧
    ∀ r m, (r, m) ∈ s.sent → ¬ CompleteResponse m := by
  obtain ⟨s, new, hs, sent, requests, answers⟩ := run_spec idle rs
  have all : s.sent = new := sent
  refine ⟨s, hs, all ▸ requests, fun r m mem => ?_⟩
  exact (answers r m (all ▸ mem)).not_complete

/-- A new thread and one request on a connection that was kept open: behind the header that
announces no data, the rest of the buffer is sent. -/
theorem emptyAnswer_not_complete : ∃ b rest, run step idle [.epollin 1] = some ⟨b,
      [(.epollin 1, bytes "HTTP/1.1 200 OK\r\nContent-length: 0\r\n\r\n" ++ rest)]⟩ ∧
    rest.length = 8154 ∧
    ¬ CompleteResponse (bytes "HTTP/1.1 200 OK\r\nContent-length: 0\r\n\r\n" ++ rest) := by
  have text : (okResponse []).toBytes =
      bytes "HTTP/1.1 200 OK\r\nContent-length: 0\r\n\r\n" := by decide
  obtain ⟨b, held, printed⟩ := prints_handleEpollin Buffer.zero (n := 1) (by decide)
  obtain ⟨rest, hb⟩ := held.followed
  have size := b.size
  rw [hb, List.length_append, show (okResponse []).toBytes.length = 38 by decide, bufsiz] at size
  refine ⟨b, 0 :: rest, ?_, by omega, ?_⟩
  · rw [← text, ← hb, run_cons, step, handle, idle, printed]
    rfl
  · rw [← text]
    exact (okResponse []).not_complete_append (List.cons_ne_nil _ _)

end EpollServer.Http
