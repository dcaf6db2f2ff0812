import EpollServer.Http.Sent

/-!
# What is sent behind the text

A path writes its text and one NUL at the start of `TRD_SEND_BUF` and passes the whole buffer to
`send`. So behind the NUL a client gets what the last message of the thread had there, whichever
client that message was for.
-/
namespace EpollServer.Http
open Library

/-- The buffer after `text` is printed over the bytes `old`. -/
def overwrite (old text : List UInt8) : List UInt8 := text ++ 0 :: old.drop (text.length + 1)

variable {b b₁ : Buffer} {text more : List UInt8} {r : Request}

theorem sprintf_overwrite (b : Buffer) (fits : text.length < bufsiz) :
    ∃ b', b.sprintf 0 text = .ok b' ∧ b'.bytes = overwrite b.bytes text := by
  have room : (text ++ [0]).length ≤ bufsiz := by
    rw [List.length_append, List.length_singleton]
    omega
  obtain ⟨b', printed, written⟩ := b.write_zero room
  exact ⟨b', printed, by simpa [overwrite] using written⟩

theorem holds_overwrite (printed : b₁.bytes = overwrite b.bytes text) (noNul : 0 ∉ text) :
    b₁.Holds text :=
  ⟨noNul, _, printed⟩

/-- Printing at the end of the text. -/
theorem sprintf_behind (printed : b₁.bytes = overwrite b.bytes text)
    (fits : text.length + more.length < bufsiz) :
    ∃ b', b₁.sprintf text.length more = .ok b' ∧ b'.bytes = overwrite b.bytes (text ++ more) := by
  refine ⟨_, dif_pos (by simp; omega), ?_⟩
  have past : text.drop (text.length + (more.length + 1)) = [] :=
    List.drop_eq_nil_of_le (by omega)
  have behind : text.length + 1 + more.length = text.length + more.length + 1 := by omega
  simp [overwrite, printed, List.drop_append, past, behind]

/-- A path that printed `text` over the buffer `b` and sent the result. -/
def PrintsOver (b : Buffer) (outcome : Except Fault Outcome) (text : List UInt8) : Prop :=
  ∃ b', b'.bytes = overwrite b.bytes text ∧ outcome = .ok ⟨b', some b'.bytes⟩

theorem printsOver_handleError (b : Buffer) :
    PrintsOver b (handleError b 400) (bytes "HTTP/1.1 400 Bad Request" ++ crlf) := by
  have msg : codeAt 400 = .ok (bytes "Bad Request") := rfl
  have text : bytes "HTTP/1.1 " ++ decimal 400 ++ bytes " " ++ cString (bytes "Bad Request") ++
      bytes "\r\n" = bytes "HTTP/1.1 400 Bad Request" ++ crlf := by decide
  have fits : (bytes "HTTP/1.1 400 Bad Request" ++ crlf).length < bufsiz := by decide
  obtain ⟨b', printed, written⟩ := sprintf_overwrite b fits
  refine ⟨b', written, ?_⟩
  rw [handleError, bind_of_eq_ok msg, text, bind_of_eq_ok printed, send_bufsiz]
  rfl

theorem printsOver_handleEpollin (b : Buffer) {n : ℤ} (hn : 0 < n) :
    PrintsOver b (handleEpollin b n) (okResponse []).toBytes := by
  have msg : codeAt 200 = .ok (bytes "OK") := rfl
  let status := httpVersion ++ bytes " " ++ decimal 200 ++ bytes " " ++ cString (bytes "OK") ++ crlf
  let header := bytes "Content-length: " ++ decimal 0 ++ crlf ++ crlf
  have noNul : 0 ∉ status := by decide
  have fits : status.length < bufsiz ∧ status.length + header.length < bufsiz := by decide
  have text : status ++ header = (okResponse []).toBytes := by decide
  obtain ⟨b₁, printed₁, written₁⟩ := sprintf_overwrite b fits.1
  obtain ⟨b₂, printed₂, written₂⟩ := sprintf_behind written₁ fits.2
  refine ⟨b₂, text ▸ written₂, ?_⟩
  rw [handleEpollin, if_neg (by omega), if_neg (by omega), bind_of_eq_ok msg,
    bind_of_eq_ok printed₁, bind_of_eq_ok (holds_overwrite written₁ noNul).strlen,
    bind_of_eq_ok printed₂, send_bufsiz]
  rfl

theorem printsOver_firstReply_zero (b : Buffer) :
    PrintsOver b (firstReply b 0) (bytes "i will keep you connected\n") := by
  have text : cString (bytes "i will keep you connected\n") =
      bytes "i will keep you connected\n" := by decide
  have fits : (bytes "i will keep you connected\n").length < bufsiz := by decide
  obtain ⟨b', printed, written⟩ := sprintf_overwrite b fits
  refine ⟨b', written, ?_⟩
  rw [firstReply, if_pos (by omega), if_neg (by omega), Buffer.strcpy_eq_sprintf, text,
    bind_of_eq_ok printed, send_bufsiz]
  rfl

theorem printsOver_firstReply (b : Buffer) {readn : ℤ} (hn : 0 < readn) :
    PrintsOver b (firstReply b readn) (okResponse page).toBytes := by
  let head := bytes "HTTP/1.1 200 OK\r\nContent-length: " ++ decimal page.length ++
    bytes "\r\n\r\n"
  have noNul : 0 ∉ head := by
    simp only [head, List.mem_append, not_or]
    exact ⟨⟨by decide, notMem_decimal rfl _⟩, by decide⟩
  have digits : (decimal page.length).length ≤ 4 :=
    length_decimal_le (by decide) (by have := length_page; omega)
  have short : head.length = 37 + (decimal page.length).length := by
    have literals : (bytes "HTTP/1.1 200 OK\r\nContent-length: ").length = 33 ∧
        (bytes "\r\n\r\n").length = 4 := by decide
    simp only [head, List.length_append]
    omega
  have fits : head.length + page.length < bufsiz := by
    have := length_page
    rw [bufsiz]
    omega
  have fits₁ : head.length < bufsiz := by omega
  obtain ⟨b₁, printed₁, written₁⟩ := sprintf_overwrite b fits₁
  obtain ⟨b₂, printed₂, written₂⟩ := sprintf_behind written₁ fits
  refine ⟨b₂, by rwa [toBytes_okResponse], ?_⟩
  rw [firstReply, if_pos (by omega), if_pos hn, bind_of_eq_ok printed₁,
    bind_of_eq_ok (holds_overwrite written₁ noNul).strlen, Buffer.strcpy_eq_sprintf, ← page,
    bind_of_eq_ok printed₂, send_bufsiz]
  rfl

/-- Every path that answers prints its text over the buffer of its thread. -/
theorem printsOver_handle (b : Buffer) (h : r.text = some text) :
    PrintsOver b (handle b r) text := by
  cases r with
  | first readn =>
    simp only [Request.text] at h
    split_ifs at h with some_ zero <;> cases h
    · exact printsOver_firstReply b some_
    · exact zero ▸ printsOver_firstReply_zero b
  | epollin n =>
    simp only [Request.text] at h
    split_ifs at h with some_ failed <;> cases h
    · exact printsOver_handleEpollin b some_
    · rw [handle, handleEpollin, if_neg (by omega), if_pos failed]
      exact printsOver_handleError b

end EpollServer.Http
