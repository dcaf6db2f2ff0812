import EpollServer.Cpp
import Mathlib.Data.List.TakeWhile

/-!
# C strings in a fixed buffer

A `char` array of `BUFSIZ` bytes, as the functions of `cstring` and `cstdio` use it: a string
ends before the first NUL, printing writes a NUL behind the text, and a write that does not fit
is an error. Nothing clears what lies behind the NUL.
-/
namespace EpollServer

/-- The bytes of a literal. -/
def bytes (s : String) : List UInt8 := s.toByteArray.data.toList

/-- What a pointer to these bytes stands for when it is read as a string. -/
def cString (s : List UInt8) : List UInt8 := s.takeWhile (· ≠ 0)

/-- `char [BUFSIZ]`. -/
structure Buffer where
  bytes : List UInt8
  size : bytes.length = bufsiz

namespace Buffer

/-- `char [BUFSIZ]{}`. -/
def zero : Buffer where
  bytes := List.replicate bufsiz 0
  size := List.length_replicate

/-- The bytes `s` stored from index `i` on. -/
def write (b : Buffer) (i : ℕ) (s : List UInt8) : Except Fault Buffer :=
  if h : i + s.length ≤ bufsiz then
    .ok {
      bytes := b.bytes.take i ++ s ++ b.bytes.drop (i + s.length)
      size := by
        have size := b.size
        simp only [List.length_append, List.length_take, List.length_drop]
        omega }
  else .error .outOfRange

/-- `strlen(b)`. -/
def strlen (b : Buffer) : Except Fault ℕ :=
  if 0 ∈ b.bytes then .ok (cString b.bytes).length else .error .outOfRange

/-- What `%s` prints for `b`. -/
def text (b : Buffer) : Except Fault (List UInt8) :=
  if 0 ∈ b.bytes then .ok (cString b.bytes) else .error .outOfRange

/-- `sprintf(b + i, …)`, where `text` is the formatted text. -/
def sprintf (b : Buffer) (i : ℕ) (text : List UInt8) : Except Fault Buffer :=
  b.write i (text ++ [0])

/-- `strcpy(b + i, s)`. -/
def strcpy (b : Buffer) (i : ℕ) (s : List UInt8) : Except Fault Buffer :=
  b.write i (cString s ++ [0])

/-- The string that the buffer holds is `text`; anything may follow it. -/
structure Holds (b : Buffer) (text : List UInt8) : Prop where
  noNul : 0 ∉ text
  followed : ∃ rest, b.bytes = text ++ 0 :: rest

end Buffer

theorem noNul_cString (s : List UInt8) : 0 ∉ cString s := by
  intro mem
  simpa using List.mem_takeWhile_imp mem

theorem cString_append_of_mem {s : List UInt8} (h : 0 ∈ s) (rest : List UInt8) :
    cString (s ++ rest) = cString s := by
  unfold cString
  induction s with
  | nil => cases h
  | cons c s ih =>
    rw [List.cons_append, List.takeWhile_cons, List.takeWhile_cons]
    split_ifs with nonzero
    · have later : 0 ∈ s :=
        (List.mem_cons.mp h).resolve_left fun zero => by simp [← zero] at nonzero
      rw [ih later]
    · rfl

theorem cString_append_of_notMem {s : List UInt8} (h : 0 ∉ s) (rest : List UInt8) :
    cString (s ++ rest) = s ++ cString rest :=
  List.takeWhile_append_of_pos fun _ hc => decide_eq_true fun zero => h (zero ▸ hc)

theorem cString_of_notMem {s : List UInt8} (h : 0 ∉ s) : cString s = s := by
  have whole := cString_append_of_notMem h []
  simpa [cString] using whole

/-- Nothing stands before the first NUL only if it comes first. -/
theorem cString_eq_nil_iff {s : List UInt8} (h : 0 ∈ s) : cString s = [] ↔ s[0]? = some 0 := by
  cases s with
  | nil => cases h
  | cons c s => simp [cString]

namespace Buffer

variable {b b' : Buffer} {text more : List UInt8}

theorem Holds.cString_eq (held : b.Holds text) : cString b.bytes = text := by
  obtain ⟨rest, hb⟩ := held.followed
  rw [hb, cString_append_of_notMem held.noNul]
  simp [cString]

theorem Holds.strlen (held : b.Holds text) : b.strlen = .ok text.length := by
  obtain ⟨rest, hb⟩ := held.followed
  rw [Buffer.strlen, if_pos (by simp [hb]), held.cString_eq]

/-- Printing at the start of a buffer. -/
theorem holds_sprintf (b : Buffer) (noNul : 0 ∉ text) (fits : text.length < bufsiz) :
    ∃ b', b.sprintf 0 text = .ok b' ∧ b'.Holds text := by
  refine ⟨_, dif_pos (by simp; omega), noNul, b.bytes.drop (text.length + 1), ?_⟩
  simp

/-- Printing at the end of the string that a buffer holds. -/
theorem Holds.sprintf (held : b.Holds text) (noNul : 0 ∉ more)
    (fits : text.length + more.length < bufsiz) :
    ∃ b', b.sprintf text.length more = .ok b' ∧ b'.Holds (text ++ more) := by
  obtain ⟨rest, hb⟩ := held.followed
  have noNul' : 0 ∉ text ++ more := by simp [held.noNul, noNul]
  refine ⟨_, dif_pos (by simp; omega), noNul', rest.drop more.length, ?_⟩
  simp [hb, List.drop_append]

/-- What is stored at the start leaves the bytes behind it. -/
theorem write_zero (b : Buffer) {s : List UInt8} (fits : s.length ≤ bufsiz) :
    ∃ b', b.write 0 s = .ok b' ∧ b'.bytes = s ++ b.bytes.drop s.length :=
  ⟨_, dif_pos (by omega), by simp⟩

theorem strcpy_eq_sprintf (b : Buffer) (i : ℕ) (s : List UInt8) :
    b.strcpy i s = b.sprintf i (cString s) := rfl

end Buffer

end EpollServer
