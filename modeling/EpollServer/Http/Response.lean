import EpollServer.CString
import EpollServer.Library.Lines

/-!
# HTTP/1.1 responses

The layout that is drawn over `struct response_line`: the status line, the header lines, the
empty line, and as many bytes of data as the header `Content-length` announces. A `Response`
carries the proof that its parts are well formed, so that the bytes of a response determine it,
and no byte can be added behind a response.
-/
namespace EpollServer.Http
open Library

/-- `HTTP_VERSION`. -/
def httpVersion : List UInt8 := bytes "HTTP/1.1"

/-- `SPACE` and `COLON`. -/
def space : UInt8 := 32
def colon : UInt8 := 58

/-- `struct response_line`; the version is `HTTP_VERSION`. -/
structure ResponseLine where
  statusCode : ℕ
  shortMsg : List UInt8
  threeDigits : 100 ≤ statusCode ∧ statusCode < 1000
  oneLine : cr ∉ shortMsg ∧ lf ∉ shortMsg

/-- A visible character other than the colon. -/
def isNameByte (b : UInt8) : Bool := 33 ≤ b && b ≤ 126 && b != colon

structure Header where
  name : List UInt8
  value : List UInt8
  name_ne_nil : name ≠ []
  name_bytes : name.all isNameByte = true
  oneLine : cr ∉ value ∧ lf ∉ value

def ResponseLine.text (l : ResponseLine) : List UInt8 :=
  httpVersion ++ [space] ++ decimal l.statusCode ++ [space] ++ l.shortMsg

def Header.text (h : Header) : List UInt8 := h.name ++ colon :: space :: h.value

def toLower (b : UInt8) : UInt8 := if 65 ≤ b && b ≤ 90 then b + 32 else b

/-- The name of a header is compared without regard to case. -/
def Header.IsContentLength (h : Header) : Prop := h.name.map toLower = bytes "content-length"

structure Response where
  line : ResponseLine
  headers : List Header
  data : List UInt8
  announces : ∃ h ∈ headers, h.IsContentLength
  announced : ∀ h ∈ headers, h.IsContentLength → numeral h.value = some data.length

/-- The status line and the header lines. -/
def Response.lines (r : Response) : List (List UInt8) := r.line.text :: r.headers.map Header.text

def Response.toBytes (r : Response) : List UInt8 := block r.lines ++ r.data

/-- Exactly one complete response. -/
def CompleteResponse (m : List UInt8) : Prop := ∃ r : Response, r.toBytes = m

theorem ResponseLine.isLine (l : ResponseLine) : IsLine l.text := by
  have version : cr ∉ httpVersion := by decide
  have code : cr ∉ decimal l.statusCode := notMem_decimal rfl _
  refine ⟨by simp [ResponseLine.text], ?_⟩
  simp only [ResponseLine.text, List.mem_append, List.mem_singleton, not_or]
  exact ⟨⟨⟨⟨version, by decide⟩, code⟩, by decide⟩, l.oneLine.1⟩

namespace Header

variable {h h' : Header}

theorem notMem_name (h : Header) {b : UInt8} (hb : isNameByte b = false) : b ∉ h.name := by
  intro mem
  rw [List.all_eq_true.mp h.name_bytes b mem] at hb
  cases hb

theorem isLine (h : Header) : IsLine h.text := by
  have name : cr ∉ h.name := h.notMem_name rfl
  refine ⟨by simp [Header.text], ?_⟩
  simp only [Header.text, List.mem_append, List.mem_cons, not_or]
  exact ⟨name, by decide, by decide, h.oneLine.1⟩

/-- The colon separates the name from the value. -/
theorem text_injective (same : h.text = h'.text) : h = h' := by
  obtain ⟨name, rest⟩ := split_unique (h.notMem_name rfl) (h'.notMem_name rfl) same
  have value : h.value = h'.value := List.tail_eq_of_cons_eq rest
  cases h
  cases h'
  congr

end Header

namespace Response

variable {x y l : List UInt8}

theorem isLine_of_mem_lines (r : Response) : ∀ l ∈ r.lines, IsLine l := by
  intro l hl
  rcases List.mem_cons.mp hl with rfl | hl
  · exact r.line.isLine
  · obtain ⟨h, -, rfl⟩ := List.mem_map.mp hl
    exact h.isLine

/-- No response is the beginning of another one: whatever follows it, a response can be
read back in one way. -/
theorem toBytes_unique (r s : Response) (h : r.toBytes ++ x = s.toBytes ++ y) :
    r.headers = s.headers ∧ r.data = s.data ∧ x = y := by
  obtain ⟨lines, rest⟩ := block_unique r.isLine_of_mem_lines s.isLine_of_mem_lines
    (x := r.data ++ x) (y := s.data ++ y) (by simpa [toBytes] using h)
  have headers : r.headers = s.headers :=
    List.map_injective_iff.mpr (fun _ _ => Header.text_injective) (List.tail_eq_of_cons_eq lines)
  obtain ⟨c, hc, isLength⟩ := r.announces
  have length : r.data.length = s.data.length := by
    have here := r.announced c hc isLength
    have there := s.announced c (headers ▸ hc) isLength
    exact Option.some.inj (here.symm.trans there)
  exact ⟨headers, List.append_inj rest length⟩

theorem version_prefix (r : Response) : httpVersion <+: r.toBytes := by
  have parts : r.toBytes = httpVersion ++ ([space] ++ decimal r.line.statusCode ++ [space] ++
      r.line.shortMsg ++ crlf ++ block (r.headers.map Header.text) ++ r.data) := by
    simp [toBytes, lines, block_cons, ResponseLine.text]
  rw [parts]
  exact List.prefix_append _ _

/-- What follows the status line is a header or the empty line. -/
theorem after_statusLine (r : Response) (hl : cr ∉ l) (h : r.toBytes = l ++ crlf ++ x) :
    ∃ b rest, x = b :: rest ∧ (b = cr ∨ isNameByte b = true) := by
  have split : r.line.text ++ crlf ++ (block (r.headers.map Header.text) ++ r.data) =
      l ++ crlf ++ x := by
    rw [← h, toBytes, lines, block_cons, List.append_assoc _ _ r.data]
  obtain ⟨-, rfl⟩ := line_unique r.line.isLine.2 hl split
  cases r.headers with
  | nil => exact ⟨cr, _, rfl, .inl rfl⟩
  | cons c cs =>
    cases hname : c.name with
    | nil => exact absurd hname c.name_ne_nil
    | cons b bs =>
      refine ⟨b, _, by simp [block_cons, Header.text, hname]; rfl, .inr ?_⟩
      exact List.all_eq_true.mp c.name_bytes b (by simp [hname])

end Response

variable {l x : List UInt8}

theorem Response.not_complete_append (r : Response) (hx : x ≠ []) :
    ¬ CompleteResponse (r.toBytes ++ x) := by
  rintro ⟨s, hs⟩
  exact hx (r.toBytes_unique s (y := []) (by rw [List.append_nil, hs])).2.2

theorem not_complete_after_statusLine (hl : cr ∉ l)
    (hx : ∀ b ∈ x.head?, b ≠ cr ∧ isNameByte b = false) : ¬ CompleteResponse (l ++ crlf ++ x) := by
  rintro ⟨s, hs⟩
  obtain ⟨b, rest, rfl, next⟩ := s.after_statusLine hl hs
  obtain ⟨notCr, notName⟩ := hx b rfl
  rcases next with rfl | name
  · exact notCr rfl
  · rw [name] at notName
    cases notName

theorem not_complete_of_head (h : x.head? ≠ httpVersion.head?) : ¬ CompleteResponse x := by
  rintro ⟨s, rfl⟩
  obtain ⟨rest, hrest⟩ := s.version_prefix
  rw [← hrest] at h
  exact h (List.head?_append_of_ne_nil _ (by decide))

end EpollServer.Http
