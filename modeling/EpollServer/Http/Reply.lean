import EpollServer.Http.Page
import EpollServer.Http.Response
import EpollServer.Library.Run

/-!
# The replies of one thread

The three paths that answer a client print into the buffer `TRD_SEND_BUF` of their thread and
pass it to `send`. The state of a thread is this buffer, which no path clears, together with the
messages sent so far.
-/
namespace EpollServer.Http
open Library

/-- The table of `httpcode_map`. -/
def httpCodes : List (ℕ × String) := [
  (100, "Continue"), (101, "Switching Protocols"), (102, "Processing"), (103, "Early Hints"),
  (200, "OK"), (201, "Created"), (202, "Accepted"), (203, "Non-Authoritative Information"),
  (204, "No Content"), (205, "Reset Content"), (206, "Partial Content"),
  (300, "Multiple Choices"), (301, "Moved Permanently"), (302, "Found"), (303, "See Other"),
  (304, "Not Modified"), (305, "Use Proxy"), (307, "Temporary Redirect"),
  (308, "Permanent Redirect"), (400, "Bad Request"), (401, "Unauthorized"),
  (402, "Payment Required"), (403, "Forbidden"), (404, "Not Found"), (405, "Method Not Allowed"),
  (406, "Not Acceptable"), (407, "Proxy Authentication Required"), (408, "Request Timeout"),
  (409, "Conflict"), (410, "Gone"), (411, "Length Required"), (500, "Internal Server Error"),
  (501, "Not Implemented"), (502, "Bad Gateway"), (503, "Service Unavailable"),
  (504, "Gateway Timeout"), (505, "HTTP Version Not Supported"),
  (506, "Variant Also Negotiates"), (507, "Insufficient Storage"), (508, "Loop Detected"),
  (510, "Not Extended"), (511, "Network Authentication Required")]

/-- `http_codes.at(code)`. -/
def codeAt (code : ℕ) : Except Fault (List UInt8) :=
  match httpCodes.lookup code with
  | none => .error .outOfRange
  | some msg => .ok (bytes msg)

/-- The page as `c_str()` shows it. -/
def page : List UInt8 := cString (body.flatMap bytes)

/-- A thread's buffer after a path, and the bytes it passed to `send`, if it called it. -/
structure Outcome where
  sendBuf : Buffer
  message : Option (List UInt8)

/-- `send(fd, TRD_SEND_BUF, n, MSG_NOSIGNAL)`. -/
def send (b : Buffer) (n : ℕ) : Outcome := ⟨b, some (b.bytes.take n)⟩

/-- `tcp_worker::handle_error`. -/
def handleError (b : Buffer) (errcode : ℕ) : Except Fault Outcome := do
  let msg ← codeAt errcode
  let b ← b.sprintf 0 (bytes "HTTP/1.1 " ++ decimal errcode ++ bytes " " ++ cString msg ++
    bytes "\r\n")
  return send b bufsiz

/-- `tcp_worker::handle_epollin`, where `n` is what `read` returned. -/
def handleEpollin (b : Buffer) (n : ℤ) : Except Fault Outcome :=
  -- `handle_disconnect` has no statements
  if n = 0 then return ⟨b, none⟩
  else if n < 0 then handleError b 400
  else do
    let msg ← codeAt 200
    let b ← b.sprintf 0 (httpVersion ++ bytes " " ++ decimal 200 ++ bytes " " ++ cString msg ++
      crlf)
    let p ← b.strlen
    let b ← b.sprintf p (bytes "Content-length: " ++ decimal 0 ++ crlf ++ crlf)
    return send b bufsiz

/-- The reply in the task of `tcp_worker_pool::submit`, where `readn` is what `read` returned. -/
def firstReply (b : Buffer) (readn : ℤ) : Except Fault Outcome :=
  if 0 ≤ readn then
    if 0 < readn then do
      let b ← b.sprintf 0 (bytes "HTTP/1.1 200 OK\r\nContent-length: " ++ decimal page.length ++
        bytes "\r\n\r\n")
      let p ← b.strlen
      let b ← b.strcpy p (body.flatMap bytes)
      return send b bufsiz
    else do
      let b ← b.strcpy 0 (bytes "i will keep you connected\n")
      return send b bufsiz
  -- only `perror`
  else return ⟨b, none⟩

/-- A request on one of the paths, by the result of its `read`. -/
inductive Request where
  | first (readn : ℤ)
  | epollin (n : ℤ)
  deriving DecidableEq, Repr

/-- What `read` returned. -/
def Request.readn : Request → ℤ
  | .first readn => readn
  | .epollin n => n

/-- The requests on which `send` is called. -/
def Request.answered : Request → Bool
  | .first readn => 0 ≤ readn
  | .epollin n => n ≠ 0

def handle (b : Buffer) : Request → Except Fault Outcome
  | .first readn => firstReply b readn
  | .epollin n => handleEpollin b n

/-- A thread: its buffer, and each request answered so far with the bytes sent for it. -/
structure Sender where
  sendBuf : Buffer
  sent : List (Request × List UInt8)

/-- One request handled by the thread; a fault stops it. -/
def step (s : Sender) (r : Request) : Option Sender :=
  match handle s.sendBuf r with
  | .error _ => none
  | .ok o => some ⟨o.sendBuf, s.sent ++ (o.message.map fun m => (r, m)).toList⟩

/-- A thread before its first request. -/
def idle : Sender := ⟨.zero, []⟩

end EpollServer.Http
