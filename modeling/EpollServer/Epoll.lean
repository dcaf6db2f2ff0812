import Mathlib.Data.List.Basic

/-!
# Epoll interest sets and `epoll_wrapper`

The kernel keeps, for each epoll instance, a finite map from registered descriptors to
event masks. `epollCtl` follows the documented rules of `epoll_ctl`; the functions of
`epoll_wrapper` are built on it. `resources` says whether the kernel has what the call needs.
-/
namespace EpollServer

def epollIn : UInt32 := 0x001
def epollPri : UInt32 := 0x002
def epollErr : UInt32 := 0x008
def epollHup : UInt32 := 0x010
def epollEt : UInt32 := 0x80000000

/-- `struct epoll_event`, with the descriptor as its user data. -/
structure EpollEvent where
  events : UInt32
  fd : Int
  deriving DecidableEq, Repr

/-- An event mask has one of the given bits. -/
def hasEvent (events bits : UInt32) : Bool := events &&& bits != 0

/-- The interest set of one epoll instance. -/
abbrev Interest := List EpollEvent

namespace Interest

def registered (interest : Interest) (fd : Int) : Bool := interest.any (·.fd == fd)

/-- `EPOLL_CTL_ADD`: refused for a registered descriptor. -/
def ctlAdd (interest : Interest) (fd : Int) (ev : EpollEvent) (resources : Bool) : Interest × Int :=
  if interest.registered fd || !resources then (interest, -1)
  else (interest ++ [{ ev with fd := fd }], 0)

/-- `EPOLL_CTL_DEL`: refused for an absent descriptor. -/
def ctlDel (interest : Interest) (fd : Int) (resources : Bool) : Interest × Int :=
  if !interest.registered fd || !resources then (interest, -1)
  else (interest.filter (·.fd != fd), 0)

/-- `epoll_wrapper::add_event`. Without `ignore_err` the result of the call is dropped. -/
def addEvent (interest : Interest) (fd : Int) (event : UInt32) (ignoreErr : Bool)
    (resources : Bool) : Interest × Int :=
  let (interest', res) := interest.ctlAdd fd ⟨event ||| epollEt, fd⟩ resources
  if !ignoreErr then (interest', 0) else (interest', res)

/-- A descriptor is registered by an addition, unless the kernel lacks resources. -/
theorem registered_ctlAdd (interest : Interest) (fd : Int) (ev : EpollEvent) (resources : Bool)
    (x : Int) :
    (interest.ctlAdd fd ev resources).1.registered x = true ↔
      interest.registered x = true ∨ fd = x ∧ resources = true := by
  unfold ctlAdd
  split_ifs with refused
  · refine ⟨.inl, fun h => h.elim id fun ⟨same, done⟩ => ?_⟩
    simpa [done, same] using refused
  · have done : resources = true := by
      cases resources <;> simp_all
    simp [registered, done]

end Interest

end EpollServer
