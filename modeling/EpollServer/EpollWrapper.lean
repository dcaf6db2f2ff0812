import EpollServer.Epoll
import EpollServer.Library.Transducer
import Mathlib.Logic.Function.Basic

/-!
# `epoll_wrapper` against a plain map

The three functions of `epoll_wrapper` that change an interest set, and what they are for: a map
from descriptors to event masks with insertion, replacement and removal, each of which returns 0
exactly if it took effect.

`add_event` drops the result unless its flag `ignore_err` is set, so its caller learns of no
failure by default. `modify_event` adds instead of modifying, which `epoll_ctl` refuses for the
descriptors that have a mask to replace.
-/
namespace EpollServer

open Library

namespace Interest

/-- `epoll_wrapper::modify_event`. -/
def modifyEvent (interest : Interest) (fd : Int) (event : Int32) (resources : Bool) :
    Interest × Int :=
  interest.addEvent fd event.toUInt32 true resources

/-- `epoll_wrapper::delete_event`. -/
def deleteEvent (interest : Interest) (fd : Int) (resources : Bool) : Interest × Int :=
  interest.ctlDel fd resources

/-- The mask under which a descriptor is registered. -/
def mask (interest : Interest) (fd : Int) : Option UInt32 :=
  (interest.find? (·.fd == fd)).map (·.events)

end Interest

/-- A call of one of the three functions. -/
inductive Call where
  | addEvent (fd : Int) (event : UInt32) (ignoreErr : Bool)
  | modifyEvent (fd : Int) (event : Int32)
  | deleteEvent (fd : Int)
  deriving DecidableEq

/-- A call, and whether the kernel has the resources for it. -/
structure Request where
  call : Call
  resources : Bool
  deriving DecidableEq

/-- What the code does with a request. -/
def Interest.serve (interest : Interest) (r : Request) : Interest × Int :=
  match r.call with
  | .addEvent fd event ignoreErr => interest.addEvent fd event ignoreErr r.resources
  | .modifyEvent fd event => interest.modifyEvent fd event r.resources
  | .deleteEvent fd => interest.deleteEvent fd r.resources

/-- The purpose of the wrapper: a map from descriptors to masks. -/
abbrev MaskMap := Int → Option UInt32

/-- A change of the map that takes effect and returns 0, or does nothing and returns -1. -/
def MaskMap.change (masks : MaskMap) (possible : Bool) (fd : Int) (mask : Option UInt32) :
    MaskMap × Int :=
  if possible then (Function.update masks fd mask, 0) else (masks, -1)

/-- What the callers ask for: `add_event` inserts an absent descriptor, `modify_event` replaces the
mask of a present one, `delete_event` removes a present one. -/
def MaskMap.serve (masks : MaskMap) (r : Request) : MaskMap × Int :=
  match r.call with
  | .addEvent fd event _ =>
    masks.change ((masks fd).isNone && r.resources) fd (some (event ||| epollEt))
  | .modifyEvent fd event =>
    masks.change ((masks fd).isSome && r.resources) fd (some (event.toUInt32 ||| epollEt))
  | .deleteEvent fd => masks.change ((masks fd).isSome && r.resources) fd none

/-- The call does what it is for and says so: an addition with the default flag succeeds, a
modification has no resources. -/
def Interest.Honest (interest : Interest) (r : Request) : Prop :=
  match r.call with
  | .addEvent fd _ ignoreErr =>
    ignoreErr = true ∨ interest.registered fd = false ∧ r.resources = true
  | .modifyEvent _ _ => r.resources = false
  | .deleteEvent _ => True

/-! ## Interest sets as maps -/

/-- The interest set holds the map. -/
def Interest.Holds (interest : Interest) (masks : MaskMap) : Prop :=
  ∀ fd, interest.mask fd = masks fd

variable {interest : Interest} {masks : MaskMap} {fd : Int} {resources : Bool} {r : Request}

theorem Interest.isSome_mask (interest : Interest) (fd : Int) :
    (interest.mask fd).isSome = interest.registered fd := by
  unfold mask registered
  rw [Option.isSome_map, List.isSome_find?]

theorem Interest.Holds.registered (h : interest.Holds masks) (fd : Int) :
    interest.registered fd = (masks fd).isSome := by
  rw [← h fd, isSome_mask]

theorem Interest.Holds.insert (h : interest.Holds masks) (absent : interest.registered fd = false)
    (event : UInt32) :
    Interest.Holds (interest ++ [⟨event, fd⟩]) (Function.update masks fd (some event)) := by
  intro x
  by_cases same : x = fd
  · subst same
    have none_ : interest.find? (·.fd == x) = none := by
      simpa [Interest.registered] using absent
    simp [mask, List.find?_append, none_]
  · have other : (fd == x) = false := by simpa using Ne.symm same
    rw [Function.update_of_ne same, ← h x]
    simp [mask, List.find?_append, other]

theorem Interest.Holds.remove (h : interest.Holds masks) (fd : Int) :
    Interest.Holds (interest.filter (·.fd != fd)) (Function.update masks fd none) := by
  intro x
  unfold mask
  by_cases same : x = fd
  · subst same
    rw [Function.update_self, List.find?_eq_none.mpr]
    · rfl
    · intro e he
      simpa using (List.mem_filter.mp he).2
  · rw [Function.update_of_ne same, ← h x, List.find?_filter]
    unfold mask
    congr 2
    funext e
    by_cases he : e.fd = x <;> simp [he, same]

/-! ## One call -/

/-- An addition changes the set as the insertion changes the map, and its own result says whether
it did. -/
theorem Interest.Holds.ctlAdd (h : interest.Holds masks) (fd : Int) (event : UInt32)
    (resources : Bool) :
    let code := interest.ctlAdd fd ⟨event, fd⟩ resources
    let plain := masks.change ((masks fd).isNone && resources) fd (some event)
    code.1.Holds plain.1 ∧ code.2 = plain.2 ∧
      (code.2 = 0 ↔ interest.registered fd = false ∧ resources = true) := by
  have present := h.registered fd
  cases registered : interest.registered fd with
  | true =>
    have some_ : (masks fd).isNone = false := by
      rw [← Option.not_isSome, ← present, registered]
      rfl
    simpa [Interest.ctlAdd, MaskMap.change, registered, some_] using h
  | false =>
    have none_ : (masks fd).isNone = true := by
      rw [← Option.not_isSome, ← present, registered]
      rfl
    cases resources with
    | false => simpa [Interest.ctlAdd, MaskMap.change, registered, none_] using h
    | true =>
      simpa [Interest.ctlAdd, MaskMap.change, registered, none_] using h.insert registered event

theorem Interest.Holds.ctlDel (h : interest.Holds masks) (fd : Int) (resources : Bool) :
    let code := interest.ctlDel fd resources
    let plain := masks.change ((masks fd).isSome && resources) fd none
    code.1.Holds plain.1 ∧ code.2 = plain.2 := by
  have present := h.registered fd
  cases registered : interest.registered fd with
  | true =>
    rw [registered] at present
    cases resources with
    | false => simpa [Interest.ctlDel, MaskMap.change, registered, ← present] using h
    | true => simpa [Interest.ctlDel, MaskMap.change, registered, ← present] using h.remove fd
  | false =>
    rw [registered] at present
    simpa [Interest.ctlDel, MaskMap.change, registered, ← present] using h

/-- A modification is an addition, so it takes effect where there is nothing to modify, and fails
where there is. -/
theorem Interest.Holds.modifyEvent (h : interest.Holds masks) (fd : Int) (event : Int32)
    (resources : Bool) :
    let code := interest.modifyEvent fd event resources
    let plain := masks.change ((masks fd).isSome && resources) fd
      (some (event.toUInt32 ||| epollEt))
    (code.2 = plain.2 ↔ resources = false) ∧ (resources = false → code.1.Holds plain.1) := by
  have present := h.registered fd
  cases resources with
  | false =>
    simpa [Interest.modifyEvent, Interest.addEvent, Interest.ctlAdd, MaskMap.change] using h
  | true =>
    simp only [Interest.modifyEvent, Interest.addEvent, Interest.ctlAdd, MaskMap.change, ← present]
    cases interest.registered fd <;> simp

theorem Interest.Honest.agrees (h : interest.Holds masks) (honest : interest.Honest r) :
    (interest.serve r).2 = (masks.serve r).2 ∧
      (interest.serve r).1.Holds (masks.serve r).1 := by
  obtain ⟨call, resources⟩ := r
  cases call with
  | addEvent fd event ignoreErr =>
    obtain ⟨holds, same, zero⟩ := h.ctlAdd fd (event ||| epollEt) resources
    cases ignoreErr with
    | true => exact ⟨same, holds⟩
    | false =>
      have added := zero.mpr (honest.resolve_left (by simp))
      exact ⟨added.symm.trans same, holds⟩
  | modifyEvent fd event =>
    obtain ⟨same, holds⟩ := h.modifyEvent fd event resources
    exact ⟨same.mpr honest, holds honest⟩
  | deleteEvent fd =>
    obtain ⟨holds, same⟩ := h.ctlDel fd resources
    exact ⟨same, holds⟩

/-- A call that is not honest shows in its result. -/
theorem Interest.Honest.of_same (h : interest.Holds masks)
    (same : (interest.serve r).2 = (masks.serve r).2) : interest.Honest r := by
  obtain ⟨call, resources⟩ := r
  cases call with
  | addEvent fd event ignoreErr =>
    obtain ⟨-, equal, zero⟩ := h.ctlAdd fd (event ||| epollEt) resources
    cases ignoreErr with
    | true => exact .inl rfl
    | false => exact .inr (zero.mp (equal.trans same.symm))
  | modifyEvent fd event => exact (h.modifyEvent fd event resources).1.mp same
  | deleteEvent fd => trivial

/-! ## Whole histories -/

/-- The wrapper gives the results of the plain map, and ends with its content. -/
def Refines (requests : List Request) : Prop :=
  (transduce Interest.serve [] requests).2 =
      (transduce MaskMap.serve (fun _ => none) requests).2 ∧
    (transduce Interest.serve [] requests).1.Holds
      (transduce MaskMap.serve (fun _ => none) requests).1

/-- On a sequence of calls and kernel outcomes the wrapper refines a plain map if and only if each
addition with the default flag is one of an unregistered descriptor and has the resources it needs,
and no modification has resources. -/
theorem wrapper_refines_iff (requests : List Request) :
    Refines requests ↔ EachMeets Interest.serve Interest.Honest [] requests :=
  transduce_agrees_iff (R := Interest.Holds) (fun _ _ _ h honest => honest.agrees h)
    (fun _ _ _ h same => .of_same h same) fun _ => rfl

/-- Descriptor 5 is added, its mask is to be replaced, and it is added again: the replacement fails,
and the second addition reports a success. -/
theorem modify_not_refines :
    ¬ Refines [⟨.addEvent 5 epollIn false, true⟩, ⟨.modifyEvent 5 2, true⟩,
      ⟨.addEvent 5 epollIn false, true⟩] := by
  rintro ⟨results, -⟩
  revert results
  decide +kernel

end EpollServer
