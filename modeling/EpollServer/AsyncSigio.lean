import EpollServer.Library.Multimap
import EpollServer.Library.Run

/-!
# The callbacks of `async_sigio`

The constructor of `async_sigio` enters its callback into `callbacks_`, a multimap that all
objects share, under the key `SIGIO`, and the handler of the signal calls every callback of that
key. The destructor closes the descriptor; the removal that its comment speaks of is missing.

A callback is a value of an arbitrary type `Fn`, so two objects may have the same one.
-/
namespace EpollServer.AsyncSigio

open Library

def sigio : Int := 29

/-- The data members that the constructor takes; `sa_` belongs to `enable`. -/
structure Object (Fn : Type) where
  perror : Bool
  asyncFd : Int
  callback : Fn
  deriving DecidableEq, Repr

/-- `objects` has every object ever constructed, in order, and `none` for those destroyed;
`closed` are the descriptors that were closed. -/
structure State (Fn : Type) where
  callbacks : Multimap Int Fn
  objects : List (Option (Object Fn))
  closed : List Int

variable {Fn : Type}

def State.initial : State Fn := ⟨.empty, [], []⟩

inductive Act (Fn : Type) where
  | construct (fd : Int) (callback : Fn) (perror : Bool)
  /-- The object that was constructed as the `i`-th is destroyed. -/
  | destroy (i : ℕ)
  deriving DecidableEq, Repr

/-- The entry that `init_reg_callback` makes. -/
def initRegCallback (callbacks : Multimap Int Fn) (o : Object Fn) : Multimap Int Fn :=
  callbacks.insert sigio o.callback

/-- `async_sigio::async_sigio`. -/
def State.construct (s : State Fn) (o : Object Fn) : State Fn :=
  { s with callbacks := initRegCallback s.callbacks o, objects := s.objects ++ [some o] }

/-- `async_sigio::~async_sigio`. -/
def State.destroy (s : State Fn) (i : ℕ) (o : Object Fn) : State Fn :=
  { s with objects := s.objects.set i none, closed := s.closed ++ [o.asyncFd] }

def step (s : State Fn) : Act Fn → Option (State Fn)
  | .construct fd callback perror => some (s.construct ⟨perror, fd, callback⟩)
  | .destroy i =>
    match s.objects[i]? with
    | some (some o) => some (s.destroy i o)
    | _ => none

/-- The calls of `async_sigio_handler`: each callback with its argument. -/
def asyncSigioHandler (callbacks : Multimap Int Fn) (sig : Int) : List (Fn × Int) :=
  -- The test for the end of the map guards a loop that would be empty there.
  if callbacks.lowerBound sigio = [] then [] else (callbacks.values sigio).map (·, sig)

/-- The objects that are alive, in the order of their construction. -/
def State.alive (s : State Fn) : List (Object Fn) := s.objects.filterMap id

/-- The handler calls the callbacks of the living objects, each once and in the order of their
construction. -/
def CallsAlive (s : State Fn) : Prop :=
  ∀ sig, asyncSigioHandler s.callbacks sig = s.alive.map fun o => (o.callback, sig)

/-- The step destroys no object. -/
def Act.keeps : Act Fn → Prop
  | .construct .. => True
  | .destroy _ => False

/-- The callback that the step registers. -/
def Act.registers : Act Fn → Option Fn
  | .construct _ callback _ => some callback
  | .destroy _ => none

variable {s t : State Fn} {a : Act Fn} {acts : List (Act Fn)}

theorem asyncSigioHandler_eq (callbacks : Multimap Int Fn) (sig : Int) :
    asyncSigioHandler callbacks sig = (callbacks.values sigio).map (·, sig) := by
  unfold asyncSigioHandler
  split_ifs with end_
  · simp [Multimap.values, Multimap.equalRange, end_]
  · rfl

theorem callsAlive_iff_values :
    CallsAlive s ↔ s.callbacks.values sigio = s.alive.map Object.callback := by
  simp only [CallsAlive, asyncSigioHandler_eq]
  constructor
  · intro calls
    have first := congrArg (List.map Prod.fst) (calls sigio)
    simpa [Function.comp_def] using first
  · intro same sig
    rw [same, List.map_map]
    rfl

theorem values_construct (s : State Fn) (o : Object Fn) :
    (s.construct o).callbacks.values sigio = s.callbacks.values sigio ++ [o.callback] := by
  rw [State.construct, initRegCallback, Multimap.values_insert, Function.update_self]

theorem alive_construct (s : State Fn) (o : Object Fn) :
    (s.construct o).alive = s.alive ++ [o] := by
  simp [State.alive, State.construct]

/-- The two kinds of step, as far as the registry and the objects go. -/
theorem step_cases (h : step s a = some t) :
    (∃ o, a.registers = some o.callback ∧ a.keeps ∧ t = s.construct o) ∨
      ∃ i o, a.registers = none ∧ ¬ a.keeps ∧ s.objects[i]? = some (some o) ∧
        t = s.destroy i o := by
  cases a with
  | construct fd callback perror =>
    obtain rfl := Option.some.inj h
    exact .inl ⟨⟨perror, fd, callback⟩, rfl, trivial, rfl⟩
  | destroy i =>
    simp only [step] at h
    split at h
    · rename_i o at_
      obtain rfl := Option.some.inj h
      exact .inr ⟨i, o, rfl, id, at_, rfl⟩
    · cases h

/-- The handler calls the callbacks of all objects that were ever constructed. -/
theorem asyncSigioHandler_of_run (h : run step .initial acts = some s) (sig : Int) :
    asyncSigioHandler s.callbacks sig = (acts.filterMap Act.registers).map (·, sig) := by
  rw [asyncSigioHandler_eq]
  congr 1
  refine run_induction (P := fun acts s => s.callbacks.values sigio =
    acts.filterMap Act.registers) (by simp [State.initial]) ?_ acts s h
  intro acts s a t _ ih hs
  rw [List.filterMap_append]
  obtain ⟨o, registers, -, rfl⟩ | ⟨i, o, registers, -, -, rfl⟩ := step_cases hs
  · rw [values_construct, ih]
    simp [registers]
  · simpa [registers, State.destroy] using ih

/-- Every object that was ever constructed has an entry. -/
def Registered (s : State Fn) : Prop := (s.callbacks.values sigio).length = s.objects.length

theorem Registered.step (h : Registered s) (hs : step s a = some t) : Registered t := by
  unfold Registered at h ⊢
  obtain ⟨o, -, -, rfl⟩ | ⟨i, o, -, -, -, rfl⟩ := step_cases hs
  · rw [values_construct, List.length_append, h]
    simp [State.construct]
  · simpa [State.destroy] using h

theorem callsAlive_step (h : Registered s) (hs : step s a = some t) :
    CallsAlive t ↔ CallsAlive s ∧ a.keeps := by
  have registered := h.step hs
  rw [callsAlive_iff_values, callsAlive_iff_values]
  obtain ⟨o, -, keeps, rfl⟩ | ⟨i, o, -, destroys, at_, rfl⟩ := step_cases hs
  · rw [values_construct, alive_construct]
    simp [keeps]
  · refine iff_of_false (fun calls => ?_) fun both => destroys both.2
    -- There are fewer living objects than entries.
    have inside := (List.getElem?_eq_some_iff.mp at_).1
    have fewer : (s.destroy i o).alive.length < (s.destroy i o).objects.length := by
      refine List.length_filterMap_lt_length_iff_exists.mpr ⟨none, ?_, rfl⟩
      exact List.mem_set inside none
    have count := congrArg List.length calls
    rw [registered, List.length_map] at count
    omega

/-- At a moment of a run the handler calls exactly the callbacks of the living objects if and
only if no object has been destroyed. -/
theorem callsAlive_iff (h : run step .initial acts = some s) :
    CallsAlive s ↔ ∀ i, .destroy i ∉ acts := by
  have every : CallsAlive s ↔ EveryStep step (fun _ a => a.keeps) .initial acts := by
    refine final_iff_everyStep (I := Registered) (A := fun _ => True) rfl
      (fun _ _ _ _ hI hs => hI.step hs) ?_ (fun _ _ _ _ hI hs => callsAlive_step hI hs) h
      fun _ _ => trivial
    exact callsAlive_iff_values.mpr rfl
  rw [every, everyStep_iff_forall_mem h]
  constructor
  · intro all i mem
    exact all _ mem
  · intro none_ a mem
    cases a with
    | construct => trivial
    | destroy i => exact none_ i mem

/-- One object, whose callback is 7, is constructed and destroyed. -/
def staleCallback : List (Act ℕ) := [.construct 3 7 false, .destroy 0]

theorem staleCallback_called :
    ∃ s, run step .initial staleCallback = some s ∧ s.alive = [] ∧ s.closed = [3] ∧
      asyncSigioHandler s.callbacks sigio = [(7, sigio)] ∧ ¬ CallsAlive s := by
  have end_ : (run step .initial staleCallback).map
      (fun s => (s.alive, s.closed, asyncSigioHandler s.callbacks sigio)) =
      some ([], [3], [(7, sigio)]) := by decide
  obtain ⟨s, hs, he⟩ := Option.map_eq_some_iff.mp end_
  simp only [Prod.mk.injEq] at he
  obtain ⟨alive, closed, calls⟩ := he
  refine ⟨s, hs, alive, closed, calls, fun all => ?_⟩
  have none_ := all sigio
  rw [calls, alive] at none_
  cases none_

/-- Two objects with the same callback. -/
def equalCallbacks : List (Act ℕ) := [.construct 3 7 false, .construct 4 7 true]

theorem callsAlive_iff_equalCallbacks :
    ∃ s, run step .initial equalCallbacks = some s ∧
      asyncSigioHandler s.callbacks sigio = [(7, sigio), (7, sigio)] ∧ CallsAlive s := by
  have end_ : (run step .initial equalCallbacks).map
      (fun s => asyncSigioHandler s.callbacks sigio) = some [(7, sigio), (7, sigio)] := by decide
  obtain ⟨s, hs, calls⟩ := Option.map_eq_some_iff.mp end_
  exact ⟨s, hs, calls, (callsAlive_iff hs).mpr (by simp [equalCallbacks])⟩

end EpollServer.AsyncSigio
