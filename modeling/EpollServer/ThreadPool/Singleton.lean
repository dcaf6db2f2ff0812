import EpollServer.Library.Run
import Mathlib.Data.List.Basic

/-!
# `instance` and `shutdown` of the singleton

Both functions test `m_threadpool_` outside of `mtx_` and again inside of it. Every read and
every write of the pointer is one step, `mtx_` is a correct mutex, and any number of callers may
be under way. `shutdown_interval` is one step here; what it does is in `ThreadPool.Machine`.

The mutex makes creation and deletion alternate, whatever the tests outside of it read. But
`instance` loads the pointer once more for its return, after its tests and outside of the mutex,
where a caller of `shutdown` may have stored null in between.
-/
namespace EpollServer.ThreadPool.Singleton

open Library

/-- Where a caller is in `instance` or in `shutdown`. -/
inductive Pc where
  /-- At the first test of `instance`. -/
  | test
  | lock
  | retest
  /-- At `new thread_pool`. -/
  | new
  /-- At the store of the new object. -/
  | store (object : ℕ)
  | unlock
  /-- At the load for the return. -/
  | load
  | returned (object : Option ℕ)
  /-- At the first test of `shutdown`. -/
  | closeTest
  | closeLock
  | closeRetest
  | shutdownInterval
  | delete
  /-- At `m_threadpool_ = nullptr`. -/
  | clear
  | closeUnlock
  | closed
  deriving DecidableEq, Repr

/-- Objects are numbered in the order of their creation; `live` and `deleted` are history. -/
structure State where
  /-- `m_threadpool_`. -/
  pointer : Option ℕ
  /-- The caller that holds `mtx_`. -/
  mutex : Option ℕ
  callers : List Pc
  created : ℕ
  live : List ℕ
  deleted : List ℕ
  deriving DecidableEq

def State.initial : State := ⟨none, none, [], 0, [], []⟩

inductive Act where
  /-- A new call of `instance`. -/
  | callInstance
  /-- A new call of `shutdown`. -/
  | callShutdown
  /-- The next step of caller `i`. -/
  | caller (i : ℕ)
  deriving DecidableEq, Repr

def State.goto (s : State) (i : ℕ) (pc : Pc) : State := { s with callers := s.callers.set i pc }

def callerStep (s : State) (i : ℕ) : Pc → Option State
  | .test => some (s.goto i (if s.pointer = none then .lock else .load))
  | .lock => if s.mutex = none then some { s.goto i .retest with mutex := some i } else none
  | .retest => some (s.goto i (if s.pointer = none then .new else .unlock))
  | .new =>
    some { s.goto i (.store s.created) with
           live := s.live ++ [s.created], created := s.created + 1 }
  | .store object => some { s.goto i .unlock with pointer := some object }
  | .unlock => some { s.goto i .load with mutex := none }
  | .load => some (s.goto i (.returned s.pointer))
  | .closeTest => some (s.goto i (if s.pointer = none then .closed else .closeLock))
  | .closeLock =>
    if s.mutex = none then some { s.goto i .closeRetest with mutex := some i } else none
  | .closeRetest => some (s.goto i (if s.pointer = none then .closeUnlock else .shutdownInterval))
  | .shutdownInterval => some (s.goto i .delete)
  | .delete =>
    -- The operand is loaded again; deleting null does nothing.
    some { s.goto i .clear with
           live := s.live.filter (some · ≠ s.pointer), deleted := s.deleted ++ s.pointer.toList }
  | .clear => some { s.goto i .closeUnlock with pointer := none }
  | .closeUnlock => some { s.goto i .closed with mutex := none }
  | .returned _ | .closed => none

def step (s : State) : Act → Option State
  | .callInstance => some { s with callers := s.callers ++ [.test] }
  | .callShutdown => some { s with callers := s.callers ++ [.closeTest] }
  | .caller i => s.callers[i]?.bind (callerStep s i)

/-! ## What the mutex protects -/

/-- The caller holds `mtx_`. -/
def Pc.locked : Pc → Bool
  | .retest | .new | .store _ | .unlock | .closeRetest | .shutdownInterval | .delete | .clear
  | .closeUnlock => true
  | .test | .lock | .load | .returned _ | .closeTest | .closeLock | .closed => false

/-- What the caller that holds `mtx_` knows of the pointer and the live objects. -/
def Pc.Knows (pointer : Option ℕ) (live : List ℕ) : Pc → Prop
  | .retest | .closeRetest | .closeUnlock => live = pointer.toList
  | .new => pointer = none ∧ live = []
  | .store object => pointer = none ∧ live = [object]
  | .unlock | .shutdownInterval | .delete => ∃ object, pointer = some object ∧ live = [object]
  | .clear => live = []
  | .test | .lock | .load | .returned _ | .closeTest | .closeLock | .closed => True

/-- The invariant of the two functions. -/
structure Guarded (s : State) : Prop where
  holder : ∀ i pc, s.callers[i]? = some pc → pc.locked = true →
    s.mutex = some i ∧ pc.Knows s.pointer s.live
  free : s.mutex = none → s.live = s.pointer.toList
  one : s.live.length ≤ 1
  fresh : ∀ object ∈ s.live, object < s.created ∧ object ∉ s.deleted
  old : ∀ object ∈ s.deleted, object < s.created
  once : s.deleted.Nodup

variable {s s' : State} {a : Act}

theorem Guarded.initial : Guarded .initial where
  holder := by simp [State.initial]
  free _ := rfl
  one := Nat.zero_le 1
  fresh := by simp [State.initial]
  old := by simp [State.initial]
  once := .nil

/-- A step of caller `i` to `pc'`, which the others do not notice or which it makes with the mutex
or when nobody has it. -/
theorem Guarded.update (h : Guarded s) {i : ℕ} {pc' : Pc}
    (callers : s'.callers = s.callers.set i pc')
    (own : pc'.locked = true → s'.mutex = some i ∧ pc'.Knows s'.pointer s'.live)
    (others : s'.mutex = s.mutex ∧ s'.pointer = s.pointer ∧ s'.live = s.live ∨
      s.mutex = some i ∨ s.mutex = none)
    (free : s'.mutex = none → s'.live = s'.pointer.toList) (one : s'.live.length ≤ 1)
    (fresh : ∀ object ∈ s'.live, object < s'.created ∧ object ∉ s'.deleted)
    (old : ∀ object ∈ s'.deleted, object < s'.created) (once : s'.deleted.Nodup) :
    Guarded s' := by
  refine ⟨fun j pc hj locked => ?_, free, one, fresh, old, once⟩
  rw [callers, List.getElem?_set] at hj
  split_ifs at hj with same inside
  · obtain rfl := Option.some.inj hj
    exact same ▸ own locked
  · obtain ⟨mine, knows⟩ := h.holder j pc hj locked
    rcases others with ⟨mutex, pointer, live⟩ | held | none_
    · rw [mutex, pointer, live]
      exact ⟨mine, knows⟩
    · rw [held] at mine
      exact absurd (Option.some.inj mine) same
    · rw [none_] at mine
      cases mine

/-- A step that changes nothing but the program point. -/
theorem Guarded.goto (h : Guarded s) {i : ℕ} {pc' : Pc}
    (own : pc'.locked = true → s.mutex = some i ∧ pc'.Knows s.pointer s.live) :
    Guarded (s.goto i pc') :=
  h.update rfl own (.inl ⟨rfl, rfl, rfl⟩) h.free h.one h.fresh h.old h.once

theorem Guarded.append (h : Guarded s) {pc : Pc} (outside : pc.locked = false) :
    Guarded { s with callers := s.callers ++ [pc] } := by
  refine ⟨fun i pc' hi locked => ?_, h.free, h.one, h.fresh, h.old, h.once⟩
  rw [List.getElem?_append] at hi
  split_ifs at hi with before
  · exact h.holder i pc' hi locked
  · rw [List.getElem?_singleton] at hi
    split_ifs at hi
    obtain rfl := Option.some.inj hi
    simp [outside] at locked

/-- A pointer that is not null is one to the live object. -/
theorem exists_live (live : s.live = s.pointer.toList) (some_ : s.pointer ≠ none) :
    ∃ object, s.pointer = some object ∧ s.live = [object] := by
  obtain ⟨object, pointer⟩ := Option.ne_none_iff_exists'.mp some_
  exact ⟨object, pointer, by rw [live, pointer]; rfl⟩

theorem Guarded.caller (h : Guarded s) {i : ℕ} {pc : Pc} (at_ : s.callers[i]? = some pc)
    (hs : callerStep s i pc = some s') : Guarded s' := by
  have holds (locked : pc.locked = true) := h.holder i pc at_ locked
  cases pc with
  | test | closeTest =>
    obtain rfl := Option.some.inj hs
    apply h.goto
    split_ifs <;> intro locked <;> cases locked
  | lock | closeLock =>
    obtain ⟨free, hs⟩ := Option.ite_none_right_eq_some.mp hs
    obtain rfl := Option.some.inj hs
    exact h.update rfl (fun _ => ⟨rfl, h.free free⟩) (.inr (.inr free)) (by simp) h.one h.fresh
      h.old h.once
  | retest =>
    obtain rfl := Option.some.inj hs
    obtain ⟨mine, live⟩ := holds rfl
    refine h.goto fun _ => ⟨mine, ?_⟩
    have live : s.live = s.pointer.toList := live
    split_ifs with null
    · exact ⟨null, by rw [live, null]; rfl⟩
    · exact exists_live live null
  | closeRetest =>
    obtain rfl := Option.some.inj hs
    obtain ⟨mine, live⟩ := holds rfl
    refine h.goto fun _ => ⟨mine, ?_⟩
    have live : s.live = s.pointer.toList := live
    split_ifs with null
    · exact live
    · exact exists_live live null
  | new =>
    obtain rfl := Option.some.inj hs
    obtain ⟨mine, null, live⟩ := holds rfl
    have new : s.created ∉ s.deleted := fun mem => absurd (h.old _ mem) (by omega)
    refine h.update rfl (fun _ => ⟨mine, null, by simp [live]⟩) (.inr (.inl mine)) ?_ ?_ ?_ ?_
      h.once
    · intro free
      simp [State.goto, mine] at free
    · simp [live]
    · simpa [live, State.goto] using new
    · exact fun object mem => Nat.lt_succ_of_lt (h.old object mem)
  | store object =>
    obtain rfl := Option.some.inj hs
    obtain ⟨mine, -, live⟩ := holds rfl
    refine h.update rfl (fun _ => ⟨mine, object, rfl, live⟩) (.inr (.inl mine)) (fun _ => live)
      h.one h.fresh h.old h.once
  | unlock =>
    obtain rfl := Option.some.inj hs
    obtain ⟨mine, object, pointer, live⟩ := holds rfl
    exact h.update rfl (fun locked => by cases locked) (.inr (.inl mine))
      (fun _ => by simp [State.goto, pointer, live]) h.one h.fresh h.old h.once
  | closeUnlock =>
    obtain rfl := Option.some.inj hs
    obtain ⟨mine, live⟩ := holds rfl
    exact h.update rfl (fun locked => by cases locked) (.inr (.inl mine)) (fun _ => live) h.one
      h.fresh h.old h.once
  | load =>
    obtain rfl := Option.some.inj hs
    exact h.goto fun locked => by cases locked
  | shutdownInterval =>
    obtain rfl := Option.some.inj hs
    exact h.goto fun _ => holds rfl
  | delete =>
    obtain rfl := Option.some.inj hs
    obtain ⟨mine, object, pointer, live⟩ := holds rfl
    obtain ⟨created, alive⟩ := h.fresh object (by simp [live])
    refine h.update rfl (fun _ => ⟨mine, by simp [Pc.Knows, live, pointer]⟩) (.inr (.inl mine)) ?_
      ?_ ?_ ?_ ?_
    · intro free
      simp [State.goto, mine] at free
    · simp [live, pointer]
    · simp [live, pointer]
    · simp only [pointer, Option.toList_some, List.mem_append, List.mem_singleton]
      rintro o (before | rfl)
      · exact h.old o before
      · exact created
    · simp only [pointer, Option.toList_some]
      refine List.nodup_append.mpr ⟨h.once, by simp, fun o mem o' mem' same => ?_⟩
      obtain rfl := List.mem_singleton.mp mem'
      exact alive (same ▸ mem)
  | clear =>
    obtain rfl := Option.some.inj hs
    obtain ⟨mine, live⟩ := holds rfl
    exact h.update rfl (fun _ => ⟨mine, live⟩) (.inr (.inl mine)) (fun _ => live) h.one h.fresh
      h.old h.once
  | returned | closed => cases hs

theorem Guarded.step (h : Guarded s) (hs : step s a = some s') : Guarded s' := by
  cases a with
  | callInstance =>
    obtain rfl := Option.some.inj hs
    exact h.append rfl
  | callShutdown =>
    obtain rfl := Option.some.inj hs
    exact h.append rfl
  | caller i =>
    obtain ⟨pc, at_, hs⟩ := Option.bind_eq_some_iff.mp hs
    exact h.caller at_ hs

theorem guarded_of_run {acts : List Act} (h : run step .initial acts = some s) : Guarded s :=
  run_invariant .initial (fun _ _ _ hs ha => hs.step ha) h

/-! ## Null pointers -/

/-- At most one object is live, no object was deleted twice, no call of `instance` has returned
null, and none that is at its last load would return null now. -/
structure Safe (s : State) : Prop where
  one : s.live.length ≤ 1
  once : s.deleted.Nodup
  returned : Pc.returned none ∉ s.callers
  returning : Pc.load ∈ s.callers → s.pointer ≠ none

/-- If this step stores null, no caller of `instance` is at its last load. -/
def ClearsAlone (s : State) : Act → Prop
  | .caller i => s.callers[i]? = some .clear → .load ∉ s.callers
  | _ => True

/-- A step that does not store null: the pointer stays non-null, and who comes to the last load
or returns null. -/
structure Keeps (s s' : State) : Prop where
  pointer : s.pointer ≠ none → s'.pointer ≠ none
  load : Pc.load ∈ s'.callers → Pc.load ∈ s.callers ∨ s'.pointer ≠ none
  returned : Pc.returned none ∈ s'.callers →
    Pc.returned none ∈ s.callers ∨ Pc.load ∈ s.callers ∧ s.pointer = none

theorem Keeps.of_set {i : ℕ} {pc' : Pc} (callers : s'.callers = s.callers.set i pc')
    (pointer : s.pointer ≠ none → s'.pointer ≠ none) (load : pc' = .load → s'.pointer ≠ none)
    (returned : pc' = .returned none → Pc.load ∈ s.callers ∧ s.pointer = none) : Keeps s s' where
  pointer := pointer
  load mem := by
    rw [callers] at mem
    exact (List.mem_or_eq_of_mem_set mem).imp_right fun same => load same.symm
  returned mem := by
    rw [callers] at mem
    exact (List.mem_or_eq_of_mem_set mem).imp_right fun same => returned same.symm

theorem Keeps.caller (h : Guarded s) {i : ℕ} {pc : Pc} (at_ : s.callers[i]? = some pc)
    (hs : callerStep s i pc = some s') (keeps : pc ≠ .clear) : Keeps s s' := by
  cases pc with
  | clear => exact absurd rfl keeps
  | returned | closed => cases hs
  | test =>
    obtain rfl := Option.some.inj hs
    refine .of_set rfl id ?_ ?_ <;> split_ifs with null <;> simp [State.goto, null]
  | closeTest | retest | closeRetest =>
    obtain rfl := Option.some.inj hs
    refine .of_set rfl id ?_ ?_ <;> split_ifs <;> simp
  | lock | closeLock =>
    obtain ⟨-, hs⟩ := Option.ite_none_right_eq_some.mp hs
    obtain rfl := Option.some.inj hs
    exact .of_set rfl id (by simp) (by simp)
  | unlock =>
    -- The mutex is released, but the pointer is known from under it.
    obtain rfl := Option.some.inj hs
    obtain ⟨-, object, pointer, -⟩ := h.holder i _ at_ rfl
    exact .of_set rfl id (by simp [State.goto, pointer]) (by simp)
  | load =>
    obtain rfl := Option.some.inj hs
    refine .of_set rfl id (by simp) fun null => ⟨List.mem_of_getElem? at_, ?_⟩
    exact Pc.returned.inj null
  | store object =>
    obtain rfl := Option.some.inj hs
    exact .of_set rfl (by simp) (by simp) (by simp)
  | new | shutdownInterval | delete | closeUnlock =>
    obtain rfl := Option.some.inj hs
    exact .of_set rfl id (by simp) (by simp)

/-- A step stores null, or keeps the pointer non-null. -/
theorem clear_or_keeps (h : Guarded s) (hs : step s a = some s') :
    (∃ i, a = .caller i ∧ s.callers[i]? = some .clear ∧
        s' = { s.goto i .closeUnlock with pointer := none }) ∨
      Keeps s s' ∧ ∀ i, a = .caller i → s.callers[i]? ≠ some .clear := by
  cases a with
  | callInstance | callShutdown =>
    obtain rfl := Option.some.inj hs
    exact .inr ⟨⟨id, fun mem => .inl (by simpa using mem), fun mem => .inl (by simpa using mem)⟩,
      by simp⟩
  | caller i =>
    obtain ⟨pc, at_, hs⟩ := Option.bind_eq_some_iff.mp hs
    by_cases clear : pc = .clear
    · subst clear
      exact .inl ⟨i, rfl, at_, (Option.some.inj hs).symm⟩
    · refine .inr ⟨.caller h at_ hs clear, ?_⟩
      rintro j ⟨rfl⟩ at'
      exact clear (by simpa [at_] using at')

theorem Safe.step (guarded : Guarded s) (h : Safe s) (alone : ClearsAlone s a)
    (hs : step s a = some s') : Safe s' := by
  have after := guarded.step hs
  rcases clear_or_keeps guarded hs with ⟨i, rfl, at_, rfl⟩ | ⟨keeps, -⟩
  · -- Null is stored: nobody is at the last load.
    refine ⟨after.one, after.once, fun mem => ?_, fun mem => ?_⟩
    · exact h.returned ((List.mem_or_eq_of_mem_set mem).resolve_right (by simp))
    · exact absurd ((List.mem_or_eq_of_mem_set mem).resolve_right (by simp)) (alone at_)
  · refine ⟨after.one, after.once, fun mem => ?_, fun mem => ?_⟩
    · rcases keeps.returned mem with before | ⟨load, null⟩
      · exact h.returned before
      · exact h.returning load null
    · exact (keeps.load mem).elim (fun load => keeps.pointer (h.returning load)) id

theorem ClearsAlone.of_safe (guarded : Guarded s) (hs : step s a = some s') (h : Safe s') :
    ClearsAlone s a := by
  cases a with
  | callInstance | callShutdown => trivial
  | caller k =>
    intro at_ load
    rcases clear_or_keeps guarded hs with ⟨i, ⟨rfl⟩, -, rfl⟩ | ⟨-, other⟩
    · refine h.returning ?_ rfl
      obtain ⟨j, hj⟩ := List.mem_iff_getElem?.mp load
      have ne : k ≠ j := by
        rintro rfl
        simp [at_] at hj
      refine List.mem_of_getElem? (i := j) ?_
      rw [State.goto, List.getElem?_set_ne ne, hj]
    · exact other k rfl at_

/-- In every interleaving there is at most one live object and no object is deleted twice. -/
theorem one_live {acts : List Act} (h : run step .initial acts = some s) :
    s.live.length ≤ 1 ∧ s.deleted.Nodup :=
  ⟨(guarded_of_run h).one, (guarded_of_run h).once⟩

/-- In every interleaving at most one object is live at a time, no object is deleted twice, and no
call of `instance` returns null or is about to, if and only if null is never stored while a caller
of `instance` is at its last load. -/
theorem safe_iff {acts : List Act} (h : run step .initial acts = some s) :
    EveryState step Safe .initial acts ↔ EveryStep step ClearsAlone .initial acts := by
  refine everyState_iff_everyStep (I := Guarded) .initial (fun _ _ _ hs ha => hs.step ha) ?_
    (fun _ _ _ guarded safe alone ha => safe.step guarded alone ha)
    (fun _ _ _ guarded ha safe => .of_safe guarded ha safe) h
  exact ⟨Nat.zero_le 1, .nil, by simp [State.initial], by simp [State.initial]⟩

/-- A caller of `instance` creates the object and returns it, then a caller of `shutdown` deletes
it. -/
def oneByOne : List Act :=
  [.callInstance, .caller 0, .caller 0, .caller 0, .caller 0, .caller 0, .caller 0, .caller 0,
   .callShutdown, .caller 1, .caller 1, .caller 1, .caller 1, .caller 1, .caller 1, .caller 1]

theorem safe_iff_oneByOne :
    ∃ s, run step .initial oneByOne = some s ∧ s.callers = [.returned (some 0), .closed] ∧
      s.deleted = [0] ∧
      (EveryState step Safe .initial oneByOne ↔ EveryStep step ClearsAlone .initial oneByOne) := by
  have end_ : (run step .initial oneByOne).map (fun s => (s.callers, s.deleted)) =
      some ([.returned (some 0), .closed], [0]) := by decide +kernel
  obtain ⟨s, hs, he⟩ := Option.map_eq_some_iff.mp end_
  obtain ⟨callers, deleted⟩ := Prod.mk.inj he
  exact ⟨s, hs, callers, deleted, safe_iff hs⟩

/-- A second caller of `instance` passes its first test, and makes its last load after the object
was deleted. -/
def overtaken : List Act :=
  [.callInstance, .caller 0, .caller 0, .caller 0, .caller 0, .caller 0, .caller 0, .caller 0,
   .callInstance, .caller 1,
   .callShutdown, .caller 2, .caller 2, .caller 2, .caller 2, .caller 2, .caller 2, .caller 2,
   .caller 1]

theorem overtaken_returns_null :
    ∃ s, run step .initial overtaken = some s ∧
      s.callers = [.returned (some 0), .returned none, .closed] ∧ ¬ Safe s := by
  have end_ : (run step .initial overtaken).map (·.callers) =
      some [.returned (some 0), .returned none, .closed] := by decide +kernel
  obtain ⟨s, hs, callers⟩ := Option.map_eq_some_iff.mp end_
  exact ⟨s, hs, callers, fun safe => safe.returned (by simp [callers])⟩

end EpollServer.ThreadPool.Singleton
