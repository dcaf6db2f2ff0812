import EpollServer.Library.Charge
import EpollServer.Library.Lock
import EpollServer.ThreadPool.Singleton

/-!
# `instance` of `error_map` and of `httpcode_map`

Both functions are `instance` of `thread_pool` again, each with a mutex and a pointer of its own,
but neither map is ever deleted. Without a deletion the two tests do what they are for: one map is
created, every caller returns it, and every caller returns.
-/
namespace EpollServer.CodeMap

open Library
open ThreadPool.Singleton (Pc State Act Guarded callerStep)

/-- A caller of `instance`, and nobody else. -/
def step (s : State) : Act → Option State
  | .callInstance => ThreadPool.Singleton.step s .callInstance
  | .caller i => ThreadPool.Singleton.step s (.caller i)
  | .callShutdown => none

variable {s s' : State} {act : Act} {acts : List Act} {i : ℕ} {pc : Pc}

/-- The steps of a caller until it has returned. -/
def left : Pc → ℕ
  | .test => 7
  | .lock => 6
  | .retest => 5
  | .new => 4
  | .store _ => 3
  | .unlock => 2
  | .load => 1
  | _ => 0

/-- A program point of `instance`. -/
def ofInstance : Pc → Bool
  | .test | .lock | .retest | .new | .store _ | .unlock | .load | .returned _ => true
  | .closeTest | .closeLock | .closeRetest | .shutdownInterval | .delete | .clear | .closeUnlock
  | .closed => false

/-- The steps of a caller until it unlocks the mutex, zero while it does not hold it. -/
def remaining : Pc → ℕ
  | .retest => 4
  | .new => 3
  | .store _ => 2
  | .unlock => 1
  | _ => 0

def inside (s : State) (i : ℕ) : ℕ := (s.callers[i]?).elim 0 remaining

/-- What is true of a map in every interleaving. -/
structure Shared (s : State) : Prop where
  guarded : Guarded s
  calls : ∀ pc ∈ s.callers, ofInstance pc = true
  live : s.live = List.range s.created
  kept : s.deleted = []
  pointer : ∀ object, s.pointer = some object → object = 0
  loads : Pc.load ∈ s.callers → s.pointer ≠ none
  returns : ∀ object, Pc.returned object ∈ s.callers → object = some 0
  mutex : Guards s.mutex (inside s)

theorem Shared.initial : Shared .initial := by
  refine ⟨.initial, ?_, rfl, rfl, ?_, ?_, ?_, fun i => ?_⟩ <;> simp [State.initial, inside]

theorem Shared.created_le (h : Shared s) : s.created ≤ 1 := by
  have one := h.guarded.one
  rwa [h.live, List.length_range] at one

theorem inside_eq (at_ : s.callers[i]? = some pc) : inside s i = remaining pc := by
  rw [inside, at_, Option.elim_some]

theorem inside_update {pc' : Pc} {r : ℕ} (at_ : s.callers[i]? = some pc)
    (callers : s'.callers = s.callers.set i pc') (after : remaining pc' = r) :
    inside s' = Function.update (inside s) i r := by
  have length := (List.getElem?_eq_some_iff.mp at_).1
  funext j
  by_cases same : j = i
  · subst same
    simp [inside, callers, length, after]
  · simp [inside, callers, List.getElem?_set_ne (Ne.symm same), same]

/-- A step outside of the mutex. -/
theorem locks_outside {pc' : Pc} (at_ : s.callers[i]? = some pc)
    (callers : s'.callers = s.callers.set i pc') (mutex : s'.mutex = s.mutex)
    (before : remaining pc = 0) (after : remaining pc' = 0) :
    Locks (· == i) s.mutex s'.mutex (inside s) (inside s') := by
  have zero : inside s i = 0 := (inside_eq at_).trans before
  refine .other mutex ?_ fun k mine => ?_
  · rw [inside_update at_ callers after, ← zero]
    exact Function.update_eq_self i _
  · rw [eq_of_beq mine, zero]

/-- A step under the mutex. -/
theorem locks_under {pc' : Pc} (at_ : s.callers[i]? = some pc)
    (callers : s'.callers = s.callers.set i pc') (mutex : s'.mutex = s.mutex)
    (more : 0 < remaining pc') (less : remaining pc' < remaining pc) :
    Locks (· == i) s.mutex s'.mutex (inside s) (inside s') :=
  .go i _ mutex more (by rwa [inside_eq at_]) (inside_update at_ callers rfl)

/-- A caller goes from `pc` to `pc'`. -/
theorem Shared.update (h : Shared s) (guarded : Guarded s') {pc' : Pc}
    (callers : s'.callers = s.callers.set i pc') (calls : ofInstance pc' = true)
    (live : s'.live = List.range s'.created) (kept : s'.deleted = s.deleted)
    (pointer : s'.pointer = s.pointer ∨ s'.pointer = some 0)
    (loads : pc' = .load → s'.pointer ≠ none)
    (returns : ∀ object, pc' = .returned object → object = some 0)
    (locks : Locks (· == i) s.mutex s'.mutex (inside s) (inside s')) : Shared s' where
  guarded := guarded
  calls p mem := by
    rw [callers] at mem
    rcases List.mem_or_eq_of_mem_set mem with old | rfl
    · exact h.calls p old
    · exact calls
  live := live
  kept := kept.trans h.kept
  pointer object some_ := by
    rcases pointer with same | zero
    · exact h.pointer object (same ▸ some_)
    · exact (Option.some.inj (zero.symm.trans some_)).symm
  loads mem := by
    rw [callers] at mem
    rcases List.mem_or_eq_of_mem_set mem with old | new
    · rcases pointer with same | zero
      · exact same ▸ h.loads old
      · simp [zero]
    · exact loads new.symm
  returns object mem := by
    rw [callers] at mem
    rcases List.mem_or_eq_of_mem_set mem with old | new
    · exact h.returns object old
    · exact returns object new.symm
  mutex := h.mutex.step locks

theorem Shared.caller (h : Shared s) (at_ : s.callers[i]? = some pc)
    (hs : callerStep s i pc = some s') : Shared s' := by
  have guarded := h.guarded.caller at_ hs
  have mem := List.mem_of_getElem? at_
  cases pc with
  | test =>
    obtain rfl := Option.some.inj hs
    refine h.update guarded rfl ?_ h.live rfl (.inl rfl) ?_ ?_ (locks_outside at_ rfl rfl rfl ?_)
    · split_ifs <;> rfl
    · intro load null
      have null : s.pointer = none := null
      simp [null] at load
    · split_ifs <;> simp
    · split_ifs <;> rfl
  | lock =>
    obtain ⟨free, hs⟩ := Option.ite_none_right_eq_some.mp hs
    obtain rfl := Option.some.inj hs
    exact h.update guarded rfl rfl h.live rfl (.inl rfl) (by simp) (by simp)
      (.take i 4 free rfl (by decide) (inside_update at_ rfl rfl))
  | retest =>
    obtain rfl := Option.some.inj hs
    refine h.update guarded rfl ?_ h.live rfl (.inl rfl) ?_ ?_ (locks_under at_ rfl rfl ?_ ?_)
    all_goals split_ifs <;> simp [ofInstance, remaining]
  | new =>
    obtain rfl := Option.some.inj hs
    refine h.update guarded rfl rfl ?_ rfl (.inl rfl) (by simp) (by simp)
      (locks_under at_ rfl rfl Nat.two_pos (Nat.lt_succ_self 2))
    rw [h.live, List.range_succ]
  | store object =>
    obtain rfl := Option.some.inj hs
    obtain ⟨-, -, live⟩ := h.guarded.holder i _ at_ rfl
    -- The object that is stored is the only one.
    have zero : object = 0 := by
      have known : object ∈ List.range s.created := by
        rw [← h.live, live]
        exact List.mem_singleton.mpr rfl
      have one := h.created_le
      have below := List.mem_range.mp known
      omega
    exact h.update guarded rfl rfl h.live rfl (.inr (by rw [zero])) (by simp) (by simp)
      (locks_under at_ rfl rfl Nat.one_pos Nat.one_lt_two)
  | unlock =>
    obtain rfl := Option.some.inj hs
    obtain ⟨mine, object, pointer, -⟩ := h.guarded.holder i _ at_ rfl
    refine h.update guarded rfl rfl h.live rfl (.inl rfl) (fun _ null => ?_) (by simp)
      (.release i mine rfl (inside_update at_ rfl rfl))
    exact Option.some_ne_none object (pointer.symm.trans null)
  | load =>
    obtain rfl := Option.some.inj hs
    refine h.update guarded rfl rfl h.live rfl (.inl rfl) (by simp) ?_
      (locks_outside at_ rfl rfl rfl rfl)
    rintro object ⟨⟩
    obtain ⟨o, pointer⟩ := Option.ne_none_iff_exists'.mp (h.loads mem)
    rw [pointer, h.pointer o pointer]
  | returned => cases hs
  | closeTest | closeLock | closeRetest | shutdownInterval | delete | clear | closeUnlock |
    closed => cases h.calls _ mem

theorem Shared.step (h : Shared s) (hs : step s act = some s') : Shared s' := by
  cases act with
  | callShutdown => cases hs
  | caller i =>
    obtain ⟨pc, at_, hs⟩ := Option.bind_eq_some_iff.mp hs
    exact h.caller at_ hs
  | callInstance =>
    have guarded := h.guarded.step (a := .callInstance) hs
    obtain rfl := Option.some.inj hs
    refine ⟨guarded, ?_, h.live, h.kept, h.pointer, ?_, ?_, ?_⟩
    · intro pc mem
      rcases List.mem_append.mp mem with old | new
      · exact h.calls pc old
      · rw [List.mem_singleton.mp new]
        rfl
    · simpa using h.loads
    · simpa using h.returns
    · have same : inside { s with callers := s.callers ++ [.test] } = inside s := by
        funext i
        simp only [inside, List.getElem?_append, List.getElem?_singleton]
        split_ifs with old last
        · rfl
        · rw [List.getElem?_eq_none (Nat.le_of_not_lt old)]
          rfl
        · rw [List.getElem?_eq_none (Nat.le_of_not_lt old)]
      exact same ▸ h.mutex

theorem shared_of_run (h : run CodeMap.step .initial acts = some s) : Shared s :=
  run_invariant .initial (fun _ _ _ hs ha => hs.step ha) h

/-! ## Every caller returns -/

/-- A caller that has not returned can go on, or waits for one that can. -/
theorem Shared.exists_enabled (h : Shared s) (waits : ∃ pc ∈ s.callers, left pc ≠ 0) :
    ∃ i, (CodeMap.step s (.caller i)).isSome = true := by
  cases mutex : s.mutex with
  | none =>
    obtain ⟨pc, mem, more⟩ := waits
    obtain ⟨i, at_⟩ := List.mem_iff_getElem?.mp mem
    refine ⟨i, ?_⟩
    cases pc <;> simp_all [CodeMap.step, ThreadPool.Singleton.step, callerStep, left]
  | some i =>
    have busy := (h.mutex i).mpr mutex
    refine ⟨i, ?_⟩
    cases at_ : s.callers[i]? with
    | none => simp [inside, at_] at busy
    | some pc =>
      rw [inside_eq at_] at busy
      cases pc <;> simp_all [CodeMap.step, ThreadPool.Singleton.step, callerStep, remaining]

/-- The steps of the callers that are under way. -/
def credit (s : State) : ℕ := tally left s.callers

def called : Act → ℕ
  | .callInstance => 1
  | _ => 0

def stepped : Act → ℕ
  | .caller _ => 1
  | _ => 0

theorem credit_goto {pc' : Pc} (at_ : s.callers[i]? = some pc)
    (callers : s'.callers = s.callers.set i pc') (less : left pc' + 1 ≤ left pc) :
    credit s' + 1 ≤ credit s := by
  have moved := tally_set (f := left) (u := pc') at_
  simp only [credit, callers]
  omega

theorem credit_step (h : Shared s) (hs : CodeMap.step s act = some s') :
    credit s' + stepped act ≤ credit s + 7 * called act := by
  cases act with
  | callShutdown => cases hs
  | callInstance =>
    obtain rfl := Option.some.inj hs
    simp [credit, left, stepped, called]
  | caller i =>
    obtain ⟨pc, at_, hs⟩ := Option.bind_eq_some_iff.mp hs
    have calls := h.calls pc (List.mem_of_getElem? at_)
    cases pc with
    | test | retest =>
      obtain rfl := Option.some.inj hs
      refine credit_goto at_ rfl ?_
      split_ifs <;> simp [left]
    | lock =>
      obtain ⟨-, hs⟩ := Option.ite_none_right_eq_some.mp hs
      obtain rfl := Option.some.inj hs
      exact credit_goto at_ rfl (Nat.le_refl 6)
    | new | store | unlock | load =>
      obtain rfl := Option.some.inj hs
      exact credit_goto at_ rfl (Nat.le_refl _)
    | returned => cases hs
    | closeTest | closeLock | closeRetest | shutdownInterval | delete | clear | closeUnlock |
      closed => cases calls

/-- Any number of callers of `instance` create one map between them, and all that have returned
have it. They return: in every state one that has not returned has a step to take or waits for one
that has, and all steps together are at most seven for each call. -/
theorem instance_once (h : run CodeMap.step .initial acts = some s) :
    s.created ≤ 1 ∧ s.deleted = [] ∧
      (∀ object, Pc.returned object ∈ s.callers → object = some 0) ∧
      ((∀ pc ∈ s.callers, ∃ object, pc = .returned object) ∨
        ∃ i, (CodeMap.step s (.caller i)).isSome = true) ∧
      tally stepped acts ≤ 7 * tally called acts := by
  have shared := shared_of_run h
  refine ⟨shared.created_le, shared.kept, shared.returns, ?_, ?_⟩
  · by_cases waits : ∃ pc ∈ s.callers, left pc ≠ 0
    · exact .inr (shared.exists_enabled waits)
    · refine .inl fun pc mem => ?_
      have calls := shared.calls pc mem
      have done : left pc = 0 := by
        by_contra more
        exact waits ⟨pc, mem, more⟩
      cases pc <;> simp_all [left, ofInstance]
  · have charged : credit s + total CodeMap.step (fun _ => stepped) .initial acts ≤
        credit .initial + total CodeMap.step (fun _ act => 7 * called act) .initial acts :=
      charge_of_run (fun _ _ _ hs _ ha => credit_step hs ha)
        (fun pre post t _ ht => shared_of_run ht) h
    rw [total_eq_tally _ h, total_eq_tally _ h, tally_mul] at charged
    have none_ : credit .initial = 0 := rfl
    omega

/-- Both callers are past the first test before the map is there. -/
def bothTest : List Act :=
  [.callInstance, .callInstance, .caller 0, .caller 1] ++ List.replicate 6 (.caller 0) ++
    List.replicate 4 (.caller 1)

theorem instance_once_bothTest :
    ∃ s, run CodeMap.step .initial bothTest = some s ∧
      s.callers = [.returned (some 0), .returned (some 0)] ∧ s.created ≤ 1 ∧
      tally stepped bothTest ≤ 7 * tally called bothTest := by
  have end_ : (run CodeMap.step .initial bothTest).map (·.callers) =
      some [.returned (some 0), .returned (some 0)] := by decide +kernel
  obtain ⟨s, hs, callers⟩ := Option.map_eq_some_iff.mp end_
  obtain ⟨one, -, -, -, few⟩ := instance_once hs
  exact ⟨s, hs, callers, one, few⟩

end EpollServer.CodeMap
