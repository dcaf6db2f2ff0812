import EpollServer.Library.Run
import Mathlib.Logic.Function.Basic
import Mathlib.Data.List.Count

/-!
# A lock and the threads that take it

Every thread `k` has a number `rest k`: how many steps of its own it takes at most until it lets go
of the lock, and zero while it is outside of the critical section. If each step of a system takes
the lock, goes on under it, lets it go, or has nothing to do with it, then the holder of the lock is
the only thread in its critical section, and it lets go before it has used up its steps, whatever
the other threads do in between.
-/
namespace EpollServer.Library

variable {κ σ α : Type*} [DecidableEq κ]

/-- What a step does to a lock and to the threads in their critical section; `own` says whose step
it is. -/
inductive Locks (own : κ → Bool) (lock lock' : Option κ) (rest rest' : κ → ℕ) : Prop where
  | take (k : κ) (r : ℕ) (free : lock = none) (held : lock' = some k) (inside : 0 < r)
      (after : rest' = Function.update rest k r)
  | go (k : κ) (r : ℕ) (same : lock' = lock) (inside : 0 < r) (less : r < rest k)
      (after : rest' = Function.update rest k r)
  | release (k : κ) (held : lock = some k) (free : lock' = none)
      (after : rest' = Function.update rest k 0)
  | other (same : lock' = lock) (rest_eq : rest' = rest) (outside : ∀ k, own k = true → rest k = 0)

/-- The threads in their critical section are those that hold the lock. -/
def Guards (lock : Option κ) (rest : κ → ℕ) : Prop := ∀ k, 0 < rest k ↔ lock = some k

variable {own : κ → Bool} {lock lock' : Option κ} {rest rest' : κ → ℕ} {k : κ}

theorem Guards.step (h : Guards lock rest) (m : Locks own lock lock' rest rest') :
    Guards lock' rest' := by
  intro j
  cases m with
  | take k r free held inside after =>
    rw [after, held]
    by_cases same : j = k
    · simp [same, inside]
    · rw [Function.update_of_ne same, h j, free]
      simp [Ne.symm same]
  | go k r same inside less after =>
    have mine : lock = some k := (h k).mp (Nat.zero_lt_of_lt less)
    rw [after, same]
    by_cases one : j = k
    · simp [one, inside, mine]
    · rw [Function.update_of_ne one]
      exact h j
  | release k held free after =>
    rw [after, free]
    by_cases same : j = k
    · simp [same]
    · rw [Function.update_of_ne same, h j, held]
      simp [Ne.symm same]
  | other same rest_eq =>
    rw [same, rest_eq]
    exact h j

/-- The holder lets go before it has taken as many steps as it had left. -/
theorem released_of_run {step : σ → α → Option σ} {I : σ → Prop} {lock : σ → Option κ}
    {rest : σ → κ → ℕ} {own : α → κ → Bool} (keep : ∀ s a t, I s → step s a = some t → I t)
    (guards : ∀ s, I s → Guards (lock s) (rest s))
    (locks : ∀ s a t, I s → step s a = some t →
      Locks (own a) (lock s) (lock t) (rest s) (rest t)) {as : List α} {s t : σ} (start : I s)
    (h : run step s as = some t) (held : lock s = some k)
    (enough : rest s k ≤ as.countP (own · k)) :
    ∃ pre post u, as = pre ++ post ∧ run step s pre = some u ∧ lock u = none ∧
      pre.countP (own · k) ≤ rest s k := by
  have inside := (guards s start k).mpr held
  induction as generalizing s with
  | nil => simp at enough; omega
  | cons a as ih =>
    obtain ⟨v, hv, later⟩ := Option.bind_eq_some_iff.mp h
    have count : (a :: as).countP (own · k) = as.countP (own · k) + if own a k then 1 else 0 :=
      List.countP_cons
    -- As long as the lock is held, the argument goes on from the state after the step.
    have next (still : lock v = some k)
        (less : rest v k + (if own a k then 1 else 0) ≤ rest s k) :
        ∃ pre post u, a :: as = pre ++ post ∧ run step s pre = some u ∧ lock u = none ∧
          pre.countP (own · k) ≤ rest s k := by
      have good := keep s a v start hv
      obtain ⟨pre, post, u, rfl, hu, free, few⟩ :=
        ih good later still (by omega) ((guards v good k).mpr still)
      refine ⟨a :: pre, post, u, rfl, by rw [run_cons, hv]; exact hu, free, ?_⟩
      rw [List.countP_cons]
      omega
    cases locks s a v start hv with
    | take j r free => simp [held] at free
    | go j r same _ less after =>
      obtain rfl : j = k := by
        have := (guards s start j).mp (Nat.zero_lt_of_lt less)
        simpa [held] using this.symm
      apply next (same.trans held)
      rw [after, Function.update_self]
      split_ifs <;> omega
    | release j mine free =>
      refine ⟨[a], as, v, rfl, by simp [run_cons, hv], free, ?_⟩
      simp only [List.countP_singleton]
      split_ifs <;> omega
    | other same rest_eq outside =>
      have quiet : own a k = false := by
        by_contra mine
        have := outside k (by simpa using mine)
        omega
      apply next (same.trans held)
      rw [rest_eq, quiet]
      simp

end EpollServer.Library
