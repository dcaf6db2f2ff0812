import EpollServer.ThreadPool.Graceful
import Mathlib.Logic.Function.Basic

/-!
# Which task each thread runs

`running` is a map from threads to tasks in progress. A step of the pool leaves it alone, or
changes it at one thread: a delivered task starts, a running one returns, or goes on. `Flow` says
so together with the history of the ring.
-/
namespace EpollServer.ThreadPool

open Library

variable {Fn Arg R : Type} {start : Task Fn Arg → R} {s s' : State Fn Arg R} {a : Act Fn Arg R}

/-- The ring has accepted and delivered the same tasks. -/
def SameHistory (s s' : State Fn Arg R) : Prop :=
  s'.accepted = s.accepted ∧ s'.delivered = s.delivered

/-- What a step does to the running tasks and to the history. -/
inductive Flow (start : Task Fn Arg → R) (s : State Fn Arg R) :
    Act Fn Arg R → State Fn Arg R → Prop where
  | submit {args : Option Arg} {func : Option Fn} {woken : List ℕ} {s' : State Fn Arg R}
      (accepted : s'.accepted = s.accepted ++ [⟨func, args⟩])
      (delivered : s'.delivered = s.delivered) (same : s'.running = s.running) :
      Flow start s (.submit args func woken) s'
  | take {i : ℕ} {task : Task Fn Arg} {s' : State Fn Arg R} (accepted : s'.accepted = s.accepted)
      (delivered : s'.delivered = s.delivered ++ [task]) (idle : s.running i = none)
      (runs : s'.running = Function.update s.running i (some (start task))) :
      Flow start s (.thread i) s'
  | finish {i : ℕ} {r : R} {s' : State Fn Arg R} (history : SameHistory s s')
      (running : s.running i = some r) (runs : s'.running = Function.update s.running i none) :
      Flow start s (.thread i) s'
  | work {i : ℕ} {r₀ r : R} {s' : State Fn Arg R} (history : SameHistory s s')
      (running : s.running i = some r₀)
      (runs : s'.running = Function.update s.running i (some r)) : Flow start s (.work i r) s'
  | other {a : Act Fn Arg R} {s' : State Fn Arg R} (history : SameHistory s s')
      (same : s'.running = s.running) (idle : ∀ i r, a ≠ .work i r) : Flow start s a s'

/-- The task that a thread at this program point runs. -/
def Pc.task : Pc R → Option R
  | .running r => some r
  | .created | .started | .counted | .ready | .parked | .woken | .leaving | .terminated => none

theorem running_eq (s : State Fn Arg R) (i : ℕ) : s.running i = s.threads[i]?.bind (·.pc.task) := by
  unfold State.running
  cases s.threads[i]? with
  | none => rfl
  | some t => cases hpc : t.pc <;> simp [hpc, Pc.task]

theorem running_update {i : ℕ} {t u : Thread R} {r : Option R} (at_ : s.threads[i]? = some t)
    (threads : s'.threads = s.threads.set i u) (after : u.pc.task = r) :
    s'.running = Function.update s.running i r := by
  have inside := (List.getElem?_eq_some_iff.mp at_).1
  funext j
  by_cases same : j = i
  · subst same
    rw [running_eq, threads, List.getElem?_set_self inside, Function.update_self]
    exact after
  · rw [Function.update_of_ne same, running_set threads same]

/-- A step of a thread that runs no task before it and after it. -/
theorem running_idle {i : ℕ} {t u : Thread R} (at_ : s.threads[i]? = some t)
    (threads : s'.threads = s.threads.set i u) (before : t.pc.task = none)
    (after : u.pc.task = none) : s'.running = s.running := by
  rw [running_update at_ threads after, Function.update_eq_self_iff, running_eq, at_]
  exact before.symm

theorem Move.flow (m : Move start s a s') : Flow start s a s' := by
  have waiting {t : Thread R} (pc : t.pc = .ready ∨ t.pc = .woken) : t.pc.task = none := by
    rcases pc with pc | pc <;> rw [pc] <;> rfl
  cases m
  case spawn =>
    refine .other ⟨rfl, rfl⟩ (funext fun j => ?_) (by simp)
    simp only [running_eq, List.getElem?_append, List.getElem?_singleton]
    split_ifs with old last
    · rfl
    · rw [List.getElem?_eq_none (Nat.le_of_not_lt old)]
      rfl
    · rw [List.getElem?_eq_none (Nat.le_of_not_lt old)]
  case accept => exact .submit rfl rfl (funext (running_unpark rfl))
  case wake | shutdown => exact .other ⟨rfl, rfl⟩ (funext (running_unpark rfl)) (by simp)
  case start at_ pc _ | count at_ pc _ | pin at_ pc _ | exit at_ pc =>
    exact .other ⟨rfl, rfl⟩ (running_idle at_ rfl (by rw [pc]; rfl) rfl) (by simp)
  case park at_ pc _ _ _ | leave at_ pc _ _ =>
    exact .other ⟨rfl, rfl⟩ (running_idle at_ rfl (waiting pc) rfl) (by simp)
  case take i t task pool at_ pc _ _ _ _ =>
    refine .take rfl rfl ?_ (running_update at_ rfl rfl)
    rw [running_eq, at_]
    exact waiting pc
  case finish at_ pc =>
    exact .finish ⟨rfl, rfl⟩ (State.running_of at_ pc) (running_update at_ rfl rfl)
  case work at_ pc =>
    exact .work ⟨rfl, rfl⟩ (State.running_of at_ pc) (running_update at_ rfl rfl)
  all_goals exact .other ⟨rfl, rfl⟩ rfl (by simp)

/-- Threads are only added. -/
theorem Move.length_le (m : Move start s a s') : s.threads.length ≤ s'.threads.length := by
  cases m <;> simp [State.setThread, State.raise, unpark]

end EpollServer.ThreadPool
