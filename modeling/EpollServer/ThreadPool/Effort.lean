import EpollServer.Library.Tally
import EpollServer.ThreadPool.Running
import EpollServer.ThreadPool.Wakeup

/-!
# What the threads still have to do

Each thread has a number of steps to take before it parks again, and each queued task adds the
steps that it will take. A step of a thread lowers the sum by one. It rises only when a thread is
created, a task is accepted, or a thread is unparked, so the threads of an open pool do not spin.

`w` bounds the steps of a task in progress, and `top` those of a task that has just started.
-/
namespace EpollServer.ThreadPool

open Library

variable {Fn Arg R : Type} {start : Task Fn Arg → R} {s s' : State Fn Arg R}
  {a : Act Fn Arg R} {w : R → ℕ} {top : ℕ} {i : ℕ}

def Pc.effort (w : R → ℕ) : Pc R → ℕ
  | .created => 4
  | .started => 3
  | .counted => 2
  | .ready | .woken | .leaving => 1
  | .running r => w r + 2
  | .parked | .terminated => 0

def effortOf (w : R → ℕ) (threads : List (Thread R)) : ℕ := tally (·.pc.effort w) threads

def State.effort (w : R → ℕ) (top : ℕ) (s : State Fn Arg R) : ℕ :=
  effortOf w s.threads + (top + 2) * s.pool.workCount.toNat

/-- What an action adds to the sum, apart from the threads that it unparks. -/
def Act.brought (top : ℕ) : Act Fn Arg R → ℕ
  | .creator _ => 4
  | .submit _ _ _ => top + 2
  | _ => 0

/-- The action is a step of a thread outside of its task. -/
def Act.byThread : Act Fn Arg R → Bool
  | .thread _ => true
  | _ => false

/-- A thread that is unparked has one step to take. -/
theorem effortOf_unpark (selected : ℕ → Bool) (threads : List (Thread R)) :
    effortOf w (unpark selected threads) + parkedIn (unpark selected threads) =
      effortOf w threads + parkedIn threads := by
  unfold effortOf parkedIn
  rw [← tally_add, ← tally_add]
  refine tally_mapIdx _ _ _ _ fun i t => ?_
  split_ifs with woken
  · have parked := (Bool.and_eq_true_iff.mp woken).2
    cases pc : t.pc <;> simp_all [Pc.isParked, Pc.effort]
  · rfl

/-! ## One step -/

theorem effortOf_set {t u : Thread R} {threads : List (Thread R)} (at_ : threads[i]? = some t) :
    effortOf w (threads.set i u) + t.pc.effort w = effortOf w threads + u.pc.effort w :=
  tally_set at_

/-- A thread takes a step and no task. -/
theorem effort_thread {t u : Thread R} (at_ : s.threads[i]? = some t)
    (threads : s'.threads = s.threads.set i u)
    (count : s'.pool.workCount = s.pool.workCount) (less : u.pc.effort w + 1 ≤ t.pc.effort w) :
    s'.effort w top + 1 ≤ s.effort w top := by
  have moved := effortOf_set (w := w) (u := u) at_
  simp only [State.effort, threads, count]
  omega

/-- A step of an open pool that does not fail. -/
theorem Move.effort_le (m : Move start s a s') (fits : ∀ task, w (start task) ≤ top)
    (open_ : s.pool.shutdown = false) (count : 0 ≤ s.pool.workCount) (fine : s'.fault = none)
    (shutdown : ∀ mode, a ≠ .shutdown mode) (works : ∀ i r, a ≠ .work i r) :
    s'.effort w top + ind a.byThread ≤
      s.effort w top + a.brought top + (parkedIn s.threads - parkedIn s'.threads) := by
  cases m
  case create => simp [State.effort, Pool.create, Act.brought, Act.byThread]
  case spawn => simp [State.effort, effortOf, Pc.effort, Act.brought, Act.byThread]; omega
  case submitFault | setMaskFault | useAfterFree | dequeueFault | joinFault =>
    simp [State.raise] at fine
  case accept args func woken pool _ _ enqueued _ =>
    obtain ⟨_, _, rfl⟩ := Pool.enqueue_eq enqueued
    have threads := effortOf_unpark (w := w) (woken.contains ·) s.threads
    have one : (s.pool.workCount + 1).toNat = s.pool.workCount.toNat + 1 := by omega
    simp only [State.effort, Act.brought, one, Nat.mul_succ, Act.byThread, ind_false]
    omega
  case wake i =>
    have threads := effortOf_unpark (w := w) (· == i) s.threads
    simp only [State.effort, Act.brought, Act.byThread, ind_false]
    omega
  case start at_ pc _ | count at_ pc _ | pin at_ pc _ | finish at_ pc | exit at_ pc =>
    refine Nat.le_trans (effort_thread at_ rfl rfl ?_) (Nat.le_add_right _ _)
    simp [pc, Pc.effort]
  case park at_ pc _ _ _ =>
    refine Nat.le_trans (effort_thread at_ rfl rfl ?_) (Nat.le_add_right _ _)
    rcases pc with pc | pc <;> simp [pc, Pc.effort]
  case leave closed => simp [open_] at closed
  case take i t task pool at_ pc _ _ work dequeued =>
    obtain ⟨_, _, rfl⟩ := Pool.dequeue_eq dequeued
    have fits := fits task
    have moved := effortOf_set (w := w) (u := { t with pc := .running (start task) }) at_
    have before : t.pc.effort w = 1 := by
      rcases pc with pc | pc <;> rw [pc] <;> rfl
    have one : s.pool.workCount.toNat = (s.pool.workCount - 1).toNat + 1 := by omega
    have after : Pc.effort w (.running (start task)) = w (start task) + 2 := rfl
    rw [before, after] at moved
    simp only [State.effort, State.setThread, one, Nat.mul_succ, Act.byThread, ind_true]
    omega
  case work i r _ _ _ _ => exact absurd rfl (works i r)
  case shutdown mode _ _ _ | shutdownAgain mode _ _ _ => exact absurd rfl (shutdown mode)
  all_goals exact Nat.le_trans (Nat.le_add_right _ _) (Nat.le_add_right _ _)

/-- A task in progress goes on. -/
theorem Move.effort_work {r r₀ : R} (m : Move start s (.work i r) s')
    (runs : s.running i = some r₀) :
    s'.effort w top + w r₀ = s.effort w top + w r := by
  cases m
  case work t r₁ pc at_ =>
    obtain rfl : r₁ = r₀ := Option.some.inj ((State.running_of at_ pc).symm.trans runs)
    have moved := effortOf_set (w := w) (u := { t with pc := .running r }) at_
    simp only [pc, Pc.effort] at moved
    simp only [State.effort, State.setThread]
    omega

/-- Per thread and per queued task there are at most as many steps to take as a task has. -/
theorem effort_le_mul (fits : ∀ t ∈ s.threads, ∀ r, t.pc = .running r → w r ≤ top)
    (two : 2 ≤ top) :
    s.effort w top ≤ (top + 2) * (s.threads.length + s.pool.workCount.toNat) := by
  have each : effortOf w s.threads ≤ (top + 2) * s.threads.length := by
    refine (tally_le_length fun t mem => ?_)
    cases pc : t.pc with
    | running r =>
      have := fits t mem r pc
      simp only [Pc.effort]
      omega
    | _ => simp only [Pc.effort]; omega
  rw [State.effort, Nat.mul_add]
  omega

end EpollServer.ThreadPool
