import EpollServer.Library.Run
import EpollServer.Library.Tally

/-!
# What the steps of a run cost

Some steps spend credit and others bring it. If no step spends more than what it brings and what
the state gives up of its own credit, then a whole run does not either: the steps that spend are
bounded by the others, in whatever order they come.
-/
namespace EpollServer.Library

variable {σ α : Type*} {step : σ → α → Option σ} {P : σ → Prop} {credit : σ → ℕ}
  {spent brought : σ → α → ℕ} {s t : σ} {as : List α}

/-- A number of each step, added up over a run. -/
def total (step : σ → α → Option σ) (f : σ → α → ℕ) : σ → List α → ℕ
  | _, [] => 0
  | s, a :: as => f s a + (step s a).elim 0 fun t => total step f t as

/-- A number of the action alone. -/
theorem total_eq_tally (f : α → ℕ) (h : run step s as = some t) :
    total step (fun _ => f) s as = tally f as := by
  induction as generalizing s with
  | nil => rfl
  | cons a as ih =>
    obtain ⟨u, hu, rest⟩ := Option.bind_eq_some_iff.mp h
    simp only [total, hu, Option.elim_some, tally_cons, ih rest]

theorem charge_of_run
    (pay : ∀ s a t, P s → P t → step s a = some t → credit t + spent s a ≤ credit s + brought s a)
    (every : EveryState step P s as) (h : run step s as = some t) :
    credit t + total step spent s as ≤ credit s + total step brought s as := by
  induction as generalizing s with
  | nil =>
    obtain rfl : s = t := by simpa using h
    exact Nat.le_refl _
  | cons a as ih =>
    obtain ⟨u, hu, rest⟩ := Option.bind_eq_some_iff.mp h
    have later : EveryState step P u as := fun pre post v he hv =>
      every (a :: pre) post v (by rw [he, List.cons_append]) (by rwa [run_cons, hu])
    have first := pay s a u (every [] _ s rfl rfl) (later [] as u rfl rfl) hu
    have others := ih later rest
    simp only [total, hu, Option.elim_some]
    omega

/-- Where no step brings anything, the credit at the beginning bounds what is spent. -/
theorem total_le_of_run (credit : σ → ℕ)
    (pay : ∀ s a t, P s → P t → step s a = some t → credit t + spent s a ≤ credit s)
    (every : EveryState step P s as) (h : run step s as = some t) :
    total step spent s as ≤ credit s := by
  have charged : credit t + total step spent s as ≤ credit s + total step (fun _ _ => 0) s as :=
    charge_of_run pay every h
  rw [total_eq_tally (fun _ => 0) h, tally_eq_zero.mpr fun _ _ => rfl] at charged
  omega

end EpollServer.Library
