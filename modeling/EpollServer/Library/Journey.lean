import EpollServer.Library.Run
import Mathlib.Logic.Function.Basic
import Mathlib.Logic.Relation

/-!
# Items on their way through a system

Every item enters at the place `entry` and then goes from place to place along `next`, one leg at
a time. A position of all items is a function from items to places, so an item is never in two
places; a run of legs takes an item along a path of `next`.

A concurrent system says only whether an item is at a place. If each of its steps leaves every
item where it is, or lets one enter, or takes one a leg further, then it refines the journey:
`At` is the graph of such a function in every state, and over any part of a run each item goes
along a path.
-/
namespace EpollServer.Library

variable {ι π σ α : Type*}

/-- One item enters, or goes on to a place. -/
inductive Leg (ι π : Type*) where
  | enter (i : ι)
  | move (i : ι) (q : π)

section Journey

variable [DecidableEq ι] (entry : π) (next : π → π → Bool)

/-- An item enters once, and goes on only along `next`. -/
def journey (f : ι → Option π) : Leg ι π → Option (ι → Option π)
  | .enter i => if (f i).isNone then some (Function.update f i (some entry)) else none
  | .move i q =>
    if (f i).any fun p => next p q then some (Function.update f i (some q)) else none

/-- There is a path of legs between the places. -/
def Path (p q : π) : Prop := Relation.ReflTransGen (fun p q => next p q = true) p q

variable {entry next} {f g : ι → Option π} {legs : List (Leg ι π)} {i : ι} {p q : π}

theorem journey_path {l : Leg ι π} (h : journey entry next f l = some g) (at_ : f i = some p) :
    ∃ q, g i = some q ∧ Path next p q := by
  cases l with
  | enter j =>
    obtain ⟨absent, h⟩ := Option.ite_none_right_eq_some.mp h
    obtain rfl := Option.some.inj h
    have other : i ≠ j := by
      rintro rfl
      simp [at_] at absent
    exact ⟨p, by rw [Function.update_of_ne other, at_], .refl⟩
  | move j r =>
    obtain ⟨leg, h⟩ := Option.ite_none_right_eq_some.mp h
    obtain rfl := Option.some.inj h
    by_cases same : i = j
    · subst same
      have leg : next p r = true := by simpa [at_] using leg
      exact ⟨r, by simp, .single leg⟩
    · exact ⟨p, by rw [Function.update_of_ne same, at_], .refl⟩

/-- A journey takes each item along a path. -/
theorem path_of_run (h : run (journey entry next) f legs = some g) (at_ : f i = some p) :
    ∃ q, g i = some q ∧ Path next p q := by
  refine run_invariant (I := fun g => ∃ q, g i = some q ∧ Path next p q) ⟨p, at_, .refl⟩ ?_ h
  rintro f' l g' ⟨q, hq, path⟩ step
  obtain ⟨r, hr, path'⟩ := journey_path step hq
  exact ⟨r, hr, path.trans path'⟩

/-- A path stays at its place, or a rank that every leg raises has grown. -/
theorem Path.eq_or_rank_lt {rank : π → ℕ} (h : Path next p q)
    (raises : ∀ p q, next p q = true → rank p < rank q) : q = p ∨ rank p < rank q := by
  induction h with
  | refl => exact .inl rfl
  | tail _ leg ih =>
    have higher := raises _ _ leg
    rcases ih with rfl | lower
    · exact .inr higher
    · exact .inr (Nat.lt_trans lower higher)

end Journey

/-! ## Systems that refine a journey -/

/-- What one step of a system does to the places of its items. -/
inductive Travels (entry : π) (next : π → π → Bool) (At At' : ι → π → Prop) : Prop where
  | stay (same : ∀ j r, At' j r ↔ At j r)
  | enter (i : ι) (absent : ∀ r, ¬ At i r) (arrived : At' i entry)
      (others : ∀ j r, ¬ (j = i ∧ r = entry) → (At' j r ↔ At j r))
  | move (i : ι) (p q : π) (leg : next p q = true) (before : At i p) (left : ¬ At' i p)
      (arrived : At' i q) (others : ∀ j r, ¬ (j = i ∧ (r = p ∨ r = q)) → (At' j r ↔ At j r))

variable {entry : π} {next : π → π → Bool} {At At' : ι → π → Prop}

/-- An item stays at its place, or goes a leg further. -/
theorem Travels.follow {i : ι} {p : π} (h : Travels entry next At At') (before : At i p) :
    At' i p ∨ ∃ q, next p q = true ∧ At' i q := by
  cases h with
  | stay same => exact .inl ((same i p).mpr before)
  | enter j absent _ others =>
    exact .inl ((others i p fun new => absent p (new.1 ▸ before)).mpr before)
  | move j p' q leg _ _ arrived others =>
    by_cases moved : i = j ∧ (p = p' ∨ p = q)
    · obtain ⟨rfl, rfl | rfl⟩ := moved
      · exact .inr ⟨q, leg, arrived⟩
      · exact .inl arrived
    · exact .inl ((others i p moved).mpr before)

/-- An item was at its place before the step, or has just entered, or comes from the leg before. -/
theorem Travels.trace {i : ι} {q : π} (h : Travels entry next At At') (after : At' i q) :
    At i q ∨ q = entry ∨ ∃ p, next p q = true ∧ At i p := by
  cases h with
  | stay same => exact .inl ((same i q).mp after)
  | enter j _ _ others =>
    by_cases new : i = j ∧ q = entry
    · exact .inr (.inl new.2)
    · exact .inl ((others i q new).mp after)
  | move j p q' leg before left _ others =>
    by_cases moved : i = j ∧ (q = p ∨ q = q')
    · obtain ⟨rfl, rfl | rfl⟩ := moved
      · exact absurd after left
      · exact .inr (.inr ⟨p, leg, before⟩)
    · exact .inl ((others i q moved).mp after)

variable [DecidableEq ι] {f : ι → Option π}

theorem Travels.simulates (h : Travels entry next At At') (graph : ∀ i p, At i p ↔ f i = some p) :
    ∃ legs g, run (journey entry next) f legs = some g ∧ ∀ i p, At' i p ↔ g i = some p := by
  cases h with
  | stay same => exact ⟨[], f, rfl, fun j r => (same j r).trans (graph j r)⟩
  | enter i absent arrived others =>
    have none_ : f i = none := Option.eq_none_iff_forall_ne_some.mpr fun r at_ =>
      absent r ((graph i r).mpr at_)
    refine ⟨[.enter i], Function.update f i (some entry), by simp [run_cons, journey, none_], ?_⟩
    intro j r
    by_cases same : j = i
    · subst same
      by_cases here : r = entry
      · simp [here, arrived]
      · rw [others j r (by simp [here])]
        simp [absent r, Ne.symm here]
    · rw [others j r (by simp [same]), graph, Function.update_of_ne same]
  | move i p q leg before left arrived others =>
    have at_ : f i = some p := (graph i p).mp before
    refine ⟨[.move i q], Function.update f i (some q), by simp [run_cons, journey, at_, leg], ?_⟩
    intro j r
    by_cases same : j = i
    · subst same
      rw [Function.update_self, Option.some.injEq]
      by_cases there : r = q
      · simp [there, arrived]
      · refine iff_of_false ?_ (Ne.symm there)
        intro at'
        by_cases here : r = p
        · exact left (here ▸ at')
        · have old := (graph j r).mp ((others j r (by simp [here, there])).mp at')
          exact here (Option.some.inj (old.symm.trans at_))
    · rw [others j r (by simp [same]), graph, Function.update_of_ne same]

/-- A system whose steps are legs, under an invariant `I`, refines the journey. -/
theorem refines_journey {step : σ → α → Option σ} {I : σ → Prop} {R : σ → ι → π → Prop}
    (keep : ∀ s a t, I s → step s a = some t → I t)
    (travels : ∀ s a t, I s → step s a = some t → Travels entry next (R s) (R t))
    {s t : σ} {as : List α} (hs : I s) (graph : ∀ i p, R s i p ↔ f i = some p)
    (h : run step s as = some t) :
    ∃ legs g, run (journey entry next) f legs = some g ∧ ∀ i p, R t i p ↔ g i = some p := by
  have forward : ∀ s a s' f, (I s ∧ ∀ i p, R s i p ↔ f i = some p) → step s a = some s' →
      ∃ legs g, run (journey entry next) f legs = some g ∧
        (I s' ∧ ∀ i p, R s' i p ↔ g i = some p) := by
    rintro s a s' f ⟨hI, graph⟩ ha
    obtain ⟨legs, g, hrun, graph'⟩ := (travels s a s' hI ha).simulates graph
    exact ⟨legs, g, hrun, keep s a s' hI ha, graph'⟩
  obtain ⟨legs, g, hrun, -, graph'⟩ := run_simulation forward ⟨hs, graph⟩ h
  exact ⟨legs, g, hrun, graph'⟩

end EpollServer.Library
