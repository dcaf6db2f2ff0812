import Mathlib.Data.List.Induction

/-!
# Runs of a partial step function

A system is a function `step : σ → α → Option σ`: the scheduler and the environment
choose the action, and `none` means that the action is not enabled. A run is the list
of its actions. Invariants, conditions on every step, and simulations are proved once
here, by adding one action at the end of a run.
-/
namespace EpollServer.Library

variable {σ τ α β : Type*}

/-- The state after the listed actions, if each of them is enabled in its turn. -/
def run (step : σ → α → Option σ) : σ → List α → Option σ
  | s, [] => some s
  | s, a :: as => (step s a).bind fun t => run step t as

variable {step : σ → α → Option σ} {s₀ : σ}

@[simp] theorem run_nil (s : σ) : run step s [] = some s := rfl

theorem run_cons (s : σ) (a : α) (as : List α) :
    run step s (a :: as) = (step s a).bind fun t => run step t as := rfl

theorem run_append (s : σ) (as bs : List α) :
    run step s (as ++ bs) = (run step s as).bind fun t => run step t bs := by
  induction as generalizing s with
  | nil => rfl
  | cons a as ih =>
    simp only [List.cons_append, run_cons, Option.bind_assoc]
    congr 1
    funext t
    exact ih t

/-- A run that ends with `a` is a run to some state in which `a` is enabled. -/
theorem run_concat {s u : σ} {as : List α} {a : α} :
    run step s (as ++ [a]) = some u ↔ ∃ t, run step s as = some t ∧ step t a = some u := by
  simp [run_append, run_cons, Option.bind_eq_some_iff]

/-- Induction over a run, adding the last step. -/
theorem run_induction {P : List α → σ → Prop} (start : P [] s₀)
    (extend : ∀ as s a t, run step s₀ as = some s → P as s → step s a = some t → P (as ++ [a]) t) :
    ∀ as s, run step s₀ as = some s → P as s := by
  intro as
  induction as using List.reverseRecOn with
  | nil =>
    intro s h
    obtain rfl : s₀ = s := by simpa using h
    exact start
  | append_singleton as a ih =>
    intro u h
    obtain ⟨t, ht, ha⟩ := run_concat.mp h
    exact extend as t a u ht (ih t ht) ha

/-- What every step preserves holds after every run. -/
theorem run_invariant {I : σ → Prop} (start : I s₀)
    (preserved : ∀ s a t, I s → step s a = some t → I t) {as : List α} {s : σ}
    (h : run step s₀ as = some s) : I s :=
  run_induction (P := fun _ s => I s) start (fun _ s a t _ hs ha => preserved s a t hs ha) as s h

/-- Every step of the run from `s₀` meets `C`, a condition on the state it starts in. -/
def EveryStep (step : σ → α → Option σ) (C : σ → α → Prop) (s₀ : σ) (as : List α) : Prop :=
  ∀ pre a post s, as = pre ++ a :: post → run step s₀ pre = some s → C s a

/-- Every state that the run from `s₀` passes through meets `P`, the last one included. -/
def EveryState (step : σ → α → Option σ) (P : σ → Prop) (s₀ : σ) (as : List α) : Prop :=
  ∀ pre post s, as = pre ++ post → run step s₀ pre = some s → P s

variable {C : σ → α → Prop} {P : σ → Prop} {as : List α} {a : α} {s : σ}

@[simp] theorem everyStep_nil : EveryStep step C s₀ [] := by
  intro pre a post s h
  simp at h

theorem everyStep_cons :
    EveryStep step C s₀ (a :: as) ↔ C s₀ a ∧ ∀ t, step s₀ a = some t → EveryStep step C t as := by
  constructor
  · intro every
    refine ⟨every [] a as s₀ rfl rfl, fun t ht pre b post s he hs => ?_⟩
    exact every (a :: pre) b post s (by rw [he]; rfl) (by rw [run_cons, ht]; exact hs)
  · rintro ⟨first, later⟩ pre b post s he hs
    cases pre with
    | nil =>
      obtain ⟨rfl, rfl⟩ : a = b ∧ as = post := by simpa using he
      obtain rfl : s₀ = s := by simpa using hs
      exact first
    | cons c pre =>
      obtain ⟨rfl, rfl⟩ : a = c ∧ as = pre ++ b :: post := by simpa using he
      obtain ⟨t, ht, hs⟩ := Option.bind_eq_some_iff.mp hs
      exact later t ht pre b post s rfl hs

/-- A condition that can be evaluated on each step can be evaluated along a run. -/
instance decidableEveryStep [∀ s a, Decidable (C s a)] :
    ∀ (s₀ : σ) (as : List α), Decidable (EveryStep step C s₀ as)
  | _, [] => .isTrue everyStep_nil
  | s₀, a :: as =>
    have : DecidablePred fun t => EveryStep step C t as := fun t => decidableEveryStep t as
    decidable_of_iff (C s₀ a ∧ ∀ t ∈ step s₀ a, EveryStep step C t as) everyStep_cons.symm

/-- What holds of every member of `as ++ [a]` and the list before it. -/
theorem forall_split_concat {T : List α → α → Prop} :
    (∀ pre b post, as ++ [a] = pre ++ b :: post → T pre b) ↔
      (∀ pre b post, as = pre ++ b :: post → T pre b) ∧ T as a := by
  constructor
  · intro every
    refine ⟨fun pre b post he => ?_, every as a [] rfl⟩
    exact every pre b (post ++ [a]) (by simp [he])
  · rintro ⟨every, last⟩ pre b post he
    cases post using List.reverseRecOn with
    | nil =>
      obtain ⟨rfl, rfl⟩ : as = pre ∧ a = b := by simpa using List.append_inj' he rfl
      exact last
    | append_singleton post c =>
      have he' : as ++ [a] = (pre ++ b :: post) ++ [c] := by simpa using he
      exact every pre b post (List.append_inj' he' rfl).1

theorem everyStep_concat (h : run step s₀ as = some s) :
    EveryStep step C s₀ (as ++ [a]) ↔ EveryStep step C s₀ as ∧ C s a := by
  have split :
      (∀ pre b post, as ++ [a] = pre ++ b :: post → ∀ t, run step s₀ pre = some t → C t b) ↔
      (∀ pre b post, as = pre ++ b :: post → ∀ t, run step s₀ pre = some t → C t b) ∧
        ∀ t, run step s₀ as = some t → C t a := forall_split_concat
  have last : (∀ t, run step s₀ as = some t → C t a) ↔ C s a := by simp [h]
  rw [last] at split
  constructor
  · intro every
    have parts := split.mp fun pre b post he t ht => every pre b post t he ht
    exact ⟨fun pre b post t he ht => parts.1 pre b post he t ht, parts.2⟩
  · rintro ⟨every, last⟩ pre b post t he ht
    exact split.mpr ⟨fun pre b post he t ht => every pre b post t he ht, last⟩ pre b post he t ht

/-- A condition on the action alone. -/
theorem everyStep_iff_forall_mem {A : α → Prop} (h : run step s₀ as = some s) :
    EveryStep step (fun _ a => A a) s₀ as ↔ ∀ a ∈ as, A a := by
  constructor
  · intro every a mem
    obtain ⟨pre, post, rfl⟩ := List.append_of_mem mem
    rw [run_append] at h
    obtain ⟨t, ht, -⟩ := Option.bind_eq_some_iff.mp h
    exact every pre a post t rfl ht
  · rintro all pre a post t rfl -
    exact all a (by simp)

@[simp] theorem everyState_nil : EveryState step P s₀ [] ↔ P s₀ := by
  constructor
  · intro every
    exact every [] [] s₀ rfl rfl
  · intro hP pre post s he hs
    obtain ⟨rfl, rfl⟩ : pre = [] ∧ post = [] := by simpa using he.symm
    obtain rfl : s₀ = s := by simpa using hs
    exact hP

theorem everyState_concat (h : run step s₀ (as ++ [a]) = some s) :
    EveryState step P s₀ (as ++ [a]) ↔ EveryState step P s₀ as ∧ P s := by
  constructor
  · intro every
    refine ⟨fun pre post t he ht => ?_, every (as ++ [a]) [] s (by simp) h⟩
    exact every pre (post ++ [a]) t (by simp [he]) ht
  · rintro ⟨every, last⟩ pre post t he ht
    cases post using List.reverseRecOn with
    | nil =>
      obtain rfl : as ++ [a] = pre := by simpa using he
      obtain rfl : s = t := by simpa [h] using ht
      exact last
    | append_singleton post c =>
      have he' : as ++ [a] = (pre ++ post) ++ [c] := by simpa using he
      exact every pre post t (List.append_inj' he' rfl).1 ht

/-- Where a condition on a step is what the property needs after it, the property holds
along a run exactly when the condition does. -/
theorem everyState_iff_everyStep {I : σ → Prop} (start : I s₀)
    (keep : ∀ s a t, I s → step s a = some t → I t) (safe : P s₀)
    (forward : ∀ s a t, I s → P s → C s a → step s a = some t → P t)
    (backward : ∀ s a t, I s → step s a = some t → P t → C s a)
    (h : run step s₀ as = some s) : EveryState step P s₀ as ↔ EveryStep step C s₀ as := by
  refine (run_induction (P := fun as s => I s ∧ (EveryStep step C s₀ as → P s) ∧
      (EveryState step P s₀ as ↔ EveryStep step C s₀ as)) ?_ ?_ as s h).2.2
  · exact ⟨start, fun _ => safe, by simp [safe]⟩
  · intro as s a t hs ⟨hI, hP, ih⟩ ha
    have hrun : run step s₀ (as ++ [a]) = some t := run_concat.mpr ⟨s, hs, ha⟩
    have last : EveryStep step C s₀ (as ++ [a]) → P t := fun every => by
      obtain ⟨before, now⟩ := (everyStep_concat hs).mp every
      exact forward s a t hI (hP before) now ha
    refine ⟨keep s a t hI ha, last, ?_⟩
    rw [everyState_concat hrun, ih]
    refine ⟨fun ⟨before, now⟩ => ?_, fun every => ?_⟩
    · exact (everyStep_concat hs).mpr ⟨before, backward s a t hI ha now⟩
    · exact ⟨((everyStep_concat hs).mp every).1, last every⟩

/-- A property that survives exactly the steps that meet `C` holds at the end of a run exactly
when all of its steps meet `C`. `A` restricts the actions. -/
theorem final_iff_everyStep {I : σ → Prop} {A : α → Prop} (start : I s₀)
    (keep : ∀ s a t, A a → I s → step s a = some t → I t) (safe : P s₀)
    (next : ∀ s a t, A a → I s → step s a = some t → (P t ↔ P s ∧ C s a))
    (h : run step s₀ as = some s) (allowed : ∀ a ∈ as, A a) :
    P s ↔ EveryStep step C s₀ as := by
  have both : (∀ a ∈ as, A a) → I s ∧ (P s ↔ EveryStep step C s₀ as) := by
    refine run_induction (P := fun as s => (∀ a ∈ as, A a) →
      I s ∧ (P s ↔ EveryStep step C s₀ as)) ?_ ?_ as s h
    · intro _
      exact ⟨start, by simp [safe]⟩
    · intro as s a t hs ih ha allowed
      obtain ⟨hI, ih⟩ := ih fun b hb => allowed b (by simp [hb])
      have hA : A a := allowed a (by simp)
      refine ⟨keep s a t hA hI ha, ?_⟩
      rw [next s a t hA hI ha, ih, everyStep_concat hs]
  exact (both allowed).2

/-- A property of the end of a run that holds exactly when it held before the last step and `P`
holds after it says that `P` holds in every state of the run. -/
theorem everyState_iff_final {I Q : σ → Prop} (start : I s₀)
    (keep : ∀ s a t, I s → step s a = some t → I t) (first : P s₀) (safe : Q s₀)
    (next : ∀ s a t, I s → step s a = some t → (Q t ↔ Q s ∧ P t))
    (h : run step s₀ as = some s) : EveryState step P s₀ as ↔ Q s := by
  refine (run_induction (P := fun as s => I s ∧ (EveryState step P s₀ as ↔ Q s)) ?_ ?_ as s h).2
  · exact ⟨start, by simp [first, safe]⟩
  · intro as s a t hs ⟨hI, ih⟩ ha
    refine ⟨keep s a t hI ha, ?_⟩
    rw [everyState_concat (run_concat.mpr ⟨s, hs, ha⟩), ih, next s a t hI ha]

/-- A relation that each step of `step` keeps, by some steps of `step'`, relates the ends
of whole runs. -/
theorem run_simulation {step' : τ → β → Option τ} {R : σ → τ → Prop}
    (forward : ∀ s a s' t, R s t → step s a = some s' →
      ∃ bs t', run step' t bs = some t' ∧ R s' t')
    {t₀ : τ} (start : R s₀ t₀) (h : run step s₀ as = some s) :
    ∃ bs t, run step' t₀ bs = some t ∧ R s t := by
  refine run_induction (P := fun _ s => ∃ bs t, run step' t₀ bs = some t ∧ R s t)
    ⟨[], t₀, rfl, start⟩ ?_ as s h
  rintro _ s a s' _ ⟨bs, t, ht, hR⟩ ha
  obtain ⟨cs, t', ht', hR'⟩ := forward s a s' t hR ha
  exact ⟨bs ++ cs, t', by simp [run_append, ht, ht'], hR'⟩

/-- A system that does what `step` does on a part `f` of its state, and more on the rest. -/
theorem run_project {step' : τ → α → Option τ} {f : τ → σ}
    (project : ∀ t a t', step' t a = some t' → step (f t) a = some (f t')) {t t' : τ}
    (h : run step' t as = some t') : run step (f t) as = some (f t') := by
  induction as generalizing t with
  | nil =>
    obtain rfl : t = t' := by simpa using h
    rfl
  | cons a as ih =>
    obtain ⟨u, hu, hrun⟩ := Option.bind_eq_some_iff.mp h
    rw [run_cons, project t a u hu]
    exact ih hrun

end EpollServer.Library
