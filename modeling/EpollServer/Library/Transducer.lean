import Mathlib.Logic.Basic

/-!
# Systems that answer each request

A transducer is a function `f : σ → α → σ × β`: it takes a request to a new state and an answer.
Two transducers that start in related states answer a sequence of requests alike, and end in
related states, exactly if each request meets the condition under which a single one is answered
alike, provided that a request which does not meet it shows in the answer.
-/
namespace EpollServer.Library

variable {σ τ α β : Type*}

/-- The last state and the answers to all requests. -/
def transduce (f : σ → α → σ × β) : σ → List α → σ × List β
  | s, [] => (s, [])
  | s, a :: as => ((transduce f (f s a).1 as).1, (f s a).2 :: (transduce f (f s a).1 as).2)

/-- Each request meets `C` in the state in which it is made. -/
def EachMeets (f : σ → α → σ × β) (C : σ → α → Prop) : σ → List α → Prop
  | _, [] => True
  | s, a :: as => C s a ∧ EachMeets f C (f s a).1 as

variable {f : σ → α → σ × β} {g : τ → α → τ × β} {R : σ → τ → Prop} {C : σ → α → Prop}

theorem transduce_agrees_iff
    (agree : ∀ s t a, R s t → C s a → (f s a).2 = (g t a).2 ∧ R (f s a).1 (g t a).1)
    (shows_ : ∀ s t a, R s t → (f s a).2 = (g t a).2 → C s a) {s : σ} {t : τ} {as : List α}
    (h : R s t) :
    (transduce f s as).2 = (transduce g t as).2 ∧ R (transduce f s as).1 (transduce g t as).1 ↔
      EachMeets f C s as := by
  induction as generalizing s t with
  | nil => exact ⟨fun _ => trivial, fun _ => ⟨rfl, h⟩⟩
  | cons a as ih =>
    simp only [transduce, EachMeets, List.cons.injEq]
    constructor
    · rintro ⟨⟨answer, answers⟩, related⟩
      have meets := shows_ s t a h answer
      exact ⟨meets, (ih (agree s t a h meets).2).mp ⟨answers, related⟩⟩
    · rintro ⟨meets, rest⟩
      obtain ⟨answer, next⟩ := agree s t a h meets
      obtain ⟨answers, related⟩ := (ih next).mpr rest
      exact ⟨⟨answer, answers⟩, related⟩

end EpollServer.Library
