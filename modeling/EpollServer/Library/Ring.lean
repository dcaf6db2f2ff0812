import EpollServer.Library.Run
import EpollServer.Library.Tally
import Mathlib.Data.List.Rotate
import Mathlib.Data.Nat.ModEq

/-!
# Bounded FIFO queues and their ring representation

`Fifo` is the abstract queue: a list of at most `capacity` items together with the
sequences of everything that ever entered and left it. Its fields say that the capacity
is never exceeded and that nothing is lost, duplicated or reordered, so every value of
the type has these properties.

`Ring` says that a list of slots, read cyclically from a head index, holds the items of
such a queue in order and nothing else. Adding behind the last item and clearing the
head slot keep it, at every position of the head and for an empty or a full ring alike.
-/
namespace EpollServer.Library

variable {β : Type*}

/-- A bounded queue that remembers its history. -/
structure Fifo (β : Type*) (capacity : ℕ) where
  items : List β
  entered : List β
  left : List β
  bounded : items.length ≤ capacity
  history : entered = left ++ items

inductive FifoOp (β : Type*) where
  | enqueue (x : β)
  | dequeue

namespace Fifo

variable {capacity : ℕ}

def empty (β : Type*) (capacity : ℕ) : Fifo β capacity := ⟨[], [], [], by simp, rfl⟩

/-- A full queue refuses to grow, an empty one has nothing to give. -/
def step (q : Fifo β capacity) : FifoOp β → Option (Fifo β capacity)
  | .enqueue x =>
    if h : q.items.length < capacity then
      some ⟨q.items ++ [x], q.entered ++ [x], q.left, by simp; omega, by simp [q.history]⟩
    else none
  | .dequeue =>
    match h : q.items with
    | [] => none
    | x :: xs =>
      some ⟨xs, q.entered, q.left ++ [x], by have := q.bounded; simp [h] at this; omega,
        by simp [q.history, h]⟩

/-- What left the queue is a prefix of what entered it. -/
theorem left_prefix (q : Fifo β capacity) : q.left <+: q.entered := ⟨q.items, q.history.symm⟩

theorem length_entered (q : Fifo β capacity) :
    q.entered.length = q.left.length + q.items.length := by simp [q.history]

theorem step_enqueue (q : Fifo β capacity) (x : β) (h : q.items.length < capacity) :
    ∃ q', q.step (.enqueue x) = some q' ∧ q'.items = q.items ++ [x] ∧
      q'.entered = q.entered ++ [x] ∧ q'.left = q.left :=
  ⟨_, dif_pos h, rfl, rfl, rfl⟩

theorem step_dequeue (q : Fifo β capacity) {x : β} {xs : List β} (h : q.items = x :: xs) :
    ∃ q', q.step .dequeue = some q' ∧ q'.items = xs ∧
      q'.entered = q.entered ∧ q'.left = q.left ++ [x] := by
  obtain ⟨items, entered, left, bounded, history⟩ := q
  obtain rfl : items = x :: xs := h
  exact ⟨_, rfl, rfl, rfl, rfl⟩

end Fifo

/-- Two offsets below the size of a ring meet the same slot only if they are equal. -/
theorem offset_injective {n head i j : ℕ} (hi : i < n) (hj : j < n)
    (h : (head + i) % n = (head + j) % n) : i = j := by
  have : i ≡ j [MOD n] := Nat.ModEq.add_left_cancel' head h
  rwa [Nat.ModEq, Nat.mod_eq_of_lt hi, Nat.mod_eq_of_lt hj] at this

/-- The slots hold `items` from `head` on, cyclically, and `vacant` everywhere else. -/
structure Ring (vacant : β) (slots : List β) (head : ℕ) (items : List β) : Prop where
  fits : items.length ≤ slots.length
  slot : ∀ i, i < slots.length →
    slots[(head + i) % slots.length]? = some (items[i]?.getD vacant)

namespace Ring

variable {vacant : β} {slots items : List β} {head : ℕ}

theorem replicate (vacant : β) (n : ℕ) : Ring vacant (List.replicate n vacant) 0 [] where
  fits := by simp
  slot i hi := by
    have : i < n := by simpa using hi
    simp [Nat.mod_eq_of_lt this, this]

theorem front {x : β} (h : Ring vacant slots head (x :: items)) :
    slots[head % slots.length]? = some x := by
  have := h.fits
  simpa using h.slot 0 (by simp at this; omega)

/-- Writing the slot behind the last item appends it. -/
theorem push (h : Ring vacant slots head items) (space : items.length < slots.length) (x : β) :
    Ring vacant (slots.set ((head + items.length) % slots.length) x) head (items ++ [x]) where
  fits := by simp; omega
  slot i hi := by
    simp only [List.length_set] at hi ⊢
    by_cases last : i = items.length
    · subst last
      rw [List.getElem?_set_self (Nat.mod_lt _ (by omega))]
      simp
    · have other : (head + items.length) % slots.length ≠ (head + i) % slots.length :=
        fun he => last (offset_injective space hi he).symm
      rw [List.getElem?_set_ne other, h.slot i hi]
      rcases Nat.lt_or_gt_of_ne last with lt | gt
      · rw [List.getElem?_append_left lt]
      · have e₁ : items[i]? = none := List.getElem?_eq_none (by omega)
        have e₂ : (items ++ [x])[i]? = none := List.getElem?_eq_none (by simp; omega)
        rw [e₁, e₂]

/-- Clearing the head slot and moving the head on removes the first item. -/
theorem pop {x : β} (h : Ring vacant slots head (x :: items)) :
    Ring vacant (slots.set (head % slots.length) vacant) ((head + 1) % slots.length) items where
  fits := by
    have := h.fits
    simp at this ⊢
    omega
  slot i hi := by
    have fits := h.fits
    simp only [List.length_cons, List.length_set] at fits hi ⊢
    rw [Nat.mod_add_mod, Nat.add_assoc, Nat.add_comm 1 i]
    by_cases last : i + 1 = slots.length
    · have e : (head + (i + 1)) % slots.length = head % slots.length := by
        rw [last, Nat.add_mod_right]
      have e' : items[i]? = none := List.getElem?_eq_none (by omega)
      rw [e, List.getElem?_set_self (Nat.mod_lt _ (by omega)), e']
      rfl
    · have other : head % slots.length ≠ (head + (i + 1)) % slots.length := fun he => by
        have := offset_injective (i := 0) (j := i + 1) (by omega) (by omega) he
        omega
      rw [List.getElem?_set_ne other, h.slot (i + 1) (by omega)]
      simp

/-- The slots are, up to a rotation, the items followed by vacant slots. -/
theorem perm (h : Ring vacant slots head items) :
    slots.Perm (items ++ List.replicate (slots.length - items.length) vacant) := by
  have fits := h.fits
  have e : slots.rotate head =
      items ++ List.replicate (slots.length - items.length) vacant := by
    apply List.ext_getElem?
    intro i
    by_cases hi : i < slots.length
    · rw [List.getElem?_rotate hi, Nat.add_comm, h.slot i hi]
      by_cases hl : i < items.length
      · simp [List.getElem?_append_left hl, hl]
      · rw [List.getElem?_append_right (by omega), List.getElem?_replicate, if_pos (by omega),
          List.getElem?_eq_none (by omega)]
        rfl
    · rw [List.getElem?_eq_none (by simpa using hi),
        List.getElem?_eq_none (by simp; omega)]
  exact (List.rotate_perm slots head).symm.trans (.of_eq e)

/-- A tally that ignores vacant slots is a tally of the items. -/
theorem tally_slots (h : Ring vacant slots head items) {f : β → ℕ} (hf : f vacant = 0) :
    tally f slots = tally f items := by
  rw [tally_perm h.perm]
  simp [hf]

end Ring

end EpollServer.Library
