import Mathlib.Data.List.Sort
import Mathlib.Order.Defs.LinearOrder

/-!
# Ordered multimaps

`Multimap` is a list of entries sorted by key. `insert` puts an entry behind those with the same
key, and `equalRange` is the part between the lower and the upper bound of a key. Seen as a
function from keys to the list of their values, an insertion appends one value at one key.
-/
namespace EpollServer.Library

variable {κ α : Type*} [LinearOrder κ]

structure Multimap (κ α : Type*) [LinearOrder κ] where
  entries : List (κ × α)
  sorted : entries.Pairwise fun x y => x.1 ≤ y.1

/-- Adding an entry at its upper bound keeps a list sorted. -/
theorem pairwise_orderedInsert {entries : List (κ × α)} (x : κ × α)
    (sorted : entries.Pairwise fun x y => x.1 ≤ y.1) :
    (entries.orderedInsert (fun x y => x.1 < y.1) x).Pairwise fun x y => x.1 ≤ y.1 := by
  induction entries with
  | nil => simp
  | cons y entries ih =>
    obtain ⟨first, rest⟩ := List.pairwise_cons.mp sorted
    rw [List.orderedInsert_cons]
    split_ifs with h
    · refine List.pairwise_cons.mpr ⟨fun z hz => ?_, sorted⟩
      rcases List.mem_cons.mp hz with rfl | later
      · exact h.le
      · exact h.le.trans (first z later)
    · refine List.pairwise_cons.mpr ⟨fun z hz => ?_, ih rest⟩
      rcases (List.mem_orderedInsert _).mp hz with rfl | later
      · exact not_lt.mp h
      · exact first z later

namespace Multimap

def empty : Multimap κ α := ⟨[], List.Pairwise.nil⟩

def insert (m : Multimap κ α) (k : κ) (v : α) : Multimap κ α where
  entries := m.entries.orderedInsert (fun x y => x.1 < y.1) (k, v)
  sorted := pairwise_orderedInsert (k, v) m.sorted

/-- The entries from the lower bound of `k` on. -/
def lowerBound (m : Multimap κ α) (k : κ) : List (κ × α) := m.entries.dropWhile (·.1 < k)

def equalRange (m : Multimap κ α) (k : κ) : List (κ × α) := (m.lowerBound k).takeWhile (·.1 ≤ k)

/-- The values of a key, in the order in which they were inserted. -/
def values (m : Multimap κ α) (k : κ) : List α := (m.equalRange k).map Prod.snd

theorem filter_eq_nil {entries : List (κ × α)} {k : κ} (above : ∀ x ∈ entries, k < x.1) :
    entries.filter (·.1 = k) = [] :=
  List.filter_eq_nil_iff.mpr fun x hx => by simpa using (above x hx).ne'

/-- From the lower bound of `k` on, the entries up to the upper bound are those of `k`. -/
theorem takeWhile_eq_filter {entries : List (κ × α)} {k : κ}
    (sorted : entries.Pairwise fun x y => x.1 ≤ y.1) (above : ∀ x ∈ entries, k ≤ x.1) :
    entries.takeWhile (·.1 ≤ k) = entries.filter (·.1 = k) := by
  induction entries with
  | nil => rfl
  | cons x entries ih =>
    obtain ⟨first, rest⟩ := List.pairwise_cons.mp sorted
    obtain ⟨head, tail⟩ := List.forall_mem_cons.mp above
    rcases head.eq_or_lt with same | greater
    · rw [List.takeWhile_cons_of_pos (by simp [same]), List.filter_cons_of_pos (by simp [same]),
        ih rest tail]
    · rw [List.takeWhile_cons_of_neg (by simpa using greater), filter_eq_nil]
      exact List.forall_mem_cons.mpr ⟨greater, fun y hy => greater.trans_le (first y hy)⟩

/-- In a sorted list the range of a key has all of its entries. -/
theorem equalRange_eq_filter (m : Multimap κ α) (k : κ) :
    m.equalRange k = m.entries.filter (·.1 = k) := by
  obtain ⟨entries, sorted⟩ := m
  simp only [equalRange, lowerBound]
  induction entries with
  | nil => rfl
  | cons x entries ih =>
    obtain ⟨first, rest⟩ := List.pairwise_cons.mp sorted
    rcases lt_or_ge x.1 k with less | above
    · rw [List.dropWhile_cons_of_pos (by simpa using less),
        List.filter_cons_of_neg (by simpa using less.ne)]
      exact ih rest
    · rw [List.dropWhile_cons_of_neg (by simpa using above)]
      refine takeWhile_eq_filter sorted (List.forall_mem_cons.mpr ⟨above, fun y hy => ?_⟩)
      exact above.trans (first y hy)

theorem filter_orderedInsert {entries : List (κ × α)} (k k' : κ) (v : α)
    (sorted : entries.Pairwise fun x y => x.1 ≤ y.1) :
    (entries.orderedInsert (fun x y => x.1 < y.1) (k', v)).filter (·.1 = k) =
      entries.filter (·.1 = k) ++ if k' = k then [(k', v)] else [] := by
  induction entries with
  | nil => split_ifs with same <;> simp [same]
  | cons x entries ih =>
    obtain ⟨first, rest⟩ := List.pairwise_cons.mp sorted
    rw [List.orderedInsert_cons]
    split_ifs with before same
    · -- The entries behind the new one have greater keys.
      have above : ∀ y ∈ x :: entries, k < y.1 :=
        List.forall_mem_cons.mpr ⟨same ▸ before, fun y hy => same ▸ before.trans_le (first y hy)⟩
      rw [List.filter_cons_of_pos (by simpa using same), filter_eq_nil above]
      rfl
    · rw [List.filter_cons_of_neg (by simpa using same), List.append_nil]
    all_goals
      rw [List.filter_cons, List.filter_cons, ih rest]
      split_ifs <;> simp

/-- An insertion appends its value to those of its key. -/
theorem values_insert (m : Multimap κ α) (k : κ) (v : α) :
    (m.insert k v).values = Function.update m.values k (m.values k ++ [v]) := by
  funext k'
  by_cases same : k = k'
  · subst same
    simp only [Function.update_self, values, equalRange_eq_filter]
    rw [insert, filter_orderedInsert k k v m.sorted]
    simp
  · simp only [Function.update_of_ne (Ne.symm same), values, equalRange_eq_filter]
    rw [insert, filter_orderedInsert k' k v m.sorted]
    simp [same]

@[simp] theorem values_empty (k : κ) : (empty : Multimap κ α).values k = [] := rfl

end Multimap

end EpollServer.Library
