import Mathlib.Data.List.Basic

/-!
# Tallies over a list of threads

`tally f ts` adds up a natural number `f t` over the members of a list. Counting the
threads at a program point is a tally of zeros and ones. A step that changes one member
changes the tally by the difference of two values of `f`, so the counting arguments of a
concurrent program become linear arithmetic.
-/
namespace EpollServer.Library

variable {β γ : Type*}

def tally (f : β → ℕ) : List β → ℕ
  | [] => 0
  | t :: ts => f t + tally f ts

/-- Zeros and ones, for counting. -/
def ind (b : Bool) : ℕ := if b then 1 else 0

@[simp, grind =] theorem ind_true : ind true = 1 := rfl
@[simp, grind =] theorem ind_false : ind false = 0 := rfl

theorem ind_pos {b : Bool} : 0 < ind b ↔ b = true := by cases b <;> decide

theorem ind_le_one (b : Bool) : ind b ≤ 1 := by cases b <;> decide

variable {f g : β → ℕ} {ts : List β}

@[simp, grind =] theorem tally_nil : tally f [] = 0 := rfl
@[simp, grind =] theorem tally_cons (t : β) : tally f (t :: ts) = f t + tally f ts := rfl

@[simp] theorem tally_append (ts us : List β) : tally f (ts ++ us) = tally f ts + tally f us := by
  induction ts with
  | nil => simp
  | cons t ts ih => grind

/-- Changing one member trades its old value for the new one. -/
theorem tally_set {i : ℕ} {t u : β} (h : ts[i]? = some t) :
    tally f (ts.set i u) + f t = tally f ts + f u := by
  induction ts generalizing i with
  | nil => simp at h
  | cons a ts ih =>
    cases i with
    | zero =>
      obtain rfl : a = t := by simpa using h
      simp only [List.set_cons_zero, tally_cons]
      omega
    | succ i =>
      have := ih (i := i) (by simpa using h)
      simp only [List.set_cons_succ, tally_cons]
      omega

/-- Changing one member in what `g` does not see. -/
theorem map_set_same (g : β → γ) {i : ℕ} {t u : β} (h : ts[i]? = some t) (same : g u = g t) :
    (ts.set i u).map g = ts.map g := by
  obtain ⟨hi, rfl⟩ := List.getElem?_eq_some_iff.mp h
  rw [List.map_set, same, ← List.getElem_map g, List.set_getElem_self]
  simpa using hi

theorem le_tally {t : β} (h : t ∈ ts) : f t ≤ tally f ts := by
  induction ts with
  | nil => simp at h
  | cons a ts ih =>
    rcases List.mem_cons.mp h with rfl | h
    · simp
    · have := ih h
      grind

theorem tally_add (f g : β → ℕ) (ts : List β) :
    tally (fun t => f t + g t) ts = tally f ts + tally g ts := by
  induction ts with
  | nil => rfl
  | cons t ts ih => grind

theorem tally_mul (m : ℕ) (f : β → ℕ) (ts : List β) :
    tally (fun t => m * f t) ts = m * tally f ts := by
  induction ts with
  | nil => rfl
  | cons t ts ih => rw [tally_cons, tally_cons, ih, Nat.mul_add]

theorem tally_eq_zero : tally f ts = 0 ↔ ∀ t ∈ ts, f t = 0 := by
  induction ts with
  | nil => simp
  | cons t ts ih => simp [ih]

@[simp] theorem tally_replicate (n : ℕ) (t : β) : tally f (List.replicate n t) = n * f t := by
  induction n with
  | zero => simp
  | succ n ih => rw [List.replicate_succ, tally_cons, ih, Nat.succ_mul, Nat.add_comm]

theorem tally_map (f : γ → ℕ) (g : β → γ) (ts : List β) :
    tally f (ts.map g) = tally (fun t => f (g t)) ts := by
  induction ts with
  | nil => rfl
  | cons t ts ih => rw [List.map_cons, tally_cons, tally_cons, ih]

theorem tally_perm {us : List β} (h : ts.Perm us) : tally f ts = tally f us := by
  induction h with
  | nil => rfl
  | cons t _ ih => rw [tally_cons, tally_cons, ih]
  | swap t u ts => grind
  | trans _ _ ih₁ ih₂ => exact ih₁.trans ih₂

theorem tally_mono {g : β → ℕ} (h : ∀ t ∈ ts, f t ≤ g t) : tally f ts ≤ tally g ts := by
  induction ts with
  | nil => exact Nat.le_refl _
  | cons t ts ih =>
    have first := h t List.mem_cons_self
    have others := ih fun u hu => h u (List.mem_cons_of_mem t hu)
    simp only [tally_cons]
    omega

theorem tally_le_length {m : ℕ} (h : ∀ t ∈ ts, f t ≤ m) : tally f ts ≤ m * ts.length := by
  induction ts with
  | nil => simp
  | cons t ts ih =>
    have first := h t (by simp)
    have rest := ih fun u mem => h u (by simp [mem])
    rw [tally_cons, List.length_cons, Nat.mul_succ]
    omega

/-- A tally of zeros and ones is at most the number of members. -/
theorem tally_ind_le_length (p : β → Bool) (ts : List β) :
    tally (fun t => ind (p t)) ts ≤ ts.length := by
  induction ts with
  | nil => simp
  | cons t ts ih =>
    have := ind_le_one (p t)
    simp only [tally_cons, List.length_cons]
    omega

/-- It reaches that number only if every member is counted. -/
theorem tally_ind_eq_length {p : β → Bool} {ts : List β} :
    tally (fun t => ind (p t)) ts = ts.length ↔ ∀ t ∈ ts, p t = true := by
  induction ts with
  | nil => simp
  | cons t ts ih =>
    have hle := tally_ind_le_length p ts
    cases ht : p t with
    | false => simp [ht]; omega
    | true => simp [ht, ← ih]; omega

theorem tally_pos : 0 < tally f ts ↔ ∃ t ∈ ts, 0 < f t := by
  simp [Nat.pos_iff_ne_zero, tally_eq_zero]

theorem tally_ind_pos {p : β → Bool} {ts : List β} :
    0 < tally (fun t => ind (p t)) ts ↔ ∃ t ∈ ts, p t = true := by
  rw [Nat.pos_iff_ne_zero, Ne, tally_eq_zero]
  simp [ind]

/-- A change of each member by its position. -/
theorem tally_mapIdx (f : γ → ℕ) (c : ℕ → β → γ) (ts : List β) (g : β → ℕ)
    (h : ∀ i t, f (c i t) = g t) : tally f (ts.mapIdx c) = tally g ts := by
  induction ts generalizing c with
  | nil => rfl
  | cons t ts ih => simp [List.mapIdx_cons, h, ih (fun i => c (i + 1)) fun i => h (i + 1)]

theorem tally_mapIdx_le (f : γ → ℕ) (c : ℕ → β → γ) (ts : List β) (g : β → ℕ)
    (h : ∀ i t, f (c i t) ≤ g t) : tally f (ts.mapIdx c) ≤ tally g ts := by
  induction ts generalizing c with
  | nil => simp
  | cons t ts ih =>
    have ht := h 0 t
    have := ih (fun i => c (i + 1)) fun i => h (i + 1)
    simp only [List.mapIdx_cons, tally_cons]
    omega

/-- If one member falls strictly and none rises, so does the tally. -/
theorem tally_mapIdx_lt (f : γ → ℕ) (c : ℕ → β → γ) (ts : List β) (g : β → ℕ)
    (h : ∀ i t, f (c i t) ≤ g t) {i : ℕ} {t : β} (ht : ts[i]? = some t) (hlt : f (c i t) < g t) :
    tally f (ts.mapIdx c) < tally g ts := by
  induction ts generalizing c i with
  | nil => simp at ht
  | cons a ts ih =>
    simp only [List.mapIdx_cons, tally_cons]
    cases i with
    | zero =>
      obtain rfl : a = t := by simpa using ht
      have := tally_mapIdx_le f (fun i => c (i + 1)) ts g fun i => h (i + 1)
      omega
    | succ i =>
      have := ih (fun i => c (i + 1)) (fun i => h (i + 1)) (i := i) (by simpa using ht) hlt
      have := h 0 a
      omega

end EpollServer.Library
