import Mathlib.Data.Int.Basic
import Mathlib.Algebra.Group.Int.Defs

/-!
# The fragment of C++ that the server relies on

Integer remainder truncates toward zero and has no value at divisor zero; a vector is
indexed by an `int`, and an index outside it is an error. Both are computations that can
fail, so that a model in which no failure is reachable says that the code never divides
by zero and never leaves an array.
-/
namespace EpollServer

/-- What stops a thread: a trap, an exception, or undefined behaviour. -/
inductive Fault where
  | divideByZero
  | outOfRange
  | useAfterFree
  | emptyQueue
  deriving DecidableEq, Repr

variable {β : Type*}

/-- `a % b` for two `int`s. -/
def cMod (a b : Int) : Except Fault Int :=
  if b = 0 then .error .divideByZero else .ok (a.tmod b)

/-- `v.at(i)`; `v[i]` is the same where it is defined. -/
def vectorAt (v : List β) (i : Int) : Except Fault β :=
  if i < 0 then .error .outOfRange
  else match v[i.toNat]? with
    | none => .error .outOfRange
    | some x => .ok x

/-- `v.at(i) = x`. -/
def vectorSet (v : List β) (i : Int) (x : β) : Except Fault (List β) :=
  if i < 0 ∨ v.length ≤ i.toNat then .error .outOfRange else .ok (v.set i.toNat x)

/-- `v.resize(n)`, where new members are value-initialised to `x`. -/
def vectorResize (v : List β) (n : Int) (x : β) : List β :=
  v.take n.toNat ++ List.replicate (n.toNat - v.length) x

/-- `BUFSIZ`. -/
def bufsiz : ℕ := 8192

/-- The macro `COERCE_IN`. -/
def coerceIn (a l r : Int) : Int := if a < l then l else if a > r then r else a

/-- What follows a statement that succeeded. -/
theorem bind_of_eq_ok {γ δ : Type} {x : Except Fault γ} {c : γ} (h : x = .ok c)
    (f : γ → Except Fault δ) : (x >>= f) = f c := by
  rw [h]
  rfl

theorem cMod_natCast (a : ℕ) {b : ℕ} (h : 0 < b) : cMod a b = .ok ((a % b : ℕ) : Int) := by
  rw [cMod, if_neg (by omega), Int.tmod_eq_emod_of_nonneg (by omega)]
  rfl

theorem vectorAt_natCast {v : List β} {i : ℕ} {x : β} (h : v[i]? = some x) :
    vectorAt v i = .ok x := by
  rw [vectorAt, if_neg (by omega), Int.toNat_natCast, h]

theorem vectorSet_natCast {v : List β} {i : ℕ} (h : i < v.length) (x : β) :
    vectorSet v i x = .ok (v.set i x) := by
  rw [vectorSet, if_neg (by simp only [Int.toNat_natCast]; omega), Int.toNat_natCast]

theorem cMod_error {a b : Int} {f : Fault} (h : cMod a b = .error f) : f = .divideByZero := by
  unfold cMod at h
  split_ifs at h
  exact (Except.error.inj h).symm

theorem vectorAt_error {v : List β} {i : Int} {f : Fault} (h : vectorAt v i = .error f) :
    f = .outOfRange := by
  unfold vectorAt at h
  split_ifs at h
  · exact (Except.error.inj h).symm
  · split at h
    · exact (Except.error.inj h).symm
    · cases h

theorem vectorSet_error {v : List β} {i : Int} {x : β} {f : Fault}
    (h : vectorSet v i x = .error f) : f = .outOfRange := by
  unfold vectorSet at h
  split_ifs at h
  exact (Except.error.inj h).symm

theorem mem_of_vectorAt {v : List β} {i : Int} {x : β} (h : vectorAt v i = .ok x) : x ∈ v := by
  unfold vectorAt at h
  split_ifs at h
  split at h
  · cases h
  · rename_i at_
    obtain rfl := Except.ok.inj h
    exact List.mem_of_getElem? at_

theorem mem_vectorSet {v w : List β} {i : Int} {x y : β} (h : vectorSet v i x = .ok w)
    (mem : y ∈ w) : y ∈ v ∨ y = x := by
  unfold vectorSet at h
  split_ifs at h
  obtain rfl := Except.ok.inj h
  exact List.mem_or_eq_of_mem_set mem

theorem mem_vectorResize {v : List β} {n : Int} {x y : β} (mem : y ∈ vectorResize v n x) :
    y ∈ v ∨ y = x := by
  rcases List.mem_append.mp mem with old | new
  · exact .inl (List.mem_of_mem_take old)
  · exact .inr (List.eq_of_mem_replicate new)

theorem coerceIn_bounds (a : Int) {l r : Int} (h : l ≤ r) :
    l ≤ coerceIn a l r ∧ coerceIn a l r ≤ r := by
  unfold coerceIn
  split_ifs <;> omega

end EpollServer
