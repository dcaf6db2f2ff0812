import Mathlib.Algebra.Group.Nat.Defs
import Mathlib.Data.List.Basic

/-!
# Text made of lines

A line is a list of bytes without the first byte of the terminator, a block is a sequence of
nonempty lines closed by an empty one. Both can be read in only one way, whatever follows them.
The last part is about decimal numerals.
-/
namespace EpollServer.Library

variable {α : Type*}

/-- The first occurrence of `a` splits a list in one way. -/
theorem split_unique {a : α} {l m x y : List α} (hl : a ∉ l) (hm : a ∉ m)
    (h : l ++ a :: x = m ++ a :: y) : l = m ∧ x = y := by
  induction l generalizing m with
  | nil =>
    cases m with
    | nil => exact ⟨rfl, List.tail_eq_of_cons_eq h⟩
    | cons b m =>
      obtain rfl : a = b := List.head_eq_of_cons_eq h
      simp at hm
  | cons b l ih =>
    cases m with
    | nil =>
      obtain rfl : b = a := List.head_eq_of_cons_eq h
      simp at hl
    | cons c m =>
      obtain ⟨rfl, rest⟩ := List.cons.inj h
      obtain ⟨rfl, same⟩ := ih (List.not_mem_of_not_mem_cons hl) (List.not_mem_of_not_mem_cons hm)
        rest
      exact ⟨rfl, same⟩

def cr : UInt8 := 13
def lf : UInt8 := 10

/-- The terminator of a line. -/
def crlf : List UInt8 := [cr, lf]

/-- The lines, each with its terminator, and the empty line. -/
def block (lines : List (List UInt8)) : List UInt8 :=
  lines.flatMap (· ++ crlf) ++ crlf

variable {l m x y : List UInt8}

theorem line_unique (hl : cr ∉ l) (hm : cr ∉ m) (h : l ++ crlf ++ x = m ++ crlf ++ y) :
    l = m ∧ x = y := by
  have parts : l ++ cr :: (lf :: x) = m ++ cr :: (lf :: y) := by simpa [crlf] using h
  obtain ⟨same, rest⟩ := split_unique hl hm parts
  exact ⟨same, List.tail_eq_of_cons_eq rest⟩

/-- A nonempty line without the terminator's first byte. -/
def IsLine (l : List UInt8) : Prop := l ≠ [] ∧ cr ∉ l

theorem block_cons (l : List UInt8) (lines : List (List UInt8)) :
    block (l :: lines) = l ++ crlf ++ block lines := by
  simp [block]

theorem block_unique {ls ms : List (List UInt8)} (hl : ∀ l ∈ ls, IsLine l)
    (hm : ∀ m ∈ ms, IsLine m) (h : block ls ++ x = block ms ++ y) : ls = ms ∧ x = y := by
  have empty {l : List UInt8} {lines : List (List UInt8)} {x y : List UInt8} (line : IsLine l) :
      block (l :: lines) ++ x ≠ block [] ++ y := by
    rw [block_cons, List.append_assoc]
    exact fun h => line.1 (line_unique line.2 List.not_mem_nil h).1
  induction ls generalizing ms with
  | nil =>
    cases ms with
    | nil => exact ⟨rfl, List.append_cancel_left h⟩
    | cons m ms => exact absurd h.symm (empty (hm m (by simp)))
  | cons l ls ih =>
    cases ms with
    | nil => exact absurd h (empty (hl l (by simp)))
    | cons m ms =>
      have lines : l ++ crlf ++ (block ls ++ x) = m ++ crlf ++ (block ms ++ y) := by
        simpa only [block_cons, List.append_assoc] using h
      obtain ⟨rfl, rest⟩ := line_unique (hl l (by simp)).2 (hm m (by simp)).2 lines
      obtain ⟨rfl, same⟩ := ih (fun l' hl' => hl l' (by simp [hl'])) (fun m' hm' =>
        hm m' (by simp [hm'])) rest
      exact ⟨rfl, same⟩

/-! ## Decimal numerals -/

def charByte (c : Char) : UInt8 := c.toNat.toUInt8

/-- The numeral that `%d` prints for a natural number. -/
def decimal (n : ℕ) : List UInt8 := (Nat.toDigits 10 n).map charByte

def isDigit (b : UInt8) : Bool := 48 ≤ b && b ≤ 57

/-- The value of a numeral. -/
def numeral (l : List UInt8) : Option ℕ :=
  if l ≠ [] ∧ l.all isDigit then some (l.foldl (fun n b => 10 * n + (b.toNat - 48)) 0) else none

theorem toNat_charByte {c : Char} (h : c.isDigit = true) :
    (charByte c).toNat = c.toNat ∧ 48 ≤ c.toNat ∧ c.toNat ≤ 57 := by
  have bounds : 48 ≤ c.toNat ∧ c.toNat ≤ 57 := by
    rw [Char.isDigit, Bool.and_eq_true, decide_eq_true_eq, decide_eq_true_eq] at h
    exact ⟨UInt32.le_iff_toNat_le.mp h.1, UInt32.le_iff_toNat_le.mp h.2⟩
  refine ⟨?_, bounds⟩
  rw [charByte, Nat.toUInt8, UInt8.toNat_ofNat']
  omega

theorem isDigit_charByte {c : Char} (h : c.isDigit = true) : isDigit (charByte c) = true := by
  obtain ⟨same, lower, upper⟩ := toNat_charByte h
  simp [isDigit, UInt8.le_iff_toNat_le, same, lower, upper]

theorem isDigit_of_mem_decimal {n : ℕ} {b : UInt8} (h : b ∈ decimal n) : isDigit b = true := by
  obtain ⟨c, hc, rfl⟩ := List.mem_map.mp h
  exact isDigit_charByte (Nat.isDigit_of_mem_toDigits (by decide) (by decide) hc)

/-- A byte that is no digit does not occur in a numeral. -/
theorem notMem_decimal {b : UInt8} (h : isDigit b = false) (n : ℕ) : b ∉ decimal n := by
  intro mem
  rw [isDigit_of_mem_decimal mem] at h
  cases h

theorem length_decimal_le {n k : ℕ} (hk : 0 < k) (h : n < 10 ^ k) : (decimal n).length ≤ k := by
  rw [decimal, List.length_map]
  exact (Nat.length_toDigits_le_iff (by decide) hk).mpr h

theorem foldl_charByte {cs : List Char} (h : ∀ c ∈ cs, c.isDigit = true) (init : ℕ) :
    (cs.map charByte).foldl (fun n b => 10 * n + (b.toNat - 48)) init =
      Nat.ofDigitChars 10 cs init := by
  induction cs generalizing init with
  | nil => simp
  | cons c cs ih =>
    rw [List.map_cons, List.foldl_cons, Nat.ofDigitChars_cons, ih fun c hc => h c (by simp [hc]),
      (toNat_charByte (h c (by simp))).1]
    rfl

/-- Reading what was printed. -/
theorem numeral_decimal (n : ℕ) : numeral (decimal n) = some n := by
  have digits : ∀ c ∈ Nat.toDigits 10 n, c.isDigit = true := fun c hc =>
    Nat.isDigit_of_mem_toDigits (by decide) (by decide) hc
  have nonempty : decimal n ≠ [] := by simp [decimal, Nat.toDigits_ne_nil]
  have all : (decimal n).all isDigit = true :=
    List.all_eq_true.mpr fun _ hb => isDigit_of_mem_decimal hb
  rw [numeral, if_pos ⟨nonempty, all⟩, decimal, foldl_charByte digits,
    Nat.ofDigitChars_ten_toDigits]

end EpollServer.Library
