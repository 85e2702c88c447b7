import Mathlib.Algebra.Ring.Nat
import Mathlib.Data.List.Basic

/-! Strings as JavaScript measures and trims them, and decimal numbers in them. -/
namespace Text

/-- Code units of UTF-16, which `length` counts. -/
def utf16Length (s : String) : Nat := (s.toList.map fun c => if c.toNat < 0x10000 then 1 else 2).sum

/-- White space and line terminators. -/
def isSpace (c : Char) : Bool :=
  [9, 10, 11, 12, 13, 32, 0xA0, 0x1680, 0x2028, 0x2029, 0x202F, 0x205F, 0x3000,
    0xFEFF].contains c.toNat ||
    (decide (0x2000 ≤ c.toNat) && decide (c.toNat ≤ 0x200A))

def trimList (cs : List Char) : List Char :=
  ((cs.dropWhile isSpace).reverse.dropWhile isSpace).reverse

def trim (s : String) : String := String.ofList (trimList s.toList)

/-- `/^\d+$/` and the number, which is exact up to the largest safe integer. -/
def digits? (s : String) : Option Nat :=
  if s ≠ "" ∧ s.toList.all (fun c => c.isDigit) = true then some (Nat.ofDigitChars 10 s.toList 0)
    else none

def maxSafeInteger : Nat := 2 ^ 53 - 1

/-- A scalar value has one code unit at least and two at most. -/
theorem length_le_utf16Length (s : String) : s.length ≤ utf16Length s := by
  rw [utf16Length, ← String.length_toList]
  induction s.toList with
  | nil => exact Nat.le_refl _
  | cons c cs ih =>
    rw [List.map_cons, List.sum_cons, List.length_cons]
    split <;> omega

theorem digits_toString (n : Nat) : digits? (toString n) = some n := by
  have hne : toString n ≠ "" := by
    intro h
    have := congrArg String.toList h
    rw [Nat.toString_eq_repr, Nat.toList_repr] at this
    exact Nat.toDigits_ne_nil this
  have hall : (toString n).toList.all (fun c => c.isDigit) = true := by
    rw [Nat.toString_eq_repr, Nat.toList_repr, List.all_eq_true]
    exact fun c hc => Nat.isDigit_of_mem_toDigits (by decide) (by decide) hc
  rw [digits?, if_pos ⟨hne, hall⟩, Nat.toString_eq_repr, Nat.toList_repr,
    Nat.ofDigitChars_ten_toDigits]

end Text
