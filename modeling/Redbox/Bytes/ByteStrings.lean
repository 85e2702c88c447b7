import Mathlib.Algebra.Ring.Nat
import Mathlib.Data.List.Basic

/-! Byte strings: numbers of a fixed width, and strings cut into segments of one length. -/
namespace Bytes

abbrev ByteString := List UInt8

/-- The last `w` base-256 digits of a number, most significant first. -/
def bigEndian : Nat → Nat → ByteString
  | 0, _ => []
  | w + 1, n => bigEndian w (n / 256) ++ [UInt8.ofNat n]

@[simp] theorem length_bigEndian (w n : Nat) : (bigEndian w n).length = w := by
  induction w generalizing n with
  | zero => rfl
  | succ w ih => simp [bigEndian, ih]

theorem ofNat_inj {m n : Nat} (h : UInt8.ofNat m = UInt8.ofNat n) : m % 256 = n % 256 := by
  have := congrArg UInt8.toNat h
  simpa using this

/-- Numbers that fit the width are told apart by their digits. -/
theorem bigEndian_inj {w m n : Nat} (hm : m < 256 ^ w) (hn : n < 256 ^ w)
    (h : bigEndian w m = bigEndian w n) : m = n := by
  induction w generalizing m n with
  | zero =>
    rw [Nat.pow_zero] at hm hn
    omega
  | succ w ih =>
    obtain ⟨hdiv, hmod⟩ := List.append_inj' h rfl
    have hdiv' : m / 256 = n / 256 := by
      apply ih _ _ hdiv
      · rw [Nat.div_lt_iff_lt_mul (by decide), ← Nat.pow_succ]; exact hm
      · rw [Nat.div_lt_iff_lt_mul (by decide), ← Nat.pow_succ]; exact hn
    have hmod' : m % 256 = n % 256 := ofNat_inj (List.cons.inj hmod).1
    omega

/-- A field of fixed width at the front of two equal strings is the same in both. -/
theorem bigEndian_append_inj {w m n : Nat} {s t : ByteString} (hm : m < 256 ^ w) (hn : n < 256 ^ w)
    (h : bigEndian w m ++ s = bigEndian w n ++ t) : m = n ∧ s = t := by
  obtain ⟨hfield, hrest⟩ := List.append_inj h (by simp)
  exact ⟨bigEndian_inj hm hn hfield, hrest⟩

section
variable {α : Type} {l : List α} {c n : Nat}

/-- The segment of length `c` that starts at the given multiple of `c`. -/
def segment (l : List α) (c i : Nat) : List α := (l.drop (i * c)).take c

theorem length_segment (l : List α) (c i : Nat) :
    (segment l c i).length = min c (l.length - i * c) := by
  simp [segment]

/-- The first segments side by side are the beginning of the list. -/
theorem flatten_segments (l : List α) (c n : Nat) :
    ((List.range n).map (segment l c)).flatten = l.take (n * c) := by
  induction n with
  | zero => simp
  | succ n ih =>
    rw [List.range_succ, List.map_append, List.flatten_append, ih, Nat.succ_mul, List.take_add]
    simp [segment]

/-- Enough segments are the whole list. -/
theorem flatten_segments_all (h : l.length ≤ n * c) :
    ((List.range n).map (segment l c)).flatten = l := by
  rw [flatten_segments, List.take_of_length_le h]

end
end Bytes
