import Redbox.Text.JsString
import Redbox.Text.UriComponent
import Mathlib.Data.Rat.Defs
import Mathlib.Algebra.Order.Field.Basic
import Mathlib.Algebra.Order.Field.Rat
import Mathlib.Tactic.NormNum
import Mathlib.Tactic.Positivity
import Mathlib.Data.List.TakeWhile
import Mathlib.Tactic.Linarith

/-! The numbers that `Number` and `parseInt` of ECMAScript read in a text. -/
namespace Text

def decimal? (cs : List Char) : Option Nat :=
  if cs ≠ [] ∧ cs.all Char.isDigit = true then some (Nat.ofDigitChars 10 cs 0) else none

/-- Digits of a radix up to sixteen. -/
def radix? (b : Nat) (cs : List Char) : Option Nat :=
  if cs = [] then none
  else (cs.mapM fun c => (hexValue c).filter (· < b)).map fun ds =>
    ds.foldl (fun n d => b * n + d) 0

def exponent? : List Char → Option Int
  | [] => some 0
  | c :: cs =>
    if c = 'e' ∨ c = 'E' then
      match cs with
      | '-' :: ds => (decimal? ds).map fun n => -(n : Int)
      | '+' :: ds => (decimal? ds).map fun n => (n : Int)
      | ds => (decimal? ds).map fun n => (n : Int)
    else none

def unsignedDecimal? (cs : List Char) : Option Rat :=
  let whole := cs.takeWhile Char.isDigit
  let rest := cs.dropWhile Char.isDigit
  let fraction := match rest with
    | '.' :: r => r.takeWhile Char.isDigit
    | _ => []
  let rest := match rest with
    | '.' :: r => r.dropWhile Char.isDigit
    | _ => rest
  if whole = [] ∧ fraction = [] then none
  else (exponent? rest).map fun e =>
    (Nat.ofDigitChars 10 (whole ++ fraction) 0 : Rat) * (10 : Rat) ^ (e - (fraction.length : Int))

/-- `Number` before it rounds. Nothing stands for what is no number or infinite. -/
def number? (cs : List Char) : Option Rat :=
  match trimList cs with
  | [] => some 0
  | '-' :: r => (unsignedDecimal? r).map fun x => -x
  | '+' :: r => unsignedDecimal? r
  | '0' :: c :: r =>
    if c = 'x' ∨ c = 'X' then (radix? 16 r).map fun n => (n : Rat)
    else if c = 'o' ∨ c = 'O' then (radix? 8 r).map fun n => (n : Rat)
    else if c = 'b' ∨ c = 'B' then (radix? 2 r).map fun n => (n : Rat)
    else unsignedDecimal? ('0' :: c :: r)
  | r => unsignedDecimal? r

/-- The nearest double is the integer, which a tie goes to. -/
def roundsTo (x : Rat) (n : Nat) : Bool :=
  if n = 0 then decide (-(1 / 2 ^ 1075) ≤ x) && decide (x ≤ 1 / 2 ^ 1075)
  else
    let e := Nat.log2 n
    let below : Rat := if n = 2 ^ e then 2 ^ e / 2 ^ 54 else 2 ^ e / 2 ^ 53
    decide (n - below ≤ x) && decide (x ≤ n + (2 : Rat) ^ e / 2 ^ 53)

/-- The integer up to a bound that a number is once it is rounded. -/
def integerUpTo (bound : Nat) (x : Rat) : Option Nat := (List.range (bound + 1)).find? (roundsTo x)

/-- The double that an integer is rounded to. -/
def toDouble (n : Nat) : Nat :=
  if n < 2 ^ 53 then n
  else
    let e := Nat.log2 n - 52
    let q := n / 2 ^ e
    (if 2 ^ (e - 1) < n % 2 ^ e ∨ (n % 2 ^ e = 2 ^ (e - 1) ∧ q % 2 = 1) then q + 1 else q) * 2 ^ e

def withoutHexPrefix : List Char → List Char
  | '0' :: 'x' :: r => r
  | '0' :: 'X' :: r => r
  | r => r

/-- `parseInt(s, 16)`, where it is a finite number. -/
def parseInt16? (cs : List Char) : Option Int :=
  let cs := cs.dropWhile isSpace
  let negative := cs.head? == some '-'
  let cs := if cs.head? = some '-' ∨ cs.head? = some '+' then cs.tail else cs
  let cs := withoutHexPrefix cs
  match radix? 16 (cs.takeWhile fun c => (hexValue c).isSome) with
  | none => none
  | some n =>
    if 2 ^ 1024 ≤ toDouble n then none
    else some (if negative then -(toDouble n : Int) else toDouble n)

theorem roundsTo_self (n : Nat) : roundsTo n n = true := by
  unfold roundsTo
  by_cases hn : n = 0
  · subst hn
    rw [if_pos rfl]
    norm_num
  · have hpos : (0 : Rat) < 2 ^ Nat.log2 n := by positivity
    rw [if_neg hn]
    simp only [Bool.and_eq_true, decide_eq_true_eq]
    refine ⟨?_, ?_⟩
    · split <;> linarith [div_pos hpos (by norm_num : (0 : Rat) < 2 ^ 54),
        div_pos hpos (by norm_num : (0 : Rat) < 2 ^ 53)]
    · linarith [div_pos hpos (by norm_num : (0 : Rat) < 2 ^ 53)]

/-- An integer is rounded to no smaller one. -/
theorem roundsTo_smaller {k n : Nat} (hk : k < n) (hn : n ≤ 128) : roundsTo n k = false := by
  have hkn : (k : Rat) + 1 ≤ n := by exact_mod_cast hk
  unfold roundsTo
  by_cases hzero : k = 0
  · subst hzero
    have hsmall : (1 : Rat) / 2 ^ 1075 < 1 := by
      rw [div_lt_one (by positivity)]
      exact one_lt_pow₀ one_lt_two (by decide)
    rw [if_pos rfl, Bool.and_eq_false_iff]
    refine .inr (decide_eq_false fun hle => ?_)
    rw [Nat.cast_zero, zero_add] at hkn
    exact absurd (hkn.trans hle) (not_le.mpr hsmall)
  · rw [if_neg hzero]
    have hpow : (2 : Rat) ^ Nat.log2 k ≤ 128 := by
      have hle : 2 ^ Nat.log2 k ≤ k := Nat.log2_self_le hzero
      exact_mod_cast Nat.le_trans hle (by omega)
    have hhalf : (2 : Rat) ^ Nat.log2 k / 2 ^ 53 < 1 := by
      rw [div_lt_one (by norm_num)]
      norm_num at hpow ⊢
      linarith
    refine Bool.and_eq_false_iff.mpr (.inr (decide_eq_false ?_))
    linarith

theorem integerUpTo_self {bound n : Nat} (hn : n ≤ bound) (hbound : bound ≤ 128) :
    integerUpTo bound n = some n := by
  rw [integerUpTo, List.find?_range_eq_some]
  refine ⟨roundsTo_self n, List.mem_range.mpr (Nat.lt_succ_of_le hn), fun k hk => ?_⟩
  rw [roundsTo_smaller hk (Nat.le_trans hn hbound)]
  rfl

theorem dropWhile_none {α : Type} {p : α → Bool} {cs : List α} (h : ∀ c ∈ cs, p c = false) :
    cs.dropWhile p = cs := by
  cases cs with
  | nil => rfl
  | cons c cs => rw [List.dropWhile_cons_of_neg (by simp [h c List.mem_cons_self])]

theorem trimList_eq {cs : List Char} (h : ∀ c ∈ cs, isSpace c = false) : trimList cs = cs := by
  rw [trimList, dropWhile_none h, dropWhile_none fun c hc => h c (List.mem_reverse.mp hc),
    List.reverse_reverse]

theorem isSpace_digit {c : Char} (h : c.isDigit = true) : isSpace c = false := by
  obtain ⟨hlow, hhigh⟩ := Char.isDigit_iff_toNat.mp h
  have hzero : '0'.toNat = 48 := rfl
  have hnine : '9'.toNat = 57 := rfl
  simp only [isSpace, List.contains_eq_mem, List.mem_cons, List.not_mem_nil, or_false,
    Bool.or_eq_false_iff, decide_eq_false_iff_not,
    Bool.and_eq_false_iff]
  omega

theorem unsignedDecimal_digits {cs : List Char} (hne : cs ≠ []) (h : cs.all Char.isDigit = true) :
    unsignedDecimal? cs = some (Nat.ofDigitChars 10 cs 0 : Rat) := by
  unfold unsignedDecimal?
  rw [List.takeWhile_eq_self_iff.mpr (List.all_eq_true.mp h),
    List.dropWhile_eq_nil_iff.mpr (List.all_eq_true.mp h)]
  simp [hne, exponent?]

/-- Digits are read as the number they denote. -/
theorem number_digits {cs : List Char} {n : Nat} (h : decimal? cs = some n) :
    number? cs = some (n : Rat) := by
  unfold decimal? at h
  split at h
  · rename_i hd
    cases Option.some.inj h
    have hdigit : ∀ c ∈ cs, c.isDigit = true := List.all_eq_true.mp hd.2
    have hdecimal := unsignedDecimal_digits hd.1 hd.2
    unfold number?
    rw [trimList_eq fun c hc => isSpace_digit (hdigit c hc)]
    split
    · exact absurd rfl hd.1
    · exact absurd (hdigit '-' List.mem_cons_self) (by decide)
    · exact absurd (hdigit '+' List.mem_cons_self) (by decide)
    · rename_i c r
      have hc : c.isDigit = true := hdigit c (List.mem_cons_of_mem _ List.mem_cons_self)
      have hne : ∀ x : Char, x.isDigit = false → c ≠ x := fun x hx hcx => by
        rw [hcx, hx] at hc
        cases hc
      rw [if_neg (by simp [hne 'x' rfl, hne 'X' rfl]), if_neg (by simp [hne 'o' rfl, hne 'O' rfl]),
        if_neg (by simp [hne 'b' rfl, hne 'B' rfl])]
      exact hdecimal
    · exact hdecimal
  · cases h

end Text
