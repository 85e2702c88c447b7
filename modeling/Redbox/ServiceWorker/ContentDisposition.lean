import Redbox.Text.UriComponent
import Mathlib.Algebra.Ring.Nat

/-! The names that the service worker gives to downloads. A name of a message is any
sequence of code units; the header is built from one that has no lone surrogates. -/
namespace Redbox

abbrev JsString := List UInt16

namespace JsString

/-- The code units of ASCII text. -/
def ascii (s : String) : JsString := s.toList.map fun c => c.toNat.toUInt16

/-- `Array.from`: surrogate pairs together, everything else alone. -/
def codePoints : JsString → List Nat
  | [] => []
  | [u] => [u.toNat]
  | u :: v :: rest =>
    if 0xD800 ≤ u.toNat ∧ u.toNat < 0xDC00 ∧ 0xDC00 ≤ v.toNat ∧ v.toNat < 0xE000 then
      (0x10000 + (u.toNat - 0xD800) * 0x400 + (v.toNat - 0xDC00)) :: codePoints rest
    else u.toNat :: codePoints (v :: rest)

/-- The code units of a code point. -/
def units (c : Nat) : JsString :=
  if c < 0x10000 then [c.toUInt16]
  else [(0xD800 + (c - 0x10000) / 0x400).toUInt16, (0xDC00 + (c - 0x10000) % 0x400).toUInt16]

def isScalar (c : Nat) : Bool := decide (c < 0xD800) ||
      (decide (0xDFFF < c) && decide (c < 0x110000))

/-- Nothing where `encodeURIComponent` throws a `URIError`. -/
def encodeURIComponent (s : JsString) : Option String :=
  if s.codePoints.all isScalar then some
    (Text.encodeURIComponent (String.ofList (s.codePoints.map Char.ofNat)))
  else none

end JsString

namespace DownloadWorker

def isInvalid (c : Nat) : Bool :=
  decide (c ≤ 31) || decide (c = 127) || (decide (0xD800 ≤ c) && decide (c ≤ 0xDFFF)) ||
  (decide (0x202A ≤ c) && decide (c ≤ 0x202E)) || (decide (0x2066 ≤ c) && decide (c ≤ 0x2069)) ||
  ("\\/:*?\"<>|".toList.map Char.toNat).contains c

def underscore : Nat := 0x5F

/-- `replace(/[. ]+$/g, '')` -/
def trimEnd (cs : List Nat) : List Nat :=
  (cs.reverse.dropWhile fun c => c == 0x2E || c == 0x20).reverse

def sanitizeFileName (fileName : JsString) : JsString :=
  let safe := (fileName.codePoints.map fun c => if isInvalid c then underscore else c)
  let sliced := ((trimEnd safe).flatMap JsString.units).take 100
  if sliced = [] then JsString.ascii "download" else sliced

def asciiChar (c : Nat) : Char :=
  if 0x20 ≤ c ∧ c ≤ 0x7E ∧ c ∉ "\"\\;".toList.map Char.toNat then Char.ofNat c else '_'

/-- The characters that `encodeURIComponent` leaves and the header must not have. -/
def escapeRest (c : Char) : List Char := if c ∈ "'()*".toList then Text.percent c.toNat else [c]

def contentDisposition (fileName : JsString) : Option String :=
  let safeName := sanitizeFileName fileName
  let asciiName := String.ofList (safeName.codePoints.map asciiChar)
  (JsString.encodeURIComponent safeName).map fun encodedName =>
    "attachment; filename=\"" ++ (if asciiName = "" then "download" else asciiName) ++
      "\"; filename*=UTF-8''" ++
      String.ofList (encodedName.toList.flatMap escapeRest)

end DownloadWorker

namespace JsString

theorem length_units (c : Nat) : 1 ≤ (units c).length ∧ (units c).length ≤ 2 := by
  unfold units
  split <;> simp

/-- Splitting into code points keeps the length. -/
theorem length_codePoints (s : JsString) : (s.codePoints.flatMap units).length = s.length := by
  fun_induction codePoints s with
  | case1 => rfl
  | case2 u =>
    have hu : u.toNat < 0x10000 := u.toNat_lt
    simp [units, hu]
  | case3 u v rest h ih =>
    have hu : ¬ 0x10000 + (u.toNat - 0xD800) * 0x400 + (v.toNat - 0xDC00) < 0x10000 := by omega
    simp only [List.flatMap_cons, List.length_append, ih, units, if_neg hu, List.length_cons,
      List.length_nil]
    omega
  | case4 u v rest h ih =>
    have hu : u.toNat < 0x10000 := u.toNat_lt
    simp only [List.flatMap_cons, List.length_append, ih, units, if_pos hu, List.length_cons,
      List.length_nil]
    omega

theorem codePoints_cons {c : Nat} (h : isScalar c = true) (s : JsString) :
    codePoints (units c ++ s) = c :: s.codePoints := by
  simp only [isScalar, Bool.or_eq_true, Bool.and_eq_true, decide_eq_true_eq] at h
  unfold units
  split
  · rename_i hc
    have hu : c.toUInt16.toNat = c := by simp; omega
    cases s with
    | nil => simp [codePoints, hu]
    | cons v rest =>
      rw [List.singleton_append, codePoints, hu, if_neg (by omega)]
  · rename_i hc
    have hu : (0xD800 + (c - 0x10000) / 0x400).toUInt16.toNat = 0xD800 + (c - 0x10000) / 0x400 := by
      simp; omega
    have hv : (0xDC00 + (c - 0x10000) % 0x400).toUInt16.toNat = 0xDC00 + (c - 0x10000) % 0x400 := by
      simp; omega
    have hc : 0x10000 + (0xD800 + (c - 0x10000) / 0x400 - 0xD800) * 0x400 +
        (0xDC00 + (c - 0x10000) % 0x400 - 0xDC00) = c := by omega
    rw [List.cons_append, List.singleton_append, codePoints, hu, hv, if_pos (by omega), hc]

/-- Scalar values are read back. -/
theorem codePoints_units {cs : List Nat} (h : ∀ c ∈ cs, isScalar c = true) :
    codePoints (cs.flatMap units) = cs := by
  induction cs with
  | nil => rfl
  | cons c cs ih =>
    rw [List.flatMap_cons, codePoints_cons (h c List.mem_cons_self),
      ih fun c hc => h c (List.mem_cons_of_mem _ hc)]

/-- A code point is a surrogate or a scalar value. -/
theorem codePoints_lt {s : JsString} {c : Nat} (h : c ∈ s.codePoints) : c < 0x110000 := by
  fun_induction codePoints s with
  | case1 => cases h
  | case2 u =>
    have hu : u.toNat < 0x10000 := u.toNat_lt
    simp only [List.mem_singleton] at h
    omega
  | case3 u v rest hp ih =>
    rcases List.mem_cons.mp h with hc | h
    · rw [hc]
      omega
    · exact ih h
  | case4 u v rest hp ih =>
    have hu : u.toNat < 0x10000 := u.toNat_lt
    rcases List.mem_cons.mp h with rfl | h
    · omega
    · exact ih h

end JsString

namespace DownloadWorker
open JsString

/-- Replacing code points by an underscore makes no string longer. -/
theorem length_replaced (f : Nat → Bool) (cs : List Nat) :
    ((cs.map fun c => if f c then underscore else c).flatMap units).length ≤
      (cs.flatMap units).length := by
  induction cs with
  | nil => exact Nat.le_refl _
  | cons c cs ih =>
    have hc : (units (if f c then underscore else c)).length ≤ (units c).length := by
      split
      · exact (length_units c).1
      · exact Nat.le_refl _
    simp only [List.map_cons, List.flatMap_cons, List.length_append]
    omega

theorem trimEnd_prefix (cs : List Nat) : trimEnd cs <+: cs := by
  have h := (List.dropWhile_suffix (fun c => c == 0x2E || c == 0x20) (l := cs.reverse))
  rw [trimEnd]
  simpa using List.reverse_prefix.mpr h

/-- A name of at most 100 code units is not cut, so no surrogate pair is. -/
theorem sanitize_scalar {fileName : JsString} (h : fileName.length ≤ 100) :
    ∀ c ∈ (sanitizeFileName fileName).codePoints, isScalar c = true := by
  set safe := fileName.codePoints.map fun c => if isInvalid c then underscore else c with hsafe
  have hscalar : ∀ c ∈ safe, isScalar c = true := by
    intro c hc
    obtain ⟨x, hx, rfl⟩ := List.mem_map.mp hc
    have hlt := codePoints_lt hx
    split
    · rfl
    · rename_i hi
      simp only [isInvalid, Bool.or_eq_true, Bool.and_eq_true, decide_eq_true_eq, not_or,
        not_and] at hi
      simp only [isScalar, Bool.or_eq_true, Bool.and_eq_true, decide_eq_true_eq]
      omega
  obtain ⟨rest, hrest⟩ := trimEnd_prefix safe
  have hlength : ((trimEnd safe).flatMap units).length ≤ 100 := by
    have hle := length_replaced isInvalid fileName.codePoints
    rw [← hsafe, ← hrest, List.flatMap_append, List.length_append, length_codePoints] at hle
    omega
  intro c hc
  simp only [sanitizeFileName, ← hsafe, List.take_of_length_le hlength] at hc
  split at hc
  · have hall : (ascii "download").codePoints.all isScalar = true := by decide
    exact List.all_eq_true.mp hall c hc
  · rw [codePoints_units fun c hc => hscalar c (hrest ▸ List.mem_append_left _ hc)] at hc
    exact hscalar c (hrest ▸ List.mem_append_left _ hc)

/-- The header of a name that was accepted can be built. -/
theorem contentDisposition_isSome {fileName : JsString} (h : fileName.length ≤ 100) :
    (contentDisposition fileName).isSome = true := by
  have hall : (sanitizeFileName fileName).codePoints.all isScalar = true :=
    List.all_eq_true.mpr (sanitize_scalar h)
  simp [contentDisposition, JsString.encodeURIComponent, hall]

end DownloadWorker
end Redbox
