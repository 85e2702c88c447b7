import Redbox.Bytes.ByteStrings
import Redbox.Text.UriComponent
import Mathlib.Algebra.BigOperators.Group.List.Basic

/-! UTF-8 of sequences of scalar values. -/
namespace Bytes
namespace Utf8
open Text (leading wellFormed)

def isScalar (c : Nat) : Bool := decide (c < 0xD800) ||
      (decide (0xDFFF < c) && decide (c < 0x110000))

def encodeScalar (c : Nat) : ByteString := (Text.utf8 c).map UInt8.ofNat

def encode (cs : List Nat) : ByteString := cs.flatMap encodeScalar

/-- Reads the bytes that follow, six bits each. -/
def readTail : Nat → Nat → ByteString → Option (Nat × ByteString)
  | 0, code, bytes => some (code, bytes)
  | _ + 1, _, [] => none
  | n + 1, code, b :: bytes =>
    if 0x80 ≤ b.toNat ∧ b.toNat < 0xC0 then readTail n (64 * code + (b.toNat - 0x80)) bytes
      else none

def readScalar : ByteString → Option (Nat × ByteString)
  | [] => none
  | b :: bytes => (leading b.toNat).bind fun lead => (readTail lead.1 lead.2 bytes).bind fun r =>
    if wellFormed lead.1 r.1 then some r else none

/-- Each round consumes a byte at least. -/
def decodeWith : Nat → ByteString → Option (List Nat)
  | _, [] => some []
  | 0, _ :: _ => none
  | fuel + 1, b :: bytes =>
    (readScalar (b :: bytes)).bind fun r => (decodeWith fuel r.2).map (r.1 :: ·)

/-- Nothing where the bytes are no UTF-8. -/
def decode? (bytes : ByteString) : Option (List Nat) := decodeWith bytes.length bytes

/-- How many bytes a code point takes. -/
def width (c : Nat) : Nat :=
  if c < 0x80 then 1 else if c < 0x800 then 2 else if c < 0x10000 then 3 else 4

section
variable {b c n code : Nat} {cs : List Nat} {bytes : ByteString}

theorem isScalar_iff : isScalar c = true ↔ c < 0xD800 ∨ 0xDFFF < c ∧ c < 0x110000 := by
  simp [isScalar]

theorem length_encodeScalar (c : Nat) : (encodeScalar c).length = width c := by
  unfold encodeScalar Text.utf8 width
  rw [List.length_map]
  split
  · rfl
  · split
    · rfl
    · split <;> rfl

theorem length_encode (cs : List Nat) : (encode cs).length = (cs.map width).sum := by
  induction cs with
  | nil => rfl
  | cons c cs ih =>
    rw [encode, List.flatMap_cons, List.length_append, length_encodeScalar, List.map_cons,
      List.sum_cons, ← ih]
    rfl

theorem width_pos (c : Nat) : 1 ≤ width c := by
  unfold width
  split
  · exact Nat.le_refl 1
  · split
    · omega
    · split <;> omega

theorem readTail_zero : readTail 0 code bytes = some (code, bytes) := by
  cases bytes <;> rfl

theorem readTail_cons {d : Nat} (h : d < 64) :
    readTail (n + 1) code (UInt8.ofNat (0x80 + d) :: bytes) = readTail n (64 * code + d) bytes := by
  have hb : (UInt8.ofNat (0x80 + d)).toNat = 0x80 + d := by
    rw [UInt8.toNat_ofNat']
    omega
  rw [readTail, hb, if_pos (by omega), Nat.add_sub_cancel_left]

theorem toNat_first (h : b < 256) : (UInt8.ofNat b).toNat = b := by
  rw [UInt8.toNat_ofNat']
  omega

/-- One case for each number of bytes. -/
theorem readScalar_encodeScalar (h : isScalar c = true) (bytes : ByteString) :
    readScalar (encodeScalar c ++ bytes) = some (c, bytes) := by
  have hc := isScalar_iff.mp h
  unfold encodeScalar Text.utf8
  split
  · rename_i h1
    have hlead : leading c = some (0, c) := by simp [leading, h1]
    simp only [List.map_cons, List.map_nil, List.cons_append, List.nil_append, readScalar,
      toNat_first (b := c) (by omega),
      hlead, Option.bind_some, readTail_zero, wellFormed, if_true]
  · split
    · rename_i h1 h2
      have hlead : leading (0xC0 + c / 64) = some (1, c / 64) := by
        rw [leading, if_neg (by omega), if_neg (by omega), if_pos (by omega),
          Nat.add_sub_cancel_left]
      have hcode : 64 * (c / 64) + c % 64 = c := by omega
      have hwell : wellFormed 1 c = true := by simp only [wellFormed, decide_eq_true_eq]; omega
      simp only [List.map_cons, List.map_nil, List.cons_append, List.nil_append, readScalar,
        toNat_first (b := 0xC0 + c / 64) (by omega), hlead, Option.bind_some,
        readTail_cons (d := c % 64) (by omega), readTail_zero, hcode,
        hwell, if_true]
    · split
      · rename_i h1 h2 h3
        have hlead : leading (0xE0 + c / 4096) = some (2, c / 4096) := by
          rw [leading, if_neg (by omega), if_neg (by omega), if_neg (by omega), if_pos (by omega),
            Nat.add_sub_cancel_left]
        have hcode : 64 * (64 * (c / 4096) + c / 64 % 64) + c % 64 = c := by omega
        have hwell : wellFormed 2 c = true := by
          simp only [wellFormed, Bool.and_eq_true, Bool.not_eq_true', Bool.and_eq_false_iff,
            decide_eq_true_eq, decide_eq_false_iff_not]
          omega
        simp only [List.map_cons, List.map_nil, List.cons_append, List.nil_append, readScalar,
          toNat_first (b := 0xE0 + c / 4096) (by omega), hlead, Option.bind_some,
          readTail_cons (d := c / 64 % 64) (by omega),
          readTail_cons (d := c % 64) (by omega), readTail_zero, hcode, hwell, if_true]
      · rename_i h1 h2 h3
        have hlead : leading (0xF0 + c / 262144) = some (3, c / 262144) := by
          rw [leading, if_neg (by omega), if_neg (by omega), if_neg (by omega), if_neg (by omega),
            if_pos (by omega), Nat.add_sub_cancel_left]
        have hcode : 64 * (64 * (64 * (c / 262144) + c / 4096 % 64) + c / 64 % 64) + c % 64 =
            c := by omega
        have hwell : wellFormed 3 c = true := by
          simp only [wellFormed, Bool.and_eq_true, decide_eq_true_eq]
          omega
        simp only [List.map_cons, List.map_nil, List.cons_append, List.nil_append, readScalar,
          toNat_first (b := 0xF0 + c / 262144) (by omega), hlead, Option.bind_some,
          readTail_cons (d := c / 4096 % 64) (by omega),
          readTail_cons (d := c / 64 % 64) (by omega), readTail_cons (d := c % 64) (by omega),
            readTail_zero, hcode, hwell, if_true]

theorem encodeScalar_ne_nil (c : Nat) : encodeScalar c ≠ [] :=
  List.length_pos_iff.mp (length_encodeScalar c ▸ width_pos c)

theorem decodeWith_encode {fuel : Nat} (h : ∀ c ∈ cs, isScalar c = true)
    (hfuel : (encode cs).length ≤ fuel) :
    decodeWith fuel (encode cs) = some cs := by
  induction cs generalizing fuel with
  | nil => cases fuel <;> rfl
  | cons c cs ih =>
    have hread := readScalar_encodeScalar (h c List.mem_cons_self) (encode cs)
    have hlength := length_encodeScalar c
    have hpos := width_pos c
    have hencode : encode (c :: cs) = encodeScalar c ++ encode cs := rfl
    rw [hencode, List.length_append, hlength] at hfuel
    rw [hencode]
    cases hb : encodeScalar c with
    | nil => exact absurd hb (encodeScalar_ne_nil c)
    | cons b bytes =>
      rw [hb] at hread
      cases fuel with
      | zero => omega
      | succ fuel =>
        rw [List.cons_append] at hread ⊢
        rw [decodeWith, hread, Option.bind_some,
          ih (fun d hd => h d (List.mem_cons_of_mem _ hd)) (by omega)]
        rfl

/-- What was encoded is decoded. -/
theorem decode_encode (h : ∀ c ∈ cs, isScalar c = true) : decode? (encode cs) = some cs :=
  decodeWith_encode h (Nat.le_refl _)

end
end Utf8
end Bytes
