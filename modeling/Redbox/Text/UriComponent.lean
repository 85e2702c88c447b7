import Mathlib.Data.List.Basic

/-! `encodeURIComponent` and `decodeURIComponent` of ECMAScript on sequences of Unicode
scalar values, and the round trip. A lone surrogate is no scalar value. -/
namespace Text

def hexDigit (n : Nat) : Char := if n < 10 then Char.ofNat (48 + n) else Char.ofNat (55 + n)

def hexValue (c : Char) : Option Nat :=
  if 48 ≤ c.toNat ∧ c.toNat ≤ 57 then some (c.toNat - 48)
  else if 65 ≤ c.toNat ∧ c.toNat ≤ 70 then some (c.toNat - 55)
  else if 97 ≤ c.toNat ∧ c.toNat ≤ 102 then some (c.toNat - 87)
  else none

/-- One byte as `%XX`. -/
def percent (b : Nat) : List Char := ['%', hexDigit (b / 16), hexDigit (b % 16)]

/-- UTF-8 of one code point. -/
def utf8 (c : Nat) : List Nat :=
  if c < 0x80 then [c]
  else if c < 0x800 then [0xC0 + c / 64, 0x80 + c % 64]
  else if c < 0x10000 then [0xE0 + c / 4096, 0x80 + c / 64 % 64, 0x80 + c % 64]
  else [0xF0 + c / 262144, 0x80 + c / 4096 % 64, 0x80 + c / 64 % 64, 0x80 + c % 64]

/-- The characters that need no escape. -/
def unreserved (c : Char) : Bool :=
  c.isAlphanum || "-_.!~*'()".toList.contains c

def encodeChar (c : Char) : List Char :=
  if unreserved c then [c] else (utf8 c.toNat).flatMap percent

def encodeURIComponent (s : String) : String := String.ofList (s.toList.flatMap encodeChar)

/-- Reads `%XX`. -/
def readByte : List Char → Option (Nat × List Char)
  | '%' :: a :: b :: rest => (hexValue a).bind fun h => (hexValue b).map fun l => (16 * h + l, rest)
  | _ => none

/-- How many bytes follow a first byte, and the bits that it has of the code point. -/
def leading (b : Nat) : Option (Nat × Nat) :=
  if b < 0x80 then some (0, b)
  else if b < 0xC0 then none
  else if b < 0xE0 then some (1, b - 0xC0)
  else if b < 0xF0 then some (2, b - 0xE0)
  else if b < 0xF8 then some (3, b - 0xF0)
  else none

/-- Reads the bytes that follow, six bits each. -/
def readTail : Nat → Nat → List Char → Option (Nat × List Char)
  | 0, code, cs => some (code, cs)
  | n + 1, code, cs => (readByte cs).bind fun r =>
    if 0x80 ≤ r.1 ∧ r.1 < 0xC0 then readTail n (64 * code + (r.1 - 0x80)) r.2 else none

/-- No overlong form, no surrogate and nothing beyond the last code point. -/
def wellFormed : Nat → Nat → Bool
  | 0, _ => true
  | 1, code => decide (0x80 ≤ code)
  | 2, code => decide (0x800 ≤ code) && !(decide (0xD800 ≤ code) && decide (code ≤ 0xDFFF))
  | _, code => decide (0x10000 ≤ code) && decide (code ≤ 0x10FFFF)

/-- One escaped code point. -/
def readEscape (cs : List Char) : Option (Char × List Char) :=
  (readByte cs).bind fun first => (leading first.1).bind fun lead =>
    (readTail lead.1 lead.2 first.2).bind fun r =>
    if wellFormed lead.1 r.1 then some (Char.ofNat r.1, r.2) else none

/-- Each round consumes a character at least. -/
def decodeChars : Nat → List Char → Option (List Char)
  | _, [] => some []
  | 0, _ :: _ => none
  | fuel + 1, c :: cs =>
    if c = '%' then (readEscape (c :: cs)).bind fun r => (decodeChars fuel r.2).map (r.1 :: ·)
    else (decodeChars fuel cs).map (c :: ·)

/-- Nothing where ECMAScript throws a `URIError`. -/
def decodeURIComponent (s : String) : Option String :=
  (decodeChars s.toList.length s.toList).map String.ofList

section
variable {b n : Nat} {c : Char} {cs : List Char}

theorem hexValue_hexDigit (h : n < 16) : hexValue (hexDigit n) = some n := by
  have all : ∀ n : Fin 16, hexValue (hexDigit n) = some n.val := by decide
  exact all ⟨n, h⟩

theorem readByte_percent (h : b < 256) : readByte (percent b ++ cs) = some (b, cs) := by
  have hhigh := hexValue_hexDigit (n := b / 16) (by omega)
  have hlow := hexValue_hexDigit (n := b % 16) (by omega)
  simp only [percent, List.cons_append, List.nil_append, readByte, hhigh, hlow, Option.bind_some,
    Option.map_some,
    Nat.div_add_mod]

/-- A following byte. -/
theorem readTail_percent {code d : Nat} (h : d < 64) :
    readTail (n + 1) code (percent (0x80 + d) ++ cs) = readTail n (64 * code + d) cs := by
  rw [readTail, readByte_percent (by omega), Option.bind_some, if_pos (by omega),
    Nat.add_sub_cancel_left]

/-- A character is a scalar value. -/
theorem scalar (c : Char) : c.toNat < 0xD800 ∨ 0xDFFF < c.toNat ∧ c.toNat < 0x110000 := c.valid

/-- Every scalar value is read back. -/
theorem readEscape_utf8 : readEscape ((utf8 c.toNat).flatMap percent ++ cs) = some (c, cs) := by
  have hc := scalar c
  have hchar : Char.ofNat c.toNat = c := Char.ofNat_toNat c
  generalize c.toNat = n at hc hchar
  unfold utf8 readEscape
  split_ifs with h1 h2 h3
  · simp only [List.flatMap_cons, List.flatMap_nil, List.append_nil]
    rw [readByte_percent (by omega), Option.bind_some, leading, if_pos h1, Option.bind_some]
    simp only [readTail, Option.bind_some, wellFormed, if_true, hchar]
  · simp only [List.flatMap_cons, List.flatMap_nil, List.append_nil, List.append_assoc]
    rw [readByte_percent (by omega), Option.bind_some, leading, if_neg (by omega),
      if_neg (by omega),
      if_pos (by omega), Option.bind_some, readTail_percent (by omega)]
    have hn : 64 * (0xC0 + n / 64 - 0xC0) + n % 64 = n := by omega
    simp only [readTail, Option.bind_some, hn, wellFormed, hchar]
    rw [if_pos (by simpa using h1)]
  · simp only [List.flatMap_cons, List.flatMap_nil, List.append_nil, List.append_assoc]
    rw [readByte_percent (by omega), Option.bind_some, leading, if_neg (by omega),
      if_neg (by omega), if_neg (by omega),
      if_pos (by omega), Option.bind_some, readTail_percent (by omega), readTail_percent (by omega)]
    have hn : 64 * (64 * (0xE0 + n / 4096 - 0xE0) + n / 64 % 64) + n % 64 = n := by omega
    simp only [readTail, Option.bind_some, hn, wellFormed, hchar]
    rw [if_pos (by simp; omega)]
  · simp only [List.flatMap_cons, List.flatMap_nil, List.append_nil, List.append_assoc]
    rw [readByte_percent (by omega), Option.bind_some, leading, if_neg (by omega),
      if_neg (by omega), if_neg (by omega),
      if_neg (by omega), if_pos (by omega), Option.bind_some, readTail_percent (by omega),
      readTail_percent (by omega),
      readTail_percent (by omega)]
    have hn : 64 * (64 * (64 * (0xF0 + n / 262144 - 0xF0) + n / 4096 % 64) + n / 64 % 64) + n % 64 =
        n := by omega
    simp only [readTail, Option.bind_some, hn, wellFormed, hchar]
    rw [if_pos (by simp; omega)]

/-- An escape starts with a percent sign. -/
theorem utf8_percent (n : Nat) : ∃ rest, (utf8 n).flatMap percent = '%' :: rest := by
  unfold utf8
  split_ifs <;> exact ⟨_, rfl⟩

/-- Each character stands for itself or is escaped, and a percent sign is escaped. -/
def Escapes (e : Char → List Char) : Prop :=
  ∀ c, c ≠ '%' ∧ e c = [c] ∨ e c = (utf8 c.toNat).flatMap percent

theorem escapes_encodeChar : Escapes encodeChar := by
  intro c
  unfold encodeChar
  split
  · rename_i h
    refine .inl ⟨?_, rfl⟩
    rintro rfl
    exact absurd h (by decide)
  · exact .inr rfl

theorem Escapes.decodeChars_cons {e : Char → List Char} (he : Escapes e) {fuel : Nat} :
    decodeChars (fuel + 1) (e c ++ cs) = (decodeChars fuel cs).map (c :: ·) := by
  rcases he c with ⟨hne, h⟩ | h
  · rw [h, List.singleton_append, decodeChars, if_neg hne]
  · obtain ⟨rest, hrest⟩ := utf8_percent c.toNat
    have hread : readEscape ((utf8 c.toNat).flatMap percent ++ cs) = some (c, cs) := readEscape_utf8
    rw [hrest] at hread
    rw [h, hrest, List.cons_append, decodeChars, if_pos rfl, ← List.cons_append, hread,
      Option.bind_some]

theorem Escapes.decodeChars_flatMap {e : Char → List Char} (he : Escapes e) {s : List Char}
    {fuel : Nat} (h : s.length ≤ fuel) : decodeChars fuel (s.flatMap e) = some s := by
  induction s generalizing fuel with
  | nil => cases fuel <;> rfl
  | cons c s ih =>
    obtain ⟨fuel, rfl⟩ : ∃ k, fuel = k + 1 :=
      Nat.exists_eq_add_one_of_ne_zero (by rintro rfl; simp at h)
    rw [List.flatMap_cons, he.decodeChars_cons, ih (Nat.le_of_succ_le_succ h), Option.map_some]

theorem Escapes.length_le {e : Char → List Char} (he : Escapes e) (s : List Char) :
    s.length ≤ (s.flatMap e).length := by
  induction s with
  | nil => exact Nat.le_refl _
  | cons c s ih =>
    have hc : 1 ≤ (e c).length := by
      obtain ⟨rest, hrest⟩ := utf8_percent c.toNat
      rcases he c with ⟨_, h⟩ | h <;> simp [h, hrest]
    rw [List.flatMap_cons, List.length_append, List.length_cons]
    omega

/-- Decoding undoes every such escaping. -/
theorem Escapes.decode {e : Char → List Char} (he : Escapes e) (s : List Char) :
    decodeURIComponent (String.ofList (s.flatMap e)) = some (String.ofList s) := by
  rw [decodeURIComponent, String.toList_ofList, he.decodeChars_flatMap (he.length_le s),
    Option.map_some]

/-- Decoding undoes encoding. -/
theorem decode_encode (s : String) : decodeURIComponent (encodeURIComponent s) = some s := by
  rw [encodeURIComponent, escapes_encodeChar.decode, String.ofList_toList]

theorem encode_ne_empty {s : String} (h : s ≠ "") : encodeURIComponent s ≠ "" := by
  intro he
  have := decode_encode s
  rw [he] at this
  exact h (Option.some.inj (this.symm.trans rfl))

end

theorem utf8_lt (c : Char) : ∀ b ∈ utf8 c.toNat, b < 256 := by
  have hc := scalar c
  unfold utf8
  split_ifs <;> simp only [List.mem_cons, List.not_mem_nil, or_false] <;> intro b hb <;> omega

/-- An escape has only percent signs and digits in it. -/
theorem mem_percent {b : Nat} (hb : b < 256) {c : Char} (h : c ∈ percent b) :
    c = '%' ∨ ∃ n : Fin 16, c = hexDigit n := by
  simp only [percent, List.mem_cons, List.not_mem_nil, or_false] at h
  rcases h with rfl | rfl | rfl
  · exact .inl rfl
  · exact .inr ⟨⟨b / 16, by omega⟩, rfl⟩
  · exact .inr ⟨⟨b % 16, by omega⟩, rfl⟩

theorem alphanum_range {c : Char} (h : c.isAlphanum = true) : 48 ≤ c.toNat ∧ c.toNat ≤ 122 := by
  delta Char.isAlphanum Char.isAlpha Char.isUpper Char.isLower Char.isDigit at h
  simp only [Bool.or_eq_true, Bool.and_eq_true, decide_eq_true_eq, ge_iff_le,
    UInt32.le_iff_toNat_le] at h
  have : c.toNat = c.val.toNat := rfl
  rw [this]
  rcases h with (h | h) | h <;> obtain ⟨h1, h2⟩ := h <;> simp at h1 h2 <;> omega

end Text
