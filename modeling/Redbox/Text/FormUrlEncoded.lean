import Redbox.Text.UriComponent

/-! Percent encoding by a set of characters, the lossy decoding of UTF-8, and the format
`application/x-www-form-urlencoded` of query strings, with its round trip. -/
namespace Text

/-- UTF-8 percent encoding of the characters in a set. -/
def encodeWith (inSet : Char → Bool) (cs : List Char) : List Char :=
  cs.flatMap fun c => if inSet c then (utf8 c.toNat).flatMap percent else [c]

/-- The set has no character of an escape in it. -/
def Spares (inSet : Char → Bool) : Prop := inSet '%' = false ∧ ∀ n : Fin 16,
      inSet (hexDigit n) = false

theorem encodeWith_eq_self {inSet : Char → Bool} {cs : List Char} (h : ∀ c ∈ cs, inSet c = false) :
    encodeWith inSet cs = cs := by
  induction cs with
  | nil => rfl
  | cons c cs ih =>
    have hc := h c List.mem_cons_self
    rw [encodeWith, List.flatMap_cons, if_neg (by simp [hc])]
    exact congrArg (c :: ·) (ih fun x hx => h x (List.mem_cons_of_mem _ hx))

/-- What is encoded has no character of the set left. -/
theorem encodeWith_clean {inSet : Char → Bool} (hs : Spares inSet) {cs : List Char} :
    ∀ c ∈ encodeWith inSet cs, inSet c = false := by
  intro c hc
  obtain ⟨x, hx, hc⟩ := List.mem_flatMap.mp hc
  split at hc
  · obtain ⟨b, hb, hc⟩ := List.mem_flatMap.mp hc
    rcases mem_percent (utf8_lt x b hb) hc with rfl | ⟨n, rfl⟩
    · exact hs.1
    · exact hs.2 n
  · next hx =>
    obtain rfl := List.mem_singleton.mp hc
    simpa using hx

/-- Cuts a text at the characters that meet a test. -/
def splitWhere (p : Char → Bool) : List Char → List (List Char)
  | [] => [[]]
  | c :: cs =>
    if p c then [] :: splitWhere p cs
    else match splitWhere p cs with
      | [] => [[c]]
      | s :: rest => (c :: s) :: rest

/-- A separator stands between any two pieces. -/
def joinWith (sep : Char) : List (List Char) → List Char
  | [] => []
  | [s] => s
  | s :: rest => s ++ sep :: joinWith sep rest

section
variable {p : Char → Bool}

theorem splitWhere_ne_nil (cs : List Char) : splitWhere p cs ≠ [] := by
  cases cs with
  | nil => exact List.cons_ne_nil _ _
  | cons c cs =>
    rw [splitWhere]
    split
    · exact List.cons_ne_nil _ _
    · split <;> exact List.cons_ne_nil _ _

/-- A piece without separators in front of one. -/
theorem splitWhere_append {s : List Char} (hs : ∀ c ∈ s, p c = false) {sep : Char}
    (hsep : p sep = true) (cs : List Char) :
    splitWhere p (s ++ sep :: cs) = s :: splitWhere p cs := by
  induction s with
  | nil => rw [List.nil_append, splitWhere, if_pos hsep]
  | cons c s ih =>
    rw [List.cons_append, splitWhere, if_neg (by simp [hs c List.mem_cons_self]),
      ih fun x hx => hs x (List.mem_cons_of_mem _ hx)]

theorem splitWhere_single {s : List Char} (hs : ∀ c ∈ s, p c = false) : splitWhere p s = [s] := by
  induction s with
  | nil => rfl
  | cons c s ih =>
    rw [splitWhere, if_neg (by simp [hs c List.mem_cons_self]),
      ih fun x hx => hs x (List.mem_cons_of_mem _ hx)]

theorem splitWhere_joinWith {pieces : List (List Char)} (hne : pieces ≠ [])
    (h : ∀ s ∈ pieces, ∀ c ∈ s, p c = false) {sep : Char} (hsep : p sep = true) :
    splitWhere p (joinWith sep pieces) = pieces := by
  induction pieces with
  | nil => exact absurd rfl hne
  | cons s rest ih =>
    have hs := h s List.mem_cons_self
    cases rest with
    | nil => exact splitWhere_single hs
    | cons t rest =>
      rw [joinWith, splitWhere_append hs hsep,
        ih (List.cons_ne_nil _ _) fun x hx => h x (List.mem_cons_of_mem _ hx)]
      exact List.cons_ne_nil _ _

/-- What is joined ends in its last piece. -/
theorem joinWith_concat (sep : Char) (pieces : List (List Char)) (last : List Char) :
    ∃ front, joinWith sep (pieces ++ [last]) = front ++ last := by
  induction pieces with
  | nil => exact ⟨[], rfl⟩
  | cons s rest ih =>
    obtain ⟨front, hfront⟩ := ih
    obtain ⟨t, more, hmore⟩ := List.exists_cons_of_ne_nil
      (List.append_ne_nil_of_right_ne_nil rest (List.cons_ne_nil last []))
    refine ⟨s ++ sep :: front, ?_⟩
    rw [List.cons_append, hmore, joinWith, ← hmore, hfront, List.append_assoc, List.cons_append]
    exact List.cons_ne_nil _ _

theorem mem_joinWith {sep c : Char} {pieces : List (List Char)} (h : c ∈ joinWith sep pieces) :
    c = sep ∨ ∃ s ∈ pieces, c ∈ s := by
  induction pieces with
  | nil => cases h
  | cons s rest ih =>
    cases rest with
    | nil => exact .inr ⟨s, List.mem_cons_self, h⟩
    | cons t rest =>
      rcases List.mem_append.mp h with h | h
      · exact .inr ⟨s, List.mem_cons_self, h⟩
      · rcases List.mem_cons.mp h with rfl | h
        · exact .inl rfl
        · rcases ih h with rfl | ⟨x, hx, hc⟩
          · exact .inl rfl
          · exact .inr ⟨x, List.mem_cons_of_mem _ hx, hc⟩

/-- No piece has a separator in it, and each of its characters comes from the text. -/
theorem mem_splitWhere {cs s : List Char} (h : s ∈ splitWhere p cs) :
    ∀ c ∈ s, p c = false ∧ c ∈ cs := by
  induction cs generalizing s with
  | nil =>
    obtain rfl := List.mem_singleton.mp h
    exact fun c hc => by cases hc
  | cons x cs ih =>
    have later : ∀ {s}, s ∈ splitWhere p cs → ∀ c ∈ s, p c = false ∧ c ∈ x :: cs :=
      fun hs c hc => ⟨(ih hs c hc).1, List.mem_cons_of_mem _ (ih hs c hc).2⟩
    rw [splitWhere] at h
    split at h
    · rcases List.mem_cons.mp h with rfl | h
      · exact fun c hc => by cases hc
      · exact later h
    · next hx =>
      split at h
      · next hnil => exact absurd hnil (splitWhere_ne_nil cs)
      · next t rest hsplit =>
        rcases List.mem_cons.mp h with rfl | h
        · intro c hc
          rcases List.mem_cons.mp hc with rfl | hc
          · exact ⟨by simpa using hx, List.mem_cons_self⟩
          · exact later (hsplit ▸ List.mem_cons_self) c hc
        · exact later (hsplit ▸ List.mem_cons_of_mem _ h)

end

/-- Two hexadecimal digits, as bytes. -/
def hexByte (a b : Nat) : Option Nat :=
  (hexValue (Char.ofNat a)).bind fun h => (hexValue (Char.ofNat b)).map fun l => 16 * h + l

/-- Percent decoding of bytes. A percent sign without two digits stands for itself. -/
def percentDecode : List Nat → List Nat
  | [] => []
  | [x] => [x]
  | [x, y] => [x, y]
  | x :: a :: b :: rest =>
    if x = 0x25 then
      match hexByte a b with
      | some n => n :: percentDecode rest
      | none => x :: percentDecode (a :: b :: rest)
    else x :: percentDecode (a :: b :: rest)

/-- What a first byte announces: a character, or bytes that follow, in bounds for the next one. -/
inductive Utf8Start where
  | emit (c : Char)
  | more (needed code lower upper : Nat)

def replacement : Char := Char.ofNat 0xFFFD

def utf8Start (b : Nat) : Utf8Start :=
  if b < 0x80 then .emit (Char.ofNat b)
  else if b < 0xC2 then .emit replacement
  else if b < 0xE0 then .more 1 (b - 0xC0) 0x80 0xBF
  else if b < 0xF0 then
    .more 2 (b - 0xE0) (if b = 0xE0 then 0xA0 else 0x80) (if b = 0xED then 0x9F else 0xBF)
  else if b < 0xF5 then
    .more 3 (b - 0xF0) (if b = 0xF0 then 0x90 else 0x80) (if b = 0xF4 then 0x8F else 0xBF)
  else .emit replacement

/-- The bytes still needed, none between characters. A byte out of bounds is read again, after a
replacement for what it cut short. -/
def utf8DecodeFrom : Option (Nat × Nat × Nat × Nat) → List Nat → List Char
  | none, [] => []
  | some _, [] => [replacement]
  | none, b :: rest =>
    match utf8Start b with
    | .emit c => c :: utf8DecodeFrom none rest
    | .more needed code lower upper => utf8DecodeFrom (some (needed, code, lower, upper)) rest
  | some (needed, code, lower, upper), b :: rest =>
    if lower ≤ b ∧ b ≤ upper then
      if needed ≤ 1 then Char.ofNat (64 * code + (b - 0x80)) :: utf8DecodeFrom none rest
      else utf8DecodeFrom (some (needed - 1, 64 * code + (b - 0x80), 0x80, 0xBF)) rest
    else
      replacement :: match utf8Start b with
        | .emit c => c :: utf8DecodeFrom none rest
        | .more needed code lower upper => utf8DecodeFrom (some (needed, code, lower, upper)) rest

def utf8Decode (bytes : List Nat) : List Char := utf8DecodeFrom none bytes

section
variable {b needed code lower upper : Nat} {rest : List Nat}

theorem utf8DecodeFrom_start (h : utf8Start b = .more needed code lower upper) :
    utf8DecodeFrom none (b :: rest) = utf8DecodeFrom (some (needed, code, lower, upper)) rest := by
  rw [utf8DecodeFrom, h]

theorem utf8DecodeFrom_next (h : lower ≤ b ∧ b ≤ upper) (hn : 1 < needed) :
    utf8DecodeFrom (some (needed, code, lower, upper)) (b :: rest) =
      utf8DecodeFrom (some (needed - 1, 64 * code + (b - 0x80), 0x80, 0xBF)) rest := by
  rw [utf8DecodeFrom, if_pos h, if_neg (Nat.not_le.mpr hn)]

theorem utf8DecodeFrom_last (h : lower ≤ b ∧ b ≤ upper) :
    utf8DecodeFrom (some (1, code, lower, upper)) (b :: rest) =
      Char.ofNat (64 * code + (b - 0x80)) :: utf8DecodeFrom none rest := by
  rw [utf8DecodeFrom, if_pos h, if_pos (Nat.le_refl 1)]

end

theorem utf8DecodeFrom_utf8 (c : Char) (rest : List Nat) :
    utf8DecodeFrom none (utf8 c.toNat ++ rest) = c :: utf8DecodeFrom none rest := by
  have hc := scalar c
  have hchar : Char.ofNat c.toNat = c := Char.ofNat_toNat c
  generalize c.toNat = n at hc hchar
  unfold utf8
  split_ifs with h1 h2 h3 <;> simp only [List.cons_append, List.nil_append]
  · rw [utf8DecodeFrom, utf8Start, if_pos h1, hchar]
  · have hstart : utf8Start (0xC0 + n / 64) = .more 1 (0xC0 + n / 64 - 0xC0) 0x80 0xBF := by
      rw [utf8Start, if_neg (by omega), if_neg (by omega), if_pos (by omega)]
    have hn : 64 * (0xC0 + n / 64 - 0xC0) + (0x80 + n % 64 - 0x80) = n := by omega
    rw [utf8DecodeFrom_start hstart, utf8DecodeFrom_last (by omega), hn, hchar]
  · have hstart : utf8Start (0xE0 + n / 4096) = .more 2 (0xE0 + n / 4096 - 0xE0)
        (if 0xE0 + n / 4096 = 0xE0 then 0xA0 else 0x80)
        (if 0xE0 + n / 4096 = 0xED then 0x9F else 0xBF) := by
      rw [utf8Start, if_neg (by omega), if_neg (by omega), if_neg (by omega), if_pos (by omega)]
    have hn : 64 * (64 * (0xE0 + n / 4096 - 0xE0) + (0x80 + n / 64 % 64 - 0x80)) +
        (0x80 + n % 64 - 0x80) = n := by omega
    rw [utf8DecodeFrom_start hstart, utf8DecodeFrom_next ⟨by split <;> omega, by split <;> omega⟩
      (by decide), utf8DecodeFrom_last (by omega), hn, hchar]
  · have hstart : utf8Start (0xF0 + n / 262144) = .more 3 (0xF0 + n / 262144 - 0xF0)
        (if 0xF0 + n / 262144 = 0xF0 then 0x90 else 0x80)
        (if 0xF0 + n / 262144 = 0xF4 then 0x8F else 0xBF) := by
      rw [utf8Start, if_neg (by omega), if_neg (by omega), if_neg (by omega), if_neg (by omega),
        if_pos (by omega)]
    have hn : 64 * (64 * (64 * (0xF0 + n / 262144 - 0xF0) + (0x80 + n / 4096 % 64 - 0x80)) +
        (0x80 + n / 64 % 64 - 0x80)) + (0x80 + n % 64 - 0x80) = n := by omega
    rw [utf8DecodeFrom_start hstart, utf8DecodeFrom_next ⟨by split <;> omega, by split <;> omega⟩
      (by decide), utf8DecodeFrom_next (by omega) (by decide), utf8DecodeFrom_last (by omega), hn,
      hchar]

theorem utf8Decode_encode (cs : List Char) :
    utf8Decode (cs.flatMap fun c => utf8 c.toNat) = cs := by
  rw [utf8Decode]
  induction cs with
  | nil => rfl
  | cons c cs ih => rw [List.flatMap_cons, utf8DecodeFrom_utf8, ih]

/-- The UTF-8 bytes of a text. -/
def toBytes (cs : List Char) : List Nat := cs.flatMap fun c => utf8 c.toNat

def plusToSpace (c : Char) : Char := if c = '+' then ' ' else c

def formDecode (cs : List Char) : List Char :=
  utf8Decode (percentDecode (toBytes (cs.map plusToSpace)))

/-- The characters that stand for themselves. -/
def formSafe (c : Char) : Bool := c.isAlphanum || "*-._".toList.contains c

def formEncodeChar (c : Char) : List Char :=
  if c = ' ' then ['+'] else if formSafe c then [c] else (utf8 c.toNat).flatMap percent

def formEncode (cs : List Char) : List Char := cs.flatMap formEncodeChar

abbrev Params := List (List Char × List Char)

def parsePair (piece : List Char) : List Char × List Char :=
  (formDecode (piece.takeWhile (· != '=')), formDecode ((piece.dropWhile (· != '=')).drop 1))

def parseParams (query : List Char) : Params :=
  ((splitWhere (· == '&') query).filter fun piece => !piece.isEmpty).map parsePair

def serializePair (pair : List Char × List Char) : List Char :=
  formEncode pair.1 ++ '=' :: formEncode pair.2

def serializeParams (params : Params) : List Char := joinWith '&' (params.map serializePair)

namespace Params

/-- The value of the first pair with a name. -/
def get (params : Params) (name : List Char) : Option (List Char) :=
  (params.find? fun pair => pair.1 == name).map Prod.snd

def delete (params : Params) (name : List Char) : Params :=
  params.filter fun pair => pair.1 != name

theorem get_delete {name other : List Char} (h : name ≠ other) (params : Params) :
    (params.delete other).get name = params.get name := by
  rw [get, get, delete, List.find?_filter]
  congr 2
  funext pair
  by_cases hn : pair.1 = name
  · simp [hn, h]
  · simp [hn]

theorem get_delete_self (name : List Char) (params : Params) :
    (params.delete name).get name = none := by
  rw [get, delete, Option.map_eq_none_iff, List.find?_eq_none]
  intro pair hpair
  have := (List.mem_filter.mp hpair).2
  simpa using this

end Params

section
variable {rest : List Nat}

theorem percentDecode_cons {x : Nat} (h : x ≠ 0x25) (rest : List Nat) :
    percentDecode (x :: rest) = x :: percentDecode rest := by
  match rest with
  | [] => rfl
  | [y] => rfl
  | a :: b :: rest => rw [percentDecode, if_neg h]

theorem hexByte_hexDigit {n m : Nat} (hn : n < 16) (hm : m < 16) :
    hexByte (hexDigit n).toNat (hexDigit m).toNat = some (16 * n + m) := by
  rw [hexByte, Char.ofNat_toNat, Char.ofNat_toNat, hexValue_hexDigit hn, hexValue_hexDigit hm]
  rfl

theorem utf8_ascii {c : Char} (h : c.toNat < 0x80) : utf8 c.toNat = [c.toNat] := by
  rw [utf8, if_pos h]

theorem hexDigit_ascii {n : Nat} (h : n < 16) : (hexDigit n).toNat < 0x80 := by
  have all : ∀ n : Fin 16, (hexDigit n).toNat < 0x80 := by decide
  exact all ⟨n, h⟩

theorem percentDecode_percent {b : Nat} (h : b < 256) :
    percentDecode (toBytes (percent b) ++ rest) = b :: percentDecode rest := by
  have hbytes : toBytes (percent b) = [0x25, (hexDigit (b / 16)).toNat,
    (hexDigit (b % 16)).toNat] := by
    rw [toBytes, percent, List.flatMap_cons, List.flatMap_cons, List.flatMap_cons, List.flatMap_nil,
      utf8_ascii (hexDigit_ascii (n := b / 16) (by omega)),
      utf8_ascii (hexDigit_ascii (n := b % 16) (by omega))]
    rfl
  have hb : 16 * (b / 16) + b % 16 = b := by omega
  rw [hbytes]
  simp only [List.cons_append, List.nil_append]
  rw [percentDecode, if_pos rfl, hexByte_hexDigit (by omega) (by omega), hb]

theorem percentDecode_percents {bs : List Nat} (h : ∀ b ∈ bs, b < 256) :
    percentDecode (toBytes (bs.flatMap percent) ++ rest) = bs ++ percentDecode rest := by
  induction bs with
  | nil => rfl
  | cons b bs ih =>
    have hsplit : toBytes ((b :: bs).flatMap percent) = toBytes (percent b) ++
        toBytes (bs.flatMap percent) := by
      rw [toBytes, List.flatMap_cons, List.flatMap_append]
      rfl
    rw [hsplit, List.append_assoc, percentDecode_percent (h b List.mem_cons_self),
      ih fun x hx => h x (List.mem_cons_of_mem _ hx), List.cons_append]

end

theorem isAlphanum_hexDigit : ∀ n : Fin 16, (hexDigit n).isAlphanum = true := by decide

/-- The characters of an encoded text. -/
def formChar (c : Char) : Bool := c == '+' || c == '%' || formSafe c

theorem formChar_percent {b : Nat} (hb : b < 256) : ∀ c ∈ percent b, formChar c = true := by
  intro c hc
  rcases mem_percent hb hc with rfl | ⟨n, rfl⟩
  · rfl
  · simp [formChar, formSafe, isAlphanum_hexDigit n]

theorem formChar_formEncode {cs : List Char} : ∀ c ∈ formEncode cs, formChar c = true := by
  intro c hc
  obtain ⟨x, -, hc⟩ := List.mem_flatMap.mp hc
  unfold formEncodeChar at hc
  split at hc
  · obtain rfl := List.mem_singleton.mp hc
    rfl
  · split at hc
    · next hs =>
      obtain rfl := List.mem_singleton.mp hc
      simp [formChar, hs]
    · obtain ⟨b, hb, hc⟩ := List.mem_flatMap.mp hc
      exact formChar_percent (utf8_lt x b hb) c hc

theorem formSafe_ascii {c : Char} (h : formSafe c = true) : 0x20 < c.toNat ∧ c.toNat ≤ 0x7E := by
  rcases Bool.or_eq_true _ _ ▸ h with h | h
  · have := alphanum_range h
    omega
  · have hall : "*-._".toList.all fun c => 0x20 < c.toNat ∧ c.toNat ≤ 0x7E := by decide
    exact of_decide_eq_true (List.all_eq_true.mp hall c (List.contains_iff_mem.mp h))

theorem formChar_ascii {c : Char} (h : formChar c = true) : 0x20 < c.toNat ∧ c.toNat ≤ 0x7E := by
  rcases Bool.or_eq_true _ _ ▸ h with h | h
  · rcases Bool.or_eq_true _ _ ▸ h with h | h <;> obtain rfl := eq_of_beq h <;> decide
  · exact formSafe_ascii h

section
variable {rest : List Nat}

theorem plusToSpace_percent {b : Nat} (hb : b < 256) :
    (percent b).map plusToSpace = percent b := by
  have hdigit : ∀ n : Fin 16, plusToSpace (hexDigit n) = hexDigit n := by decide
  have h1 := hdigit ⟨b / 16, by omega⟩
  have h2 := hdigit ⟨b % 16, by omega⟩
  simp only [percent, List.map_cons, List.map_nil, h1, h2]
  rfl

theorem plusToSpace_percents {bs : List Nat} (h : ∀ b ∈ bs, b < 256) :
    (bs.flatMap percent).map plusToSpace = bs.flatMap percent := by
  induction bs with
  | nil => rfl
  | cons b bs ih =>
    rw [List.flatMap_cons, List.map_append, plusToSpace_percent (h b List.mem_cons_self),
      ih fun x hx => h x (List.mem_cons_of_mem _ hx)]

theorem toBytes_append (cs ds : List Char) : toBytes (cs ++ ds) = toBytes cs ++ toBytes ds :=
  List.flatMap_append

/-- One encoded character is decoded to its bytes. -/
theorem percentDecode_formEncodeChar (c : Char) :
    percentDecode (toBytes ((formEncodeChar c).map plusToSpace) ++ rest) =
      utf8 c.toNat ++ percentDecode rest := by
  unfold formEncodeChar
  split
  · next h =>
    subst h
    exact percentDecode_cons (by decide) rest
  · split
    · next hs =>
      have hascii : c.toNat < 0x80 := Nat.lt_succ_of_le (Nat.le_succ_of_le (formSafe_ascii hs).2)
      have hplus : plusToSpace c = c := by
        refine if_neg ?_
        rintro rfl
        exact absurd hs (by decide)
      have hpercent : c.toNat ≠ 0x25 := by
        intro h
        obtain rfl : c = '%' := Char.toNat_inj.mp h
        exact absurd hs (by decide)
      rw [List.map_singleton, hplus, toBytes, List.flatMap_singleton, utf8_ascii hascii]
      exact percentDecode_cons hpercent rest
    · rw [plusToSpace_percents (utf8_lt c), percentDecode_percents (utf8_lt c)]

theorem percentDecode_formEncode (cs : List Char) :
    percentDecode (toBytes ((formEncode cs).map plusToSpace)) = toBytes cs := by
  induction cs with
  | nil => rfl
  | cons c cs ih =>
    rw [formEncode, List.flatMap_cons, List.map_append, toBytes_append,
      percentDecode_formEncodeChar]
    exact congrArg (utf8 c.toNat ++ ·) ih

end

theorem formDecode_formEncode (cs : List Char) : formDecode (formEncode cs) = cs := by
  rw [formDecode, percentDecode_formEncode]
  exact utf8Decode_encode cs

theorem formEncode_eq_self {cs : List Char} (h : ∀ c ∈ cs, formSafe c = true) :
    formEncode cs = cs := by
  induction cs with
  | nil => rfl
  | cons c cs ih =>
    have hsafe := h c List.mem_cons_self
    have hspace : c ≠ ' ' := by
      rintro rfl
      exact absurd hsafe (by decide)
    rw [formEncode, List.flatMap_cons, formEncodeChar, if_neg hspace, if_pos hsafe]
    exact congrArg (c :: ·) (ih fun x hx => h x (List.mem_cons_of_mem _ hx))

theorem formEncode_ne {c : Char} (h : formChar c = false) (cs : List Char) : c ∉ formEncode cs := by
  intro hc
  rw [formChar_formEncode c hc] at h
  cases h

theorem parsePair_serializePair (pair : List Char × List Char) :
    parsePair (serializePair pair) = pair := by
  obtain ⟨name, value⟩ := pair
  have hname : ∀ c ∈ formEncode name, (c != '=') = true := by
    intro c hc
    refine bne_iff_ne.mpr ?_
    rintro rfl
    exact formEncode_ne (by decide) name hc
  have htake : (formEncode name ++ '=' :: formEncode value).takeWhile (· != '=') =
      formEncode name := by
    rw [List.takeWhile_append_of_pos hname]
    simp
  have hdrop : (formEncode name ++ '=' :: formEncode value).dropWhile (· != '=') =
      '=' :: formEncode value := by
    rw [List.dropWhile_append_of_pos hname]
    simp
  rw [parsePair, serializePair, htake, hdrop, List.drop_one, List.tail_cons, formDecode_formEncode,
    formDecode_formEncode]

/-- Reading a serialised list gives the list back. -/
theorem parseParams_serializeParams (params : Params) :
    parseParams (serializeParams params) = params := by
  cases params with
  | nil => rfl
  | cons pair params =>
    have hclean : ∀ s ∈ (pair :: params).map serializePair, ∀ c ∈ s, (c == '&') = false := by
      intro s hs c hc
      obtain ⟨p, -, rfl⟩ := List.mem_map.mp hs
      refine beq_eq_false_iff_ne.mpr ?_
      rintro rfl
      rcases List.mem_append.mp hc with hc | hc
      · exact formEncode_ne (by decide) p.1 hc
      · rcases List.mem_cons.mp hc with hc | hc
        · cases hc
        · exact formEncode_ne (by decide) p.2 hc
    have hne : (pair :: params).map serializePair ≠ [] := List.cons_ne_nil _ _
    rw [parseParams, serializeParams, splitWhere_joinWith hne hclean rfl]
    have hkeep : ((pair :: params).map serializePair).filter (fun piece => !piece.isEmpty) =
        (pair :: params).map serializePair := by
      refine List.filter_eq_self.mpr fun s hs => ?_
      obtain ⟨p, -, rfl⟩ := List.mem_map.mp hs
      simp [serializePair]
    rw [hkeep, List.map_map]
    refine (List.map_congr_left fun p _ => ?_).trans (List.map_id _)
    exact parsePair_serializePair p

/-- The characters of a serialised list. -/
theorem mem_serializeParams {params : Params} :
    ∀ c ∈ serializeParams params, formChar c = true ∨ c = '=' ∨ c = '&' := by
  intro c hc
  rcases mem_joinWith hc with rfl | ⟨s, hs, hc⟩
  · exact .inr (.inr rfl)
  · obtain ⟨pair, -, rfl⟩ := List.mem_map.mp hs
    rcases List.mem_append.mp hc with hc | hc
    · exact .inl (formChar_formEncode c hc)
    · rcases List.mem_cons.mp hc with rfl | hc
      · exact .inr (.inl rfl)
      · exact .inl (formChar_formEncode c hc)

end Text
