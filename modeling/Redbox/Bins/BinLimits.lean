import Redbox.Bins.BinCrypto
import Mathlib.Data.Nat.Digits.Defs

/-! The limits on bins: code units of UTF-16 in the editor, bytes of UTF-8 in the size,
characters of base64 in the content, bytes of JSON in the request. -/
namespace Redbox
open Bytes (ByteString Utf8.encode Utf8.width)

namespace JsString

def isSpace (u : UInt16) : Bool := Text.isSpace (Char.ofNat u.toNat)

def trim (s : JsString) : JsString := ((s.dropWhile isSpace).reverse.dropWhile isSpace).reverse

/-- What the text takes in UTF-8. -/
def byteLength (s : JsString) : Nat := (s.codePoints.map Utf8.width).sum

end JsString

namespace Json

/-- `\u` and four digits. -/
def unicodeEscape (c : Nat) : List Nat :=
  [0x5C, 0x75] ++ [c / 4096 % 16, c / 256 % 16, c / 16 % 16, c % 16].map fun d =>
    (Nat.digitChar d).toNat

/-- Quotes, backslashes, control characters and lone surrogates are escaped. -/
def quote (c : Nat) : List Nat :=
  match c with
  | 0x22 => [0x5C, 0x22]
  | 0x5C => [0x5C, 0x5C]
  | 0x08 => [0x5C, 0x62]
  | 0x09 => [0x5C, 0x74]
  | 0x0A => [0x5C, 0x6E]
  | 0x0C => [0x5C, 0x66]
  | 0x0D => [0x5C, 0x72]
  | c => if c < 0x20 ∨ (0xD800 ≤ c ∧ c ≤ 0xDFFF) then unicodeEscape c else [c]

inductive Value where
  | string (s : JsString)
  | number (n : Nat)

def string (s : JsString) : List Nat := 0x22 :: (s.codePoints.flatMap quote ++ [0x22])

def value : Value → List Nat
  | .string s => string s
  | .number n => (Nat.toDigits 10 n).map Char.toNat

def member (field : String × Value) : List Nat :=
  string (JsString.ascii field.1) ++ 0x3A :: value field.2

/-- The code points that `JSON.stringify` writes for an object. -/
def stringify (fields : List (String × Value)) : List Nat :=
  0x7B :: ([0x2C].intercalate (fields.map member) ++ [0x7D])

end Json

/-- What stands in the editor when it is submitted. -/
structure BinForm where
  title : JsString
  content : JsString
  password : JsString
  expiresIn : String

def binExpiryOptions : List String := ["1h", "24h", "7d", "30d", "never"]

/-- The editor lets such a form be submitted. -/
structure BinForm.Accepted (form : BinForm) : Prop where
  title : form.title.length ≤ 100
  content : form.content.length ≤ 2000000
  not_blank : form.content.trim ≠ []
  password : form.password.length ≤ 100
  expiresIn : form.expiresIn ∈ binExpiryOptions

structure CreateBinRequest where
  content : JsString
  size : Nat
  title : Option JsString
  password : Option JsString
  expiresIn : JsString
  binKey : JsString

/-- `value || undefined` -/
def orUndefined (s : JsString) : Option JsString := if s = [] then none else some s

/-- A text of ASCII characters, such as `btoa` returns. -/
def JsString.ofAscii (cs : List Char) : JsString := cs.map fun c => c.toNat.toUInt16

def handleSave (ciphers : BinCrypto.Ciphers) (iv : ByteString) (cryptoKey : CryptoKey)
    (form : BinForm) : CreateBinRequest :=
  { content := .ofAscii (BinCrypto.encryptText ciphers iv cryptoKey form.content)
    size := (TextEncoder.encode form.content).length
    title := orUndefined form.title.trim
    password := orUndefined form.password
    expiresIn := .ascii form.expiresIn
    binKey := BinCrypto.bytesToHex cryptoKey.raw }

namespace CreateBinRequest

/-- A field that is undefined is not written. -/
def fields (request : CreateBinRequest) : List (String × Json.Value) :=
  [("content", .string request.content), ("size", .number request.size)] ++
    request.title.toList.map (fun t => ("title", .string t)) ++
    request.password.toList.map (fun p => ("password", .string p)) ++
    [("expiresIn", .string request.expiresIn), ("binKey", .string request.binKey)]

def body (request : CreateBinRequest) : ByteString := Utf8.encode (Json.stringify request.fields)

/-- `json({ limit: '3mb' })` -/
def bodyLimit : Nat := 3 * 1024 * 1024

/-- `CreateBinDto.content`; base64 has no surrogates, so characters are code units. -/
def contentFits (request : CreateBinRequest) : Prop :=
  request.content ≠ [] ∧ request.content.length ≤ 3000000

/-- `CreateBinDto.size` -/
def sizeFits (request : CreateBinRequest) : Prop := 1 ≤ request.size ∧ request.size ≤ 3000000

def bodyFits (request : CreateBinRequest) : Prop := request.body.length ≤ bodyLimit

/-- The server's limits let the request through. -/
def Fits (request : CreateBinRequest) : Prop := request.contentFits ∧ request.sizeFits ∧
    request.bodyFits

end CreateBinRequest

namespace JsString

theorem length_encode (s : JsString) : (TextEncoder.encode s).length = s.byteLength := by
  rw [TextEncoder.encode, Bytes.Utf8.length_encode, List.map_map, byteLength]
  congr 1
  apply List.map_congr_left
  intro c hc
  have hlt := codePoints_lt hc
  rw [Function.comp, scalarValue]
  split
  · rfl
  · rename_i hscalar
    rw [isScalar, Bool.or_eq_true, Bool.and_eq_true, decide_eq_true_eq, decide_eq_true_eq,
      decide_eq_true_eq] at hscalar
    have hwidth : Utf8.width 0xFFFD = 3 := rfl
    rw [hwidth, Utf8.width, if_neg (by omega), if_neg (by omega), if_pos (by omega)]

theorem byteLength_pos {s : JsString} (h : s ≠ []) : 1 ≤ s.byteLength := by
  have hunits := units_codePoints s
  cases hcs : s.codePoints with
  | nil =>
    rw [hcs] at hunits
    exact absurd hunits.symm h
  | cons c cs =>
    have hwidth := Bytes.Utf8.width_pos c
    rw [byteLength, hcs, List.map_cons, List.sum_cons]
    omega

theorem codePoints_ofAscii {cs : List Char} (h : ∀ c ∈ cs, c.toNat < 0x80) :
    (ofAscii cs).codePoints = cs.map Char.toNat := by
  have hunits : ofAscii cs = (cs.map Char.toNat).flatMap units := by
    rw [List.flatMap_map, ofAscii, ← List.flatMap_singleton' (cs.map _), List.flatMap_map]
    apply List.flatMap_congr
    intro c hc
    rw [units, if_pos (Nat.lt_trans (h c hc) (by decide))]
  rw [hunits]
  apply codePoints_units
  intro n hn
  obtain ⟨c, hc, rfl⟩ := List.mem_map.mp hn
  have hlt := h c hc
  rw [isScalar, Bool.or_eq_true, decide_eq_true_eq]
  exact .inl (by omega)

theorem length_trim_le (s : JsString) : s.trim.length ≤ s.length := by
  rw [trim, List.length_reverse]
  apply Nat.le_trans (List.dropWhile_suffix _).length_le
  rw [List.length_reverse]
  exact (List.dropWhile_suffix _).length_le

end JsString

namespace Json
variable {c n : Nat} {s : JsString}

theorem value_string (s : JsString) : value (.string s) = string s := rfl

theorem value_number (n : Nat) : value (.number n) = (Nat.toDigits 10 n).map Char.toNat := rfl

/-- Bytes of UTF-8. -/
def weight (cs : List Nat) : Nat := (cs.map Utf8.width).sum

theorem weight_append (cs ds : List Nat) : weight (cs ++ ds) = weight cs + weight ds := by
  rw [weight, List.map_append, List.sum_append]
  rfl

theorem weight_cons (c : Nat) (cs : List Nat) : weight (c :: cs) = Utf8.width c + weight cs := by
  rw [weight, List.map_cons, List.sum_cons]
  rfl

theorem width_le (c : Nat) : Utf8.width c ≤ 4 := by
  unfold Utf8.width
  split
  · decide
  · split
    · decide
    · split <;> decide

theorem width_digitChar : ∀ d, d < 16 → Utf8.width (Nat.digitChar d).toNat = 1 := by decide

theorem weight_unicodeEscape (c : Nat) : weight (unicodeEscape c) = 6 := by
  have h1 := width_digitChar (c / 4096 % 16) (by omega)
  have h2 := width_digitChar (c / 256 % 16) (by omega)
  have h3 := width_digitChar (c / 16 % 16) (by omega)
  have h4 := width_digitChar (c % 16) (by omega)
  simp only [unicodeEscape, List.map_cons, List.map_nil, List.cons_append, List.nil_append,
    weight_cons, h1, h2, h3, h4]
  rfl

theorem weight_quote (c : Nat) : weight (quote c) ≤ 6 := by
  unfold quote
  split
  all_goals try decide
  split
  · rw [weight_unicodeEscape]
  · have hle := width_le c
    rw [weight_cons]
    exact Nat.le_trans hle (by decide)

/-- Escaping makes at most six bytes of a code unit. -/
theorem weight_string_le (s : JsString) : weight (string s) ≤ 6 * s.length + 2 := by
  have hquoted : ∀ cs : List Nat, weight (cs.flatMap quote) ≤ 6 *
      (cs.flatMap JsString.units).length := by
    intro cs
    induction cs with
    | nil => exact Nat.le_refl 0
    | cons c cs ih =>
      have hquote := weight_quote c
      have hunits := (JsString.length_units c).1
      rw [List.flatMap_cons, List.flatMap_cons, weight_append, List.length_append]
      omega
  have hle := hquoted s.codePoints
  have hend : Utf8.width 0x22 = 1 ∧ weight [0x22] = 1 := ⟨rfl, rfl⟩
  rw [JsString.length_codePoints] at hle
  rw [string, weight_cons, weight_append]
  omega

/-- Such characters stand for themselves in a string. -/
def plain (c : Nat) : Bool := decide (0x20 ≤ c) && decide (c < 0x80) && c != 0x22 && c != 0x5C

theorem quote_plain (h : plain c = true) : quote c = [c] := by
  simp only [plain, Bool.and_eq_true, decide_eq_true_eq, bne_iff_ne] at h
  unfold quote
  split
  all_goals try omega
  rw [if_neg (by omega)]

theorem weight_string_plain (h : ∀ c ∈ s.codePoints, plain c = true) :
    weight (string s) = s.codePoints.length + 2 := by
  have hquoted : ∀ cs : List Nat, (∀ c ∈ cs, plain c = true) →
      weight (cs.flatMap quote) = cs.length := by
    intro cs hcs
    induction cs with
    | nil => rfl
    | cons c cs ih =>
      have hc := hcs c List.mem_cons_self
      have hwidth : Utf8.width c = 1 := by
        simp only [plain, Bool.and_eq_true, decide_eq_true_eq] at hc
        rw [Utf8.width, if_pos hc.1.1.2]
      rw [List.flatMap_cons, quote_plain hc, weight_append, weight_cons, hwidth,
        ih fun d hd => hcs d (List.mem_cons_of_mem _ hd),
        List.length_cons]
      exact Nat.add_comm _ _
  have hend : Utf8.width 0x22 = 1 ∧ weight [0x22] = 1 := ⟨rfl, rfl⟩
  rw [string, weight_cons, weight_append, hquoted s.codePoints h]
  omega

theorem weight_number (h : n < 10 ^ 7) : weight (value (.number n)) ≤ 7 := by
  have hlength := Nat.toDigits_length 10 n 7 (by decide) h
  have hdigits : ∀ cs : List Char, (∀ c ∈ cs, c.isDigit = true) →
      weight (cs.map Char.toNat) = cs.length := by
    intro cs hcs
    induction cs with
    | nil => rfl
    | cons c cs ih =>
      have hc : c.toNat ≤ 57 := by
        have hdigit := hcs c List.mem_cons_self
        simp only [Char.isDigit, Bool.and_eq_true, decide_eq_true_eq] at hdigit
        exact hdigit.2
      rw [List.map_cons, weight_cons, Utf8.width, if_pos (by omega),
        ih fun d hd => hcs d (List.mem_cons_of_mem _ hd), List.length_cons]
      exact Nat.add_comm _ _
  rw [value, hdigits _ fun c hc => Nat.isDigit_of_mem_toDigits (by decide) (by decide) hc]
  exact hlength

theorem weight_intercalate_le (ls : List (List Nat)) :
    weight ([0x2C].intercalate ls) ≤ (ls.map fun l => weight l + 1).sum := by
  have hcomma : weight [0x2C] = 1 := rfl
  induction ls with
  | nil => exact Nat.le_refl 0
  | cons l ls ih =>
    cases ls with
    | nil =>
      rw [List.intercalate_singleton, List.map_singleton, List.sum_singleton]
      omega
    | cons m ls =>
      rw [List.intercalate_cons_cons, weight_append, weight_append, List.map_cons, List.sum_cons]
      omega

theorem weight_stringify_le (fields : List (String × Value)) :
    weight (stringify fields) ≤ (fields.map fun f => weight (member f) + 1).sum + 2 := by
  have hle := weight_intercalate_le (fields.map member)
  have hends : Utf8.width 0x7B = 1 ∧ weight [0x7D] = 1 := ⟨rfl, rfl⟩
  rw [List.map_map] at hle
  rw [stringify, weight_cons, weight_append]
  have hmap : (fields.map ((fun l => weight l + 1) ∘ member)) = fields.map fun f =>
      weight (member f) + 1 := rfl
  rw [hmap] at hle
  omega

end Json
/-- Base64 goes into a request as it is. -/
theorem plain_digit : ∀ n, n < 64 → Json.plain (Bytes.Base64.digit n).toNat = true := by
  decide +kernel

theorem plain_btoa {bytes : ByteString} :
    ∀ c ∈ Bytes.Base64.btoa bytes, Json.plain c.toNat = true := by
  intro c hc
  rw [Bytes.Base64.btoa_eq] at hc
  rcases List.mem_append.mp hc with hc | hc
  · obtain ⟨n, hn, rfl⟩ := List.mem_map.mp hc
    exact plain_digit n (Bytes.Base64.sextets_lt n hn)
  · rw [List.eq_of_mem_replicate hc]
    rfl

section
variable {ciphers : BinCrypto.Ciphers} {iv : ByteString} {key : CryptoKey} {form : BinForm}

theorem length_encryptText (hiv : iv.length = BinCrypto.ivLen) (s : JsString) :
    (BinCrypto.encryptText ciphers iv key s).length = (s.byteLength + 30) / 3 * 4 := by
  have hcipher := (ciphers key).length_encrypt (BinCrypto.sealing iv s)
  have hplaintext : (BinCrypto.sealing iv s).plaintext.length = s.byteLength := s.length_encode
  rw [BinCrypto.encryptText, Bytes.Base64.length_btoa, List.length_append, hiv, hcipher, hplaintext,
    BinCrypto.ivLen, BinCrypto.tagLen]
  congr 2
  omega

theorem length_bytesToHex (bytes : ByteString) :
    (BinCrypto.bytesToHex bytes).length = 2 * bytes.length := by
  induction bytes with
  | nil => rfl
  | cons b bytes ih =>
    have hpair := (BinCrypto.hexPair_read b.toNat b.toNat_lt).1
    have hbytes : BinCrypto.bytesToHex (b :: bytes) = BinCrypto.hexPair b.toNat ++
        BinCrypto.bytesToHex bytes := rfl
    rw [hbytes, List.length_append, hpair, ih, List.length_cons]
    omega

theorem weight_content (ciphers : BinCrypto.Ciphers) (iv : ByteString) (key : CryptoKey)
    (form : BinForm) : Json.weight (Json.string (handleSave ciphers iv key form).content) =
    (handleSave ciphers iv key form).content.length + 2 := by
  have hplain : ∀ c ∈ BinCrypto.encryptText ciphers iv key form.content,
      Json.plain c.toNat = true := plain_btoa
  have hcodes : (handleSave ciphers iv key form).content.codePoints =
      (BinCrypto.encryptText ciphers iv key form.content).map Char.toNat := by
    apply JsString.codePoints_ofAscii
    intro c hc
    have hc := hplain c hc
    simp only [Json.plain, Bool.and_eq_true, decide_eq_true_eq] at hc
    exact hc.1.1.2
  have hlength : (handleSave ciphers iv key form).content.length =
      (BinCrypto.encryptText ciphers iv key form.content).length :=
    List.length_map _
  rw [Json.weight_string_plain, hcodes, List.length_map, hlength]
  rw [hcodes]
  intro n hn
  obtain ⟨c, hc, rfl⟩ := List.mem_map.mp hn
  exact hplain c hc

/-- An optional field takes little room. -/
theorem weight_optional (name : String) {s : JsString} {k : Nat}
    (hname : Json.weight (Json.string (JsString.ascii name)) ≤ 20) (hs : s.length ≤ k) :
    (((orUndefined s).toList.map fun t => (name, Json.Value.string t)).map fun f =>
      Json.weight (Json.member f) + 1).sum ≤ 6 * k + 24 := by
  unfold orUndefined
  split
  · exact Nat.zero_le _
  · have hweight := Json.weight_string_le s
    have hcolon : Utf8.width 0x3A = 1 := rfl
    simp only [Option.toList_some, List.map_cons, List.map_nil, List.sum_cons, List.sum_nil,
      Json.member, Json.weight_append,
      Json.weight_cons, hcolon, Json.value]
    omega

/-- Everything but the content takes less than two thousand bytes. -/
theorem length_body_le (ciphers : BinCrypto.Ciphers) (iv : ByteString) (key : CryptoKey)
    (hform : form.Accepted) (hsize : form.content.byteLength < 10 ^ 7) :
    (handleSave ciphers iv key form).body.length ≤ (handleSave ciphers iv key form).content.length +
      2000 := by
  have hcontent := weight_content ciphers iv key form
  have hnumber := Json.weight_number (n := (TextEncoder.encode form.content).length) (by
    rw [JsString.length_encode]; exact hsize)
  have htitle := weight_optional "title" (by
    decide) (Nat.le_trans form.title.length_trim_le hform.title)
  have hpassword := weight_optional "password" (by decide) hform.password
  have hexpires : (JsString.ascii form.expiresIn).length ≤ 5 := by
    have hoptions : ∀ o ∈ binExpiryOptions, (JsString.ascii o).length ≤ 5 := by decide
    exact hoptions _ hform.expiresIn
  have hexpires' := Json.weight_string_le (JsString.ascii form.expiresIn)
  have hkey : (BinCrypto.bytesToHex key.raw).length ≤ 64 := by
    have hsized : ∀ n ∈ [16, 24, 32], 2 * n ≤ 64 := by decide
    rw [length_bytesToHex]
    exact hsized _ key.sized
  have hkey' := Json.weight_string_le (BinCrypto.bytesToHex key.raw)
  have hnames : Json.weight (Json.string (JsString.ascii "content")) = 9 ∧
    Json.weight (Json.string (JsString.ascii "size")) = 6 ∧
      Json.weight (Json.string (JsString.ascii "expiresIn")) = 11 ∧
        Json.weight (Json.string (JsString.ascii "binKey")) = 8 ∧
      Utf8.width 0x3A = 1 := by
    decide
  have hbody := Json.weight_stringify_le (handleSave ciphers iv key form).fields
  have hlength : (handleSave ciphers iv key form).body.length =
      Json.weight (Json.stringify (handleSave ciphers iv key form).fields) :=
    Bytes.Utf8.length_encode _
  obtain ⟨h1, h2, h3, h4, h5⟩ := hnames
  have hrequest : (handleSave ciphers iv key form).fields =
      [("content", .string (handleSave ciphers iv key form).content),
        ("size", .number (TextEncoder.encode form.content).length)] ++
        (orUndefined form.title.trim).toList.map (fun t => ("title", .string t)) ++
        (orUndefined form.password).toList.map (fun p => ("password", .string p)) ++
        [("expiresIn", .string (JsString.ascii form.expiresIn)),
          ("binKey", .string (BinCrypto.bytesToHex key.raw))] := rfl
  rw [hlength]
  apply Nat.le_trans hbody
  simp only [Json.value_number] at hnumber
  simp only [hrequest, List.map_append, List.sum_append, List.map_cons, List.map_nil, List.sum_cons,
    List.sum_nil,
    Json.member, Json.value_string, Json.value_number, Json.weight_append, Json.weight_cons, h1,
      h2, h3, h4, h5]
  simp only [Json.member, Json.weight_append, Json.weight_cons, h5] at htitle hpassword
  omega

/-- The server takes what the editor accepts exactly when the text has at most 2,249,972 bytes of
UTF-8. -/
theorem editor_texts_fit_iff (ciphers : BinCrypto.Ciphers) (iv : ByteString) (key : CryptoKey)
    (form : BinForm) (hform : form.Accepted) (hiv : iv.length = BinCrypto.ivLen) :
    (handleSave ciphers iv key form).Fits ↔ form.content.byteLength ≤ 2249972 := by
  have hcontent : (handleSave ciphers iv key form).content.length =
      (form.content.byteLength + 30) / 3 * 4 :=
    (List.length_map _).trans (length_encryptText hiv form.content)
  have hsize : (handleSave ciphers iv key form).size = form.content.byteLength :=
    form.content.length_encode
  constructor
  · rintro ⟨⟨-, hfits⟩, -, -⟩
    omega
  · intro hle
    have hnonempty : form.content ≠ [] := by
      intro hnil
      exact hform.not_blank (by rw [hnil]; rfl)
    have hpos := JsString.byteLength_pos hnonempty
    have hbody := length_body_le ciphers iv key hform (by omega)
    refine ⟨⟨?_, ?_⟩, ⟨?_, ?_⟩, ?_⟩
    · apply List.ne_nil_of_length_pos
      omega
    · omega
    · omega
    · omega
    · rw [CreateBinRequest.bodyFits, CreateBinRequest.bodyLimit]
      omega

/-- Two million characters of three bytes, the most that the editor takes. -/
def longForm : BinForm := ⟨[], List.replicate 2000000 0x4E00, [], "30d"⟩

theorem longForm_accepted : longForm.Accepted where
  title := Nat.zero_le _
  content := Nat.le_of_eq List.length_replicate
  not_blank := by
    have htrim : ∀ n, (List.replicate n (0x4E00 : UInt16)).dropWhile JsString.isSpace =
        List.replicate n 0x4E00 := by
      intro n
      rw [List.dropWhile_replicate, if_neg (by decide)]
    intro h
    rw [JsString.trim, longForm, htrim, List.reverse_replicate, htrim, List.reverse_replicate] at h
    exact absurd (List.replicate_eq_nil_iff _ |>.mp h) (by decide)
  password := Nat.zero_le _
  expiresIn := by decide

theorem byteLength_longForm : longForm.content.byteLength = 6000000 := by
  have hunits : ∀ n, List.replicate n (0x4E00 : UInt16) = (List.replicate n 0x4E00).flatMap
      JsString.units := by
    intro n
    induction n with
    | zero => rfl
    | succ n ih =>
      rw [List.replicate_succ, List.replicate_succ, List.flatMap_cons, ← ih]
      rfl
  have hscalar : ∀ c ∈ List.replicate 2000000 0x4E00, JsString.isScalar c = true := by
    intro c hc
    rw [List.eq_of_mem_replicate hc]
    rfl
  rw [JsString.byteLength, longForm, hunits, JsString.codePoints_units hscalar, List.map_replicate,
    List.sum_replicate_nat]
  rfl

/-- The editor accepts a text that the server refuses. -/
theorem long_text_refused : ¬ ∀ (ciphers : BinCrypto.Ciphers) (iv : ByteString) (key :
      CryptoKey) (form : BinForm),
    form.Accepted → iv.length = BinCrypto.ivLen → (handleSave ciphers iv key form).Fits := by
  intro h
  have hfits := (h BinCrypto.demoCiphers BinCrypto.demoIv BinCrypto.demoKey longForm
    longForm_accepted rfl).1.2
  have hlength : (handleSave BinCrypto.demoCiphers BinCrypto.demoIv BinCrypto.demoKey
    longForm).content.length =
      (longForm.content.byteLength + 30) / 3 * 4 :=
    (List.length_map _).trans (length_encryptText rfl longForm.content)
  rw [hlength, byteLength_longForm] at hfits
  omega

def noteForm : BinForm := ⟨JsString.ascii "Shopping", JsString.ascii "milk",
      JsString.ascii "secret", "24h"⟩

theorem note_fits_iff : (handleSave BinCrypto.demoCiphers BinCrypto.demoIv BinCrypto.demoKey
      noteForm).Fits ↔
    noteForm.content.byteLength ≤ 2249972 :=
  editor_texts_fit_iff BinCrypto.demoCiphers BinCrypto.demoIv BinCrypto.demoKey noteForm
    ⟨by decide, by decide, by decide, by decide, by decide⟩ rfl

end
end Redbox
