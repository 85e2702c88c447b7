import Redbox.Bytes.Base64
import Redbox.Bytes.IdealAead
import Redbox.Bytes.Utf8
import Redbox.ServiceWorker.ContentDisposition
import Redbox.Text.Numeral

/-! The encryption of bins: UTF-8, AES-GCM under a fresh nonce that stands before the
ciphertext, and base64. The key travels as hexadecimal text in the link of the bin. -/
namespace Redbox
open Bytes (ByteString IdealAead Sealing Utf8.encode Utf8.decode?)

namespace JsString

/-- What stands for a code point in UTF-8. A lone surrogate has no encoding. -/
def scalarValue (c : Nat) : Nat := if isScalar c then c else 0xFFFD

/-- No lone surrogates. -/
def WellFormed (s : JsString) : Prop := ∀ c ∈ s.codePoints, isScalar c = true

end JsString

def TextEncoder.encode (s : JsString) : ByteString :=
  Utf8.encode (s.codePoints.map JsString.scalarValue)

def byteOrderMark : Nat := 0xFEFF

/-- `new TextDecoder()`. What it makes of malformed bytes is a parameter. -/
def TextDecoder.decode (malformed : ByteString → JsString) (bytes : ByteString) : JsString :=
  let text := if Utf8.encode [byteOrderMark] <+: bytes then bytes.drop 3 else bytes
  match Utf8.decode? text with
  | some cs => cs.flatMap JsString.units
  | none => malformed text

/-- A key for AES-GCM. No other length can be imported. -/
structure CryptoKey where
  raw : ByteString
  sized : raw.length ∈ [16, 24, 32]
  deriving DecidableEq

namespace BinCrypto

def ivLen : Nat := 12

def tagLen : Nat := 16

/-- The cipher under each key. -/
abbrev Ciphers := CryptoKey → IdealAead tagLen

def isLineTerminator (u : UInt16) : Bool := [0x0A, 0x0D, 0x2028, 0x2029].contains u.toNat

/-- `match(/.{1,2}/g)` -/
def pairs : JsString → List JsString
  | [] => []
  | [u] => if isLineTerminator u then [] else [[u]]
  | u :: v :: rest =>
    if isLineTerminator u then pairs (v :: rest)
    else if isLineTerminator v then [u] :: pairs rest
    else [u, v] :: pairs rest

/-- An element of a `Uint8Array` that a number is stored to. -/
def toUint8 : Option Int → UInt8
  | some n => UInt8.ofInt n
  | none => 0

def hexByte (pair : JsString) : UInt8 :=
  toUint8 (Text.parseInt16? (pair.map fun u => Char.ofNat u.toNat))

/-- The empty text has no match, and the mapping throws. -/
def hexToBytes (hex : JsString) : Option ByteString :=
  if pairs hex = [] then none else some ((pairs hex).map hexByte)

/-- `b.toString(16).padStart(2, '0')` -/
def hexPair (b : Nat) : JsString :=
  let digits := Nat.toDigits 16 b
  (List.replicate (2 - digits.length) '0' ++ digits).map fun c => c.toNat.toUInt16

def bytesToHex (bytes : ByteString) : JsString := bytes.flatMap fun b => hexPair b.toNat

def importKey (keyHex : JsString) : Option CryptoKey :=
  (hexToBytes keyHex).bind fun bytes => if h :
    bytes.length ∈ [16, 24, 32] then some ⟨bytes, h⟩ else none

/-- What `encryptText` asks the cipher for. -/
def sealing (iv : ByteString) (plaintext : JsString) : Sealing :=
  ⟨iv, [], TextEncoder.encode plaintext⟩

def encryptText (ciphers : Ciphers) (iv : ByteString) (cryptoKey : CryptoKey)
    (plaintext : JsString) : List Char :=
  Bytes.Base64.btoa (iv ++ (ciphers cryptoKey).encrypt (sealing iv plaintext))

/-- Nothing where it throws. -/
def decryptText (ciphers : Ciphers) (made : CryptoKey → List Sealing)
    (malformed : ByteString → JsString) (cryptoKey : CryptoKey) (b64 : List Char) :
    Option JsString :=
  (Bytes.Base64.atob b64).bind fun bytes =>
    ((ciphers cryptoKey).decrypt (made cryptoKey) (bytes.take ivLen) [] (bytes.drop ivLen)).map
      (TextDecoder.decode malformed)

end BinCrypto

namespace JsString

/-- The code points spell the string. -/
theorem units_codePoints (s : JsString) : s.codePoints.flatMap units = s := by
  fun_induction codePoints s with
  | case1 => rfl
  | case2 u => simp [units, u.toNat_lt]
  | case3 u v rest h ih =>
    have hhigh : (0xD800 + (0x10000 + (u.toNat - 0xD800) * 0x400 + (v.toNat - 0xDC00) - 0x10000) /
      0x400) = u.toNat := by omega
    have hlow : (0xDC00 + (0x10000 + (u.toNat - 0xD800) * 0x400 + (v.toNat - 0xDC00) - 0x10000) %
      0x400) = v.toNat := by omega
    rw [List.flatMap_cons, ih, units, if_neg (by omega), hhigh, hlow]
    simp
  | case4 u v rest h ih =>
    rw [List.flatMap_cons, ih]
    simp [units, u.toNat_lt]

theorem WellFormed.scalarValues {s : JsString} (h : s.WellFormed) :
    s.codePoints.map scalarValue = s.codePoints :=
  (List.map_congr_left fun c hc => if_pos (h c hc)).trans (List.map_id' _)

theorem head_codePoints {s : JsString} : s.codePoints.head? = some byteOrderMark ↔
    s.head? = some 0xFEFF := by
  have hmark : ∀ u : UInt16, u.toNat = byteOrderMark ↔ u = 0xFEFF :=
    fun u => UInt16.toNat_inj (b := 0xFEFF)
  fun_cases codePoints s with
  | case1 => simp
  | case2 u => simp [hmark]
  | case3 u v rest h =>
    have hu : u ≠ 0xFEFF := by
      rintro rfl
      exact absurd h.2.1 (by decide)
    simp only [List.head?_cons, Option.some.injEq, hu, iff_false, byteOrderMark]
    omega
  | case4 u v rest h => simp [hmark]

end JsString

section
variable {malformed : ByteString → JsString} {s : JsString}
open JsString

theorem TextEncoder.encode_eq (h : s.WellFormed) :
    TextEncoder.encode s = Utf8.encode s.codePoints :=
  congrArg Utf8.encode h.scalarValues

/-- The encoding shows its first code point. -/
theorem encode_mark_iff {cs : List Nat} (h : ∀ c ∈ cs, isScalar c = true) :
    Utf8.encode [byteOrderMark] <+: Utf8.encode cs ↔ cs.head? = some byteOrderMark := by
  cases cs with
  | nil => decide
  | cons c cs =>
    have hc := h c List.mem_cons_self
    constructor
    · rintro ⟨rest, hrest⟩
      have hmark := Bytes.Utf8.readScalar_encodeScalar (c := byteOrderMark) rfl rest
      have hfirst := Bytes.Utf8.readScalar_encodeScalar hc (Utf8.encode cs)
      have hbytes : Bytes.Utf8.encodeScalar byteOrderMark ++ rest = Bytes.Utf8.encodeScalar c ++
          Utf8.encode cs := hrest
      rw [hbytes, hfirst, Option.some.injEq, Prod.mk.injEq] at hmark
      rw [List.head?_cons, hmark.1]
    · intro hhead
      rw [List.head?_cons, Option.some.injEq] at hhead
      rw [hhead]
      exact ⟨Utf8.encode cs, rfl⟩

/-- The decoder loses one mark at the front and nothing else. -/
theorem decode_encode (h : s.WellFormed) : TextDecoder.decode malformed (TextEncoder.encode s) =
    if s.codePoints.head? = some byteOrderMark then s.tail else s := by
  rw [TextEncoder.encode_eq h, TextDecoder.decode]
  simp only [encode_mark_iff h]
  cases hcs : s.codePoints with
  | nil =>
    have hs := units_codePoints s
    rw [hcs] at hs
    rw [← hs]
    rfl
  | cons c cs =>
    have hscalar : ∀ d ∈ c :: cs, Bytes.Utf8.isScalar d = true := hcs ▸ h
    have hs := units_codePoints s
    rw [hcs] at hs
    by_cases hmark : c = byteOrderMark
    · have hdrop : (Utf8.encode (c :: cs)).drop 3 = Utf8.encode cs := by
        rw [hmark]
        rfl
      have htail : s.tail = cs.flatMap units := by
        rw [← hs, hmark]
        rfl
      rw [if_pos (by rw [hmark]; rfl), hdrop, Bytes.Utf8.decode_encode fun d hd =>
        hscalar d (List.mem_cons_of_mem _ hd),
        if_pos (by rw [hmark]; rfl), htail]
    · have hhead : ¬ (c :: cs).head? = some byteOrderMark := fun hh => hmark (Option.some.inj hh)
      rw [if_neg hhead, if_neg hhead, Bytes.Utf8.decode_encode hscalar]
      exact hs

end

namespace BinCrypto
open JsString

/-- Two hexadecimal digits for a byte are read back. -/
theorem hexPair_read : ∀ b, b < 256 → (hexPair b).length = 2 ∧
    (hexPair b).all (fun u => !isLineTerminator u) = true ∧
    (hexByte (hexPair b)).toNat = b := by
  decide +kernel

theorem pairs_append {pair rest : JsString} (hlength : pair.length = 2)
    (hplain : pair.all (fun u => !isLineTerminator u) = true) :
    pairs (pair ++ rest) = pair :: pairs rest := by
  obtain ⟨u, v, rfl⟩ := List.length_eq_two.mp hlength
  simp only [List.all_cons, Bool.and_eq_true, Bool.not_eq_true', List.all_nil, and_true] at hplain
  simp [pairs, hplain.1, hplain.2]

theorem pairs_bytesToHex (bytes : ByteString) :
    pairs (bytesToHex bytes) = bytes.map fun b => hexPair b.toNat := by
  induction bytes with
  | nil => rfl
  | cons b bytes ih =>
    obtain ⟨hlength, hplain, -⟩ := hexPair_read b.toNat b.toNat_lt
    rw [bytesToHex, List.flatMap_cons, pairs_append hlength hplain, List.map_cons, ← ih]
    rfl

theorem hexByte_hexPair (b : UInt8) : hexByte (hexPair b.toNat) = b :=
  UInt8.toNat_inj.mp (hexPair_read b.toNat b.toNat_lt).2.2

theorem hexToBytes_bytesToHex {bytes : ByteString} (h : bytes ≠ []) :
    hexToBytes (bytesToHex bytes) = some bytes := by
  have hmap : (bytes.map fun b => hexPair b.toNat).map hexByte = bytes := by
    rw [List.map_map]
    apply (List.map_congr_left _).trans (List.map_id bytes)
    intro b _
    exact hexByte_hexPair b
  rw [hexToBytes, pairs_bytesToHex, if_neg (fun hnil => h (List.map_eq_nil_iff.mp hnil)), hmap]

/-- A key is imported again from its own text. -/
theorem importKey_bytesToHex (key : CryptoKey) : importKey (bytesToHex key.raw) = some key := by
  have hne : key.raw ≠ [] := by
    intro hnil
    have hsized := key.sized
    rw [hnil] at hsized
    exact absurd hsized (by decide)
  rw [importKey, hexToBytes_bytesToHex hne, Option.bind_some, dif_pos key.sized]

section
variable {ciphers : Ciphers} {made : CryptoKey → List Sealing} {malformed : ByteString →
  JsString} {key : CryptoKey}
  {iv : ByteString} {s : JsString}

/-- Decryption returns what the decoder makes of the encoded text. -/
theorem decryptText_encryptText (hiv : iv.length = ivLen) (hmade : sealing iv s ∈ made key) :
    decryptText ciphers made malformed key (encryptText ciphers iv key s) =
      some (TextDecoder.decode malformed (TextEncoder.encode s)) := by
  have htake : (iv ++ (ciphers key).encrypt (sealing iv s)).take ivLen = iv := by
    rw [← hiv, List.take_left]
  have hdrop : (iv ++ (ciphers key).encrypt (sealing iv s)).drop ivLen =
      (ciphers key).encrypt (sealing iv s) := by
    rw [← hiv, List.drop_left]
  have hdecrypt : (ciphers key).decrypt (made key) iv [] ((ciphers key).encrypt (sealing iv s)) =
      some (TextEncoder.encode s) :=
    (ciphers key).decrypt_encrypt hmade
  rw [decryptText, encryptText, Bytes.Base64.atob_btoa, Option.bind_some, htake, hdrop, hdecrypt,
    Option.map_some]

/-- Opening the bin under the key of its link returns the text. -/
def RoundTrips (ciphers : Ciphers) (made : CryptoKey → List Sealing)
    (malformed : ByteString → JsString) (key : CryptoKey) (iv : ByteString) (s : JsString) : Prop :=
  (importKey (bytesToHex key.raw)).bind (fun imported =>
    decryptText ciphers made malformed imported (encryptText ciphers iv key s)) =
    some s

theorem roundTrips_iff_decoded (hiv : iv.length = ivLen) (hmade : sealing iv s ∈ made key) :
    RoundTrips ciphers made malformed key iv s ↔
    TextDecoder.decode malformed (TextEncoder.encode s) = s := by
  rw [RoundTrips, importKey_bytesToHex, Option.bind_some, decryptText_encryptText hiv hmade,
    Option.some.injEq]

theorem tail_ne_self {s : JsString} (h : s ≠ []) : s.tail ≠ s := by
  intro htail
  have hlength := congrArg List.length htail
  have hpos := List.length_pos_iff.mpr h
  rw [List.length_tail] at hlength
  omega

/-- A bin is opened with its text exactly when the text does not begin with a byte order mark. -/
theorem bins_round_trip_iff (ciphers : Ciphers) (made : CryptoKey → List Sealing)
    (malformed : ByteString → JsString) (key : CryptoKey) (iv : ByteString) (s : JsString)
    (hs : s.WellFormed) (hiv : iv.length = ivLen) (hmade : sealing iv s ∈ made key) :
    RoundTrips ciphers made malformed key iv s ↔ s.head? ≠ some 0xFEFF := by
  rw [roundTrips_iff_decoded hiv hmade, decode_encode hs, ne_eq, ← head_codePoints]
  split
  · rename_i hmark
    have hne : s ≠ [] := by
      rintro rfl
      cases hmark
    exact iff_of_false (tail_ne_self hne) (fun h => h hmark)
  · rename_i hmark
    exact iff_of_true rfl hmark

def demoKey : CryptoKey := ⟨List.replicate 32 7, by decide⟩

def demoCiphers : Ciphers := fun _ => IdealAead.transparent tagLen

def demoIv : ByteString := List.replicate ivLen 1

/-- A text with a mark in front is opened without it. -/
theorem mark_lost : ¬ ∀ (ciphers : Ciphers) (made : CryptoKey →
      List Sealing) (malformed : ByteString → JsString) (key : CryptoKey) (iv : ByteString)
    (s : JsString), s.WellFormed → key.raw.length = 32 → iv.length = ivLen →
      sealing iv s ∈ made key → RoundTrips ciphers made malformed key iv s := by
  intro h
  have hwell : WellFormed [0xFEFF, 0x48] := by
    intro c hc
    have hcases : c = 0xFEFF ∨ c = 0x48 := by
      simpa [codePoints] using hc
    rcases hcases with rfl | rfl <;> rfl
  have htrip := h demoCiphers (fun _ => [sealing demoIv [0xFEFF, 0x48]]) (fun _ => []) demoKey
    demoIv [0xFEFF, 0x48] hwell rfl rfl
    List.mem_cons_self
  rw [roundTrips_iff_decoded rfl List.mem_cons_self] at htrip
  exact absurd htrip (by decide)

theorem bins_round_trip_greeting :
    RoundTrips demoCiphers (fun _ => [sealing demoIv (ascii "Hi")])
    (fun _ => []) demoKey demoIv (ascii "Hi") ↔
      (ascii "Hi").head? ≠ some 0xFEFF :=
  bins_round_trip_iff demoCiphers (fun _ => [sealing demoIv (ascii "Hi")]) (fun _ => []) demoKey
    demoIv (ascii "Hi")
    (by
      intro c hc
      have hcases : c = 72 ∨ c = 105 := by
        simpa [ascii, codePoints] using hc
      rcases hcases with rfl | rfl <;> rfl)
    rfl List.mem_cons_self

end
end BinCrypto
end Redbox
