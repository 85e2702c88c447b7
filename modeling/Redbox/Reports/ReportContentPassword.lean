import Redbox.Bytes.Base64
import Redbox.Bytes.IdealAead
import Redbox.Bytes.Utf8Text

/-! `report-content-password.util.ts`: the password of reported content is kept encrypted, as three
parts in the base64 of URLs. -/
namespace Redbox.Reports
open Bytes (ByteString IdealAead Sealing ofText toText toText_ofText)

def tagLen : Nat := 16

namespace Buffer

/-- The digit of `base64url`. -/
def digit (n : Nat) : Char :=
  if n = 62 then '-' else if n = 63 then '_' else Bytes.Base64.digit n

/-- Both alphabets are read. -/
def value? (c : Char) : Option Nat :=
  if c = '-' then some 62 else if c = '_' then some 63 else Bytes.Base64.value? c

def toBase64url (bytes : ByteString) : List Char := (Bytes.Base64.sextets bytes).map digit

/-- `Buffer.from(part, 'base64url')`: characters that are no digits are skipped. -/
def fromBase64url (part : List Char) : ByteString := Bytes.Base64.bytesOf (part.filterMap value?)

theorem value_digit : ∀ n, n < 64 → value? (digit n) = some n := by decide +kernel

theorem digit_ne_dot : ∀ n, n < 64 → (digit n == '.') = false := by decide +kernel

theorem filterMap_digits {ns : List Nat} (h : ∀ n ∈ ns, n < 64) :
    (ns.map digit).filterMap value? = ns := by
  induction ns with
  | nil => rfl
  | cons n ns ih =>
    rw [List.forall_mem_cons] at h
    rw [List.map_cons, List.filterMap_cons_some (value_digit n h.1), ih h.2]

theorem fromBase64url_toBase64url (bytes : ByteString) :
    fromBase64url (toBase64url bytes) = bytes := by
  rw [fromBase64url, toBase64url, filterMap_digits Bytes.Base64.sextets_lt,
    Bytes.Base64.bytesOf_sextets]

theorem toBase64url_no_dot (bytes : ByteString) : ∀ c ∈ toBase64url bytes, (c == '.') = false := by
  intro c hc
  obtain ⟨n, hn, rfl⟩ := List.mem_map.mp hc
  exact digit_ne_dot n (Bytes.Base64.sextets_lt n hn)

theorem toBase64url_ne_nil {bytes : ByteString} (h : bytes ≠ []) : toBase64url bytes ≠ [] := by
  intro hnil
  apply h
  rw [← fromBase64url_toBase64url bytes, hnil]
  rfl

end Buffer

namespace ReportContentPassword

/-- What is asked of the cipher. -/
def sealing (iv : ByteString) (password : String) : Sealing := ⟨iv, [], ofText password⟩

def encryptReportedContentPassword (cipher : IdealAead tagLen) (iv : ByteString)
    (password : String) : String :=
  let output := cipher.encrypt (sealing iv password)
  let encrypted := output.take (output.length - tagLen)
  let authTag := output.drop (output.length - tagLen)
  String.ofList (Text.joinWith '.' ([iv, authTag, encrypted].map Buffer.toBase64url))

inductive DecryptError where
  /-- `InternalServerErrorException` -/
  | internalServerError (message : String)
  /-- The decipher throws. -/
  | unauthentic
  deriving DecidableEq

def decryptReportedContentPassword (cipher : IdealAead tagLen) (made : List Sealing) :
    Option String → Except DecryptError (Option String)
  | none => .ok none
  | some payload =>
    if payload = "" then .ok none
    else
      match Text.splitWhere (· == '.') payload.toList with
      | ivPart :: authTagPart :: encryptedPart :: _ =>
        if ivPart = [] ∨ authTagPart = [] ∨ encryptedPart = [] then
          .error (.internalServerError "Stored report password is invalid")
        else
          match cipher.decrypt made (Buffer.fromBase64url ivPart) []
            (Buffer.fromBase64url encryptedPart ++ Buffer.fromBase64url authTagPart) with
          | some decrypted => .ok (some (toText decrypted))
          | none => .error .unauthentic
      | _ => .error (.internalServerError "Stored report password is invalid")

section
variable {cipher : IdealAead tagLen} {made : List Sealing} {iv : ByteString} {password : String}

theorem ofText_ne_nil (h : password ≠ "") : ofText password ≠ [] := by
  intro hnil
  apply h
  rw [← toText_ofText password, hnil]
  rfl

theorem splitWhere_encrypted (cipher : IdealAead tagLen) (iv : ByteString) (password : String) :
    Text.splitWhere (· == '.') (encryptReportedContentPassword cipher iv password).toList =
      [Buffer.toBase64url iv,
        Buffer.toBase64url ((cipher.encrypt (sealing iv password)).drop (ofText password).length),
        Buffer.toBase64url ((cipher.encrypt (sealing iv password)).take
          (ofText password).length)] := by
  have hlength : (cipher.encrypt (sealing iv password)).length - tagLen =
      (ofText password).length := by
    rw [cipher.length_encrypt, Nat.add_sub_cancel]
    rfl
  rw [encryptReportedContentPassword, hlength, String.toList_ofList,
    Text.splitWhere_joinWith (by simp) ?_ (by rfl)]
  · rfl
  · intro part hpart
    obtain ⟨bytes, -, rfl⟩ := List.mem_map.mp hpart
    exact Buffer.toBase64url_no_dot bytes

theorem decrypt_encrypt (hmade : sealing iv password ∈ made) (hiv : iv ≠ [])
    (hpassword : password ≠ "") :
    decryptReportedContentPassword cipher made
      (some (encryptReportedContentPassword cipher iv password)) = .ok (some password) := by
  have hsplit := splitWhere_encrypted cipher iv password
  have hlength : (cipher.encrypt (sealing iv password)).length =
      (ofText password).length + tagLen := cipher.length_encrypt _
  have htag : (cipher.encrypt (sealing iv password)).drop (ofText password).length ≠ [] := by
    intro hnil
    have := congrArg List.length hnil
    rw [List.length_drop, hlength, Nat.add_sub_cancel_left] at this
    cases this
  have htext : (cipher.encrypt (sealing iv password)).take (ofText password).length ≠ [] := by
    intro hnil
    have := congrArg List.length hnil
    rw [List.length_take, hlength, Nat.min_eq_left (Nat.le_add_right _ _)] at this
    exact ofText_ne_nil hpassword (List.eq_nil_of_length_eq_zero this)
  have hpayload : encryptReportedContentPassword cipher iv password ≠ "" := by
    intro hempty
    rw [hempty] at hsplit
    cases congrArg List.length hsplit
  have hdecrypt : cipher.decrypt made iv [] (cipher.encrypt (sealing iv password)) =
      some (ofText password) := cipher.decrypt_encrypt hmade
  dsimp only [decryptReportedContentPassword]
  rw [if_neg hpayload, hsplit]
  dsimp only
  rw [if_neg (by simp [Buffer.toBase64url_ne_nil, hiv, htag, htext]),
    Buffer.fromBase64url_toBase64url, Buffer.fromBase64url_toBase64url,
    Buffer.fromBase64url_toBase64url, List.take_append_drop, hdecrypt]
  dsimp only
  rw [toText_ofText]

end
end ReportContentPassword
end Redbox.Reports
