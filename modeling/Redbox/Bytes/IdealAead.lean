import Redbox.Bytes.ByteStrings

/-! An ideal cipher for authenticated encryption with associated data. -/
namespace Bytes

/-- One encryption that was made: its nonce, its additional data and its plaintext. -/
structure Sealing where
  iv : ByteString
  aad : ByteString
  plaintext : ByteString
  deriving DecidableEq

/-- A cipher under one key, with authentication tags of `tag` bytes. Decryption knows
the encryptions that were made, and inverts these and no others. -/
structure IdealAead (tag : Nat) where
  encrypt : Sealing → ByteString
  decrypt : List Sealing → (iv aad ciphertext : ByteString) → Option ByteString
  length_encrypt : ∀ x, (encrypt x).length = x.plaintext.length + tag
  decrypt_eq_some : ∀ {made iv aad ciphertext plaintext},
    decrypt made iv aad ciphertext = some plaintext ↔
      ⟨iv, aad, plaintext⟩ ∈ made ∧ encrypt ⟨iv, aad, plaintext⟩ = ciphertext

namespace IdealAead
variable {tag : Nat} (cipher : IdealAead tag) {made : List Sealing} {iv aad ciphertext : ByteString}

theorem decrypt_encrypt {x : Sealing} (h : x ∈ made) :
    cipher.decrypt made x.iv x.aad (cipher.encrypt x) = some x.plaintext :=
  cipher.decrypt_eq_some.mpr ⟨h, rfl⟩

/-- Nothing decrypts under additional data that no encryption was made with. -/
theorem decrypt_none (h : ∀ x ∈ made, x.aad ≠ aad) :
    cipher.decrypt made iv aad ciphertext = none := by
  cases hd : cipher.decrypt made iv aad ciphertext with
  | none => rfl
  | some p => exact absurd rfl (h _ (cipher.decrypt_eq_some.mp hd).1)

/-- The encryption that only appends a blank tag, which is ideal once decryption looks it up. -/
def transparent (tag : Nat) : IdealAead tag where
  encrypt := fun x => x.plaintext ++ List.replicate tag 0
  decrypt := fun made iv aad ciphertext =>
    (made.find? fun x => decide (x.iv = iv ∧ x.aad = aad ∧
      x.plaintext ++ List.replicate tag 0 = ciphertext)).map
      Sealing.plaintext
  length_encrypt := by simp
  decrypt_eq_some := by
    intro made iv aad ciphertext plaintext
    constructor
    · intro h
      obtain ⟨x, hx, rfl⟩ := Option.map_eq_some_iff.mp h
      have hfound := List.find?_some hx
      rw [decide_eq_true_eq] at hfound
      obtain ⟨rfl, rfl, hc⟩ := hfound
      exact ⟨List.mem_of_find?_eq_some hx, hc⟩
    · rintro ⟨hmem, rfl⟩
      cases hf : made.find? fun x => decide (x.iv = iv ∧ x.aad = aad ∧
          x.plaintext ++ List.replicate tag 0 = plaintext ++ List.replicate tag 0) with
      | none => simpa using List.find?_eq_none.mp hf _ hmem
      | some x =>
        have hfound := List.find?_some hf
        rw [decide_eq_true_eq] at hfound
        simp [List.append_cancel_right hfound.2.2]

end IdealAead
end Bytes
