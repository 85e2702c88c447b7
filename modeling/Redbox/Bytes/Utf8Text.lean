import Redbox.Bytes.ByteStrings
import Redbox.Text.FormUrlEncoded

/-! Strings as the bytes of their UTF-8, and bytes read as a string with replacements for what is
not UTF-8. -/
namespace Bytes

def ofText (s : String) : ByteString := s.toUTF8.toList

def toText (bytes : ByteString) : String :=
  String.ofList (Text.utf8Decode (bytes.map UInt8.toNat))

theorem toList_loop (bytes : ByteArray) (i : Nat) (r : List UInt8) :
    ByteArray.toList.loop bytes i r = r.reverse ++ bytes.data.toList.drop i := by
  induction hn : bytes.size - i generalizing i r with
  | zero =>
    have hle : bytes.size ≤ i := Nat.sub_eq_zero_iff_le.mp hn
    rw [ByteArray.toList.loop, if_neg (Nat.not_lt.mpr hle), List.drop_of_length_le, List.append_nil]
    exact hle
  | succ n ih =>
    have hlt : i < bytes.data.toList.length := Nat.lt_of_sub_eq_succ hn
    have hget : bytes.get! i = bytes.data.toList[i] := by
      rw [ByteArray.get!, getElem!_pos bytes.data i hlt]
      exact (Array.getElem_toList hlt).symm
    rw [ByteArray.toList.loop, if_pos (Nat.lt_of_sub_eq_succ hn), ih (i + 1) _ (by omega),
      List.drop_eq_getElem_cons hlt, hget, List.reverse_cons, List.append_assoc]
    rfl

theorem toList_toByteArray (l : ByteString) : l.toByteArray.toList = l := by
  rw [ByteArray.toList, toList_loop]
  simp

theorem toNat_utf8EncodeChar (c : Char) :
    (String.utf8EncodeChar c).map UInt8.toNat = Text.utf8 c.toNat := by
  have hc : c.val.toNat < 0xD800 ∨ 0xDFFF < c.val.toNat ∧ c.val.toNat < 0x110000 := Text.scalar c
  change (String.utf8EncodeChar c).map UInt8.toNat = Text.utf8 c.val.toNat
  unfold String.utf8EncodeChar Text.utf8
  generalize c.val.toNat = n at hc
  dsimp only
  split_ifs <;> simp only [List.map_cons, List.map_nil, UInt8.toNat_ofNat', List.cons.injEq,
    and_true] <;> omega

theorem toNat_ofText (s : String) :
    (ofText s).map UInt8.toNat = s.toList.flatMap fun c => Text.utf8 c.toNat := by
  have hutf8 : s.toUTF8 = (s.toList.flatMap String.utf8EncodeChar).toByteArray :=
    String.utf8Encode_toList.symm
  rw [ofText, hutf8, toList_toByteArray, List.map_flatMap]
  exact List.flatMap_congr fun c _ => toNat_utf8EncodeChar c

/-- What is written is read. -/
theorem toText_ofText (s : String) : toText (ofText s) = s := by
  rw [toText, toNat_ofText, Text.utf8Decode_encode, String.ofList_toList]

end Bytes
