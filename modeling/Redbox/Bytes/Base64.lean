import Redbox.Bytes.ByteStrings
import Mathlib.Tactic.NormNum

/-! Base64 as `btoa` and `atob` have it. A binary string stands for its bytes. -/
namespace Bytes
namespace Base64

def alphabet : List Char := "ABCDEFGHIJKLMNOPQRSTUVWXYZabcdefghijklmnopqrstuvwxyz0123456789+/".toList

def digit (n : Nat) : Char := alphabet.getD n '='

def value? (c : Char) : Option Nat := (alphabet.findIdx? (· == c))

def btoa : ByteString → List Char
  | a :: b :: c :: rest =>
    [digit (a.toNat / 4), digit (a.toNat % 4 * 16 + b.toNat / 16),
      digit (b.toNat % 16 * 4 + c.toNat / 64), digit (c.toNat % 64)] ++
      btoa rest
  | [a, b] =>
    [digit (a.toNat / 4), digit (a.toNat % 4 * 16 + b.toNat / 16), digit (b.toNat % 16 * 4), '=']
  | [a] => [digit (a.toNat / 4), digit (a.toNat % 4 * 16), '=', '=']
  | [] => []

/-- Eight bits at a time; bits that are left over are dropped. -/
def bytesOf : List Nat → ByteString
  | a :: b :: c :: d :: rest =>
    [UInt8.ofNat (a * 4 + b / 16), UInt8.ofNat (b % 16 * 16 + c / 4),
      UInt8.ofNat (c % 4 * 64 + d)] ++ bytesOf rest
  | [a, b, c] => [UInt8.ofNat (a * 4 + b / 16), UInt8.ofNat (b % 16 * 16 + c / 4)]
  | [a, b] => [UInt8.ofNat (a * 4 + b / 16)]
  | _ => []

/-- One or two `=` at the end of whole groups. -/
def withoutPadding (cs : List Char) : List Char :=
  if cs.length % 4 = 0 then match cs.reverse with
    | '=' :: '=' :: rest => rest.reverse
    | '=' :: rest => rest.reverse
    | _ => cs
  else cs

def isAsciiSpace (c : Char) : Bool := [9, 10, 12, 13, 32].contains c.toNat

/-- Nothing where `atob` throws. -/
def atob (text : List Char) : Option ByteString :=
  let cs := withoutPadding (text.filter fun c => !isAsciiSpace c)
  if cs.length % 4 = 1 then none else (cs.mapM value?).map bytesOf

theorem value_digit : ∀ n, n < 64 → value? (digit n) = some n := by decide +kernel

theorem digit_plain : ∀ n, n < 64 → digit n ≠ '=' ∧ isAsciiSpace (digit n) = false := by
  decide +kernel

/-- The six bits at a time, and the padding. -/
def sextets : ByteString → List Nat
  | a :: b :: c :: rest =>
    [a.toNat / 4, a.toNat % 4 * 16 + b.toNat / 16, b.toNat % 16 * 4 + c.toNat / 64, c.toNat % 64] ++
      sextets rest
  | [a, b] => [a.toNat / 4, a.toNat % 4 * 16 + b.toNat / 16, b.toNat % 16 * 4]
  | [a] => [a.toNat / 4, a.toNat % 4 * 16]
  | [] => []

def padding (bytes : ByteString) : List Char := List.replicate ((3 - bytes.length % 3) % 3) '='

theorem btoa_eq (bytes : ByteString) : btoa bytes = (sextets bytes).map digit ++ padding bytes := by
  induction bytes using btoa.induct with
  | case1 a b c rest ih =>
    have hpadding : padding (a :: b :: c :: rest) = padding rest := by
      simp only [padding, List.length_cons]
      rw [show rest.length + 1 + 1 + 1 = rest.length + 3 from rfl, Nat.add_mod_right]
    rw [btoa, sextets, ih, hpadding]
    simp
  | case2 a b => rfl
  | case3 a => rfl
  | case4 => rfl

theorem sextets_lt {bytes : ByteString} : ∀ n ∈ sextets bytes, n < 64 := by
  induction bytes using btoa.induct with
  | case1 a b c rest ih =>
    have ha := a.toNat_lt
    have hb := b.toNat_lt
    have hc := c.toNat_lt
    rw [sextets]
    intro n hn
    simp only [List.mem_append, List.mem_cons, List.not_mem_nil, or_false] at hn
    rcases hn with (rfl | rfl | rfl | rfl) | hn
    · omega
    · omega
    · omega
    · omega
    · exact ih n hn
  | case2 a b =>
    have ha := a.toNat_lt
    have hb := b.toNat_lt
    intro n hn
    simp only [sextets, List.mem_cons, List.not_mem_nil, or_false] at hn
    omega
  | case3 a =>
    have ha := a.toNat_lt
    intro n hn
    simp only [sextets, List.mem_cons, List.not_mem_nil, or_false] at hn
    omega
  | case4 => exact fun n hn => absurd hn List.not_mem_nil

theorem ofNat_toNat {a : UInt8} {n : Nat} (h : n = a.toNat) : UInt8.ofNat n = a := by
  rw [h, UInt8.ofNat_toNat]

theorem bytesOf_sextets (bytes : ByteString) : bytesOf (sextets bytes) = bytes := by
  induction bytes using btoa.induct with
  | case1 a b c rest ih =>
    have ha := a.toNat_lt
    have hb := b.toNat_lt
    have hc := c.toNat_lt
    rw [sextets]
    simp only [List.cons_append, List.nil_append, bytesOf, ih]
    rw [ofNat_toNat (a := a) (by omega), ofNat_toNat (a := b) (by omega),
      ofNat_toNat (a := c) (by omega)]
  | case2 a b =>
    have ha := a.toNat_lt
    have hb := b.toNat_lt
    simp only [sextets, bytesOf]
    rw [ofNat_toNat (a := a) (by omega), ofNat_toNat (a := b) (by omega)]
  | case3 a =>
    have ha := a.toNat_lt
    simp only [sextets, bytesOf]
    rw [ofNat_toNat (a := a) (by omega)]
  | case4 => rfl

theorem length_sextets (bytes : ByteString) :
    (sextets bytes).length + (3 - bytes.length % 3) % 3 = (bytes.length + 2) / 3 * 4 := by
  induction bytes using btoa.induct with
  | case1 a b c rest ih =>
    simp only [sextets, List.length_append, List.length_cons, List.length_nil]
    omega
  | case2 a b => simp [sextets]
  | case3 a => simp [sextets]
  | case4 => simp [sextets]

/-- Four characters for each three bytes that have begun. -/
theorem length_btoa (bytes : ByteString) : (btoa bytes).length = (bytes.length + 2) / 3 * 4 := by
  rw [btoa_eq, List.length_append, List.length_map, padding, List.length_replicate, length_sextets]

theorem withoutPadding_append {cs : List Char} {k : Nat} (hcs : ∀ c ∈ cs, c ≠ '=') (hk : k < 3)
    (hlength : (cs.length + k) % 4 = 0) :
    withoutPadding (cs ++ List.replicate k '=') = cs := by
  have hlength : (cs ++ List.replicate k '=').length % 4 = 0 := by
    rwa [List.length_append, List.length_replicate]
  unfold withoutPadding
  rw [if_pos hlength]
  match k, hk with
  | 0, _ =>
    simp only [List.replicate_zero, List.append_nil]
    split
    · rename_i rest heq
      exact absurd rfl (hcs '=' (List.mem_reverse.mp (heq ▸ List.mem_cons_self)))
    · rename_i rest _ heq
      exact absurd rfl (hcs '=' (List.mem_reverse.mp (heq ▸ List.mem_cons_self)))
    · rfl
  | 1, _ =>
    simp only [List.replicate_one, List.reverse_append, List.reverse_singleton,
      List.singleton_append]
    split
    · rename_i rest heq
      exact absurd rfl (hcs '=' (List.mem_reverse.mp ((List.cons.inj heq).2 ▸ List.mem_cons_self)))
    · rename_i rest _ heq
      rw [← (List.cons.inj heq).2, List.reverse_reverse]
    · rename_i hne
      exact absurd rfl (hne cs.reverse)
  | 2, _ =>
    show (match (cs ++ ['=', '=']).reverse with
      | '=' :: '=' :: rest => rest.reverse
      | '=' :: rest => rest.reverse
      | _ => cs ++ ['=', '=']) = cs
    simp

theorem mapM_digits {ns : List Nat} (h : ∀ n ∈ ns, n < 64) :
    (ns.map digit).mapM value? = some ns := by
  induction ns with
  | nil => rfl
  | cons n ns ih =>
    rw [List.map_cons, List.mapM_cons, value_digit n (h n List.mem_cons_self),
      ih fun m hm => h m (List.mem_cons_of_mem _ hm)]
    rfl

/-- What was encoded is decoded. -/
theorem atob_btoa (bytes : ByteString) : atob (btoa bytes) = some bytes := by
  have hchars : ∀ c ∈ (sextets bytes).map digit, c ≠ '=' ∧ isAsciiSpace c = false := by
    intro c hc
    obtain ⟨n, hn, rfl⟩ := List.mem_map.mp hc
    exact digit_plain n (sextets_lt n hn)
  have hfilter : (btoa bytes).filter (fun c => !isAsciiSpace c) = (sextets bytes).map digit ++
      padding bytes := by
    rw [btoa_eq]
    refine List.filter_eq_self.mpr fun c hc => ?_
    rcases List.mem_append.mp hc with hc | hc
    · rw [(hchars c hc).2]
      rfl
    · rw [List.eq_of_mem_replicate hc]
      decide
  have hlength := length_sextets bytes
  have hpadding : withoutPadding ((sextets bytes).map digit ++ padding bytes) =
      (sextets bytes).map digit := by
    apply withoutPadding_append
    · exact fun c hc => (hchars c hc).1
    · omega
    · rw [List.length_map]
      omega
  have hgroup : ((sextets bytes).map digit).length % 4 ≠ 1 := by
    rw [List.length_map]
    omega
  unfold atob
  simp only [hfilter, hpadding, if_neg hgroup, mapM_digits sextets_lt, Option.map_some,
    bytesOf_sextets]

end Base64
end Bytes
