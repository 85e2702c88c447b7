import Redbox.Http.AddressTexts

/-! Which addresses the configured networks have, in all spellings of an address. -/
namespace Redbox
open Text IpAddress ClientIp

namespace ClientIp

/-- What the code reads in an address text. -/
inductive CodeReads (cs : List Char) : Option (Family × Nat) → Prop where
  | rejected (normal : normalizeIp (some cs) = none) : CodeReads cs none
  | parsed {x : List Char} {f : Family} {v : Nat} (normal : normalizeIp (some cs) = some x)
      (family : isIP x = some f)
      (value : ipToBigInt x = .ok (some (f, (v : Int)))) (bound : v < 2 ^ familyBits f) :
        CodeReads cs (some (f, v))

theorem CodeReads.bound {cs : List Char} {f : Family} {v : Nat} (h : CodeReads cs (some (f, v))) :
    v < 2 ^ familyBits f := by
  cases h with
  | parsed normal family value bound => exact bound

/-- The IPv4 address at the end is 0.0.0.0, and with it all groups behind the double colon are zero.
-/
def zeroTail (cs : List Char) : Bool :=
  match splitDouble cs with
  | [whole] => (dottedGroups? whole).any fun groups => (groups.drop 6).all (· == 0)
  | [_, tail] => (dottedGroups? tail).any fun groups => groups.all (· == 0)
  | _ => false

/-- The spellings in which the code reads the address that is denoted: an IPv4 address, also behind
`::ffff:`, and any other IPv6 address in hexadecimal that is not mapped to an IPv4 address. -/
def wellRead (cs : List Char) : Bool :=
  (ipv4? cs).isSome ||
    if hasMappedPrefix cs then (ipv4? (cs.drop 7)).isSome
    else ((ipv6? cs).all fun n => n / 2 ^ 32 != 0xffff) && (!cs.contains '.' || zeroTail cs)

/-- An address text that `isIP` accepts, without a zone. -/
structure ValidAddress (cs : List Char) : Prop where
  accepted : (isIP cs).isSome = true
  zone : '%' ∉ cs

section
variable {cs part last : List Char} {parts : List (List Char)} {groups : List Nat} {n m : Nat}

theorem dottedGroups_eq (h : Dotted cs parts last groups m) :
    dottedGroups? cs = some (groups ++ [m / 2 ^ 16, m % 2 ^ 16]) := by
  have hgroups : parts.mapM group? = some groups := by
    have hall := h.groups
    generalize parts = parts, groups = groups at hall
    induction hall with
    | nil => rfl
    | cons hx _ ih => rw [List.mapM_cons, hx, ih]; rfl
  unfold dottedGroups?
  rw [h.split, List.dropLast_concat, List.getLast?_concat, hgroups]
  simp [h.address]

/-- The IPv4 address at the end is read as its first octet, in hexadecimal. -/
theorem quad_read (h : ipv4? last = some m) : ∃ v, groupToBigInt last = .ok ((v : Nat) : Int) ∧
    v < 2 ^ 16 ∧
    (m / 2 ^ 16 = 0 → v = 0) ∧ (v = m / 2 ^ 16 → m / 2 ^ 16 = 0) := by
  obtain ⟨p, q, r, s, a, b, c, d, hsplit, hp, hq, hr, hs, rfl⟩ := ipv4_parts h
  obtain ⟨v, hv, hlt, hzero, hless⟩ := octet_in_hex hp
  obtain ⟨hpne, hdigits, -⟩ := octet_digits hp
  have hb : b ≤ 255 := (octet_digits hq).2.2.2.1
  have hc : c ≤ 255 := (octet_digits hr).2.2.2.1
  have hd : d ≤ 255 := (octet_digits hs).2.2.2.1
  refine ⟨v, ?_, by omega, by omega, by omega⟩
  have hlast : last = p ++ '.' :: ['.'].intercalate [q, r, s] := by
    have heq : ['.'].intercalate (last.splitOn '.') = last := List.intercalate_splitOn '.'
    rw [hsplit, List.intercalate_cons_cons, List.append_assoc] at heq
    exact heq.symm
  have hchars := (ipv4_chars h).2
  have htake : last.takeWhile (fun x => (hexValue x).isSome) = p := by
    rw [hlast, List.takeWhile_append_of_pos fun x hx => by
      rw [(hexValue_digit (hdigits x hx)).1]; rfl,
      List.takeWhile_cons_of_neg (by decide), List.append_nil]
  have hother : ∀ x, (x.isDigit || x == '.') = false → x ∉ last := by
    intro x hx hmem
    rw [hchars x hmem] at hx
    cases hx
  refine groupToBigInt_eq ?_ (fun x hx => (digit_chars (hchars x hx)).1) ⟨fun hx => ?_,
    fun hx => ?_⟩ (fun x hx => ⟨?_, ?_⟩)
    (htake.symm ▸ hv) (by omega)
  · exact List.ne_nil_of_mem (ipv4_chars h).1
  · exact hother '-' (by decide) (List.mem_of_mem_head? hx)
  · exact hother '+' (by decide) (List.mem_of_mem_head? hx)
  · exact ne_of_mem_of_not_mem hx (hother 'x' (by decide))
  · exact ne_of_mem_of_not_mem hx (hother 'X' (by decide))

/-- Digits of one base are told apart by the number that they make. -/
theorem foldl_inj {b : Nat} {ds es : List Nat} (hlen : ds.length = es.length) (hd : ∀ d ∈ ds, d < b)
    (he : ∀ e ∈ es, e < b) {x y : Nat}
    (h : ds.foldl (fun acc d => acc * b + d) x = es.foldl (fun acc d => acc * b + d) y) :
    x = y ∧ ds = es := by
  induction ds generalizing es x y with
  | nil =>
    obtain rfl := List.eq_nil_of_length_eq_zero hlen.symm
    exact ⟨h, rfl⟩
  | cons d ds ih =>
    cases es with
    | nil => cases hlen
    | cons e es =>
      rw [List.forall_mem_cons] at hd he
      rw [List.foldl_cons, List.foldl_cons] at h
      obtain ⟨hfirst, rfl⟩ := ih (Nat.succ.inj hlen) hd.2 he.2 h
      have hdiv : x = y := by
        have hx := congrArg (· / b) hfirst
        simpa [Nat.mul_comm _ b, Nat.mul_add_div (Nat.zero_lt_of_lt hd.1), Nat.div_eq_of_lt hd.1,
          Nat.div_eq_of_lt he.1] using hx
      subst hdiv
      exact ⟨rfl, by rw [Nat.add_left_cancel hfirst]⟩

/-- A list that stays the same when it is moved past a zero is made of zeros. -/
theorem zero_of_shift {gs : List Nat} {x : Nat} (h : 0 :: gs = gs ++ [x]) :
    (∀ g ∈ gs, g = 0) ∧ x = 0 := by
  induction gs with
  | nil => exact ⟨by simp, by simpa using h.symm⟩
  | cons g gs ih =>
    rw [List.cons_append, List.cons.injEq] at h
    obtain ⟨rfl, h⟩ := h
    obtain ⟨hall, hx⟩ := ih h
    exact ⟨List.forall_mem_cons.mpr ⟨rfl, hall⟩, hx⟩

theorem ipv6Value_inj {gs es : List Nat} (hlen : gs.length = es.length) (hg : ∀ g ∈ gs, g < 2 ^ 16)
    (he : ∀ e ∈ es, e < 2 ^ 16) :
    ipv6Value gs = ipv6Value es ↔ gs = es :=
  ⟨fun h => (foldl_inj hlen hg he h).2, fun h => by rw [h]⟩

theorem groups_lt (h : List.Forall₂ (fun part g => group? part = some g) parts groups) :
    ∀ g ∈ groups, g < 2 ^ 16 := by
  intro g hg
  obtain ⟨part, hpart⟩ := mem_of_forall h hg
  exact (hex_of_group hpart).2.2.2

section
variable {hs : List Nat} {a b k v z : Nat}

theorem groups_pair_lt (hgroups : ∀ g ∈ groups, g < 2 ^ 16) (ha : a < 2 ^ 16) (hb : b < 2 ^ 16) :
    ∀ g ∈ groups ++ [a, b], g < 2 ^ 16 :=
  List.forall_mem_append.mpr ⟨hgroups, List.forall_mem_cons.mpr ⟨ha, by simpa using hb⟩⟩

theorem zeros_lt (hhs : ∀ g ∈ hs, g < 2 ^ 16) (hgroups : ∀ g ∈ groups, g < 2 ^ 16) :
    ∀ g ∈ hs ++ List.replicate k 0 ++ groups, g < 2 ^ 16 := by
  refine List.forall_mem_append.mpr ⟨List.forall_mem_append.mpr ⟨hhs, fun g hg => ?_⟩, hgroups⟩
  rw [List.eq_of_mem_replicate hg]
  decide

theorem ipv6Value_bound {gs : List Nat} (hlen : gs.length = 8) (hlt : ∀ g ∈ gs, g < 2 ^ 16) :
    ipv6Value gs < 2 ^ 128 := by
  have hvalue := foldl_lt hlt 0
  rwa [hlen] at hvalue

/-- Without a double colon, the octet is in the place of the last group but one. -/
theorem whole_value_iff (hgroups : ∀ g ∈ groups, g < 2 ^ 16) (hm : m < 2 ^ 32) (hv : v < 2 ^ 16)
    (hzero : m / 2 ^ 16 = 0 → v = 0) (hless : v = m / 2 ^ 16 → m / 2 ^ 16 = 0) :
    ipv6Value (groups ++ [v, 0]) = ipv6Value (groups ++ [m / 2 ^ 16, m % 2 ^ 16]) ↔ m / 2 ^ 16 = 0 ∧
    m % 2 ^ 16 = 0 := by
  have hleft : ∀ g ∈ groups ++ [v, 0], g < 2 ^ 16 := groups_pair_lt hgroups hv (by decide)
  have hright : ∀ g ∈ groups ++ [m / 2 ^ 16, m % 2 ^ 16], g < 2 ^ 16 :=
    groups_pair_lt hgroups (by omega) (by omega)
  rw [ipv6Value_inj (by simp) hleft hright, List.append_cancel_left_eq]
  simp only [List.cons.injEq, and_true]
  constructor
  · rintro ⟨hvm, hlow⟩
    exact ⟨hless hvm, hlow.symm⟩
  · rintro ⟨hhigh, hlow⟩
    exact ⟨(hzero hhigh).trans hhigh.symm, hlow.symm⟩

/-- Behind a double colon, all that follows it is in the place of the group before. -/
theorem halves_value_iff (hhs : ∀ g ∈ hs, g < 2 ^ 16) (hgroups : ∀ g ∈ groups, g < 2 ^ 16)
    (hm : m < 2 ^ 32) (hv : v < 2 ^ 16) (hzero : m / 2 ^ 16 = 0 → v = 0) :
    ipv6Value (hs ++ List.replicate (z + 1) 0 ++ (groups ++ [v])) =
      ipv6Value (hs ++ List.replicate z 0 ++ (groups ++ [m / 2 ^ 16, m % 2 ^ 16])) ↔
      (∀ g ∈ groups, g = 0) ∧ m / 2 ^ 16 = 0 ∧ m % 2 ^ 16 = 0 := by
  have hleft : ∀ g ∈ hs ++ List.replicate (z + 1) 0 ++ (groups ++ [v]), g < 2 ^ 16 :=
    zeros_lt hhs (List.forall_mem_append.mpr ⟨hgroups, by simpa using hv⟩)
  have hright : ∀ g ∈ hs ++ List.replicate z 0 ++ (groups ++ [m / 2 ^ 16, m % 2 ^ 16]),
      g < 2 ^ 16 :=
    zeros_lt hhs (groups_pair_lt hgroups (by omega) (by omega))
  have hlen : (hs ++ List.replicate (z + 1) 0 ++ (groups ++ [v])).length =
      (hs ++ List.replicate z 0 ++ (groups ++ [m / 2 ^ 16, m % 2 ^ 16])).length := by
    simp only [List.length_append, List.length_replicate, List.length_cons, List.length_nil]
    omega
  rw [ipv6Value_inj hlen hleft hright, List.append_assoc, List.append_assoc,
    List.append_cancel_left_eq, List.replicate_succ',
    List.append_assoc, List.append_cancel_left_eq]
  constructor
  · intro h
    have hsplit : (0 :: groups) ++ [v] = (groups ++ [m / 2 ^ 16]) ++ [m % 2 ^ 16] := by
      simpa using h
    obtain ⟨hshift, hlast⟩ := List.append_inj' hsplit rfl
    obtain ⟨hall, hhigh⟩ := zero_of_shift hshift
    exact ⟨hall, hhigh, (List.cons.inj hlast).1.symm.trans (hzero hhigh)⟩
  · rintro ⟨hall, hhigh, hlow⟩
    rw [List.eq_replicate_iff.mpr ⟨rfl, hall⟩, hzero hhigh, hhigh, hlow]
    exact (List.cons_append.symm.trans
      (congrArg (· ++ [0]) (List.replicate_succ.symm.trans List.replicate_succ'))).trans
      (by simp)

end

theorem partsOf_dotted (h : Dotted cs parts last groups m) : partsOf cs = parts ++ [last] := by
  obtain ⟨front, rfl⟩ := h.suffix
  have hne : front ++ last ≠ [] := List.ne_nil_of_mem
    (List.mem_append_right _ (ipv4_chars h.address).1)
  rw [partsOf, if_neg hne, h.split]

/-- An IPv6 address with an IPv4 address at its end is read as denoted only where that is no matter.
-/
theorem dotted_read (h : DottedIpv6 cs n) : ∃ v, ipv6ToBigInt cs = .ok ((v : Nat) : Int) ∧
    v < 2 ^ 128 ∧ n < 2 ^ 128 ∧
    (v = n ↔ zeroTail cs = true) := by
  cases h with
  | @whole parts last groups m split dotted length value =>
    obtain ⟨v, hv, hvlt, hzero, hless⟩ := quad_read dotted.address
    have hm := (ipv4_read dotted.address).2
    have hgroups := groups_lt dotted.groups
    have hplen := dotted.groups.length_eq.trans length
    have hread : List.Forall₂ (fun part (g : Nat) => groupToBigInt part = .ok (g : Int))
        (parts ++ [last, ['0']]) (groups ++ [v, 0]) :=
      List.rel_append (dotted.groups.imp fun _ _ hx => group_read hx)
        (.cons hv (.cons (group_read rfl) .nil))
    refine ⟨ipv6Value (groups ++ [v, 0]), ?_, ?_, ?_, ?_⟩
    · unfold ipv6ToBigInt
      rw [split]
      show (partsOf cs ++ List.replicate (8 - (partsOf cs).length - 0) ['0'] ++ []).foldlM _ _ = _
      have hlen : (parts ++ [last]).length = 7 := by simp [hplen]
      rw [partsOf_dotted dotted, hlen, List.append_nil, List.append_assoc]
      exact values_read hread 0
    · exact ipv6Value_bound (by simp [length]) (groups_pair_lt hgroups hvlt (by decide))
    · rw [value]
      exact ipv6Value_bound (by simp [length]) (groups_pair_lt hgroups (by omega) (by omega))
    · rw [value, whole_value_iff hgroups hm hvlt hzero hless]
      unfold zeroTail
      rw [split]
      simp [dottedGroups_eq dotted, ← length]
  | @halves head tail hs parts last groups m split first dotted length value =>
    obtain ⟨v, hv, hvlt, hzero, -⟩ := quad_read dotted.address
    have hm := (ipv4_read dotted.address).2
    have hgroups := groups_lt dotted.groups
    have hheads := parts_of_groups first
    obtain ⟨z, hz⟩ : ∃ z, z = 8 - hs.length - (groups.length + 2) := ⟨_, rfl⟩
    have hread : List.Forall₂ (fun part (g : Nat) => groupToBigInt part = .ok (g : Int))
        (partsOf head ++ List.replicate (z + 1) ['0'] ++ (parts ++ [last]))
          (hs ++ List.replicate (z + 1) 0 ++ (groups ++ [v])) :=
      List.rel_append (List.rel_append (hheads.imp fun _ _ hx => group_read hx)
        ((zeros_read _).imp fun _ _ hx => group_read hx))
        (List.rel_append (dotted.groups.imp fun _ _ hx => group_read hx) (.cons hv .nil))
    refine ⟨ipv6Value (hs ++ List.replicate (z + 1) 0 ++ (groups ++ [v])), ?_, ?_, ?_, ?_⟩
    · unfold ipv6ToBigInt
      rw [split]
      show (partsOf head ++ List.replicate (8 - (partsOf head).length - (partsOf tail).length)
        ['0'] ++ partsOf tail).foldlM _ _ = _
      have hroom : 8 - hs.length - (parts ++ [last]).length = z + 1 := by
        have := dotted.groups.length_eq
        simp only [List.length_append, List.length_singleton]
        omega
      rw [partsOf_dotted dotted, hheads.length_eq, hroom]
      exact values_read hread 0
    · refine ipv6Value_bound ?_ (zeros_lt (groups_lt hheads)
        (List.forall_mem_append.mpr ⟨hgroups, by simpa using hvlt⟩))
      simp only [List.length_append, List.length_replicate, List.length_singleton]
      omega
    · rw [value]
      refine ipv6Value_bound ?_ (zeros_lt (groups_lt hheads)
        (groups_pair_lt hgroups (by omega) (by omega)))
      simp only [List.length_append, List.length_replicate, List.length_cons, List.length_nil]
      omega
    · rw [value, ← hz, halves_value_iff (groups_lt hheads) hgroups hm hvlt hzero]
      unfold zeroTail
      rw [split]
      simp [dottedGroups_eq dotted]

theorem groups_length {gs : List Nat} (h : groups? cs = some gs) :
    gs = [] ∨ (cs.splitOn ':').length = gs.length := by
  unfold groups? at h
  split at h
  · exact .inl (Option.some.inj h).symm
  · exact .inr (mapM_some h).length_eq

/-- An IPv6 address that begins with `::` has seven groups at most behind it, and no other `::`. -/
theorem behind_double {tail : List Char} (hzone : '%' ∉ ':' :: ':' :: tail)
    (h : ipv6? (':' :: ':' :: tail) = some n) :
    splitDouble tail = [tail] ∧ (tail = [] ∨ (tail.splitOn ':').length ≤ 7) := by
  have hsplit : splitDouble (':' :: ':' :: tail) = [] :: splitDouble tail := by rw [splitDouble]
  obtain hhex | ⟨-, hdotted⟩ := ipv6_shape hzone h
  · unfold hexIpv6? ipv6Groups? at hhex
    rw [hsplit] at hhex
    split at hhex
    · rename_i whole heq
      exact absurd (List.cons.inj heq).2 (splitDouble_ne_nil tail)
    · rename_i head tail' heq
      obtain ⟨rfl, hone⟩ := List.cons.inj heq
      obtain rfl := splitDouble_one hone
      refine ⟨hone, ?_⟩
      split at hhex
      · rename_i hs ts hhead htail
        split at hhex
        · rename_i hroom
          unfold groups? at htail
          split at htail
          · exact .inl ‹_›
          · rw [(mapM_some htail).length_eq]
            exact .inr (by omega)
        · cases hhex
      · cases hhex
    · cases hhex
  · cases hdotted with
    | whole split =>
      rw [hsplit] at split
      exact absurd (List.cons.inj split).2 (splitDouble_ne_nil tail)
    | halves split first dotted length value =>
      rw [hsplit] at split
      obtain ⟨rfl, hone⟩ := List.cons.inj split
      obtain rfl := splitDouble_one hone
      refine ⟨hone, .inr ?_⟩
      rw [dotted.split, List.length_append, dotted.groups.length_eq, List.length_singleton]
      omega

/-- What follows the prefix of a mapped address is no IPv6 address. -/
theorem rest_not_ipv6 {w rest : List Char} (hw : ':' ∉ w)
    (hzone : '%' ∉ ':' :: ':' :: (w ++ ':' :: rest))
    (h : ipv6? (':' :: ':' :: (w ++ ':' :: rest)) = some n) : ipv6? rest = none := by
  obtain ⟨hsplit, hlen⟩ := behind_double hzone h
  have hlen : (rest.splitOn ':').length ≤ 6 := by
    rcases hlen with hnil | hlen
    · simp at hnil
    · rw [List.splitOn_append_cons_self_of_not_mem hw, List.length_cons] at hlen
      omega
  have hrest : splitDouble rest = [rest] := by
    apply splitDouble_single
    rintro front back rfl
    have htwo := splitDouble_length (w ++ ':' :: front) back
    rw [List.append_assoc, List.cons_append] at htwo
    rw [hsplit, List.length_singleton] at htwo
    omega
  have hzone' : '%' ∉ rest := fun hc => hzone (by simp [hc])
  cases hk : ipv6? rest with
  | none => rfl
  | some k =>
    obtain hhex | ⟨-, hdotted⟩ := ipv6_shape hzone' hk
    · unfold hexIpv6? ipv6Groups? at hhex
      rw [hrest] at hhex
      obtain ⟨gs, hgs, -⟩ := Option.map_eq_some_iff.mp hhex
      obtain ⟨hgs, height⟩ := Option.filter_eq_some_iff.mp hgs
      have height : gs.length = 8 := by simpa using height
      rcases groups_length hgs with rfl | hparts
      · cases height
      · omega
    · cases hdotted with
      | whole split dotted length value =>
        rw [dotted.split, List.length_append, dotted.groups.length_eq, length] at hlen
        exact absurd hlen (by simp)
      | halves split =>
        rw [hrest] at split
        simp at split

/-- An IPv6 address without a zone has no blanks, no brackets and no port. -/
theorem ipv6_text (hzone : '%' ∉ cs) (h : ipv6? cs = some n) :
    (∀ c ∈ cs, isSpace c = false ∧ c ≠ '[') ∧ withoutPort cs = cs := by
  obtain hhex | ⟨-, hdotted⟩ := ipv6_shape hzone h
  · have hchars := hexIpv6_chars hhex
    have hdot : '.' ∉ cs := fun hc => absurd (hchars _ hc) (by decide)
    exact ⟨fun c hc => hex_chars (by rw [hchars c hc, Bool.true_or]), if_neg (by simp [hdot])⟩
  · obtain ⟨front, last, hcs, hdot, hcolon⟩ := hdotted.ending
    refine ⟨fun c hc => hex_chars (hdotted.chars c hc), ?_⟩
    rw [withoutPort, hcs, withoutTrailingPort_eq hdot hcolon, ite_self]

theorem normalizeIp_ipv6 (hzone : '%' ∉ cs) (h : ipv6? cs = some n) : normalizeIp (some cs) =
    if (isIP (withoutIpv4MappedPrefix cs)).isSome then some (withoutIpv4MappedPrefix cs)
      else none := by
  obtain ⟨hchars, hport⟩ := ipv6_text hzone h
  have hne : cs ≠ [] := by
    rintro rfl
    have hnil : ipv6? [] = none := by decide
    rw [hnil] at h
    cases h
  unfold normalizeIp
  rw [Option.map_some, trimList_eq fun c hc => (hchars c hc).1]
  simp only
  rw [if_neg hne, withoutBrackets_eq fun hc => (hchars _ hc).2 rfl, hport]

/-- An IPv4 address behind `::ffff:` is the one that the IPv6 address is mapped to. -/
theorem ipv6_of_mapped (hzone : '%' ∉ cs) (h : ipv6? cs = some n)
    (hmark : hasMappedPrefix cs = true) (hm : ipv4? (cs.drop 7) = some m) : n = mapped m := by
  obtain ⟨w, hcs, hw, hgroup⟩ := mapped_shape hmark
  generalize cs.drop 7 = rest at hcs hm
  subst hcs
  obtain ⟨hsplit, -⟩ := behind_double hzone h
  have hparts : (w ++ ':' :: rest).splitOn ':' = [w, rest] := by
    rw [List.splitOn_append_cons_self_of_not_mem hw, List.splitOn_eq_singleton (ipv4_no_colon hm)]
  have hdouble : splitDouble (':' :: ':' :: (w ++ ':' :: rest)) = [[], w ++ ':' :: rest] := by
    rw [splitDouble, hsplit]
  obtain hhex | ⟨-, hdotted⟩ := ipv6_shape hzone h
  · have hdot : '.' ∈ ':' :: ':' :: (w ++ ':' :: rest) := by simp [(ipv4_chars hm).1]
    exact absurd (hexIpv6_chars hhex _ hdot) (by decide)
  · cases hdotted with
    | whole split =>
      rw [hdouble] at split
      simp at split
    | @halves head tail hs parts last groups m' split first dotted length value =>
      rw [hdouble, List.cons.injEq, List.cons.injEq] at split
      obtain ⟨rfl, rfl, -⟩ := split
      obtain rfl : hs = [] := (Option.some.inj first).symm
      have hlast : parts ++ [last] = [w] ++ [rest] := dotted.split.symm.trans hparts
      obtain ⟨hparts', hrest⟩ := List.append_inj' hlast rfl
      subst hparts'
      obtain rfl := (List.cons.inj hrest).1
      obtain rfl := Option.some.inj (dotted.address.symm.trans hm)
      obtain ⟨g, hg⟩ : ∃ g, groups = [g] := List.length_eq_one_iff.mp dotted.groups.length_eq.symm
      subst hg
      have hg : group? w = some g := by
        have := dotted.groups
        simpa using this
      obtain rfl := Option.some.inj (hg.symm.trans hgroup)
      rw [value]
      show ipv6Value [0, 0, 0, 0, 0, 0xffff, m' / 2 ^ 16, m' % 2 ^ 16] = mapped m'
      simp only [ipv6Value, mapped, List.foldl_cons, List.foldl_nil]
      omega

/-- What the text denotes and what the code reads in it, which is the same in the good spellings
only. -/
def ReadIffGood (cs : List Char) : Prop :=
  ∃ f n r, canonical? cs = some (f, n) ∧ n < 2 ^ familyBits f ∧ CodeReads cs r ∧
    (r = some (f, n) ↔ wellRead cs = true)

theorem plainIpv4_of (h : ipv4? cs = some n) : plainIpv4 cs = true := by
  have hchars := ipv4_chars h
  rw [plainIpv4, h, Bool.and_eq_true, Bool.and_eq_true, List.all_eq_true]
  exact ⟨⟨rfl, by simpa using hchars.1⟩, hchars.2⟩

theorem ipv4_readIffGood (h : ipv4? cs = some n) : ReadIffGood cs := by
  obtain ⟨k, hk, hbound, hnormal, hfamily, hvalue⟩ := plainIpv4_reads (plainIpv4_of h)
  obtain rfl := Option.some.inj (hk.symm.trans h)
  refine ⟨.ipv4, k, _, by rw [canonical?, h], hbound, .parsed hnormal hfamily hvalue hbound, ?_⟩
  rw [wellRead, h]
  simp

theorem ipv6_bound (hzone : '%' ∉ cs) (h : ipv6? cs = some n) : n < 2 ^ 128 := by
  obtain hhex | ⟨-, hdotted⟩ := ipv6_shape hzone h
  · exact (ipv6_read hhex).2
  · obtain ⟨_, -, -, hlt, -⟩ := dotted_read hdotted
    exact hlt

theorem canonical_cases (hnone : ipv4? cs = none) (hzone : '%' ∉ cs) (h : ipv6? cs = some n) :
    (n / 2 ^ 32 = 0xffff ∧ canonical? cs = some (.ipv4, n % 2 ^ 32) ∧
      n % 2 ^ 32 < 2 ^ familyBits .ipv4) ∨
      (n / 2 ^ 32 ≠ 0xffff ∧ canonical? cs = some (.ipv6, n) ∧ n < 2 ^ familyBits .ipv6) := by
  have hcanonical : canonical? cs = some (if n / 2 ^ 32 = 0xffff then (.ipv4, n % 2 ^ 32)
    else (.ipv6, n)) := by
    rw [canonical?, hnone, h]
    rfl
  rw [hcanonical]
  split
  · exact .inl ⟨‹_›, rfl, Nat.mod_lt _ (Nat.two_pow_pos 32)⟩
  · exact .inr ⟨‹_›, rfl, ipv6_bound hzone h⟩

/-- Behind `::ffff:` the code reads nothing but an IPv4 address. -/
theorem mapped_readIffGood (hnone : ipv4? cs = none) (hzone : '%' ∉ cs) (hn : ipv6? cs = some n)
    (hmark : hasMappedPrefix cs = true) : ReadIffGood cs := by
  have hnormal := normalizeIp_ipv6 hzone hn
  rw [show withoutIpv4MappedPrefix cs = cs.drop 7 from if_pos (of_decide_eq_true hmark)] at hnormal
  have hwell : wellRead cs = (ipv4? (cs.drop 7)).isSome := by
    rw [wellRead, hnone, if_pos hmark]
    rfl
  cases hm : ipv4? (cs.drop 7) with
  | some m =>
    obtain ⟨k, hk, hbound, -, hfamily, hvalue⟩ := plainIpv4_reads (plainIpv4_of hm)
    obtain rfl := Option.some.inj (hk.symm.trans hm)
    rw [hfamily, Option.isSome_some, if_pos rfl] at hnormal
    have hvalues : n / 2 ^ 32 = 0xffff ∧ n % 2 ^ 32 = k := by
      rw [ipv6_of_mapped hzone hn hmark hm, mapped]
      omega
    obtain ⟨-, hcanonical, hlt⟩ | ⟨hno, -⟩ := canonical_cases hnone hzone hn
    · rw [hvalues.2] at hcanonical
      refine ⟨.ipv4, k, _, hcanonical, hbound, .parsed hnormal hfamily hvalue hbound, ?_⟩
      rw [hwell, hm]
      simp
    · exact absurd hvalues.1 hno
  | none =>
    obtain ⟨w, hcs, hw, -⟩ := mapped_shape hmark
    have hrest : isIP (cs.drop 7) = none := by
      have hsix : ipv6? (cs.drop 7) = none := by
        generalize cs.drop 7 = rest at hcs
        subst hcs
        exact rest_not_ipv6 hw hzone hn
      rw [isIP, hm, hsix]
      rfl
    rw [hrest, if_neg (by simp)] at hnormal
    have hiff : ∀ x : Family × Nat, none = some x ↔ wellRead cs = true := by
      intro x
      rw [hwell, hm]
      simp
    obtain ⟨-, hcanonical, hlt⟩ | ⟨-, hcanonical, hlt⟩ := canonical_cases hnone hzone hn
    · exact ⟨_, _, none, hcanonical, hlt, .rejected hnormal, hiff _⟩
    · exact ⟨_, _, none, hcanonical, hlt, .rejected hnormal, hiff _⟩

/-- Any other IPv6 address is read as one, and an IPv4 address at its end is read in hexadecimal. -/
theorem unmapped_readIffGood (hnone : ipv4? cs = none) (hzone : '%' ∉ cs) (hn : ipv6? cs = some n)
    (hmark : hasMappedPrefix cs = false) : ReadIffGood cs := by
  have hnormal := normalizeIp_ipv6 hzone hn
  have hsix : isIP cs = some .ipv6 := by
    rw [isIP, hnone, hn]
    rfl
  rw [withoutPrefix_eq hmark, hsix, Option.isSome_some, if_pos rfl] at hnormal
  have hparse : ipToBigInt cs = (ipv6ToBigInt cs).map fun value => some (.ipv6, value) := by
    unfold ipToBigInt
    rw [hnormal]
    simp only [hsix]
  have hwell : wellRead cs = ((n / 2 ^ 32 != 0xffff) && (!cs.contains '.' || zeroTail cs)) := by
    rw [wellRead, hnone, hn, hmark]
    simp
  obtain ⟨v, hv, hvlt, hgood⟩ : ∃ v, ipv6ToBigInt cs = .ok ((v : Nat) : Int) ∧ v < 2 ^ 128 ∧
      (v = n ↔ (!cs.contains '.' || zeroTail cs) = true) := by
    obtain hhex | ⟨-, hdotted⟩ := ipv6_shape hzone hn
    · have hdot : '.' ∉ cs := fun hc => absurd (hexIpv6_chars hhex _ hc) (by decide)
      exact ⟨n, (ipv6_read hhex).1, (ipv6_read hhex).2, by simp [hdot]⟩
    · obtain ⟨v, hv, hvlt, -, hiff⟩ := dotted_read hdotted
      obtain ⟨front, last, hcs, hdot, -⟩ := hdotted.ending
      have hdot : '.' ∈ cs := by simp [hcs, hdot]
      exact ⟨v, hv, hvlt, by simpa [hdot] using hiff⟩
  rw [hv] at hparse
  obtain ⟨hyes, hcanonical, hlt⟩ | ⟨hno, hcanonical, hlt⟩ := canonical_cases hnone hzone hn
  · refine ⟨_, _, some (.ipv6, v), hcanonical, hlt, .parsed hnormal hsix hparse hvlt, ?_⟩
    rw [hwell, hyes]
    simp
  · refine ⟨_, _, some (.ipv6, v), hcanonical, hlt, .parsed hnormal hsix hparse hvlt, ?_⟩
    rw [hwell, bne_iff_ne.mpr hno, Bool.true_and, ← hgood]
    simp

/-- An address text has digits, colons and dots only. -/
theorem ValidAddress.chars (h : ValidAddress cs) : ∀ c ∈ cs, isSpace c = false ∧ c ≠ '/' ∧
    c ≠ ',' := by
  have hall : ∀ c ∈ cs, ((hexValue c).isSome || c == ':' || c == '.') = true := by
    have haccepted := h.accepted
    unfold isIP at haccepted
    split at haccepted
    · rename_i hfour
      obtain ⟨n, hn⟩ := Option.isSome_iff_exists.mp hfour
      intro c hc
      rcases Bool.or_eq_true_iff.mp ((ipv4_chars hn).2 c hc) with hdigit | hdot
      · rw [(hexValue_digit hdigit).1]
        rfl
      · rw [hdot, Bool.or_true]
    · split at haccepted
      · rename_i hsix
        obtain ⟨n, hn⟩ := Option.isSome_iff_exists.mp hsix
        obtain hhex | ⟨-, hdotted⟩ := ipv6_shape h.zone hn
        · exact fun c hc => by rw [hexIpv6_chars hhex c hc, Bool.true_or]
        · exact hdotted.chars
      · cases haccepted
  intro c hc
  refine ⟨(hex_chars (hall c hc)).1, ?_, ?_⟩
  all_goals
    rintro rfl
    cases hall _ hc

theorem ValidAddress.readIffGood (h : ValidAddress cs) : ReadIffGood cs := by
  cases hfour : ipv4? cs with
  | some n => exact ipv4_readIffGood hfour
  | none =>
    have haccepted := h.accepted
    unfold isIP at haccepted
    rw [hfour, if_neg (by simp)] at haccepted
    split at haccepted
    · rename_i hsix
      obtain ⟨n, hn⟩ := Option.isSome_iff_exists.mp hsix
      cases hmark : hasMappedPrefix cs with
      | true => exact mapped_readIffGood hfour h.zone hn hmark
      | false => exact unmapped_readIffGood hfour h.zone hn hmark
    · cases haccepted

/-- Numbers that agree in all but the low bits agree under the mask. -/
theorem masked_of_div_eq {bits p v b : Nat} (h : v / 2 ^ (bits - p) = b / 2 ^ (bits - p)) :
    v &&& maskOf bits p = b &&& maskOf bits p := by
  simp only [maskOf]
  split
  · rw [Nat.and_zero, Nat.and_zero]
  · apply Nat.eq_of_testBit_eq
    intro i
    simp only [Nat.testBit_and, Nat.testBit_shiftLeft]
    rcases Nat.lt_or_ge i (bits - p) with hlt | hge
    · rw [decide_eq_false (Nat.not_le.mpr hlt)]
      simp
    · have hbit := congrArg (fun x => Nat.testBit x (i - (bits - p))) h
      simp only [Nat.testBit_div_two_pow, Nat.sub_add_cancel hge] at hbit
      rw [hbit]

/-- The code's network covers what agrees with its base in the bits of the prefix. -/
theorem covers_iff {f g : Family} {v b p : Nat} (hv : v < 2 ^ familyBits g)
    (hb : b < 2 ^ familyBits f) :
    (⟨f, Int.land b (maskOf (familyBits f) p), maskOf (familyBits f) p⟩ : TrustedNetwork).covers (g,
      (v : Int)) = true ↔
      f = g ∧ v / 2 ^ (familyBits f - p) = b / 2 ^ (familyBits f - p) := by
  rw [TrustedNetwork.covers, Bool.and_eq_true, decide_eq_true_eq, decide_eq_true_eq]
  refine and_congr_right fun hfamily => ?_
  subst hfamily
  have hcast : Int.land (v : Int) (maskOf (familyBits f) p) =
    Int.land (b : Int) (maskOf (familyBits f) p) ↔
      v &&& maskOf (familyBits f) p = b &&& maskOf (familyBits f) p := Int.ofNat_inj
  exact hcast.trans ⟨div_eq_of_masked hv hb, masked_of_div_eq⟩

end
end ClientIp

/-- An entry of the list of proxies: a network by its base and the length of the prefix. -/
structure ProxyEntry where
  base : List Char
  length : List Char

namespace ProxyEntry

def text (e : ProxyEntry) : List Char := e.base ++ '/' :: e.length

/-- The prefix is not longer than an address of the family. -/
structure Valid (e : ProxyEntry) : Prop where
  base : ValidAddress e.base
  length : ∃ f b p, canonical? e.base = some (f, b) ∧ decimal? e.length = some p ∧ p ≤ familyBits f

/-- The address is of the same family and agrees with the base in the first bits. -/
def Covers (e : ProxyEntry) (a : List Char) : Prop :=
  ∃ f n b p, canonical? a = some (f, n) ∧ canonical? e.base = some (f, b) ∧
    decimal? e.length = some p ∧
    n / 2 ^ (familyBits f - p) = b / 2 ^ (familyBits f - p)

end ProxyEntry

/-- Whatever the environment that has these entries, an address is trusted if and only if one of
them covers it. -/
def ExactlyTrusted (a : List Char) (entries : List ProxyEntry) : Prop :=
  ∀ env, proxyEntries env = entries.map ProxyEntry.text → ∃ trusted,
    trustDecision env (some (String.ofList a)) = .ok trusted ∧
      (trusted = true ↔ ∃ e ∈ entries, e.Covers a)

namespace ProxyEntry
variable {e : ProxyEntry} {entries : List ProxyEntry} {a : List Char}
  {r : Option (Family × Nat)} {p : Nat}

theorem length_chars {cs : List Char} (h : decimal? cs = some p) : ∀ c ∈ cs, c.isDigit = true := by
  unfold decimal? at h
  split at h
  · rename_i hdigits
    exact List.all_eq_true.mp hdigits.2
  · cases h

theorem text_chars (hbase : ValidAddress e.base) (hlength : decimal? e.length = some p) :
    ∀ c ∈ e.text, isSpace c = false ∧ c ≠ ',' := by
  intro c hc
  simp only [text, List.mem_append, List.mem_cons] at hc
  rcases hc with hc | rfl | hc
  · exact ⟨(hbase.chars c hc).1, (hbase.chars c hc).2.2⟩
  · decide
  · have hdigit := length_chars hlength c hc
    refine ⟨isSpace_digit hdigit, ?_⟩
    rintro rfl
    cases hdigit

theorem text_split (hbase : ValidAddress e.base) (hlength : decimal? e.length = some p) :
    (trimList e.text).splitOn '/' = [e.base, e.length] := by
  have hslash : '/' ∉ e.length := fun hc => absurd (length_chars hlength _ hc) (by decide)
  rw [trimList_eq fun c hc => (text_chars hbase hlength c hc).1, text,
    List.splitOn_append_cons_self_of_not_mem fun hc => (hbase.chars _ hc).2.1 rfl,
      List.splitOn_eq_singleton hslash]

/-- The network that the code makes of an entry, where it takes the base for an address. -/
theorem parseCidr_text (hbase : ValidAddress e.base) (hlength : decimal? e.length = some p)
    (hr : CodeReads e.base r) :
    ∃ x, parseCidr e.text = .ok x ∧ (r = none → x = none) ∧ ∀ f v, r = some (f, v) →
      (∀ network, x = some network → network.family = f) ∧
      (p ≤ familyBits f → x = some ⟨f, Int.land v (maskOf (familyBits f) p),
        maskOf (familyBits f) p⟩) := by
  unfold parseCidr
  simp only [text_split hbase hlength, List.headD_cons, List.tail_cons, number_digits hlength,
    Option.bind_some]
  cases hr with
  | rejected normal =>
    refine ⟨none, by rw [normal], fun _ => rfl, fun f v h => ?_⟩
    cases h
  | @parsed ip f v normal family value bound =>
    have hbits : (if isIP ip = some .ipv4 then 32 else 128) = familyBits f := by
      rw [family]
      cases f <;> rfl
    have hself : p ≤ familyBits f → integerUpTo (familyBits f) p = some p :=
      fun hle => integerUpTo_self hle (by cases f <;> decide)
    simp only [normal, hbits]
    cases hp : integerUpTo (familyBits f) (p : Rat) with
    | none =>
      refine ⟨none, rfl, fun _ => rfl, fun g w h => ?_⟩
      cases h
      refine ⟨fun network hnetwork => ?_, fun hle => ?_⟩
      · cases hnetwork
      · rw [hself hle] at hp
        cases hp
    | some q =>
      simp only [value]
      refine ⟨_, rfl, fun h => ?_, fun g w h => ?_⟩
      · cases h
      · cases h
        refine ⟨fun network hnetwork => ?_, fun hle => ?_⟩
        · rw [← Option.some.inj hnetwork]
        · rw [hself hle] at hp
          obtain rfl := Option.some.inj hp
          rfl

variable (e) in
/-- The network of an entry, if any. -/
def network? : Option TrustedNetwork := ((parseCidr e.text).toOption).join

end ProxyEntry

section
variable {entries : List ProxyEntry} {env : ProxyEnv} {a : List Char} {r : Option (Family × Nat)}

/-- The networks of entries that the code can parse. -/
theorem networks_eq (henv : proxyEntries env = entries.map ProxyEntry.text)
    (hparse : ∀ e ∈ entries, ∃ x, parseCidr e.text = .ok x) :
    getTrustedProxyNetworks env = .ok (entries.filterMap ProxyEntry.network?) := by
  unfold getTrustedProxyNetworks
  rw [henv]
  have hmap : (entries.map ProxyEntry.text).mapM parseCidr =
      .ok (entries.map ProxyEntry.network?) := by
    clear henv
    induction entries with
    | nil => rfl
    | cons e entries ih =>
      obtain ⟨x, hx⟩ := hparse e List.mem_cons_self
      have hnetwork : e.network? = x := by
        rw [ProxyEntry.network?, hx]
        cases x <;> rfl
      rw [List.map_cons, List.mapM_cons, hx,
        ih fun e' he' => hparse e' (List.mem_cons_of_mem _ he'), List.map_cons, hnetwork]
      rfl
  rw [hmap]
  exact congrArg Except.ok List.filterMap_map

/-- What the code says of an address that it reads. -/
theorem decision_eq (henv : proxyEntries env = entries.map ProxyEntry.text)
    (hparse : ∀ e ∈ entries, ∃ x, parseCidr e.text = .ok x) (hr : CodeReads a r) :
    ∃ trusted, trustDecision env (some (String.ofList a)) = .ok trusted ∧
      (trusted = true ↔ ∃ f v, r = some (f, v) ∧ ∃ e ∈ entries, ∃ network,
        e.network? = some network ∧
        network.covers (f, (v : Int)) = true) := by
  unfold trustDecision
  rw [networks_eq henv hparse]
  have hpeer : normalized (some (String.ofList a)) = normalizeIp (some a) := by
    rw [normalized, Option.map_some, String.toList_ofList]
  show ∃ trusted, isTrustedProxy (normalized (some (String.ofList a))) _ = .ok trusted ∧ _
  rw [hpeer]
  unfold isTrustedProxy
  cases hr with
  | rejected normal =>
    rw [normal]
    exact ⟨false, rfl, by simp⟩
  | @parsed ip f v normal family value bound =>
    rw [normal]
    simp only [value]
    refine ⟨(entries.filterMap ProxyEntry.network?).any fun network =>
      network.covers (f, (v : Int)), ?_, ?_⟩
    · split
      · rename_i hnil
        rw [hnil]
        rfl
      · rfl
    · rw [List.any_eq_true]
      simp only [List.mem_filterMap, Option.some.injEq, Prod.mk.injEq]
      constructor
      · rintro ⟨network, ⟨e, he, hnetwork⟩, hcovers⟩
        exact ⟨f, v, ⟨rfl, rfl⟩, e, he, network, hnetwork, hcovers⟩
      · rintro ⟨_, _, ⟨rfl, rfl⟩, e, he, network, hnetwork, hcovers⟩
        exact ⟨network, ⟨e, he, hnetwork⟩, hcovers⟩

end

section
variable {cs a b : List Char} {e : ProxyEntry} {entries : List ProxyEntry} {f : Family} {n p : Nat}
  {r : Option (Family × Nat)}

theorem canonical_unmapped (h : canonical? cs = some (.ipv6, n)) : n / 2 ^ 32 ≠ 0xffff := by
  unfold canonical? at h
  split at h
  · cases h
  · obtain ⟨k, -, hk⟩ := Option.map_eq_some_iff.mp h
    split at hk
    · cases hk
    · cases hk
      exact ‹_›

/-- Each address that has a text has a good one. -/
theorem exists_wellRead (h : canonical? cs = some (f, n)) (hlt : n < 2 ^ familyBits f) :
    ∃ t, ValidAddress t ∧ wellRead t = true ∧ canonical? t = some (f, n) := by
  cases f with
  | ipv4 =>
    have hfour := ipv4_dottedText hlt
    refine ⟨dottedText n, ⟨?_, fun hc => absurd ((ipv4_chars hfour).2 _ hc) (by decide)⟩, ?_, ?_⟩
    · rw [isIP, hfour]
      rfl
    · rw [wellRead, hfour]
      rfl
    · rw [canonical?, hfour]
  | ipv6 =>
    have hhex := hexIpv6_hexText hlt
    have hchars := hexIpv6_chars hhex
    have hnone : ipv4? (hexText n) = none := by
      rw [Option.eq_none_iff_forall_ne_some]
      intro k hk
      exact absurd (hchars _ (ipv4_chars hk).1) (by decide)
    have hsix : ipv6? (hexText n) = some n := by rw [ipv6?, hhex, Option.some_or]
    have hdot : '.' ∉ hexText n := fun hc => absurd (hchars _ hc) (by decide)
    have hmark : hasMappedPrefix (hexText n) = false := by
      rw [Bool.eq_false_iff]
      intro hmark
      obtain ⟨w, hw, -⟩ := mapped_shape hmark
      -- the text would begin with an empty group
      have hempty : [] ∈ (hexText n).splitOn ':' := by
        rw [hw, splitOn_cons_self]
        exact List.mem_cons_self
      rw [splitOn_hexText hlt] at hempty
      obtain ⟨g, -, hg⟩ := List.mem_map.mp hempty
      cases hg
    refine ⟨hexText n, ⟨?_, fun hc => absurd (hchars _ hc) (by decide)⟩, ?_, ?_⟩
    · rw [isIP, hnone, hsix]
      rfl
    · rw [wellRead, hnone, hsix, hmark]
      simp only [Option.isSome_none, Option.all_some, Bool.false_or, Bool.false_eq_true, if_false,
        Bool.and_eq_true, bne_iff_ne,
        List.contains_eq_mem, hdot, decide_false, Bool.not_false, Bool.true_or, and_true]
      exact canonical_unmapped h
    · rw [canonical?, hnone, hsix, Option.map_some, if_neg (canonical_unmapped h)]

/-- The environment with one entry. -/
theorem proxyEntries_single (hbase : ValidAddress e.base) (hlength : decimal? e.length = some p) :
    proxyEntries ⟨some (String.ofList e.text), none⟩ = [e].map ProxyEntry.text := by
  have hchars := ProxyEntry.text_chars hbase hlength
  have hcomma : ',' ∉ e.text := fun hc => (hchars _ hc).2 rfl
  have hne : e.text ≠ [] := by simp [ProxyEntry.text]
  unfold proxyEntries
  simp only [Option.some_or, Option.getD_some, String.toList_ofList,
    List.splitOn_eq_singleton hcomma, List.map_cons, List.map_nil,
    trimList_eq fun c hc => (hchars c hc).1]
  simp [hne]

theorem ProxyEntry.Valid.parses (he : e.Valid) : ∃ x, parseCidr e.text = .ok x := by
  obtain ⟨f, b, p, -, hlength, -⟩ := he.length
  obtain ⟨-, -, r, -, -, hr, -⟩ := he.base.readIffGood
  obtain ⟨x, hx, -⟩ := ProxyEntry.parseCidr_text he.base hlength hr
  exact ⟨x, hx⟩

/-- An entry with a good base is read as the network that it denotes. -/
theorem ProxyEntry.Valid.network (he : e.Valid) (hgood : wellRead e.base = true) : ∃ f b p,
    canonical? e.base = some (f, b) ∧ decimal? e.length = some p ∧ b < 2 ^ familyBits f ∧
      e.network? = some ⟨f, Int.land b (maskOf (familyBits f) p), maskOf (familyBits f) p⟩ := by
  obtain ⟨f, b, p, hcanonical, hlength, hle⟩ := he.length
  obtain ⟨f', b', r, hcanonical', hlt, hr, hiff⟩ := he.base.readIffGood
  obtain ⟨rfl, rfl⟩ := Prod.mk.inj (Option.some.inj (hcanonical'.symm.trans hcanonical))
  obtain ⟨x, hx, -, hsome⟩ := ProxyEntry.parseCidr_text he.base hlength hr
  refine ⟨f', b', p, hcanonical, hlength, hlt, ?_⟩
  rw [ProxyEntry.network?, hx, ← (hsome f' b' (hiff.mpr hgood)).2 hle]
  cases x <;> rfl

theorem exactlyTrusted_of_good (ha : ValidAddress a) (hgood : wellRead a = true)
    (hentries : ∀ e ∈ entries, e.Valid ∧ wellRead e.base = true) : ExactlyTrusted a entries := by
  intro env henv
  obtain ⟨f, n, r, hcanonical, hlt, hr, hiff⟩ := ha.readIffGood
  obtain rfl := hiff.mpr hgood
  obtain ⟨trusted, hdecision, htrusted⟩ :=
    decision_eq henv (fun e he => (hentries e he).1.parses) hr
  refine ⟨trusted, hdecision, htrusted.trans ?_⟩
  constructor
  · rintro ⟨_, _, hsome, e, he, network, hnetwork, hcovers⟩
    obtain ⟨rfl, rfl⟩ := Prod.mk.inj (Option.some.inj hsome)
    obtain ⟨g, b, p, hbase, hlength, hb, hread⟩ := (hentries e he).1.network (hentries e he).2
    obtain rfl := Option.some.inj (hnetwork.symm.trans hread)
    have hgf : g = f := by
      rw [TrustedNetwork.covers, Bool.and_eq_true, decide_eq_true_eq] at hcovers
      exact hcovers.1
    subst hgf
    exact ⟨e, he, g, n, b, p, hcanonical, hbase, hlength, ((covers_iff hlt hb).mp hcovers).2⟩
  · rintro ⟨e, he, f', n', b, p, hcanonical', hbase, hlength, hagree⟩
    obtain ⟨rfl, rfl⟩ := Prod.mk.inj (Option.some.inj (hcanonical.symm.trans hcanonical'))
    obtain ⟨g, b', p', hbase', hlength', hb, hread⟩ := (hentries e he).1.network (hentries e he).2
    obtain ⟨rfl, rfl⟩ := Prod.mk.inj (Option.some.inj (hbase.symm.trans hbase'))
    obtain rfl := Option.some.inj (hlength.symm.trans hlength')
    exact ⟨_, _, rfl, e, he, _, hread, (covers_iff hlt hb).mpr ⟨rfl, hagree⟩⟩

/-- The length of the prefix that has no host bits. -/
def fullLength : Family → List Char
  | .ipv4 => "32".toList
  | .ipv6 => "128".toList

theorem decimal_fullLength (f : Family) : decimal? (fullLength f) = some (familyBits f) := by
  cases f <;> decide

/-- What covers an address in full has it. -/
theorem covers_self {e : ProxyEntry} (ha : canonical? a = some (f, n))
    (hb : canonical? e.base = some (f, n)) (hlength : decimal? e.length = some p) : e.Covers a :=
  ⟨f, n, n, p, ha, hb, hlength, rfl⟩

/-- An address in another spelling is not trusted where it should be. -/
theorem not_exactlyTrusted_address (ha : ValidAddress a) (hbad : wellRead a = false) :
    ∃ e : ProxyEntry, (e.Valid ∧ wellRead e.base = true) ∧ ¬ ExactlyTrusted a [e] := by
  obtain ⟨f, n, r, hcanonical, hlt, hr, hiff⟩ := ha.readIffGood
  obtain ⟨t, ht, hgood, hsame⟩ := exists_wellRead hcanonical hlt
  have hvalid : ProxyEntry.Valid ⟨t, fullLength f⟩ :=
    ⟨ht, f, n, familyBits f, hsame, decimal_fullLength f, Nat.le_refl _⟩
  refine ⟨⟨t, fullLength f⟩, ⟨hvalid, hgood⟩, fun hexact => ?_⟩
  have henv := proxyEntries_single hvalid.base (decimal_fullLength f)
  obtain ⟨trusted, hdecision, htrusted⟩ := hexact _ henv
  obtain ⟨trusted', hdecision', htrusted'⟩ :=
    decision_eq henv (fun e he => List.mem_singleton.mp he ▸ hvalid.parses) hr
  obtain rfl := Except.ok.inj (hdecision.symm.trans hdecision')
  have hcovers := htrusted.mpr ⟨_, List.mem_singleton_self _,
    covers_self hcanonical hsame (decimal_fullLength f)⟩
  obtain ⟨g, v, rfl, e, he, network, hnetwork, hcode⟩ := htrusted'.mp hcovers
  obtain rfl := List.mem_singleton.mp he
  obtain ⟨f', b, p, hbase, hlength, hb, hread⟩ := hvalid.network hgood
  obtain ⟨rfl, rfl⟩ := Prod.mk.inj (Option.some.inj (hbase.symm.trans hsame))
  obtain rfl := Option.some.inj (hlength.symm.trans (decimal_fullLength f'))
  obtain rfl := Option.some.inj (hnetwork.symm.trans hread)
  obtain ⟨rfl, hagree⟩ := (covers_iff hr.bound hb).mp hcode
  rw [Nat.sub_self, Nat.pow_zero, Nat.div_one, Nat.div_one] at hagree
  rw [hiff.mp (by rw [hagree])] at hbad
  cases hbad

/-- A base in another spelling does not stand for its own address. -/
theorem not_exactlyTrusted_base (hb : ValidAddress b) (hbad : wellRead b = false) :
    ∃ a length, ValidAddress a ∧
    wellRead a = true ∧ ProxyEntry.Valid ⟨b, length⟩ ∧ ¬ ExactlyTrusted a [⟨b, length⟩] := by
  obtain ⟨f, n, r, hcanonical, hlt, hr, hiff⟩ := hb.readIffGood
  obtain ⟨t, ht, hgood, hsame⟩ := exists_wellRead hcanonical hlt
  have hvalid : ProxyEntry.Valid ⟨b, fullLength f⟩ :=
    ⟨hb, f, n, familyBits f, hcanonical, decimal_fullLength f, Nat.le_refl _⟩
  refine ⟨t, fullLength f, ht, hgood, hvalid, fun hexact => ?_⟩
  have henv := proxyEntries_single hvalid.base (decimal_fullLength f)
  obtain ⟨f', n', r', hcanonical', -, hr', hiff'⟩ := ht.readIffGood
  obtain ⟨rfl, rfl⟩ := Prod.mk.inj (Option.some.inj (hsame.symm.trans hcanonical'))
  obtain ⟨trusted, hdecision, htrusted⟩ := hexact _ henv
  obtain ⟨trusted', hdecision', htrusted'⟩ :=
    decision_eq henv (fun e he => List.mem_singleton.mp he ▸ hvalid.parses) hr'
  obtain rfl := Except.ok.inj (hdecision.symm.trans hdecision')
  have hcovers := htrusted.mpr ⟨_, List.mem_singleton_self _,
    covers_self hsame hcanonical (decimal_fullLength f)⟩
  obtain ⟨g, v, hread, e, he, network, hnetwork, hcode⟩ := htrusted'.mp hcovers
  obtain ⟨rfl, rfl⟩ := Prod.mk.inj (Option.some.inj ((hiff'.mpr hgood).symm.trans hread))
  obtain rfl := List.mem_singleton.mp he
  have hr : CodeReads (⟨b, fullLength f⟩ : ProxyEntry).base r := hr
  obtain ⟨x, hx, hnone, hsome⟩ := ProxyEntry.parseCidr_text hvalid.base (decimal_fullLength f) hr
  obtain rfl : x = some network := by
    rw [ProxyEntry.network?, hx] at hnetwork
    cases x with
    | none => cases hnetwork
    | some y => exact hnetwork
  cases hr with
  | rejected => cases hnone rfl
  | @parsed ip g w normal family value bound =>
    obtain ⟨hfamily, hnetwork'⟩ := hsome g w rfl
    have hsamefamily : network.family = f := by
      rw [TrustedNetwork.covers, Bool.and_eq_true, decide_eq_true_eq] at hcode
      exact hcode.1
    obtain rfl : g = f := (hfamily network rfl).symm.trans hsamefamily
    obtain rfl := Option.some.inj (hnetwork' (Nat.le_refl _))
    obtain ⟨-, hagree⟩ := (covers_iff hlt bound).mp hcode
    rw [Nat.sub_self, Nat.pow_zero, Nat.div_one, Nat.div_one] at hagree
    rw [hiff.mp (by rw [hagree])] at hbad
    cases hbad

end

/-- The loopback address as the only proxy. -/
def loopback : ProxyEntry := ⟨"::1".toList, "128".toList⟩

end Redbox
