import Redbox.Http.ProxyTrust

/-! The shapes of address texts: digits and dots, groups with colons, and groups that end in
digits and dots. -/
namespace IpAddress
open Text Redbox.ClientIp

section
variable {cs part : List Char} {n : Nat}

theorem splitDouble_ne_nil (cs : List Char) : splitDouble cs ≠ [] := by
  unfold splitDouble
  split
  · simp
  · split <;> simp
  · simp

/-- Nothing but the double colons is lost. -/
theorem intercalate_splitDouble (cs : List Char) :
    [':', ':'].intercalate (splitDouble cs) = cs := by
  induction cs using splitDouble.induct with
  | case1 cs ih =>
    rw [splitDouble, List.intercalate_cons_of_ne_nil (splitDouble_ne_nil cs), ih]
    rfl
  | case2 c cs hno p ps hsplit ih =>
    rw [hsplit] at ih
    have hcons : splitDouble (c :: cs) = (c :: p) :: ps := by
      rw [splitDouble.eq_2 _ _ hno, hsplit]
    rw [hcons, ← ih]
    cases ps with
    | nil => simp
    | cons q qs => simp [List.intercalate_cons_cons]
  | case3 c cs hno hsplit ih => exact absurd hsplit (splitDouble_ne_nil cs)
  | case4 => rfl

theorem splitDouble_one {whole : List Char} (h : splitDouble cs = [whole]) : cs = whole := by
  have := intercalate_splitDouble cs
  rw [h] at this
  simpa using this.symm

theorem splitDouble_two {head tail : List Char} (h : splitDouble cs = [head, tail]) :
    cs = head ++ ':' :: ':' :: tail := by
  have := intercalate_splitDouble cs
  rw [h] at this
  simpa [List.intercalate_cons_cons] using this.symm

/-- No colon stands beside another one. -/
theorem splitDouble_single (h : ∀ front back, cs ≠ front ++ ':' :: ':' :: back) :
    splitDouble cs = [cs] := by
  induction cs with
  | nil => rfl
  | cons c cs ih =>
    have hrest := ih fun front back heq => h (c :: front) back (by rw [heq]; rfl)
    have hno : ∀ cs', c = ':' → cs = ':' :: cs' → False := by
      rintro cs' rfl rfl
      exact h [] cs' rfl
    rw [splitDouble.eq_2 _ _ hno, hrest]

/-- The last piece is the end of the text. -/
theorem suffix_of_splitOn {x : Char} {parts : List (List Char)} {last : List Char}
    (h : cs.splitOn x = parts ++ [last]) :
    ∃ front, cs = front ++ last := by
  have hpieces : [x].intercalate (cs.splitOn x) = cs := List.intercalate_splitOn x
  rw [← hpieces, h]
  clear h
  induction parts with
  | nil => exact ⟨[], by simp⟩
  | cons part parts ih =>
    obtain ⟨front, hfront⟩ := ih
    rw [List.cons_append, List.intercalate_cons_of_ne_nil (by simp), hfront]
    exact ⟨part ++ [x] ++ front, by simp⟩

theorem splitOn_cons_self (x : Char) (cs : List Char) : (x :: cs).splitOn x = [] :: cs.splitOn x :=
  @List.splitOn_append_cons_self_of_not_mem _ [] _ _ x List.not_mem_nil cs

theorem mem_of_splitOn {x c : Char} (h : c ∈ cs) : c = x ∨ ∃ part ∈ cs.splitOn x, c ∈ part := by
  have hpieces : [x].intercalate (cs.splitOn x) = cs := List.intercalate_splitOn x
  rw [← hpieces] at h
  generalize cs.splitOn x = parts at h
  induction parts with
  | nil => simp at h
  | cons part parts ih =>
    cases parts with
    | nil => exact .inr ⟨part, List.mem_cons_self, by simpa using h⟩
    | cons q qs =>
      rw [List.intercalate_cons_cons, List.append_assoc, List.mem_append, List.mem_append,
        List.mem_singleton] at h
      rcases h with h | h | h
      · exact .inr ⟨part, List.mem_cons_self, h⟩
      · exact .inl h
      · rcases ih h with hx | ⟨p, hp, hc⟩
        · exact .inl hx
        · exact .inr ⟨p, List.mem_cons_of_mem _ hp, hc⟩

/-- A digit is worth the same in both radices. -/
theorem hexValue_digit {c : Char} (h : c.isDigit = true) :
    hexValue c = some (c.toNat - 48) ∧ 48 ≤ c.toNat ∧ c.toNat ≤ 57 := by
  obtain ⟨hlow, hhigh⟩ := Char.isDigit_iff_toNat.mp h
  have hzero : '0'.toNat = 48 := rfl
  have hnine : '9'.toNat = 57 := rfl
  rw [hzero] at hlow
  rw [hnine] at hhigh
  exact ⟨if_pos ⟨hlow, hhigh⟩, hlow, hhigh⟩

theorem octet_digits (h : octet? part = some n) : part ≠ [] ∧ (∀ c ∈ part, c.isDigit = true) ∧
    n = Nat.ofDigitChars 10 part 0 ∧
    n ≤ 255 ∧ (part.length = 1 ∨ part.head? ≠ some '0') := by
  obtain ⟨hdecimal, hbound⟩ := Option.filter_eq_some_iff.mp h
  simp only [Bool.and_eq_true, decide_eq_true_eq, Bool.or_eq_true, beq_iff_eq, bne_iff_ne] at hbound
  unfold decimal? at hdecimal
  split at hdecimal
  · rename_i hdigits
    exact ⟨hdigits.1, List.all_eq_true.mp hdigits.2, (Option.some.inj hdecimal).symm, hbound⟩
  · cases hdecimal

theorem mapM_of_forall {α β : Type} {f : α → Option β} {g : α → β} {xs : List α}
    (h : ∀ x ∈ xs, f x = some (g x)) :
    xs.mapM f = some (xs.map g) := by
  induction xs with
  | nil => rfl
  | cons x xs ih =>
    rw [List.mapM_cons, h x List.mem_cons_self, ih fun y hy => h y (List.mem_cons_of_mem _ hy)]
    rfl

/-- Decimal digits, read in hexadecimal. -/
theorem radix_digits (hne : cs ≠ []) (h : ∀ c ∈ cs, c.isDigit = true) :
    radix? 16 cs = some ((cs.map fun c => c.toNat - 48).foldl (fun n d => 16 * n + d) 0) := by
  have hall : ∀ c ∈ cs, (hexValue c).filter (· < 16) = some (c.toNat - 48) := by
    intro c hc
    obtain ⟨hvalue, -, hhigh⟩ := hexValue_digit (h c hc)
    rw [hvalue, Option.filter_some, if_pos (by simpa using by omega)]
  rw [radix?, if_neg hne, mapM_of_forall hall]
  rfl

theorem ofDigitChars_ge (cs : List Char) (n : Nat) : n ≤ Nat.ofDigitChars 10 cs n := by
  induction cs generalizing n with
  | nil => exact Nat.le_refl n
  | cons c cs ih =>
    rw [Nat.ofDigitChars_cons]
    exact Nat.le_trans (by omega) (ih _)

/-- An octet that is read in hexadecimal: it is zero together with the octet, and not far above it.
-/
theorem octet_in_hex (h : octet? part = some n) :
    ∃ v, radix? 16 part = some v ∧ v < 2 ^ 12 ∧ (n = 0 → v = 0) ∧ (0 < n → v < 256 * n) := by
  obtain ⟨hne, hdigits, hn, hle, hzero⟩ := octet_digits h
  refine ⟨_, radix_digits hne hdigits, ?_⟩
  have hvalue : ∀ c ∈ part, 48 ≤ c.toNat ∧ c.toNat ≤ 57 :=
    fun c hc => (hexValue_digit (hdigits c hc)).2
  match part with
  | [] => exact absurd rfl hne
  | [c] =>
    simp only [List.forall_mem_cons, List.not_mem_nil, Nat.ofDigitChars_cons,
      Nat.ofDigitChars_nil] at hvalue hn
    simp only [List.map_cons, List.map_nil, List.foldl_cons, List.foldl_nil]
    have hzero : '0'.toNat = 48 := rfl
    omega
  | [c, d] =>
    simp only [List.forall_mem_cons, List.not_mem_nil, Nat.ofDigitChars_cons,
      Nat.ofDigitChars_nil] at hvalue hn
    simp only [List.map_cons, List.map_nil, List.foldl_cons, List.foldl_nil]
    have hzero : '0'.toNat = 48 := rfl
    omega
  | [c, d, e] =>
    simp only [List.forall_mem_cons, List.not_mem_nil, Nat.ofDigitChars_cons,
      Nat.ofDigitChars_nil] at hvalue hn
    simp only [List.map_cons, List.map_nil, List.foldl_cons, List.foldl_nil]
    have hzero : '0'.toNat = 48 := rfl
    omega
  | c :: d :: e :: f :: r =>
    -- without a leading zero, four digits are a thousand at least
    have hfirst : c ≠ '0' := by simpa using hzero
    have hlow : c.toNat ≠ 48 := fun hc => hfirst (Char.toNat_inj.mp hc)
    simp only [List.forall_mem_cons] at hvalue
    rw [Nat.ofDigitChars_cons, Nat.ofDigitChars_cons, Nat.ofDigitChars_cons,
      Nat.ofDigitChars_cons] at hn
    have hge := ofDigitChars_ge r (10 *
      (10 * (10 * (10 * 0 + (c.toNat - '0'.toNat)) + (d.toNat - '0'.toNat)) +
      (e.toNat - '0'.toNat)) + (f.toNat - '0'.toNat))
    have hzero : '0'.toNat = 48 := rfl
    omega

theorem exists_of_mem {α β : Type} {R : α → β → Prop} {xs : List α} {ys : List β}
    (h : List.Forall₂ R xs ys) {x : α} (hx : x ∈ xs) : ∃ y, R x y := by
  induction h with
  | nil => cases hx
  | cons hr _ ih =>
    rcases List.mem_cons.mp hx with rfl | hx
    · exact ⟨_, hr⟩
    · exact ih hx

theorem ipv4_parts {m : Nat} (h : ipv4? cs = some m) :
    ∃ p q r s a b c d, cs.splitOn '.' = [p, q, r, s] ∧
    octet? p = some a ∧ octet? q = some b ∧ octet? r = some c ∧ octet? s = some d ∧
    m = ((a * 256 + b) * 256 + c) * 256 + d := by
  unfold ipv4? at h
  split at h
  · rename_i octets hoctets
    split at h
    · rename_i hlen
      have hall := mapM_some hoctets
      generalize cs.splitOn '.' = parts at hall
      have hplen := hall.length_eq.trans hlen
      match parts, octets, hall with
      | [p, q, r, s], [a, b, c, d], .cons hp (.cons hq (.cons hr (.cons hs .nil))) =>
        refine ⟨p, q, r, s, a, b, c, d, rfl, hp, hq, hr, hs, ?_⟩
        rw [← Option.some.inj h]
        simp [ipv4Value]
    · cases h
  · cases h

theorem ipv4_chars {m : Nat} (h : ipv4? cs = some m) :
    '.' ∈ cs ∧ ∀ c ∈ cs, (c.isDigit || c == '.') = true := by
  obtain ⟨p, q, r, s, a, b, c, d, hsplit, hp, hq, hr, hs, -⟩ := ipv4_parts h
  constructor
  · by_contra hdot
    rw [List.splitOn_eq_singleton hdot] at hsplit
    simp at hsplit
  · intro x hx
    rcases mem_of_splitOn (x := '.') hx with rfl | ⟨part, hpart, hmem⟩
    · decide
    · rw [hsplit] at hpart
      simp only [List.mem_cons, List.not_mem_nil, or_false] at hpart
      rw [Bool.or_eq_true]
      rcases hpart with rfl | rfl | rfl | rfl
      · exact .inl ((octet_digits hp).2.1 x hmem)
      · exact .inl ((octet_digits hq).2.1 x hmem)
      · exact .inl ((octet_digits hr).2.1 x hmem)
      · exact .inl ((octet_digits hs).2.1 x hmem)

theorem ipv4_no_colon {m : Nat} (h : ipv4? cs = some m) : ':' ∉ cs :=
  fun hc => absurd ((ipv4_chars h).2 _ hc) (by decide)

theorem group_chars {g : Nat} (h : group? part = some g) :
    part ≠ [] ∧ ∀ c ∈ part, (hexValue c).isSome = true :=
  ⟨(hex_of_group h).1, (hex_of_group h).2.1⟩

theorem groups_chars {gs : List Nat} (h : groups? cs = some gs) :
    ∀ c ∈ cs, ((hexValue c).isSome || c == ':') = true := by
  intro c hc
  unfold groups? at h
  split at h
  · rename_i hnil
    subst hnil
    cases hc
  · rcases mem_of_splitOn (x := ':') hc with rfl | ⟨part, hpart, hmem⟩
    · decide
    · obtain ⟨g, hg⟩ := exists_of_mem (mapM_some h) hpart
      rw [(group_chars hg).2 c hmem, Bool.true_or]

/-- The text ends in an IPv4 address, with groups in front of it. -/
structure Dotted (cs : List Char) (parts : List (List Char)) (last : List Char) (groups : List Nat)
    (m : Nat) : Prop where
  split : cs.splitOn ':' = parts ++ [last]
  groups : List.Forall₂ (fun part g => group? part = some g) parts groups
  address : ipv4? last = some m

theorem dotted_of_groups {gs : List Nat} (h : dottedGroups? cs = some gs) : ∃ parts last groups m,
    Dotted cs parts last groups m ∧ gs = groups ++ [m / 2 ^ 16, m % 2 ^ 16] := by
  unfold dottedGroups? at h
  split at h
  · rename_i groups m hgroups hlast
    obtain ⟨last, hget, hm⟩ := Option.bind_eq_some_iff.mp hlast
    obtain ⟨parts, hparts⟩ := List.getLast?_eq_some_iff.mp hget
    rw [hparts, List.dropLast_concat] at hgroups
    exact ⟨parts, last, groups, m, ⟨hparts, mapM_some hgroups, hm⟩, (Option.some.inj h).symm⟩
  · cases h

theorem Dotted.suffix {parts : List (List Char)} {last : List Char} {groups : List Nat} {m : Nat}
    (h : Dotted cs parts last groups m) : ∃ front, cs = front ++ last :=
  suffix_of_splitOn h.split

theorem Dotted.chars {parts : List (List Char)} {last : List Char} {groups : List Nat} {m : Nat}
    (h : Dotted cs parts last groups m) :
    ∀ c ∈ cs, ((hexValue c).isSome || c == ':' || c == '.') = true := by
  intro c hc
  rcases mem_of_splitOn (x := ':') hc with rfl | ⟨part, hpart, hmem⟩
  · decide
  · rw [h.split, List.mem_append, List.mem_singleton] at hpart
    rcases hpart with hpart | rfl
    · obtain ⟨g, hg⟩ := exists_of_mem h.groups hpart
      rw [(group_chars hg).2 c hmem, Bool.true_or, Bool.true_or]
    · rcases Bool.or_eq_true_iff.mp ((ipv4_chars h.address).2 c hmem) with hdigit | hdot
      · rw [(hexValue_digit hdigit).1]
        rfl
      · rw [hdot, Bool.or_true]

/-- How the text of an IPv6 address with an IPv4 address at its end is put together. -/
inductive DottedIpv6 (cs : List Char) (n : Nat) : Prop where
  | whole {parts : List (List Char)} {last : List Char} {groups : List Nat} {m : Nat}
      (split : splitDouble cs = [cs])
      (dotted : Dotted cs parts last groups m) (length : groups.length = 6)
      (value : n = ipv6Value (groups ++ [m / 2 ^ 16, m % 2 ^ 16]))
  | halves {head tail : List Char} {hs : List Nat} {parts : List (List Char)} {last : List Char}
      {groups : List Nat} {m : Nat}
      (split : splitDouble cs = [head, tail]) (first : groups? head = some hs)
        (dotted : Dotted tail parts last groups m)
      (length : hs.length + groups.length ≤ 5)
      (value : n = ipv6Value (hs ++ List.replicate (8 - hs.length - (groups.length + 2)) 0 ++
        (groups ++ [m / 2 ^ 16, m % 2 ^ 16])))

theorem withoutZone_eq (h : '%' ∉ cs) : withoutZone cs = cs := by
  have hall : cs.dropWhile (· != '%') = [] := by
    rw [List.dropWhile_eq_nil_iff]
    intro c hc
    exact bne_iff_ne.mpr (ne_of_mem_of_not_mem hc h)
  unfold withoutZone
  rw [hall]

/-- An IPv6 address is in hexadecimal, or has an IPv4 address at its end. -/
theorem ipv6_shape (hzone : '%' ∉ cs) (h : ipv6? cs = some n) :
    hexIpv6? cs = some n ∨ (hexIpv6? cs = none ∧ DottedIpv6 cs n) := by
  rw [ipv6?, withoutZone_eq hzone] at h
  cases hhex : hexIpv6? cs with
  | some k =>
    rw [hhex, Option.some_or] at h
    exact .inl h
  | none =>
    rw [hhex, Option.none_or] at h
    refine .inr ⟨rfl, ?_⟩
    unfold ipv6Groups? at h
    unfold hexIpv6? ipv6Groups? at hhex
    split at h
    · rename_i whole hsplit
      rw [hsplit] at hhex
      obtain ⟨gs, hgs, rfl⟩ := Option.map_eq_some_iff.mp h
      obtain ⟨hgs, hlen⟩ := Option.filter_eq_some_iff.mp hgs
      rcases Option.or_eq_some_iff.mp hgs with hgs | ⟨-, hgs⟩
      · simp [hgs] at hhex
        exact absurd (by simpa using hlen) hhex
      · obtain ⟨parts, last, groups, m, hdotted, rfl⟩ := dotted_of_groups hgs
        have hwhole := splitDouble_one hsplit
        subst hwhole
        exact .whole hsplit hdotted (by simpa using hlen) rfl
    · rename_i head tail hsplit
      rw [hsplit] at hhex
      split at h
      · rename_i hs ts hhead htail
        split at h
        · rename_i hroom
          rcases Option.or_eq_some_iff.mp htail with htail | ⟨-, htail⟩
          · simp [hhead, htail, hroom] at hhex
          · obtain ⟨parts, last, groups, m, hdotted, rfl⟩ := dotted_of_groups htail
            rw [List.length_append] at hroom
            refine .halves hsplit hhead hdotted ?_ ?_
            · simp only [List.length_cons, List.length_nil] at hroom
              omega
            · rw [← Option.some.inj h, List.length_append]
              rfl
        · cases h
      · cases h
    · cases h

theorem hexIpv6_chars (h : hexIpv6? cs = some n) :
    ∀ c ∈ cs, ((hexValue c).isSome || c == ':') = true := by
  unfold hexIpv6? ipv6Groups? at h
  split at h
  · rename_i whole hsplit
    obtain ⟨gs, hgs, -⟩ := Option.map_eq_some_iff.mp h
    rw [splitDouble_one hsplit]
    exact groups_chars (Option.filter_eq_some_iff.mp hgs).1
  · rename_i head tail hsplit
    split at h
    · rename_i hs ts hhead htail
      intro c hc
      rw [splitDouble_two hsplit] at hc
      simp only [List.mem_append, List.mem_cons] at hc
      rcases hc with hc | rfl | rfl | hc
      · exact groups_chars hhead c hc
      · decide
      · decide
      · exact groups_chars htail c hc
    · cases h
  · cases h

theorem DottedIpv6.ending (h : DottedIpv6 cs n) : ∃ front last, cs = front ++ last ∧ '.' ∈ last ∧
    ':' ∉ last := by
  cases h with
  | whole split dotted length value =>
    obtain ⟨front, hfront⟩ := dotted.suffix
    exact ⟨front, _, hfront, (ipv4_chars dotted.address).1, ipv4_no_colon dotted.address⟩
  | @halves head tail _ _ last _ _ split first dotted length value =>
    obtain ⟨front, hfront⟩ := dotted.suffix
    refine ⟨head ++ ':' :: ':' :: front, last, ?_, (ipv4_chars dotted.address).1,
      ipv4_no_colon dotted.address⟩
    rw [splitDouble_two split, hfront]
    simp

theorem DottedIpv6.chars (h : DottedIpv6 cs n) :
    ∀ c ∈ cs, ((hexValue c).isSome || c == ':' || c == '.') = true := by
  cases h with
  | whole split dotted length value => exact dotted.chars
  | halves split first dotted length value =>
    intro c hc
    rw [splitDouble_two split] at hc
    simp only [List.mem_append, List.mem_cons] at hc
    rcases hc with hc | rfl | rfl | hc
    · rw [groups_chars first c hc, Bool.true_or]
    · decide
    · decide
    · exact dotted.chars c hc

/-- A double colon splits a text. -/
theorem splitDouble_length (front back : List Char) :
    2 ≤ (splitDouble (front ++ ':' :: ':' :: back)).length := by
  have hpos : ∀ cs, 1 ≤ (splitDouble cs).length :=
    fun cs => List.length_pos_of_ne_nil (splitDouble_ne_nil cs)
  induction front with
  | nil =>
    rw [List.nil_append, splitDouble, List.length_cons]
    exact Nat.succ_le_succ (hpos back)
  | cons c front ih =>
    rw [List.cons_append]
    by_cases hdouble : c = ':' ∧ ∃ cs, front ++ ':' :: ':' :: back = ':' :: cs
    · obtain ⟨rfl, cs, hcs⟩ := hdouble
      rw [hcs, splitDouble, List.length_cons]
      exact Nat.succ_le_succ (hpos cs)
    · have hno : ∀ cs, c = ':' → front ++ ':' :: ':' :: back = ':' :: cs → False :=
        fun cs hc hcs => hdouble ⟨hc, cs, hcs⟩
      rw [splitDouble.eq_2 _ _ hno]
      cases hsplit : splitDouble (front ++ ':' :: ':' :: back) with
      | nil => exact absurd hsplit (splitDouble_ne_nil _)
      | cons part parts =>
        rw [hsplit] at ih
        exact ih

theorem toLower_eq_f {c : Char} (h : c.toLower = 'f') : c = 'f' ∨ c = 'F' := by
  unfold Char.toLower at h
  split at h
  · rename_i hupper
    have hval : c.val + 32 = 102 := congrArg Char.val h
    have hhigh := UInt32.le_iff_toNat_le.mp (show c.val ≤ 90 from hupper.2)
    have hnat := congrArg UInt32.toNat hval
    rw [UInt32.toNat_add] at hnat
    simp only [UInt32.reduceToNat] at hnat hhigh
    exact .inr (Char.toNat_inj.mp (show c.val.toNat = 70 by omega))
  · exact .inl h

/-- What begins like a mapped address. -/
theorem mapped_shape (h : hasMappedPrefix cs = true) :
    ∃ w, cs = ':' :: ':' :: (w ++ ':' :: cs.drop 7) ∧ ':' ∉ w ∧
    group? w = some 0xffff := by
  have h : (cs.take 7).map Char.toLower = "::ffff:".toList := of_decide_eq_true h
  have hcolon : ∀ {c : Char}, c.toLower = ':' → c = ':' :=
    fun hc => by_contra fun hne => toLower_ne_colon hne hc
  have heq : cs = cs.take 7 ++ cs.drop 7 := (List.take_append_drop 7 cs).symm
  have hlen : (cs.take 7).length = 7 := by simpa using congrArg List.length h
  generalize cs.take 7 = front at h heq hlen
  match front, hlen with
  | [a, b, c, d, e, f, g], _ =>
    have h : [a.toLower, b.toLower, c.toLower, d.toLower, e.toLower, f.toLower, g.toLower] =
        [':', ':', 'f', 'f', 'f', 'f', ':'] := h
    simp only [List.cons.injEq, and_true] at h
    obtain ⟨ha, hb, hc, hd, he, hf, hg⟩ := h
    obtain rfl := hcolon ha
    obtain rfl := hcolon hb
    obtain rfl := hcolon hg
    refine ⟨[c, d, e, f], heq, ?_, ?_⟩
    all_goals
      rcases toLower_eq_f hc with rfl | rfl <;> rcases toLower_eq_f hd with rfl | rfl <;>
        rcases toLower_eq_f he with rfl | rfl <;> rcases toLower_eq_f hf with rfl | rfl <;> decide

/-- The address that a text denotes, an IPv4 address where it is mapped to one. -/
def canonical? (cs : List Char) : Option (Family × Nat) :=
  match ipv4? cs with
  | some n => some (.ipv4, n)
  | none => (ipv6? cs).map fun n => if n / 2 ^ 32 = 0xffff then (.ipv4, n % 2 ^ 32) else (.ipv6, n)

/-! Each address has a text in which nothing is left out. -/

def octetsOf (n : Nat) : List Nat := [n / 2 ^ 24, n / 2 ^ 16 % 256, n / 2 ^ 8 % 256, n % 256]

def dottedText (n : Nat) : List Char := ['.'].intercalate ((octetsOf n).map (Nat.toDigits 10))

def groupText (g : Nat) : List Char :=
  [hexDigit (g / 4096), hexDigit (g / 256 % 16), hexDigit (g / 16 % 16), hexDigit (g % 16)]

def groupsOf (n : Nat) : List Nat :=
  [n / 2 ^ 112, n / 2 ^ 96 % 2 ^ 16, n / 2 ^ 80 % 2 ^ 16, n / 2 ^ 64 % 2 ^ 16, n / 2 ^ 48 % 2 ^ 16,
    n / 2 ^ 32 % 2 ^ 16,
    n / 2 ^ 16 % 2 ^ 16, n % 2 ^ 16]

def hexText (n : Nat) : List Char := [':'].intercalate ((groupsOf n).map groupText)

theorem octet_text {o : Nat} (h : o < 256) : octet? (Nat.toDigits 10 o) = some o ∧
    '.' ∉ Nat.toDigits 10 o := by
  have hall : ∀ o, o < 256 → octet? (Nat.toDigits 10 o) = some o ∧ '.' ∉ Nat.toDigits 10 o := by
    decide +kernel
  exact hall o h

theorem ipv4_dottedText (h : n < 2 ^ 32) : ipv4? (dottedText n) = some n := by
  have hlt : ∀ o ∈ octetsOf n, o < 256 := by
    intro o ho
    simp only [octetsOf, List.mem_cons, List.not_mem_nil, or_false] at ho
    omega
  have hsplit : (dottedText n).splitOn '.' = (octetsOf n).map (Nat.toDigits 10) := by
    apply List.splitOn_intercalate
    · intro l hl
      obtain ⟨o, ho, rfl⟩ := List.mem_map.mp hl
      exact (octet_text (hlt o ho)).2
    · simp [octetsOf]
  have hoctets : ((octetsOf n).map (Nat.toDigits 10)).mapM octet? = some (octetsOf n) := by
    have hread : ∀ o ∈ octetsOf n, (octet? ∘ Nat.toDigits 10) o = some (id o) :=
      fun o ho => (octet_text (hlt o ho)).1
    rw [List.mapM_map, mapM_of_forall hread, List.map_id]
  rw [ipv4?, hsplit, hoctets]
  simp only [octetsOf, ipv4Value, List.length_cons, List.length_nil, if_true, List.foldl_cons,
    List.foldl_nil, Option.some.injEq]
  omega

theorem group_text {g : Nat} (h : g < 2 ^ 16) : group? (groupText g) = some g := by
  have hdigit : ∀ d, d < 16 → (hexValue (hexDigit d)).filter (· < 16) = some d := by
    intro d hd
    rw [hexValue_hexDigit hd, Option.filter_some, if_pos (by simpa using hd)]
  rw [group?, if_pos (by simp [groupText]), radix?, if_neg (by simp [groupText]), groupText]
  simp only [List.mapM_cons, List.mapM_nil, hdigit (g / 4096) (by omega),
    hdigit (g / 256 % 16) (by omega),
    hdigit (g / 16 % 16) (by omega), hdigit (g % 16) (by omega)]
  show some _ = some g
  simp only [List.foldl_cons, List.foldl_nil, Option.some.injEq]
  omega

theorem groupText_chars {g : Nat} (h : g < 2 ^ 16) : ':' ∉ groupText g := by
  intro hc
  have := (group_chars (group_text h)).2 _ hc
  cases this

theorem groupsOf_lt (h : n < 2 ^ 128) : ∀ g ∈ groupsOf n, g < 2 ^ 16 := by
  intro g hg
  simp only [groupsOf, List.mem_cons, List.not_mem_nil, or_false] at hg
  omega

theorem ipv6Value_groupsOf (n : Nat) : ipv6Value (groupsOf n) = n := by
  simp only [groupsOf, ipv6Value, List.foldl_cons, List.foldl_nil]
  omega

theorem splitOn_hexText (h : n < 2 ^ 128) :
    (hexText n).splitOn ':' = (groupsOf n).map groupText := by
  apply List.splitOn_intercalate
  · intro l hl
    obtain ⟨g, hg, rfl⟩ := List.mem_map.mp hl
    exact groupText_chars (groupsOf_lt h g hg)
  · simp [groupsOf]

theorem hexIpv6_hexText (h : n < 2 ^ 128) : hexIpv6? (hexText n) = some n := by
  have hsplit : splitDouble (hexText n) = [hexText n] := by
    apply splitDouble_single
    intro front back heq
    -- a double colon would leave an empty group
    have hempty : [] ∈ (hexText n).splitOn ':' := by
      rw [heq, List.splitOn_append_cons_self, splitOn_cons_self]
      exact List.mem_append_right _ List.mem_cons_self
    rw [splitOn_hexText h] at hempty
    obtain ⟨g, -, hg⟩ := List.mem_map.mp hempty
    cases hg
  have hgroups : groups? (hexText n) = some (groupsOf n) := by
    have hread : ∀ g ∈ groupsOf n, (group? ∘ groupText) g = some (id g) :=
      fun g hg => group_text (groupsOf_lt h g hg)
    have hne : hexText n ≠ [] := by
      intro hnil
      have := splitOn_hexText h
      rw [hnil, List.splitOn_nil] at this
      simp [groupsOf] at this
    rw [groups?, if_neg hne, splitOn_hexText h, List.mapM_map, mapM_of_forall hread, List.map_id]
  unfold hexIpv6? ipv6Groups?
  rw [hsplit]
  simp only [hgroups]
  rw [Option.filter_some, if_pos (by simp [groupsOf]), Option.map_some, ipv6Value_groupsOf]

end
end IpAddress
