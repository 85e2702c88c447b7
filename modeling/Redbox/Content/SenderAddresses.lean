import Redbox.Content.MailboxNames

/-! The sender of a mail as the server and the client read it out of the From text. -/
namespace Redbox
open Text MailAddress

/-- The server's regular expressions take a bare text as the address that it is. -/
structure BareAddress (text : List Char) : Prop where
  trimmed : Trimmed text
  no_group : angleGroup text = none
  pattern : address text = none ∨ address text = some text

namespace MailAddress
variable {cs ds : List Char}

/-- What the server lowers and trims. -/
def candidate (text : List Char) : List Char := ((angleGroup text).or (address text)).getD text

/-- The characters of an address that the pattern matches. -/
def isAddressChar (c : Char) : Bool := isNameChar c || isDomainChar c || c == '@'

theorem isAddressChar_ascii {c : Char} (h : isAddressChar c = true) :
    c.toNat < 128 ∧ isSpace c = false ∧ c ∉ ['<', '>', '"'] := by
  have hname : ∀ d, isDomainChar d = true → isNameChar d = true := by
    intro d hd
    simp only [isDomainChar, isNameChar, Bool.or_eq_true, List.contains_iff_mem, List.mem_cons,
      List.not_mem_nil, or_false] at hd ⊢
    rcases hd with hd | rfl | rfl
    · exact .inl hd
    · simp
    · simp
  simp only [isAddressChar, Bool.or_eq_true, beq_iff_eq] at h
  rcases h with (h | h) | rfl
  · exact ⟨(isNameChar_ascii h).1, (isNameChar_ascii h).2,
      fun hmem => not_isNameChar_mark c (List.mem_cons_of_mem _ hmem) h⟩
  · exact ⟨(isNameChar_ascii (hname c h)).1, (isNameChar_ascii (hname c h)).2, fun hmem =>
      not_isNameChar_mark c (List.mem_cons_of_mem _ hmem) (hname c h)⟩
  · decide

theorem domain_begins (h : domain cs = some ds) : ds <+: cs ∧ ∀ c ∈ ds, isDomainChar c = true := by
  obtain ⟨dot, -, hdot⟩ := List.exists_of_findSome?_eq_some h
  simp only [domainWithDot] at hdot
  split at hdot
  · have hds := Option.some.inj hdot
    have hrun : ds <+: cs.takeWhile isDomainChar := by
      rw [← hds]
      have hletters := List.takeWhile_prefix (l :=
        (cs.takeWhile isDomainChar).drop (dot + 1)) Char.isAlpha
      have hsplit := List.take_append_drop (dot + 1) (cs.takeWhile isDomainChar)
      have happend := (List.prefix_append_right_inj
        ((cs.takeWhile isDomainChar).take (dot + 1))).mpr hletters
      rwa [hsplit] at happend
    exact ⟨hrun.trans (List.takeWhile_prefix _),
      fun c hc => List.mem_takeWhile_imp (hrun.subset hc)⟩
  · cases hdot

theorem addressHere_begins (h : addressHere cs = some ds) :
    ds <+: cs ∧ ∀ c ∈ ds, isAddressChar c = true := by
  unfold addressHere at h
  simp only at h
  split at h
  · rename_i rest hrest
    split at h
    · cases h
    · obtain ⟨d, hd, rfl⟩ := Option.map_eq_some_iff.mp h
      obtain ⟨hbegins, hchars⟩ := domain_begins hd
      have hsplit : cs = cs.takeWhile isNameChar ++ '@' :: rest := by
        rw [← hrest, List.prefix_iff_eq_append.mp (List.takeWhile_prefix isNameChar)]
      constructor
      · obtain ⟨tail, rfl⟩ := hbegins
        exact ⟨tail, by rw [List.append_assoc, List.cons_append]; exact hsplit.symm⟩
      · intro c hc
        simp only [isAddressChar, Bool.or_eq_true, beq_iff_eq]
        rcases List.mem_append.mp hc with hc | hc
        · exact .inl (.inl (List.mem_takeWhile_imp hc))
        · rcases List.mem_cons.mp hc with rfl | hc
          · exact .inr rfl
          · exact .inl (.inr (hchars c hc))
  · cases h

/-- A match is a part of the text. -/
theorem address_part (h : address cs = some ds) : (∃ front back, cs = front ++ ds ++ back) ∧
    ∀ c ∈ ds, isAddressChar c = true := by
  induction cs with
  | nil => cases h
  | cons c cs ih =>
    rw [address] at h
    cases hhere : addressHere (c :: cs) with
    | some m =>
      rw [hhere, Option.some_or, Option.some.injEq] at h
      subst h
      obtain ⟨⟨back, hback⟩, hchars⟩ := addressHere_begins hhere
      exact ⟨⟨[], back, hback.symm⟩, hchars⟩
    | none =>
      rw [hhere, Option.none_or] at h
      obtain ⟨⟨front, back, hcs⟩, hchars⟩ := ih h
      exact ⟨⟨c :: front, back, by rw [hcs]; rfl⟩, hchars⟩

theorem address_at (h : address cs = some ds) : '@' ∈ ds := by
  induction cs with
  | nil => cases h
  | cons c cs ih =>
    rw [address] at h
    cases hhere : addressHere (c :: cs) with
    | some m =>
      rw [hhere, Option.some_or, Option.some.injEq] at h
      subst h
      unfold addressHere at hhere
      simp only at hhere
      split at hhere
      · split at hhere
        · cases hhere
        · obtain ⟨d, -, rfl⟩ := Option.map_eq_some_iff.mp hhere
          exact List.mem_append_right _ List.mem_cons_self
      · cases hhere
    | none =>
      rw [hhere, Option.none_or] at h
      exact ih h

end MailAddress

namespace MailUtils

def isLineTerminator (c : Char) : Bool := [0x0A, 0x0D, 0x2028, 0x2029].contains c.toNat

/-- `\s*<(.+?)>$` from here on, and its group. -/
def bracketsToEnd (rest : List Char) : Option (List Char) :=
  match rest.dropWhile isSpace with
  | '<' :: inner =>
    if inner.getLast? = some '>' ∧ inner.dropLast ≠ [] ∧
      inner.dropLast.all (fun c => !isLineTerminator c) = true then
      some inner.dropLast
    else none
  | _ => none

/-- The groups of `/^(.+?)\s*<(.+?)>$/`. The first is as short as it can be. -/
def senderMatch (text : List Char) : Option (List Char × List Char) :=
  (List.range text.length).findSome? fun j =>
    if (text.take (j + 1)).all (fun c => !isLineTerminator c) = true then
      (bracketsToEnd (text.drop (j + 1))).map fun inner => (text.take (j + 1), inner)
    else none

/-- `replace(/^"|"$/g, '')` -/
def withoutQuotes (text : List Char) : List Char :=
  let opened := if text.head? = some '"' then text.tail else text
  if opened.getLast? = some '"' then opened.dropLast else opened

structure Sender where
  name : String
  email : String

def parseSender (text : String) : Sender :=
  match senderMatch text.toList with
  | some (name, email) =>
    ⟨String.ofList (withoutQuotes (trimList name)), String.ofList (trimList email)⟩
  | none => ⟨text, text⟩

end MailUtils

/-- `emailToBlock.toLowerCase().trim()` of `blockSender` -/
def blockedEmail (env : MailEnv) (emailToBlock : String) : String :=
  trim (env.toLowerCase emailToBlock)

/-- What the user expects of blocking the sender of a mail with this From text. -/
structure BlockingTakesEffect (env : MailEnv) (text : String) : Prop where
  submitted : blockedEmail env (MailUtils.parseSender text).email =
    extractMailAddress env (some text)
  recognised : ∀ dto parsed, MailService.displayFrom dto parsed = text →
    blockedEmail env (MailUtils.parseSender text).email ∈ MailService.senderEmails env dto parsed
  marker : ∀ blockedSenders : List String,
    (MailUtils.parseSender text).email ∈ blockedSenders ↔
      extractMailAddress env (some text) ∈ blockedSenders

/-- Client and server read one address in lower case. -/
inductive SameAddress (table : LowerTable) (text : List Char) : Prop where
  | bare (unmatched : MailUtils.senderMatch text = none) (whole : BareAddress text)
      (lower : table.run [] text = text)
      (nonempty : text ≠ [])
  | bracketed {name inner group : List Char} (matched : MailUtils.senderMatch text =
      some (name, inner))
      (found : angleGroup (trimList text) = some group) (same : trimList (table.run [] group) =
        trimList inner)
      (lower : table.run [] (trimList inner) = trimList inner) (nonempty : trimList inner ≠ [])

section
variable {env : MailEnv} {table : LowerTable} {text inner name : List Char} {u : String}

/-- What the server reads out of a text. -/
def readAddress (table : LowerTable) (text : List Char) : List Char :=
  trimList (table.run [] (candidate (trimList text)))

theorem extract_toList (htable : env.toLowerCase = table.toLowerCase) (u : String) :
    (extractMailAddress env (some u)).toList = readAddress table u.toList := by
  simp only [extractMailAddress, htable]
  rw [trim, String.toList_ofList, LowerTable.toList_toLowerCase, String.toList_ofList]
  rfl

theorem count_dropWhile {d : Char} (hd : isSpace d = false) (cs : List Char) :
    (cs.dropWhile isSpace).count d = cs.count d := by
  induction cs with
  | nil => rfl
  | cons c cs ih =>
    by_cases hc : isSpace c = true
    · have hne : c ≠ d := by
        rintro rfl
        rw [hc] at hd
        cases hd
      rw [List.dropWhile_cons_of_pos hc, ih, List.count_cons_of_ne hne]
    · rw [List.dropWhile_cons_of_neg hc]

theorem count_trimList {d : Char} (hd : isSpace d = false) (cs : List Char) :
    (trimList cs).count d = cs.count d := by
  rw [trimList, List.count_reverse, count_dropWhile hd, List.count_reverse, count_dropWhile hd]

theorem count_lower {d : Char} (hd : d ∈ ['@', '<', '>', '"']) (before : List Char) (c : Char)
    (after : List Char) :
    (table.lower before c after).count d = [c].count d := by
  by_cases hc : c = d
  · obtain ⟨hascii, hself⟩ := LowerTable.mark_ascii c (hc ▸ hd)
    rw [table.ascii before c after hascii, hself]
  · rw [List.count_eq_zero_of_not_mem fun hmem => hc (LowerTable.mark_lower hd hmem),
      List.count_eq_zero_of_not_mem]
    exact fun hmem => hc (List.mem_singleton.mp hmem).symm

/-- Lowering neither makes nor loses marks. -/
theorem count_run {d : Char} (hd : d ∈ ['@', '<', '>', '"']) (before cs : List Char) :
    (table.run before cs).count d = cs.count d := by
  induction cs generalizing before with
  | nil => rfl
  | cons c cs ih =>
    rw [LowerTable.run, List.count_append, ih, count_lower hd, ← List.count_append]
    rfl

theorem run_ascii_append {cs ds before : List Char} (h : ∀ c ∈ cs, c.toNat < 128) :
    table.run before (cs ++ ds) = cs.map Char.toLower ++ table.run (cs.reverse ++ before) ds := by
  induction cs generalizing before with
  | nil => rfl
  | cons c cs ih =>
    rw [List.cons_append, LowerTable.run, table.ascii before c (cs ++ ds) (h c List.mem_cons_self),
      ih fun d hd => h d (List.mem_cons_of_mem _ hd), List.reverse_cons, List.append_assoc]
    rfl

theorem trimmed_of_nonspace {cs : List Char} (h : ∀ c ∈ cs, isSpace c = false) : Trimmed cs :=
  ⟨fun c hc => h c (List.mem_of_head? hc), fun c hc => h c (List.mem_of_getLast? hc)⟩

/-- A pattern that is found in a text and read as all of it is all of it. -/
theorem address_whole {cs : List Char} (h : address text = some cs)
    (heq : trimList (table.run [] cs) = table.run [] text) :
    cs = text := by
  obtain ⟨⟨front, back, hsplit⟩, hchars⟩ := address_part h
  have hascii : ∀ c ∈ cs, c.toNat < 128 := fun c hc => (isAddressChar_ascii (hchars c hc)).1
  have htrim : Trimmed cs := trimmed_of_nonspace fun c hc => (isAddressChar_ascii (hchars c hc)).2.1
  obtain ⟨x, hx, hempty⟩ := @LowerTable.run_append table [] front (cs ++ back)
  rw [run_ascii_append hascii] at hx
  rw [htrim.run.trimList, LowerTable.run_ascii hascii, hsplit, List.append_assoc, hx] at heq
  have hlength := congrArg List.length heq
  simp only [List.length_append, List.length_map] at hlength
  have hfront : front = [] := hempty.mp (List.length_eq_zero_iff.mp (by omega))
  have hback : table.run (cs.reverse ++ (front.reverse ++ [])) back = [] :=
    List.length_eq_zero_iff.mp (by omega)
  rw [LowerTable.run_eq_nil] at hback
  rw [hsplit, hfront, hback, List.nil_append, List.append_nil]

/-- A bare text is read as what it is, and no other text is. -/
theorem readAddress_eq_iff : readAddress table text = table.run [] text ↔ BareAddress text := by
  constructor
  · intro h
    have hrun : Trimmed (table.run [] text) := h ▸ trimmed_trimList _
    have htrim : Trimmed text := hrun.of_run
    rw [readAddress, htrim.trimList] at h
    cases hgroup : angleGroup text with
    | some group =>
      obtain ⟨hclose, hgroup'⟩ := angleGroup_some hgroup
      rw [candidate, hgroup, Option.some_or, Option.getD_some] at h
      have hmem : '>' ∈ table.run [] text := (LowerTable.mark_run (by decide)).mpr hclose
      rw [← h] at hmem
      exact absurd ((LowerTable.mark_run (by decide)).mp (mem_trimList hmem)) hgroup'
    | none =>
      refine ⟨htrim, hgroup, ?_⟩
      rw [candidate, hgroup, Option.none_or] at h
      cases hpattern : address text with
      | none => exact .inl rfl
      | some cs =>
        rw [hpattern, Option.getD_some] at h
        exact .inr (congrArg some (address_whole hpattern h))
  · rintro ⟨htrim, hgroup, hpattern⟩
    have hcandidate : candidate text = text := by
      rw [candidate, hgroup, Option.none_or]
      rcases hpattern with h | h <;> rw [h] <;> rfl
    rw [readAddress, htrim.trimList, hcandidate, htrim.run.trimList]

/-- A closing bracket is read only where nothing is cut out of the text. -/
theorem readAddress_close (h : '>' ∈ readAddress table text) :
    readAddress table text = trimList (table.run [] (trimList text)) := by
  rw [readAddress] at h ⊢
  have hmem : '>' ∈ candidate (trimList text) :=
    (LowerTable.mark_run (by decide)).mp (mem_trimList h)
  cases hgroup : angleGroup (trimList text) with
  | some group =>
    rw [candidate, hgroup, Option.some_or, Option.getD_some] at hmem
    exact absurd hmem (angleGroup_some hgroup).2
  | none =>
    rw [candidate, hgroup, Option.none_or] at hmem ⊢
    cases hpattern : address (trimList text) with
    | some cs =>
      rw [hpattern, Option.getD_some] at hmem
      exact absurd ((address_part hpattern).2 _ hmem) (by decide)
    | none => rfl

/-- A group that has an end has a beginning: no group is found only where brackets are empty. -/
theorem angleGroup_isSome (pre : List Char) {rest : List Char} {c : Char} (hc : c ≠ '>')
    (hclose : '>' ∈ rest) :
    ∃ group, angleGroup (pre ++ '<' :: c :: rest) = some group := by
  induction pre with
  | nil =>
    have htake : (c :: rest).takeWhile (· ≠ '>') ≠ [] := by
      simp [hc]
    exact ⟨_, by rw [List.nil_append, angleGroup_cons,
      if_pos ⟨rfl, htake, List.mem_cons_of_mem _ hclose⟩]⟩
  | cons d pre ih =>
    rw [List.cons_append, angleGroup_cons]
    split
    · exact ⟨_, rfl⟩
    · exact ih

theorem bracketsToEnd_some {rest : List Char} (h : MailUtils.bracketsToEnd rest = some inner) :
    inner ≠ [] ∧ ∃ spaces, rest = spaces ++ '<' :: (inner ++ ['>']) := by
  unfold MailUtils.bracketsToEnd at h
  split at h
  · rename_i tail htail
    split at h
    · rename_i hinner
      have heq := Option.some.inj h
      obtain ⟨init, hinit⟩ := List.getLast?_eq_some_iff.mp hinner.1
      have hdrop : init = inner := by
        rw [← heq, hinit, List.dropLast_concat]
      refine ⟨heq ▸ hinner.2.1, rest.takeWhile isSpace, ?_⟩
      rw [← hdrop, ← hinit, ← htail, List.takeWhile_append_dropWhile]
    · cases h
  · cases h

theorem senderMatch_some (h : MailUtils.senderMatch text = some (name, inner)) :
    inner ≠ [] ∧ ∃ pre, text = pre ++ '<' :: (inner ++ ['>']) := by
  obtain ⟨j, -, hj⟩ := List.exists_of_findSome?_eq_some h
  split at hj
  · obtain ⟨found, hfound, heq⟩ := Option.map_eq_some_iff.mp hj
    obtain ⟨hne, spaces, hrest⟩ := bracketsToEnd_some hfound
    have hinner : found = inner := (Prod.mk.inj heq).2
    refine ⟨hinner ▸ hne, text.take (j + 1) ++ spaces, ?_⟩
    rw [← hinner, List.append_assoc, ← hrest, List.take_append_drop]
  · cases hj

theorem trimList_bracketed (pre inner : List Char) :
    trimList (pre ++ '<' :: (inner ++ ['>'])) = pre.dropWhile isSpace ++ '<' ::
      (inner ++ ['>']) := by
  have hopen : ('<' :: (inner ++ ['>'])).dropWhile isSpace = '<' :: (inner ++ ['>']) :=
    List.dropWhile_cons_of_neg (by decide)
  have hleft : (pre ++ '<' :: (inner ++ ['>'])).dropWhile isSpace = pre.dropWhile isSpace ++ '<' ::
      (inner ++ ['>']) := by
    rw [List.dropWhile_append, hopen]
    split
    · rename_i hempty
      rw [List.isEmpty_iff.mp hempty, List.nil_append]
    · rfl
  have hclose : (pre.dropWhile isSpace ++ '<' :: (inner ++ ['>'])).reverse =
      '>' :: (pre.dropWhile isSpace ++ '<' :: inner).reverse := by
    rw [← List.cons_append, ← List.append_assoc, List.reverse_append]
    rfl
  rw [trimList, hleft, hclose, List.dropWhile_cons_of_neg (by decide), ← hclose,
    List.reverse_reverse]

/-- The address in brackets that the client reads. -/
theorem bracketed_iff (h : MailUtils.senderMatch text = some (name, inner)) :
    trimList inner = readAddress table text ↔
      ∃ group, angleGroup (trimList text) = some group ∧
        trimList (table.run [] group) = trimList inner := by
  obtain ⟨hne, pre, htext⟩ := senderMatch_some h
  have htrim := trimList_bracketed pre inner
  rw [← htext] at htrim
  cases hgroup : angleGroup (trimList text) with
  | some group =>
    rw [readAddress, candidate, hgroup, Option.some_or, Option.getD_some]
    exact ⟨fun heq => ⟨group, rfl, heq.symm⟩, fun ⟨g, hg, heq⟩ => by rw [Option.some.inj hg, heq]⟩
  | none =>
    refine iff_of_false (fun heq => ?_) (fun ⟨g, hg, _⟩ => by cases hg)
    -- The client's brackets are empty for the server only where the inner text begins with the
    -- closing one.
    have hclose : '>' ∈ inner := by
      cases inner with
      | nil => exact absurd rfl hne
      | cons c rest =>
        by_cases hc : c = '>'
        · rw [hc]
          exact List.mem_cons_self
        · have hmem : '>' ∈ rest ++ ['>'] := List.mem_append_right _ List.mem_cons_self
          obtain ⟨group, hfound⟩ := angleGroup_isSome (pre.dropWhile isSpace) hc hmem
          rw [htrim, List.cons_append, hfound] at hgroup
          cases hgroup
    have hread : '>' ∈ readAddress table text := by
      rw [← heq, ← List.count_pos_iff, count_trimList (by decide), List.count_pos_iff]
      exact hclose
    have hcount := congrArg (List.count '<') (heq.trans (readAddress_close hread))
    rw [count_trimList (by decide), count_trimList (by decide), count_run (by decide), htrim,
      List.count_append,
      List.count_cons_self, List.count_append] at hcount
    omega

theorem mem_senderEmails {dto : IncomingMailDto} {parsed : ParsedMail}
    (hfrom : MailService.displayFrom dto parsed = u) {email : String} :
    email ∈ MailService.senderEmails env dto parsed ↔
      (email = extractMailAddress env (some u) ∨ email = extractMailAddress env (some dto.sender)) ∧
        email ≠ "" := by
  rw [MailService.senderEmails, hfrom]
  simp

theorem marker_iff {a b : String} :
    (∀ blockedSenders : List String, a ∈ blockedSenders ↔ b ∈ blockedSenders) ↔ a = b := by
  constructor
  · exact fun h => List.mem_singleton.mp ((h [b]).mpr List.mem_cons_self)
  · rintro rfl
    exact fun _ => Iff.rfl

theorem takesEffect_iff : BlockingTakesEffect env u ↔
    (MailUtils.parseSender u).email = extractMailAddress env (some u) ∧
    blockedEmail env (MailUtils.parseSender u).email = (MailUtils.parseSender u).email ∧
    (MailUtils.parseSender u).email ≠ "" := by
  constructor
  · intro h
    have hsame := marker_iff.mp h.marker
    have hblocked := h.submitted.trans hsame.symm
    have hmem := h.recognised ⟨u, "", none, ""⟩ ⟨none, .absent, none, none, none, none, []⟩ rfl
    rw [mem_senderEmails rfl, hblocked] at hmem
    exact ⟨hsame, hblocked, hmem.2⟩
  · rintro ⟨hsame, hblocked, hne⟩
    refine ⟨hblocked.trans hsame, fun dto parsed hfrom => ?_, marker_iff.mpr hsame⟩
    rw [mem_senderEmails hfrom, hblocked]
    exact ⟨.inl hsame, hne⟩

theorem toList_blockedEmail (htable : env.toLowerCase = table.toLowerCase) (email : String) :
    (blockedEmail env email).toList = trimList (table.run [] email.toList) := by
  rw [blockedEmail, trim, String.toList_ofList, htable, LowerTable.toList_toLowerCase]

/-- Blocking the sender of a mail takes effect exactly when client and server read the same
address, in lower case, out of the From text. -/
theorem blocking_takes_effect_iff (env : MailEnv) (table : LowerTable) (text : String)
    (htable : env.toLowerCase = table.toLowerCase) :
    BlockingTakesEffect env text ↔ SameAddress table text.toList := by
  rw [takesEffect_iff, ← String.toList_inj, extract_toList htable, ← String.toList_inj,
    toList_blockedEmail htable, ne_eq, ← String.toList_inj]
  cases hmatch : MailUtils.senderMatch text.toList with
  | none =>
    have hemail : (MailUtils.parseSender text).email = text := by
      rw [MailUtils.parseSender, hmatch]
    rw [hemail]
    constructor
    · rintro ⟨hsame, hlower, hne⟩
      have htrim : Trimmed text.toList := hsame ▸ trimmed_trimList _
      rw [htrim.run.trimList] at hlower
      exact .bare hmatch (readAddress_eq_iff.mp (hsame.symm.trans hlower.symm)) hlower hne
    · intro h
      cases h with
      | bare _ whole lower nonempty =>
        rw [whole.trimmed.run.trimList, readAddress_eq_iff.mpr whole, lower]
        exact ⟨rfl, rfl, nonempty⟩
      | bracketed matched => rw [hmatch] at matched; cases matched
  | some found =>
    obtain ⟨name, inner⟩ := found
    have hemail : (MailUtils.parseSender text).email.toList = trimList inner := by
      rw [MailUtils.parseSender, hmatch, String.toList_ofList]
    have htrim : Trimmed (trimList inner) := trimmed_trimList inner
    rw [hemail, bracketed_iff hmatch, htrim.run.trimList]
    constructor
    · rintro ⟨⟨group, hfound, hread⟩, hlower, hne⟩
      exact .bracketed hmatch hfound hread hlower hne
    · intro h
      cases h with
      | bare unmatched => rw [hmatch] at unmatched; cases unmatched
      | bracketed matched found same lower nonempty =>
        obtain ⟨rfl, rfl⟩ := Prod.mk.inj (Option.some.inj (hmatch.symm.trans matched))
        exact ⟨⟨_, found, same⟩, lower, nonempty⟩

end

/-- A bare address that the server's pattern reads in part: the client blocks `o'brien@example.org`,
and the server looks for `brien@example.org`. -/
theorem blocked_address_differs : ¬ ∀ (env : MailEnv) (table : LowerTable) (text : String),
      env.toLowerCase = table.toLowerCase →
    BlockingTakesEffect env text := by
  intro h
  have hsame := (h plainEnv asciiTable "o'brien@example.org" rfl).submitted
  have hserver : extractMailAddress plainEnv (some "o'brien@example.org") =
      "brien@example.org" := by decide +kernel
  have hclient : blockedEmail plainEnv (MailUtils.parseSender "o'brien@example.org").email =
      "o'brien@example.org" := by decide +kernel
  rw [hserver, hclient] at hsame
  exact absurd hsame (by decide)

theorem blocking_takes_effect_bob : BlockingTakesEffect plainEnv "\"Bob\" <bob@example.org>" ↔
    SameAddress asciiTable "\"Bob\" <bob@example.org>".toList :=
  blocking_takes_effect_iff plainEnv asciiTable "\"Bob\" <bob@example.org>" rfl

end Redbox
