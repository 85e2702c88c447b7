import Redbox.Content.MailAliases
import Redbox.Text.LowerCase
import Mathlib.Data.List.DropRight
import Mathlib.Data.List.TakeWhile

/-! Which usernames own the mailbox of their address. Names are chosen at registration or
by an administrator, and the address of incoming mail is parsed again. -/
namespace Redbox
open Text MailAddress

/-- `RegisterUsersDto.username`: `/^[A-Za-z0-9]+(?:[_-][A-Za-z0-9]+)*$/` and the length. -/
def registrable (username : String) : Bool :=
  ((username.toList.splitOnP fun c => c = '_' || c = '-').all fun word =>
    word ≠ [] && word.all Char.isAlphanum) &&
    decide (5 ≤ username.length) && decide (username.length ≤ 50)

/-- `ChangeAdminUsernameDto.newUsername` has a length and nothing else. -/
def changeable (username : String) : Bool :=
  decide (3 ≤ username.length) && decide (username.length ≤ 50)

def StorableName (username : String) : Prop := registrable username = true ∨
    changeable username = true

def mailboxAddress (username : String) : String := username ++ "@redbox.cx"

/-- Mail to the address of the user goes to the user, whose name is looked up in any case. -/
def OwnsMailbox (env : MailEnv) (username : String) : Prop :=
  resolveIncomingMailboxUsername env (some (mailboxAddress username)) =
    .ok (env.toLowerCase username)

/-- The longest end of a name that the address pattern takes for one. -/
def nameSuffix (username : String) : List Char := username.toList.rtakeWhile isNameChar

/-- The parser takes the name as it is. -/
structure PlainName (username : String) : Prop where
  no_at : '@' ∉ username.toList
  no_group : angleGroup username.toList = none
  trimmed : trim username = username
  suffix : nameSuffix username = [] ∨ nameSuffix username = username.toList

/-- The address that is read instead is an alias, and the mail is forwarded to the user after all.
-/
def ForwardedName (env : MailEnv) (username : String) : Prop :=
  getAdminForwardUsername env = .ok (some (env.toLowerCase username)) ∧
    env.toLowerCase (String.ofList (nameSuffix username)) ++ "@redbox.cx" ∈
      getAdminForwardAliases env

namespace MailAddress
variable {cs ds inner : List Char}

theorem length_takeWhile_lt : (cs.takeWhile (· ≠ '>')).length < cs.length ↔ '>' ∈ cs := by
  induction cs with
  | nil => simp
  | cons c cs ih =>
    rw [List.takeWhile_cons, List.mem_cons]
    by_cases hc : c = '>'
    · simp [hc]
    · have hkeep : decide (c ≠ '>') = true := decide_eq_true hc
      rw [if_pos hkeep, List.length_cons, List.length_cons, Nat.add_lt_add_iff_right, ih]
      exact (or_iff_right (Ne.symm hc)).symm

theorem angleGroup_cons (c : Char) (cs : List Char) : angleGroup (c :: cs) =
    if c = '<' ∧ cs.takeWhile (· ≠ '>') ≠ [] ∧ '>' ∈ cs then some (cs.takeWhile (· ≠ '>'))
      else angleGroup cs := by
  simp only [angleGroup, length_takeWhile_lt]

theorem angleGroup_some (h : angleGroup cs = some inner) : '>' ∈ cs ∧ '>' ∉ inner := by
  induction cs with
  | nil => cases h
  | cons c cs ih =>
    rw [angleGroup_cons] at h
    split at h
    · rename_i hgroup
      rw [← Option.some.inj h]
      refine ⟨List.mem_cons_of_mem _ hgroup.2.2, fun hmem => ?_⟩
      have hkept := List.mem_takeWhile_imp hmem
      exact absurd hkept (by decide)
    · exact ⟨List.mem_cons_of_mem _ (ih h).1, (ih h).2⟩

/-- Text without brackets behind the name does not matter. -/
theorem angleGroup_append (hclose : '>' ∉ ds) (hopen : '<' ∉ ds) :
    angleGroup (cs ++ ds) = angleGroup cs := by
  induction cs with
  | nil =>
    induction ds with
    | nil => rfl
    | cons d ds ih =>
      rw [List.mem_cons, not_or] at hclose hopen
      rw [List.nil_append, angleGroup_cons, if_neg fun h => hopen.1 h.1.symm]
      exact ih hclose.2 hopen.2
  | cons c cs ih =>
    rw [List.cons_append, angleGroup_cons, angleGroup_cons, ih]
    by_cases hmem : '>' ∈ cs
    · have htake : (cs ++ ds).takeWhile (· ≠ '>') = cs.takeWhile (· ≠ '>') := by
        rw [List.takeWhile_append, if_neg (Nat.ne_of_lt (length_takeWhile_lt.mpr hmem))]
      simp only [htake, List.mem_append, hmem, true_or]
    · have hmem' : '>' ∉ cs ++ ds := fun h => (List.mem_append.mp h).elim hmem hclose
      rw [if_neg fun h => hmem' h.2.2, if_neg fun h => hmem h.2.2]

theorem rtakeWhile_cons (p : Char → Bool) (c : Char) (cs : List Char) :
    (c :: cs).rtakeWhile p = if (c :: cs).all p = true then c :: cs else cs.rtakeWhile p := by
  split
  · rename_i hall
    exact List.rtakeWhile_eq_self_iff.mpr (List.all_eq_true.mp hall)
  · rename_i hall
    rw [List.rtakeWhile, List.rtakeWhile, List.reverse_cons, List.takeWhile_append]
    split
    · rename_i hlength
      have hwhole : cs.reverse.takeWhile p = cs.reverse :=
        (List.takeWhile_prefix p).eq_of_length hlength
      have hcs : ∀ d ∈ cs, p d = true :=
        fun d hd => List.takeWhile_eq_self_iff.mp hwhole d (List.mem_reverse.mpr hd)
      have hc : ¬ p c = true := fun hc =>
        hall (List.all_eq_true.mpr fun d hd => (List.mem_cons.mp hd).elim (fun h => h ▸ hc) (hcs d))
      rw [List.takeWhile_cons_of_neg hc, List.append_nil, hwhole]
    · rfl

/-- Where only name characters stand before the at sign, all of them are the name. -/
theorem addressHere_name (hne : cs ≠ []) (hname : ∀ c ∈ cs, isNameChar c = true)
    (hdomain : domain ds = some ds) :
    addressHere (cs ++ '@' :: ds) = some (cs ++ '@' :: ds) := by
  have htake : (cs ++ '@' :: ds).takeWhile isNameChar = cs := by
    rw [List.takeWhile_append_of_pos hname, List.takeWhile_cons_of_neg (by decide), List.append_nil]
  simp only [addressHere, htake, List.drop_left, if_neg hne, hdomain, Option.map_some]

theorem addressHere_other (hat : '@' ∉ cs) (hname : ¬ ∀ c ∈ cs, isNameChar c = true) :
    addressHere (cs ++ '@' :: ds) = none := by
  have hshort : (cs.takeWhile isNameChar).length ≠ cs.length := by
    intro hlength
    exact hname (List.takeWhile_eq_self_iff.mp
      ((List.takeWhile_prefix isNameChar).eq_of_length hlength))
  have htake : (cs ++ '@' :: ds).takeWhile isNameChar = cs.takeWhile isNameChar := by
    rw [List.takeWhile_append, if_neg hshort]
  have hdrop : (cs ++ '@' :: ds).drop (cs.takeWhile isNameChar).length = cs.dropWhile isNameChar ++
      '@' :: ds := by
    have hsplit : cs ++ '@' :: ds = cs.takeWhile isNameChar ++
        (cs.dropWhile isNameChar ++ '@' :: ds) := by
      rw [← List.append_assoc, List.takeWhile_append_dropWhile]
    rw [hsplit, List.drop_left]
  simp only [addressHere, htake, hdrop]
  cases hrest : cs.dropWhile isNameChar with
  | nil =>
    rw [List.dropWhile_eq_nil_iff] at hrest
    exact absurd hrest hname
  | cons d rest =>
    have hd : d ≠ '@' := by
      rintro rfl
      exact hat ((List.dropWhile_suffix isNameChar).subset (hrest ▸ List.mem_cons_self))
    simp [hd]

/-- The name at the end of the text before the only at sign. -/
theorem address_append (hat : '@' ∉ cs) (hdomain : domain ds = some ds) (hds : address ds = none) :
    address (cs ++ '@' :: ds) =
      if cs.rtakeWhile isNameChar = [] then none
        else some (cs.rtakeWhile isNameChar ++ '@' :: ds) := by
  induction cs with
  | nil =>
    have hhere : addressHere ('@' :: ds) = none := by
      have htake : ('@' :: ds).takeWhile isNameChar = [] := List.takeWhile_cons_of_neg (by decide)
      simp [addressHere, htake]
    rw [List.nil_append, address, hhere, Option.none_or, hds]
    rfl
  | cons c cs ih =>
    have hat' : '@' ∉ cs := fun h => hat (List.mem_cons_of_mem _ h)
    rw [List.cons_append, address, ← List.cons_append, rtakeWhile_cons]
    by_cases hname : ∀ d ∈ c :: cs, isNameChar d = true
    · rw [addressHere_name (List.cons_ne_nil c cs) hname hdomain,
        if_pos (List.all_eq_true.mpr hname),
        if_neg (List.cons_ne_nil c cs)]
      rfl
    · rw [addressHere_other hat hname, if_neg (fun hall => hname (List.all_eq_true.mp hall)),
        Option.none_or, ih hat']

end MailAddress

/-- Behind every username. -/
def mailDomain : List Char := "redbox.cx".toList

theorem domain_mailDomain : domain mailDomain = some mailDomain := by decide

theorem address_mailDomain : address mailDomain = none := by decide

theorem toList_mailboxAddress (u : String) :
    (mailboxAddress u).toList = u.toList ++ '@' :: mailDomain := String.toList_append

section
variable {env : MailEnv} {table : LowerTable} {u v : String}

theorem isNameChar_eq (c : Char) : isNameChar c =
    (((c.isUpper || c.isLower) || c.isDigit) || ['.', '_', '%', '+', '-'].contains c) := rfl

theorem isUpper_eq (c : Char) : c.isUpper = decide (65 ≤ c.toNat ∧ c.toNat ≤ 90) := rfl

theorem isLower_eq (c : Char) : c.isLower = (decide (97 ≤ c.toNat) && decide (c.toNat ≤ 122)) := rfl

theorem isDigit_eq (c : Char) : c.isDigit = (decide (48 ≤ c.toNat) && decide (c.toNat ≤ 57)) := rfl

theorem isNameChar_ascii {c : Char} (h : isNameChar c = true) :
    c.toNat < 128 ∧ isSpace c = false := by
  have hlt : c.toNat < 128 := by
    simp only [isNameChar_eq, isUpper_eq, isLower_eq, isDigit_eq, Bool.or_eq_true, Bool.and_eq_true,
      decide_eq_true_eq,
      List.contains_iff_mem, List.mem_cons, List.not_mem_nil, or_false] at h
    rcases h with ((⟨-, h⟩ | ⟨-, h⟩) | ⟨-, h⟩) | (rfl | rfl | rfl | rfl | rfl)
    · exact Nat.lt_of_le_of_lt h (by decide)
    · exact Nat.lt_of_le_of_lt h (by decide)
    · exact Nat.lt_of_le_of_lt h (by decide)
    all_goals decide
  have hall : ∀ n, n < 128 → isNameChar (Char.ofNat n) = true → isSpace (Char.ofNat n) = false := by
    decide +kernel
  have hspace := hall c.toNat hlt
  rw [Char.ofNat_toNat] at hspace
  exact ⟨hlt, hspace h⟩

theorem not_isNameChar_mark : ∀ d ∈ ['@', '<', '>', '"'], ¬ isNameChar d = true :=
  forall_marks.mpr (by decide)

theorem forwardUsername_chars {n : String} (h : getAdminForwardUsername env = .ok (some n)) :
    ∀ c ∈ n.toList, isNameChar c = true := by
  unfold getAdminForwardUsername at h
  split at h
  · cases h
  · split at h
    · rename_i username _ hpattern
      rw [← Option.some.inj (Except.ok.inj h)]
      simp only [usernamePattern, Bool.and_eq_true, List.all_eq_true, Bool.or_eq_true,
        beq_iff_eq] at hpattern
      intro c hc
      simp only [isNameChar_eq, Bool.or_eq_true]
      rcases hpattern.1.1 c hc with ((hlower | hdigit) | rfl) | rfl
      · exact .inl (.inl (.inr hlower))
      · exact .inl (.inr hdigit)
      · decide
      · decide
    · cases h

theorem orElse_cases (a b : String) : orElse (some a) b = a ∨ orElse (some a) b = b := by
  unfold orElse
  rw [Option.filter_some]
  split
  · exact .inl rfl
  · exact .inr rfl

theorem mem_trimList {c : Char} {cs : List Char} (h : c ∈ trimList cs) : c ∈ cs := by
  rw [trimList, List.mem_reverse] at h
  exact (List.dropWhile_suffix _).subset (List.mem_reverse.mp ((List.dropWhile_suffix _).subset h))

/-- What stands before the address in the result of the resolution. -/
theorem resolve_ok {r : Option String} (h : resolveIncomingMailboxUsername env r = .ok v) :
    v = "unknown" ∨ getAdminForwardUsername env = .ok (some v) ∨
      v.toList = trimList ((extractMailAddress env r).toList.takeWhile (· ≠ '@')) := by
  unfold resolveIncomingMailboxUsername at h
  simp only at h
  split at h
  · exact .inl (Except.ok.inj h).symm
  · cases hf : getAdminForwardUsername env with
    | error e =>
      rw [hf] at h
      cases h
    | ok forward =>
      rw [hf] at h
      have hv := (Except.ok.inj h).symm
      cases hn : forward.filter fun _ =>
        (getAdminForwardAliases env).contains (extractMailAddress env r) with
      | some n =>
        rw [hn, Option.getD_some] at hv
        rw [Option.filter_eq_some_iff] at hn
        rw [hn.1, hv]
        exact .inr (.inl rfl)
      | none =>
        rw [hn, Option.getD_none] at hv
        rw [hv]
        exact (orElse_cases _ _).symm.imp_right fun hfirst =>
          .inr (by rw [hfirst, trim, String.toList_ofList, String.toList_ofList])

/-- An address keeps its ends. -/
theorem trimmed_address {cs : List Char} (h : Trimmed cs) : Trimmed (cs ++ '@' :: mailDomain) := by
  constructor
  · intro c hc
    cases cs with
    | nil =>
      rw [← Option.some.inj hc]
      decide
    | cons d cs => exact h.1 c hc
  · intro c hc
    have hlast : ('@' :: mailDomain).getLast? = some 'x' := by decide
    rw [List.getLast?_append_of_ne_nil _ (List.cons_ne_nil _ _), hlast] at hc
    rw [← Option.some.inj hc]
    decide

theorem run_address (before : List Char) (cs : List Char) :
    table.run before (cs ++ '@' :: mailDomain) = table.run before cs ++ '@' :: mailDomain := by
  have hascii : mailDomain.all (fun c => decide (c.toNat < 128)) = true := by decide
  have hdomain : table.run [] mailDomain = mailDomain.map Char.toLower :=
    LowerTable.run_ascii fun c hc => of_decide_eq_true (List.all_eq_true.mp hascii c hc)
  rw [LowerTable.run_at, hdomain]
  rfl

/-- What is extracted once the parser has found the name. -/
theorem extract_eq (htable : env.toLowerCase = table.toLowerCase) {cs : List Char}
    (hcs : Trimmed cs) (hfound : ((angleGroup (trimList (mailboxAddress u).toList)).or
      (address (trimList (mailboxAddress u).toList))).getD
      (trimList (mailboxAddress u).toList) = cs ++ '@' :: mailDomain) :
    (extractMailAddress env (some (mailboxAddress u))).toList = table.run [] cs ++ '@' ::
      mailDomain := by
  simp only [extractMailAddress, hfound, htable]
  rw [trim, String.toList_ofList, LowerTable.toList_toLowerCase, String.toList_ofList, run_address]
  exact (trimmed_address hcs.run).trimList

/-- The parser reads the end of the name, or all of it where the name has no such end. -/
theorem extract_name (htable : env.toLowerCase = table.toLowerCase) (hat : '@' ∉ u.toList)
    (hgroup : angleGroup u.toList = none) (htrim : Trimmed u.toList) :
    (extractMailAddress env (some (mailboxAddress u))).toList =
      table.run [] (if nameSuffix u = [] then u.toList else nameSuffix u) ++ '@' :: mailDomain := by
  have hsuffix : ∀ c ∈ nameSuffix u, isNameChar c = true := fun c hc => List.mem_rtakeWhile_imp hc
  have hwhole : trimList (mailboxAddress u).toList = u.toList ++ '@' :: mailDomain := by
    rw [toList_mailboxAddress, (trimmed_address htrim).trimList]
  have hnogroup : angleGroup (u.toList ++ '@' :: mailDomain) = none := by
    rw [angleGroup_append (by decide) (by decide), hgroup]
  apply extract_eq htable
  · split
    · exact htrim
    · constructor
      · exact fun c hc => (isNameChar_ascii (hsuffix c (List.mem_of_head? hc))).2
      · exact fun c hc => (isNameChar_ascii (hsuffix c (List.mem_of_getLast? hc))).2
  · rw [hwhole, hnogroup, Option.none_or, address_append hat domain_mailDomain address_mailDomain]
    unfold nameSuffix
    split <;> rfl

theorem takeWhile_address {cs : List Char} (h : '@' ∉ cs) :
    (cs ++ '@' :: mailDomain).takeWhile (· ≠ '@') = cs := by
  rw [List.takeWhile_append_of_pos, List.takeWhile_cons_of_neg (by decide), List.append_nil]
  intro c hc
  rw [decide_eq_true_eq]
  rintro rfl
  exact h hc

/-- Lowering the end of a name gives an end of the lowered name. -/
theorem run_suffix {cs ds : List Char} (hds : ∀ d ∈ ds, isNameChar d = true) :
    ∃ front : List Char, table.run [] (cs ++ ds) = front ++ table.run [] ds ∧
    (front = [] ↔ cs = []) := by
  obtain ⟨front, hfront, hempty⟩ := @LowerTable.run_append table [] cs ds
  have hascii : ∀ d ∈ ds, d.toNat < 128 := fun d hd => (isNameChar_ascii (hds d hd)).1
  rw [LowerTable.run_ascii hascii] at hfront
  rw [LowerTable.run_ascii hascii]
  exact ⟨front, hfront, hempty⟩

theorem trimmed_of_trim (h : trim u = u) : Trimmed u.toList := by
  have hlist := congrArg String.toList h
  rw [trim, String.toList_ofList] at hlist
  exact hlist ▸ trimmed_trimList u.toList

theorem trim_of_trimmed (h : Trimmed u.toList) : trim u = u := by
  rw [trim, h.trimList, String.ofList_toList]

theorem StorableName.ne_empty (h : StorableName u) : u.toList ≠ [] := by
  have hlength : 3 ≤ u.length := by
    rcases h with h | h
    · simp only [registrable, Bool.and_eq_true, decide_eq_true_eq] at h
      omega
    · simp only [changeable, Bool.and_eq_true, decide_eq_true_eq] at h
      exact h.1
  intro hnil
  rw [← String.length_toList, hnil] at hlength
  exact absurd hlength (by decide)

theorem extracted_ne_empty {r : Option String} {cs : List Char}
    (h : (extractMailAddress env r).toList = cs ++ '@' :: mailDomain) :
    extractMailAddress env r ≠ "" := by
  intro hempty
  rw [hempty] at h
  exact absurd h.symm (List.append_ne_nil_of_right_ne_nil _ (List.cons_ne_nil _ _))

/-- A resolved name has no at sign and no white space at its ends, and brackets come from the
address. -/
theorem resolved_chars {r : Option String} (h : resolveIncomingMailboxUsername env r = .ok v) :
    '@' ∉ v.toList ∧ Trimmed v.toList ∧
    ('>' ∈ v.toList → '>' ∈ (extractMailAddress env r).toList) := by
  rcases resolve_ok h with rfl | hforward | hlocal
  · have htrim : trim "unknown" = "unknown" := by decide
    exact ⟨by decide, trimmed_of_trim htrim, fun h => absurd h (by decide)⟩
  · have hchars := forwardUsername_chars hforward
    refine ⟨fun h => absurd (hchars _ h) (by decide), ⟨?_, ?_⟩,
      fun h => absurd (hchars _ h) (by decide)⟩
    · exact fun c hc => (isNameChar_ascii (hchars c (List.mem_of_head? hc))).2
    · exact fun c hc => (isNameChar_ascii (hchars c (List.mem_of_getLast? hc))).2
  · have hkept : ∀ c ∈ v.toList, c ≠ '@' ∧ c ∈ (extractMailAddress env r).toList := by
      intro c hc
      rw [hlocal] at hc
      have hc := mem_trimList hc
      have hkept := List.mem_takeWhile_imp hc
      exact ⟨of_decide_eq_true hkept, (List.takeWhile_prefix _).subset hc⟩
    exact ⟨fun h => (hkept _ h).1 rfl, hlocal ▸ trimmed_trimList _, fun h => (hkept _ h).2⟩

theorem resolve_extracted {r : Option String} {cs : List Char} {forward : Option String}
    (hforward : getAdminForwardUsername env = .ok forward)
    (hclean : (extractMailAddress env r).toList = cs ++ '@' :: mailDomain) (hat : '@' ∉ cs)
    (hcs : Trimmed cs) (hne : cs ≠ []) :
    resolveIncomingMailboxUsername env r =
      .ok ((forward.filter fun _ =>
        (getAdminForwardAliases env).contains (extractMailAddress env r)).getD
        (String.ofList cs)) := by
  have hlocal : trim (String.ofList ((extractMailAddress env r).toList.takeWhile (· ≠ '@'))) =
      String.ofList cs := by
    rw [hclean, takeWhile_address hat, trim, String.toList_ofList, hcs.trimList]
  have horElse : orElse (some (String.ofList cs)) "unknown" = String.ofList cs := by
    unfold orElse
    rw [Option.filter_some, if_pos]
    · rfl
    · rw [decide_eq_true_eq]
      intro hempty
      have hlist := congrArg String.toList hempty
      rw [String.toList_ofList] at hlist
      exact hne hlist
  unfold resolveIncomingMailboxUsername
  simp only [if_neg (extracted_ne_empty hclean), hlocal, horElse, hforward]
  rfl

/-- A plain name is what the parser reads. -/
theorem PlainName.extracted (h : PlainName u) (htable : env.toLowerCase = table.toLowerCase) :
    (extractMailAddress env (some (mailboxAddress u))).toList = table.run [] u.toList ++ '@' ::
      mailDomain := by
  rw [extract_name htable h.no_at h.no_group (trimmed_of_trim h.trimmed)]
  rcases h.suffix with hnil | hwhole
  · rw [if_pos hnil]
  · rw [hwhole, ite_self]

theorem PlainName.owns (h : PlainName u) (htable : env.toLowerCase = table.toLowerCase)
    (hne : u.toList ≠ []) (hfree : env.toLowerCase (mailboxAddress u) ∉ getAdminForwardAliases env)
    {forward : Option String} (hforward : getAdminForwardUsername env = .ok forward) :
    OwnsMailbox env u := by
  have hclean := h.extracted htable
  have hlower : extractMailAddress env (some (mailboxAddress u)) =
      env.toLowerCase (mailboxAddress u) := by
    apply String.toList_inj.mp
    rw [hclean, htable, LowerTable.toList_toLowerCase, toList_mailboxAddress, run_address]
  have hat : '@' ∉ table.run [] u.toList :=
    fun hmem => h.no_at ((LowerTable.mark_run (by decide)).mp hmem)
  have hrun : table.run [] u.toList ≠ [] := fun hnil => hne (LowerTable.run_eq_nil.mp hnil)
  have hnone : (forward.filter fun _ =>
    (getAdminForwardAliases env).contains (extractMailAddress env (some (mailboxAddress u)))) =
      none := by
    rw [Option.filter_eq_none_iff, hlower]
    exact fun n _ hmem => hfree (List.contains_iff_mem.mp hmem)
  rw [OwnsMailbox, resolve_extracted hforward hclean hat (trimmed_of_trim h.trimmed).run hrun,
    hnone, htable]
  rfl

/-- What is left of a name that is not plain. -/
theorem OwnsMailbox.parsed (h : OwnsMailbox env u) (htable : env.toLowerCase = table.toLowerCase) :
    '@' ∉ u.toList ∧ angleGroup u.toList = none ∧ Trimmed u.toList := by
  have hchars := resolved_chars h
  have hlist : (env.toLowerCase u).toList = table.run [] u.toList := by
    rw [htable, LowerTable.toList_toLowerCase]
  rw [hlist] at hchars
  have htrim : Trimmed u.toList := hchars.2.1.of_run
  refine ⟨fun hat => hchars.1 ((LowerTable.mark_run (by decide)).mpr hat), ?_, htrim⟩
  cases hgroup : angleGroup u.toList with
  | none => rfl
  | some inner =>
    obtain ⟨hclose, hinner⟩ := angleGroup_some hgroup
    have hfound : angleGroup (trimList (mailboxAddress u).toList) = some inner := by
      rw [toList_mailboxAddress, (trimmed_address htrim).trimList,
        angleGroup_append (by decide) (by decide), hgroup]
    have hread := hchars.2.2 ((LowerTable.mark_run (by decide)).mpr hclose)
    simp only [extractMailAddress, hfound, Option.some_or, Option.getD_some, htable] at hread
    rw [trim, String.toList_ofList, LowerTable.toList_toLowerCase, String.toList_ofList] at hread
    exact absurd ((LowerTable.mark_run (by decide)).mp (mem_trimList hread)) hinner

theorem nameSuffix_chars : ∀ c ∈ nameSuffix u, isNameChar c = true :=
  fun _ => List.mem_rtakeWhile_imp

theorem trimmed_suffix : Trimmed (nameSuffix u) :=
  ⟨fun c hc => (isNameChar_ascii (nameSuffix_chars c (List.mem_of_head? hc))).2,
    fun c hc => (isNameChar_ascii (nameSuffix_chars c (List.mem_of_getLast? hc))).2⟩

/-- Where the parser reads the end of a name, the name does not come out. -/
theorem run_nameSuffix_ne (h : nameSuffix u ≠ u.toList) :
    table.run [] (nameSuffix u) ≠ table.run [] u.toList := by
  intro heq
  obtain ⟨front, hfront, hempty⟩ :=
    @run_suffix table (u.toList.rdropWhile isNameChar) (nameSuffix u) nameSuffix_chars
  have hsplit : u.toList.rdropWhile isNameChar ++ nameSuffix u = u.toList :=
    List.rdropWhile_append_rtakeWhile
  rw [hsplit, ← heq] at hfront
  have hnil := hempty.mp (List.self_eq_append_left.mp hfront)
  rw [hnil, List.nil_append] at hsplit
  exact h hsplit

/-- What is read where a name has such an end. -/
theorem suffix_read (htable : env.toLowerCase = table.toLowerCase) (hat : '@' ∉ u.toList)
    (hgroup : angleGroup u.toList = none) (htrim : Trimmed u.toList) (hnil : nameSuffix u ≠ []) :
    extractMailAddress env (some (mailboxAddress u)) =
      env.toLowerCase (String.ofList (nameSuffix u)) ++ "@redbox.cx" ∧
      ∀ forward, getAdminForwardUsername env = .ok forward →
        resolveIncomingMailboxUsername env (some (mailboxAddress u)) =
        .ok ((forward.filter fun _ =>
          (getAdminForwardAliases env).contains
          (extractMailAddress env (some (mailboxAddress u)))).getD
          (String.ofList (table.run [] (nameSuffix u)))) := by
  have hclean := extract_name htable hat hgroup htrim
  rw [if_neg hnil] at hclean
  have hat' : '@' ∉ table.run [] (nameSuffix u) := fun hmem =>
    absurd (nameSuffix_chars _ ((LowerTable.mark_run (by decide)).mp hmem)) (by decide)
  have hrun : table.run [] (nameSuffix u) ≠ [] := fun h => hnil (LowerTable.run_eq_nil.mp h)
  constructor
  · apply String.toList_inj.mp
    rw [hclean, String.toList_append, htable, LowerTable.toList_toLowerCase, String.toList_ofList]
    rfl
  · exact fun forward hforward => resolve_extracted hforward hclean hat' trimmed_suffix.run hrun

/-- A forwarding name has none of the characters that the parser minds. -/
theorem ForwardedName.parsed (h : ForwardedName env u)
    (htable : env.toLowerCase = table.toLowerCase) :
    '@' ∉ u.toList ∧ angleGroup u.toList = none ∧ Trimmed u.toList := by
  have hchars := forwardUsername_chars h.1
  rw [htable, LowerTable.toList_toLowerCase] at hchars
  have hmark : ∀ d ∈ ['@', '<', '>', '"'], d ∉ u.toList := by
    intro d hd hmem
    have hname := hchars d ((LowerTable.mark_run hd).mpr hmem)
    exact absurd hname (not_isNameChar_mark d hd)
  have htrim : Trimmed (table.run [] u.toList) :=
    ⟨fun c hc => (isNameChar_ascii (hchars c (List.mem_of_head? hc))).2,
      fun c hc => (isNameChar_ascii (hchars c (List.mem_of_getLast? hc))).2⟩
  refine ⟨hmark '@' (by decide), ?_, htrim.of_run⟩
  cases hgroup : angleGroup u.toList with
  | none => rfl
  | some inner => exact absurd (angleGroup_some hgroup).1 (hmark '>' (by decide))

/-- A user owns the mailbox of the name exactly when the parser takes the name as it is, or
forwarding makes up for it; a forwarding name that is ill-formed stops all mail. -/
theorem mailbox_owned_iff (env : MailEnv) (table : LowerTable) (u : String)
    (htable : env.toLowerCase = table.toLowerCase) (hu : StorableName u)
    (hfree : env.toLowerCase (mailboxAddress u) ∉ getAdminForwardAliases env) :
    OwnsMailbox env u ↔ (∃ forward, getAdminForwardUsername env = .ok forward) ∧
    (PlainName u ∨ ForwardedName env u) := by
  have hlower : (env.toLowerCase u).toList = table.run [] u.toList := by
    rw [htable, LowerTable.toList_toLowerCase]
  constructor
  · intro howns
    obtain ⟨hat, hgroup, htrim⟩ := howns.parsed htable
    have hclean := extract_name htable hat hgroup htrim
    obtain ⟨forward, hforward⟩ : ∃ forward, getAdminForwardUsername env = .ok forward := by
      cases hf : getAdminForwardUsername env with
      | ok forward => exact ⟨forward, rfl⟩
      | error e =>
        rw [OwnsMailbox, resolveIncomingMailboxUsername] at howns
        simp only [if_neg (extracted_ne_empty hclean), hf] at howns
        cases howns
    refine ⟨⟨forward, hforward⟩, ?_⟩
    by_cases hnil : nameSuffix u = []
    · exact .inl ⟨hat, hgroup, trim_of_trimmed htrim, .inl hnil⟩
    by_cases hwhole : nameSuffix u = u.toList
    · exact .inl ⟨hat, hgroup, trim_of_trimmed htrim, .inr hwhole⟩
    obtain ⟨hread, hresolve⟩ := suffix_read htable hat hgroup htrim hnil
    rw [OwnsMailbox, hresolve forward hforward, Except.ok.injEq] at howns
    cases hn : forward.filter fun _ =>
      (getAdminForwardAliases env).contains (extractMailAddress env (some (mailboxAddress u))) with
    | none =>
      rw [hn, Option.getD_none] at howns
      have hlist := congrArg String.toList howns
      rw [String.toList_ofList, hlower] at hlist
      exact absurd hlist (run_nameSuffix_ne hwhole)
    | some n =>
      rw [hn, Option.getD_some] at howns
      obtain ⟨hforwarded, halias⟩ := Option.filter_eq_some_iff.mp hn
      exact .inr ⟨by rw [hforward, hforwarded, howns], hread ▸ List.contains_iff_mem.mp halias⟩
  · rintro ⟨⟨forward, hforward⟩, hplain | hforwarded⟩
    · exact hplain.owns htable hu.ne_empty hfree hforward
    · obtain ⟨hat, hgroup, htrim⟩ := hforwarded.parsed htable
      by_cases hnil : nameSuffix u = []
      · exact PlainName.owns ⟨hat, hgroup, trim_of_trimmed htrim, .inl hnil⟩ htable hu.ne_empty
          hfree hforward
      obtain ⟨hread, hresolve⟩ := suffix_read htable hat hgroup htrim hnil
      have hcontains : (getAdminForwardAliases env).contains
          (extractMailAddress env (some (mailboxAddress u))) = true :=
        List.contains_iff_mem.mpr (hread ▸ hforwarded.2)
      rw [OwnsMailbox, hresolve _ hforwarded.1, Option.filter_some, if_pos hcontains]
      rfl

theorem mem_splitOnP (p : Char → Bool) {cs : List Char} :
    ∀ c ∈ cs, p c = true ∨ ∃ word ∈ cs.splitOnP p, c ∈ word := by
  induction cs with
  | nil => exact fun c hc => absurd hc List.not_mem_nil
  | cons d cs ih =>
    intro c hc
    rw [List.splitOnP_cons_eq_if_modifyHead]
    by_cases hd : p d = true
    · rw [if_pos hd]
      rcases List.mem_cons.mp hc with rfl | hc
      · exact .inl hd
      · exact (ih c hc).imp_right fun ⟨word, hword, hmem⟩ =>
          ⟨word, List.mem_cons_of_mem _ hword, hmem⟩
    · rw [if_neg hd]
      cases hwords : cs.splitOnP p with
      | nil => exact absurd hwords (List.splitOnP_ne_nil p cs)
      | cons first words =>
        rw [hwords] at ih
        rcases List.mem_cons.mp hc with rfl | hc
        · exact .inr ⟨c :: first, List.mem_cons_self, List.mem_cons_self⟩
        · refine (ih c hc).imp_right fun ⟨word, hword, hmem⟩ => ?_
          rcases List.mem_cons.mp hword with rfl | hword
          · exact ⟨d :: word, List.mem_cons_self, List.mem_cons_of_mem _ hmem⟩
          · exact ⟨word, List.mem_cons_of_mem _ hword, hmem⟩

/-- Names from the registration are plain. -/
theorem registrable_plain (h : registrable u = true) : PlainName u := by
  simp only [registrable, Bool.and_eq_true, List.all_eq_true] at h
  have hname : ∀ c ∈ u.toList, isNameChar c = true := by
    intro c hc
    rcases mem_splitOnP (fun c => c = '_' || c = '-') c hc with hsep | ⟨word, hword, hmem⟩
    · simp only [Bool.or_eq_true, decide_eq_true_eq] at hsep
      rcases hsep with rfl | rfl
      · decide
      · decide
    · rw [isNameChar, (h.1.1 word hword).2 c hmem, Bool.true_or]
  have htrim : Trimmed u.toList :=
    ⟨fun c hc => (isNameChar_ascii (hname c (List.mem_of_head? hc))).2,
      fun c hc => (isNameChar_ascii (hname c (List.mem_of_getLast? hc))).2⟩
  refine ⟨fun hat => absurd (hname _ hat) (by decide), ?_, trim_of_trimmed htrim,
    .inr (List.rtakeWhile_eq_self_iff.mpr hname)⟩
  cases hgroup : angleGroup u.toList with
  | none => rfl
  | some inner => exact absurd (hname _ (angleGroup_some hgroup).1) (by decide)

end

def plainEnv : MailEnv := ⟨none, none, asciiTable.toLowerCase⟩

theorem plainEnv_aliases : getAdminForwardAliases plainEnv = [] := by decide +kernel

/-- An administrator can name a user `bob@redbox.cx`, whose mail goes to `bob`. -/
theorem renamed_user_loses_mail : ¬ ∀ (env : MailEnv) (table : LowerTable) (u : String),
      env.toLowerCase = table.toLowerCase →
    StorableName u → env.toLowerCase (mailboxAddress u) ∉ getAdminForwardAliases env →
    OwnsMailbox env u := by
  intro h
  have howns := h plainEnv asciiTable "bob@redbox.cx" rfl (.inr (by decide))
    (plainEnv_aliases ▸ List.not_mem_nil)
  exact absurd (howns.parsed rfl).1 (by decide)

theorem mailbox_owned_alice : OwnsMailbox plainEnv "Alice" ↔
    (∃ forward, getAdminForwardUsername plainEnv = .ok forward) ∧
    (PlainName "Alice" ∨ ForwardedName plainEnv "Alice") :=
  mailbox_owned_iff plainEnv asciiTable "Alice" rfl (.inl (by decide))
    (plainEnv_aliases ▸ List.not_mem_nil)

end Redbox
