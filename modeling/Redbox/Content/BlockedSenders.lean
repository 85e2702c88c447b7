import Redbox.Content.MailRecipients
import Redbox.Content.SenderAddresses

/-! Blocked senders. The address that is looked up is read out of the formatted From text,
in which the sender of the mail chooses the display name. -/
namespace Redbox
open Interleaving Text MailAddress

/-- A From header of one address. -/
structure FromHeader where
  name : String
  addr : String
  addr_spec : '@' ∈ addr.toList

/-- `from.text` of mailparser. -/
def FromHeader.text (header : FromHeader) : String :=
  if header.name = "" then header.addr else "\"" ++ header.name ++ "\" <" ++ header.addr ++ ">"

/-- Every opening bracket is closed at once, so that no group begins in the name. -/
def NoGroupBegins (name : List Char) : Prop := ∀ pre post, name = pre ++ '<' :: post →
    post.head? = some '>'

/-- The server reads the address of the header out of its text. -/
inductive FromHeader.Readable (table : LowerTable) (header : FromHeader) : Prop where
  | bare (unnamed : header.name = "") (whole : BareAddress header.addr.toList)
  | named (named : header.name ≠ "") (clean : NoGroupBegins header.name.toList)
      (trimmed : Trimmed header.addr.toList)
      (no_close : '>' ∉ header.addr.toList)
  | echoed {group : List Char} (named : header.name ≠ "")
      (found : angleGroup header.name.toList = some group)
      (same : trimList (table.run [] group) = table.run [] header.addr.toList)

section
variable {env : MailEnv} {table : LowerTable} {name addr : List Char}

/-- The text of a header with a name. -/
def quotedText (name addr : List Char) : List Char :=
  '"' :: (name ++ '"' :: ' ' :: '<' :: (addr ++ ['>']))

theorem toList_text {header : FromHeader} (h : header.name ≠ "") :
    header.text.toList = quotedText header.name.toList header.addr.toList := by
  rw [FromHeader.text, if_neg h]
  simp [quotedText]

theorem trimmed_quotedText (name addr : List Char) : Trimmed (quotedText name addr) := by
  constructor
  · intro c hc
    rw [← Option.some.inj hc]
    decide
  · intro c hc
    have hsplit : quotedText name addr = ('"' :: (name ++ '"' :: ' ' :: '<' :: addr)) ++ ['>'] := by
      simp [quotedText]
    rw [hsplit, List.getLast?_concat] at hc
    rw [← Option.some.inj hc]
    decide

/-- A group of the name comes first. -/
theorem angleGroup_left {cs ds group : List Char} (h : angleGroup cs = some group) :
    angleGroup (cs ++ ds) = some group := by
  induction cs with
  | nil => cases h
  | cons c cs ih =>
    rw [angleGroup_cons] at h
    rw [List.cons_append, angleGroup_cons]
    split at h
    · rename_i hgroup
      have htake : (cs ++ ds).takeWhile (· ≠ '>') = cs.takeWhile (· ≠ '>') := by
        rw [List.takeWhile_append, if_neg (Nat.ne_of_lt (length_takeWhile_lt.mpr hgroup.2.2))]
      rw [htake, if_pos ⟨hgroup.1, hgroup.2.1, List.mem_append_left _ hgroup.2.2⟩, h]
    · rename_i hgroup
      have hmem := (angleGroup_some h).1
      have htake : (cs ++ ds).takeWhile (· ≠ '>') = cs.takeWhile (· ≠ '>') := by
        rw [List.takeWhile_append, if_neg (Nat.ne_of_lt (length_takeWhile_lt.mpr hmem))]
      rw [htake, if_neg fun hg => hgroup ⟨hg.1, hg.2.1, hmem⟩, ih h]

/-- Where no group begins in the name, the address is the group. -/
theorem angleGroup_clean (h : NoGroupBegins name) (ds : List Char) :
    angleGroup (name ++ ds) = angleGroup ds := by
  induction name with
  | nil => rfl
  | cons c name ih =>
    have htail : NoGroupBegins name := fun pre post heq => h (c :: pre) post (by rw [heq]; rfl)
    rw [List.cons_append, angleGroup_cons, if_neg, ih htail]
    rintro ⟨rfl, hne, -⟩
    have hhead := h [] name rfl
    obtain ⟨rest, rfl⟩ : ∃ rest, name = '>' :: rest := by
      cases name with
      | nil => cases hhead
      | cons d rest => exact ⟨rest, by rw [Option.some.inj hhead]⟩
    simp at hne

/-- An opening bracket that is not closed in the name takes the end of the text in. -/
theorem angleGroup_open (addr : List Char) (hgroup : angleGroup name = none)
    (hopen : ¬ NoGroupBegins name) :
    ∃ back, angleGroup (name ++ '"' :: ' ' :: '<' :: (addr ++ ['>'])) =
      some (back ++ '"' :: ' ' :: '<' :: (addr.takeWhile (· ≠ '>'))) := by
  induction name with
  | nil => exact absurd (fun pre post h => by cases pre <;> cases h) hopen
  | cons c name ih =>
    rw [angleGroup_cons] at hgroup
    by_cases hhere : c = '<' ∧ name.head? ≠ some '>'
    · obtain ⟨rfl, hhead⟩ := hhere
      have hclose : '>' ∉ name := by
        intro hmem
        have htake : name.takeWhile (· ≠ '>') ≠ [] := by
          cases name with
          | nil => cases hmem
          | cons d rest =>
            have hd : d ≠ '>' := fun hd => hhead (by rw [hd]; rfl)
            simp [hd]
        rw [if_pos ⟨rfl, htake, hmem⟩] at hgroup
        cases hgroup
      have hname : ∀ d ∈ name, decide (d ≠ '>') = true := by
        intro d hd
        rw [decide_eq_true_eq]
        rintro rfl
        exact hclose hd
      have haddr : (addr ++ ['>']).takeWhile (· ≠ '>') = addr.takeWhile (· ≠ '>') := by
        rw [List.takeWhile_append]
        split
        · rename_i hlength
          rw [(List.takeWhile_prefix _).eq_of_length hlength]
          simp
        · rfl
      have htake : (name ++ '"' :: ' ' :: '<' :: (addr ++ ['>'])).takeWhile (· ≠ '>') =
          name ++ '"' :: ' ' :: '<' :: addr.takeWhile (· ≠ '>') := by
        rw [List.takeWhile_append_of_pos hname, List.takeWhile_cons_of_pos (by decide),
          List.takeWhile_cons_of_pos (by decide),
          List.takeWhile_cons_of_pos (by decide), haddr]
      refine ⟨name, ?_⟩
      rw [List.cons_append, angleGroup_cons, htake, if_pos ⟨rfl, by simp, by simp⟩]
    · have hnone : angleGroup name = none := by
        split at hgroup
        · cases hgroup
        · exact hgroup
      have hrest : ¬ NoGroupBegins name := by
        intro hclean
        apply hopen
        intro pre post heq
        cases pre with
        | nil =>
          obtain ⟨rfl, rfl⟩ := List.cons.inj heq
          by_contra hhead
          exact hhere ⟨rfl, hhead⟩
        | cons d pre => exact hclean pre post (List.cons.inj heq).2
      obtain ⟨back, hback⟩ := ih hnone hrest
      refine ⟨back, ?_⟩
      rw [List.cons_append, angleGroup_cons, if_neg, hback]
      rintro ⟨rfl, hne, -⟩
      have hhead : name.head? = some '>' := by
        by_contra hhead
        exact hhere ⟨rfl, hhead⟩
      cases name with
      | nil => cases hhead
      | cons d rest =>
        rw [List.head?_cons, Option.some.injEq] at hhead
        simp [hhead] at hne

theorem trimmed_run_iff {cs : List Char} : trimList (table.run [] cs) = table.run [] cs ↔
    Trimmed cs := by
  constructor
  · intro h
    have hrun : Trimmed (table.run [] cs) := h ▸ trimmed_trimList _
    exact hrun.of_run
  · exact fun h => h.run.trimList

/-- When the server reads the address behind a quoted name. -/
theorem read_quotedText (haddr : addr ≠ []) :
    readAddress table (quotedText name addr) = table.run [] addr ↔
    (NoGroupBegins name ∧ Trimmed addr ∧ '>' ∉ addr) ∨
      ∃ group, angleGroup name = some group ∧
        trimList (table.run [] group) = table.run [] addr := by
  have htrim := (trimmed_quotedText name addr).trimList
  have hquote : angleGroup (quotedText name addr) =
      angleGroup (name ++ '"' :: ' ' :: '<' :: (addr ++ ['>'])) := by
    rw [quotedText, angleGroup_cons, if_neg fun h => absurd h.1 (by decide)]
  have hcleanNone : NoGroupBegins name → angleGroup name = none := by
    intro hclean
    have h := angleGroup_clean hclean []
    rwa [List.append_nil] at h
  cases hgroup : angleGroup name with
  | some group =>
    rw [readAddress, htrim, candidate, hquote, angleGroup_left hgroup, Option.some_or,
      Option.getD_some]
    constructor
    · exact fun h => .inr ⟨group, rfl, h⟩
    · rintro (⟨hclean, -⟩ | ⟨g, hg, h⟩)
      · rw [hcleanNone hclean] at hgroup
        cases hgroup
      · rw [Option.some.inj hg, h]
  | none =>
    by_cases hclean : NoGroupBegins name
    · by_cases hclose : '>' ∈ addr
      · refine iff_of_false (fun h => ?_) ?_
        · have hmem : '>' ∈ readAddress table (quotedText name addr) :=
            h ▸ (LowerTable.mark_run (by decide)).mpr hclose
          have hcount := congrArg (List.count '"') (h.symm.trans (readAddress_close hmem))
          rw [count_trimList (by decide), count_run (by decide), count_run (by decide), htrim,
            quotedText] at hcount
          simp at hcount
          omega
        · rintro (⟨-, -, hnot⟩ | ⟨g, hg, -⟩)
          · exact hnot hclose
          · cases hg
      · have htake : (addr ++ ['>']).takeWhile (· ≠ '>') = addr := by
          rw [List.takeWhile_append_of_pos]
          · simp
          · intro c hc
            rw [decide_eq_true_eq]
            rintro rfl
            exact hclose hc
        have hfound : angleGroup (quotedText name addr) = some addr := by
          rw [hquote, angleGroup_clean hclean, angleGroup_cons,
            if_neg fun h => absurd h.1 (by decide), angleGroup_cons,
            if_neg fun h => absurd h.1 (by decide), angleGroup_cons, htake,
              if_pos ⟨rfl, haddr, by simp⟩]
        rw [readAddress, htrim, candidate, hfound, Option.some_or, Option.getD_some,
          trimmed_run_iff]
        constructor
        · exact fun h => .inl ⟨hclean, h, hclose⟩
        · rintro (⟨-, h, -⟩ | ⟨g, hg, -⟩)
          · exact h
          · cases hg
    · obtain ⟨back, hback⟩ := angleGroup_open addr hgroup hclean
      refine iff_of_false (fun h => ?_) ?_
      · rw [readAddress, htrim, candidate, hquote, hback, Option.some_or, Option.getD_some] at h
        by_cases hclose : '>' ∈ addr
        · have hmem : '>' ∈ table.run [] addr := (LowerTable.mark_run (by decide)).mpr hclose
          rw [← h] at hmem
          exact absurd ((LowerTable.mark_run (by decide)).mp (mem_trimList hmem))
            (angleGroup_some hback).2
        · have htake : addr.takeWhile (· ≠ '>') = addr := by
            rw [List.takeWhile_eq_self_iff]
            intro c hc
            rw [decide_eq_true_eq]
            rintro rfl
            exact hclose hc
          have hcount := congrArg (List.count '"') h
          rw [count_trimList (by decide), count_run (by decide), count_run (by decide),
            htake] at hcount
          simp at hcount
          omega
      · rintro (⟨h, -⟩ | ⟨g, hg, -⟩)
        · exact hclean h
        · cases hg

/-- The conditions on name and address are what the parser needs. -/
theorem FromHeader.readable_iff {header : FromHeader} :
    readAddress table header.text.toList = table.run [] header.addr.toList ↔
    header.Readable table := by
  have haddr : header.addr.toList ≠ [] := List.ne_nil_of_mem header.addr_spec
  by_cases hname : header.name = ""
  · rw [FromHeader.text, if_pos hname, readAddress_eq_iff]
    constructor
    · exact fun h => .bare hname h
    · intro h
      cases h with
      | bare _ whole => exact whole
      | named named => exact absurd hname named
      | echoed named => exact absurd hname named
  · rw [toList_text hname, read_quotedText haddr]
    constructor
    · rintro (⟨hclean, htrim, hclose⟩ | ⟨group, hfound, hsame⟩)
      · exact .named hname hclean htrim hclose
      · exact .echoed hname hfound hsame
    · intro h
      cases h with
      | bare unnamed => exact absurd unnamed hname
      | named _ clean trimmed no_close => exact .inl ⟨clean, trimmed, no_close⟩
      | echoed _ found same => exact .inr ⟨_, found, same⟩

end

section
variable (env : MailEnv) (dto : IncomingMailDto) (parsed : ParsedMail)

/-- Whoever blocked the address of the header or of the envelope gets nothing stored. -/
def StaysBlocked (addr : String) : Prop :=
  ∀ (cfg : Config) (s : World) (b : BlockedSender) (r : Except Thrown IncomingMailResult) (t :
    SharedWorld),
    (∀ email, cfg.sameName email email = true) → b ∈ s.db.blockedSenders →
    b.email = env.toLowerCase addr ∨ b.email = env.toLowerCase dto.sender →
    Ends (backend cfg) mayFail 0 (MailService.receiveIncomingMail cfg env dto parsed)
      (.initial s) r t →
    ∀ m ∈ t.store.db.mails, m.userId = b.userId → m ∈ s.db.mails

/-- The largest quota of a mailbox. -/
def largestMailQuota (forward : Option String) : Nat :=
  if forward.any (· ≠ "") then MailService.adminForwardMailQuotaBytes
    else MailService.defaultMailQuotaBytes

/-- Some mailbox can take the mail: its recipient is made out, is no broadcast, and the mail fits a
quota. -/
def Deliverable : Prop :=
  ∃ forward name, getAdminForwardUsername env = .ok forward ∧
    resolveIncomingMailboxUsername env (some (preferredAddress env forward dto parsed)) = .ok name ∧
    name.toList.contains '*' = false ∧
    (MailService.mailContent parsed).utf8ByteSize +
      ((parsed.attachments.map MailService.preparedAttachment).map (·.2.2)).sum ≤
      largestMailQuota forward

/-- Both addresses are read as they are, or read out of the other one. -/
def SendersRead (table : LowerTable) (header : FromHeader) : Prop :=
  (header.Readable table ∨ extractMailAddress env (some dto.sender) = env.toLowerCase header.addr) ∧
    (BareAddress dto.sender.toList ∨
      extractMailAddress env (some header.text) = env.toLowerCase dto.sender)

end

section
variable {cfg : Config} {env : MailEnv} {table : LowerTable} {dto : IncomingMailDto}
  {parsed : ParsedMail} {header : FromHeader} {s : World}

theorem displayFrom_eq (hfrom : parsed.sender = some header.text) :
    MailService.displayFrom dto parsed = trim header.text := by
  have hne : trim header.text ≠ "" := by
    intro hempty
    have hat : '@' ∈ header.text.toList := by
      by_cases hname : header.name = ""
      · rw [FromHeader.text, if_pos hname]
        exact header.addr_spec
      · rw [toList_text hname]
        simp [quotedText, header.addr_spec]
    have hcount := count_trimList (d := '@') (by decide) header.text.toList
    have hlist := congrArg String.toList hempty
    rw [trim, String.toList_ofList] at hlist
    rw [hlist] at hcount
    exact absurd hcount.symm (Nat.pos_iff_ne_zero.mp (List.count_pos_iff.mpr hat))
  rw [MailService.displayFrom, hfrom, Option.map_some, orElse, Option.filter_some,
    if_pos (decide_eq_true hne)]
  rfl

/-- White space around a text does not matter. -/
theorem extract_trim (htable : env.toLowerCase = table.toLowerCase) (u : String) :
    extractMailAddress env (some (trim u)) = extractMailAddress env (some u) := by
  apply String.toList_inj.mp
  rw [extract_toList htable, extract_toList htable, readAddress, readAddress, trim,
    String.toList_ofList, (trimmed_trimList _).trimList]

/-- The two addresses are looked up exactly under the condition. -/
theorem sendersRead_iff (htable : env.toLowerCase = table.toLowerCase)
    (hfrom : parsed.sender = some header.text) (hdto : dto.sender ≠ "") :
    SendersRead env dto table header ↔
    env.toLowerCase header.addr ∈ MailService.senderEmails env dto parsed ∧
      env.toLowerCase dto.sender ∈ MailService.senderEmails env dto parsed := by
  have hlower : ∀ u : String, (env.toLowerCase u).toList = table.run [] u.toList := fun u => by
    rw [htable, LowerTable.toList_toLowerCase]
  have hne : ∀ u : String, u.toList ≠ [] → env.toLowerCase u ≠ "" := by
    intro u hu hempty
    have hlist := congrArg String.toList hempty
    rw [hlower] at hlist
    exact hu (LowerTable.run_eq_nil.mp hlist)
  have hsender : dto.sender.toList ≠ [] := fun hnil => hdto (String.toList_inj.mp hnil)
  have hheader : header.Readable table ↔
      env.toLowerCase header.addr = extractMailAddress env (some header.text) := by
    rw [← FromHeader.readable_iff, ← String.toList_inj, extract_toList htable, hlower]
    exact eq_comm
  have henvelope : BareAddress dto.sender.toList ↔
      env.toLowerCase dto.sender = extractMailAddress env (some dto.sender) := by
    rw [← (readAddress_eq_iff : readAddress table dto.sender.toList = _ ↔ _), ← String.toList_inj,
      extract_toList htable, hlower]
    exact eq_comm
  rw [SendersRead, mem_senderEmails (displayFrom_eq hfrom), mem_senderEmails (displayFrom_eq hfrom),
    extract_trim htable, hheader, henvelope,
    and_iff_left (hne _ (List.ne_nil_of_mem header.addr_spec)), and_iff_left (hne _ hsender)]
  exact and_congr (or_congr Iff.rfl eq_comm) (or_comm.trans (or_congr eq_comm Iff.rfl))

/-- A name of the forwarding administrator is looked up wherever it stands as an address. -/
theorem forwardUsername_read (htable : env.toLowerCase = table.toLowerCase) {name : String}
    (hforward : getAdminForwardUsername env = .ok (some name))
    (hsender : env.toLowerCase dto.sender = name) (hdto : dto.sender ≠ "") :
    env.toLowerCase dto.sender ∈ MailService.senderEmails env dto parsed := by
  have hchars := forwardUsername_chars hforward
  have hlower : (env.toLowerCase dto.sender).toList = table.run [] dto.sender.toList := by
    rw [htable, LowerTable.toList_toLowerCase]
  rw [← hsender, hlower] at hchars
  have hmark : ∀ d ∈ ['@', '<', '>', '"'], d ∉ dto.sender.toList := fun d hd hmem =>
    not_isNameChar_mark d hd (hchars d ((LowerTable.mark_run hd).mpr hmem))
  have htrim : Trimmed (table.run [] dto.sender.toList) :=
    trimmed_of_nonspace fun c hc => (isNameChar_ascii (hchars c hc)).2
  have hbare : BareAddress dto.sender.toList := by
    refine ⟨htrim.of_run, ?_, .inl ?_⟩
    · cases hgroup : angleGroup dto.sender.toList with
      | none => rfl
      | some group => exact absurd (angleGroup_some hgroup).1 (hmark '>' (by decide))
    · cases hpattern : address dto.sender.toList with
      | none => rfl
      | some cs =>
        obtain ⟨⟨front, back, hsplit⟩, -⟩ := address_part hpattern
        have hmem : '@' ∈ dto.sender.toList := by
          rw [hsplit]
          exact List.mem_append_left _ (List.mem_append_right _ (address_at hpattern))
        exact absurd hmem (hmark '@' (by decide))
  rw [mem_senderEmails rfl]
  constructor
  · right
    rw [← String.toList_inj, hlower, extract_toList htable, readAddress_eq_iff.mpr hbare]
  · intro hempty
    have hlist := congrArg String.toList hempty
    rw [hlower] at hlist
    exact hdto (String.toList_inj.mp (LowerTable.run_eq_nil.mp hlist))

/-- The user with the largest quota whom a collation finds. -/
def blockingName (forward : Option String) (name : String) : String :=
  (forward.filter (· ≠ "")).getD name

theorem quota_blockingName (cfg : Config) (forward : Option String) (name : String) :
    MailService.getMailQuotaLimitForUsername (cfg.forwardingTo forward)
    (blockingName forward name) = largestMailQuota forward := by
  cases forward with
  | none => rfl
  | some f =>
    by_cases hf : f = ""
    · subst hf
      rfl
    · simp [MailService.getMailQuotaLimitForUsername, Config.isAdminForward, Config.forwardingTo,
        blockingName, largestMailQuota, hf,
        Option.filter_some]

theorem quota_le_largest {forward : Option String} {username : String} :
    MailService.getMailQuotaLimitForUsername (cfg.forwardingTo forward) username ≤
      largestMailQuota forward := by
  cases forward with
  | none => exact Nat.le_refl _
  | some f =>
    rw [MailService.getMailQuotaLimitForUsername, largestMailQuota]
    split
    · rename_i hadmin
      simp only [Config.isAdminForward, Config.forwardingTo, Option.any_some,
        Bool.and_eq_true] at hadmin
      rw [if_pos (by rw [Option.any_some]; exact hadmin.1)]
    · split <;> decide

/-- A collation under which one name finds the user, and otherwise every text itself. -/
def blockingConfig (username name : String) : Config :=
  { demoConfig with sameName := fun a b => decide (a = b ∨ a = username ∧ b = name) }

/-- The user whose mailbox would take the mail, who blocked one address. -/
def blockingWorld (username email : String) : World :=
  { demoWorld with
    db := { demoWorld.db with users := [{ demoUser with username := username }], blockedSenders :=
      [⟨email, demoUser.id⟩] } }

/-- An address that is not looked up does not keep the mail out. -/
theorem not_staysBlocked (htable : env.toLowerCase = table.toLowerCase)
    (hdto : dto.sender ≠ "") {email : String} (h : Deliverable env dto parsed)
    (hemail : email = env.toLowerCase header.addr ∨ email = env.toLowerCase dto.sender)
    (hmissed : email ∉ MailService.senderEmails env dto parsed) :
    ¬ StaysBlocked env dto parsed header.addr := by
  intro hblocked
  obtain ⟨forward, name, hforward, hname, hsingle, hfits⟩ := h
  have hother : ∀ e ∈ MailService.senderEmails env dto parsed,
      ¬ (email = blockingName forward name ∧ e = name) := by
    rintro e he ⟨husername, rfl⟩
    cases hf : forward.filter (· ≠ "") with
    | none =>
      rw [blockingName, hf, Option.getD_none] at husername
      exact hmissed (husername ▸ he)
    | some f =>
      rw [blockingName, hf, Option.getD_some] at husername
      rw [(Option.filter_eq_some_iff.mp hf).1] at hforward
      rcases hemail with hemail | hemail
      · have hat : '@' ∈ f.toList := by
          rw [← husername, hemail, htable, LowerTable.toList_toLowerCase]
          exact (LowerTable.mark_run (by decide)).mpr header.addr_spec
        exact absurd (forwardUsername_chars hforward _ hat) (by decide)
      · exact hmissed (hemail ▸ forwardUsername_read htable hforward
          (hemail.symm.trans husername) hdto)
  have haccepts : MailService.Accepts ((blockingConfig (blockingName forward name)
    name).forwardingTo forward)
      (MailService.incomingMail env dto parsed (preferredAddress env forward dto parsed) name)
      (blockingWorld (blockingName forward name) email).db
        { demoUser with username := blockingName forward name } := by
    refine ⟨hsingle, ?_, rfl, ?_, ?_⟩
    · simp [Database.findUsername, blockingWorld, blockingConfig, Config.forwardingTo,
        MailService.incomingMail]
    · rw [List.find?_eq_none]
      intro b hb hmatch
      rw [List.mem_singleton.mp hb, Bool.and_eq_true, List.any_eq_true] at hmatch
      obtain ⟨-, e, he, hsame⟩ := hmatch
      rcases of_decide_eq_true hsame with heq | hboth
      · have heq : email = e := heq
        exact hmissed (heq ▸ he)
      · exact hother e he hboth
    · have hnone : (blockingWorld (blockingName forward name) email).db.mailStorageUsed
          demoUser.id = 0 := rfl
      rw [quota_blockingName]
      exact Nat.le_trans (Nat.le_of_eq (by rw [hnone, Nat.zero_add]; rfl)) hfits
  obtain ⟨-, r, t, m, hm, hmails, hends⟩ := stored_of_accepts hforward hname haccepts
  have hmem := hblocked _ _ ⟨email, demoUser.id⟩ r t (fun _ => decide_eq_true (.inl rfl))
    List.mem_cons_self hemail hends m
    (hmails ▸ List.mem_cons_self) hm
  exact absurd hmem List.not_mem_nil

/-- Blocked senders stay blocked exactly for mail that no mailbox can take and for mail whose
two sender addresses are read as they are, or out of each other. -/
theorem blocked_senders_stay_blocked_iff (env : MailEnv) (table : LowerTable)
    (dto : IncomingMailDto) (parsed : ParsedMail) (header : FromHeader)
    (htable : env.toLowerCase = table.toLowerCase) (hfrom : parsed.sender = some header.text)
    (hdto : dto.sender ≠ "") :
    StaysBlocked env dto parsed header.addr ↔
    (Deliverable env dto parsed → SendersRead env dto table header) := by
  rw [sendersRead_iff htable hfrom hdto]
  constructor
  · intro hblocked hdeliverable
    constructor
    · by_contra hmissed
      exact not_staysBlocked htable hdto hdeliverable (.inl rfl) hmissed hblocked
    · by_contra hmissed
      exact not_staysBlocked htable hdto hdeliverable (.inr rfl) hmissed hblocked
  · intro h cfg s b r t hrefl hb hemail hends m hm howner
    rcases receiveIncomingMail_ends hends with hsame | ⟨forward, name, user, m', hforward, hname,
      haccepts, hid, hmails⟩
    · exact hsame ▸ hm
    · rw [hmails] at hm
      rcases List.mem_cons.mp hm with rfl | hm
      · have hfits := Nat.le_trans (Nat.le_add_left _ _)
          (Nat.le_trans haccepts.fits quota_le_largest)
        have hread := h ⟨forward, name, hforward, hname, haccepts.single, hfits⟩
        have hlisted : b.email ∈ MailService.senderEmails env dto parsed := by
          rcases hemail with hemail | hemail
          · exact hemail ▸ hread.1
          · exact hemail ▸ hread.2
        have hunblocked := List.find?_eq_none.mp haccepts.unblocked b hb
        rw [Bool.and_eq_true, beq_iff_eq, List.any_eq_true] at hunblocked
        exact absurd ⟨howner.symm.trans hid, b.email, hlisted, hrefl b.email⟩ hunblocked
      · exact hm

end

/-- A name that contains the address of somebody else. -/
def friendlyHeader : FromHeader := ⟨"<friend@example.org>", "eve@example.org", by decide⟩

def friendlyMail : IncomingMailDto :=
  ⟨"bounce@lists.example.org", "alice@redbox.cx", none, "To: alice@redbox.cx"⟩

def friendlyText : ParsedMail := ⟨some friendlyHeader.text, .one "alice@redbox.cx", none, none,
      none, none, []⟩

/-- The sender chooses a display name that is read in place of the blocked address. -/
theorem display_name_unblocks : ¬ ∀ (env : MailEnv) (table : LowerTable) (dto :
      IncomingMailDto) (parsed : ParsedMail) (header : FromHeader),
      env.toLowerCase = table.toLowerCase → parsed.sender = some header.text → dto.sender ≠ "" →
    StaysBlocked env dto parsed header.addr := by
  intro h
  have hdeliverable : Deliverable plainEnv friendlyMail friendlyText :=
    ⟨none, "alice", by decide, by decide +kernel, by decide, by decide +kernel⟩
  have hmissed : plainEnv.toLowerCase friendlyHeader.addr ∉ MailService.senderEmails plainEnv
      friendlyMail friendlyText := by
    decide +kernel
  exact not_staysBlocked (rfl : plainEnv.toLowerCase = asciiTable.toLowerCase) (by
    decide) hdeliverable (.inl rfl) hmissed
    (h plainEnv asciiTable friendlyMail friendlyText friendlyHeader rfl rfl (by decide))

def honestHeader : FromHeader := ⟨"Eve", "eve@example.org", by decide⟩

def honestText : ParsedMail := ⟨some honestHeader.text, .one "alice@redbox.cx", none, none,
      none, none, []⟩

theorem blocked_eve_stays_blocked :
    StaysBlocked plainEnv friendlyMail honestText honestHeader.addr ↔
    (Deliverable plainEnv friendlyMail honestText →
      SendersRead plainEnv friendlyMail asciiTable honestHeader) :=
  blocked_senders_stay_blocked_iff plainEnv asciiTable friendlyMail honestText honestHeader rfl
    rfl (by decide)

end Redbox
