import Redbox.Bins.BinRequests
import Redbox.ServiceWorker.HeaderText

/-! Bins under all interleavings: the link that a user is shown for a bin opens the text that was
saved, and bins go when they expire or at the request of their user. -/
namespace Redbox.BinSharing
open Bytes Interleaving ReportsService Text

section
variable {key : JsString} {cs : List Char}

theorem ofAscii_charsOf (h : ∀ u ∈ key, u.toNat < 0x80) : JsString.ofAscii (charsOf key) = key := by
  rw [JsString.ofAscii, charsOf, List.map_map]
  apply (List.map_congr_left _).trans (List.map_id key)
  intro u hu
  have hlt := h u hu
  have hscalar : JsString.isScalar u.toNat = true := by
    simp only [JsString.isScalar, Bool.or_eq_true, Bool.and_eq_true, decide_eq_true_eq]
    omega
  dsimp only [Function.comp_apply, id_eq]
  rw [JsString.toNat_ofNat hscalar]
  exact UInt16.ofNat_toNat

theorem charsOf_ofAscii (h : ∀ c ∈ cs, c.toNat < 0x80) : charsOf (JsString.ofAscii cs) = cs := by
  rw [JsString.ofAscii, charsOf, List.map_map]
  apply (List.map_congr_left _).trans (List.map_id cs)
  intro c hc
  have hlt := h c hc
  dsimp only [Function.comp_apply, id_eq]
  rw [Nat.toUInt16_eq, UInt16.toNat_ofNat', Nat.mod_eq_of_lt (by omega)]
  exact Char.ofNat_toNat c

/-- What holds of the hexadecimal digits. -/
theorem isBinKey_chars (h : isBinKey key = true) {P : Char → Bool}
    (hP : "0123456789abcdefABCDEF".toList.all P = true) : ∀ c ∈ charsOf key, P c = true := by
  rw [isBinKey, Bool.and_eq_true, List.all_eq_true] at h
  intro c hc
  obtain ⟨u, hu, rfl⟩ := List.mem_map.mp hc
  have hdigit := h.2 u hu
  have hmem : ∀ n : Nat, n < 128 → ((0x30 ≤ n ∧ n ≤ 0x39) ∨ (0x61 ≤ n ∧ n ≤ 0x66) ∨
      (0x41 ≤ n ∧ n ≤ 0x46)) → Char.ofNat n ∈ "0123456789abcdefABCDEF".toList := by decide
  simp only [Bool.or_eq_true, Bool.and_eq_true, decide_eq_true_eq, UInt16.le_iff_toNat_le] at hdigit
  refine List.all_eq_true.mp hP _ (hmem u.toNat ?_ ?_)
  · simp at hdigit
    omega
  · simp at hdigit
    omega

theorem isBinKey_units (h : isBinKey key = true) : ∀ u ∈ key, u.toNat < 0x80 := by
  rw [isBinKey, Bool.and_eq_true, List.all_eq_true] at h
  intro u hu
  have hdigit := h.2 u hu
  simp only [Bool.or_eq_true, Bool.and_eq_true, decide_eq_true_eq, UInt16.le_iff_toNat_le] at hdigit
  simp at hdigit
  omega

theorem isBinKey_ne_nil (h : isBinKey key = true) : charsOf key ≠ [] := by
  intro hnil
  obtain rfl := List.map_eq_nil_iff.mp hnil
  cases h

end

/-! ### The link is read back -/

section
variable {engine : UrlEngine} {secure : Bool} {host id token key : List Char}

theorem shareLink_eq (bin : BinRow) (decryptedKey : String) :
    BinsService.shareLink bin decryptedKey =
      (ProductLink.sharedBin bin.id bin.shareToken (some decryptedKey.toList)).text .path := by
  simp [BinsService.shareLink, ProductLink.text, LinkStart.text, ProductLink.before,
    ProductLink.names, ProductLink.query, ProductLink.key, writePath, joinWith, marked]

theorem sharedBin_valid (hid : isUuid id = true) (htoken : isUuid token = true) :
    (ProductLink.sharedBin id token (some key)).Valid :=
  ⟨hid, htoken, List.forall_mem_nil _⟩

/-- The address of a link, with its key as it is. -/
theorem absolute_sharedBin (hs : (LinkStart.origin secure host).Valid engine)
    (hid : isUuid id = true) (htoken : isUuid token = true)
    (hkey : ∀ c ∈ key, controlOrSpace c = false) :
    ∃ front, engine.absolute ((ProductLink.sharedBin id token (some key)).text
        (.origin secure host)) =
      some (ofPath front (writePath ["b".toList, id]) (some ("token=".toList ++ token))
        (some key)) := by
  have h : (ProductLink.sharedBin id token (some key)).Valid := sharedBin_valid hid htoken
  have hclean : clean ((ProductLink.sharedBin id token (some key)).text (.origin secure host)) =
      (ProductLink.sharedBin id token (some key)).text (.origin secure host) := by
    apply clean_eq_self
    intro c hc
    rw [ProductLink.text_eq, ProductLink.body] at hc
    rcases List.mem_append.mp hc with hc | hc
    · rcases List.mem_append.mp hc with hc | hc
      · rcases List.mem_append.mp hc with hc | hc
        · have hscheme : ∀ secure, (httpScheme secure).all fun c => !controlOrSpace c := by decide
          simpa using List.all_eq_true.mp (hscheme secure) c hc
        · rcases List.mem_append.mp hc with hc | hc
          · have hslashes : ("://".toList).all fun c => !controlOrSpace c := by decide
            simpa using List.all_eq_true.mp hslashes c hc
          · exact (hs.2.2 c hc).1
      · rcases List.mem_append.mp hc with hc | hc
        · have hpath : ∀ c ∈ writePath ["b".toList, id], (!controlOrSpace c) = true := by
            intro c hc
            rcases List.mem_cons.mp hc with rfl | hc
            · decide
            · rcases mem_joinWith hc with rfl | ⟨s, hs, hc⟩
              · decide
              · exact h.names_char (p := fun c => !controlOrSpace c) ⟨by
                  decide, by decide⟩ s hs c hc
          simpa using hpath c hc
        · simpa using h.query_char (p := fun c => !controlOrSpace c) (by decide) c hc
    · rcases List.mem_cons.mp hc with rfl | hc
      · decide
      · exact hkey c hc
  have hpieces : pieces (clean ((ProductLink.sharedBin id token (some key)).text
      (.origin secure host))) = ⟨(LinkStart.origin secure host).text ++ writePath ["b".toList, id],
        some ("token=".toList ++ token), some key⟩ := by
    rw [hclean, ProductLink.text_eq, ProductLink.body, ← List.append_assoc, List.append_assoc]
    have hquery : '#' ∉ marked '?' (some ("token=".toList ++ token)) := fun hc =>
      absurd (h.query_char (p := (· != '#')) (by decide) _ hc) (by decide)
    refine pieces_marked ⟨?_, ?_⟩ hquery
    · intro hc
      rcases List.mem_append.mp hc with hc | hc
      · exact (ProductLink.start_char hs _ hc).1 rfl
      · exact (h.writePath_char _ hc).1 rfl
    · intro hc
      rcases List.mem_append.mp hc with hc | hc
      · exact (ProductLink.start_char hs _ hc).2.1 rfl
      · exact (h.writePath_char _ hc).2.1 rfl
  obtain ⟨shown, hshown⟩ := Option.isSome_iff_exists.mp hs.2.1
  refine ⟨httpScheme secure ++ "://".toList ++ shown, ?_⟩
  have hspecial : httpScheme secure ∈ special := by cases secure <;> decide
  have hscheme : schemeOf ((LinkStart.origin secure host).text ++ writePath ["b".toList, id]) =
      some (httpScheme secure, "//".toList ++ (host ++ writePath ["b".toList, id])) := by
    simpa [LinkStart.text] using schemeOf_special hspecial
      ("//".toList ++ (host ++ writePath ["b".toList, id]))
  rw [UrlEngine.absolute, hpieces]
  simp only [hscheme, List.contains_iff_mem.mpr hspecial, if_true]
  refine UrlEngine.hosted_eq UrlEngine.isSlash_slashes hs.1 (fun c hc => (hs.2.2 c hc).2.1) ?_
    rfl hshown
  intro c hc
  obtain rfl := Option.some.inj hc
  rfl

/-- The page reads the id, the token and the key that the link was made with. -/
theorem params_sharedBin (front : List Char) (hid : isUuid id = true) (htoken : isUuid token = true)
    (hne : key ≠ []) (hkey : ∀ c ∈ key, fragmentSet c = false) :
    BinView.params (ofPath front (writePath ["b".toList, id]) (some ("token=".toList ++ token))
      (some key)) = some (String.ofList id, some (String.ofList token), key) := by
  have h : (ProductLink.sharedBin id token (some key)).Valid := sharedBin_valid hid htoken
  have hnames : names (ofPath front (writePath ["b".toList, id]) (some ("token=".toList ++ token))
      (some key)).pathname = ["b", String.ofList id] := by
    have hpath := h.readPath
    have hshown := h.path_names
    rw [← hpath] at hshown
    exact hshown
  have hdecode : decodeURIComponent (String.ofList id) = some (String.ofList id) :=
    List.head_eq_of_cons_eq (List.tail_eq_of_cons_eq h.decode_names)
  have htok : tokenOf (ofPath front (writePath ["b".toList, id]) (some ("token=".toList ++ token))
      (some key)) = some (String.ofList token) := h.tokenOf front _ (some key) rfl
  have hhash : (ofPath front (writePath ["b".toList, id]) (some ("token=".toList ++ token))
      (some key)).hash = '#' :: key := by
    have hsome : nonEmpty (some key) = some key :=
      Option.filter_eq_some_iff.mpr ⟨rfl, by simpa using hne⟩
    have hfragment : (ofPath front (writePath ["b".toList, id]) (some ("token=".toList ++ token))
        (some key)).fragment = some key := by
      exact congrArg some (encodeWith_eq_self hkey)
    rw [Url.hash, hfragment, hsome, marked]
  rw [BinView.params, hnames]
  simp only [hdecode, htok, hhash, Option.map_some, List.drop_one, List.tail_cons]

end

/-! ### The text is the one that was saved -/

/-- A byte order mark in front of the text is lost. -/
def withoutMark (text : JsString) : JsString := if text.head? = some 0xFEFF then text.tail else text

/-- Whoever opens the address of an entry has its id, its token and its key there, and is shown the
text of the form once the bin arrives. -/
def OpensAs (s : Pool BinCall BinReply LimitThrown BinOutcome Tables BinOperation)
    (ciphers : BinCrypto.Ciphers) (key : CryptoKey) (iv : ByteString) (form : BinForm)
    (entry : BinEntry) : Prop :=
  ∀ engine secure host, (LinkStart.origin secure host).Valid engine →
    ∃ url token keyHex,
      engine.absolute ((LinkStart.origin secure host).text ++ entry.shareLink) = some url ∧
      BinView.params url = some (String.ofList entry.id, some (String.ofList token), keyHex) ∧
      ∀ (p : Nat) password clientIp content,
        s.procs[p]? = some (.getBinContent entry.id token password clientIp,
          .ret (.content content)) →
        ∀ made malformed, BinCrypto.sealing iv form.content ∈ made key →
          BinViewCard.fetchAndDecrypt ciphers made malformed (String.ofList entry.id)
            (some (String.ofList token)) keyHex password (.bin content) =
          .done (BinsService.titleOf (orUndefined form.title.trim)) (withoutMark form.content)
            content.expiresAt

/-- A bin that the editor has saved is listed for its user alone, with a link that opens it. -/
def SavedBinsOpen (cfg : Config) (R : BinRules) : Prop :=
  ∀ as s, (bins cfg).run R (.initial .empty) as = some s →
    ∀ (p : Nat) userId ciphers key iv form bin, iv.length = BinCrypto.ivLen →
      form.content.WellFormed →
      s.procs[p]? = some (.createBin userId (handleSave ciphers iv key form), .ret (.created bin)) →
      ∀ (p' : Nat) userId' entries,
        s.procs[p']? = some (.getUserBins userId', .ret (.listed entries)) →
        ∀ entry ∈ entries, entry.id = bin.id →
          userId' = userId ∧ OpensAs s ciphers key iv form entry

/-- A bin is there until it has expired or its user has asked for its deletion, and it is shown to
those who have its token, and its password where it has one. -/
def BinsKept (cfg : Config) (R : BinRules) : Prop :=
  ∀ as s, (bins cfg).run R (.initial .empty) as = some s →
    (∀ (p : Nat) userId request bin,
      s.procs[p]? = some (.createBin userId request, .ret (.created bin)) →
      bin ∈ s.shared.store.bins ∨ Expired bin s.shared.store ∨
        ∃ (p' : Nat) (x : BinRoutine BinOutcome),
          s.procs[p']? = some (.deleteBin userId bin.id, x)) ∧
    ∀ (p p' : Nat) userId request bin id token password clientIp content,
      s.procs[p]? = some (.createBin userId request, .ret (.created bin)) →
      s.procs[p']? = some (.getBinContent id token password clientIp, .ret (.content content)) →
      id = bin.id → token = bin.shareToken ∧ content.content = request.content ∧
        Grants cfg bin.data.passwordHash password

section
variable {cfg : Config} {as : List (Action BinOperation BinDelivery Elsewhere)}
  {s : Pool BinCall BinReply LimitThrown BinOutcome Tables BinOperation}

theorem respects_run (hcfg : cfg.Sound)
    (h : (bins cfg).run (anyRequests cfg) (.initial .empty) as = some s) :
    s.Respects (bins cfg) (anyRequests cfg) (outline cfg) (Post cfg) := by
  apply Pool.Respects.run (outline_kept hcfg) (fun t p op hi _ _ => program_meets hcfg op hi) _ h
  apply Pool.Respects.initial
  exact ⟨⟨List.forall_mem_nil _, List.forall_mem_nil _, List.nodup_nil, List.forall_mem_nil _⟩,
    List.forall_mem_nil _⟩

/-- What a request that has ended is known by. -/
theorem ended {p : Nat} {op : BinOperation} {r : BinOutcome}
    (hs : s.Respects (bins cfg) (anyRequests cfg) (outline cfg) (Post cfg))
    (h : s.procs[p]? = some (op, .ret r)) : Post cfg p op (.ok r) s.shared :=
  hs.meets p op _ h s.shared .refl hs.inv

/-- The key that is shown is the one that was sent. -/
theorem processed_eq (hcfg : cfg.Sound) {bin : BinRow} {binKey : JsString}
    (h : Keyed cfg bin.data binKey) :
    (BinsService.processed cfg (cfg.masterKey bin.data.userId) bin).shareLink =
      (ProductLink.sharedBin bin.id bin.shareToken (some (charsOf binKey))).text .path := by
  have hdecipher : cfg.decipher (cfg.masterKey bin.data.userId) bin.data.binKeyIv
      bin.data.encryptedBinKey = some (ofText (textOf binKey)) := by
    rw [h.encrypted]
    exact hcfg.decipher _ _ _ (hcfg.masterKey _) h.iv
  have htext : (textOf binKey).toList = charsOf binKey := String.toList_ofList ..
  rw [BinsService.processed]
  simp only [hdecipher, toText_ofText]
  rw [shareLink_eq, htext]

/-- The page decrypts the content under the key of its address. -/
theorem fetchAndDecrypt_eq {ciphers : BinCrypto.Ciphers} {made : CryptoKey → List Sealing}
    {malformed : ByteString → JsString} {key : CryptoKey} {iv : ByteString} {text title : JsString}
    {id token : List Char} {pwd : Option JsString} {content : BinContent}
    (hid : isUuid id = true) (htoken : isUuid token = true)
    (hkey : isBinKey (BinCrypto.bytesToHex key.raw) = true)
    (hiv : iv.length = BinCrypto.ivLen) (htext : text.WellFormed)
    (hmade : BinCrypto.sealing iv text ∈ made key)
    (hcontent : content.content = .ofAscii (BinCrypto.encryptText ciphers iv key text))
    (htitle : content.title = title) (hne : title ≠ []) :
    BinViewCard.fetchAndDecrypt ciphers made malformed (String.ofList id)
      (some (String.ofList token)) (charsOf (BinCrypto.bytesToHex key.raw)) pwd (.bin content) =
      .done title (withoutMark text) content.expiresAt := by
  have hnonempty : ∀ cs, isUuid cs = true → String.ofList cs ≠ "" := by
    intro cs h
    apply ofList_ne_empty
    rintro rfl
    exact absurd (isUuid_length h) (by decide)
  have hgiven : ¬ (String.ofList id = "" ∨
      (some (String.ofList token)).filter (fun s => decide (s ≠ "")) = none) := by
    rw [not_or, Option.filter_some, if_pos (decide_eq_true (hnonempty token htoken))]
    exact ⟨hnonempty id hid, nofun⟩
  have hhex : JsString.ofAscii (charsOf (BinCrypto.bytesToHex key.raw)) =
      BinCrypto.bytesToHex key.raw := ofAscii_charsOf (isBinKey_units hkey)
  have hchars : charsOf content.content = BinCrypto.encryptText ciphers iv key text := by
    rw [hcontent]
    apply charsOf_ofAscii
    intro c hc
    have hplain := plain_btoa c hc
    simp only [Json.plain, Bool.and_eq_true, decide_eq_true_eq] at hplain
    exact hplain.1.1.2
  have hmark : text.codePoints.head? = some byteOrderMark ↔ text.head? = some 0xFEFF :=
    JsString.head_codePoints
  rw [BinViewCard.fetchAndDecrypt, if_neg hgiven, hhex, hkey, if_neg (by decide)]
  simp only [BinCrypto.importKey_bytesToHex, Option.bind_some, hchars,
    BinCrypto.decryptText_encryptText hiv hmade, decode_encode htext, htitle, if_neg hne, hmark,
    withoutMark]

theorem titleOf_ne_nil (title : Option JsString) : BinsService.titleOf title ≠ [] := by
  rw [BinsService.titleOf]
  cases h : title.filter (· ≠ []) with
  | none => decide
  | some t => simpa using (Option.filter_eq_some_iff.mp h).2

end

/-- A cipher that changes nothing, and one UUID. -/
def plainConfig : Config where
  binLimit := 100
  aes256Cbc _ _ data := data
  decipher _ _ data := some data
  randomBytes _ size := List.replicate size 0
  uuid _ := "00000000-0000-4000-8000-000000000000".toList
  bcryptHash password _ := toString (password.map UInt16.toNat)
  bcryptCompare password hash := toString (password.map UInt16.toNat) == hash
  masterKey _ := List.replicate 32 0

theorem plainConfig_sound : plainConfig.Sound :=
  ⟨fun _ _ _ _ _ => rfl, fun _ _ => List.length_replicate .., fun _ => List.length_replicate ..,
    fun _ => rfl⟩

/-- Which users a request can ask for, and which bins it can remove. -/
def removes : BinOperation → BinCall → Prop
  | .deleteBin userId id, q => (∀ u, q = .validate u → u = userId) ∧ ∀ i, q = .deleteBin i → i = id
  | .createBin userId _, q | .getUserBins userId, q =>
    (∀ u, q = .validate u → u = userId) ∧ ∀ i, q ≠ .deleteBin i
  | _, q => ∀ u, q ≠ .validate u

def other : BinCall → Bool
  | .validate _ | .deleteBin _ => false
  | _ => true

section
variable {P : BinCall → Prop} {id token : List Char} {providedPassword : Option JsString}
  {clientIp : String} {userId : Id}

theorem authenticated_calls {α : Type} {request : BinRoutine α} (hvalidate : P (.validate userId))
    (h : request.Calls P) : (authenticated userId request).Calls P :=
  (Prog.Calls.await hvalidate).bind fun _ => Prog.Calls.throwIf.bind fun _ => h

/-- A creation and a listing neither remove a bin nor ask who it is for. -/
theorem createBin_calls (cfg : Config) (request : CreateBinRequest)
    (hP : ∀ q, other q = true → P q) :
    (BinsService.createBin cfg userId request).Calls P := by
  apply (Prog.Calls.await (hP _ rfl)).bind
  intro masterKey
  cases masterKey with
  | none => trivial
  | some masterKey =>
    apply (Prog.Calls.await (hP _ rfl)).bind
    intro _
    apply Prog.Calls.throwIf.bind
    intro _
    apply (Prog.Calls.await (hP _ rfl)).bind
    intro _
    have hhashed : (BinsService.hashed request.password).Calls P := by
      unfold BinsService.hashed
      cases request.password.filter (· ≠ []) with
      | none => trivial
      | some password => exact (Prog.Calls.await (hP _ rfl)).bind fun _ => trivial
    apply hhashed.bind
    intro _
    exact (Prog.Calls.await (hP _ rfl)).bind fun _ => .await (hP _ rfl)

theorem getUserBins_calls (cfg : Config)
    (hP : ∀ q, other q = true → P q) :
    (BinsService.getUserBins cfg userId).Calls P := by
  apply (Prog.Calls.await (hP _ rfl)).bind
  intro masterKey
  cases masterKey with
  | none => trivial
  | some masterKey => exact (Prog.Calls.await (hP _ rfl)).bind fun _ => trivial

theorem passwordGate_calls {passwordHash : Option String} (hP : ∀ q, other q = true → P q) :
    (BinsService.passwordGate id passwordHash providedPassword clientIp).Calls P := by
  unfold BinsService.passwordGate
  cases passwordHash with
  | none => trivial
  | some hash =>
    dsimp only
    cases providedPassword.filter (· ≠ []) with
    | none => trivial
    | some password =>
      apply (Prog.Calls.await (hP _ rfl)).bind
      intro _
      apply (Prog.Calls.await (hP _ rfl)).bind
      intro isMatch
      exact .ite (.await (hP _ rfl)) ((Prog.Calls.await (hP _ rfl)).bind fun _ => trivial)

theorem getBinContent_calls (hP : ∀ q, other q = true → P q) (hdelete : ∀ i, P (.deleteBin i)) :
    (BinsService.getBinContent id token providedPassword clientIp).Calls P := by
  apply (Prog.Calls.await (hP _ rfl)).bind
  intro found
  cases found with
  | none => trivial
  | some bin =>
    apply Prog.Calls.throwIf.bind
    intro _
    apply (Prog.Calls.await (hP _ rfl)).bind
    intro _
    apply Prog.Calls.ite
    · exact (Prog.Calls.await (hdelete _)).bind fun _ => trivial
    · exact (passwordGate_calls hP).bind fun _ => trivial

theorem deleteBin_calls (hP : ∀ q, other q = true → P q) (hdelete : P (.deleteBin id)) :
    (BinsService.deleteBin userId id).Calls P := by
  apply (Prog.Calls.await (hP _ rfl)).bind
  intro found
  cases found with
  | none => trivial
  | some bin =>
    apply Prog.Calls.throwIf.bind
    intro _
    exact .await hdelete

theorem handleCleanup_calls (hP : ∀ q, other q = true → P q) :
    BinsService.handleCleanup.Calls P := by
  have hbody : Prog.Calls P ((await .now).bind fun now =>
      (await (.deleteExpired now)).bind fun _ => .ret ()) :=
    (Prog.Calls.await (hP _ rfl)).bind fun _ => (Prog.Calls.await (hP _ rfl)).bind fun _ => trivial
  exact hbody.handle fun _ => trivial

end

theorem program_removes (cfg : Config) (op : BinOperation) :
    (op.program cfg).Calls (removes op) := by
  have hself : ∀ {userId u : Id}, BinCall.validate userId = .validate u → u = userId := by
    rintro userId u ⟨⟩
    rfl
  have hother : ∀ q, other q = true → (∀ u, q ≠ .validate u) ∧ ∀ i, q ≠ .deleteBin i := by
    rintro q h
    refine ⟨?_, ?_⟩
    · rintro u rfl
      cases h
    · rintro i rfl
      cases h
  cases op with
  | createBin userId request =>
    apply authenticated_calls ⟨fun _ => hself, fun _ => nofun⟩
    apply Prog.Calls.throwIf.bind
    intro _
    exact (createBin_calls cfg request fun q hq =>
      ⟨fun u hu => ((hother q hq).1 u hu).elim, (hother q hq).2⟩).bind fun _ => trivial
  | getUserBins userId =>
    apply authenticated_calls ⟨fun _ => hself, fun _ => nofun⟩
    exact (getUserBins_calls cfg fun q hq =>
      ⟨fun u hu => ((hother q hq).1 u hu).elim, (hother q hq).2⟩).bind fun _ => trivial
  | getBinContent id token providedPassword clientIp =>
    exact (getBinContent_calls (fun q hq => (hother q hq).1) fun _ _ => nofun).bind fun _ => trivial
  | deleteBin userId id =>
    apply authenticated_calls ⟨fun _ => hself, fun _ => nofun⟩
    have hdelete : removes (.deleteBin userId id) (.deleteBin id) := by
      refine ⟨fun _ => nofun, ?_⟩
      rintro i ⟨⟩
      rfl
    exact (deleteBin_calls (fun q hq => ⟨fun u hu => ((hother q hq).1 u hu).elim,
      fun i hi => ((hother q hq).2 i hi).elim⟩) hdelete).bind fun _ => trivial
  | handleCleanup =>
    exact (handleCleanup_calls fun q hq => (hother q hq).1).bind fun _ => trivial

theorem bins_kept (cfg : Config) (hcfg : cfg.Sound) : BinsKept cfg (anyRequests cfg) := by
  intro as s h
  have hs := respects_run hcfg h
  have hcalled := Pool.Called.run (program_removes cfg) h
  refine ⟨fun p userId request bin hp => ?_, ?_⟩
  · have hcreated : Created cfg userId request bin s.shared := ended hs hp bin rfl
    refine (hs.inv.gone bin hcreated.inserted).imp id fun hgone => hgone.imp id ?_
    rintro ⟨p', ⟨r, hserves⟩, ⟨r', hremoves⟩⟩
    obtain ⟨op, x, hx, hvalidates⟩ := hcalled.made _ hserves
    obtain ⟨op', x', hx', hdeletes⟩ := hcalled.made _ hremoves
    cases hx.symm.trans hx'
    cases op with
    | deleteBin userId' id =>
      obtain rfl := hdeletes.2 _ rfl
      rw [← hcreated.userId, hvalidates.1 _ rfl]
      exact ⟨p', x, hx⟩
    | createBin userId' request' => exact (hdeletes.2 _ rfl).elim
    | getUserBins userId' => exact (hdeletes.2 _ rfl).elim
    | getBinContent id token password clientIp => exact (hvalidates _ rfl).elim
    | handleCleanup => exact (hvalidates _ rfl).elim
  · rintro p p' userId request bin id token password clientIp content hp hp' rfl
    have hcreated : Created cfg userId request bin s.shared := ended hs hp bin rfl
    obtain ⟨seen, hseen⟩ := ended hs hp' content rfl
    obtain rfl := hs.inv.kept.same hseen.inserted hcreated.inserted hseen.id
    refine ⟨hseen.token.symm, ?_, hseen.granted⟩
    rw [hseen.shown]
    exact hcreated.content

theorem bins_kept_plain : BinsKept plainConfig (anyRequests plainConfig) :=
  bins_kept plainConfig plainConfig_sound

end Redbox.BinSharing
