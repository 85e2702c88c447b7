import Redbox.Bins.BinsKept

/-! What the requests about bins end with, whatever the others do meanwhile. -/
namespace Redbox.BinSharing
open Bytes Interleaving

/-- The row that a request inserted. -/
structure Created (cfg : Config) (userId : Id) (request : CreateBinRequest) (bin : BinRow)
    (s : SharedTables) : Prop where
  inserted : bin ∈ s.store.inserted
  userId : bin.data.userId = userId
  title : bin.data.title = BinsService.titleOf request.title
  content : bin.data.content = request.content
  keyed : Keyed cfg bin.data request.binKey

/-- A password that the bin asks for was given. -/
def Grants (cfg : Config) (passwordHash : Option String) (providedPassword : Option JsString) :
    Prop :=
  ∀ hash, passwordHash = some hash → ∃ password, providedPassword = some password ∧
    cfg.bcryptCompare password hash = true

/-- What a request gets to see is a bin with its id and its token. -/
structure Seen (cfg : Config) (id token : List Char) (providedPassword : Option JsString)
    (content : BinContent) (bin : BinRow) (s : SharedTables) : Prop where
  inserted : bin ∈ s.store.inserted
  id : bin.id = id
  token : bin.shareToken = token
  shown : content = ⟨bin.data.title, bin.data.content, bin.createdAt, bin.data.expiresAt⟩
  granted : Grants cfg bin.data.passwordHash providedPassword

def Listed (cfg : Config) (userId : Id) (entry : BinEntry) (bin : BinRow) (s : SharedTables) :
    Prop :=
  bin ∈ s.store.inserted ∧ bin.data.userId = userId ∧
    entry = BinsService.processed cfg (cfg.masterKey userId) bin

/-- What the requests end with. -/
def Post (cfg : Config) (_ : Nat) :
    BinOperation → Except LimitThrown BinOutcome → SharedTables → Prop
  | .createBin userId request => fun r s => ∀ bin, r = .ok (.created bin) →
    Created cfg userId request bin s
  | .getUserBins userId => fun r s => ∀ entries, r = .ok (.listed entries) →
    ∀ entry ∈ entries, ∃ bin, Listed cfg userId entry bin s
  | .getBinContent id token providedPassword _ => fun r s => ∀ content, r = .ok (.content content) →
    ∃ bin, Seen cfg id token providedPassword content bin s
  | _ => fun _ _ => True

section
variable {cfg : Config} {p : Nat} {s : SharedTables} {userId : Id} {id token : List Char}
  {α : Type}

/-- A request of a user, after the guard. -/
theorem authenticated_meets (hcfg : cfg.Sound) {request : BinRoutine α}
    {Q : Except LimitThrown α → SharedTables → Prop} (hQ : ∀ e t, Q (.error e) t)
    (h : ∀ t, Inv cfg t → Serves p userId t.log →
      Meets (bins cfg) (anyRequests cfg) (outline cfg) p request Q t) :
    Meets (bins cfg) (anyRequests cfg) (outline cfg) p (authenticated userId request) Q s := by
  unfold authenticated
  rw [Prog.bind_eq]
  refine Meets.awaitFree (outline_kept hcfg) (fun _ => trivial) hQ
    fun current t d hi hi' _ => ?_
  rw [Prog.bind_eq]
  apply Meets.throwIf
  · exact fun _ => Meets.throw (.const True) trivial fun t _ _ => hQ _ t
  · exact fun _ => h _ hi' ⟨_, List.mem_cons_self⟩

theorem masterKey_reply {t : SharedTables} {d : BinDelivery} {key : ByteString}
    (h : (bins cfg).reply d (.masterKey userId) t = .ok (some key)) :
    key = cfg.masterKey userId := by
  have hreply := Except.ok.inj (reply_ok (p := 0) h).2
  split at hreply
  · exact (Option.some.inj hreply).symm
  · cases hreply

theorem createBin_reply {t : SharedTables} {d : BinDelivery} {data : BinData} {bin : BinRow}
    (h : (bins cfg).reply d (.createBin data) t = .ok bin) :
    bin ∈ ((bins cfg).after d p (.createBin data) t).store.inserted ∧ bin.data = data := by
  obtain ⟨hstore, hbin⟩ := reply_ok (p := p) h
  obtain rfl := Except.ok.inj hbin
  refine ⟨?_, rfl⟩
  rw [hstore]
  exact List.mem_cons_self

theorem findBin_reply {t : SharedTables} {d : BinDelivery} {bin : BinRow} (hi : Inv cfg t)
    (h : (bins cfg).reply d (.findBin id) t = .ok (some bin)) :
    bin ∈ ((bins cfg).after d p (.findBin id) t).store.inserted ∧ bin.id = id := by
  obtain ⟨hstore, hfound⟩ := reply_ok (p := p) h
  have hfind : t.store.bins.find? (·.id == id) = some bin := Except.ok.inj hfound
  have hid : (bin.id == id) = true := List.find?_some (p := fun b : BinRow => b.id == id) hfind
  refine ⟨?_, beq_iff_eq.mp hid⟩
  rw [hstore]
  exact hi.kept.inserted bin (List.mem_of_find?_eq_some hfind)

theorem now_reply {t : SharedTables} {d : BinDelivery} {now : Time}
    (h : (bins cfg).reply d .now t = .ok now) :
    now ≤ ((bins cfg).after d p .now t).store.clock := by
  obtain ⟨hstore, hnow⟩ := reply_ok (p := p) h
  rw [hstore, ← Except.ok.inj hnow]
  exact Nat.le_refl _

theorem createBin_meets (hcfg : cfg.Sound) {request : CreateBinRequest}
    (hkey : isBinKey request.binKey = true) :
    Meets (bins cfg) (anyRequests cfg) (outline cfg) p (BinsService.createBin cfg userId request)
      (fun r t => ∀ bin, r = .ok bin → Created cfg userId request bin t) s := by
  have herror : ∀ (e : LimitThrown) (t : SharedTables),
      ∀ bin, Except.error e = .ok bin → Created cfg userId request bin t := fun _ _ _ => nofun
  unfold BinsService.createBin
  rw [Prog.bind_eq]
  refine Meets.awaitFree (outline_kept hcfg) (fun _ => trivial) herror
    fun masterKey t d hi hi' hr => ?_
  cases masterKey with
  | none => exact Meets.throw (.const True) trivial fun t _ _ => herror _ t
  | some masterKey =>
    obtain rfl := masterKey_reply hr
    dsimp only
    rw [Prog.bind_eq]
    refine Meets.awaitFree (outline_kept hcfg) (fun _ => trivial) herror
      fun currentBinCount t d hi hi' _ => ?_
    rw [Prog.bind_eq]
    refine Meets.throwIf (fun _ => Meets.throw (.const True) trivial fun t _ _ => herror _ t)
      fun _ => ?_
    rw [Prog.bind_eq]
    refine Meets.awaitFree (outline_kept hcfg) (fun _ => trivial) herror
      fun binKeyIv t d hi hi' hr => ?_
    have hiv : binKeyIv.length = 16 := by
      rw [← Except.ok.inj (reply_ok (p := p) hr).2]
      exact hcfg.randomBytes _ 16
    rw [Prog.bind_eq]
    have hcalls : (BinsService.hashed request.password).Calls fun q => ∃ password,
        q = .hash password := by
      unfold BinsService.hashed
      cases request.password.filter (· ≠ []) with
      | none => trivial
      | some password => exact (Prog.Calls.await ⟨password, rfl⟩).bind fun _ => trivial
    refine Meets.heldBind (outline_kept hcfg) hi' (.const True) hcalls (fun _ _ => trivial) ?_
      trivial (fun e t _ => herror e t) fun passwordHash t hi _ => ?_
    · rintro t q d ⟨password, rfl⟩ _ _ _
      trivial
    rw [Prog.bind_eq]
    refine Meets.awaitFree (outline_kept hcfg) (fun _ => trivial) herror
      fun now t d hi hi' _ => ?_
    have hkeyed : Keyed cfg
        { title := BinsService.titleOf request.title, content := request.content
          size := request.size, userId := userId
          expiresAt := BinsService.calculateExpiration now
            (binExpiryOptions.find? fun o => request.expiresIn == JsString.ascii o)
          passwordHash := passwordHash
          encryptedBinKey := cfg.aes256Cbc (cfg.masterKey userId) binKeyIv
            (ofText (textOf request.binKey))
          binKeyIv := binKeyIv } request.binKey := ⟨hkey, hiv, rfl⟩
    rw [← Prog.bind_ret (await _)]
    refine Meets.awaitFree (outline_kept hcfg) (fun _ => ⟨request.binKey, hkeyed⟩) herror
      fun bin t d hi hi' hr => ?_
    obtain ⟨hinserted, hdata⟩ := createBin_reply (p := p) hr
    refine Meets.ret (inserted_held bin).stable hinserted fun t ht _ bin' hbin' => ?_
    obtain rfl := Except.ok.inj hbin'
    rw [← hdata] at hkeyed
    exact ⟨ht, congrArg BinData.userId hdata, congrArg BinData.title hdata,
      congrArg BinData.content hdata, hkeyed⟩

theorem listed_held (entry : BinEntry) :
    Held (bins cfg) (anyRequests cfg) (outline cfg) p (fun _ => True) fun s =>
      ∃ bin, Listed cfg userId entry bin s :=
  .always (fun t _ q d _ _ _ h => h.imp fun _ hbin =>
      ⟨(grown_exec cfg d q t.store).inserted _ hbin.1, hbin.2⟩)
    fun t e _ _ h => h.imp fun _ hbin => ⟨(grown_drift t.store e).inserted _ hbin.1, hbin.2⟩

theorem getUserBins_meets (hcfg : cfg.Sound) :
    Meets (bins cfg) (anyRequests cfg) (outline cfg) p (BinsService.getUserBins cfg userId)
      (fun r t => ∀ entries, r = .ok entries → ∀ entry ∈ entries, ∃ bin,
        Listed cfg userId entry bin t) s := by
  have herror : ∀ (e : LimitThrown) (t : SharedTables), ∀ entries : List BinEntry,
      Except.error e = .ok entries →
      ∀ entry ∈ entries, ∃ bin, Listed cfg userId entry bin t := fun _ _ _ => nofun
  unfold BinsService.getUserBins
  rw [Prog.bind_eq]
  refine Meets.awaitFree (outline_kept hcfg) (fun _ => trivial) herror
    fun masterKey t d hi hi' hr => ?_
  cases masterKey with
  | none => exact Meets.throw (.const True) trivial fun t _ _ => herror _ t
  | some masterKey =>
    obtain rfl := masterKey_reply hr
    dsimp only
    rw [Prog.bind_eq]
    refine Meets.awaitFree (outline_kept hcfg) (fun _ => trivial) herror
      fun found t d hi hi' hr => ?_
    obtain ⟨hstore, hfound⟩ := reply_ok (p := p) hr
    have hrows : ∀ bin ∈ found, bin ∈ t.store.inserted ∧ bin.data.userId = userId := by
      rw [← Except.ok.inj hfound]
      intro bin hbin
      obtain ⟨hmem, howner⟩ := List.mem_filter.mp (List.mem_mergeSort.mp hbin)
      exact ⟨hi.kept.inserted bin hmem, beq_iff_eq.mp howner⟩
    have hheld : Held (bins cfg) (anyRequests cfg) (outline cfg) p (fun _ => True) fun s =>
        ∀ bin, bin ∈ found → bin ∈ s.store.inserted :=
      .all fun bin => .all fun _ => inserted_held bin
    refine Meets.ret hheld.stable (fun bin hbin => ?_) fun t ht _ entries hentries entry hentry =>
      ?_
    · rw [hstore]
      exact (hrows bin hbin).1
    · obtain rfl := Except.ok.inj hentries
      obtain ⟨bin, hbin, rfl⟩ := List.mem_map.mp hentry
      exact ⟨bin, ht bin hbin, (hrows bin hbin).2, rfl⟩

theorem passwordGate_meets (hcfg : cfg.Sound) {passwordHash : Option String}
    {providedPassword : Option JsString} {clientIp : String} :
    Meets (bins cfg) (anyRequests cfg) (outline cfg) p
      (BinsService.passwordGate id passwordHash providedPassword clientIp)
      (fun r _ => r = .ok () → Grants cfg passwordHash providedPassword) s := by
  unfold BinsService.passwordGate
  cases passwordHash with
  | none => exact Meets.ret (.const True) trivial fun _ _ _ _ _ => nofun
  | some hash =>
    dsimp only
    cases hprovided : providedPassword.filter (· ≠ []) with
    | none => exact Meets.throw (.const True) trivial fun _ _ _ => nofun
    | some password =>
      dsimp only
      rw [Prog.bind_eq]
      refine Meets.awaitFree (outline_kept hcfg) (fun _ => trivial) (fun _ _ => nofun)
        fun _ t d hi hi' _ => ?_
      rw [Prog.bind_eq]
      refine Meets.awaitFree (outline_kept hcfg) (fun _ => trivial) (fun _ _ => nofun)
        fun isMatch t d hi hi' hr => ?_
      cases isMatch with
      | true =>
        have hmatch : cfg.bcryptCompare password hash = true :=
          Except.ok.inj (reply_ok (p := p) hr).2
        have hgrants : Grants cfg (some hash) providedPassword := by
          intro hash' hhash
          obtain rfl := Option.some.inj hhash
          exact ⟨password, (Option.filter_eq_some_iff.mp hprovided).1, hmatch⟩
        have hcalls : (await (BinCall.clearAttempts id clientIp)).Calls
            fun q => q = .clearAttempts id clientIp := .await rfl
        exact (Meets.heldCalls (.const True) hcalls (fun _ _ => trivial)
          (by rintro t q d rfl _ _ _; trivial) trivial).mono fun _ _ _ _ _ => hgrants
      | false =>
        rw [if_neg Bool.false_ne_true, Prog.bind_eq]
        refine Meets.awaitFree (outline_kept hcfg) (fun _ => trivial) (fun _ _ => nofun)
          fun _ t d hi hi' _ => ?_
        exact Meets.throw (.const True) trivial fun _ _ _ => nofun

theorem getBinContent_meets (hcfg : cfg.Sound) {providedPassword : Option JsString}
    {clientIp : String} :
    Meets (bins cfg) (anyRequests cfg) (outline cfg) p
      (BinsService.getBinContent id token providedPassword clientIp)
      (fun r t => ∀ content, r = .ok content → ∃ bin,
        Seen cfg id token providedPassword content bin t)
      s := by
  have herror : ∀ (e : LimitThrown) (t : SharedTables), ∀ content : BinContent,
      Except.error e = .ok content →
      ∃ bin, Seen cfg id token providedPassword content bin t := fun _ _ _ => nofun
  unfold BinsService.getBinContent
  rw [Prog.bind_eq]
  refine Meets.awaitFree (outline_kept hcfg) (fun _ => trivial) herror fun found t d hi hi' hr => ?_
  cases found with
  | none => exact Meets.throw (.const True) trivial fun t _ _ => herror _ t
  | some bin =>
    obtain ⟨hinserted, hid⟩ := findBin_reply (p := p) hi hr
    dsimp only
    rw [Prog.bind_eq]
    refine Meets.throwIf (fun _ => Meets.throw (.const True) trivial fun t _ _ => herror _ t)
      fun htoken => ?_
    rw [Prog.bind_eq]
    refine Meets.heldAwait (outline_kept hcfg) (inserted_held bin) trivial
      (fun _ _ _ _ _ => trivial) hinserted herror fun now t d hi hi' hinserted hr => ?_
    have hnow : now ≤ ((bins cfg).after d p .now t).store.clock := now_reply hr
    have hrest : ∀ t, Inv cfg t → bin ∈ t.store.inserted →
        Meets (bins cfg) (anyRequests cfg) (outline cfg) p
          ((BinsService.passwordGate bin.id bin.data.passwordHash providedPassword clientIp).bind
            fun _ => .ret ⟨bin.data.title, bin.data.content, bin.createdAt, bin.data.expiresAt⟩)
          (fun r t => ∀ content, r = .ok content →
            ∃ bin, Seen cfg id token providedPassword content bin t) t := by
      intro t hi hinserted
      have hgate : Meets (bins cfg) (anyRequests cfg) (outline cfg) p
          (BinsService.passwordGate bin.id bin.data.passwordHash providedPassword clientIp)
          (fun r _ => r = .ok () → Grants cfg bin.data.passwordHash providedPassword) t :=
        passwordGate_meets hcfg
      replace hgate := hgate.carry (inserted_held bin) (Prog.calls_true _) hinserted
      refine hgate.next (fun e t _ _ => herror e t) fun _ t _ ⟨hgranted, hinserted⟩ => ?_
      refine Meets.ret (inserted_held bin).stable hinserted fun t ht _ content hcontent => ?_
      obtain rfl := Except.ok.inj hcontent
      exact ⟨bin, ht, hid, not_not.mp htoken, rfl, hgranted rfl⟩
    split
    · rename_i hexpired
      obtain ⟨at', hat, hlt⟩ := expiredAt_iff.mp hexpired
      rw [Prog.bind_eq]
      refine Meets.heldAwait (outline_kept hcfg) ((inserted_held bin).and (clock_held now)) trivial
        (fun t d _ _ ht => ⟨bin, ht.1, rfl, .inl ⟨at', hat, hlt.trans_le ht.2⟩⟩) ⟨hinserted, hnow⟩
        herror fun _ t d _ _ _ _ => ?_
      exact Meets.throw (.const True) trivial fun t _ _ => herror _ t
    · exact hrest _ hi' hinserted

theorem deleteBin_meets (hcfg : cfg.Sound) (hserves : Serves p userId s.log) :
    Follows (bins cfg) (anyRequests cfg) (outline cfg) p (BinsService.deleteBin userId id) s := by
  unfold BinsService.deleteBin
  rw [Prog.bind_eq]
  refine Follows.heldAwait (outline_kept hcfg) (serves_held userId) trivial
    (fun _ _ _ _ _ => trivial) hserves fun found t d hi hi' hserves hr => ?_
  cases found with
  | none => exact .throw
  | some bin =>
    obtain ⟨hinserted, hid⟩ := findBin_reply (p := p) hi hr
    dsimp only
    rw [Prog.bind_eq]
    refine .throwIf fun howner => ?_
    refine Follows.heldLast (P := fun _ => True) ((inserted_held bin).and (serves_held userId))
      (fun t d _ _ ht => ⟨bin, ht.1, hid, .inr ?_⟩)
      ⟨hinserted, hserves⟩
    rw [not_not.mp howner]
    exact ht.2

theorem handleCleanup_follows (hcfg : cfg.Sound) :
    Follows (bins cfg) (anyRequests cfg) (outline cfg) p BinsService.handleCleanup s := by
  unfold BinsService.handleCleanup
  rw [Prog.tryCatch_eq]
  refine Meets.caught (Q := fun _ _ => True) ?_
  have hbody : Follows (bins cfg) (anyRequests cfg) (outline cfg) p
      ((await .now).bind fun now => (await (.deleteExpired now)).bind fun _ => .ret ()) s := by
    refine Follows.awaitFree (outline_kept hcfg) (fun _ => trivial) fun now t d hi hi' hr => ?_
    have hnow : now ≤ ((bins cfg).after d p .now t).store.clock := now_reply hr
    exact Follows.heldAwait (outline_kept hcfg) (clock_held now) trivial (fun _ _ _ _ h => h) hnow
      fun _ _ _ _ _ _ _ => .ret
  refine hbody.mono fun r t _ _ => ?_
  cases r with
  | ok a => trivial
  | error e => exact Follows.ret

theorem program_meets (hcfg : cfg.Sound) (op : BinOperation) (hi : Inv cfg s) :
    Meets (bins cfg) (anyRequests cfg) (outline cfg) p (op.program cfg) (Post cfg p op) s := by
  have hnone : ∀ (e : LimitThrown) (a : BinOutcome), Except.error e ≠ .ok a := fun _ _ => nofun
  cases op with
  | createBin userId request =>
    refine authenticated_meets hcfg (fun e t bin h => (hnone e _ h).elim) fun t hi _ => ?_
    rw [Prog.bind_eq]
    refine Meets.throwIf (fun _ => Meets.throw (.const True) trivial
      fun _ _ _ bin h => (hnone _ _ h).elim) fun hvalid => ?_
    have hkey : isBinKey request.binKey = true := by
      rw [Bool.not_eq_false, valid, Bool.and_eq_true] at hvalid
      exact hvalid.2
    rw [Prog.bind_eq]
    refine (createBin_meets hcfg hkey).next (fun e t _ _ bin h => (hnone e _ h).elim)
      fun bin t _ hbin => ?_
    have hcreated := hbin bin rfl
    refine Meets.ret (inserted_held bin).stable hcreated.inserted fun t ht _ bin' hbin' => ?_
    cases hbin'
    exact { hcreated with inserted := ht }
  | getUserBins userId =>
    refine authenticated_meets hcfg (fun e t entries h => (hnone e _ h).elim) fun t hi _ => ?_
    rw [Prog.bind_eq]
    refine (getUserBins_meets hcfg).next (fun e t _ _ entries h => (hnone e _ h).elim)
      fun entries t _ hentries => ?_
    have hheld : Held (bins cfg) (anyRequests cfg) (outline cfg) p (fun _ => True) fun s =>
        ∀ entry, entry ∈ entries → ∃ bin, Listed cfg userId entry bin s :=
      .all fun entry => .all fun _ => listed_held entry
    refine Meets.ret hheld.stable (hentries entries rfl) fun t ht _ entries' h => ?_
    cases h
    exact ht
  | getBinContent id token providedPassword clientIp =>
    dsimp only [BinOperation.program]
    rw [Prog.bind_eq]
    refine (getBinContent_meets hcfg).next (fun e t _ _ content h => (hnone e _ h).elim)
      fun content t _ hcontent => ?_
    obtain ⟨bin, hseen⟩ := hcontent content rfl
    refine Meets.ret (inserted_held bin).stable hseen.inserted fun t ht _ content' h => ?_
    cases h
    exact ⟨bin, { hseen with inserted := ht }⟩
  | deleteBin userId id =>
    refine authenticated_meets hcfg (fun _ _ => trivial) fun t hi hserves => ?_
    rw [Prog.bind_eq]
    exact Follows.bind (F := fun _ => True) (outline_kept hcfg) hi (deleteBin_meets hcfg hserves)
      fun _ _ _ _ => .ret
  | handleCleanup =>
    dsimp only [BinOperation.program]
    rw [Prog.bind_eq]
    exact Follows.bind (F := fun _ => True) (outline_kept hcfg) hi (handleCleanup_follows hcfg)
      fun _ _ _ _ => .ret

end

end Redbox.BinSharing
