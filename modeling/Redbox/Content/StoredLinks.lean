import Redbox.Content.ContentLinks

/-! A report keeps its link in a form of its own, and moderators open a form of that. Where the
forms name what the link named. -/
namespace Redbox.ReportsService
open Text

variable {engine : UrlEngine} {link : List Char} {content : ParsedContentLink}

theorem toUrl_eq_ok {url : Url} :
    toUrl engine link = .ok url ↔ AdminReportsService.toUrl engine link = some url := by
  unfold toUrl AdminReportsService.toUrl
  cases engine.absolute link with
  | some u => simp
  | none => cases relativeUrl engine link <;> simp

/-- Which content the link names, and with which key. -/
def Denotes (engine : UrlEngine) (link : List Char) (content : ParsedContentLink)
    (hash : List Char) : Prop :=
  ∃ url, toUrl engine link = .ok url ∧ contentAt url.pathname (tokenOf url) = .ok content ∧
    url.hash = hash

theorem parseContentLink_eq_ok : parseContentLink engine link = .ok content ↔
    ∃ url, toUrl engine link = .ok url ∧ contentAt url.pathname (tokenOf url) = .ok content := by
  unfold parseContentLink
  cases toUrl engine link with
  | error e => simp [bind, Except.bind]
  | ok url => simp [bind, Except.bind]

theorem denotes_iff {hash : List Char} : Denotes engine link content hash ↔
    parseContentLink engine link = .ok content ∧ ∃ url, toUrl engine link = .ok url ∧
      url.hash = hash := by
  rw [parseContentLink_eq_ok]
  constructor
  · exact fun ⟨url, hurl, hcontent, hhash⟩ => ⟨⟨url, hurl, hcontent⟩, url, hurl, hhash⟩
  · rintro ⟨⟨url, hurl, hcontent⟩, other, hother, hhash⟩
    obtain rfl := Except.ok.inj (hurl.symm.trans hother)
    exact ⟨url, hurl, hcontent, hhash⟩

/-- The link has no password in its query. -/
def NoPassword (engine : UrlEngine) (link : List Char) : Prop :=
  ∀ url, toUrl engine link = .ok url → url.searchParams.get password = none

/-- The kept link names the content with the link's key and without a password, and so does what
the moderator opens. -/
def StillDenotes (engine : UrlEngine) (link : List Char) (content : ParsedContentLink) : Prop :=
  ∃ url stored review, toUrl engine link = .ok url ∧ sanitizeContentLink engine link = .ok stored ∧
    Denotes engine stored content url.hash ∧ NoPassword engine stored ∧
    AdminReportsService.buildReviewLink engine stored = some review ∧
    Denotes engine review content url.hash

/-- The path names the same after a first name in it was read as a host, twice. -/
def SurvivesHosts (engine : UrlEngine) (pathname : List Char) (token : Option String) : Prop :=
  ∃ first second, engine.reread baseScheme pathname = some first ∧
    engine.reread baseScheme first = some second ∧
    contentAt first token = contentAt pathname token ∧
    contentAt second token = contentAt pathname token

/-- A URL of its own, or a path. The path does not start with two slashes, or what is behind the
name after them means the same as the whole path. -/
def KeepsMeaning (engine : UrlEngine) (link : List Char) : Prop :=
  isAbsoluteUrl engine link = true ∨ ∃ url, toUrl engine link = .ok url ∧
    (UrlEngine.twoSlashes url.pathname = false ∨
      SurvivesHosts engine url.pathname (tokenOf url))

section
variable {url : Url}

theorem tokenOf_setParams (url : Url) :
    tokenOf (url.setParams (url.searchParams.delete password)) = tokenOf url := by
  have hne : "token".toList ≠ password := by decide
  rw [tokenOf, Url.searchParams_setParams, Params.get_delete hne, ← tokenOf]

theorem password_setParams (url : Url) :
    (url.setParams (url.searchParams.delete password)).searchParams.get password = none := by
  rw [Url.searchParams_setParams]
  exact Params.get_delete_self _ _

theorem resource_head (h : url.Canonical) : url.resource.head? = some '/' := by
  obtain ⟨segments, -, hpath⟩ := h.path
  rw [Url.resource, hpath, writePath, List.cons_append]
  rfl

theorem relativeUrl_resource (h : url.Canonical) :
    relativeUrl engine url.resource = engine.relative baseScheme baseFront url.resource := by
  rw [relativeUrl, if_pos (resource_head h)]

theorem adminToUrl_resource (h : url.Canonical) : AdminReportsService.toUrl engine url.resource =
    engine.relative baseScheme baseFront url.resource := by
  rw [AdminReportsService.toUrl, UrlEngine.absolute_resource h, Option.none_or,
    relativeUrl_resource h]

/-- A path with its query and its fragment, read again. -/
theorem toUrl_resource (h : url.Canonical) {path : List Char}
    (hpath : engine.reread baseScheme url.pathname = some path) :
    ∃ read, AdminReportsService.toUrl engine url.resource = some read ∧ read.Canonical ∧
      read.pathname = path ∧ read.searchParams = url.searchParams ∧ read.hash = url.hash := by
  obtain ⟨read, hread, hpathname, hquery, hfragment⟩ :=
    UrlEngine.relative_resource h hpath baseFront
  refine ⟨read, (adminToUrl_resource h).trans hread, UrlEngine.canonical_relative hread, hpathname,
    ?_, ?_⟩
  · rw [Url.searchParams, hquery, getD_nonEmpty, ← Url.searchParams]
  · rw [Url.hash, hfragment, nonEmpty_nonEmpty, ← Url.hash]

theorem denotes_resource {hash : List Char} (h : url.Canonical) :
    Denotes engine url.resource content hash ↔ url.hash = hash ∧
      ∃ path, engine.reread baseScheme url.pathname = some path ∧
        contentAt path (tokenOf url) = .ok content := by
  cases hpath : engine.reread baseScheme url.pathname with
  | none =>
    have hnone := (adminToUrl_resource h).trans
      (UrlEngine.relative_resource_none h hpath baseFront)
    refine iff_of_false ?_ ?_
    · rintro ⟨read, hread, -⟩
      rw [toUrl_eq_ok, hnone] at hread
      cases hread
    · rintro ⟨-, path, hsome, -⟩
      cases hsome
  | some path =>
    obtain ⟨read, hread, -, hpathname, hparams, hhash⟩ := toUrl_resource h hpath
    have htoken : tokenOf read = tokenOf url := by rw [tokenOf, hparams, ← tokenOf]
    constructor
    · rintro ⟨other, hother, hcontent, rfl⟩
      rw [toUrl_eq_ok, hread] at hother
      obtain rfl := Option.some.inj hother
      exact ⟨hhash.symm, path, rfl, by rw [← hpathname, ← htoken]; exact hcontent⟩
    · rintro ⟨rfl, other, hother, hcontent⟩
      obtain rfl := Option.some.inj hother
      exact ⟨read, toUrl_eq_ok.mpr hread, by rw [hpathname, htoken]; exact hcontent, hhash⟩

end

/-- An absolute link is kept as a URL that is read back as it is. -/
theorem stillDenotes_absolute (hE : engine.Lawful) {url : Url}
    (hurl : engine.absolute link = some url)
    (hcontent : contentAt url.pathname (tokenOf url) = .ok content) :
    StillDenotes engine link content := by
  set kept := url.setParams (url.searchParams.delete password) with hkept
  have hread : engine.absolute kept.href = some kept := UrlEngine.absolute_setParams hE hurl _
  have htoUrl : toUrl engine kept.href = .ok kept := by rw [toUrl, hread]
  have hlink : toUrl engine link = .ok url := by rw [toUrl, hurl]
  have hstored : sanitizeContentLink engine link = .ok kept.href := by
    have habsolute : isAbsoluteUrl engine link = true := by rw [isAbsoluteUrl, hurl]; rfl
    simp [sanitizeContentLink, hlink, habsolute, bind, Except.bind, pure, Except.pure, hkept]
  have hreview : AdminReportsService.buildReviewLink engine kept.href = some kept.href := by
    have habsolute : isAbsoluteUrl engine kept.href = true := by rw [isAbsoluteUrl, hread]; rfl
    rw [AdminReportsService.buildReviewLink, toUrl_eq_ok.mp htoUrl, Option.map_some,
      if_pos habsolute]
  have hdenotes : Denotes engine kept.href content url.hash :=
    ⟨kept, htoUrl, by rw [hkept, tokenOf_setParams]; exact hcontent, rfl⟩
  refine ⟨url, kept.href, kept.href, hlink, hstored, hdenotes, ?_, hreview, hdenotes⟩
  intro other hother
  obtain rfl := Except.ok.inj (htoUrl.symm.trans hother)
  exact password_setParams url

/-- A path that is kept is read against the base once more, and what the moderator opens is too. -/
theorem stillDenotes_relative (habsolute : engine.absolute link = none) {url : Url}
    (hurl : toUrl engine link = .ok url)
    (haccepted : contentAt url.pathname (tokenOf url) = .ok content) :
    StillDenotes engine link content ↔ SurvivesHosts engine url.pathname (tokenOf url) := by
  set kept := url.setParams (url.searchParams.delete password) with hkept
  have hcanonical : url.Canonical := by
    rw [toUrl_eq_ok, AdminReportsService.toUrl, habsolute, Option.none_or] at hurl
    exact UrlEngine.canonical_relative hurl
  have hkeptCanonical : kept.Canonical := hcanonical.setParams _
  have htoken : tokenOf kept = tokenOf url := tokenOf_setParams url
  have hnot : isAbsoluteUrl engine link = false := by rw [isAbsoluteUrl, habsolute]; rfl
  have hstored : sanitizeContentLink engine link = .ok kept.resource := by
    simp [sanitizeContentLink, hurl, hnot, bind, Except.bind, pure, Except.pure, hkept]
  have hreview : ∀ read, AdminReportsService.toUrl engine kept.resource = some read →
      AdminReportsService.buildReviewLink engine kept.resource = some read.resource := by
    intro read hread
    have hnot : isAbsoluteUrl engine kept.resource = false := by
      rw [isAbsoluteUrl, UrlEngine.absolute_resource hkeptCanonical]
      rfl
    rw [AdminReportsService.buildReviewLink, hread, Option.map_some, hnot]
    rfl
  constructor
  · rintro ⟨other, stored, review, hother, hstored', hdenotes, -, hreview', hopened⟩
    obtain rfl := Except.ok.inj (hurl.symm.trans hother)
    obtain rfl := Except.ok.inj (hstored.symm.trans hstored')
    obtain ⟨-, first, hfirst, hcontent⟩ := (denotes_resource hkeptCanonical).mp hdenotes
    obtain ⟨read, hread, hreadCanonical, hpathname, hparams, -⟩ :=
      toUrl_resource hkeptCanonical hfirst
    obtain rfl := Option.some.inj ((hreview read hread).symm.trans hreview')
    obtain ⟨-, second, hsecond, hcontent'⟩ := (denotes_resource hreadCanonical).mp hopened
    have htoken' : tokenOf read = tokenOf url := by rw [tokenOf, hparams, ← tokenOf, htoken]
    rw [htoken] at hcontent
    rw [hpathname] at hsecond
    rw [htoken'] at hcontent'
    exact ⟨first, second, hfirst, hsecond, hcontent.trans haccepted.symm,
      hcontent'.trans haccepted.symm⟩
  · rintro ⟨first, second, hfirst, hsecond, hcontent, hcontent'⟩
    rw [haccepted] at hcontent hcontent'
    obtain ⟨read, hread, hreadCanonical, hpathname, hparams, hhash⟩ :=
      toUrl_resource hkeptCanonical hfirst
    have htoken' : tokenOf read = tokenOf url := by rw [tokenOf, hparams, ← tokenOf, htoken]
    refine ⟨url, kept.resource, read.resource, hurl, hstored, ?_, ?_, hreview read hread, ?_⟩
    · exact (denotes_resource hkeptCanonical).mpr ⟨rfl, first, hfirst, by
        rw [htoken]; exact hcontent⟩
    · intro other hother
      rw [toUrl_eq_ok, hread] at hother
      obtain rfl := Option.some.inj hother
      rw [hparams]
      exact password_setParams url
    · exact (denotes_resource hreadCanonical).mpr
        ⟨hhash, second, by rw [hpathname]; exact hsecond, by rw [htoken']; exact hcontent'⟩

/-- A path without two slashes in front is read as it is. -/
theorem survivesHosts_of_single {pathname : List Char} (token : Option String)
    (hsingle : UrlEngine.twoSlashes pathname = false) : SurvivesHosts engine pathname token := by
  have hsame : engine.reread baseScheme pathname = some pathname := if_neg (by simp [hsingle])
  exact ⟨pathname, pathname, hsame, hsame, rfl, rfl⟩

theorem letterHosts_authority {scheme host shown : List Char}
    (h : letterHosts.authority scheme host = some shown) :
    host = shown ∧ ∀ c ∈ shown, c ∈ "abcdefghijklmnopqrstuvwxyz".toList := by
  obtain ⟨hletters, hsame⟩ := Option.ite_none_right_eq_some.mp h
  obtain rfl := Option.some.inj hsame
  rw [Bool.and_eq_true] at hletters
  exact ⟨rfl, fun c hc => List.contains_iff_mem.mp (List.all_eq_true.mp hletters.2 c hc)⟩

theorem letterHosts_lawful : letterHosts.Lawful where
  authority_again h := by
    obtain ⟨rfl, -⟩ := letterHosts_authority h
    exact h
  authority_clean h c hc := by
    have hall : "abcdefghijklmnopqrstuvwxyz".toList.all fun c =>
        !controlOrSpace c && !isSlash c && c != '?' && c != '#' := by decide
    have := List.all_eq_true.mp hall c ((letterHosts_authority h).2 c hc)
    simpa [and_assoc] using this
  authority_empty _ := rfl
  other_again h := by cases h

end Redbox.ReportsService
