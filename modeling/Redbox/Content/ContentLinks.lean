import Redbox.Text.Url

/-! The links of content reports: what a link names, the form that a report keeps, and the link
that a moderator opens. -/
namespace Redbox.ReportsService
open Text

inductive ReportedContentType where
  | FILE | BIN
  deriving DecidableEq, Repr

structure ParsedContentLink where
  contentType : ReportedContentType
  contentId : String
  token : String
  deriving DecidableEq, Repr

/-- What reading a link may throw. -/
inductive LinkError where
  | badRequestException (message : String)
  /-- From `decodeURIComponent`: no HTTP exception, so the request fails with status 500. -/
  | uriError
  deriving DecidableEq, Repr

/-- A string that JavaScript takes for true. -/
def truthy (s : Option String) : Option String := s.filter fun s => !s.isEmpty

/-- `Array.prototype.map` with a function that may throw. -/
def decodeSegments (segments : List String) : Except LinkError (List String) :=
  segments.mapM fun segment =>
    match decodeURIComponent segment with
    | some text => .ok text
    | none => .error .uriError

/-- The names in a path, still encoded. -/
def names (pathname : List Char) : List String :=
  ((splitWhere (· == '/') pathname).filter fun name => !name.isEmpty).map String.ofList

def requireToken (token : Option String) (message : String) (content : String → ParsedContentLink) :
    Except LinkError ParsedContentLink :=
  match truthy token with
  | some token => .ok (content token)
  | none => .error (.badRequestException message)

def uploadWithToken (token : Option String) (contentId : String) :
    Except LinkError ParsedContentLink :=
  requireToken token "A share token is required in the reported upload link" fun token =>
    ⟨.FILE, contentId, token⟩

def binWithToken (token : Option String) (contentId : String) :
    Except LinkError ParsedContentLink :=
  requireToken token "A share token is required in the reported bin link" fun token =>
    ⟨.BIN, contentId, token⟩

/-- The segment after a first one with the name. -/
def sharedId (name : String) (pathSegments : List String) : Option String :=
  if pathSegments[0]? = some name then truthy pathSegments[1]? else none

/-- The segments from the first `files` before a `download`. -/
def fromFilesDownload : List String → List String
  | [] => []
  | segment :: rest =>
    if segment = "files" ∧ rest.head? = some "download" then segment :: rest
    else fromFilesDownload rest

/-- The segments from the first `bins`. -/
def fromBins (pathSegments : List String) : List String := pathSegments.dropWhile (· != "bins")

/-- The patterns of a content link, in the order in which they are tried. -/
def contentOf (pathSegments : List String) (token : Option String) :
    Except LinkError ParsedContentLink :=
  match sharedId "d" pathSegments with
  | some contentId => uploadWithToken token contentId
  | none =>
    match sharedId "b" pathSegments with
    | some contentId => binWithToken token contentId
    | none =>
      match truthy (fromFilesDownload pathSegments)[2]? with
      | some contentId => uploadWithToken token contentId
      | none =>
        let bins := fromBins pathSegments
        match truthy bins[1]?, truthy bins[2]? with
        | some contentId, some token => .ok ⟨.BIN, contentId, token⟩
        | _, _ => .error (.badRequestException "Unsupported content link")

/-- The content that a path names, with the token of its link. -/
def contentAt (pathname : List Char) (token : Option String) :
    Except LinkError ParsedContentLink := do
  contentOf (← decodeSegments (names pathname)) token

section
variable (engine : UrlEngine)

def baseScheme : List Char := "https".toList

/-- `https://redbox.local`, without a path. -/
def baseFront : List Char := "https://redbox.local".toList

/-- A link that is no URL is read as a path on the base. -/
def relativeUrl (link : List Char) : Option Url :=
  engine.relative baseScheme baseFront (if link.head? = some '/' then link else '/' :: link)

def toUrl (link : List Char) : Except LinkError Url :=
  match engine.absolute link with
  | some url => .ok url
  | none =>
    match relativeUrl engine link with
    | some url => .ok url
    | none => .error (.badRequestException "Invalid content link")

def isAbsoluteUrl (link : List Char) : Bool := (engine.absolute link).isSome

/-- `url.searchParams.get('token')`. -/
def tokenOf (url : Url) : Option String := (url.searchParams.get "token".toList).map String.ofList

def parseContentLink (link : List Char) : Except LinkError ParsedContentLink := do
  let url ← toUrl engine link
  contentAt url.pathname (tokenOf url)

def password : List Char := "password".toList

/-- The link that a report keeps. -/
def sanitizeContentLink (link : List Char) : Except LinkError (List Char) := do
  let url ← toUrl engine link
  let url := url.setParams (url.searchParams.delete password)
  return if isAbsoluteUrl engine link then url.href else url.resource

end
end Redbox.ReportsService

namespace Redbox.AdminReportsService
open Text ReportsService

/-- As `toUrl` of the reports, but a link that is no path either throws a `TypeError`. -/
def toUrl (engine : UrlEngine) (link : List Char) : Option Url :=
  (engine.absolute link).or (relativeUrl engine link)

/-- The link that a moderator opens. -/
def buildReviewLink (engine : UrlEngine) (link : List Char) : Option (List Char) :=
  (toUrl engine link).map fun url => if isAbsoluteUrl engine link then url.href else url.resource

end Redbox.AdminReportsService

namespace Redbox.ReportsService
open Text

/-! ### Reading never throws anything but what a name may throw -/

theorem decodeSegments_cons {segment text : String} (h : decodeURIComponent segment = some text)
    (segments : List String) :
    decodeSegments (segment :: segments) = (decodeSegments segments).map (text :: ·) := by
  simp only [decodeSegments, List.mapM_cons, h, bind, Except.bind, pure, Except.pure]
  cases List.mapM (m := Except LinkError) _ segments <;> rfl

theorem decodeSegments_cons_none {segment : String} (h : decodeURIComponent segment = none)
    (segments : List String) : decodeSegments (segment :: segments) = .error .uriError := by
  simp only [decodeSegments, List.mapM_cons, h, bind, Except.bind]

/-- All segments are decoded, or one of them throws. -/
theorem decodeSegments_cases (segments : List String) :
    (∃ texts, decodeSegments segments = .ok texts ∧
        segments.map decodeURIComponent = texts.map some) ∨
      decodeSegments segments = .error .uriError ∧
        ∃ segment ∈ segments, decodeURIComponent segment = none := by
  induction segments with
  | nil => exact .inl ⟨[], rfl, rfl⟩
  | cons segment segments ih =>
    cases hs : decodeURIComponent segment with
    | none => exact .inr ⟨decodeSegments_cons_none hs segments, segment, List.mem_cons_self, hs⟩
    | some text =>
      rw [decodeSegments_cons hs]
      rcases ih with ⟨texts, hok, hmap⟩ | ⟨herr, bad, hbad, hnone⟩
      · refine .inl ⟨text :: texts, by rw [hok]; rfl, ?_⟩
        rw [List.map_cons, hs, hmap, List.map_cons]
      · exact .inr ⟨by rw [herr]; rfl, bad, List.mem_cons_of_mem _ hbad, hnone⟩

theorem requireToken_clean (token : Option String) (message : String)
    (content : String → ParsedContentLink) :
    requireToken token message content ≠ .error .uriError := by
  unfold requireToken
  split <;> exact fun h => by cases h

/-- Whatever the names are, the patterns give a content or a bad request. -/
theorem contentOf_clean (pathSegments : List String) (token : Option String) :
    contentOf pathSegments token ≠ .error .uriError := by
  unfold contentOf
  split
  · exact requireToken_clean _ _ _
  · split
    · exact requireToken_clean _ _ _
    · split
      · exact requireToken_clean _ _ _
      · simp only
        split <;> exact fun h => by cases h

section
variable {engine : UrlEngine} {link : List Char}

theorem toUrl_clean : toUrl engine link ≠ .error .uriError := by
  unfold toUrl
  split
  · exact fun h => by cases h
  · split <;> exact fun h => by cases h

/-- Every name in the link's path is an encoding. -/
def Readable (engine : UrlEngine) (link : List Char) : Prop :=
  ∀ url, toUrl engine link = .ok url →
    ∀ name ∈ names url.pathname, (decodeURIComponent name).isSome

/-- No other error than a `BadRequestException`. -/
theorem parseContentLink_clean :
    parseContentLink engine link ≠ .error .uriError ↔ Readable engine link := by
  unfold parseContentLink Readable
  cases hurl : toUrl engine link with
  | error e =>
    refine iff_of_true (fun h => ?_) fun url h => by cases h
    cases h
    exact toUrl_clean hurl
  | ok url =>
    rcases decodeSegments_cases (names url.pathname) with ⟨texts, hok, hmap⟩ | ⟨herr, name,
      hname, hnone⟩
    · refine iff_of_true ?_ ?_
      · simp only [contentAt, hok, bind, Except.bind]
        exact contentOf_clean texts (tokenOf url)
      · intro u hu name hname
        obtain rfl := Except.ok.inj hu
        obtain ⟨t, -, ht⟩ := List.mem_map.mp (hmap ▸ List.mem_map_of_mem hname)
        rw [← ht]
        rfl
    · refine iff_of_false ?_ fun h => ?_
      · simp [contentAt, herr, bind, Except.bind]
      · have := h url rfl name hname
        rw [hnone] at this
        cases this

end

/-! ### The links of the product -/

def uuidShape (c : Char) : Char :=
  if c == '-' then '-' else if "0123456789abcdefABCDEF".toList.contains c then 'x' else '?'

def isUuid (cs : List Char) : Bool :=
  cs.map uuidShape == "xxxxxxxx-xxxx-xxxx-xxxx-xxxxxxxxxxxx".toList

/-- Where a link starts: at a path, or at an http or https origin. -/
inductive LinkStart where
  | path
  | origin (secure : Bool) (host : List Char)

def httpScheme (secure : Bool) : List Char := (if secure then "https" else "http").toList

def LinkStart.text : LinkStart → List Char
  | path => []
  | origin secure host => httpScheme secure ++ ("://".toList ++ host)

def LinkStart.Valid (engine : UrlEngine) : LinkStart → Prop
  | path => True
  | origin secure host => host ≠ [] ∧ (engine.authority (httpScheme secure) host).isSome ∧
    ∀ c ∈ host, controlOrSpace c = false ∧ isSlash c = false ∧ c ≠ '?' ∧ c ≠ '#'

/-- The links that the product makes, and the paths of its interface. -/
inductive ProductLink where
  | sharedUpload (id token : List Char) (key : Option (List Char))
  | sharedBin (id token : List Char) (key : Option (List Char))
  | fileDownload (before : List (List Char)) (id token : List Char)
  | bins (before : List (List Char)) (id token : List Char)

namespace ProductLink

def before : ProductLink → List (List Char)
  | sharedUpload .. | sharedBin .. => []
  | fileDownload before _ _ | bins before _ _ => before

def names : ProductLink → List (List Char)
  | sharedUpload id _ _ => ["d".toList, id]
  | sharedBin id _ _ => ["b".toList, id]
  | fileDownload _ id _ => ["files".toList, "download".toList, id]
  | bins _ id token => ["bins".toList, id, token]

def query : ProductLink → Option (List Char)
  | sharedUpload _ token _ | sharedBin _ token _ | fileDownload _ _ token =>
    some ("token=".toList ++ token)
  | bins .. => none

def key : ProductLink → Option (List Char)
  | sharedUpload _ _ key | sharedBin _ _ key => key
  | fileDownload .. | bins .. => none

def text (start : LinkStart) (link : ProductLink) : List Char :=
  start.text ++ (writePath (link.before ++ link.names) ++
    (marked '?' link.query ++ marked '#' link.key))

def content : ProductLink → ParsedContentLink
  | sharedUpload id token _ | fileDownload _ id token =>
    ⟨.FILE, String.ofList id, String.ofList token⟩
  | sharedBin id token _ | bins _ id token => ⟨.BIN, String.ofList id, String.ofList token⟩

def id : ProductLink → List Char
  | sharedUpload id _ _ | sharedBin id _ _ | fileDownload _ id _ | bins _ id _ => id

def token : ProductLink → List Char
  | sharedUpload _ token _ | sharedBin _ token _ | fileDownload _ _ token | bins _ _ token => token

/-- A segment before the names of an interface path, which reads as none of the names that the
patterns look for. -/
structure Before (segment : List Char) : Prop where
  ne_nil : segment ≠ []
  plain : ∀ c ∈ segment, isSlash c = false ∧ c ≠ '?' ∧ c ≠ '#' ∧ tabOrNewline c = false
  other : ∀ name, decodeURIComponent (String.ofList (encodeWith pathSet segment)) = some name →
    name ∉ ["d", "b", "files", "bins"]

structure Valid (link : ProductLink) : Prop where
  id : isUuid link.id = true
  token : isUuid link.token = true
  before : ∀ segment ∈ link.before, Before segment

end ProductLink

section
variable {cs : List Char}

theorem isUuid_length (h : isUuid cs = true) : cs.length = 36 := by
  have := congrArg List.length (eq_of_beq h)
  simpa using this

/-- What holds of a digit and of a hyphen. -/
theorem isUuid_char (h : isUuid cs = true) {p : Char → Bool}
    (hp : "-0123456789abcdefABCDEF".toList.all p = true) : ∀ c ∈ cs, p c = true := by
  intro c hc
  have hshape : uuidShape c ∈ "xxxxxxxx-xxxx-xxxx-xxxx-xxxxxxxxxxxx".toList :=
    eq_of_beq h ▸ List.mem_map_of_mem hc
  refine List.all_eq_true.mp hp c ?_
  unfold uuidShape at hshape
  split at hshape
  · next hdash =>
    rw [eq_of_beq hdash]
    decide
  · split at hshape
    · next hdigit => exact List.mem_cons_of_mem _ (List.contains_iff_mem.mp hdigit)
    · exact absurd hshape (by decide)

theorem isUuid_settled (h : isUuid cs = true) : SettledSegment cs := by
  have hchars := isUuid_char h (p := fun c => !isSlash c && !pathSet c) (by decide)
  have hlength := isUuid_length h
  refine ⟨fun c hc => by simpa using hchars c hc, ?_, ?_⟩
  · refine Bool.eq_false_iff.mpr fun hdots => ?_
    obtain ⟨dots, hmem, heq⟩ := List.any_eq_true.mp hdots
    have hdots : ["..", ".%2e", "%2e.", "%2e%2e"].all fun dots => dots.toList.length != 36 := by
      decide
    have := congrArg List.length (eq_of_beq heq)
    rw [lowercase, List.length_map, hlength] at this
    exact absurd this.symm (by simpa using List.all_eq_true.mp hdots dots hmem)
  · refine Bool.eq_false_iff.mpr fun hdot => ?_
    rcases Bool.or_eq_true _ _ ▸ hdot with hdot | hdot
    · have := congrArg List.length (eq_of_beq hdot)
      rw [lowercase, List.length_map, hlength] at this
      exact absurd this (by decide)
    · have := congrArg List.length (eq_of_beq hdot)
      rw [hlength] at this
      exact absurd this (by decide)

/-- A text without an escape is its own decoding. -/
theorem decode_plain (h : '%' ∉ cs) :
    decodeURIComponent (String.ofList cs) = some (String.ofList cs) := by
  have hescapes : Escapes fun c => if c == '%' then (utf8 c.toNat).flatMap percent else [c] := by
    intro c
    by_cases hc : c = '%'
    · exact .inr (if_pos (by simp [hc]))
    · exact .inl ⟨hc, if_neg (by simp [hc])⟩
  have hself : encodeWith (· == '%') cs = cs := encodeWith_eq_self fun c hc => by
    refine beq_eq_false_iff_ne.mpr ?_
    rintro rfl
    exact h hc
  have hdecode := hescapes.decode cs
  rwa [show cs.flatMap _ = encodeWith (· == '%') cs from rfl, hself] at hdecode

end

namespace ProductLink
variable {link : ProductLink} {start : LinkStart} {engine : UrlEngine}

/-- The names of the patterns. -/
def words : List (List Char) := ["d", "b", "files", "download", "bins"].map String.toList

theorem Valid.mem_names (h : link.Valid) : ∀ s ∈ link.names, s ∈ words ∨ isUuid s = true := by
  have hid := h.id
  have htoken := h.token
  have hword : ∀ {word}, word ∈ words → ∀ rest : List (List Char),
      (∀ s ∈ rest, s ∈ words ∨ isUuid s = true) →
      ∀ s ∈ word :: rest, s ∈ words ∨ isUuid s = true := by
    intro word hword rest hrest s hs
    rcases List.mem_cons.mp hs with rfl | hs
    · exact .inl hword
    · exact hrest s hs
  cases link with
  | sharedUpload id token key | sharedBin id token key =>
    refine hword (by decide) _ fun s hs => .inr ?_
    obtain rfl := List.mem_singleton.mp hs
    exact hid
  | fileDownload before id token =>
    refine hword (by decide) _ (hword (by decide) _ fun s hs => .inr ?_)
    obtain rfl := List.mem_singleton.mp hs
    exact hid
  | bins before id token =>
    refine hword (by decide) _ fun s hs => .inr ?_
    rcases List.mem_cons.mp hs with rfl | hs
    · exact hid
    · obtain rfl := List.mem_singleton.mp hs
      exact htoken

/-- What holds of every character of the words, of digits and of hyphens. -/
theorem Valid.names_char (h : link.Valid) {p : Char → Bool}
    (hp : words.all (List.all · p) = true ∧ "-0123456789abcdefABCDEF".toList.all p = true) :
    ∀ s ∈ link.names, ∀ c ∈ s, p c = true := by
  intro s hs
  rcases h.mem_names s hs with hs | hs
  · exact List.all_eq_true.mp (List.all_eq_true.mp hp.1 s hs)
  · exact isUuid_char hs hp.2

theorem Valid.names_settled (h : link.Valid) : ∀ s ∈ link.names, SettledSegment s := by
  have hwords : ∀ s ∈ words, doubleDot s = false ∧ singleDot s = false := by decide
  intro s hs
  have hchar := h.names_char (p := fun c => !isSlash c && !pathSet c) ⟨by decide, by decide⟩ s hs
  rcases h.mem_names s hs with hs | hs
  · exact ⟨fun c hc => by simpa using hchar c hc, hwords s hs⟩
  · exact isUuid_settled hs

/-- Characters that neither end a segment nor are dropped. -/
def plainChar (c : Char) : Bool := !isSlash c && c != '?' && c != '#' && !tabOrNewline c

theorem Valid.segment (h : link.Valid) :
    ∀ s ∈ link.before ++ link.names, s ≠ [] ∧ ∀ c ∈ s, plainChar c = true := by
  intro s hs
  rcases List.mem_append.mp hs with hs | hs
  · have hbefore := h.before s hs
    refine ⟨hbefore.ne_nil, fun c hc => ?_⟩
    have := hbefore.plain c hc
    simp [plainChar, this]
  · refine ⟨?_, h.names_char ⟨by decide, by decide⟩ s hs⟩
    rcases h.mem_names s hs with hs | hs
    · have hwords : ∀ s ∈ words, s ≠ [] := by decide
      exact hwords s hs
    · rintro rfl
      exact absurd (isUuid_length hs) (by decide)

theorem names_ne_nil (link : ProductLink) : link.names ≠ [] := by
  cases link <;> exact List.cons_ne_nil _ _

/-- All before the key. -/
def body (start : LinkStart) (link : ProductLink) : List Char :=
  start.text ++ (writePath (link.before ++ link.names) ++ marked '?' link.query)

theorem text_eq (start : LinkStart) (link : ProductLink) :
    link.text start = link.body start ++ marked '#' link.key := by
  simp only [text, body, List.append_assoc]

theorem Valid.query_char (h : link.Valid) {p : Char → Bool}
    (hp : "?token=-0123456789abcdefABCDEF".toList.all p = true) :
    ∀ c ∈ marked '?' link.query, p c = true := by
  have htoken := isUuid_char h.token (p := p) (List.all_eq_true.mpr fun c hc =>
    List.all_eq_true.mp hp c (List.mem_append_right "?token=".toList hc))
  have hname : ∀ c ∈ '?' :: "token=".toList, p c = true := fun c hc =>
    List.all_eq_true.mp hp c (List.mem_append_left _ hc)
  have hall : ∀ token, (∀ c ∈ token, p c = true) →
      ∀ c ∈ '?' :: ("token=".toList ++ token), p c = true := by
    intro token htoken c hc
    rcases List.mem_append.mp (show c ∈ ('?' :: "token=".toList) ++ token from hc) with hc | hc
    · exact hname c hc
    · exact htoken c hc
  cases link with
  | sharedUpload id token key | sharedBin id token key => exact hall token htoken
  | fileDownload before id token => exact hall token htoken
  | bins before id token => exact List.forall_mem_nil _

theorem Valid.writePath_char (h : link.Valid) :
    ∀ c ∈ writePath (link.before ++ link.names),
      c ≠ '?' ∧ c ≠ '#' ∧ tabOrNewline c = false := by
  intro c hc
  rcases List.mem_cons.mp hc with rfl | hc
  · decide
  · rcases mem_joinWith hc with rfl | ⟨s, hs, hc⟩
    · decide
    · have := (h.segment s hs).2 c hc
      simp only [plainChar, Bool.and_eq_true, bne_iff_ne, Bool.not_eq_true'] at this
      exact ⟨this.1.1.2, this.1.2, this.2⟩

theorem start_char (hs : start.Valid engine) :
    ∀ c ∈ start.text, c ≠ '?' ∧ c ≠ '#' ∧ tabOrNewline c = false := by
  cases start with
  | path => exact List.forall_mem_nil _
  | origin secure host =>
    have hscheme : ∀ secure, (httpScheme secure ++ "://".toList).all fun c =>
        c != '?' && c != '#' && !tabOrNewline c := by decide
    intro c hc
    rw [LinkStart.text, ← List.append_assoc] at hc
    rcases List.mem_append.mp hc with hc | hc
    · have := List.all_eq_true.mp (hscheme secure) c hc
      simp only [Bool.and_eq_true, bne_iff_ne, Bool.not_eq_true'] at this
      exact ⟨this.1.1, this.1.2, this.2⟩
    · have hclean := hs.2.2 c hc
      refine ⟨hclean.2.2.1, hclean.2.2.2, ?_⟩
      refine Bool.eq_false_iff.mpr fun htab => ?_
      have hlow : ∀ c, tabOrNewline c = true → controlOrSpace c = true := by
        intro c hc
        simp only [tabOrNewline, Bool.or_eq_true, beq_iff_eq] at hc
        rcases hc with (rfl | rfl) | rfl <;> decide
      rw [hlow c htab] at hclean
      cases hclean.1

/-- A link's body ends in a digit of its token. -/
theorem Valid.body_last (h : link.Valid) (start : LinkStart) :
    ∃ front, link.body start = front ++ link.token := by
  have hshared : link.query = some ("token=".toList ++ link.token) →
      ∃ front, link.body start = front ++ link.token := by
    intro hquery
    refine ⟨start.text ++ (writePath (link.before ++ link.names) ++ '?' :: "token=".toList), ?_⟩
    simp only [body, hquery, marked, List.append_assoc, List.cons_append]
  cases link with
  | sharedUpload id token key | sharedBin id token key => exact hshared rfl
  | fileDownload before id token => exact hshared rfl
  | bins before id token =>
    obtain ⟨front, hfront⟩ := joinWith_concat '/' (before ++ ["bins".toList, id]) token
    refine ⟨start.text ++ '/' :: front, ?_⟩
    have hnames : (ProductLink.bins before id token).before ++
        (ProductLink.bins before id token).names =
        before ++ ["bins".toList, id] ++ [token] := by
      simp [ProductLink.before, ProductLink.names]
    simp only [body, hnames, writePath, hfront, query, marked, List.append_nil]
    simp [ProductLink.token]

theorem Valid.clean_text (hs : start.Valid engine) (h : link.Valid) :
    ∃ key, clean (link.text start) = link.body start ++ marked '#' key := by
  have hlast : ∃ last, link.token.getLast? = some last ∧ controlOrSpace last = false := by
    have hne : link.token ≠ [] := fun hnil => by
      have := isUuid_length h.token
      rw [hnil] at this
      cases this
    have hgraphic := isUuid_char h.token (p := fun c => !controlOrSpace c) (by decide)
    refine ⟨_, List.getLast?_eq_some_getLast hne, ?_⟩
    simpa using hgraphic _ (List.getLast_mem hne)
  have hfirst : ∃ first, (link.body start).head? = some first ∧ controlOrSpace first = false := by
    cases start with
    | path => exact ⟨'/', rfl, by decide⟩
    | origin secure host => cases secure <;> exact ⟨'h', rfl, by decide⟩
  have htabs : ∀ c ∈ link.body start, tabOrNewline c = false := by
    intro c hc
    rcases List.mem_append.mp hc with hc | hc
    · exact (start_char hs c hc).2.2
    · rcases List.mem_append.mp hc with hc | hc
      · exact (h.writePath_char c hc).2.2
      · simpa using h.query_char (p := fun c => !tabOrNewline c) (by decide) c hc
  obtain ⟨last, htoken, hlast⟩ := hlast
  obtain ⟨first, hfirst⟩ := hfirst
  obtain ⟨front, hfront⟩ := h.body_last start
  have hend : (link.body start).getLast? = some last := by
    rw [hfront, List.getLast?_append, htoken, Option.some_or]
  rw [text_eq]
  exact clean_marked rfl hfirst ⟨hend, hlast⟩ htabs link.key

theorem Valid.pieces_text (hs : start.Valid engine) (h : link.Valid) :
    ∃ key, pieces (clean (link.text start)) =
      ⟨start.text ++ writePath (link.before ++ link.names), link.query, key⟩ := by
  obtain ⟨key, hclean⟩ := h.clean_text hs
  refine ⟨key, ?_⟩
  rw [hclean, body, ← List.append_assoc, List.append_assoc]
  refine pieces_marked ⟨?_, ?_⟩ ?_
  · intro hc
    rcases List.mem_append.mp hc with hc | hc
    · exact (start_char hs _ hc).1 rfl
    · exact (h.writePath_char _ hc).1 rfl
  · intro hc
    rcases List.mem_append.mp hc with hc | hc
    · exact (start_char hs _ hc).2.1 rfl
    · exact (h.writePath_char _ hc).2.1 rfl
  · intro hc
    exact absurd (h.query_char (p := (· != '#')) (by decide) _ hc) (by decide)

/-- The links name no host where they start with a path. -/
theorem Valid.twoSlashes (h : link.Valid) :
    UrlEngine.twoSlashes (writePath (link.before ++ link.names)) = false := by
  obtain ⟨s, rest, hsegments⟩ := List.exists_cons_of_ne_nil
    (List.append_ne_nil_of_right_ne_nil link.before link.names_ne_nil)
  obtain ⟨hne, hchar⟩ := h.segment s (hsegments ▸ List.mem_cons_self)
  obtain ⟨c, cs, rfl⟩ := List.exists_cons_of_ne_nil hne
  have hc := hchar c List.mem_cons_self
  simp only [plainChar, Bool.and_eq_true, Bool.not_eq_true'] at hc
  rw [hsegments, writePath]
  cases rest <;> simp [joinWith, UrlEngine.twoSlashes, hc.1.1.1]

/-- A link of the product is read as its path and its query. -/
theorem Valid.toUrl_text (hs : start.Valid engine) (h : link.Valid) :
    ∃ front key, toUrl engine (link.text start) =
      .ok (ofPath front (writePath (link.before ++ link.names)) link.query key) := by
  obtain ⟨key, hpieces⟩ := h.pieces_text hs
  cases start with
  | path =>
    refine ⟨baseFront, key, ?_⟩
    have habsolute : engine.absolute (link.text .path) = none := by
      have hscheme : schemeOf (LinkStart.path.text ++ writePath (link.before ++ link.names)) =
          none := schemeOf_slash _
      rw [UrlEngine.absolute, hpieces]
      simp only [hscheme]
    have hrelative : relativeUrl engine (link.text .path) =
        some (ofPath baseFront (writePath (link.before ++ link.names)) link.query key) := by
      have hslash : (link.text .path).head? = some '/' := rfl
      rw [relativeUrl, if_pos hslash, UrlEngine.relative, hpieces]
      exact if_neg (by rw [LinkStart.text, List.nil_append, h.twoSlashes]; decide)
    rw [toUrl, habsolute, hrelative]
  | origin secure host =>
    obtain ⟨shown, hshown⟩ := Option.isSome_iff_exists.mp hs.2.1
    refine ⟨httpScheme secure ++ "://".toList ++ shown, key, ?_⟩
    have hspecial : httpScheme secure ∈ special := by cases secure <;> decide
    have hscheme : schemeOf ((LinkStart.origin secure host).text ++
        writePath (link.before ++ link.names)) = some (httpScheme secure,
          "//".toList ++ (host ++ writePath (link.before ++ link.names))) := by
      simpa [LinkStart.text] using schemeOf_special hspecial
        ("//".toList ++ (host ++ writePath (link.before ++ link.names)))
    have habsolute : engine.absolute (link.text (.origin secure host)) =
        some (ofPath (httpScheme secure ++ "://".toList ++ shown)
          (writePath (link.before ++ link.names)) link.query key) := by
      rw [UrlEngine.absolute, hpieces]
      simp only [hscheme, List.contains_iff_mem.mpr hspecial, if_true]
      refine UrlEngine.hosted_eq UrlEngine.isSlash_slashes hs.1 (fun c hc => (hs.2.2 c hc).2.1) ?_
        rfl hshown
      intro c hc
      obtain rfl := Option.some.inj hc
      rfl
    rw [toUrl, habsolute]

/-- The segments before the names, after their dots were resolved. -/
def resolvedBefore (link : ProductLink) : List (List Char) :=
  (link.before.map (encodeWith pathSet)).foldl enter []

theorem Valid.readPath (h : link.Valid) :
    readPath (writePath (link.before ++ link.names)) = link.resolvedBefore ++ link.names := by
  have hslashes : ∀ s ∈ link.before ++ link.names, ∀ c ∈ s, isSlash c = false := by
    intro s hs c hc
    have := (h.segment s hs).2 c hc
    simp only [plainChar, Bool.and_eq_true, Bool.not_eq_true'] at this
    exact this.1.1.1
  have hsplit : splitWhere isSlash (joinWith '/' (link.before ++ link.names)) =
      link.before ++ link.names :=
    splitWhere_joinWith (List.append_ne_nil_of_right_ne_nil _ link.names_ne_nil) hslashes rfl
  have hnames : link.names.map (encodeWith pathSet) = link.names := by
    refine (List.map_congr_left fun s hs => ?_).trans (List.map_id _)
    exact encodeWith_eq_self fun c hc => ((h.names_settled s hs).1 c hc).2
  rw [Text.readPath, writePath, List.drop_one, List.tail_cons, hsplit, List.map_append, hnames]
  exact resolve_append link.names_ne_nil h.names_settled _

/-- The names in the path of a link. -/
def front (link : ProductLink) : List String :=
  (link.resolvedBefore.filter fun name => !name.isEmpty).map String.ofList

theorem Valid.path_names (h : link.Valid) :
    ReportsService.names (writePath (link.resolvedBefore ++ link.names)) =
      link.front ++ link.names.map String.ofList := by
  have hslashes : ∀ s ∈ link.resolvedBefore ++ link.names, ∀ c ∈ s, (c == '/') = false := by
    intro s hs c hc
    have hsettled := (settled_readPath (writePath (link.before ++ link.names))).segment s
      (h.readPath ▸ hs)
    refine beq_eq_false_iff_ne.mpr ?_
    rintro rfl
    exact absurd (hsettled.1 _ hc).1 (by decide)
  have hsplit : splitWhere (· == '/') (writePath (link.resolvedBefore ++ link.names)) =
      [] :: (link.resolvedBefore ++ link.names) := by
    have hjoined : splitWhere (· == '/') (joinWith '/' (link.resolvedBefore ++ link.names)) =
        link.resolvedBefore ++ link.names :=
      splitWhere_joinWith (List.append_ne_nil_of_right_ne_nil _ link.names_ne_nil) hslashes rfl
    rw [writePath, splitWhere, if_pos (beq_self_eq_true _), hjoined]
  have hkeep : link.names.filter (fun name => !name.isEmpty) = link.names := by
    refine List.filter_eq_self.mpr fun s hs => ?_
    have := (h.segment s (List.mem_append_right _ hs)).1
    simpa using this
  rw [ReportsService.names, hsplit, List.filter_cons_of_neg (by simp), List.filter_append, hkeep,
    List.map_append, front]

/-- The names of a link are their own decodings. -/
theorem Valid.decode_names (h : link.Valid) :
    (link.names.map String.ofList).map decodeURIComponent =
      (link.names.map String.ofList).map some := by
  rw [List.map_map, List.map_map]
  refine List.map_congr_left fun s hs => decode_plain fun hc => ?_
  exact absurd (h.names_char (p := (· != '%')) ⟨by decide, by decide⟩ s hs _ hc) (by decide)

/-- No name in front is one that the patterns look for. -/
theorem Valid.front_other (h : link.Valid) {texts : List String}
    (hdecode : link.front.map decodeURIComponent = texts.map some) :
    ∀ text ∈ texts, text ∉ ["d", "b", "files", "bins"] := by
  intro text htext
  obtain ⟨name, hname, hdecoded⟩ := List.mem_map.mp (hdecode ▸ List.mem_map_of_mem htext)
  obtain ⟨s, hs, rfl⟩ := List.mem_map.mp hname
  rcases mem_foldl_enter (List.mem_of_mem_filter hs) with hs | hs
  · cases hs
  · obtain ⟨segment, hsegment, rfl⟩ := List.mem_map.mp hs
    exact (h.before segment hsegment).other text hdecoded

end ProductLink

/-! ### The patterns -/

section
variable {texts rest : List String}

theorem fromFilesDownload_append (h : ∀ text ∈ texts, text ≠ "files") :
    fromFilesDownload (texts ++ rest) = fromFilesDownload rest := by
  induction texts with
  | nil => rfl
  | cons text texts ih =>
    rw [List.cons_append, fromFilesDownload,
      if_neg fun hfiles => h text List.mem_cons_self hfiles.1]
    exact ih fun t ht => h t (List.mem_cons_of_mem _ ht)

theorem fromBins_append (h : ∀ text ∈ texts, text ≠ "bins") :
    fromBins (texts ++ rest) = fromBins rest :=
  List.dropWhile_append_of_pos fun text ht => bne_iff_ne.mpr (h text ht)

/-- A share link starts with its letter. -/
theorem sharedId_append {name next : String} (rest : List String) (h : ∀ text ∈ texts, text ≠ name)
    (hnext : next ≠ name) :
    sharedId name (texts ++ next :: rest) = none := by
  refine if_neg fun hfirst => ?_
  cases texts with
  | nil => exact hnext (Option.some.inj hfirst)
  | cons text texts => exact h text List.mem_cons_self (Option.some.inj hfirst)

end

theorem truthy_some {s : String} (h : s ≠ "") : truthy (some s) = some s := by
  simp [truthy, h]

section
variable {texts : List String} {id token : String} (hid : truthy (some id) = some id)
  (htoken : truthy (some token) = some token)
  (hother : ∀ word ∈ ["d", "b", "files", "bins"], ∀ text ∈ texts, text ≠ word)
include hid htoken

theorem contentOf_sharedUpload : contentOf ["d", id] (some token) = .ok ⟨.FILE, id, token⟩ := by
  have hshared : sharedId "d" ["d", id] = some id := (if_pos rfl).trans hid
  simp only [contentOf, hshared, uploadWithToken, requireToken, htoken]

theorem contentOf_sharedBin : contentOf ["b", id] (some token) = .ok ⟨.BIN, id, token⟩ := by
  have hupload : sharedId "d" ["b", id] = none := if_neg (by simp)
  have hshared : sharedId "b" ["b", id] = some id := (if_pos rfl).trans hid
  simp only [contentOf, hupload, hshared, binWithToken, requireToken, htoken]

include hother

theorem contentOf_fileDownload :
    contentOf (texts ++ ["files", "download", id]) (some token) = .ok ⟨.FILE, id, token⟩ := by
  have hupload := sharedId_append ["download", id] (hother "d" (by simp))
    (show "files" ≠ "d" by decide)
  have hbin := sharedId_append ["download", id] (hother "b" (by simp))
    (show "files" ≠ "b" by decide)
  have hfiles : (fromFilesDownload (texts ++ ["files", "download", id]))[2]? = some id := by
    rw [fromFilesDownload_append (hother "files" (by simp)), fromFilesDownload, if_pos ⟨rfl, rfl⟩]
    rfl
  simp only [contentOf, hupload, hbin, hfiles, hid, uploadWithToken, requireToken, htoken]

theorem contentOf_bins (hfiles : id ≠ "files" ∧ token ≠ "files") (linkToken : Option String) :
    contentOf (texts ++ ["bins", id, token]) linkToken = .ok ⟨.BIN, id, token⟩ := by
  have hupload := sharedId_append [id, token] (hother "d" (by simp))
    (show "bins" ≠ "d" by decide)
  have hbin := sharedId_append [id, token] (hother "b" (by simp))
    (show "bins" ≠ "b" by decide)
  have hnone : fromFilesDownload (texts ++ ["bins", id, token]) = [] := by
    rw [fromFilesDownload_append (hother "files" (by simp))]
    simp [fromFilesDownload, hfiles]
  have hbins : fromBins (texts ++ ["bins", id, token]) = ["bins", id, token] := by
    rw [fromBins_append (hother "bins" (by simp))]
    rfl
  have h1 : (["bins", id, token] : List String)[1]? = some id := rfl
  have h2 : (["bins", id, token] : List String)[2]? = some token := rfl
  have h3 : truthy ([] : List String)[2]? = none := rfl
  simp only [contentOf, hupload, hbin, hnone, hbins, h1, h2, h3, hid, htoken]

end

theorem ofList_ne_empty {cs : List Char} (h : cs ≠ []) : String.ofList cs ≠ "" := by
  intro heq
  have := congrArg String.toList heq
  rw [String.toList_ofList] at this
  exact h this

theorem isUuid_truthy {cs : List Char} (h : isUuid cs = true) :
    truthy (some (String.ofList cs)) = some (String.ofList cs) := by
  refine truthy_some (ofList_ne_empty ?_)
  rintro rfl
  exact absurd (isUuid_length h) (by decide)

theorem isUuid_ne {cs : List Char} (word : String) (h : isUuid cs = true)
    (hword : word.toList.length ≠ 36) : String.ofList cs ≠ word := by
  rintro rfl
  rw [String.toList_ofList] at hword
  exact hword (isUuid_length h)

namespace ProductLink
variable {link : ProductLink} {start : LinkStart} {engine : UrlEngine}

theorem Valid.contentOf (h : link.Valid) {texts : List String}
    (hother : ∀ text ∈ texts, text ∉ ["d", "b", "files", "bins"])
    (hfront : link.before = [] → texts = []) {token : Option String}
    (htoken : link.query.isSome → token = some (String.ofList link.token)) :
    ReportsService.contentOf (texts ++ link.names.map String.ofList) token = .ok link.content := by
  have hne : ∀ word ∈ ["d", "b", "files", "bins"], ∀ text ∈ texts, text ≠ word := by
    rintro word hword text htext rfl
    exact hother text htext hword
  have hid := isUuid_truthy h.id
  have htok := isUuid_truthy h.token
  cases link with
  | sharedUpload id tok key =>
    obtain rfl := hfront rfl
    obtain rfl := htoken rfl
    simpa [names, content, ProductLink.id, ProductLink.token] using contentOf_sharedUpload hid htok
  | sharedBin id tok key =>
    obtain rfl := hfront rfl
    obtain rfl := htoken rfl
    simpa [names, content, ProductLink.id, ProductLink.token] using contentOf_sharedBin hid htok
  | fileDownload before id tok =>
    obtain rfl := htoken rfl
    simpa [names, content, ProductLink.id, ProductLink.token] using contentOf_fileDownload
      hid htok hne
  | bins before id tok =>
    have hfiles := fun cs (h : isUuid cs = true) => isUuid_ne "files" h (by decide)
    simpa [names, content, ProductLink.id, ProductLink.token] using contentOf_bins hid htok hne
      ⟨hfiles _ h.id, hfiles _ h.token⟩ token

/-- The token of a link is what its query gives. -/
theorem Valid.tokenOf (h : link.Valid) (front path : List Char) (key : Option (List Char))
    (hquery : link.query.isSome) :
    ReportsService.tokenOf (ofPath front path link.query key) =
      some (String.ofList link.token) := by
  have hsafe := isUuid_char h.token (p := formSafe) (by decide)
  have hserialized : "token=".toList ++ link.token =
      serializeParams [("token".toList, link.token)] := by
    have hname : formEncode "token".toList = "token".toList := by decide
    rw [serializeParams, List.map_singleton, joinWith, serializePair, formEncode_eq_self hsafe,
      hname]
    rfl
  have hlink : link.query = some ("token=".toList ++ link.token) := by
    cases link with
    | sharedUpload id tok key | sharedBin id tok key => rfl
    | fileDownload before id tok => rfl
    | bins before id tok => cases hquery
  have hparams : (ofPath front path link.query key).searchParams =
      [("token".toList, link.token)] := by
    rw [Url.searchParams, hlink, hserialized, ofPath, Option.map_some,
      encodeWith_eq_self specialQuerySet_serializeParams]
    exact parseParams_serializeParams _
  rw [ReportsService.tokenOf, hparams]
  rfl

/-- A link that can be read names the content that it was made for. -/
theorem Valid.parseContentLink (hs : start.Valid engine) (h : link.Valid)
    (hread : Readable engine (link.text start)) :
    parseContentLink engine (link.text start) = .ok link.content := by
  obtain ⟨front, key, hurl⟩ := h.toUrl_text hs
  have hnames : ReportsService.names (ofPath front (writePath (link.before ++ link.names))
      link.query key).pathname = link.front ++ link.names.map String.ofList := by
    rw [ofPath]
    simp only [h.readPath, h.path_names]
  rcases decodeSegments_cases (link.front ++ link.names.map String.ofList) with
    ⟨texts, hok, hmap⟩ | ⟨-, name, hname, hnone⟩
  · rw [List.map_append, h.decode_names] at hmap
    obtain ⟨front', names', rfl, hfront, hnames'⟩ := List.map_eq_append_iff.mp hmap.symm
    obtain rfl : names' = link.names.map String.ofList :=
      List.map_injective_iff.mpr (fun _ _ h => Option.some.inj h) hnames'
    rw [ReportsService.parseContentLink, hurl]
    simp only [contentAt, hnames, hok, bind, Except.bind]
    refine h.contentOf (h.front_other hfront.symm) (fun hbefore => ?_) (h.tokenOf front _ key)
    have hnil : link.front = [] := by
      rw [ProductLink.front, resolvedBefore, hbefore]
      rfl
    rw [hnil] at hfront
    exact List.map_eq_nil_iff.mp hfront
  · have := hread _ hurl name (hnames ▸ hname)
    rw [hnone] at this
    cases this

end ProductLink

section
variable (engine : UrlEngine) (link : List Char)

/-- A link is read exactly if it is one of the product, and no link makes the reader fail with
another error than a bad request. -/
def ReadExactly : Prop :=
  (∀ (start : LinkStart) (made : ProductLink), start.Valid engine → made.Valid →
    link = made.text start → parseContentLink engine link = .ok made.content) ∧
  parseContentLink engine link ≠ .error .uriError

/-- The reader meets this where each name in the path of the link is an encoding, and only there. -/
theorem readExactly_iff : ReadExactly engine link ↔ Readable engine link := by
  constructor
  · exact fun h => parseContentLink_clean.mp h.2
  · intro hread
    refine ⟨?_, parseContentLink_clean.mpr hread⟩
    rintro start made hs hmade rfl
    exact hmade.parseContentLink hs hread

end

/-- Hosts of small letters alone, which the parser shows as they are. -/
def letterHosts : UrlEngine where
  authority _ host :=
    if !host.isEmpty && host.all ("abcdefghijklmnopqrstuvwxyz".toList.contains ·) then some host
    else none
  other _ := none

theorem percent_throws : ¬ ReadExactly letterHosts "/d/%".toList := by
  intro h
  exact h.2 (by decide +kernel)

end Redbox.ReportsService
