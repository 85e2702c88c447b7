import Mathlib.Data.List.TakeWhile
import Redbox.Text.FormUrlEncoded

/-! URLs as the URL Standard reads and writes them: the schemes with a host, absolute or against a
base of such a scheme. How a host with its credentials and its port is read is a parameter, and so
are the other schemes. -/
namespace Text

structure Url where
  /-- The scheme and the host: all before the path. -/
  front : List Char
  pathname : List Char
  query : Option (List Char)
  fragment : Option (List Char)
  deriving DecidableEq, Repr

/-- A part of a text after its mark. -/
def marked (mark : Char) : Option (List Char) → List Char
  | none => []
  | some part => mark :: part

def nonEmpty (part : Option (List Char)) : Option (List Char) := part.filter fun cs => !cs.isEmpty

namespace Url

def search (url : Url) : List Char := marked '?' (nonEmpty url.query)

def hash (url : Url) : List Char := marked '#' (nonEmpty url.fragment)

def href (url : Url) : List Char :=
  url.front ++ (url.pathname ++ (marked '?' url.query ++ marked '#' url.fragment))

def searchParams (url : Url) : Params := parseParams (url.query.getD [])

/-- What a change of `searchParams` writes back. -/
def setParams (url : Url) (params : Params) : Url :=
  { url with query := nonEmpty (some (serializeParams params)) }

/-- Path, query and fragment alone. -/
def resource (url : Url) : List Char := url.pathname ++ (url.search ++ url.hash)

end Url

/-! ### What the parser escapes and drops -/

def controlSet (c : Char) : Bool := c.toNat < 0x20 || 0x7E < c.toNat

def fragmentSet (c : Char) : Bool := controlSet c || " \"<>`".toList.contains c

def querySet (c : Char) : Bool := controlSet c || " \"#<>".toList.contains c

def specialQuerySet (c : Char) : Bool := querySet c || c == '\''

def pathSet (c : Char) : Bool := querySet c || "?`\x7b\x7d".toList.contains c

def controlOrSpace (c : Char) : Bool := c.toNat ≤ 0x20

def tabOrNewline (c : Char) : Bool := c == '\t' || c == '\n' || c == '\r'

def trimEnd (cs : List Char) : List Char := (cs.reverse.dropWhile controlOrSpace).reverse

/-- Controls and spaces go at both ends, tabs and line ends everywhere. -/
def clean (cs : List Char) : List Char :=
  (trimEnd (cs.dropWhile controlOrSpace)).filter fun c => !tabOrNewline c

def isSlash (c : Char) : Bool := c == '/' || c == '\\'

/-! ### Paths -/

def lowercase (s : List Char) : List Char := s.map Char.toLower

def singleDot (s : List Char) : Bool := lowercase s == "%2e".toList || s == ['.']

def doubleDot (s : List Char) : Bool :=
  ["..", ".%2e", "%2e.", "%2e%2e"].any fun dots => lowercase s == dots.toList

/-- A segment before the last one. -/
def enter (path : List (List Char)) (s : List Char) : List (List Char) :=
  if doubleDot s then path.dropLast else if singleDot s then path else path ++ [s]

/-- The last segment. -/
def finish (path : List (List Char)) (s : List Char) : List (List Char) :=
  if doubleDot s then path.dropLast ++ [[]] else if singleDot s then path ++ [[]] else path ++ [s]

def resolve : List (List Char) → List (List Char) → List (List Char)
  | path, [] => path
  | path, [s] => finish path s
  | path, s :: next :: rest => resolve (enter path s) (next :: rest)

/-- The segments of a path text, which is empty or starts with a slash. -/
def readPath (path : List Char) : List (List Char) :=
  resolve [] ((splitWhere isSlash (path.drop 1)).map (encodeWith pathSet))

def writePath (segments : List (List Char)) : List Char := '/' :: joinWith '/' segments

/-! ### The parser -/

/-- A text up to a mark and the rest after it. -/
def cut (mark : Char) (cs : List Char) : List Char × Option (List Char) :=
  (cs.takeWhile (· != mark), match cs.dropWhile (· != mark) with
    | [] => none
    | _ :: rest => some rest)

structure Pieces where
  body : List Char
  query : Option (List Char)
  fragment : Option (List Char)

def pieces (cs : List Char) : Pieces :=
  let (rest, fragment) := cut '#' cs
  let (body, query) := cut '?' rest
  ⟨body, query, fragment⟩

def schemeChar (c : Char) : Bool := c.isAlphanum || "+-.".toList.contains c

def schemeOf (body : List Char) : Option (List Char × List Char) :=
  match cut ':' body with
  | (c :: scheme, some rest) =>
    if c.isAlpha && scheme.all schemeChar then some (lowercase (c :: scheme), rest) else none
  | _ => none

/-- The special schemes other than `file`. -/
def special : List (List Char) := ["http", "https", "ws", "wss", "ftp"].map String.toList

/-- What this file does not read itself. -/
structure UrlEngine where
  /-- Credentials, host and port of a special scheme, as the URL shows them. -/
  authority : List Char → List Char → Option (List Char)
  /-- `file` and the schemes that are not special. -/
  other : List Char → Option Url

def ofPath (front path : List Char) (query fragment : Option (List Char)) : Url where
  front := front
  pathname := writePath (readPath path)
  query := query.map (encodeWith specialQuerySet)
  fragment := fragment.map (encodeWith fragmentSet)

namespace UrlEngine
variable (engine : UrlEngine)

/-- Any number of slashes, the host, and the path. -/
def hosted (scheme : List Char) (p : Pieces) : Option Url :=
  let rest := p.body.dropWhile isSlash
  (engine.authority scheme (rest.takeWhile fun c => !isSlash c)).map fun host =>
    ofPath (scheme ++ "://".toList ++ host) (rest.dropWhile fun c => !isSlash c) p.query p.fragment

/-- `new URL(input)`. -/
def absolute (input : List Char) : Option Url :=
  let p := pieces (clean input)
  match schemeOf p.body with
  | none => none
  | some (scheme, rest) =>
    if special.contains scheme then engine.hosted scheme { p with body := rest }
    else engine.other (clean input)

def twoSlashes : List Char → Bool
  | a :: b :: _ => isSlash a && isSlash b
  | _ => false

/-- `new URL(input, base)` for an input that starts with a slash. -/
def relative (scheme front input : List Char) : Option Url :=
  let p := pieces (clean input)
  if twoSlashes p.body then engine.hosted scheme p
  else some (ofPath front p.body p.query p.fragment)

end UrlEngine

/-- What the URL Standard says of the rest: what is shown is read back. -/
structure UrlEngine.Lawful (engine : UrlEngine) : Prop where
  /-- A host that was read is read again as it is. -/
  authority_again : ∀ {scheme host shown}, engine.authority scheme host = some shown →
    engine.authority scheme shown = some shown
  authority_clean : ∀ {scheme host shown}, engine.authority scheme host = some shown →
    ∀ c ∈ shown, controlOrSpace c = false ∧ isSlash c = false ∧ c ≠ '?' ∧ c ≠ '#'
  /-- A special scheme needs a host. -/
  authority_empty : ∀ scheme, engine.authority scheme [] = none
  /-- Also after the parameters of a URL were written. -/
  other_again : ∀ {text url}, engine.other text = some url →
    ∀ params, engine.absolute (url.setParams params).href = some (url.setParams params)

/-! ### What is shown is read back -/

/-- Segments that reading leaves as they are. -/
def SettledSegment (s : List Char) : Prop :=
  (∀ c ∈ s, isSlash c = false ∧ pathSet c = false) ∧ doubleDot s = false ∧ singleDot s = false

section
variable {path segments : List (List Char)} {s : List Char}

theorem enter_settled (h : SettledSegment s) : enter path s = path ++ [s] := by
  rw [enter, if_neg (by simp [h.2.1]), if_neg (by simp [h.2.2])]

theorem finish_settled (h : SettledSegment s) : finish path s = path ++ [s] := by
  rw [finish, if_neg (by simp [h.2.1]), if_neg (by simp [h.2.2])]

theorem mem_enter {x : List Char} (h : x ∈ enter path s) :
    x ∈ path ∨ x = s ∧ doubleDot s = false ∧ singleDot s = false := by
  unfold enter at h
  split at h
  · exact .inl (List.dropLast_subset _ h)
  · next h2 =>
    split at h
    · exact .inl h
    · next h1 =>
      rcases List.mem_append.mp h with h | h
      · exact .inl h
      · exact .inr ⟨List.mem_singleton.mp h, by simpa using h2, by simpa using h1⟩

theorem mem_finish {x : List Char} (h : x ∈ finish path s) :
    x ∈ path ∨ x = [] ∨ x = s ∧ doubleDot s = false ∧ singleDot s = false := by
  unfold finish at h
  split at h
  · rcases List.mem_append.mp h with h | h
    · exact .inl (List.dropLast_subset _ h)
    · exact .inr (.inl (List.mem_singleton.mp h))
  · next h2 =>
    split at h
    · rcases List.mem_append.mp h with h | h
      · exact .inl h
      · exact .inr (.inl (List.mem_singleton.mp h))
    · next h1 =>
      rcases List.mem_append.mp h with h | h
      · exact .inl h
      · exact .inr (.inr ⟨List.mem_singleton.mp h, by simpa using h2, by simpa using h1⟩)

/-- Settled segments at the end of a path. -/
theorem resolve_append {last : List (List Char)} (hne : last ≠ [])
    (h : ∀ s ∈ last, SettledSegment s) (front : List (List Char)) :
    resolve path (front ++ last) = front.foldl enter path ++ last := by
  induction front generalizing path with
  | nil =>
    rw [List.nil_append, List.foldl_nil]
    induction last generalizing path with
    | nil => exact absurd rfl hne
    | cons s last ih =>
      have hs := h s List.mem_cons_self
      cases last with
      | nil => exact finish_settled hs
      | cons next last =>
        rw [resolve, enter_settled hs, ih (List.cons_ne_nil _ _)
          fun x hx => h x (List.mem_cons_of_mem _ hx), List.append_assoc, List.singleton_append]
  | cons s front ih =>
    obtain ⟨next, rest, hrest⟩ := List.exists_cons_of_ne_nil
      (List.append_ne_nil_of_right_ne_nil front hne)
    rw [List.cons_append, hrest, resolve, ← hrest, ih, List.foldl_cons]

theorem mem_foldl_enter {front : List (List Char)} {x : List Char}
    (h : x ∈ front.foldl enter path) : x ∈ path ∨ x ∈ front := by
  induction front generalizing path with
  | nil => exact .inl h
  | cons s front ih =>
    rcases ih h with h | h
    · rcases mem_enter h with h | ⟨rfl, -⟩
      · exact .inl h
      · exact .inr List.mem_cons_self
    · exact .inr (List.mem_cons_of_mem _ h)

/-- What a segment keeps through the resolution of dots. -/
theorem settled_resolve (hpath : ∀ s ∈ path, SettledSegment s)
    (h : ∀ s ∈ segments, ∀ c ∈ s, isSlash c = false ∧ pathSet c = false) :
    ∀ s ∈ resolve path segments, SettledSegment s := by
  induction segments generalizing path with
  | nil => exact hpath
  | cons s segments ih =>
    have hs := h s List.mem_cons_self
    cases segments with
    | nil =>
      intro x hx
      rcases mem_finish hx with hx | rfl | ⟨rfl, h2, h1⟩
      · exact hpath x hx
      · exact ⟨List.forall_mem_nil _, rfl, rfl⟩
      · exact ⟨hs, h2, h1⟩
    | cons next rest =>
      refine ih (fun x hx => ?_) fun x hx => h x (List.mem_cons_of_mem _ hx)
      rcases mem_enter hx with hx | ⟨rfl, h2, h1⟩
      · exact hpath x hx
      · exact ⟨hs, h2, h1⟩

theorem resolve_ne_nil (h : segments ≠ []) : resolve path segments ≠ [] := by
  induction segments generalizing path with
  | nil => exact absurd rfl h
  | cons s segments ih =>
    cases segments with
    | nil =>
      rw [resolve, finish]
      split_ifs <;> simp
    | cons next rest => exact ih (List.cons_ne_nil _ _)

end

theorem spares_pathSet : Spares pathSet := ⟨by decide, by decide⟩

theorem spares_specialQuerySet : Spares specialQuerySet := ⟨by decide, by decide⟩

theorem spares_fragmentSet : Spares fragmentSet := ⟨by decide, by decide⟩

structure Settled (segments : List (List Char)) : Prop where
  ne_nil : segments ≠ []
  segment : ∀ s ∈ segments, SettledSegment s

theorem settled_readPath (path : List Char) : Settled (readPath path) where
  ne_nil := resolve_ne_nil fun h => splitWhere_ne_nil _ (List.map_eq_nil_iff.mp h)
  segment := by
    refine settled_resolve (fun s hs => by cases hs) fun s hs c hc => ?_
    obtain ⟨t, ht, rfl⟩ := List.mem_map.mp hs
    refine ⟨?_, encodeWith_clean spares_pathSet c hc⟩
    -- an escape has no slash in it
    have hslash : Spares isSlash := ⟨by decide, by decide⟩
    obtain ⟨x, hx, hc⟩ := List.mem_flatMap.mp hc
    split at hc
    · obtain ⟨b, hb, hc⟩ := List.mem_flatMap.mp hc
      rcases mem_percent (utf8_lt x b hb) hc with rfl | ⟨n, rfl⟩
      · exact hslash.1
      · exact hslash.2 n
    · obtain rfl := List.mem_singleton.mp hc
      exact (mem_splitWhere ht c hx).1

theorem readPath_writePath {segments : List (List Char)} (h : Settled segments) :
    readPath (writePath segments) = segments := by
  have hsplit : splitWhere isSlash (joinWith '/' segments) = segments :=
    splitWhere_joinWith h.ne_nil (fun s hs c hc => ((h.segment s hs).1 c hc).1) rfl
  have hencode : segments.map (encodeWith pathSet) = segments := by
    refine (List.map_congr_left fun s hs => ?_).trans (List.map_id _)
    exact encodeWith_eq_self fun c hc => ((h.segment s hs).1 c hc).2
  rw [readPath, writePath, List.drop_one, List.tail_cons, hsplit, hencode]
  exact resolve_append h.ne_nil h.segment []

theorem cut_some {mark : Char} {front : List Char} (h : mark ∉ front) (rest : List Char) :
    cut mark (front ++ mark :: rest) = (front, some rest) := by
  have hne : ∀ c ∈ front, (c != mark) = true := by
    intro c hc
    refine bne_iff_ne.mpr ?_
    rintro rfl
    exact h hc
  rw [cut, List.takeWhile_append_of_pos hne, List.dropWhile_append_of_pos hne]
  simp

theorem cut_none {mark : Char} {cs : List Char} (h : mark ∉ cs) : cut mark cs = (cs, none) := by
  have hne : ∀ c ∈ cs, (c != mark) = true := by
    intro c hc
    refine bne_iff_ne.mpr ?_
    rintro rfl
    exact h hc
  rw [cut, List.takeWhile_eq_self_iff.mpr hne, List.dropWhile_eq_nil_iff.mpr hne]

theorem cut_marked {mark : Char} {front : List Char} (h : mark ∉ front)
    (part : Option (List Char)) : cut mark (front ++ marked mark part) = (front, part) := by
  cases part with
  | none =>
    rw [marked, List.append_nil]
    exact cut_none h
  | some part => exact cut_some h part

/-- A text that is put together from its pieces is taken apart into them. -/
theorem pieces_marked {body : List Char} {query fragment : Option (List Char)}
    (hbody : '?' ∉ body ∧ '#' ∉ body) (hquery : '#' ∉ marked '?' query) :
    pieces (body ++ (marked '?' query ++ marked '#' fragment)) = ⟨body, query, fragment⟩ := by
  have hhash : '#' ∉ body ++ marked '?' query := by
    simp only [List.mem_append, not_or]
    exact ⟨hbody.2, hquery⟩
  rw [pieces, ← List.append_assoc, cut_marked hhash]
  simp only [cut_marked hbody.1]

/-- Nothing of the text is dropped. -/
theorem clean_eq_self {cs : List Char} (h : ∀ c ∈ cs, controlOrSpace c = false) :
    clean cs = cs := by
  have hstart : cs.dropWhile controlOrSpace = cs := by
    cases cs with
    | nil => rfl
    | cons c cs => rw [List.dropWhile_cons_of_neg (by simp [h c List.mem_cons_self])]
  have hend : cs.reverse.dropWhile controlOrSpace = cs.reverse := by
    cases hr : cs.reverse with
    | nil => rfl
    | cons c r =>
      have hc : c ∈ cs := List.mem_reverse.mp (hr ▸ List.mem_cons_self)
      rw [List.dropWhile_cons_of_neg (by simp [h c hc])]
  rw [clean, trimEnd, hstart, hend, List.reverse_reverse]
  refine List.filter_eq_self.mpr fun c hc => ?_
  have hcontrol := h c hc
  simp only [tabOrNewline, Bool.not_eq_true', Bool.or_eq_false_iff, beq_eq_false_iff_ne]
  refine ⟨⟨?_, ?_⟩, ?_⟩ <;> rintro rfl <;> exact absurd hcontrol (by decide)

theorem dropWhile_append_stop {p : Char → Bool} {x : Char} (hx : p x = false)
    (cs rest : List Char) : (cs ++ x :: rest).dropWhile p = cs.dropWhile p ++ x :: rest := by
  induction cs with
  | nil => exact List.dropWhile_cons_of_neg (by simp [hx])
  | cons c cs ih =>
    rw [List.cons_append, List.dropWhile_cons, List.dropWhile_cons, ih]
    split <;> rfl

/-- A graphic character ends what is trimmed. -/
theorem trimEnd_append {x : Char} (hx : controlOrSpace x = false) (front rest : List Char) :
    trimEnd (front ++ x :: rest) = front ++ x :: trimEnd rest := by
  rw [trimEnd, trimEnd, List.reverse_append, List.reverse_cons, List.append_assoc,
    List.singleton_append, dropWhile_append_stop hx, List.reverse_append, List.reverse_cons,
    List.reverse_reverse, List.append_assoc, List.singleton_append]

/-- Of a text between graphic characters and what follows its mark, only the latter may change. -/
theorem clean_marked {mark first last : Char} {body : List Char}
    (hmark : controlOrSpace mark = false)
    (hfirst : body.head? = some first ∧ controlOrSpace first = false)
    (hlast : body.getLast? = some last ∧ controlOrSpace last = false)
    (htabs : ∀ c ∈ body, tabOrNewline c = false) (part : Option (List Char)) :
    ∃ part', clean (body ++ marked mark part) = body ++ marked mark part' := by
  have hstart : (body ++ marked mark part).dropWhile controlOrSpace = body ++ marked mark part := by
    cases body with
    | nil => cases hfirst.1
    | cons c cs =>
      obtain rfl := Option.some.inj hfirst.1
      exact List.dropWhile_cons_of_neg (by simp [hfirst.2])
  have hkeep : body.filter (fun c => !tabOrNewline c) = body :=
    List.filter_eq_self.mpr fun c hc => by simp [htabs c hc]
  rw [clean, hstart]
  cases part with
  | none =>
    obtain ⟨front, hfront⟩ := List.getLast?_eq_some_iff.mp hlast.1
    have htrim : trimEnd body = body := by
      rw [hfront, trimEnd_append hlast.2]
      rfl
    refine ⟨none, ?_⟩
    rw [marked, List.append_nil, htrim, hkeep]
  | some part =>
    have hmark' : tabOrNewline mark = false := by
      simp only [tabOrNewline, Bool.or_eq_false_iff, beq_eq_false_iff_ne]
      refine ⟨⟨?_, ?_⟩, ?_⟩ <;> rintro rfl <;> exact absurd hmark (by decide)
    refine ⟨some ((trimEnd part).filter fun c => !tabOrNewline c), ?_⟩
    rw [marked, trimEnd_append hmark, List.filter_append, hkeep,
      List.filter_cons_of_pos (by simp [hmark'])]
    rfl

theorem graphic {c : Char} (h : controlSet c = false) (hspace : c ≠ ' ') :
    controlOrSpace c = false := by
  simp only [controlSet, Bool.or_eq_false_iff, decide_eq_false_iff_not] at h
  refine decide_eq_false fun hle => hspace ?_
  exact Char.toNat_inj.mp (show c.toNat = 0x20 by omega)

theorem graphic_querySet {c : Char} (h : querySet c = false) :
    controlOrSpace c = false ∧ c ≠ '#' := by
  obtain ⟨hcontrol, hset⟩ := Bool.or_eq_false_iff.mp h
  constructor
  · refine graphic hcontrol ?_
    rintro rfl
    exact absurd hset (by decide)
  · rintro rfl
    exact absurd hset (by decide)

theorem graphic_pathSet {c : Char} (h : pathSet c = false) :
    controlOrSpace c = false ∧ c ≠ '#' ∧ c ≠ '?' := by
  obtain ⟨hquery, hset⟩ := Bool.or_eq_false_iff.mp h
  refine ⟨(graphic_querySet hquery).1, (graphic_querySet hquery).2, ?_⟩
  rintro rfl
  exact absurd hset (by decide)

theorem graphic_specialQuerySet {c : Char} (h : specialQuerySet c = false) :
    controlOrSpace c = false ∧ c ≠ '#' :=
  graphic_querySet (Bool.or_eq_false_iff.mp h).1

theorem graphic_fragmentSet {c : Char} (h : fragmentSet c = false) :
    controlOrSpace c = false := by
  obtain ⟨hcontrol, hset⟩ := Bool.or_eq_false_iff.mp h
  refine graphic hcontrol ?_
  rintro rfl
  exact absurd hset (by decide)

/-- A URL of a special scheme as the parser leaves it. -/
structure Url.Canonical (url : Url) : Prop where
  path : ∃ segments, Settled segments ∧ url.pathname = writePath segments
  query : ∀ q, url.query = some q → ∀ c ∈ q, specialQuerySet c = false
  fragment : ∀ f, url.fragment = some f → ∀ c ∈ f, fragmentSet c = false

theorem canonical_ofPath (front path : List Char) (query fragment : Option (List Char)) :
    (ofPath front path query fragment).Canonical where
  path := ⟨_, settled_readPath path, rfl⟩
  query q hq := by
    obtain ⟨t, -, rfl⟩ := Option.map_eq_some_iff.mp hq
    exact encodeWith_clean spares_specialQuerySet
  fragment f hf := by
    obtain ⟨t, -, rfl⟩ := Option.map_eq_some_iff.mp hf
    exact encodeWith_clean spares_fragmentSet

theorem nonEmpty_eq_some {part : Option (List Char)} {cs : List Char}
    (h : nonEmpty part = some cs) :
    part = some cs := (Option.filter_eq_some_iff.mp h).1

theorem nonEmpty_nonEmpty (part : Option (List Char)) :
    nonEmpty (nonEmpty part) = nonEmpty part := by
  cases part with
  | none => rfl
  | some cs => cases cs <;> rfl

theorem specialQuerySet_serializeParams {params : Params} :
    ∀ c ∈ serializeParams params, specialQuerySet c = false := by
  intro c hc
  have hchar := mem_serializeParams c hc
  have hrange : 0x20 < c.toNat ∧ c.toNat ≤ 0x7E := by
    rcases hchar with h | rfl | rfl
    · exact formChar_ascii h
    · decide
    · decide
  have hall : " \"#<>'".toList.all fun c => !formChar c && c != '=' && c != '&' := by decide
  have hnot : " \"#<>'".toList.contains c = false := by
    refine Bool.eq_false_iff.mpr fun hmem => ?_
    have := List.all_eq_true.mp hall c (List.contains_iff_mem.mp hmem)
    rcases hchar with h | rfl | rfl <;> simp_all
  have hcontrol : controlSet c = false := by
    simp only [controlSet, Bool.or_eq_false_iff, decide_eq_false_iff_not]
    omega
  simp only [specialQuerySet, querySet, hcontrol, Bool.false_or]
  simpa [and_assoc] using hnot

theorem Url.Canonical.setParams {url : Url} (h : url.Canonical) (params : Params) :
    (url.setParams params).Canonical where
  path := h.path
  query q hq := by
    obtain rfl := Option.some.inj (nonEmpty_eq_some hq)
    exact fun c hc => specialQuerySet_serializeParams c hc
  fragment := h.fragment

theorem Url.Canonical.pathname_clean {url : Url} (h : url.Canonical) :
    ∀ c ∈ url.pathname, controlOrSpace c = false ∧ c ≠ '#' ∧ c ≠ '?' := by
  obtain ⟨segments, hs, hpath⟩ := h.path
  rw [hpath]
  intro c hc
  rcases List.mem_cons.mp hc with rfl | hc
  · decide
  · rcases mem_joinWith hc with rfl | ⟨s, hmem, hc⟩
    · decide
    · exact graphic_pathSet ((hs.segment s hmem).1 c hc).2

theorem Url.Canonical.query_clean {url : Url} (h : url.Canonical) :
    ∀ c ∈ marked '?' url.query, controlOrSpace c = false ∧ c ≠ '#' := by
  cases hq : url.query with
  | none => exact List.forall_mem_nil _
  | some q =>
    intro c hc
    rcases List.mem_cons.mp hc with rfl | hc
    · decide
    · exact graphic_specialQuerySet (h.query q hq c hc)

theorem Url.Canonical.fragment_clean {url : Url} (h : url.Canonical) :
    ∀ c ∈ marked '#' url.fragment, controlOrSpace c = false := by
  cases hf : url.fragment with
  | none => exact List.forall_mem_nil _
  | some f =>
    intro c hc
    rcases List.mem_cons.mp hc with rfl | hc
    · decide
    · exact graphic_fragmentSet (h.fragment f hf c hc)

/-- The URL without an empty query and an empty fragment. -/
def Url.shown (url : Url) : Url :=
  { url with query := nonEmpty url.query, fragment := nonEmpty url.fragment }

theorem Url.Canonical.shown {url : Url} (h : url.Canonical) : url.shown.Canonical where
  path := h.path
  query q hq := h.query q (nonEmpty_eq_some hq)
  fragment f hf := h.fragment f (nonEmpty_eq_some hf)

/-- A text in front, and the parts of a canonical URL after it. -/
theorem Url.Canonical.pieces_clean {url : Url} (h : url.Canonical) (front : List Char)
    (hfront : ∀ c ∈ front, controlOrSpace c = false ∧ c ≠ '#' ∧ c ≠ '?') :
    clean (front ++ (url.pathname ++ (marked '?' url.query ++ marked '#' url.fragment))) =
        front ++ (url.pathname ++ (marked '?' url.query ++ marked '#' url.fragment)) ∧
      pieces (front ++ (url.pathname ++ (marked '?' url.query ++ marked '#' url.fragment))) =
        ⟨front ++ url.pathname, url.query, url.fragment⟩ := by
  have hbody : ∀ c ∈ front ++ url.pathname, controlOrSpace c = false ∧ c ≠ '#' ∧ c ≠ '?' :=
    fun c hc => (List.mem_append.mp hc).elim (hfront c) (h.pathname_clean c)
  constructor
  · refine clean_eq_self fun c hc => ?_
    rw [← List.append_assoc] at hc
    rcases List.mem_append.mp hc with hc | hc
    · exact (hbody c hc).1
    · rcases List.mem_append.mp hc with hc | hc
      · exact (h.query_clean c hc).1
      · exact h.fragment_clean c hc
  · rw [← List.append_assoc]
    exact pieces_marked ⟨fun hc => (hbody _ hc).2.2 rfl, fun hc => (hbody _ hc).2.1 rfl⟩
      fun hc => (h.query_clean _ hc).2 rfl

/-- Reading the parts of a canonical URL gives them back. -/
theorem Url.Canonical.ofPath {url : Url} (h : url.Canonical) (front : List Char) :
    Text.ofPath front url.pathname url.query url.fragment = { url with front := front } := by
  obtain ⟨segments, hs, hpath⟩ := h.path
  have hquery : url.query.map (encodeWith specialQuerySet) = url.query := by
    cases hq : url.query with
    | none => rfl
    | some q => exact congrArg some (encodeWith_eq_self (h.query q hq))
  have hfragment : url.fragment.map (encodeWith fragmentSet) = url.fragment := by
    cases hf : url.fragment with
    | none => rfl
    | some f => exact congrArg some (encodeWith_eq_self (h.fragment f hf))
  rw [Text.ofPath, hpath, readPath_writePath hs, ← hpath, hquery, hfragment]

theorem schemeOf_special {scheme : List Char} (h : scheme ∈ special) (rest : List Char) :
    schemeOf (scheme ++ ':' :: rest) = some (scheme, rest) := by
  have hall : special.all fun scheme => !scheme.contains ':' &&
      match scheme with
      | [] => false
      | c :: cs => c.isAlpha && cs.all schemeChar && lowercase (c :: cs) == scheme := by decide
  have hscheme := List.all_eq_true.mp hall scheme h
  cases scheme with
  | nil => simp at hscheme
  | cons c cs =>
    simp only [Bool.and_eq_true, Bool.not_eq_true', beq_iff_eq] at hscheme
    have hcolon : ':' ∉ c :: cs := by simpa using hscheme.1
    rw [schemeOf, cut_some hcolon]
    simp [hscheme.2]

theorem schemeOf_slash (cs : List Char) : schemeOf ('/' :: cs) = none := by
  have hcut : ∃ t rest, cut ':' ('/' :: cs) = ('/' :: t, rest) :=
    ⟨_, _, by rw [cut, List.takeWhile_cons_of_pos (by decide)]⟩
  obtain ⟨t, rest, hcut⟩ := hcut
  rw [schemeOf, hcut]
  cases rest with
  | none => rfl
  | some rest => exact if_neg (by simp [show '/'.isAlpha = false from by decide])

namespace UrlEngine
variable {engine : UrlEngine}

theorem isSlash_slashes : ∀ c ∈ "//".toList, isSlash c = true := List.all_eq_true.mp (by decide)

/-- The host stands between the slashes and the path. -/
theorem hosted_eq {scheme host shown slashes : List Char} {p : Pieces} {pathname : List Char}
    (hslashes : ∀ c ∈ slashes, isSlash c = true) (hne : host ≠ [])
    (hhost : ∀ c ∈ host, isSlash c = false) (hpath : ∀ c ∈ pathname.head?, isSlash c = true)
    (hbody : p.body = slashes ++ (host ++ pathname))
    (h : engine.authority scheme host = some shown) :
    engine.hosted scheme p =
      some (ofPath (scheme ++ "://".toList ++ shown) pathname p.query p.fragment) := by
  have hrest : (slashes ++ (host ++ pathname)).dropWhile isSlash = host ++ pathname := by
    rw [List.dropWhile_append_of_pos hslashes]
    obtain ⟨c, cs, rfl⟩ := List.exists_cons_of_ne_nil hne
    exact List.dropWhile_cons_of_neg (by simp [hhost c List.mem_cons_self])
  have hkeep : ∀ c ∈ host, (!isSlash c) = true := fun c hc => by simp [hhost c hc]
  have htake : (host ++ pathname).takeWhile (fun c => !isSlash c) = host := by
    rw [List.takeWhile_append_of_pos hkeep]
    cases pathname with
    | nil => simp
    | cons c cs => rw [List.takeWhile_cons_of_neg (by simp [hpath c rfl]), List.append_nil]
  have hdrop : (host ++ pathname).dropWhile (fun c => !isSlash c) = pathname := by
    rw [List.dropWhile_append_of_pos hkeep]
    cases pathname with
    | nil => rfl
    | cons c cs => exact List.dropWhile_cons_of_neg (by simp [hpath c rfl])
  simp only [hosted, hbody, hrest, htake, hdrop, h, Option.map_some]

/-- A URL of a special scheme is read from its own `href`. -/
theorem absolute_href (hE : engine.Lawful) {scheme host shown : List Char} {url : Url}
    (hscheme : scheme ∈ special) (hhost : engine.authority scheme host = some shown)
    (h : url.Canonical) (hfront : url.front = scheme ++ "://".toList ++ shown) :
    engine.absolute url.href = some url := by
  have hshown := hE.authority_clean hhost
  have hne : shown ≠ [] := by
    rintro rfl
    have := hE.authority_again hhost
    rw [hE.authority_empty] at this
    cases this
  have hclean : ∀ c ∈ url.front, controlOrSpace c = false ∧ c ≠ '#' ∧ c ≠ '?' := by
    have hspecial : special.all fun scheme => scheme.all fun c =>
      !controlOrSpace c && c != '#' && c != '?' := by decide
    have hmarks : "://".toList.all fun c => !controlOrSpace c && c != '#' && c != '?' := by decide
    rw [hfront]
    intro c hc
    rcases List.mem_append.mp hc with hc | hc
    · rcases List.mem_append.mp hc with hc | hc
      · simpa [and_assoc] using List.all_eq_true.mp (List.all_eq_true.mp hspecial scheme hscheme) c
          hc
      · simpa [and_assoc] using List.all_eq_true.mp hmarks c hc
    · exact ⟨(hshown c hc).1, (hshown c hc).2.2.2, (hshown c hc).2.2.1⟩
  obtain ⟨hkeep, hpieces⟩ := h.pieces_clean _ hclean
  have hscheme' : schemeOf (url.front ++ url.pathname) =
      some (scheme, "//".toList ++ (shown ++ url.pathname)) := by
    rw [hfront]
    simpa using schemeOf_special hscheme ("//".toList ++ (shown ++ url.pathname))
  have hpath : ∀ c ∈ url.pathname.head?, isSlash c = true := by
    obtain ⟨segments, -, hp⟩ := h.path
    rw [hp]
    intro c hc
    obtain rfl := Option.some.inj hc
    rfl
  rw [absolute, Url.href, hkeep, hpieces]
  simp only [hscheme', List.contains_iff_mem.mpr hscheme, if_true]
  rw [hosted_eq isSlash_slashes hne (fun c hc => (hshown c hc).2.1) hpath rfl
    (hE.authority_again hhost)]
  simp only [h.ofPath]
  rw [← hfront]

theorem canonical_hosted {scheme : List Char} {p : Pieces} {url : Url}
    (h : engine.hosted scheme p = some url) : url.Canonical ∧ ∃ host shown,
      engine.authority scheme host = some shown ∧ url.front = scheme ++ "://".toList ++ shown := by
  obtain ⟨shown, hshown, rfl⟩ := Option.map_eq_some_iff.mp h
  exact ⟨canonical_ofPath _ _ _ _, _, shown, hshown, rfl⟩

theorem canonical_relative {scheme front input : List Char} {url : Url}
    (h : engine.relative scheme front input = some url) : url.Canonical := by
  unfold relative at h
  simp only at h
  split at h
  · exact (canonical_hosted h).1
  · obtain rfl := Option.some.inj h
    exact canonical_ofPath _ _ _ _

/-- An absolute URL is read from its `href`, also after its parameters were written. -/
theorem absolute_setParams (hE : engine.Lawful) {input : List Char} {url : Url}
    (h : engine.absolute input = some url) (params : Params) :
    engine.absolute (url.setParams params).href = some (url.setParams params) := by
  unfold absolute at h
  simp only at h
  split at h
  · cases h
  · next scheme rest hscheme =>
    split at h
    · next hspecial =>
      obtain ⟨hcanonical, host, shown, hhost, hfront⟩ := canonical_hosted h
      exact absolute_href hE (List.contains_iff_mem.mp hspecial) hhost (hcanonical.setParams params)
        hfront
    · exact hE.other_again h params

theorem resource_eq (url : Url) : url.resource =
    [] ++ (url.shown.pathname ++ (marked '?' url.shown.query ++ marked '#' url.shown.fragment)) :=
  rfl

/-- A path names no scheme. -/
theorem absolute_resource {url : Url} (h : url.Canonical) :
    engine.absolute url.resource = none := by
  obtain ⟨hkeep, hpieces⟩ := h.shown.pieces_clean [] (List.forall_mem_nil _)
  have hscheme : schemeOf url.shown.pathname = none := by
    obtain ⟨segments, -, hpath⟩ := h.path
    exact (congrArg schemeOf hpath).trans (schemeOf_slash _)
  rw [absolute, resource_eq, hkeep, hpieces, List.nil_append, hscheme]

/-- The path that is left of a path where a first name behind two slashes is read as a host. -/
def reread (engine : UrlEngine) (scheme pathname : List Char) : Option (List Char) :=
  if twoSlashes pathname then
    let rest := pathname.dropWhile isSlash
    (engine.authority scheme (rest.takeWhile fun c => !isSlash c)).map fun _ =>
      writePath (readPath (rest.dropWhile fun c => !isSlash c))
  else some pathname

/-- A resource is read against a base: its path may change, its query and its fragment may not. -/
theorem relative_resource {url : Url} (h : url.Canonical) {scheme path : List Char}
    (hpath : engine.reread scheme url.pathname = some path) (front : List Char) :
    ∃ read, engine.relative scheme front url.resource = some read ∧ read.pathname = path ∧
      read.query = nonEmpty url.query ∧ read.fragment = nonEmpty url.fragment := by
  obtain ⟨hkeep, hpieces⟩ := h.shown.pieces_clean [] (List.forall_mem_nil _)
  have hquery : (nonEmpty url.query).map (encodeWith specialQuerySet) = nonEmpty url.query :=
    congrArg Url.query (h.shown.ofPath [])
  have hfragment : (nonEmpty url.fragment).map (encodeWith fragmentSet) = nonEmpty url.fragment :=
    congrArg Url.fragment (h.shown.ofPath [])
  rw [relative, resource_eq, hkeep, hpieces, List.nil_append]
  unfold reread at hpath
  by_cases htwo : twoSlashes url.pathname = true
  · rw [if_pos htwo] at hpath
    obtain ⟨shown, hshown, rfl⟩ := Option.map_eq_some_iff.mp hpath
    refine ⟨_, (if_pos htwo).trans (Option.map_eq_some_iff.mpr ⟨shown, hshown, rfl⟩), rfl, ?_, ?_⟩
    · exact hquery
    · exact hfragment
  · rw [if_neg htwo] at hpath
    obtain rfl := Option.some.inj hpath
    have hsame := congrArg Url.pathname (h.shown.ofPath front)
    exact ⟨_, if_neg htwo, hsame, hquery, hfragment⟩

theorem relative_resource_none {url : Url} (h : url.Canonical) {scheme : List Char}
    (hpath : engine.reread scheme url.pathname = none) (front : List Char) :
    engine.relative scheme front url.resource = none := by
  obtain ⟨hkeep, hpieces⟩ := h.shown.pieces_clean [] (List.forall_mem_nil _)
  rw [relative, resource_eq, hkeep, hpieces, List.nil_append]
  unfold reread at hpath
  by_cases htwo : twoSlashes url.pathname = true
  · rw [if_pos htwo, Option.map_eq_none_iff] at hpath
    exact (if_pos htwo).trans (Option.map_eq_none_iff.mpr hpath)
  · rw [if_neg htwo] at hpath
    cases hpath

end UrlEngine

theorem Url.searchParams_setParams (url : Url) (params : Params) :
    (url.setParams params).searchParams = params := by
  have hget : ((url.setParams params).query).getD [] = serializeParams params := by
    unfold Url.setParams nonEmpty
    cases hs : serializeParams params <;> rfl
  rw [Url.searchParams, hget, parseParams_serializeParams]

theorem getD_nonEmpty (part : Option (List Char)) : (nonEmpty part).getD [] = part.getD [] := by
  cases part with
  | none => rfl
  | some cs => cases cs <;> rfl

end Text
