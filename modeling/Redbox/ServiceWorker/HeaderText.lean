import Redbox.ServiceWorker.ContentDisposition

/-! The header that names a download: what a client reads back from it. -/
namespace Redbox

namespace JsString

/-- The code units of a text. -/
def ofString (s : String) : JsString := s.toList.flatMap fun c => units c.toNat

theorem toNat_ofNat {c : Nat} (h : isScalar c = true) : (Char.ofNat c).toNat = c := by
  simp only [isScalar, Bool.or_eq_true, Bool.and_eq_true, decide_eq_true_eq] at h
  have hv : c.isValidChar := by
    unfold Nat.isValidChar
    omega
  rw [Char.ofNat, dif_pos hv]
  rfl

theorem ofString_scalars {cs : List Nat} (h : ∀ c ∈ cs, isScalar c = true) :
    ofString (String.ofList (cs.map Char.ofNat)) = cs.flatMap units := by
  induction cs with
  | nil => rfl
  | cons c cs ih =>
    have hc := ih fun c hc => h c (List.mem_cons_of_mem _ hc)
    rw [ofString, String.toList_ofList] at hc ⊢
    rw [List.map_cons, List.flatMap_cons, List.flatMap_cons, hc,
      toNat_ofNat (h c List.mem_cons_self)]

/-- The last unit is that of a code point, or the second half of one. -/
theorem getLast_units {cs : List Nat} (h : ∀ c ∈ cs, isScalar c = true) {u : UInt16}
    (hu : (cs.flatMap units).getLast? = some u) :
    ∃ c, cs.getLast? = some c ∧ (u.toNat = c ∨ 0xDC00 ≤ u.toNat) := by
  rcases cs.eq_nil_or_concat with rfl | ⟨init, c, rfl⟩
  · cases hu
  · refine ⟨c, by simp, ?_⟩
    have hc := h c (by simp)
    simp only [isScalar, Bool.or_eq_true, Bool.and_eq_true, decide_eq_true_eq] at hc
    rw [List.concat_eq_append, List.flatMap_append, List.flatMap_singleton] at hu
    unfold units at hu
    split at hu
    · rw [List.getLast?_concat, Option.some.injEq] at hu
      subst hu
      left
      simp
      omega
    · rw [List.append_cons, List.getLast?_concat, Option.some.injEq] at hu
      subst hu
      right
      simp
      omega

end JsString

namespace DownloadWorker
open JsString

/-- What `sanitizeFileName` keeps of a name that was accepted, as code points. -/
structure Kept (cs : List Nat) : Prop where
  ne_nil : cs ≠ []
  valid : ∀ c ∈ cs, isInvalid c = false ∧ isScalar c = true
  last : ∀ c, cs.getLast? = some c → c ≠ 0x2E ∧ c ≠ 0x20

theorem scalar_of_valid {c : Nat} (hlt : c < 0x110000) (h : isInvalid c = false) :
    isScalar c = true := by
  simp only [isInvalid, Bool.or_eq_false_iff, Bool.and_eq_false_iff, decide_eq_false_iff_not] at h
  simp only [isScalar, Bool.or_eq_true, Bool.and_eq_true, decide_eq_true_eq]
  omega

theorem trimEnd_last {cs : List Nat} {c : Nat} (h : (trimEnd cs).getLast? = some c) :
    c ≠ 0x2E ∧ c ≠ 0x20 := by
  rw [trimEnd, List.getLast?_reverse] at h
  have hc := List.head?_dropWhile_not (fun c => c == 0x2E || c == 0x20) cs.reverse
  rw [h] at hc
  simpa [not_or] using hc

theorem sanitizeFileName_eq {fileName : JsString} (h : fileName.length ≤ 100) :
    ∃ cs, Kept cs ∧ sanitizeFileName fileName = cs.flatMap units ∧
      (cs.flatMap units).length ≤ 100 := by
  set safe := fileName.codePoints.map fun c => if isInvalid c then underscore else c with hsafe
  have hvalid : ∀ c ∈ safe, isInvalid c = false ∧ isScalar c = true := by
    intro c hc
    obtain ⟨x, hx, rfl⟩ := List.mem_map.mp hc
    split
    · decide
    · next hi =>
      have hi := Bool.eq_false_iff.mpr hi
      exact ⟨hi, scalar_of_valid (codePoints_lt hx) hi⟩
  obtain ⟨rest, hrest⟩ := trimEnd_prefix safe
  have hlength : ((trimEnd safe).flatMap units).length ≤ 100 := by
    have hle := length_replaced isInvalid fileName.codePoints
    rw [← hsafe, ← hrest, List.flatMap_append, List.length_append, length_codePoints] at hle
    omega
  rw [sanitizeFileName, ← hsafe, List.take_of_length_le hlength]
  by_cases hnil : trimEnd safe = []
  · refine ⟨"download".toList.map Char.toNat, ⟨by decide, by decide, by decide⟩, ?_,
      by decide⟩
    rw [hnil]
    decide
  · refine ⟨trimEnd safe, ⟨hnil, fun c hc => hvalid c ?_, fun c hc => trimEnd_last hc⟩, ?_, hlength⟩
    · rw [← hrest]
      exact List.mem_append_left _ hc
    · obtain ⟨c, cs, hcs⟩ := List.exists_cons_of_ne_nil hnil
      have hpos := (length_units c).1
      have hne : (trimEnd safe).flatMap units ≠ [] := by
        intro he
        have := congrArg List.length he
        rw [hcs, List.flatMap_cons, List.length_append, List.length_nil] at this
        omega
      rw [if_neg hne]

/-- The characters of an extended value: those that stand for themselves and the percent sign. -/
def attrChar (c : Char) : Bool := c.isAlphanum || "-_.!~%".toList.contains c

theorem attrChar_printable {c : Char} (h : attrChar c = true) :
    0x20 ≤ c.toNat ∧ c.toNat ≤ 0x7E ∧ c ≠ '"' := by
  rcases Bool.or_eq_true _ _ ▸ h with h | h
  · have hrange := Text.alphanum_range h
    refine ⟨by omega, by omega, ?_⟩
    rintro rfl
    exact absurd hrange.1 (by decide)
  · have hall : "-_.!~%".toList.all fun c => 0x20 ≤ c.toNat ∧ c.toNat ≤ 0x7E ∧ c ≠ '"' := by
      decide
    simpa using List.all_eq_true.mp hall c (List.contains_iff_mem.mp h)

theorem attrChar_percent {b : Nat} (hb : b < 256) {c : Char} (h : c ∈ Text.percent b) :
    attrChar c = true ∧ escapeRest c = [c] := by
  have hdigit : ∀ n : Fin 16, attrChar (Text.hexDigit n) = true ∧
      escapeRest (Text.hexDigit n) = [Text.hexDigit n] := by decide
  rcases Text.mem_percent hb h with rfl | ⟨n, rfl⟩
  · decide
  · exact hdigit n

/-- What stands in the header for a character of the name. -/
def escapeChar (c : Char) : List Char := (Text.encodeChar c).flatMap escapeRest

theorem escapeChar_cases (c : Char) : (c ≠ '%' ∧ escapeChar c = [c] ∧ attrChar c = true) ∨
    escapeChar c = (Text.utf8 c.toNat).flatMap Text.percent := by
  unfold escapeChar Text.encodeChar
  split
  · next h =>
    rw [List.flatMap_singleton]
    by_cases hr : c ∈ "'()*".toList
    · have hall : "'()*".toList.all fun c =>
          escapeRest c = (Text.utf8 c.toNat).flatMap Text.percent := by decide
      exact .inr (of_decide_eq_true (List.all_eq_true.mp hall c hr))
    · refine .inl ⟨?_, if_neg hr, ?_⟩
      · rintro rfl
        exact absurd h (by decide)
      · rcases Bool.or_eq_true _ _ ▸ h with h | h
        · simp [attrChar, h]
        · have hall : "-_.!~*'()".toList.all fun c => c ∈ "'()*".toList ∨ attrChar c = true := by
            decide
          have := of_decide_eq_true (List.all_eq_true.mp hall c (List.contains_iff_mem.mp h))
          exact this.resolve_left hr
  · right
    have hself : ∀ x ∈ (Text.utf8 c.toNat).flatMap Text.percent, escapeRest x = [x] := by
      intro x hx
      obtain ⟨b, hb, hx⟩ := List.mem_flatMap.mp hx
      exact (attrChar_percent (Text.utf8_lt c b hb) hx).2
    rw [List.flatMap_congr hself, List.flatMap_singleton']

theorem escapes_escapeChar : Text.Escapes escapeChar :=
  fun c => (escapeChar_cases c).imp_left fun h => ⟨h.1, h.2.1⟩

theorem attrChar_escapeChar (c : Char) : ∀ x ∈ escapeChar c, attrChar x = true := by
  intro x hx
  rcases escapeChar_cases c with ⟨_, he, hc⟩ | he
  · rw [he, List.mem_singleton] at hx
    rwa [hx]
  · rw [he] at hx
    obtain ⟨b, hb, hx⟩ := List.mem_flatMap.mp hx
    exact (attrChar_percent (Text.utf8_lt c b hb) hx).1

/-- A code point below the space or the delete character. -/
def asciiControl (c : Nat) : Prop := c < 0x20 ∨ c = 0x7F

/-- The general category `Cc`. -/
def unicodeControl (c : Nat) : Prop := c < 0x20 ∨ 0x7F ≤ c ∧ c ≤ 0x9F

/-- Embeddings, overrides and isolates of the bidirectional algorithm. -/
def bidiOverride (c : Nat) : Prop := 0x202A ≤ c ∧ c ≤ 0x202E ∨ 0x2066 ≤ c ∧ c ≤ 0x2069

structure SafeName (control : Nat → Prop) (name : JsString) : Prop where
  nonempty : name ≠ []
  length : name.length ≤ 100
  scalar : ∀ c ∈ name.codePoints, isScalar c = true
  noSeparator : ∀ c ∈ name.codePoints, c ≠ '/'.toNat ∧ c ≠ '\\'.toNat
  noControl : ∀ c ∈ name.codePoints, ¬ control c
  noOverride : ∀ c ∈ name.codePoints, ¬ bidiOverride c
  lastUnit : ∀ u, name.getLast? = some u → u.toNat ≠ '.'.toNat ∧ u.toNat ≠ ' '.toNat

/-- Printable text in which the only quotes are those around `filename`, and in which the extended
value is written in its own characters and reads as the name. -/
structure WellFormed (name : JsString) (header : String) : Prop where
  printable : ∀ c ∈ header.toList, 0x20 ≤ c.toNat ∧ c.toNat ≤ 0x7E
  quotes : header.toList.count '"' = 2
  values : ∃ asciiName encodedName : String,
    header = "attachment; filename=\"" ++ asciiName ++ "\"; filename*=UTF-8''" ++ encodedName ∧
    '"' ∉ asciiName.toList ∧ (∀ c ∈ encodedName.toList, attrChar c = true) ∧
    (Text.decodeURIComponent encodedName).map ofString = some name

/-- The header can be built, it is well formed, and the name in it is safe. -/
def SafeHeader (control : Nat → Prop) (fileName : JsString) : Prop :=
  (∃ header, contentDisposition fileName = some header ∧
    WellFormed (sanitizeFileName fileName) header) ∧
  SafeName control (sanitizeFileName fileName)

theorem Kept.safeName {cs : List Nat} (h : Kept cs) (hlength : (cs.flatMap units).length ≤ 100) :
    SafeName asciiControl (cs.flatMap units) := by
  have hscalar := fun c hc => (h.valid c hc).2
  have hcodes := codePoints_units hscalar
  have hinvalid : ∀ c ∈ cs, isInvalid c = false := fun c hc => (h.valid c hc).1
  constructor
  · intro he
    rw [he] at hcodes
    exact h.ne_nil hcodes.symm
  · exact hlength
  · rwa [hcodes]
  · rw [hcodes]
    intro c hc
    constructor <;> rintro rfl <;> exact absurd (hinvalid _ hc) (by decide)
  · rw [hcodes]
    intro c hc
    have := hinvalid c hc
    simp only [isInvalid, Bool.or_eq_false_iff, decide_eq_false_iff_not] at this
    unfold asciiControl
    omega
  · rw [hcodes]
    intro c hc
    have := hinvalid c hc
    simp only [isInvalid, Bool.or_eq_false_iff, Bool.and_eq_false_iff,
      decide_eq_false_iff_not] at this
    unfold bidiOverride
    omega
  · intro u hu
    obtain ⟨c, hc, hcu⟩ := getLast_units hscalar hu
    have hlast := h.last c hc
    have hdot : '.'.toNat = 0x2E := rfl
    have hspace : ' '.toNat = 0x20 := rfl
    omega

theorem asciiChar_printable (c : Nat) :
    0x20 ≤ (asciiChar c).toNat ∧ (asciiChar c).toNat ≤ 0x7E ∧ asciiChar c ≠ '"' := by
  unfold asciiChar
  split
  · next h =>
    have hv : (Char.ofNat c).toNat = c := toNat_ofNat (by simp [isScalar]; omega)
    refine ⟨by omega, by omega, ?_⟩
    intro he
    rw [he] at hv
    rw [← hv] at h
    exact absurd h (by decide)
  · decide

theorem count_quote_zero {s : String} (h : '"' ∉ s.toList) : s.toList.count '"' = 0 :=
  List.count_eq_zero.mpr h

/-- Two values without quotes make a header with two of them. -/
theorem wellFormed_of_values {name : JsString} {asciiName encodedName : String}
    (hascii : ∀ c ∈ asciiName.toList, 0x20 ≤ c.toNat ∧ c.toNat ≤ 0x7E ∧ c ≠ '"')
    (hattr : ∀ c ∈ encodedName.toList, attrChar c = true)
    (hname : (Text.decodeURIComponent encodedName).map ofString = some name) :
    WellFormed name ("attachment; filename=\"" ++ asciiName ++ "\"; filename*=UTF-8''" ++
      encodedName) := by
  have hquote : '"' ∉ asciiName.toList := fun h => (hascii _ h).2.2 rfl
  have hquote' : '"' ∉ encodedName.toList := fun h => (attrChar_printable (hattr _ h)).2.2 rfl
  have hstart : "attachment; filename=\"".toList.all fun c => 0x20 ≤ c.toNat ∧ c.toNat ≤ 0x7E := by
    decide
  have hmiddle : "\"; filename*=UTF-8''".toList.all fun c => 0x20 ≤ c.toNat ∧ c.toNat ≤ 0x7E := by
    decide
  constructor
  · intro c hc
    simp only [String.toList_append, List.mem_append] at hc
    rcases hc with ((hc | hc) | hc) | hc
    · exact of_decide_eq_true (List.all_eq_true.mp hstart c hc)
    · exact ⟨(hascii c hc).1, (hascii c hc).2.1⟩
    · exact of_decide_eq_true (List.all_eq_true.mp hmiddle c hc)
    · exact ⟨(attrChar_printable (hattr c hc)).1, (attrChar_printable (hattr c hc)).2.1⟩
  · have hcounts : "attachment; filename=\"".toList.count '"' = 1 ∧
        "\"; filename*=UTF-8''".toList.count '"' = 1 := by decide
    simp only [String.toList_append, List.count_append, count_quote_zero hquote,
      count_quote_zero hquote', hcounts.1, hcounts.2]
  · exact ⟨asciiName, encodedName, rfl, hquote, hattr, hname⟩

/-- Every name that a message may have gives a safe header. -/
theorem contentDisposition_safe (fileName : JsString) (h : fileName.length ≤ 100) :
    SafeHeader asciiControl fileName := by
  obtain ⟨cs, hk, hname, hlength⟩ := sanitizeFileName_eq h
  have hscalar := fun c hc => (hk.valid c hc).2
  have hcodes := codePoints_units hscalar
  refine ⟨?_, hname ▸ hk.safeName hlength⟩
  have hne : String.ofList (cs.map asciiChar) ≠ "" := by
    intro he
    have := congrArg String.toList he
    rw [String.toList_ofList] at this
    exact hk.ne_nil (List.map_eq_nil_iff.mp this)
  have hencode : JsString.encodeURIComponent (cs.flatMap units) =
      some (Text.encodeURIComponent (String.ofList (cs.map Char.ofNat))) := by
    rw [JsString.encodeURIComponent, hcodes, if_pos (List.all_eq_true.mpr hscalar)]
  have hescape : ((Text.encodeURIComponent (String.ofList (cs.map Char.ofNat))).toList.flatMap
      escapeRest) = (cs.map Char.ofNat).flatMap escapeChar := by
    rw [Text.encodeURIComponent, String.toList_ofList, String.toList_ofList, List.flatMap_assoc]
    rfl
  rw [contentDisposition, hname, hcodes, hencode, Option.map_some, if_neg hne, hescape]
  refine ⟨_, rfl, wellFormed_of_values ?_ ?_ ?_⟩
  · rw [String.toList_ofList]
    intro c hc
    obtain ⟨x, _, rfl⟩ := List.mem_map.mp hc
    exact asciiChar_printable x
  · rw [String.toList_ofList]
    intro c hc
    obtain ⟨x, _, hx⟩ := List.mem_flatMap.mp hc
    exact attrChar_escapeChar x c hx
  · rw [escapes_escapeChar.decode, Option.map_some, ofString_scalars hscalar]

/-- A lone surrogate, the override to the left, a slash and a dot at the end. -/
theorem contentDisposition_safe_hostile :
    SafeHeader asciiControl [0xD800, 0x202E, 0x2F, 0x61, 0x2E] ∧
      contentDisposition [0xD800, 0x202E, 0x2F, 0x61, 0x2E] =
        some "attachment; filename=\"___a\"; filename*=UTF-8''___a" :=
  ⟨contentDisposition_safe _ (by decide), by decide +kernel⟩

/-- The next line, a control character beyond ASCII, stays in the name. -/
theorem next_line_kept : ¬ ∀ fileName : JsString, 1 ≤ fileName.length → fileName.length ≤ 100 →
    SafeHeader unicodeControl fileName := by
  intro h
  have hsafe := (h [0x85] (by decide) (by decide)).2
  exact hsafe.noControl 0x85 (by decide) (by unfold unicodeControl; decide)

end DownloadWorker
end Redbox
