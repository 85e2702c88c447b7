import Mathlib.Data.List.Basic
import Mathlib.Data.List.Nodup
import Mathlib.Data.List.Lemmas

/-! The sanitizer of rendered Markdown. It walks the elements of the document as they were
before the first change, and changes the tree meanwhile. -/
namespace Redbox
namespace SafeMarkdown

/-- An attribute under its qualified name. -/
structure Attribute where
  name : String
  value : String
  deriving DecidableEq

/-- An element with its identity. `html` tells the HTML namespace from the others. -/
structure Element where
  id : Nat
  html : Bool
  tagName : String
  attributes : List Attribute

/-- Sibling nodes, each with those that follow. -/
inductive Nodes where
  | nil
  | text (data : String) (next : Nodes)
  | comment (data : String) (next : Nodes)
  | element (e : Element) (children next : Nodes)

/-- `toLowerCase` of ECMAScript, which leaves lower-case ASCII alone, and the protocol of
an address resolved against the origin of the page, where it is a URL. -/
structure Browser where
  toLowerCase : String → String
  protocol : String → Option String
  lower_href : toLowerCase "href" = "href"

def asciiLower (s : String) : String := String.ofList (s.toList.map Char.toLower)

namespace Element

/-- The name by which an attribute is looked up. -/
def qualified (e : Element) (name : String) : String := if e.html then asciiLower name else name

def getAttribute (e : Element) (name : String) : Option String :=
  (e.attributes.find? fun a => a.name == e.qualified name).map Attribute.value

def removeAttribute (e : Element) (name : String) : Element :=
  { e with attributes := e.attributes.eraseP fun a => a.name == e.qualified name }

/-- The first attribute of the name gets the value, or a new one at the end. -/
def put (name value : String) : List Attribute → List Attribute
  | [] => [⟨name, value⟩]
  | a :: as => if a.name = name then ⟨name, value⟩ :: as else a :: put name value as

def setAttribute (e : Element) (name value : String) : Element :=
  { e with attributes := put (e.qualified name) value e.attributes }

end Element

namespace Nodes

def append : Nodes → Nodes → Nodes
  | nil, others => others
  | text data next, others => text data (next.append others)
  | comment data next, others => comment data (next.append others)
  | element e children next, others => element e children (next.append others)

/-- `querySelectorAll('*')`, in document order. -/
def elements : Nodes → List Element
  | nil => []
  | text _ next => next.elements
  | comment _ next => next.elements
  | element e children next => e :: (children.elements ++ next.elements)

/-- The text nodes, in document order. -/
def texts : Nodes → List String
  | nil => []
  | text data next => data :: next.texts
  | comment _ next => next.texts
  | element _ children next => children.texts ++ next.texts

def ids (nodes : Nodes) : List Nat := nodes.elements.map Element.id

end Nodes

/-- What stands under the body after parsing: elements have identities of their own, the
tokenizer drops a second attribute of one name, and names on HTML elements are in lower case. -/
structure ParsedBody where
  nodes : Nodes
  identities : nodes.ids.Nodup
  attributes : ∀ e ∈ nodes.elements, (e.attributes.map Attribute.name).Nodup
  lower : ∀ e ∈ nodes.elements, ∀ a ∈ e.attributes, e.qualified a.name = a.name

def allowedTags : List String :=
  ["a", "blockquote", "br", "code", "del", "em", "h1", "h2", "h3", "h4", "h5", "h6", "hr", "li",
    "ol", "p", "pre", "span",
    "strong", "table", "tbody", "td", "th", "thead", "tr", "ul"]

def allowedAttrs (tagName : String) : List String :=
  if tagName = "a" then ["href", "title"]
  else if tagName = "code" then ["class"]
  else if tagName = "span" then ["class"]
  else []

def safeProtocols : List String := ["http:", "https:", "mailto:"]

def isSafeUrl (browser : Browser) (value : String) : Bool :=
  match browser.protocol value with
  | some protocol => safeProtocols.contains protocol
  | none => false

/-- The attributes are removed one after the other. -/
def removeAttributes (browser : Browser) (allowed : List String) (e : Element) : Element :=
  e.attributes.foldl (fun e a => if allowed.contains (browser.toLowerCase a.name) then e
    else e.removeAttribute a.name) e

/-- What the loop does to a link. -/
def sanitizeLink (browser : Browser) (e : Element) : Element :=
  match e.getAttribute "href" with
  | none => e.removeAttribute "href"
  | some href =>
    if href = "" ∨ isSafeUrl browser href = false then e.removeAttribute "href"
    else (e.setAttribute "rel" "noopener noreferrer nofollow").setAttribute "target" "_blank"

/-- An allowed element, or nothing where its children take its place. -/
def sanitizeElement (browser : Browser) (e : Element) : Option Element :=
  let tagName := browser.toLowerCase e.tagName
  if tagName ∉ allowedTags then none
  else
    let kept := removeAttributes browser (allowedAttrs tagName) e
    some (if tagName = "a" then sanitizeLink browser kept else kept)

namespace Nodes

/-- One round of the loop, for the element of an identity. -/
def visit (browser : Browser) (id : Nat) : Nodes → Nodes
  | nil => nil
  | text data next => text data (next.visit browser id)
  | comment data next => comment data (next.visit browser id)
  | element e children next =>
    if e.id = id then
      match sanitizeElement browser e with
      | none => children.append next
      | some kept => element kept children next
    else element e (children.visit browser id) (next.visit browser id)

def visitAll (browser : Browser) (ids : List Nat) (nodes : Nodes) : Nodes :=
  ids.foldl (fun nodes id => nodes.visit browser id) nodes

end Nodes

/-- What stands under the body when the loop has ended. -/
def sanitizeHtml (browser : Browser) (body : ParsedBody) : Nodes :=
  body.nodes.visitAll browser body.nodes.ids

/-- An element as the whitelist has it. -/
structure Whitelisted (browser : Browser) (e : Element) : Prop where
  tag : browser.toLowerCase e.tagName ∈ allowedTags
  attributes : ∀ a ∈ e.attributes, browser.toLowerCase a.name ∈
    allowedAttrs (browser.toLowerCase e.tagName) ∨
    browser.toLowerCase e.tagName = "a" ∧ (∃ href ∈ e.attributes, href.name = "href") ∧
      (a = ⟨"rel", "noopener noreferrer nofollow"⟩ ∨ a = ⟨"target", "_blank"⟩)
  href : ∀ a ∈ e.attributes, a.name = "href" → ∃ protocol ∈ safeProtocols,
    browser.protocol a.value = some protocol

/-- The tree in one pass: what the loop amounts to. -/
def Nodes.clean (browser : Browser) : Nodes → Nodes
  | nil => nil
  | text data next => text data (next.clean browser)
  | comment data next => comment data (next.clean browser)
  | element e children next =>
    match sanitizeElement browser e with
    | none => (children.clean browser).append (next.clean browser)
    | some kept => element kept (children.clean browser) (next.clean browser)

namespace Nodes
variable {browser : Browser} {id : Nat} {nodes others : Nodes}

theorem elements_append : (nodes.append others).elements = nodes.elements ++ others.elements := by
  induction nodes with
  | nil => rfl
  | text data next ih => exact ih
  | comment data next ih => exact ih
  | element e children next _ ih => simp [append, elements, ih]

theorem texts_append : (nodes.append others).texts = nodes.texts ++ others.texts := by
  induction nodes with
  | nil => rfl
  | text data next ih => simp [append, texts, ih]
  | comment data next ih => exact ih
  | element e children next _ ih => simp [append, texts, ih]

theorem append_assoc (a b c : Nodes) : (a.append b).append c = a.append (b.append c) := by
  induction a with
  | nil => rfl
  | text data next ih => rw [append, append, append, ih]
  | comment data next ih => rw [append, append, append, ih]
  | element e children next _ ih => rw [append, append, append, ih]

theorem ids_append : (nodes.append others).ids = nodes.ids ++ others.ids := by
  rw [ids, elements_append, List.map_append]
  rfl

theorem ids_element {e : Element} {children next : Nodes} :
    (element e children next).ids = e.id :: (children.ids ++ next.ids) := by
  rw [ids, elements, List.map_cons, List.map_append]
  rfl

/-- A round for an element that is not there changes nothing. -/
theorem visit_of_notMem (h : id ∉ nodes.ids) : nodes.visit browser id = nodes := by
  induction nodes with
  | nil => rfl
  | text data next ih => rw [visit, ih h]
  | comment data next ih => rw [visit, ih h]
  | element e children next ihc ihn =>
    rw [ids_element, List.mem_cons, List.mem_append, not_or, not_or] at h
    rw [visit, if_neg (Ne.symm h.1), ihc h.2.1, ihn h.2.2]

/-- A round is local: it acts on the side where the element is. -/
theorem visit_append (h : id ∉ others.ids) :
    (nodes.append others).visit browser id = (nodes.visit browser id).append others := by
  induction nodes with
  | nil => exact visit_of_notMem h
  | text data next ih => rw [append, visit, visit, append, ih]
  | comment data next ih => rw [append, visit, visit, append, ih]
  | element e children next _ ih =>
    rw [append, visit, visit]
    split
    · cases sanitizeElement browser e with
      | none => exact (append_assoc children next others).symm
      | some kept => rfl
    · rw [append, ih]

theorem visit_append_right (h : id ∉ nodes.ids) :
    (nodes.append others).visit browser id = nodes.append (others.visit browser id) := by
  induction nodes with
  | nil => rfl
  | text data next ih => rw [append, visit, append, ih h]
  | comment data next ih => rw [append, visit, append, ih h]
  | element e children next _ ih =>
    rw [ids_element, List.mem_cons, List.mem_append, not_or, not_or] at h
    rw [append, visit, if_neg (Ne.symm h.1), append, visit_of_notMem h.2.1, ih h.2.2]

theorem visitAll_cons (ids : List Nat) :
    nodes.visitAll browser (id :: ids) = (nodes.visit browser id).visitAll browser ids := rfl

theorem visitAll_twice (l m : List Nat) :
    nodes.visitAll browser (l ++ m) = (nodes.visitAll browser l).visitAll browser m :=
  List.foldl_append

theorem visitAll_of_disjoint {l : List Nat} (h : ∀ id ∈ l, id ∉ nodes.ids) :
    nodes.visitAll browser l = nodes := by
  induction l with
  | nil => rfl
  | cons id l ih =>
    rw [visitAll_cons, visit_of_notMem (h id List.mem_cons_self),
      ih fun i hi => h i (List.mem_cons_of_mem _ hi)]

theorem visitAll_append {l : List Nat} (h : ∀ id ∈ l, id ∉ others.ids) :
    (nodes.append others).visitAll browser l = (nodes.visitAll browser l).append others := by
  induction l generalizing nodes with
  | nil => rfl
  | cons id l ih =>
    rw [visitAll_cons, visit_append (h id List.mem_cons_self),
      ih fun i hi => h i (List.mem_cons_of_mem _ hi), ← visitAll_cons]

theorem visitAll_append_right {l : List Nat} (h : ∀ id ∈ l, id ∉ nodes.ids) :
    (nodes.append others).visitAll browser l = nodes.append (others.visitAll browser l) := by
  induction l generalizing others with
  | nil => rfl
  | cons id l ih =>
    rw [visitAll_cons, visit_append_right (h id List.mem_cons_self),
      ih fun i hi => h i (List.mem_cons_of_mem _ hi), ← visitAll_cons]

theorem visitAll_text {l : List Nat} {data : String} :
    (text data nodes).visitAll browser l = text data (nodes.visitAll browser l) := by
  induction l generalizing nodes with
  | nil => rfl
  | cons id l ih => exact ih

theorem visitAll_comment {l : List Nat} {data : String} :
    (comment data nodes).visitAll browser l = comment data (nodes.visitAll browser l) := by
  induction l generalizing nodes with
  | nil => rfl
  | cons id l ih => exact ih

/-- Rounds for other elements go on below an element and behind it. -/
theorem visitAll_element {l : List Nat} {e : Element} {children next : Nodes} (h : e.id ∉ l) :
    (element e children next).visitAll browser l = element e (children.visitAll browser l)
    (next.visitAll browser l) := by
  induction l generalizing children next with
  | nil => rfl
  | cons id l ih =>
    rw [List.mem_cons, not_or] at h
    rw [visitAll_cons, visit, if_neg h.1, ih h.2]
    rfl

end Nodes

theorem removeAttributes_kept {browser : Browser} {allowed : List String} {e : Element} :
    (removeAttributes browser allowed e).id = e.id ∧
    (removeAttributes browser allowed e).tagName = e.tagName := by
  unfold removeAttributes
  induction e.attributes generalizing e with
  | nil => exact ⟨rfl, rfl⟩
  | cons a as ih =>
    rw [List.foldl_cons, ih.1, ih.2]
    split <;> exact ⟨rfl, rfl⟩

theorem sanitizeLink_kept {browser : Browser} {e : Element} :
    (sanitizeLink browser e).id = e.id ∧ (sanitizeLink browser e).tagName = e.tagName := by
  unfold sanitizeLink
  split
  · exact ⟨rfl, rfl⟩
  · split <;> exact ⟨rfl, rfl⟩

theorem sanitizeElement_some {browser : Browser} {e kept : Element}
    (h : sanitizeElement browser e = some kept) :
    browser.toLowerCase e.tagName ∈ allowedTags ∧
      kept = if browser.toLowerCase e.tagName = "a" then
          sanitizeLink browser (removeAttributes browser
            (allowedAttrs (browser.toLowerCase e.tagName)) e)
        else removeAttributes browser (allowedAttrs (browser.toLowerCase e.tagName)) e := by
  simp only [sanitizeElement] at h
  split at h
  · cases h
  · rename_i htag
    exact ⟨not_not.mp htag, (Option.some.inj h).symm⟩

theorem sanitizeElement_kept {browser : Browser} {e kept : Element}
    (h : sanitizeElement browser e = some kept) :
    kept.id = e.id ∧ kept.tagName = e.tagName := by
  rw [(sanitizeElement_some h).2]
  split
  · rw [sanitizeLink_kept.1, sanitizeLink_kept.2]
    exact removeAttributes_kept
  · exact removeAttributes_kept

namespace Nodes
variable {browser : Browser} {nodes : Nodes}

theorem ids_clean : ∀ id ∈ (nodes.clean browser).ids, id ∈ nodes.ids := by
  induction nodes with
  | nil => exact fun id h => h
  | text data next ih => exact ih
  | comment data next ih => exact ih
  | element e children next ihc ihn =>
    intro id hid
    rw [ids_element, List.mem_cons, List.mem_append]
    rw [clean] at hid
    cases hs : sanitizeElement browser e with
    | none =>
      rw [hs] at hid
      simp only [ids_append, List.mem_append] at hid
      exact .inr (hid.imp (ihc id) (ihn id))
    | some kept =>
      rw [hs] at hid
      simp only [ids_element, List.mem_cons, List.mem_append, (sanitizeElement_kept hs).1] at hid
      exact hid.imp_right fun hid => hid.imp (ihc id) (ihn id)

/-- The loop over the elements that were there at first is the single pass. -/
theorem visitAll_ids (h : nodes.ids.Nodup) :
    nodes.visitAll browser nodes.ids = nodes.clean browser := by
  induction nodes with
  | nil => rfl
  | text data next ih => exact visitAll_text.trans (congrArg (text data) (ih h))
  | comment data next ih => exact visitAll_comment.trans (congrArg (comment data) (ih h))
  | element e children next ihc ihn =>
    rw [ids_element, List.nodup_cons, List.nodup_append] at h
    obtain ⟨hnew, hchildren, hnext, hdisjoint⟩ := h
    rw [List.mem_append, not_or] at hnew
    have hbehind : ∀ id ∈ children.ids, id ∉ next.ids :=
      fun id hid hid' => hdisjoint id hid id hid' rfl
    have hbelow : ∀ id ∈ next.ids, id ∉ (children.clean browser).ids :=
      fun id hid hid' => hbehind id (ids_clean id hid') hid
    rw [ids_element, visitAll_cons, visit, if_pos rfl, visitAll_twice, clean]
    cases hs : sanitizeElement browser e with
    | none =>
      simp only
      rw [visitAll_append hbehind, ihc hchildren, visitAll_append_right hbelow, ihn hnext]
    | some kept =>
      have hid := (sanitizeElement_kept hs).1
      simp only
      rw [visitAll_element (hid ▸ hnew.1), visitAll_element (hid ▸ hnew.2), ihc hchildren,
        visitAll_of_disjoint hbehind,
        visitAll_of_disjoint hbelow, ihn hnext]

/-- No text is lost, added or moved. -/
theorem texts_clean : (nodes.clean browser).texts = nodes.texts := by
  induction nodes with
  | nil => rfl
  | text data next ih => exact congrArg (data :: ·) ih
  | comment data next ih => exact ih
  | element e children next ihc ihn =>
    rw [clean, texts]
    cases sanitizeElement browser e with
    | none => rw [texts_append, ihc, ihn]
    | some kept => rw [texts, ihc, ihn]

/-- Every element that is left comes from one that was there. -/
theorem elements_clean : ∀ e ∈ (nodes.clean browser).elements, ∃ old ∈ nodes.elements,
      sanitizeElement browser old = some e := by
  induction nodes with
  | nil => exact fun e h => absurd h List.not_mem_nil
  | text data next ih => exact ih
  | comment data next ih => exact ih
  | element old children next ihc ihn =>
    intro e he
    have hold : ∀ x, (∃ y ∈ children.elements, sanitizeElement browser y = some x) ∨
        (∃ y ∈ next.elements, sanitizeElement browser y = some x) →
        ∃ y ∈ (element old children next).elements, sanitizeElement browser y = some x := by
      rintro x (⟨y, hy, hx⟩ | ⟨y, hy, hx⟩)
      · exact ⟨y, List.mem_cons_of_mem _ (List.mem_append_left _ hy), hx⟩
      · exact ⟨y, List.mem_cons_of_mem _ (List.mem_append_right _ hy), hx⟩
    rw [clean] at he
    cases hs : sanitizeElement browser old with
    | none =>
      rw [hs] at he
      simp only [elements_append, List.mem_append] at he
      exact hold e (he.imp (ihc e) (ihn e))
    | some kept =>
      rw [hs] at he
      simp only [elements, List.mem_cons, List.mem_append] at he
      rcases he with rfl | he
      · exact ⟨old, List.mem_cons_self, hs⟩
      · exact hold e (he.imp (ihc e) (ihn e))

end Nodes
section
variable {browser : Browser} {e : Element}

/-- Removing what is not allowed, one attribute after the other, leaves the rest. -/
theorem foldl_removeAttribute {allowed : List String} {rest : List Attribute}
    (kept : List Attribute) (hattrs : e.attributes = kept ++ rest)
    (hnames : ((kept ++ rest).map Attribute.name).Nodup)
    (hlower : ∀ a ∈ rest, e.qualified a.name = a.name) :
    rest.foldl (fun e a => if allowed.contains (browser.toLowerCase a.name) then e
      else e.removeAttribute a.name) e =
      { e with attributes := kept ++ rest.filter fun a =>
        allowed.contains (browser.toLowerCase a.name) } := by
  induction rest generalizing e kept with
  | nil =>
    rw [List.foldl_nil, List.filter_nil, ← hattrs]
  | cons a rest ih =>
    have hlater : ∀ b ∈ rest, e.qualified b.name = b.name :=
      fun b hb => hlower b (List.mem_cons_of_mem _ hb)
    rw [List.foldl_cons, List.filter_cons]
    split
    · rename_i hallowed
      have hsplit : kept ++ a :: rest = (kept ++ [a]) ++ rest := (List.append_cons kept a rest)
      rw [ih (kept ++ [a]) (hattrs.trans hsplit) (hsplit ▸ hnames) hlater, List.append_assoc]
      rfl
    · rename_i hallowed
      have hkept : ∀ b ∈ kept, ¬ (b.name == e.qualified a.name) = true := by
        intro b hb heq
        rw [hlower a List.mem_cons_self, beq_iff_eq] at heq
        rw [List.map_append, List.map_cons] at hnames
        exact List.disjoint_of_nodup_append hnames (List.mem_map_of_mem hb)
          (heq ▸ List.mem_cons_self)
      have herase : (e.removeAttribute a.name).attributes = kept ++ rest := by
        have hself : (a.name == e.qualified a.name) = true := by
          rw [hlower a List.mem_cons_self, beq_self_eq_true]
        show e.attributes.eraseP _ = kept ++ rest
        rw [hattrs, List.eraseP_append_right _ hkept, List.eraseP_cons_of_pos (p :=
          fun b : Attribute => b.name == e.qualified a.name) hself]
      have hnames' : ((kept ++ rest).map Attribute.name).Nodup := by
        apply List.Nodup.sublist _ hnames
        exact ((List.sublist_cons_self a rest).append_left kept).map _
      exact ih kept herase hnames' hlater

theorem removeAttributes_eq (browser : Browser) (allowed : List String)
    (hnames : (e.attributes.map Attribute.name).Nodup)
    (hlower : ∀ a ∈ e.attributes, e.qualified a.name = a.name) :
    removeAttributes browser allowed e =
      { e with attributes := e.attributes.filter fun a =>
        allowed.contains (browser.toLowerCase a.name) } :=
  foldl_removeAttribute [] rfl hnames hlower

theorem eraseP_name {as : List Attribute} {name : String} (h : (as.map Attribute.name).Nodup) :
    ∀ a ∈ as.eraseP (fun a => a.name == name), a.name ≠ name := by
  induction as with
  | nil => exact fun a ha => absurd ha List.not_mem_nil
  | cons b as ih =>
    rw [List.map_cons, List.nodup_cons] at h
    intro a ha
    by_cases hb : b.name = name
    · rw [List.eraseP_cons_of_pos (p :=
        fun b : Attribute => b.name == name) (beq_iff_eq.mpr hb)] at ha
      rintro rfl
      exact h.1 (hb ▸ List.mem_map_of_mem ha)
    · rw [List.eraseP_cons_of_neg (p :=
        fun b : Attribute => b.name == name) (fun hb' => hb (beq_iff_eq.mp hb'))] at ha
      rcases List.mem_cons.mp ha with rfl | ha
      · exact hb
      · exact ih h.2 a ha

theorem mem_put {name value : String} {as : List Attribute} :
    ∀ a ∈ Element.put name value as, a = ⟨name, value⟩ ∨ a ∈ as := by
  induction as with
  | nil => exact fun a ha => .inl (List.mem_singleton.mp ha)
  | cons b as ih =>
    intro a ha
    rw [Element.put] at ha
    split at ha
    · exact (List.mem_cons.mp ha).imp_right (List.mem_cons_of_mem _)
    · rcases List.mem_cons.mp ha with rfl | ha
      · exact .inr List.mem_cons_self
      · exact (ih a ha).imp_right (List.mem_cons_of_mem _)

theorem mem_put_of_ne {name value : String} {as : List Attribute} {a : Attribute} (ha : a ∈ as)
    (hname : a.name ≠ name) :
    a ∈ Element.put name value as := by
  induction as with
  | nil => exact absurd ha List.not_mem_nil
  | cons b as ih =>
    rw [Element.put]
    rcases List.mem_cons.mp ha with rfl | ha
    · rw [if_neg hname]
      exact List.mem_cons_self
    · split
      · exact List.mem_cons_of_mem _ ha
      · exact List.mem_cons_of_mem _ (ih ha)

theorem qualified_lower {name : String} (h : asciiLower name = name) : e.qualified name = name := by
  unfold Element.qualified
  split
  · exact h
  · rfl

/-- A link ends with a safe address or with none. -/
theorem sanitizeLink_whitelisted (htag : browser.toLowerCase e.tagName = "a")
    (hnames : (e.attributes.map Attribute.name).Nodup)
    (hallowed : ∀ a ∈ e.attributes, browser.toLowerCase a.name ∈ allowedAttrs "a") :
    Whitelisted browser (sanitizeLink browser e) := by
  have hhref : e.qualified "href" = "href" := qualified_lower (by decide)
  have htag' : browser.toLowerCase (sanitizeLink browser e).tagName = "a" := by
    rw [sanitizeLink_kept.2, htag]
  have hremoved : ∀ a ∈ (e.removeAttribute "href").attributes, a.name ≠ "href" ∧
      a ∈ e.attributes := by
    intro a ha
    rw [Element.removeAttribute, hhref] at ha
    exact ⟨eraseP_name hnames a ha, List.mem_of_mem_eraseP ha⟩
  have hunlinked : sanitizeLink browser e = e.removeAttribute "href" →
      Whitelisted browser (sanitizeLink browser e) := by
    intro heq
    constructor
    · rw [htag']
      decide
    · rw [htag', heq]
      exact fun a ha => .inl (hallowed a (hremoved a ha).2)
    · rw [heq]
      exact fun a ha hname => absurd hname (hremoved a ha).1
  cases hget : e.getAttribute "href" with
  | none => exact hunlinked (by rw [sanitizeLink, hget])
  | some href =>
    by_cases hunsafe : href = "" ∨ isSafeUrl browser href = false
    · exact hunlinked (by simp only [sanitizeLink, hget, if_pos hunsafe])
    · have hrel : e.qualified "rel" = "rel" := qualified_lower (by decide)
      have htarget : e.qualified "target" = "target" := qualified_lower (by decide)
      have hlinked : (sanitizeLink browser e).attributes =
          Element.put "target" "_blank"
            (Element.put "rel" "noopener noreferrer nofollow" e.attributes) := by
        have heq : sanitizeLink browser e =
            (e.setAttribute "rel" "noopener noreferrer nofollow").setAttribute "target"
            "_blank" := by
          simp only [sanitizeLink, hget, if_neg hunsafe]
        rw [heq, Element.setAttribute, Element.setAttribute, hrel]
        exact congrArg (fun name => Element.put name _ _) htarget
      have hcases : ∀ a ∈ (sanitizeLink browser e).attributes,
          (a = ⟨"rel", "noopener noreferrer nofollow"⟩ ∨ a = ⟨"target", "_blank"⟩) ∨
            a ∈ e.attributes := by
        intro a ha
        rw [hlinked] at ha
        rcases mem_put a ha with h | ha
        · exact .inl (.inr h)
        · exact (mem_put a ha).imp_left .inl
      obtain ⟨link, hlink, hvalue⟩ := Option.map_eq_some_iff.mp hget
      have hname : link.name = "href" := by
        have hfound := List.find?_some hlink
        rwa [beq_iff_eq, hhref] at hfound
      have hleft : link ∈ (sanitizeLink browser e).attributes := by
        rw [hlinked]
        exact mem_put_of_ne (mem_put_of_ne (List.mem_of_find?_eq_some hlink)
          (by rw [hname]; decide)) (by rw [hname]; decide)
      constructor
      · rw [htag']
        decide
      · rw [htag']
        exact fun a ha => (hcases a ha).symm.imp (hallowed a) fun hset =>
          ⟨rfl, ⟨link, hleft, hname⟩, hset⟩
      · intro a ha hhref'
        have ha : a ∈ e.attributes := by
          rcases hcases a ha with (rfl | rfl) | ha
          · exact absurd hhref' (by decide)
          · exact absurd hhref' (by decide)
          · exact ha
        have hsame : a = link :=
          List.inj_on_of_nodup_map hnames ha (List.mem_of_find?_eq_some hlink)
            (hhref'.trans hname.symm)
        have hsafe : isSafeUrl browser href = true :=
          eq_true_of_ne_false fun hfalse => hunsafe (.inr hfalse)
        rw [hsame, hvalue]
        unfold isSafeUrl at hsafe
        split at hsafe
        · rename_i protocol hprotocol
          exact ⟨protocol, List.contains_iff_mem.mp hsafe, hprotocol⟩
        · cases hsafe

/-- What the loop keeps of an element of a parsed document is on the whitelist. -/
theorem sanitizeElement_whitelisted {kept : Element}
    (hnames : (e.attributes.map Attribute.name).Nodup)
    (hlower : ∀ a ∈ e.attributes, e.qualified a.name = a.name)
    (h : sanitizeElement browser e = some kept) :
    Whitelisted browser kept := by
  obtain ⟨htag, hkept⟩ := sanitizeElement_some h
  have hremoved := removeAttributes_eq browser (allowedAttrs (browser.toLowerCase e.tagName))
    hnames hlower
  have hallowed : ∀ a ∈ (removeAttributes browser (allowedAttrs (browser.toLowerCase e.tagName))
    e).attributes,
      browser.toLowerCase a.name ∈ allowedAttrs (browser.toLowerCase e.tagName) := by
    intro a ha
    rw [hremoved] at ha
    exact List.contains_iff_mem.mp (List.mem_filter.mp ha).2
  rw [hkept]
  split
  · rename_i hlink
    rw [hlink] at hallowed hremoved ⊢
    apply sanitizeLink_whitelisted
    · rw [removeAttributes_kept.2, hlink]
    · rw [hremoved]
      exact List.Nodup.sublist (List.filter_sublist.map _) hnames
    · exact hallowed
  · rename_i hother
    have hsame : browser.toLowerCase
      (removeAttributes browser (allowedAttrs (browser.toLowerCase e.tagName)) e).tagName =
        browser.toLowerCase e.tagName := by
      rw [removeAttributes_kept.2]
    constructor
    · rw [hsame]
      exact htag
    · rw [hsame]
      exact fun a ha => .inl (hallowed a ha)
    · intro a ha hname
      have hhref := hallowed a ha
      rw [hname, browser.lower_href, allowedAttrs, if_neg hother] at hhref
      exact absurd hhref (by split <;> [decide; (split <;> decide)])

end

def demoBrowser : Browser where
  toLowerCase := asciiLower
  protocol := fun value => if value = "https://redbox.cx" then some "https:" else some "javascript:"
  lower_href := by decide

/-- A link below an element that is not allowed, and a script behind it. -/
def demoBody : ParsedBody where
  nodes := .element ⟨0, true, "DIV", [⟨"onclick", "go()"⟩]⟩
    (.text "see " (.element ⟨1, true, "A", [⟨"href", "https://redbox.cx"⟩, ⟨"style", "x"⟩]⟩
      (.text "home" .nil) .nil))
    (.element ⟨2, true, "SCRIPT", []⟩ (.text "run()" .nil) .nil)
  identities := by decide
  attributes := by decide
  lower := by decide

example : (sanitizeHtml demoBrowser demoBody).elements.map (fun e =>
      e.attributes.map Attribute.name) = [["href", "rel", "target"]] := by
  decide

end SafeMarkdown
end Redbox
