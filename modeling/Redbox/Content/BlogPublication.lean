import Redbox.Bytes.ByteStrings
import Redbox.Content.BlogService
import Redbox.Interleaving.Knowledge
import Redbox.Text.LowerCase

/-! The life of a blog post under all interleavings: its status agrees with its dates, its texts are
normalized, and the public is shown what is published. -/
namespace Redbox.BlogPublication
open Interleaving Text

structure BlogQuery where
  limit : Nat
  offset : Nat
  search : Option String

structure BlogList where
  items : List (Id × BlogPost)
  hasMore : Bool
  total : Nat

namespace BlogService

def rows (w : BlogWorld) : List (Id × BlogPost) := w.posts.entries.map fun e => (e.1, e.2)

/-- `contains` of the database is a parameter. -/
def searched (contains : String → String → Bool) (search : Option String)
    (post : BlogPost) : Bool :=
  match search with
  | none => true
  | some value => value == "" || post.title.any (contains · (trim value)) ||
    contains post.subtitle (trim value) || contains post.authorName (trim value)

def isPublished (post : BlogPost) : Bool :=
  post.status == .published && post.publishedAt.isSome

/-- The latest publication first. -/
def orderBy (a b : Id × BlogPost) : Bool := decide (b.2.publishedAt.getD 0 ≤ a.2.publishedAt.getD 0)

def getPublishedBlogPosts (contains : String → String → Bool) (w : BlogWorld) (query : BlogQuery) :
    BlogList :=
  let posts := (rows w).filter fun row => isPublished row.2 && searched contains query.search row.2
  let items := ((posts.mergeSort orderBy).drop query.offset).take query.limit
  ⟨items, decide (query.offset + items.length < posts.length), posts.length⟩

def getPublishedBlogPostById (w : BlogWorld) (postId : Id) : Except Thrown BlogPost :=
  match (w.posts.lookup postId).filter isPublished with
  | some post => .ok post
  | none => .error (notFound "Blog post not found")

end BlogService

/-- Whoever asks for a new post asks for a draft or for its publication. -/
def BlogOperation.starts : BlogOperation → Bool
  | .createAdminBlogPost _ _ status => decide (status ≠ .withdrawn)
  | _ => true

/-- The requests of admins at any time, and any call may fail. -/
def adminRequests : BlogRules :=
  ⟨fun _ op => BlogOperation.starts op, fun _ _ _ _ => true, fun _ _ => true⟩

def BlogWorld.empty : BlogWorld := ⟨∅, ∅, 0, 0⟩

def Filled (text : String) : Prop := text ≠ "" ∧ Trimmed text.toList

/-- What `normalizeCreateInput` and `normalizeUpdateInput` give. -/
structure Normalized (post : BlogPost) : Prop where
  title : ∀ text, post.title = some text → Filled text
  subtitle : Filled post.subtitle
  authorName : Filled post.authorName
  authorTitle : ∀ text, post.authorTitle = some text → Filled text
  categories : post.categories.Nodup ∧ post.categories.length ≤ 10 ∧
    ∀ category ∈ post.categories, Filled category ∧ utf16Length category ≤ 50

/-- The dates say what became of the post. -/
structure Dated (post : BlogPost) : Prop where
  draft : post.status = .draft ↔ post.publishedAt = none
  withdrawn : post.status = .withdrawn ↔ post.withdrawnAt.isSome = true

/-- In every state, and no post that has been published becomes a draft again. -/
def PostsKept (R : BlogRules) : Prop :=
  ∀ as s, blog.run R (.initial BlogWorld.empty) as = some s →
    (∀ postId post, s.shared.store.posts.lookup postId = some post → Normalized post ∧ Dated post) ∧
    ∀ bs t postId post post', blog.run R s bs = some t →
      s.shared.store.posts.lookup postId = some post → post.status ≠ .draft →
      t.shared.store.posts.lookup postId = some post' → post'.status ≠ .draft

/-- The posts of the first `n` pages. -/
def pages (contains : String → String → Bool) (w : BlogWorld) (query : BlogQuery) (n : Nat) :
    List (Id × BlogPost) :=
  (List.range n).flatMap fun i =>
    (BlogService.getPublishedBlogPosts contains w { query with offset := i * query.limit }).items

/-- Pages enough show the public each published post once, the latest first, and nothing else; the
same posts are found by their ids. -/
def PublishedShown (contains : String → String → Bool) (R : BlogRules) : Prop :=
  ∀ as s query n, blog.run R (.initial BlogWorld.empty) as = some s →
    query.search = none → (BlogService.rows s.shared.store).length ≤ n * query.limit →
    (pages contains s.shared.store query n).Pairwise
      (fun a b => BlogService.orderBy a b = true) ∧
    ((pages contains s.shared.store query n).map Prod.fst).Nodup ∧
    ∀ postId post, ((postId, post) ∈ pages contains s.shared.store query n ↔
        s.shared.store.posts.lookup postId = some post ∧ post.status = .published) ∧
      (BlogService.getPublishedBlogPostById s.shared.store postId = .ok post ↔
        s.shared.store.posts.lookup postId = some post ∧ post.status = .published)

/-- The post, while it is there, has been published. -/
def Published (postId : Id) (w : BlogWorld) : Prop :=
  postId < w.nextId ∧ ∀ post, w.posts.lookup postId = some post → post.publishedAt.isSome = true

structure Inv (s : SharedBlog) : Prop where
  posts : ∀ postId post, s.store.posts.lookup postId = some post →
    postId < s.store.nextId ∧ Normalized post ∧ Dated post

/-- The three kinds of updates. -/
inductive Step (w : BlogWorld) (postId : Id) (data : BlogPostUpdate) : Prop where
  | edit (status : data.status = none) (publishedAt : data.publishedAt = none)
      (withdrawnAt : data.withdrawnAt = none)
  | publish (status : data.status = some .published) (publishedAt : data.publishedAt.isSome = true)
      (withdrawnAt : data.withdrawnAt = some none)
  | withdraw (status : data.status = some .withdrawn) (publishedAt : data.publishedAt = none)
      (withdrawnAt : ∃ time, data.withdrawnAt = some (some time)) (before : Published postId w)

def Pre (s : SharedBlog) (_ : Nat) : BlogRequest → Prop
  | .createPost post => Normalized post ∧ Dated post
  | .updatePost postId data => Step s.store postId data ∧
    ∀ post, Normalized post → Normalized (data.apply post)
  | _ => True

def outline : Outline BlogRequest BlogReply BlogWorld := ⟨Inv, Pre⟩

section
variable {s : SharedBlog} {w : BlogWorld} {p : Nat} {q : BlogRequest} {d : Delivery} {postId : Id}
  {post : BlogPost} {data : BlogPostUpdate}

/-- Where a row comes from. -/
theorem lookup_deliver (h : (w.deliver q).1.posts.lookup postId = some post) :
    w.posts.lookup postId = some post ∨
    q = .createPost post ∧ postId = w.nextId ∧ (w.deliver q).1.nextId = w.nextId + 1 ∨
    ∃ data old, q = .updatePost postId data ∧ w.posts.lookup postId = some old ∧
      post = data.apply old := by
  cases q with
  | createPost new =>
    dsimp only [BlogWorld.deliver] at h ⊢
    split at h
    · exact .inl h
    · rename_i hnew
      by_cases hid : postId = w.nextId
      · subst hid
        rw [AList.lookup_insert] at h
        rw [if_neg hnew, Option.some.inj h]
        exact .inr (.inl ⟨rfl, rfl, rfl⟩)
      · rw [AList.lookup_insert_ne hid] at h
        exact .inl h
  | updatePost id data =>
    dsimp only [BlogWorld.deliver] at h
    split at h
    · rename_i old hold
      by_cases hid : postId = id
      · subst hid
        rw [AList.lookup_insert] at h
        exact .inr (.inr ⟨data, old, rfl, hold, (Option.some.inj h).symm⟩)
      · rw [AList.lookup_insert_ne hid] at h
        exact .inl h
    · exact .inl h
  | deletePost id =>
    dsimp only [BlogWorld.deliver] at h
    split at h
    · by_cases hid : postId = id
      · subst hid
        rw [AList.lookup_erase] at h
        cases h
      · rw [AList.lookup_erase_ne hid] at h
        exact .inl h
    · exact .inl h
  | _ => exact .inl h

theorem nextId_deliver (w : BlogWorld) (q : BlogRequest) : w.nextId ≤ (w.deliver q).1.nextId := by
  cases q with
  | createPost post =>
    dsimp only [BlogWorld.deliver]
    split
    · exact Nat.le_refl _
    · exact Nat.le_succ _
  | updatePost id data => dsimp only [BlogWorld.deliver]; split <;> exact Nat.le_refl _
  | deletePost id => dsimp only [BlogWorld.deliver]; split <;> exact Nat.le_refl _
  | random => exact Nat.le_succ _
  | _ => exact Nat.le_refl _

theorem exec_fst (d : Delivery) (q : BlogRequest) (w : BlogWorld) :
    (w.exec d q).1 = w ∨ (w.exec d q).1 = (w.deliver q).1 := by
  unfold BlogWorld.exec
  split
  · cases d with
    | failed => exact .inl rfl
    | delivered => exact .inr rfl
    | lost => exact .inr rfl
    | late => exact .inr rfl
  · exact .inr rfl

theorem Dated.apply (h : Dated post) (hd : Step w postId data)
    (hpost : w.posts.lookup postId = some post) : Dated (data.apply post) := by
  cases hd with
  | edit hs hp hw =>
    rw [BlogPostUpdate.apply, hs, hp, hw]
    exact ⟨h.draft, h.withdrawn⟩
  | publish hs hp hw =>
    obtain ⟨time, hp⟩ := Option.isSome_iff_exists.mp hp
    rw [BlogPostUpdate.apply, hs, hp, hw]
    exact ⟨⟨nofun, nofun⟩, nofun, nofun⟩
  | withdraw hs hp hw hbefore =>
    obtain ⟨time, hw⟩ := hw
    have hsome := hbefore.2 post hpost
    rw [BlogPostUpdate.apply, hs, hp, hw]
    refine ⟨⟨nofun, fun hnone => ?_⟩, fun _ => rfl, fun _ => rfl⟩
    rw [show post.publishedAt = none from hnone] at hsome
    cases hsome

theorem publishedAt_apply (hd : Step w postId data) (h : post.publishedAt.isSome = true) :
    (data.apply post).publishedAt.isSome = true := by
  cases hd with
  | edit hs hp hw => rw [BlogPostUpdate.apply, hp]; exact h
  | publish hs hp hw =>
    obtain ⟨time, hp⟩ := Option.isSome_iff_exists.mp hp
    rw [BlogPostUpdate.apply, hp]
    rfl
  | withdraw hs hp hw hbefore => rw [BlogPostUpdate.apply, hp]; exact h

theorem Published.after (h : Published postId s.store) (hp : Pre s p q) :
    Published postId (blog.after d p q s).store := by
  rcases exec_fst d q s.store with heq | heq
  · change Published postId (s.store.exec d q).1
    rw [heq]
    exact h
  · change Published postId (s.store.exec d q).1
    rw [heq]
    refine ⟨h.1.trans_le (nextId_deliver _ _), fun post hpost => ?_⟩
    rcases lookup_deliver hpost with hold | ⟨rfl, rfl, -⟩ | ⟨data, old, rfl, hold, rfl⟩
    · exact h.2 post hold
    · exact absurd h.1 (Nat.lt_irrefl _)
    · exact publishedAt_apply hp.1 (h.2 old hold)

theorem Inv.after (hs : Inv s) (hp : Pre s p q) : Inv (blog.after d p q s) := by
  refine ⟨fun postId post hpost => ?_⟩
  change (s.store.exec d q).1.posts.lookup postId = some post at hpost
  change postId < (s.store.exec d q).1.nextId ∧ _
  rcases exec_fst d q s.store with heq | heq
  · rw [heq] at hpost ⊢
    exact hs.posts postId post hpost
  · rw [heq] at hpost ⊢
    rcases lookup_deliver hpost with hold | ⟨rfl, rfl, hnext⟩ | ⟨data, old, rfl, hold, rfl⟩
    · obtain ⟨hlt, hkept⟩ := hs.posts postId post hold
      exact ⟨hlt.trans_le (nextId_deliver _ _), hkept⟩
    · exact ⟨hnext ▸ Nat.lt_succ_self _, hp⟩
    · obtain ⟨hlt, hnormalized, hdated⟩ := hs.posts postId old hold
      exact ⟨hlt.trans_le (nextId_deliver _ _), hp.2 old hnormalized, hdated.apply hp.1 hold⟩

theorem outline_kept : outline.Kept blog adminRequests :=
  ⟨fun hs _ hp => hs.after hp, fun hs _ => ⟨hs.posts⟩⟩

end

/-! What the inputs are normalized to. -/

section
variable {text label : String} {value : Option String} {e : Thrown}

theorem filled_trim (h : trim text ≠ "") : Filled (trim text) := by
  refine ⟨h, ?_⟩
  rw [trim, String.toList_ofList]
  exact trimmed_trimList _

theorem filled_filter (h : (value.map trim).filter (· ≠ "") = some text) : Filled text := by
  obtain ⟨hmap, hne⟩ := Option.filter_eq_some_iff.mp h
  obtain ⟨given, -, rfl⟩ := Option.map_eq_some_iff.mp hmap
  exact filled_trim (of_decide_eq_true hne)

theorem filled_required (h : BlogService.normalizeRequiredString value label = .ok text) :
    Filled text := by
  unfold BlogService.normalizeRequiredString at h
  split at h
  · rename_i found hfound
    rw [← Except.ok.inj h]
    exact filled_filter hfound
  · cases h

theorem nodup_eraseDups (l : List String) : l.eraseDups.Nodup := by
  induction hn : l.length using Nat.strong_induction_on generalizing l with
  | _ n ih =>
    cases l with
    | nil => exact List.nodup_nil
    | cons a l =>
      rw [List.eraseDups_cons]
      refine List.nodup_cons.mpr ⟨fun hmem => ?_, ih _ ?_ _ rfl⟩
      · have hself := (List.mem_filter.mp (List.mem_eraseDups.mp hmem)).2
        rw [beq_self_eq_true] at hself
        cases hself
      · rw [← hn]
        exact Nat.lt_succ_of_le (List.length_filter_le _ _)

theorem categories_normalized {given : Option (List String)} {categories : List String}
    (h : BlogService.normalizeCategories given = .ok categories) :
    categories.Nodup ∧ categories.length ≤ 10 ∧
      ∀ category ∈ categories, Filled category ∧ utf16Length category ≤ 50 := by
  unfold BlogService.normalizeCategories at h
  dsimp only at h
  split_ifs at h with hmany hlong
  rw [← Except.ok.inj h]
  refine ⟨nodup_eraseDups _, Nat.le_of_not_lt hmany, fun category hmem => ⟨?_, ?_⟩⟩
  · obtain ⟨htrim, hne⟩ := List.mem_filter.mp (List.mem_eraseDups.mp hmem)
    obtain ⟨text, -, rfl⟩ := List.mem_map.mp htrim
    exact filled_trim (of_decide_eq_true hne)
  · exact Nat.le_of_not_lt fun hlt => hlong (List.any_eq_true.mpr ⟨category, hmem,
      decide_eq_true hlt⟩)

end

/-- A step of the normalization was passed. -/
theorem bind_ok {β γ : Type} {x : Except Thrown β} {f : β → Except Thrown γ} {c : γ}
    (h : (x >>= f) = .ok c) : ∃ b, x = .ok b ∧ f b = .ok c := by
  cases x with
  | error e => cases h
  | ok b => exact ⟨b, rfl, h⟩

/-- The texts that are stored are normalized. -/
structure Input (input : BlogService.NormalizedBlogInput) : Prop where
  title : ∀ text, input.title = some text → Filled text
  subtitle : Filled input.subtitle
  authorName : Filled input.authorName
  authorTitle : ∀ text, input.authorTitle = some text → Filled text
  categories : input.categories.Nodup ∧ input.categories.length ≤ 10 ∧
    ∀ category ∈ input.categories, Filled category ∧ utf16Length category ≤ 50

theorem create_input {dto : SaveAdminBlogPostDto} {input : BlogService.NormalizedBlogInput}
    (h : BlogService.normalizeCreateInput dto = .ok input) : Input input := by
  unfold BlogService.normalizeCreateInput at h
  obtain ⟨markdown, -, h⟩ := bind_ok h
  obtain ⟨subtitle, hsubtitle, h⟩ := bind_ok h
  cases hauthor : dto.author with
  | none =>
    rw [hauthor] at h
    cases h
  | some author =>
    rw [hauthor] at h
    obtain ⟨authorName, hname, h⟩ := bind_ok h
    obtain ⟨categories, hcategories, h⟩ := bind_ok h
    cases h
    exact ⟨fun _ => filled_filter, filled_required hsubtitle, filled_required hname,
      fun _ => filled_filter, categories_normalized hcategories⟩

/-! The fields of an update, one after the other. -/

section
variable (dto : UpdateAdminBlogPostDto) (existing : BlogPost)

def markdownInput : Except Thrown String :=
  match dto.markdown with
  | none => .ok ""
  | some markdown => BlogService.normalizeMarkdown markdown

def subtitleInput : Except Thrown String :=
  match dto.subtitle with
  | none => .ok existing.subtitle
  | some subtitle => BlogService.normalizeRequiredString subtitle "Subtitle"

def authorNameInput : Except Thrown String :=
  match dto.author with
  | some (some author) => BlogService.normalizeRequiredString (some author.name) "Author name"
  | _ => .ok existing.authorName

def authorTitleInput : Except Thrown (Option String) :=
  match dto.author with
  | none => .ok existing.authorTitle
  | some (some author) => .ok (BlogService.normalizeOptionalString author.title)
  | some none => .error BlogService.typeError

def categoriesInput : Except Thrown (List String) :=
  match dto.categories with
  | none => .ok existing.categories
  | some categories => BlogService.normalizeCategories categories

theorem normalizeUpdateInput_eq : BlogService.normalizeUpdateInput dto existing =
    (markdownInput dto).bind fun markdown => (subtitleInput dto existing).bind fun subtitle =>
      (authorNameInput dto existing).bind fun authorName =>
        (authorTitleInput dto existing).bind fun authorTitle =>
          (categoriesInput dto existing).bind fun categories =>
            .ok ⟨(dto.title.map BlogService.normalizeOptionalString).getD existing.title, subtitle,
              authorName, authorTitle, categories, markdown,
              if dto.markdown.isNone then existing.contentSize else markdown.utf8ByteSize⟩ := by
  obtain ⟨title, subtitle, author, categories, markdown⟩ := dto
  cases markdown with
  | none => cases subtitle <;> rcases author with _ | _ | _ <;> cases categories <;> rfl
  | some markdown => cases subtitle <;> rcases author with _ | _ | _ <;> cases categories <;> rfl

end

theorem update_input {dto : UpdateAdminBlogPostDto} {existing post : BlogPost}
    {input : BlogService.NormalizedBlogInput}
    (h : BlogService.normalizeUpdateInput dto existing = .ok input) (hpost : Normalized post) :
    Normalized ((BlogService.updateData dto input).apply post) := by
  rw [normalizeUpdateInput_eq] at h
  obtain ⟨markdown, -, h⟩ := bind_ok h
  obtain ⟨subtitle, hsubtitle, h⟩ := bind_ok h
  obtain ⟨authorName, hname, h⟩ := bind_ok h
  obtain ⟨authorTitle, htitle, h⟩ := bind_ok h
  obtain ⟨categories, hcategories, h⟩ := bind_ok h
  cases h
  refine ⟨fun text htext => ?_, ?_, ?_, fun text htext => ?_, ?_⟩
  · cases hd : dto.title with
    | none =>
      simp only [BlogPostUpdate.apply, BlogService.updateData, hd] at htext
      exact hpost.title text htext
    | some title =>
      simp only [BlogPostUpdate.apply, BlogService.updateData, hd] at htext
      exact filled_filter htext
  · simp only [BlogPostUpdate.apply, BlogService.updateData]
    cases hd : dto.subtitle with
    | none => exact hpost.subtitle
    | some given =>
      rw [subtitleInput, hd] at hsubtitle
      exact filled_required hsubtitle
  · simp only [BlogPostUpdate.apply, BlogService.updateData]
    cases hd : dto.author with
    | none => exact hpost.authorName
    | some author =>
      rw [authorNameInput, hd] at hname
      rw [authorTitleInput, hd] at htitle
      cases author with
      | none => cases htitle
      | some author => exact filled_required hname
  · cases hd : dto.author with
    | none =>
      simp only [BlogPostUpdate.apply, BlogService.updateData, hd] at htext
      exact hpost.authorTitle text htext
    | some author =>
      simp only [BlogPostUpdate.apply, BlogService.updateData, hd] at htext
      rw [authorTitleInput, hd] at htitle
      cases author with
      | none => cases htitle
      | some author =>
        cases htitle
        exact filled_filter htext
  · simp only [BlogPostUpdate.apply, BlogService.updateData]
    cases hd : dto.categories with
    | none => exact hpost.categories
    | some given =>
      rw [categoriesInput, hd] at hcategories
      exact categories_normalized hcategories

/-! The routines. -/

section
variable {s : SharedBlog} {p : Nat} {postId : Id}

/-- Calls that may be made at any time. -/
def Free (q : BlogRequest) : Prop := ∀ s p, Pre s p q

theorem orThrow_calls {α : Type} {x : Except Thrown α} {f : α → BlogRoutine BlogResponse}
    (h : ∀ a, x = .ok a → (f a).Calls Free) : ((BlogService.orThrow x).bind f).Calls Free := by
  cases x with
  | error e => exact trivial
  | ok a => exact h a rfl

theorem findBlogPostOrThrow_calls (postId : Id) :
    (BlogService.findBlogPostOrThrow postId).Calls Free := by
  refine .bind (.await fun _ _ => trivial) fun post => ?_
  cases post with
  | none => exact trivial
  | some post => exact trivial

theorem createAdminBlogPost_calls (adminUserId : Id) (dto : SaveAdminBlogPostDto)
    {status : BlogPostStatus} (hstatus : status ≠ .withdrawn) :
    (BlogService.createAdminBlogPost adminUserId dto status).Calls Free := by
  apply orThrow_calls
  intro input hinput
  have hnormalized := create_input hinput
  refine .bind (.await fun _ _ => trivial) fun storageName =>
    .bind (.await fun _ _ => trivial) fun _ => .handle ?_ fun error => ?_
  · refine .bind (.await fun _ _ => trivial) fun now => .bind (.await fun _ _ => ⟨?_, ?_⟩)
      fun _ => trivial
    · exact ⟨hnormalized.title, hnormalized.subtitle, hnormalized.authorName,
        hnormalized.authorTitle, hnormalized.categories⟩
    · cases status with
      | draft => exact ⟨⟨fun _ => rfl, fun _ => rfl⟩, nofun, nofun⟩
      | published => exact ⟨⟨nofun, nofun⟩, nofun, nofun⟩
      | withdrawn => exact absurd rfl hstatus
  · exact .bind (.handle (.await fun _ _ => trivial) fun _ => trivial) fun _ => trivial

theorem updateAdminBlogPost_calls (postId : Id) (dto : UpdateAdminBlogPostDto) :
    (BlogService.updateAdminBlogPost postId dto).Calls Free := by
  refine .bind (findBlogPostOrThrow_calls postId) fun post => orThrow_calls fun input hinput => ?_
  have hrest : (do
      awaitBlog (.updatePost postId (BlogService.updateData dto input))
      return { message := "Blog post updated successfully", postId :=
        postId, storageName := some post.storageName } : BlogRoutine BlogResponse).Calls Free :=
    .bind (.await fun _ _ => ⟨.edit rfl rfl rfl, fun _ => update_input hinput⟩) fun _ => trivial
  dsimp only
  split
  · exact .bind (.await fun _ _ => trivial) fun _ => hrest
  · exact hrest

theorem publishAdminBlogPost_calls (postId : Id) :
    (BlogService.publishAdminBlogPost postId).Calls Free := by
  refine .bind (findBlogPostOrThrow_calls postId) fun post => .ite trivial ?_
  refine .bind (.await fun _ _ => trivial) fun now =>
    .bind (.await fun _ _ => ⟨.publish rfl rfl rfl, fun post h => ?_⟩) fun _ => trivial
  exact ⟨h.title, h.subtitle, h.authorName, h.authorTitle, h.categories⟩

theorem deleteAdminBlogPost_calls (postId : Id) :
    (BlogService.deleteAdminBlogPost postId).Calls Free :=
  .bind (findBlogPostOrThrow_calls postId) fun _ => .bind .throwIf fun _ =>
    .bind (.await fun _ _ => trivial) fun _ => .bind (.await fun _ _ => trivial) fun _ => trivial

theorem Inv.published {t : SharedBlog} {post : BlogPost} (hi : Inv t)
    (hpost : t.store.posts.lookup postId = some post) (hstatus : post.status = .published) :
    Published postId t.store := by
  obtain ⟨hlt, -, hdated⟩ := hi.posts postId post hpost
  refine ⟨hlt, fun other hother => ?_⟩
  rw [Option.some.inj (hother.symm.trans hpost)]
  refine Option.isSome_iff_ne_none.mpr fun hnone => ?_
  cases hstatus.symm.trans (hdated.draft.mpr hnone)

theorem published_held :
    Held blog adminRequests outline p (fun _ => True) fun s => Published postId s.store :=
  .always (fun _ _ _ _ _ _ hp h => h.after hp) fun _ _ _ _ h => h

/-- A post that was read as published has been published since. -/
theorem withdrawAdminBlogPost_follows :
    Follows blog adminRequests outline p (BlogService.withdrawAdminBlogPost postId) s := by
  unfold BlogService.withdrawAdminBlogPost BlogService.findBlogPostOrThrow
  rw [Prog.bind_eq, Prog.bind_eq, Prog.bind_assoc]
  refine Follows.awaitFree outline_kept (fun _ => trivial) fun post t d hi _ hr => ?_
  cases post with
  | none => exact .throw
  | some post =>
    have hfound : t.store.posts.lookup postId = some post := by
      cases d with
      | failed => cases hr
      | lost => cases hr
      | delivered => exact Except.ok.inj hr
      | late => exact Except.ok.inj hr
    refine Follows.throwIf fun hstatus => ?_
    have hpublished := (hi.published hfound (not_not.mp hstatus)).after (d := d) (p := p)
      (q := .findPost postId) trivial
    refine Follows.heldAwait outline_kept published_held trivial (fun _ _ _ _ _ => trivial)
      hpublished fun now t d _ _ ht _ => ?_
    refine Follows.heldAwait outline_kept published_held trivial (fun t _ _ _ ht => ?_) ht
      fun _ _ _ _ _ _ _ => .ret
    exact ⟨.withdraw rfl rfl ⟨now, rfl⟩ ht, fun post h =>
      ⟨h.title, h.subtitle, h.authorName, h.authorTitle, h.categories⟩⟩

theorem program_safe (op : BlogOperation) (h : BlogOperation.starts op = true) :
    Safe blog adminRequests outline op.program := by
  have hsafe : ∀ {x : BlogRoutine BlogResponse}, x.Calls Free →
      Safe blog adminRequests outline x :=
    fun hx => Safe.calls hx fun s p q c hq _ _ => hq s p
  cases op with
  | createAdminBlogPost adminUserId dto status =>
    exact hsafe (createAdminBlogPost_calls adminUserId dto (of_decide_eq_true h))
  | updateAdminBlogPost postId dto => exact hsafe (updateAdminBlogPost_calls postId dto)
  | publishAdminBlogPost postId => exact hsafe (publishAdminBlogPost_calls postId)
  | withdrawAdminBlogPost postId => exact fun p s _ => withdrawAdminBlogPost_follows
  | deleteAdminBlogPost postId => exact hsafe (deleteAdminBlogPost_calls postId)

end

theorem starts_safe (s : SharedBlog) (p : Nat) (op : BlogOperation) (hi : Inv s)
    (h : adminRequests.starts s op = true) (_ : ∀ e ∈ s.log, e.pid ≠ p) :
    Meets blog adminRequests outline p op.program (fun _ _ => True) s :=
  program_safe op h p s hi

abbrev Respects (s : BlogPool) : Prop :=
  s.Respects blog adminRequests outline fun _ _ _ _ => True

theorem respects_run {as : List BlogAction} {s : BlogPool}
    (h : blog.run adminRequests (.initial BlogWorld.empty) as = some s) : Respects s :=
  Pool.Respects.run outline_kept starts_safe (.initial ⟨fun _ _ hpost => by cases hpost⟩) h

theorem posts_kept : PostsKept adminRequests := by
  intro as s h
  have hs := respects_run h
  refine ⟨fun postId post hpost => (hs.inv.posts postId post hpost).2, ?_⟩
  intro bs t postId post post' ht hpost hstatus hpost'
  obtain ⟨hlt, -, hdated⟩ := hs.inv.posts postId post hpost
  have hbefore : Published postId s.shared.store := by
    refine ⟨hlt, fun other hother => ?_⟩
    rw [Option.some.inj (hother.symm.trans hpost)]
    exact Option.isSome_iff_ne_none.mpr fun hnone => hstatus (hdated.draft.mpr hnone)
  obtain ⟨ht, hafter⟩ := hs.run_keeps outline_kept starts_safe
    (A := fun s => Published postId s.store) (fun _ _ _ _ _ _ hp h => h.after hp)
    (fun _ _ _ _ h => h) hbefore ht
  intro hdraft
  have hnone := (ht.inv.posts postId post' hpost').2.2.draft.mp hdraft
  have hsome := hafter.2 post' hpost'
  rw [hnone] at hsome
  cases hsome

section
variable {w : BlogWorld} {query : BlogQuery} {postId : Id} {post : BlogPost}

theorem mem_rows : (postId, post) ∈ BlogService.rows w ↔ w.posts.lookup postId = some post := by
  rw [← Option.mem_def, AList.mem_lookup_iff]
  constructor
  · intro h
    obtain ⟨e, he, heq⟩ := List.mem_map.mp h
    cases heq
    exact he
  · exact fun h => List.mem_map.mpr ⟨⟨postId, post⟩, h, rfl⟩

theorem nodup_rows (w : BlogWorld) : ((BlogService.rows w).map Prod.fst).Nodup := by
  rw [BlogService.rows, List.map_map]
  exact w.posts.keys_nodup

theorem isPublished_iff (h : Dated post) :
    BlogService.isPublished post = true ↔ post.status = .published := by
  rw [BlogService.isPublished, Bool.and_eq_true, beq_iff_eq]
  refine ⟨fun hp => hp.1, fun hstatus => ⟨hstatus, Option.isSome_iff_ne_none.mpr fun hnone => ?_⟩⟩
  cases hstatus.symm.trans (h.draft.mpr hnone)

theorem orderBy_total (a b : Id × BlogPost) :
    (BlogService.orderBy a b || BlogService.orderBy b a) = true := by
  rw [BlogService.orderBy, BlogService.orderBy, ← Bool.decide_or, decide_eq_true_eq]
  exact le_total _ _

theorem orderBy_trans (a b c : Id × BlogPost) (hab : BlogService.orderBy a b = true)
    (hbc : BlogService.orderBy b c = true) : BlogService.orderBy a c = true :=
  decide_eq_true ((of_decide_eq_true hbc).trans (of_decide_eq_true hab))

/-- Pages enough are the whole list. -/
theorem pages_eq (contains : String → String → Bool) {n : Nat} (hsearch : query.search = none)
    (h : (BlogService.rows w).length ≤ n * query.limit) :
    pages contains w query n = ((BlogService.rows w).filter fun row =>
      BlogService.isPublished row.2).mergeSort BlogService.orderBy := by
  have hall := Bytes.flatten_segments_all (l := ((BlogService.rows w).filter fun row =>
    BlogService.isPublished row.2 && BlogService.searched contains query.search row.2).mergeSort
      BlogService.orderBy) (c := query.limit) (n := n) (by
        rw [List.length_mergeSort]
        exact (List.length_filter_le _ _).trans h)
  refine hall.trans (congrArg (List.mergeSort · BlogService.orderBy) ?_)
  refine List.filter_congr fun row _ => ?_
  rw [hsearch, BlogService.searched, Bool.and_true]

end

end Redbox.BlogPublication
