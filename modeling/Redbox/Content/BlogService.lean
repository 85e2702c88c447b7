import Redbox.Backend.Operations
import Redbox.Text.JsString

/-! Blog posts: a row for each post, and its text as an object. -/
namespace Redbox
open Interleaving Text

inductive BlogPostStatus where
  | draft | published | withdrawn
  deriving DecidableEq

structure BlogPost where
  title : Option String
  subtitle : String
  categories : List String
  storageName : Id
  contentSize : Nat
  status : BlogPostStatus
  authorAdminUserId : Id
  authorName : String
  authorTitle : Option String
  publishedAt : Option Time
  withdrawnAt : Option Time

/-- The columns that an update sets. -/
structure BlogPostUpdate where
  title : Option (Option String) := none
  subtitle : Option String := none
  categories : Option (List String) := none
  authorName : Option String := none
  authorTitle : Option (Option String) := none
  contentSize : Option Nat := none
  status : Option BlogPostStatus := none
  publishedAt : Option Time := none
  withdrawnAt : Option (Option Time) := none

def BlogPostUpdate.apply (data : BlogPostUpdate) (post : BlogPost) : BlogPost :=
  { post with
    title := data.title.getD post.title
    subtitle := data.subtitle.getD post.subtitle
    categories := data.categories.getD post.categories
    authorName := data.authorName.getD post.authorName
    authorTitle := data.authorTitle.getD post.authorTitle
    contentSize := data.contentSize.getD post.contentSize
    status := data.status.getD post.status
    publishedAt := data.publishedAt.orElse fun _ => post.publishedAt
    withdrawnAt := data.withdrawnAt.getD post.withdrawnAt }

structure BlogAuthorDto where
  name : String
  title : Option String

structure SaveAdminBlogPostDto where
  title : Option String
  subtitle : String
  author : Option BlogAuthorDto
  categories : Option (List String)
  markdown : String

/-- Of a field that may be left out, `some none` is the value null. -/
structure UpdateAdminBlogPostDto where
  title : Option (Option String)
  subtitle : Option (Option String)
  author : Option (Option BlogAuthorDto)
  categories : Option (Option (List String))
  markdown : Option (Option String)

inductive BlogRequest where
  | findPost (postId : Id)
  | createPost (post : BlogPost)
  | updatePost (postId : Id) (data : BlogPostUpdate)
  | deletePost (postId : Id)
  | putObject (storageName : Id) (body : String)
  | deleteObject (storageName : Id)
  | now
  | random

abbrev BlogRequest.Answer : BlogRequest → Type
  | findPost _ => Option BlogPost
  | createPost _ => Id
  | now => Time
  | random => Id
  | _ => Unit

def BlogRequest.remote : BlogRequest → Bool
  | now | random => false
  | _ => true

abbrev BlogReply (q : BlogRequest) : Type := Except Thrown q.Answer
abbrev BlogRoutine (α : Type) := Prog BlogRequest BlogReply Thrown α

structure BlogWorld where
  posts : AList fun _ : Id => BlogPost
  objects : AList fun _ : Id => String
  clock : Time
  nextId : Id

namespace BlogWorld

/-- The name of an object is unique among the rows. -/
def deliver (w : BlogWorld) : (q : BlogRequest) → BlogWorld × BlogReply q
  | .findPost postId => (w, .ok (w.posts.lookup postId))
  | .createPost post =>
    if w.posts.entries.any (fun e => e.2.storageName == post.storageName) then (w,
      .error (.fault .uniqueConflict))
    else ({ w with posts := w.posts.insert w.nextId post, nextId := w.nextId + 1 }, .ok w.nextId)
  | .updatePost postId data => match w.posts.lookup postId with
    | some post => ({ w with posts := w.posts.insert postId (data.apply post) }, .ok ())
    | none => (w, .error (.fault .recordNotFound))
  | .deletePost postId => match w.posts.lookup postId with
    | some _ => ({ w with posts := w.posts.erase postId }, .ok ())
    | none => (w, .error (.fault .recordNotFound))
  | .putObject storageName body => ({ w with objects := w.objects.insert storageName body }, .ok ())
  | .deleteObject storageName => ({ w with objects := w.objects.erase storageName }, .ok ())
  | .now => (w, .ok w.clock)
  | .random => ({ w with nextId := w.nextId + 1 }, .ok w.nextId)

/-- The time and the names are not asked for elsewhere, and do not fail. -/
def exec (d : Delivery) (q : BlogRequest) (w : BlogWorld) : BlogWorld × BlogReply q :=
  if q.remote then
    match d with
    | .delivered | .late => w.deliver q
    | .failed => (w, .error (.fault .unavailable))
    | .lost => ((w.deliver q).1, .error (.fault .unavailable))
  else w.deliver q

def tick (n : Nat) (w : BlogWorld) : BlogWorld := { w with clock := w.clock + n }

end BlogWorld

def awaitBlog (q : BlogRequest) : BlogRoutine q.Answer := Prog.await id q

structure BlogResponse where
  message : String
  postId : Id
  storageName : Option Id := none
  status : Option String := none

namespace BlogService

structure NormalizedBlogInput where
  title : Option String
  subtitle : String
  authorName : String
  authorTitle : Option String
  categories : List String
  markdown : String
  contentSize : Nat

def normalizeMarkdown (markdown : Option String) : Except Thrown String :=
  match markdown with
  | some text =>
    if trim text = "" then .error (badRequest "Markdown content can't be empty") else .ok text
  | none => .error (badRequest "Markdown content can't be empty")

def normalizeRequiredString (value : Option String) (label : String) : Except Thrown String :=
  match (value.map trim).filter (· ≠ "") with
  | some normalizedValue => .ok normalizedValue
  | none => .error (badRequest (label ++ " can't be empty"))

def normalizeOptionalString (value : Option String) : Option String :=
  (value.map trim).filter (· ≠ "")

def normalizeCategories (categories : Option (List String)) : Except Thrown (List String) :=
  let normalizedCategories := (((categories.getD []).map trim).filter (· ≠ "")).eraseDups
  if 10 < normalizedCategories.length then .error
    (badRequest "You can't add more than 10 categories")
  else if normalizedCategories.any (fun category => decide (50 < utf16Length category)) then
    .error (badRequest "Categories can't be longer than 50 characters")
  else .ok normalizedCategories

/-- A field of null or undefined is read. -/
def typeError : Thrown := internalServerError "Internal server error"

def normalizeCreateInput (dto : SaveAdminBlogPostDto) : Except Thrown NormalizedBlogInput := do
  let markdown ← normalizeMarkdown (some dto.markdown)
  let subtitle ← normalizeRequiredString (some dto.subtitle) "Subtitle"
  let some author := dto.author | .error typeError
  let authorName ← normalizeRequiredString (some author.name) "Author name"
  let categories ← normalizeCategories dto.categories
  return ⟨normalizeOptionalString dto.title, subtitle, authorName,
    normalizeOptionalString author.title, categories,
    markdown, markdown.utf8ByteSize⟩

def normalizeUpdateInput (dto : UpdateAdminBlogPostDto) (existingPost : BlogPost) :
    Except Thrown NormalizedBlogInput := do
  let markdown ← match dto.markdown with
    | none => .ok ""
    | some markdown => normalizeMarkdown markdown
  let subtitle ← match dto.subtitle with
    | none => .ok existingPost.subtitle
    | some subtitle => normalizeRequiredString subtitle "Subtitle"
  let authorName ← match dto.author with
    | some (some author) => normalizeRequiredString (some author.name) "Author name"
    | _ => .ok existingPost.authorName
  let authorTitle ← match dto.author with
    | none => .ok existingPost.authorTitle
    | some (some author) => .ok (normalizeOptionalString author.title)
    | some none => .error typeError
  let categories ← match dto.categories with
    | none => .ok existingPost.categories
    | some categories => normalizeCategories categories
  return ⟨(dto.title.map normalizeOptionalString).getD existingPost.title, subtitle, authorName,
    authorTitle, categories,
    markdown, if dto.markdown.isNone then existingPost.contentSize else markdown.utf8ByteSize⟩

def toApiStatus : BlogPostStatus → String
  | .published => "published"
  | .withdrawn => "withdrawn"
  | .draft => "draft"

def findBlogPostOrThrow (postId : Id) : BlogRoutine BlogPost := do
  let some post ← awaitBlog (.findPost postId) | throw (notFound "Blog post not found")
  return post

def orThrow {α : Type} : Except Thrown α → BlogRoutine α
  | .ok a => return a
  | .error e => throw e

/-- `deleteMarkdownObject` with `ignoreErrors` -/
def deleteMarkdownObjectIgnoring (storageName : Id) : BlogRoutine Unit :=
  Prog.handle (awaitBlog (.deleteObject storageName)) fun _ => .ret ()

def createAdminBlogPost (adminUserId : Id) (dto : SaveAdminBlogPostDto) (status : BlogPostStatus) :
    BlogRoutine BlogResponse := do
  let input ← orThrow (normalizeCreateInput dto)
  let storageName ← awaitBlog .random
  awaitBlog (.putObject storageName input.markdown)
  Prog.handle (do
    let now ← awaitBlog .now
    let postId ← awaitBlog (.createPost
      { title := input.title, subtitle := input.subtitle, categories :=
        input.categories, storageName := storageName
        contentSize := input.contentSize, status := status, authorAdminUserId :=
          adminUserId, authorName := input.authorName
        authorTitle := input.authorTitle, publishedAt :=
          if status = .published then some now else none, withdrawnAt := none })
    return ⟨if status = .published then "Blog post published successfully"
      else "Blog post saved as draft successfully",
      postId, some storageName, some (toApiStatus status)⟩) fun error => do
    deleteMarkdownObjectIgnoring storageName
    throw error

/-- The columns that `updateAdminBlogPost` sets. -/
def updateData (dto : UpdateAdminBlogPostDto) (input : NormalizedBlogInput) : BlogPostUpdate where
  title := dto.title.map fun _ => input.title
  subtitle := dto.subtitle.map fun _ => input.subtitle
  categories := dto.categories.map fun _ => input.categories
  authorName := dto.author.map fun _ => input.authorName
  authorTitle := dto.author.map fun _ => input.authorTitle
  contentSize := dto.markdown.map fun _ => input.contentSize

def updateAdminBlogPost (postId : Id) (dto : UpdateAdminBlogPostDto) :
    BlogRoutine BlogResponse := do
  let post ← findBlogPostOrThrow postId
  let input ← orThrow (normalizeUpdateInput dto post)
  if dto.markdown.isSome then
    awaitBlog (.putObject post.storageName input.markdown)
  awaitBlog (.updatePost postId (updateData dto input))
  return { message := "Blog post updated successfully", postId :=
    postId, storageName := some post.storageName }

def publishAdminBlogPost (postId : Id) : BlogRoutine BlogResponse := do
  let post ← findBlogPostOrThrow postId
  if post.status = .published then
    return { message := "Blog post is already published", postId :=
      postId, status := some (toApiStatus post.status) }
  let publishedAt ← awaitBlog .now
  awaitBlog (.updatePost postId { status := some .published, publishedAt := some publishedAt, withdrawnAt := some none })
  return { message := "Blog post published successfully", postId :=
    postId, status := some "published" }

def withdrawAdminBlogPost (postId : Id) : BlogRoutine BlogResponse := do
  let post ← findBlogPostOrThrow postId
  Prog.throwIf (post.status ≠ .published) (badRequest "Only published posts can be withdrawn")
  let now ← awaitBlog .now
  awaitBlog (.updatePost postId { status := some .withdrawn, withdrawnAt := some (some now) })
  return { message := "Blog post withdrawn successfully", postId :=
    postId, status := some "withdrawn" }

def deleteAdminBlogPost (postId : Id) : BlogRoutine BlogResponse := do
  let post ← findBlogPostOrThrow postId
  Prog.throwIf (post.status = .published)
    (badRequest "Published posts must be withdrawn before deletion")
  awaitBlog (.deleteObject post.storageName)
  awaitBlog (.deletePost postId)
  return { message := "Blog post deleted successfully", postId :=
    postId, storageName := some post.storageName }

end BlogService

inductive BlogOperation where
  | createAdminBlogPost (adminUserId : Id) (dto : SaveAdminBlogPostDto) (status : BlogPostStatus)
  | updateAdminBlogPost (postId : Id) (dto : UpdateAdminBlogPostDto)
  | publishAdminBlogPost (postId : Id)
  | withdrawAdminBlogPost (postId : Id)
  | deleteAdminBlogPost (postId : Id)

def BlogOperation.program : BlogOperation → BlogRoutine BlogResponse
  | createAdminBlogPost adminUserId dto status =>
    BlogService.createAdminBlogPost adminUserId dto status
  | updateAdminBlogPost postId dto => BlogService.updateAdminBlogPost postId dto
  | publishAdminBlogPost postId => BlogService.publishAdminBlogPost postId
  | withdrawAdminBlogPost postId => BlogService.withdrawAdminBlogPost postId
  | deleteAdminBlogPost postId => BlogService.deleteAdminBlogPost postId

def blog : System BlogRequest BlogReply Thrown BlogResponse BlogWorld BlogOperation
      Delivery Nat where
  exec := BlogWorld.exec
  drift := BlogWorld.tick
  program := BlogOperation.program

abbrev SharedBlog := Shared BlogRequest BlogReply BlogWorld
abbrev BlogEvent := Event BlogRequest BlogReply
abbrev BlogRules := Rules BlogRequest BlogReply BlogWorld BlogOperation Delivery Nat
abbrev BlogAction := Action BlogOperation Delivery Nat
abbrev BlogPool := Pool BlogRequest BlogReply Thrown BlogResponse BlogWorld BlogOperation

/-- Each row names an object with a text of the length that the row has. -/
def TextsMatch (w : BlogWorld) : Prop :=
  ∀ postId post, w.posts.lookup postId = some post →
    ∃ text, w.objects.lookup post.storageName = some text ∧ text.utf8ByteSize = post.contentSize

end Redbox
