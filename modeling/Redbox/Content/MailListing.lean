import Redbox.Bytes.ByteStrings
import Redbox.Content.SeparateMailboxes
import Mathlib.Data.Prod.Lex

/-! The list of mails that a user is shown, page by page. -/
namespace Redbox.MailActions
open Interleaving

/-- How texts are trimmed and searched. -/
structure Texts where
  trim : String → String
  contains : String → String → Bool

structure ListQuery where
  limit : Nat
  offset : Nat
  sort : String
  folder : String
  search : Option String

structure MailList where
  mails : List MailRow
  totalCount : Nat

namespace MailService

def inFolder (folder : String) (mail : MailRow) : Bool :=
  if folder = "inbox" then !mail.isArchived && !mail.isSpam
  else if folder = "archive" then mail.isArchived && !mail.isSpam
  else if folder = "spam" then mail.isSpam
  else true

def found (texts : Texts) (search : Option String) (mail : MailRow) : Bool :=
  match search.map texts.trim with
  | none => true
  | some term => term == "" || texts.contains mail.subject term || texts.contains mail.sender term

def whereCondition (texts : Texts) (userId : Id) (query : ListQuery) (mail : MailRow) : Bool :=
  mail.userId == userId && inFolder query.folder mail && found texts query.search mail

/-- The columns of `orderBy`, a descending one with its sign changed. -/
def sortKey (sort : String) (mail : MailRow) : Int ×ₗ Int :=
  let isRead : Int := if mail.isRead then 1 else 0
  if sort = "oldest" then toLex (0, mail.createdAt)
  else if sort = "unread" then toLex (isRead, -mail.createdAt)
  else if sort = "read" then toLex (-isRead, -mail.createdAt)
  else toLex (0, -mail.createdAt)

/-- Rows that compare equal stay in the order of the table. -/
def orderBy (sort : String) (a b : MailRow) : Bool := decide (sortKey sort a ≤ sortKey sort b)

def getUserMails (texts : Texts) (s : Mailroom) (userId : Id) (query : ListQuery) : MailList :=
  let rows := s.mails.filter (whereCondition texts userId query)
  ⟨((rows.mergeSort (orderBy query.sort)).drop query.offset).take query.limit, rows.length⟩

end MailService

def Folder.name : Folder → String
  | inbox => "inbox"
  | archive => "archive"
  | spam => "spam"

/-- The mails of the first `n` pages. -/
def pages (texts : Texts) (s : Mailroom) (userId : Id) (query : ListQuery) (n : Nat) :
    List MailRow :=
  (List.range n).flatMap fun i =>
    (MailService.getUserMails texts s userId { query with offset := i * query.limit }).mails

/-- In every run, pages enough for a folder show its mails, each once and in order. -/
def FoldersShown (texts : Texts) (R : MailRules) : Prop :=
  ∀ as s userId folder query n, mailroom.run R (.initial .empty) as = some s →
    query.folder = Folder.name folder → query.search = none →
    ((s.shared.store.box userId).filter (decide <| ·.folder = folder)).length ≤ n * query.limit →
    (pages texts s.shared.store userId query n).Pairwise
      (fun a b => MailService.orderBy query.sort a b = true) ∧
    ((pages texts s.shared.store userId query n).map (·.id)).Nodup ∧
    ((pages texts s.shared.store userId query n).map MailRow.entry).Perm
      ((s.shared.store.box userId).filter (decide <| ·.folder = folder))

section
variable {query : ListQuery} {sort : String}

theorem orderBy_total (a b : MailRow) :
    (MailService.orderBy sort a b || MailService.orderBy sort b a) = true := by
  rw [MailService.orderBy, MailService.orderBy, ← Bool.decide_or, decide_eq_true_eq]
  exact le_total _ _

theorem orderBy_trans (a b c : MailRow) (hab : MailService.orderBy sort a b = true)
    (hbc : MailService.orderBy sort b c = true) : MailService.orderBy sort a c = true :=
  decide_eq_true ((of_decide_eq_true hab).trans (of_decide_eq_true hbc))

/-- Pages enough are the whole list. -/
theorem pages_eq (texts : Texts) (s : Mailroom) (userId : Id) (query : ListQuery) {n : Nat}
    (h : (s.mails.filter (MailService.whereCondition texts userId query)).length ≤
      n * query.limit) :
    pages texts s userId query n =
      (s.mails.filter (MailService.whereCondition texts userId query)).mergeSort
        (MailService.orderBy query.sort) := by
  have hall := Bytes.flatten_segments_all (l := (s.mails.filter
    (MailService.whereCondition texts userId query)).mergeSort (MailService.orderBy query.sort))
    (c := query.limit) (n := n) (by rwa [List.length_mergeSort])
  exact hall

theorem inFolder_name (folder : Folder) (mail : MailRow) :
    MailService.inFolder folder.name mail = decide (mail.folder = folder) := by
  unfold MailService.inFolder MailRow.folder
  cases folder <;> cases mail.isArchived <;> cases mail.isSpam <;> rfl

/-- The rows of a folder are the entries of the mailbox that lie there. -/
theorem map_entry_folder (texts : Texts) (s : Mailroom) (userId : Id) {folder : Folder}
    (hfolder : query.folder = folder.name) (hsearch : query.search = none) :
    (s.mails.filter (MailService.whereCondition texts userId query)).map MailRow.entry =
      (s.box userId).filter (decide <| ·.folder = folder) := by
  unfold Mailroom.box boxOf
  rw [List.filter_map, List.filter_filter]
  refine congrArg _ (List.filter_congr fun mail _ => ?_)
  rw [MailService.whereCondition, hfolder, hsearch, inFolder_name, MailService.found,
    Option.map_none, Bool.and_true, Bool.and_comm]
  rfl

end
end Redbox.MailActions
