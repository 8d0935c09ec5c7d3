import Emis.Common.Dates
import Emis.Common.Permissions
import Emis.Common.Versioning

/-!
# News and announcements

`modules/posts` with the table of migration `0010_posts.sql`. Whether a post is a
draft, scheduled or live is just its publish time.
-/

namespace Emis.Posts

open Transactions

inductive PostKind where
  | announcement
  | news
  | story
  deriving DecidableEq, Repr

structure PostRow where
  id : Uuid
  slug : String
  title : String
  kind : PostKind := .news
  summary : String := ""
  body : String
  publishAt : Option Instant := none
  createdAt : Instant := 0
  version : ℕ := 1
  deriving DecidableEq, Repr

structure Db where
  posts : List PostRow := []

inductive Lock where
  | post (id : Uuid)
  deriving DecidableEq, Repr

abbrev Tx := Prog Db Lock Error

def postsTable : VersionedTable Db Lock PostRow where
  rows d := d.posts
  put rows d := { d with posts := rows }
  id r := r.id
  version r := r.version
  withVersion n r := { r with version := n }
  rowLock := .post

namespace postErrors

def notFound : Error := .http <| Emis.notFound "POST_NOT_FOUND" "Post not found."

def publishRestricted : Error :=
  .http <| forbidden "POST_PUBLISH_RESTRICTED"
    "Only someone who can publish may change or remove a post that is live or scheduled."

end postErrors

inductive PostStatus where
  | draft
  | scheduled
  | published
  deriving DecidableEq, Repr

def postStatusAt (publishAt : Option Instant) (now : Instant) : PostStatus :=
  match publishAt with
  | none => .draft
  | some time => if now < time then .scheduled else .published

/-- `toPost`: the row with its status. -/
structure Post where
  row : PostRow
  status : PostStatus

def toPost (now : Instant) (row : PostRow) : Post := ⟨row, postStatusAt row.publishAt now⟩

structure UpdatePostRequest where
  title : Option String := none
  kind : Option PostKind := none
  summary : Option String := none
  body : Option String := none

namespace PostsService

def row (id : Uuid) : Tx PostRow := do
  let d ← Prog.get
  Prog.expect (postsTable.row? d id) postErrors.notFound

def get (now : Instant) (id : Uuid) : Tx Post := toPost now <$> row id

/-- Only publishers may change or remove what the public can already see (or soon will). -/
def assertMayChange (row : PostRow) (grants : List Grant) : Tx Unit :=
  Prog.require (row.publishAt.isNone || hasPermission grants .postsPublish) postErrors.publishRestricted

def editedRow (input : UpdatePostRequest) (p : PostRow) : PostRow :=
  { p with
    title := input.title.getD p.title
    kind := input.kind.getD p.kind
    summary := input.summary.getD p.summary
    body := input.body.getD p.body }

def update (now : Instant) (id : Uuid) (input : UpdatePostRequest) (expectedVersion : ℕ)
    (grants : List Grant) : Tx Post := do
  let before ← row id
  assertMayChange before grants
  let result ← updateWithVersion postsTable id expectedVersion (editedRow input)
  let row ← versionedRow result postErrors.notFound
  return toPost now row

def publishedRow (publishAt : Option Instant) (p : PostRow) : PostRow := { p with publishAt := publishAt }

/-- A time that is not ahead means now. -/
def publishTime (now : Instant) (requested : Option Instant) : Instant :=
  match requested with
  | none => now
  | some time => if now < time then time else now

def publish (now : Instant) (id : Uuid) (requested : Option Instant) (expectedVersion : ℕ) : Tx Post := do
  let result ← updateWithVersion postsTable id expectedVersion
    (publishedRow (some (publishTime now requested)))
  let row ← versionedRow result postErrors.notFound
  return toPost now row

def unpublish (now : Instant) (id : Uuid) (expectedVersion : ℕ) : Tx Post := do
  let result ← updateWithVersion postsTable id expectedVersion (publishedRow none)
  let row ← versionedRow result postErrors.notFound
  return toPost now row

/-- `DELETE` has no version to check. -/
def remove (id : Uuid) (grants : List Grant) : Tx Unit := do
  let before ← row id
  assertMayChange before grants
  let _ ← Prog.updateWhere (.post id) (fun d => d.posts.any fun p => p.id == id) fun d =>
    { d with posts := d.posts.filter fun p => p.id != id }

end PostsService

/-! ## Requests -/

/-- What staff can ask for, with the grants they hold. -/
inductive Call where
  | update (now : Instant) (id : Uuid) (input : UpdatePostRequest) (expectedVersion : ℕ)
      (grants : List Grant)
  | publish (now : Instant) (id : Uuid) (requested : Option Instant) (expectedVersion : ℕ)
      (grants : List Grant)
  | unpublish (now : Instant) (id : Uuid) (expectedVersion : ℕ) (grants : List Grant)
  | remove (id : Uuid) (grants : List Grant)

inductive Reply where
  | post (p : Post)
  | removed

def Call.grants : Call → List Grant
  | .update _ _ _ _ grants | .publish _ _ _ _ grants | .unpublish _ _ _ grants | .remove _ grants => grants

/-- `@RequirePermission` of the controller. -/
def Call.permission : Call → Permission
  | .update .. | .remove .. => .postsManage
  | .publish .. | .unpublish .. => .postsPublish

def Call.service : Call → Tx Reply
  | .update now id input expectedVersion grants =>
      Reply.post <$> PostsService.update now id input expectedVersion grants
  | .publish now id requested expectedVersion _ =>
      Reply.post <$> PostsService.publish now id requested expectedVersion
  | .unpublish now id expectedVersion _ => Reply.post <$> PostsService.unpublish now id expectedVersion
  | .remove id grants => (fun _ => Reply.removed) <$> PostsService.remove id grants

def Call.code (call : Call) : Tx Reply := do
  Prog.require (hasPermission call.grants call.permission) permissionDenied
  call.service

end Emis.Posts
