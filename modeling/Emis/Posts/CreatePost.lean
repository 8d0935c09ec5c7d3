import Emis.Library.Like
import Emis.Posts.PostsService
import Emis.Posts.Slug

/-!
# Creating posts

`PostsService.create` beside the requests that change and remove posts. The insert checks what the
table of migration `0010_posts.sql` checks of a slug.
-/

namespace Emis.Posts

open Transactions

structure CreatePostValues where
  title : JsString
  kind : PostKind := .news
  summary : String := ""
  body : String

/-- Locks of the other requests, the advisory lock, and entries of the two unique indexes. -/
inductive SlugLock where
  | staff (l : Lock)
  | postSlug
  | postId (id : Uuid)
  | slug (s : String)
  deriving DecidableEq, Repr

/-- PostgreSQL has room for 2³² - 1 pages in a table and for 291 rows in a page. -/
def TABLE_ROWS : ℕ := (2 ^ 32 - 1) * 291

def addPost (row : PostRow) (d : Db) : Db := { d with posts := d.posts ++ [row] }

def insertPost (row : PostRow) : Prog Db SlugLock Error Unit := do
  Prog.require (matchesSlug row.slug.toList) (.database (.check "posts_slug_format_check"))
  Prog.acquire (.postId row.id)
  Prog.acquire (.slug row.slug)
  let d ← Prog.get
  Prog.require (!d.posts.any fun p => p.id == row.id) (.database (.unique "posts_pkey"))
  Prog.require (!d.posts.any fun p => p.slug == row.slug) (.database (.unique "posts_slug_key"))
  Prog.require (d.posts.length < TABLE_ROWS) (.database (.raised "could not extend file"))
  Prog.modify (addPost row)

namespace PostsService

def newPost (now : Instant) (id : Uuid) (slug : Str) (input : CreatePostValues) : PostRow where
  id := id
  slug := String.ofList slug
  title := String.ofList input.title.toWellFormed
  kind := input.kind
  summary := input.summary
  body := input.body
  createdAt := now

/-- `select … where like(posts.slug, base%)`. -/
def similar (base : Str) (d : Db) : List Str :=
  (d.posts.map fun p => p.slug.toList).filter (Like.like (Like.escape base ++ ['%']))

/-- One writer at a time picks a free slug; the unique index is the backstop. -/
def create (unicode : Unicode) (now : Instant) (id : Uuid) (input : CreatePostValues) : Prog Db SlugLock Error Post := do
  Prog.acquire .postSlug
  let base := slugify unicode input.title
  let d ← Prog.get
  let row := newPost now id (uniqueSlug base (similar base d)) input
  insertPost row
  return toPost now row

end PostsService

/-- Creating a post, or one of the requests about a post that exists. -/
inductive SlugCall where
  | create (now : Instant) (id : Uuid) (input : CreatePostValues) (grants : List Grant)
  | staff (call : Call)

def SlugCall.code (unicode : Unicode) : SlugCall → Prog Db SlugLock Error Reply
  | .create now id input grants => do
      Prog.require (hasPermission grants .postsManage) permissionDenied
      Reply.post <$> PostsService.create unicode now id input
  | .staff call => call.code.zoom id (fun d _ => d) SlugLock.staff

/-- `slugSchema` of the public routes. -/
def slugSchema (slug : Str) : Bool := matchesSlug slug && slug.length ≤ 80

end Emis.Posts
