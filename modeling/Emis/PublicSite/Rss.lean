import Emis.Common.Dates
import Emis.Common.JsString
import Emis.Library.Xml

/-!
# The news feed

`apps/web/src/lib/rss.ts`. A template literal is the list of its strings and values.
-/

namespace Emis.PublicSite

open Numerals Xml

def WEEKDAYS : List String := ["Thu", "Fri", "Sat", "Sun", "Mon", "Tue", "Wed"]

def MONTHS : List String :=
  ["Jan", "Feb", "Mar", "Apr", "May", "Jun", "Jul", "Aug", "Sep", "Oct", "Nov", "Dec"]

/-- `Date.prototype.toUTCString`; 1 January 1970 was a Thursday. -/
def toUTCString (date : Instant) : Str :=
  let day := date / 86400000
  let parts := civilOf day
  let ms := (date % 86400000).toNat
  ((WEEKDAYS[(day % 7).toNat]?).getD "").toList ++ ',' :: ' ' :: numeral 2 parts.day ++
    ' ' :: ((MONTHS[parts.month - 1]?).getD "").toList ++
    ' ' :: (if parts.year < 0 then ['-'] else []) ++ numeral 4 parts.year.natAbs ++
    ' ' :: numeral 2 (ms / 3600000) ++ ':' :: numeral 2 (ms / 60000 % 60) ++
    ':' :: numeral 2 (ms / 1000 % 60) ++ " GMT".toList

example : toUTCString 1790402341323 = "Sat, 26 Sep 2026 05:59:01 GMT".toList := by decide +kernel

/-- `ILLEGAL`. -/
def isIllegal (u : UInt16) : Bool := [11, 12].contains u.toNat || u.toNat ≤ 8 || (14 ≤ u.toNat && u.toNat ≤ 31)

def replaceAll (c : Char) (entity : Str) (value : JsString) : JsString :=
  value.flatMap fun u => if u.toNat = c.toNat then JsString.ofChars entity else [u]

def xmlEscape (value : JsString) : JsString :=
  let kept := value.filter fun u => !isIllegal u
  let ampersands := replaceAll '&' ['&', 'a', 'm', 'p', ';'] kept
  let less := replaceAll '<' ['&', 'l', 't', ';'] ampersands
  let greater := replaceAll '>' ['&', 'g', 't', ';'] less
  let quotes := replaceAll '\x22' ['&', 'q', 'u', 'o', 't', ';'] greater
  replaceAll '\'' ['&', 'a', 'p', 'o', 's', ';'] quotes

/-- With the strings of JavaScript, or with what a reader of the feed makes of them. -/
structure RssItem (S : Type) where
  title : S
  link : S
  description : S
  publishedAt : Instant

structure RssFeed (S : Type) where
  title : S
  link : S
  description : S
  items : List (RssItem S)

inductive Piece (S : Type) where
  | markup (s : Str)
  | value (v : S)

section Template

variable {S : Type}

def RssItem.pieces (item : RssItem S) : List (Piece S) :=
  [.markup "    <item>\n      <title>".toList, .value item.title,
    .markup "</title>\n      <link>".toList, .value item.link,
    .markup "</link>\n      <guid isPermaLink=\x22true\x22>".toList, .value item.link,
    .markup "</guid>\n      <pubDate>".toList, .markup (toUTCString item.publishedAt),
    .markup "</pubDate>\n      <description>".toList, .value item.description,
    .markup "</description>\n    </item>".toList]

def RssFeed.pieces (feed : RssFeed S) : List (Piece S) :=
  let items := [.markup ['\n']].intercalate (feed.items.map RssItem.pieces)
  [.markup "<?xml version=\x221.0\x22 encoding=\x22UTF-8\x22?>\n<rss version=\x222.0\x22>\n  <channel>\n    <title>".toList,
    .value feed.title, .markup "</title>\n    <link>".toList, .value feed.link,
    .markup "</link>\n    <description>".toList, .value feed.description,
    .markup "</description>\n".toList] ++ items ++ [.markup "\n  </channel>\n</rss>\n".toList]

end Template

def Piece.units : Piece JsString → JsString
  | .markup s => JsString.ofChars s
  | .value v => xmlEscape v

def buildRss (feed : RssFeed JsString) : JsString := feed.pieces.flatMap Piece.units

/-! ## What is written -/

/-- The characters of a string that XML allows. -/
def allowed (s : JsString) : Str :=
  s.codePoints.filterMap fun
    | .scalar c => if isChar c then some c else none
    | .lone _ _ => none

def name (s : Str) (h : s.head?.any isNameStart = true ∧ s.all isNameChar = true) : Name where
  text := s
  start := (Option.any_eq_true _ _).1 h.1
  chars := List.all_eq_true.1 h.2

namespace Tag

def rss : Name := name ['r', 's', 's'] (by decide)

def channel : Name := name ['c', 'h', 'a', 'n', 'n', 'e', 'l'] (by decide)

def title : Name := name ['t', 'i', 't', 'l', 'e'] (by decide)

def link : Name := name ['l', 'i', 'n', 'k'] (by decide)

def description : Name := name "description".toList (by decide)

def item : Name := name ['i', 't', 'e', 'm'] (by decide)

def guid : Name := name ['g', 'u', 'i', 'd'] (by decide)

def pubDate : Name := name ['p', 'u', 'b', 'D', 'a', 't', 'e'] (by decide)

end Tag

/-- `version="2.0"`. -/
def version : Attribute := ⟨name "version".toList (by decide), ['2', '.', '0'], by decide⟩

/-- `isPermaLink="true"`. -/
def isPermaLink : Attribute := ⟨name "isPermaLink".toList (by decide), ['t', 'r', 'u', 'e'], by decide⟩

def leaf (n : Name) (attributes : List Attribute) (text : Str) : Node := .element n attributes (text.map .char)

/-- The next line, indented. -/
def newLine (indent : ℕ) : Str := '\n' :: List.replicate indent ' '

/-- The element of a post. -/
def RssItem.node (post : RssItem Str) : Node :=
  .element Tag.item [] ((newLine 6).map .char ++ leaf Tag.title [] post.title :: ((newLine 6).map .char ++
    leaf Tag.link [] post.link :: ((newLine 6).map .char ++ leaf Tag.guid [isPermaLink] post.link ::
    ((newLine 6).map .char ++ leaf Tag.pubDate [] (toUTCString post.publishedAt) :: ((newLine 6).map .char ++
    leaf Tag.description [] post.description :: (newLine 4).map .char)))))

/-- The posts, each on lines of its own. -/
def itemNodes (items : List (RssItem Str)) : List Node :=
  [.char '\n'].intercalate (items.map fun post => (List.replicate 4 ' ').map .char ++ [post.node])

/-- The tree of a feed: what it says of itself, and one item for each post. -/
def RssFeed.node (feed : RssFeed Str) : Node :=
  .element Tag.rss [version] ((newLine 2).map .char ++ .element Tag.channel [] ((newLine 4).map .char ++
    leaf Tag.title [] feed.title :: ((newLine 4).map .char ++ leaf Tag.link [] feed.link :: ((newLine 4).map .char ++
    leaf Tag.description [] feed.description :: .char '\n' :: (itemNodes feed.items ++ (newLine 2).map .char)))) ::
    [.char '\n'])

def RssFeed.map {S T : Type} (f : S → T) (feed : RssFeed S) : RssFeed T where
  title := f feed.title
  link := f feed.link
  description := f feed.description
  items := feed.items.map fun post => ⟨f post.title, f post.link, f post.description, post.publishedAt⟩

/-- A reader of XML finds each post in its place, with the texts that it was built from, less what
XML forbids. -/
def Readable (feed : RssFeed JsString) : Prop :=
  ∃ text, JsString.ofChars text = buildRss feed ∧ Document text (feed.map allowed).node

/-- No half of a character, no U+FFFE and U+FFFF, and no carriage return. -/
def Clean (s : JsString) : Prop :=
  ∀ p ∈ s.codePoints, ∃ c, p = .scalar c ∧ c ≠ '\uFFFE' ∧ c ≠ '\uFFFF' ∧ c ≠ '\r'

def RssFeed.values {S : Type} (feed : RssFeed S) : List S :=
  feed.title :: feed.link :: feed.description ::
    feed.items.flatMap fun post => [post.title, post.link, post.description]

end Emis.PublicSite
