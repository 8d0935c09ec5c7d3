import Emis.PublicSite.Rss

/-!
# The text of a feed

If a feed consists of characters, its text is that of the document with its tree.
-/

namespace Emis.PublicSite

open Numerals Xml

def Piece.text : Piece Str → Str
  | .markup s => s
  | .value v => escape v

/-- An element and what follows it. -/
def elementText (n : Name) (attributes : List Attribute) (inner rest : Str) : Str :=
  startTag n attributes ++ (inner ++ (endTag n ++ rest))

/-! ## Items -/

theorem content_leaf {rest : Str} {nodes : List Node} (h : Content rest nodes) (n : Name) (a : List Attribute)
    (ha : (a.map fun x : Attribute => x.name.text).Nodup) (t : Str) :
    Content (elementText n a (escape t) rest) (leaf n a t :: nodes) := .element ha (content_text t) h

theorem content_line {s : Str} {nodes : List Node} (h : Content s nodes) (k : ℕ) :
    Content (newLine k ++ s) ((newLine k).map .char ++ nodes) := by
  refine content_blank (fun c hc => ?_) h
  rcases List.mem_cons.1 hc with rfl | hc
  · decide
  · rw [List.eq_of_mem_replicate hc]
    decide

theorem content_newLine (k : ℕ) : Content (newLine k) ((newLine k).map .char) := by
  have h := content_line .nil k
  rwa [List.append_nil, List.append_nil] at h

/-- A plain text is its own escape. -/
def isPlain (c : Char) : Bool := c.isAlphanum || [',', ' ', ':', '-'].contains c

theorem charText_of_isPlain {c : Char} (h : isPlain c = true) : charText c = [c] := by
  have hlist : ∀ e ∈ entities, isPlain e.2 = false := by decide
  have hnone : (entities.find? fun e => e.2 == c) = none := by
    refine List.find?_eq_none.2 fun e he heq => ?_
    rw [← beq_iff_eq.1 heq, hlist e he] at h
    cases h
  rw [charText, hnone]

theorem escape_of_isPlain {s : Str} (h : ∀ c ∈ s, isPlain c = true) : escape s = s := by
  induction s with
  | nil => rfl
  | cons c s ih =>
      obtain ⟨hc, hs⟩ := List.forall_mem_cons.1 h
      rw [escape, List.flatMap_cons, charText_of_isPlain hc, ← escape, ih hs]
      rfl

theorem isPlain_numeral (w n : ℕ) : ∀ c ∈ numeral w n, isPlain c = true := by
  have hdigit : ∀ c : Char, c.isDigit = true → isPlain c = true := by
    intro c hc
    rw [isPlain, Char.isAlphanum, hc, Bool.or_true, Bool.true_or]
  intro c hc
  obtain ⟨k, hk⟩ := numeral_eq w n
  rw [hk, List.mem_append, List.mem_replicate] at hc
  rcases hc with ⟨-, rfl⟩ | hc
  · decide
  · exact hdigit c (digits_toDigits n c hc)

theorem isPlain_getD {names : List String} (h : ∀ s ∈ names, ∀ c ∈ s.toList, isPlain c = true) (i : ℕ) :
    ∀ c ∈ ((names[i]?).getD "").toList, isPlain c = true := by
  cases hi : names[i]? with
  | none => simp
  | some s => exact h s (List.mem_of_getElem? hi)

theorem isPlain_toUTCString (date : Instant) : ∀ c ∈ toUTCString date, isPlain c = true := by
  have hweekday : ∀ s ∈ WEEKDAYS, ∀ c ∈ s.toList, isPlain c = true := by decide
  have hmonth : ∀ s ∈ MONTHS, ∀ c ∈ s.toList, isPlain c = true := by decide
  have hsign : ∀ b : Prop, [Decidable b] → ∀ c ∈ (if b then ['-'] else []), isPlain c = true := by
    intro b _ c hc
    split at hc
    · rw [List.mem_singleton.1 hc]
      decide
    · cases hc
  have hgmt : ∀ c ∈ " GMT".toList, isPlain c = true := by decide
  simp only [toUTCString, List.forall_mem_append, List.forall_mem_cons]
  have hspace : isPlain ' ' = true := by decide
  have hcolon : isPlain ':' = true := by decide
  exact ⟨⟨⟨⟨⟨⟨⟨⟨isPlain_getD hweekday _, by decide, hspace, isPlain_numeral _ _⟩, hspace, isPlain_getD hmonth _⟩,
    hspace, hsign _⟩, isPlain_numeral _ _⟩, hspace, isPlain_numeral _ _⟩, hcolon, isPlain_numeral _ _⟩, hcolon,
    isPlain_numeral _ _⟩, hgmt⟩

/-- What is between the tags of an item. -/
def RssItem.inner (post : RssItem Str) : Str :=
  newLine 6 ++ elementText Tag.title [] (escape post.title) (newLine 6 ++ elementText Tag.link [] (escape post.link)
    (newLine 6 ++ elementText Tag.guid [isPermaLink] (escape post.link) (newLine 6 ++ elementText Tag.pubDate []
    (toUTCString post.publishedAt) (newLine 6 ++ elementText Tag.description [] (escape post.description)
    (newLine 4)))))

theorem item_text (post : RssItem Str) :
    post.pieces.flatMap Piece.text = List.replicate 4 ' ' ++ elementText Tag.item [] post.inner [] := by
  simp [RssItem.pieces, RssItem.inner, Piece.text, elementText, startTag, endTag, name, Tag.item, Tag.title, Tag.link,
    Tag.guid, Tag.pubDate, Tag.description, newLine, isPermaLink, attributeText, List.replicate]

theorem content_item {rest : Str} {nodes : List Node} (h : Content rest nodes) (post : RssItem Str) :
    Content (elementText Tag.item [] post.inner rest) (post.node :: nodes) := by
  refine .element (by simp) ?_ h
  have hdate : Content (elementText Tag.pubDate [] (toUTCString post.publishedAt) (newLine 6 ++
      elementText Tag.description [] (escape post.description) (newLine 4)))
      (leaf Tag.pubDate [] (toUTCString post.publishedAt) :: ((newLine 6).map .char ++
        leaf Tag.description [] post.description :: (newLine 4).map .char)) := by
    have hleaf := content_leaf (content_line (content_leaf (content_newLine 4) Tag.description [] (by simp)
      post.description) 6) Tag.pubDate [] (by simp) (toUTCString post.publishedAt)
    rwa [escape_of_isPlain (isPlain_toUTCString _)] at hleaf
  exact content_line (content_leaf (content_line (content_leaf (content_line (content_leaf (content_line hdate 6)
    Tag.guid [isPermaLink] (by simp) post.link) 6) Tag.link [] (by simp) post.link) 6) Tag.title [] (by simp)
    post.title) 6

/-! ## The feed -/

theorem flatMap_intercalate {α β : Type} (f : α → List β) (sep : List α) (ls : List (List α)) :
    (sep.intercalate ls).flatMap f = (sep.flatMap f).intercalate (ls.map fun l => l.flatMap f) := by
  induction ls with
  | nil => rfl
  | cons l ls ih =>
      cases ls with
      | nil => simp
      | cons m ls =>
          rw [List.intercalate_cons_cons, List.flatMap_append, List.flatMap_append, ih]
          simp only [List.map_cons, List.intercalate_cons_cons]

/-- The items, each on lines of its own. -/
def itemsText (items : List (RssItem Str)) : Str :=
  ['\n'].intercalate (items.map fun post => List.replicate 4 ' ' ++ elementText Tag.item [] post.inner [])

def RssFeed.inner (feed : RssFeed Str) : Str :=
  newLine 4 ++ elementText Tag.title [] (escape feed.title) (newLine 4 ++ elementText Tag.link [] (escape feed.link)
    (newLine 4 ++ elementText Tag.description [] (escape feed.description)
    ('\n' :: (itemsText feed.items ++ newLine 2))))

theorem feed_text (feed : RssFeed Str) : feed.pieces.flatMap Piece.text = declaration ++ (['\n'] ++
    elementText Tag.rss [version] (newLine 2 ++ elementText Tag.channel [] feed.inner ['\n']) ['\n']) := by
  have hitems : ([Piece.markup ['\n']].intercalate (feed.items.map RssItem.pieces)).flatMap Piece.text =
      itemsText feed.items := by
    rw [flatMap_intercalate, List.map_map, itemsText]
    exact congrArg _ (List.map_congr_left fun post _ => item_text post)
  simp [RssFeed.pieces, RssFeed.inner, hitems, Piece.text, elementText, startTag, endTag, name, Tag.rss, Tag.channel,
    Tag.title, Tag.link, Tag.description, newLine, version, attributeText, declaration, List.replicate]

theorem content_items {rest : Str} {nodes : List Node} (h : Content rest nodes) (items : List (RssItem Str)) :
    Content (itemsText items ++ rest) (itemNodes items ++ nodes) := by
  have hpost : ∀ {rest : Str} {nodes : List Node} (post : RssItem Str), Content rest nodes →
      Content (List.replicate 4 ' ' ++ elementText Tag.item [] post.inner [] ++ rest)
        ((List.replicate 4 ' ').map .char ++ [post.node] ++ nodes) := by
    intro rest nodes post h
    have hindent : ∀ c ∈ List.replicate 4 ' ', isBlank c = true := by decide
    have hcontent := content_blank hindent (content_item h post)
    simpa [elementText] using hcontent
  induction items with
  | nil => exact h
  | cons post items ih =>
      cases items with
      | nil =>
          have htext : itemsText [post] = List.replicate 4 ' ' ++ elementText Tag.item [] post.inner [] :=
            List.intercalate_singleton
          have hnodes : itemNodes [post] = (List.replicate 4 ' ').map .char ++ [post.node] := List.intercalate_singleton
          rw [htext, hnodes]
          exact hpost post h
      | cons next items =>
          have htext : itemsText (post :: next :: items) = List.replicate 4 ' ' ++
              elementText Tag.item [] post.inner [] ++ ['\n'] ++ itemsText (next :: items) := List.intercalate_cons_cons
          have hnodes : itemNodes (post :: next :: items) = (List.replicate 4 ' ').map .char ++ [post.node] ++
              [.char '\n'] ++ itemNodes (next :: items) := List.intercalate_cons_cons
          have hrest := hpost post (content_line ih 0)
          rw [htext, hnodes, List.append_assoc _ (['\n']), List.append_assoc _ ([Node.char '\n'])]
          simpa [newLine] using hrest

/-- The text of a feed, if it consists of characters. -/
theorem document_feed (feed : RssFeed Str) {text : Str} (hchars : ∀ c ∈ text, isChar c = true)
    (htext : normalize text = feed.pieces.flatMap Piece.text) : Document text feed.node := by
  rw [feed_text] at htext
  have hitems : Content ('\n' :: (itemsText feed.items ++ newLine 2))
      (.char '\n' :: (itemNodes feed.items ++ (newLine 2).map .char)) :=
    content_line (content_items (content_newLine 2) feed.items) 0
  have hinner := content_line (content_leaf (content_line (content_leaf (content_line (content_leaf hitems
    Tag.description [] (by simp) feed.description) 4) Tag.link [] (by simp) feed.link) 4) Tag.title [] (by simp)
    feed.title) 4
  have hchannel : Content (elementText Tag.channel [] feed.inner ['\n']) _ :=
    .element (by simp) hinner (content_newLine 0)
  exact .mk hchars (.inr rfl) (by decide) (by decide) (by simp) (content_line hchannel 2) htext

end Emis.PublicSite
