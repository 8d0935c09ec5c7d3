import Emis.PublicSite.CleanText

/-!
# Which feeds can be read

A reader of the feed sees what is written if no string has half of a character, a character that
`ILLEGAL` forgets, or a carriage return, which readers of XML take for the end of a line.
-/

namespace Emis.PublicSite

open Xml

/-! ## Pieces -/

def Piece.map {S T : Type} (f : S → T) : Piece S → Piece T
  | .markup s => .markup s
  | .value v => .value (f v)

def isSound (c : Char) : Bool := isChar c && c != '\r'

/-- After each value comes a tag. -/
inductive Fenced {S : Type} : List (Piece S) → Prop
  | nil : Fenced []
  | markup {s ps} : s.all isSound = true → Fenced ps → Fenced (.markup s :: ps)
  | value {v s ps} : s.head? = some '<' → Fenced (.markup s :: ps) → Fenced (.value v :: .markup s :: ps)

theorem Fenced.append {S : Type} {ps qs : List (Piece S)} (hp : Fenced ps) (hq : Fenced qs) : Fenced (ps ++ qs) := by
  induction hp with
  | nil => exact hq
  | markup hs _ ih => exact .markup hs ih
  | value hhead _ ih => exact .value hhead ih

theorem Fenced.isSound {S : Type} {ps : List (Piece S)} (h : Fenced ps) {s : Str} (hs : .markup s ∈ ps) :
    s.all isSound = true := by
  induction h with
  | nil => cases hs
  | markup hsound _ ih =>
      rcases List.mem_cons.1 hs with heq | hs
      · rwa [Piece.markup.inj heq]
      · exact ih hs
  | value _ _ ih =>
      rcases List.mem_cons.1 hs with heq | hs
      · cases heq
      · exact ih hs

theorem fenced_intercalate {S : Type} {sep : List (Piece S)} {ls : List (List (Piece S))} (hsep : Fenced sep)
    (h : ∀ l ∈ ls, Fenced l) : Fenced (sep.intercalate ls) := by
  induction ls with
  | nil => exact .nil
  | cons l ls ih =>
      obtain ⟨hl, hls⟩ := List.forall_mem_cons.1 h
      cases ls with
      | nil =>
          rw [List.intercalate_singleton]
          exact hl
      | cons m ls =>
          rw [List.intercalate_cons_cons]
          exact (hl.append hsep).append (ih hls)

theorem isSound_of_isPlain {c : Char} (h : isPlain c = true) : isSound c = true := by
  have hmarks : ∀ c ∈ [',', ' ', ':', '-'], isSound c = true := by decide
  delta isPlain Char.isAlphanum Char.isAlpha Char.isUpper Char.isLower Char.isDigit at h
  simp only [Bool.or_eq_true, Bool.and_eq_true, decide_eq_true_eq, ge_iff_le, UInt32.le_iff_toNat_le] at h
  rcases h with h | h
  · change (65 ≤ c.toNat ∧ c.toNat ≤ 90 ∨ 97 ≤ c.toNat ∧ c.toNat ≤ 122) ∨ 48 ≤ c.toNat ∧ c.toNat ≤ 57 at h
    have hcr : c ≠ '\r' := by
      rintro rfl
      exact absurd h (by decide)
    rw [isSound, Bool.and_eq_true, bne_iff_ne, isChar_iff]
    exact ⟨by omega, hcr⟩
  · exact hmarks c (List.contains_iff_mem.1 h)

theorem RssItem.fenced {S : Type} (post : RssItem S) : Fenced post.pieces := by
  have hdate : (toUTCString post.publishedAt).all isSound = true :=
    List.all_eq_true.2 fun c hc => isSound_of_isPlain (isPlain_toUTCString _ c hc)
  exact .markup (by decide) (.value (by decide) (.markup (by decide) (.value (by decide) (.markup (by decide)
    (.value (by decide) (.markup (by decide) (.markup hdate (.markup (by decide) (.value (by decide)
    (.markup (by decide) .nil))))))))))

theorem RssFeed.fenced {S : Type} (feed : RssFeed S) : Fenced feed.pieces := by
  have hitems : ∀ l ∈ feed.items.map RssItem.pieces, Fenced l := by
    intro l hl
    obtain ⟨post, -, rfl⟩ := List.mem_map.1 hl
    exact post.fenced
  refine (Fenced.append ?_ (fenced_intercalate (.markup (by decide) .nil) hitems)).append (.markup (by decide) .nil)
  exact .markup (by decide) (.value (by decide) (.markup (by decide) (.value (by decide) (.markup (by decide)
    (.value (by decide) (.markup (by decide) .nil))))))

/-! ## The text of a feed -/

def Piece.points : Piece JsString → List CodePoint
  | .markup s => s.map .scalar
  | .value v => (kept v).codePoints.flatMap escapePoint

theorem codePoints_units {ps : List (Piece JsString)} (h : Fenced ps) :
    JsString.codePoints (ps.flatMap Piece.units) = ps.flatMap Piece.points := by
  induction h with
  | nil => rfl
  | markup _ _ ih =>
      rw [List.flatMap_cons, List.flatMap_cons, Piece.units, JsString.codePoints_ofChars_append, ih, Piece.points]
  | @value v s ps hhead _ ih =>
      have hlow : ∀ u ∈ ((Piece.markup s :: ps).flatMap Piece.units).head?, isLowSurrogate u = false := by
        obtain ⟨t, rfl⟩ := List.head?_eq_some_iff.1 hhead
        intro u hu
        obtain rfl : 0x3C = u := by simpa [Piece.units, JsString.ofChars_cons, codeUnits] using hu
        decide
      have hunits : (Piece.value v :: Piece.markup s :: ps).flatMap Piece.units =
          xmlEscape v ++ (Piece.markup s :: ps).flatMap Piece.units := List.flatMap_cons
      rw [hunits, JsString.codePoints_append _ hlow, ih, xmlEscape_eq, codePoints_escape]
      rfl

theorem toScalar_escapePoint (p : CodePoint) : (escapePoint p).map CodePoint.toScalar = charText p.toScalar := by
  cases p with
  | scalar c =>
      rw [escapePoint, List.map_map]
      exact List.map_id _
  | lone u h =>
      have hplain : charText '\uFFFD' = ['\uFFFD'] := by decide
      exact hplain.symm

theorem toScalar_points (p : Piece JsString) : p.points.map CodePoint.toScalar = (p.map told).text := by
  cases p with
  | markup s =>
      rw [Piece.points, List.map_map]
      exact List.map_id _
  | value v =>
      rw [Piece.points, List.map_flatMap, Piece.map, Piece.text, escape, told, JsString.toWellFormed, List.flatMap_map]
      exact List.flatMap_congr fun p _ => toScalar_escapePoint p

theorem isScalar_points (p : Piece JsString) :
    p.points.all CodePoint.isScalar = true ↔ ∀ v, p = .value v → (kept v).isWellFormed = true := by
  cases p with
  | markup s =>
      rw [Piece.points, List.all_map]
      simp [Function.comp_def, CodePoint.isScalar]
  | value v =>
      have hpoint : ∀ q : CodePoint, (escapePoint q).all CodePoint.isScalar = q.isScalar := by
        intro q
        cases q with
        | scalar c => simp [escapePoint, Function.comp_def, CodePoint.isScalar]
        | lone u h => rfl
      rw [Piece.points, List.all_flatMap]
      simp only [hpoint]
      exact ⟨fun h w hw => by cases hw; exact h, fun h => h v rfl⟩

theorem text_iff {ps : List (Piece JsString)} (h : Fenced ps) (text : Str) :
    JsString.ofChars text = ps.flatMap Piece.units ↔
      (∀ v, .value v ∈ ps → (kept v).isWellFormed = true) ∧ text = (ps.map (Piece.map told)).flatMap Piece.text := by
  have hformed : JsString.isWellFormed (ps.flatMap Piece.units) = true ↔ ∀ v, .value v ∈ ps → (kept v).isWellFormed = true := by
    rw [JsString.isWellFormed, codePoints_units h, List.all_flatMap, List.all_eq_true]
    simp only [isScalar_points]
    exact ⟨fun hall v hv => hall _ hv v rfl, fun hall p hp v hv => hall v (hv ▸ hp)⟩
  have htext : JsString.toWellFormed (ps.flatMap Piece.units) = (ps.map (Piece.map told)).flatMap Piece.text := by
    rw [JsString.toWellFormed, codePoints_units h, List.map_flatMap, List.flatMap_map]
    exact List.flatMap_congr fun p _ => toScalar_points p
  rw [← hformed, ← htext]
  constructor
  · intro heq
    rw [← heq, JsString.toWellFormed_ofChars, JsString.isWellFormed, JsString.codePoints_ofChars, List.all_map]
    exact ⟨List.all_eq_true.2 fun _ _ => rfl, rfl⟩
  · rintro ⟨hall, rfl⟩
    exact JsString.ofChars_toWellFormed hall

/-! ## What a reader makes of the text -/

theorem normalizeFrom_escape (cr : Bool) (s : Str) : normalizeFrom cr (escape s) = escape (normalizeFrom cr s) := by
  have hescape : ∀ (c : Char) (t : Str), escape (c :: t) = charText c ++ escape t := fun _ _ => List.flatMap_cons
  induction s generalizing cr with
  | nil => rfl
  | cons c s ih =>
      rw [hescape]
      by_cases hspecial : c ∈ SPECIAL
      · have hlist : ∀ c ∈ SPECIAL, '\r' ∉ charText c ∧ (charText c).head? = some '&' ∧ c ≠ '\r' ∧ c ≠ '\n' := by
          decide
        obtain ⟨hcr, hhead, hne⟩ := hlist c hspecial
        have hlf : (charText c ++ escape s).head? ≠ some '\n' := by
          rw [List.head?_append, hhead, Option.some_or]
          decide
        rw [normalizeFrom_of_head hlf, ← Xml.normalize, normalize_append_of_notMem hcr, Xml.normalize, ih, normalizeFrom,
          if_neg hne.1, if_neg fun h => hne.2 h.1, hescape]
      · have hlf : charText '\n' = ['\n'] := by decide
        rw [charText_of_notMem hspecial, List.singleton_append, normalizeFrom, normalizeFrom]
        split
        · rw [hescape, hlf, ih, List.singleton_append]
        · split
          · exact ih false
          · rw [hescape, charText_of_notMem hspecial, ih, List.singleton_append]

theorem normalize_text {ps : List (Piece Str)} (h : Fenced ps) :
    normalize (ps.flatMap Piece.text) = (ps.map (Piece.map normalize)).flatMap Piece.text := by
  induction h with
  | nil => rfl
  | @markup s ps hs _ ih =>
      have hcr : '\r' ∉ s := fun hmem => absurd (List.all_eq_true.1 hs _ hmem) (by decide)
      rw [List.flatMap_cons, Piece.text, normalize_append_of_notMem hcr, ih, List.map_cons, List.flatMap_cons]
      rfl
  | @value v s ps hhead _ ih =>
      have hlf : ((Piece.markup s :: ps).flatMap Piece.text).head? ≠ some '\n' := by
        rw [List.flatMap_cons, Piece.text, List.head?_append, hhead, Option.some_or]
        decide
      have htext : (Piece.value v :: Piece.markup s :: ps).flatMap Piece.text =
          escape v ++ (Piece.markup s :: ps).flatMap Piece.text := List.flatMap_cons
      rw [htext, normalize_append hlf, ih, Xml.normalize, normalizeFrom_escape]
      rfl

theorem isChar_text {ps : List (Piece Str)} (h : Fenced ps) (hvalues : ∀ v, .value v ∈ ps → ∀ c ∈ v, isChar c = true) :
    ∀ c ∈ ps.flatMap Piece.text, isChar c = true := by
  intro c hc
  obtain ⟨p, hp, hmem⟩ := List.mem_flatMap.1 hc
  cases p with
  | markup s =>
      exact (Bool.and_eq_true_iff.1 (List.all_eq_true.1 (h.isSound hp) c hmem)).1
  | value v =>
      obtain ⟨d, hd, hmem⟩ := List.mem_flatMap.1 hmem
      by_cases hspecial : d ∈ SPECIAL
      · have hlist : ∀ d ∈ SPECIAL, ∀ c ∈ charText d, isChar c = true := by decide
        exact hlist d hspecial c hmem
      · rw [charText_of_notMem hspecial, List.mem_singleton] at hmem
        exact hmem ▸ hvalues v hp d hd

/-! ## The tree of a feed -/

theorem intercalate_map {α β : Type} (f : α → β) (sep : List α) (ls : List (List α)) :
    (sep.intercalate ls).map f = (sep.map f).intercalate (ls.map fun l => l.map f) := by
  have h := flatMap_intercalate (fun a => [f a]) sep ls
  simpa only [← List.map_eq_flatMap] using h

theorem pieces_map {S T : Type} (f : S → T) (feed : RssFeed S) :
    (feed.map f).pieces = feed.pieces.map (Piece.map f) := by
  have hitems : ([Piece.markup ['\n']].intercalate (feed.items.map RssItem.pieces)).map (Piece.map f) =
      [Piece.markup ['\n']].intercalate ((feed.map f).items.map RssItem.pieces) := by
    rw [intercalate_map, RssFeed.map, List.map_map, List.map_map]
    rfl
  rw [RssFeed.pieces, RssFeed.pieces, List.map_append, List.map_append, hitems]
  rfl

theorem mem_intercalate {α : Type} {a : α} {sep : List α} (hsep : a ∉ sep) (ls : List (List α)) :
    a ∈ sep.intercalate ls ↔ ∃ l ∈ ls, a ∈ l := by
  induction ls with
  | nil => simp
  | cons l ls ih =>
      cases ls with
      | nil => simp
      | cons m ls =>
          rw [List.intercalate_cons_cons, List.mem_append, List.mem_append, ih, or_iff_left hsep]
          exact (List.exists_mem_cons_iff (fun l => a ∈ l) l (m :: ls)).symm

theorem mem_pieces {S : Type} (feed : RssFeed S) (v : S) : .value v ∈ feed.pieces ↔ v ∈ feed.values := by
  have hpost : ∀ post : RssItem S, .value v ∈ post.pieces ↔ v ∈ [post.title, post.link, post.description] := by
    intro post
    simp [RssItem.pieces]
  have hitems : .value v ∈ [Piece.markup ['\n']].intercalate (feed.items.map RssItem.pieces) ↔
      ∃ post ∈ feed.items, v ∈ [post.title, post.link, post.description] := by
    rw [mem_intercalate (by simp)]
    simp only [List.mem_map, exists_exists_and_eq_and, hpost]
  simp only [RssFeed.pieces, List.mem_append, hitems, RssFeed.values, List.mem_cons, List.mem_flatMap]
  simp [or_assoc]

theorem values_map {S T : Type} (f : S → T) (feed : RssFeed S) : (feed.map f).values = feed.values.map f := by
  simp [RssFeed.values, RssFeed.map, List.map_flatMap, List.flatMap_map]

theorem map_map {S T U : Type} (f : S → T) (g : T → U) (feed : RssFeed S) : (feed.map f).map g = feed.map (g ∘ f) := by
  simp [RssFeed.map]

theorem map_congr {S T : Type} {f g : S → T} {feed : RssFeed S} (h : ∀ v ∈ feed.values, f v = g v) :
    feed.map f = feed.map g := by
  obtain ⟨title, link, description, items⟩ := feed
  simp only [RssFeed.values, List.forall_mem_cons] at h
  obtain ⟨htitle, hlink, hdescription, hitems⟩ := h
  rw [RssFeed.map, RssFeed.map, htitle, hlink, hdescription]
  refine congrArg _ (List.map_congr_left fun post hpost => ?_)
  have hpost : ∀ v ∈ [post.title, post.link, post.description], f v = g v :=
    fun v hv => hitems v (List.mem_flatMap.2 ⟨post, hpost, hv⟩)
  rw [hpost post.title (by simp), hpost post.link (by simp), hpost post.description (by simp)]

theorem leaf_inj {n : Name} {a : List Attribute} {t t' : Str} (h : leaf n a t = leaf n a t') : t = t' := by
  rw [leaf, leaf, Node.element.injEq] at h
  exact List.map_injective_iff.2 (fun _ _ heq => Node.char.inj heq) h.2.2

theorem elements_leaf (n : Name) (a : List Attribute) (t : Str) (nodes : List Node) :
    elements (leaf n a t :: nodes) = leaf n a t :: elements nodes := rfl

theorem values_of_item {a b : RssItem Str} (h : a.node = b.node) :
    [a.title, a.link, a.description] = [b.title, b.link, b.description] := by
  rw [RssItem.node, RssItem.node, Node.element.injEq] at h
  have helements := congrArg elements h.2.2
  simp only [elements_append, elements_leaf, elements_map_char, List.nil_append, List.cons.injEq] at helements
  obtain ⟨htitle, hlink, -, -, hdescription, -⟩ := helements
  rw [leaf_inj htitle, leaf_inj hlink, leaf_inj hdescription]

theorem elements_itemNodes (items : List (RssItem Str)) : elements (itemNodes items) = items.map RssItem.node := by
  have hpost : ∀ post : RssItem Str, elements ((List.replicate 4 ' ').map .char ++ [post.node]) = [post.node] := by
    intro post
    rw [elements_append, elements_map_char]
    rfl
  induction items with
  | nil => rfl
  | cons post items ih =>
      cases items with
      | nil => exact hpost post
      | cons next items =>
          have hnodes : itemNodes (post :: next :: items) = (List.replicate 4 ' ').map .char ++ [post.node] ++
              [.char '\n'] ++ itemNodes (next :: items) := List.intercalate_cons_cons
          rw [hnodes, elements_append, ih, elements_append, hpost]
          rfl

/-- The values stand in the tree. -/
theorem values_of_node {a b : RssFeed Str} (h : a.node = b.node) : a.values = b.values := by
  rw [RssFeed.node, RssFeed.node, Node.element.injEq] at h
  have hrss := congrArg elements h.2.2
  simp only [elements_append, elements_element, elements_map_char, List.nil_append, List.cons.injEq,
    Node.element.injEq, true_and] at hrss
  have hchannel := congrArg elements hrss.1
  have hblank : ∀ nodes, elements (.char '\n' :: nodes) = elements nodes := fun _ => rfl
  simp only [elements_append, elements_leaf, elements_map_char, hblank, elements_itemNodes, List.nil_append,
    List.append_nil, List.cons.injEq] at hchannel
  obtain ⟨htitle, hlink, hdescription, hitems⟩ := hchannel
  have hposts : (a.items.flatMap fun post => [post.title, post.link, post.description]) =
      b.items.flatMap fun post => [post.title, post.link, post.description] := by
    clear htitle hlink hdescription hrss h
    revert hitems
    generalize a.items = items
    generalize b.items = items'
    intro hitems
    induction items generalizing items' with
    | nil => rw [List.map_eq_nil_iff.1 hitems.symm]
    | cons post items ih =>
        cases items' with
        | nil => cases hitems
        | cons post' items' =>
            obtain ⟨hpost, hrest⟩ := List.cons.inj hitems
            rw [List.flatMap_cons, List.flatMap_cons, values_of_item hpost, ih items' hrest]
  rw [RssFeed.values, RssFeed.values, leaf_inj htitle, leaf_inj hlink, leaf_inj hdescription, hposts]

/-- A feed can be read as it was meant if and only if all its strings are clean. -/
theorem readable_iff_clean (feed : RssFeed JsString) : Readable feed ↔ ∀ v ∈ feed.values, Clean v := by
  constructor
  · rintro ⟨text, hunits, hdoc⟩ v hv
    obtain ⟨hformed, htext⟩ := (text_iff feed.fenced text).1 hunits
    rw [← pieces_map] at htext
    have hnormal : normalize text = ((feed.map told).map normalize).pieces.flatMap Piece.text := by
      rw [htext, normalize_text (RssFeed.fenced _), ← pieces_map]
    have hvalues := values_of_node ((document_feed _ hdoc.isChar hnormal).unique hdoc)
    rw [values_map, values_map, values_map, List.map_map, List.map_inj_left] at hvalues
    exact (clean_iff v).1 ⟨hformed v ((mem_pieces feed v).2 hv), hvalues v hv⟩
  · intro hclean
    have htold : feed.map told = feed.map allowed := map_congr fun v hv => (hclean v hv).told_eq
    have hnormal : (feed.map told).map normalize = feed.map allowed := by
      rw [map_map]
      exact map_congr fun v hv => ((clean_iff v).2 (hclean v hv)).2
    refine ⟨((feed.map told).pieces).flatMap Piece.text, ?_, ?_⟩
    · refine (text_iff feed.fenced _).2 ⟨fun v hv => ?_, by rw [pieces_map]⟩
      exact ((clean_iff v).2 (hclean v ((mem_pieces feed v).1 hv))).1
    · rw [← hnormal]
      refine document_feed _ (isChar_text (RssFeed.fenced _) fun v hv c hc => ?_) ?_
      · rw [mem_pieces, htold, values_map, List.mem_map] at hv
        obtain ⟨s, -, rfl⟩ := hv
        exact (mem_allowed.1 hc).2
      · rw [normalize_text (RssFeed.fenced _), ← pieces_map]

theorem readable_noncharacter : ¬ Readable
    { title := JsString.ofChars "Lingua & Co".toList, link := JsString.ofChars "https://lingua.test".toList,
      description := JsString.ofChars "News".toList,
      items := [⟨[0xFFFE], JsString.ofChars "https://lingua.test/news/x".toList, JsString.ofChars "Summary".toList,
        1790402341323⟩] } := by
  rintro ⟨text, hunits, hdoc⟩
  have htext := ((text_iff (RssFeed.fenced _) text).1 hunits).2
  have hmem : '\uFFFE' ∈ text := by
    rw [htext]
    decide +kernel
  exact absurd (hdoc.isChar _ hmem) (by decide)

end Emis.PublicSite
