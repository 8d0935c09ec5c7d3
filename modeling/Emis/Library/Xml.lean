import Emis.Library.Printing

/-!
# XML documents

What XML 1.0 says of documents that have an XML declaration of UTF-8 or none, elements with their
attributes between double quotes, character data, and references to the five predefined entities.
Comments, processing instructions, CDATA sections and document types are left out. The grammar is
unambiguous: a document is read in one way only.
-/

namespace Xml

open Printing

/-- `Char`. -/
def isChar (c : Char) : Bool :=
  c == '\t' || c == '\n' || c == '\r' || (0x20 ≤ c.toNat && c.toNat ≤ 0xD7FF) ||
    (0xE000 ≤ c.toNat && c.toNat ≤ 0xFFFD) || 0x10000 ≤ c.toNat

/-- A reader sees one line feed at each end of a line; `cr` says if a carriage return came before. -/
def normalizeFrom (cr : Bool) : List Char → List Char
  | [] => []
  | c :: s =>
      if c = '\r' then '\n' :: normalizeFrom true s
      else if c = '\n' ∧ cr = true then normalizeFrom false s
      else c :: normalizeFrom false s

def normalize (s : List Char) : List Char := normalizeFrom false s

def isBlank (c : Char) : Bool := c == ' ' || c == '\t' || c == '\n' || c == '\r'

/-- `NameStartChar`. -/
def isNameStart (c : Char) : Bool :=
  [(0x3A, 0x3A), (0x41, 0x5A), (0x5F, 0x5F), (0x61, 0x7A), (0xC0, 0xD6), (0xD8, 0xF6), (0xF8, 0x2FF), (0x370, 0x37D),
    (0x37F, 0x1FFF), (0x200C, 0x200D), (0x2070, 0x218F), (0x2C00, 0x2FEF), (0x3001, 0xD7FF), (0xF900, 0xFDCF),
    (0xFDF0, 0xFFFD), (0x10000, 0xEFFFF)].any fun range => range.1 ≤ c.toNat && c.toNat ≤ range.2

/-- `NameChar`. -/
def isNameChar (c : Char) : Bool :=
  isNameStart c || [(0x2D, 0x2E), (0x30, 0x39), (0xB7, 0xB7), (0x300, 0x36F), (0x203F, 0x2040)].any fun range =>
    range.1 ≤ c.toNat && c.toNat ≤ range.2

structure Name where
  text : List Char
  start : ∃ c ∈ text.head?, isNameStart c = true
  chars : ∀ c ∈ text, isNameChar c = true

/-- A value without references, in which the only blanks are spaces. -/
structure Attribute where
  name : Name
  value : List Char
  chars : ∀ c ∈ value, ['<', '&', '\x22', '\t', '\n', '\r'].contains c = false

/-- A tree of elements and characters. The text nodes are the runs of characters. -/
inductive Node where
  | char (c : Char)
  | element (name : Name) (attributes : List Attribute) (children : List Node)

def entities : List (List Char × Char) :=
  [(['a', 'm', 'p'], '&'), (['l', 't'], '<'), (['g', 't'], '>'), (['q', 'u', 'o', 't'], '\x22'),
    (['a', 'p', 'o', 's'], '\'')]

def attributeText (a : Attribute) : List Char := ' ' :: (a.name.text ++ ('=' :: '\x22' :: (a.value ++ ['\x22'])))

def startTag (name : Name) (attributes : List Attribute) : List Char :=
  '<' :: (name.text ++ (attributes.flatMap attributeText ++ ['>']))

def endTag (name : Name) : List Char := '<' :: '/' :: (name.text ++ ['>'])

/-- `content`: character data, references to entities, and elements. -/
inductive Content : List Char → List Node → Prop
  | nil : Content [] []
  | char {c s nodes} : c ≠ '<' → c ≠ '&' → ¬ [']', ']', '>'] <+: c :: s → Content s nodes →
      Content (c :: s) (.char c :: nodes)
  | reference {entity c s nodes} : ';' ∉ entity → entities.lookup entity = some c → Content s nodes →
      Content ('&' :: (entity ++ (';' :: s))) (.char c :: nodes)
  | element {name attributes inner children rest nodes} :
      (attributes.map fun a : Attribute => a.name.text).Nodup → Content inner children → Content rest nodes →
      Content (startTag name attributes ++ (inner ++ (endTag name ++ rest)))
        (.element name attributes children :: nodes)

def declaration : List Char := '<' :: '?' :: "xml version=\x221.0\x22 encoding=\x22UTF-8\x22?>".toList

/-- A well-formed document with its root element. -/
inductive Document (text : List Char) : Node → Prop
  | mk {start before name attributes inner children after} : (∀ c ∈ text, isChar c = true) →
      start = [] ∨ start = declaration → (∀ c ∈ before, isBlank c = true) → (∀ c ∈ after, isBlank c = true) →
      (attributes.map fun a : Attribute => a.name.text).Nodup → Content inner children →
      normalize text = start ++ (before ++ (startTag name attributes ++ (inner ++ (endTag name ++ after)))) →
      Document text (.element name attributes children)

/-! ## Ends of lines -/

theorem normalizeFrom_of_head {s : List Char} (h : s.head? ≠ some '\n') (cr : Bool) :
    normalizeFrom cr s = normalizeFrom false s := by
  cases s with
  | nil => rfl
  | cons c s =>
      have hc : c ≠ '\n' := by simpa using h
      simp [normalizeFrom, hc]

theorem normalizeFrom_append {s t : List Char} (ht : t.head? ≠ some '\n') (cr : Bool) :
    normalizeFrom cr (s ++ t) = normalizeFrom cr s ++ normalizeFrom false t := by
  induction s generalizing cr with
  | nil => exact normalizeFrom_of_head ht cr
  | cons c s ih =>
      simp only [List.cons_append, normalizeFrom, ih]
      split
      · rfl
      split
      · rfl
      · rfl

theorem normalize_append {s t : List Char} (ht : t.head? ≠ some '\n') :
    normalize (s ++ t) = normalize s ++ normalize t := normalizeFrom_append ht false

theorem normalize_append_of_notMem {s : List Char} (h : '\r' ∉ s) (t : List Char) :
    normalize (s ++ t) = s ++ normalize t := by
  unfold normalize
  induction s with
  | nil => rfl
  | cons c s ih =>
      obtain ⟨hc, hs⟩ : '\r' ≠ c ∧ '\r' ∉ s := by simpa using h
      rw [List.cons_append, normalizeFrom, if_neg (Ne.symm hc), if_neg (by simp), ih hs, List.cons_append]

theorem normalize_of_notMem {s : List Char} (h : '\r' ∉ s) : normalize s = s := by
  have happend := normalize_append_of_notMem h []
  rwa [List.append_nil, normalize, normalize, normalizeFrom, List.append_nil] at happend

theorem notMem_normalizeFrom (cr : Bool) (s : List Char) : '\r' ∉ normalizeFrom cr s := by
  induction s generalizing cr with
  | nil => exact List.not_mem_nil
  | cons c s ih =>
      rw [normalizeFrom]
      split
      · exact fun hmem => (List.mem_cons.1 hmem).elim (by decide) (ih true)
      · rename_i hc
        split
        · exact ih false
        · exact fun hmem => (List.mem_cons.1 hmem).elim (Ne.symm hc) (ih false)

/-! ## One way to read a document -/

theorem Name.ext_text {a b : Name} (h : a.text = b.text) : a = b := by
  cases a
  cases b
  cases h
  rfl

theorem Name.readsAt {a b : Name} {s t : List Char} (hs : ∀ c ∈ s.head?, isNameChar c = false)
    (ht : ∀ c ∈ t.head?, isNameChar c = false) (h : a.text ++ s = b.text ++ t) : a = b ∧ s = t := by
  have hs' : ∀ c ∈ s.head?, ¬ isNameChar c = true := fun c hc => by simp [hs c hc]
  have ht' : ∀ c ∈ t.head?, ¬ isNameChar c = true := fun c hc => by simp [ht c hc]
  obtain ⟨htext, hst⟩ := eq_of_append_eq a.chars b.chars hs' ht' h
  exact ⟨Name.ext_text htext, hst⟩

/-- A name begins with no mark. -/
theorem Name.ne_cons {c : Char} (hc : isNameStart c = false) (a : Name) (s t : List Char) : a.text ++ s ≠ c :: t := by
  obtain ⟨d, hd, hstart⟩ := a.start
  intro h
  cases htext : a.text with
  | nil => simp [htext] at hd
  | cons e rest =>
      rw [htext] at h hd
      obtain rfl := (List.cons.inj h).1
      obtain rfl : e = d := by simpa using hd
      rw [hc] at hstart
      cases hstart

theorem attribute_readsAt (a : Attribute) : ReadsAt (fun _ => True) attributeText a := by
  intro b s t _ _ h
  simp only [attributeText, List.cons_append, List.append_assoc, List.nil_append, List.cons.injEq, true_and] at h
  obtain ⟨hname, hrest⟩ := Name.readsAt (by simp; decide) (by simp; decide) h
  simp only [List.cons.injEq, true_and] at hrest
  have hquote : ∀ x : Attribute, ∀ c ∈ x.value, c ≠ '\x22' := by
    rintro x c hc rfl
    exact absurd (x.chars _ hc) (by decide)
  obtain ⟨hvalue, hst⟩ := eq_of_append_eq (hquote a) (hquote b) (by simp) (by simp) hrest
  refine ⟨?_, (List.cons.inj hst).2⟩
  cases a
  cases b
  cases hname
  cases hvalue
  rfl

theorem startTag_readsAt {name name' : Name} {attributes attributes' : List Attribute} {s t : List Char}
    (h : startTag name attributes ++ s = startTag name' attributes' ++ t) :
    name = name' ∧ attributes = attributes' ∧ s = t := by
  have hafter : ∀ (as : List Attribute) (r : List Char),
      ∀ c ∈ (as.flatMap attributeText ++ ('>' :: r)).head?, isNameChar c = false := by
    intro as r c hc
    cases as with
    | nil =>
        obtain rfl : '>' = c := by simpa using hc
        decide
    | cons a as =>
        obtain rfl : ' ' = c := by simpa [attributeText] using hc
        decide
  simp only [startTag, List.cons_append, List.append_assoc, List.nil_append, List.cons.injEq, true_and] at h
  obtain ⟨hname, hrest⟩ := Name.readsAt (hafter _ _) (hafter _ _) h
  have hread : ReadsAt (fun _ => True) (fun as : List Attribute => as.flatMap attributeText ++ ['>']) attributes :=
    readsAt_flatMap (fun _ _ => trivial) (fun a s t heq => by simp [attributeText] at heq)
      fun a _ => attribute_readsAt a
  obtain ⟨hattributes, hst⟩ := hread trivial trivial (by simpa using hrest)
  exact ⟨hname, hattributes, hst⟩

/-- What ends the content of an element. -/
def Closing (r : List Char) : Prop := ∀ c ∈ r.head?, c = '<' ∧ r[1]? = some '/'

theorem closing_nil : Closing [] := by simp [Closing]

theorem closing_endTag (name : Name) (r : List Char) : Closing (endTag name ++ r) := by simp [Closing, endTag]

theorem Closing.ne_cons {c : Char} {r s : List Char} (hr : Closing r) (hc : c ≠ '<') : r ≠ c :: s := by
  rintro rfl
  exact hc (hr c rfl).1

theorem Closing.ne_startTag {r : List Char} (hr : Closing r) (name : Name) (attributes : List Attribute)
    (s : List Char) : r ≠ startTag name attributes ++ s := by
  rintro rfl
  have hslash := (hr '<' rfl).2
  have hmark : name.text ++ (attributes.flatMap attributeText ++ ('>' :: s)) ≠
      '/' :: (name.text ++ (attributes.flatMap attributeText ++ ('>' :: s))).tail := Name.ne_cons (by decide) _ _ _
  cases htext : name.text ++ (attributes.flatMap attributeText ++ ('>' :: s)) with
  | nil => simp at htext
  | cons d rest =>
      rw [htext] at hmark
      simp only [startTag, List.cons_append, List.append_assoc, List.nil_append, htext, List.getElem?_cons_succ,
        List.getElem?_cons_zero, Option.some.injEq] at hslash
      rw [hslash] at hmark
      exact hmark rfl

/-- Content says where it ends and what it holds. -/
theorem Content.unique {s t r r' : List Char} {nodes nodes' : List Node} (h : Content s nodes) (h' : Content t nodes')
    (hr : Closing r) (hr' : Closing r') (heq : s ++ r = t ++ r') : s = t ∧ nodes = nodes' := by
  induction h generalizing t r r' nodes' with
  | nil =>
      rw [List.nil_append] at heq
      cases h' with
      | nil => exact ⟨rfl, rfl⟩
      | char hlt => exact absurd heq (hr.ne_cons hlt)
      | reference => exact absurd heq (hr.ne_cons (by decide))
      | element =>
          rw [List.append_assoc] at heq
          exact absurd heq (hr.ne_startTag _ _ _)
  | @char c s nodes hlt hamp _ _ ih =>
      cases h' with
      | nil => exact absurd heq.symm (hr'.ne_cons hlt)
      | char _ _ _ hrest =>
          obtain ⟨rfl, htail⟩ := List.cons.inj heq
          obtain ⟨rfl, rfl⟩ := ih hrest hr hr' htail
          exact ⟨rfl, rfl⟩
      | reference => exact absurd (List.cons.inj heq).1 hamp
      | element => exact absurd (List.cons.inj heq).1 hlt
  | @reference entity c s nodes hsemi hlookup _ ih =>
      cases h' with
      | nil => exact absurd heq.symm (hr'.ne_cons (by decide))
      | char _ hamp => exact absurd (List.cons.inj heq).1.symm hamp
      | @reference entity' c' s' _ hsemi' hlookup' hrest =>
          simp only [List.cons_append, List.append_assoc, List.cons.injEq, true_and] at heq
          have hplain : ∀ {e : List Char}, ';' ∉ e → ∀ c ∈ e, c ≠ ';' := by
            rintro e he c hc rfl
            exact he hc
          obtain ⟨rfl, htail⟩ := eq_of_append_eq (hplain hsemi) (hplain hsemi') (by simp) (by simp) heq
          obtain ⟨rfl, rfl⟩ := ih hrest hr hr' (List.cons.inj htail).2
          rw [hlookup] at hlookup'
          obtain rfl := Option.some.inj hlookup'
          exact ⟨rfl, rfl⟩
      | element => exact absurd (List.cons.inj heq).1 (by decide)
  | @element name attributes inner children rest nodes _ _ _ ih ih' =>
      cases h' with
      | nil =>
          rw [List.append_assoc] at heq
          exact absurd heq.symm (hr'.ne_startTag _ _ _)
      | char hlt => exact absurd (List.cons.inj heq).1.symm hlt
      | reference => exact absurd (List.cons.inj heq).1 (by decide)
      | element _ hinner hrest =>
          simp only [List.append_assoc] at heq
          obtain ⟨rfl, rfl, hinside⟩ := startTag_readsAt heq
          obtain ⟨rfl, rfl⟩ := ih hinner (closing_endTag _ _) (closing_endTag _ _) hinside
          obtain ⟨rfl, rfl⟩ := ih' hrest hr hr' (List.append_cancel_left (List.append_cancel_left hinside))
          exact ⟨rfl, rfl⟩

/-! ## Texts -/

/-- A character as a text of a document has it. -/
def charText (c : Char) : List Char :=
  match entities.find? fun e => e.2 == c with
  | some e => '&' :: (e.1 ++ [';'])
  | none => [c]

def escape (s : List Char) : List Char := s.flatMap charText

theorem charText_cases (c : Char) :
    (∃ entity, ';' ∉ entity ∧ entities.lookup entity = some c ∧ charText c = '&' :: (entity ++ [';']) ∧ '>' ∉ entity) ∨
      charText c = [c] ∧ c ≠ '<' ∧ c ≠ '&' ∧ c ≠ '>' := by
  unfold charText
  cases hfind : entities.find? fun e => e.2 == c with
  | some e =>
      left
      have hlist : ∀ e ∈ entities, ';' ∉ e.1 ∧ entities.lookup e.1 = some e.2 ∧ '>' ∉ e.1 := by decide
      obtain ⟨hsemi, hlookup, hgt⟩ := hlist e (List.mem_of_find?_eq_some hfind)
      have hchar : e.2 = c := by simpa using List.find?_some hfind
      exact ⟨e.1, hsemi, hchar ▸ hlookup, rfl, hgt⟩
  | none =>
      right
      have hnone : ∀ e ∈ entities, e.2 ≠ c := by simpa using hfind
      refine ⟨rfl, ?_, ?_, ?_⟩
      · exact fun heq => hnone (['l', 't'], '<') (by decide) heq.symm
      · exact fun heq => hnone (['a', 'm', 'p'], '&') (by decide) heq.symm
      · exact fun heq => hnone (['g', 't'], '>') (by decide) heq.symm

theorem gt_notMem_escape (s : List Char) : '>' ∉ escape s := by
  intro hmem
  obtain ⟨c, -, hc⟩ := List.mem_flatMap.1 hmem
  rcases charText_cases c with ⟨entity, -, -, heq, hgt⟩ | ⟨heq, -, -, hgt⟩
  · rw [heq] at hc
    simp only [List.mem_cons, List.mem_append, List.not_mem_nil, or_false] at hc
    rcases hc with hc | hc | hc
    · exact absurd hc (by decide)
    · exact hgt hc
    · exact absurd hc (by decide)
  · rw [heq, List.mem_singleton] at hc
    exact hgt hc.symm

/-- Where no `>` stands before the next tag there is no `]]>`. -/
theorem not_cdata_end {u s : List Char} (hu : '>' ∉ u) (hs : ∀ c ∈ s.head?, c = '<') :
    ¬ [']', ']', '>'] <+: u ++ s := by
  rintro ⟨w, hw⟩
  match u with
  | [] =>
      rw [List.nil_append] at hw
      exact absurd (hs ']' (by simp [← hw])) (by decide)
  | [x] =>
      have htail : [']', '>'] ++ w = s := (List.cons.inj hw).2
      exact absurd (hs ']' (by simp [← htail])) (by decide)
  | [x, y] =>
      have htail : ['>'] ++ w = s := (List.cons.inj (List.cons.inj hw).2).2
      exact absurd (hs '>' (by simp [← htail])) (by decide)
  | x :: y :: z :: u =>
      obtain rfl := (List.cons.inj (List.cons.inj (List.cons.inj hw).2).2).1
      exact hu (by simp)

/-- An escaped text is read as what it was. -/
theorem content_escape {s : List Char} {nodes : List Node} (hs : ∀ c ∈ s.head?, c = '<') (h : Content s nodes)
    (t : List Char) : Content (escape t ++ s) (t.map Node.char ++ nodes) := by
  induction t with
  | nil => exact h
  | cons c t ih =>
      have hend : ¬ [']', ']', '>'] <+: escape (c :: t) ++ s := not_cdata_end (gt_notMem_escape _) hs
      rw [escape, List.flatMap_cons, List.append_assoc] at hend ⊢
      rcases charText_cases c with ⟨entity, hsemi, hlookup, heq, -⟩ | ⟨heq, hlt, hamp, -⟩
      · rw [heq]
        simpa [escape] using Content.reference hsemi hlookup ih
      · rw [heq] at hend ⊢
        exact .char hlt hamp hend ih

theorem content_blank {b s : List Char} {nodes : List Node} (hb : ∀ c ∈ b, isBlank c = true) (h : Content s nodes) :
    Content (b ++ s) (b.map Node.char ++ nodes) := by
  induction b with
  | nil => exact h
  | cons c b ih =>
      obtain ⟨hc, hb⟩ := List.forall_mem_cons.1 hb
      have hne : c ≠ '<' ∧ c ≠ '&' ∧ c ≠ ']' := by
        refine ⟨?_, ?_, ?_⟩ <;> rintro rfl <;> exact absurd hc (by decide)
      refine .char hne.1 hne.2.1 ?_ (ih hb)
      rintro ⟨w, hw⟩
      exact hne.2.2 (List.cons.inj hw).1.symm

/-- Where the root begins there is no declaration. -/
theorem declaration_ne {before : List Char} (hbefore : ∀ c ∈ before, isBlank c = true) (name : Name)
    (attributes : List Attribute) (s t : List Char) :
    declaration ++ s ≠ before ++ (startTag name attributes ++ t) := by
  intro heq
  cases before with
  | nil =>
      rw [List.nil_append, startTag, List.cons_append] at heq
      have htail := (List.cons.inj heq).2
      rw [List.append_assoc] at htail
      exact absurd htail.symm (Name.ne_cons (by decide) _ _ _)
  | cons c before =>
      obtain rfl := (List.cons.inj heq).1
      exact absurd (hbefore '<' (by simp)) (by decide)

theorem content_body {before inner after : List Char} {name : Name} {attributes : List Attribute} {children : List Node}
    (hbefore : ∀ c ∈ before, isBlank c = true) (hafter : ∀ c ∈ after, isBlank c = true)
    (hnames : (attributes.map fun a : Attribute => a.name.text).Nodup) (hinner : Content inner children) :
    Content (before ++ (startTag name attributes ++ (inner ++ (endTag name ++ after))))
      (before.map Node.char ++ (.element name attributes children :: after.map Node.char)) := by
  have hrest := content_blank hafter .nil
  rw [List.append_nil, List.append_nil] at hrest
  exact content_blank hbefore (.element hnames hinner hrest)

/-- The elements at the top. -/
def elements (nodes : List Node) : List Node :=
  nodes.filter fun
    | .char _ => false
    | .element _ _ _ => true

theorem elements_append (nodes nodes' : List Node) : elements (nodes ++ nodes') = elements nodes ++ elements nodes' :=
  List.filter_append ..

theorem elements_element (name : Name) (attributes : List Attribute) (children nodes : List Node) :
    elements (.element name attributes children :: nodes) = .element name attributes children :: elements nodes := rfl

theorem elements_map_char (s : List Char) : elements (s.map Node.char) = [] := by
  rw [elements, List.filter_eq_nil_iff]
  rintro _ hmem
  obtain ⟨c, -, rfl⟩ := List.mem_map.1 hmem
  exact Bool.false_ne_true

/-- The prologs of two documents with one text are the same. -/
theorem eq_of_prolog {start start' before before' s s' : List Char} {name name' : Name}
    {attributes attributes' : List Attribute} (hstart : start = [] ∨ start = declaration)
    (hstart' : start' = [] ∨ start' = declaration) (hbefore : ∀ c ∈ before, isBlank c = true)
    (hbefore' : ∀ c ∈ before', isBlank c = true)
    (h : start ++ (before ++ (startTag name attributes ++ s)) =
      start' ++ (before' ++ (startTag name' attributes' ++ s'))) :
    before ++ (startTag name attributes ++ s) = before' ++ (startTag name' attributes' ++ s') := by
  rcases hstart with rfl | rfl <;> rcases hstart' with rfl | rfl
  · exact h
  · exact absurd h.symm (declaration_ne hbefore _ _ _ _)
  · exact absurd h (declaration_ne hbefore' _ _ _ _)
  · exact List.append_cancel_left h

theorem content_text (t : List Char) : Content (escape t) (t.map Node.char) := by
  have h := content_escape (by simp) .nil t
  rwa [List.append_nil, List.append_nil] at h

theorem Document.isChar {text : List Char} {node : Node} (h : Document text node) : ∀ c ∈ text, isChar c = true := by
  cases h with
  | mk hchars => exact hchars

/-- A document has one root. -/
theorem Document.unique {text : List Char} {a b : Node} (ha : Document text a) (hb : Document text b) : a = b := by
  obtain ⟨-, hstart, hbefore, hafter, hnames, hinner, heq⟩ := ha
  obtain ⟨-, hstart', hbefore', hafter', hnames', hinner', heq'⟩ := hb
  have hsame := eq_of_prolog hstart hstart' hbefore hbefore' (heq.symm.trans heq')
  have hnodes := ((content_body hbefore hafter hnames hinner).unique (content_body hbefore' hafter' hnames' hinner')
    closing_nil closing_nil (congrArg (· ++ []) hsame)).2
  have helements := congrArg elements hnodes
  simp only [elements_append, elements_element, elements_map_char, List.nil_append] at helements
  exact (List.cons.inj helements).1

end Xml
