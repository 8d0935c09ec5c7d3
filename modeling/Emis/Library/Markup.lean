import Mathlib.Data.List.Basic

/-!
# Tags of a document

A reader of HTML text that tells tags, text and style sheets apart, and documents that
differ in their text and in their style sheets only.
-/

namespace Markup

/-- Where the reader is, with what it has read of a tag, or of what may close a style sheet. -/
inductive Place where
  | text
  | tag (read : List Char) (quote : Option Char)
  | style (read : Option (List Char))
  deriving DecidableEq, Repr

/-- The name of a tag. -/
def name (tag : List Char) : List Char := (tag.takeWhile fun ch => !ch.isWhitespace).map Char.toLower

namespace Place

def next : Place → Char → Place
  | text, ch => if ch = '<' then tag [] none else text
  | tag read (some quote), ch => tag (read ++ [ch]) (if ch = quote then none else some quote)
  | tag read none, ch =>
      if ch = '>' then if name read = "style".toList then style none else text
      else tag (read ++ [ch]) (if ch = '\x22' ∨ ch = '\'' then some ch else none)
  | style none, ch => if ch = '<' then style (some []) else style none
  | style (some read), ch =>
      if ch = '>' then if name read = "/style".toList then text else style none
      else if ch = '<' then style (some []) else style (some (read ++ [ch]))

/-- The tag that a character ends. -/
def ended : Place → Char → List (List Char)
  | tag read none, '>' => [read]
  | style (some read), '>' => if name read = "/style".toList then [read] else []
  | _, _ => []

def after (p : Place) (s : List Char) : Place := s.foldl next p

/-- The tags with their attributes, without what stands in style sheets. -/
def tags : Place → List Char → List (List Char)
  | _, [] => []
  | p, ch :: s => p.ended ch ++ tags (p.next ch) s

@[simp] theorem after_nil (p : Place) : p.after [] = p := rfl

@[simp] theorem after_append (p : Place) (s t : List Char) : p.after (s ++ t) = (p.after s).after t :=
  List.foldl_append

theorem tags_append (p : Place) (s t : List Char) : p.tags (s ++ t) = p.tags s ++ (p.after s).tags t := by
  induction s generalizing p with
  | nil => rfl
  | cons ch s ih => simp [tags, after, ih]

/-- Nothing is a tag without an opening bracket. -/
theorem quiet {p : Place} (hp : p = text ∨ p = style none) {s : List Char} (hs : '<' ∉ s) :
    p.after s = p ∧ p.tags s = [] := by
  induction s with
  | nil => exact ⟨rfl, rfl⟩
  | cons ch s ih =>
      obtain ⟨hch, hs⟩ : '<' ≠ ch ∧ '<' ∉ s := by simpa using hs
      obtain ⟨hafter, htags⟩ := ih hs
      have hnext : p.next ch = p ∧ p.ended ch = [] := by
        rcases hp with rfl | rfl <;> simp [next, ended, Ne.symm hch]
      simp only [after, List.foldl_cons, tags, hnext, List.nil_append]
      exact ⟨hafter, htags⟩

end Place

/-- Two texts that are the same but for parts of a kind: `Text` between tags, and `Sheet`
in a style sheet. -/
inductive Alike (Text Sheet : List Char → Prop) : Place → List Char → List Char → Place → Prop
  | same (p : Place) (s : List Char) : Alike Text Sheet p s s (p.after s)
  | text {s s' : List Char} : Text s → Text s' → Alike Text Sheet .text s s' .text
  | sheet {s s' : List Char} : Sheet s → Sheet s' → Alike Text Sheet (.style none) s s' (.style none)
  | append {p q r : Place} {s s' t t' : List Char} :
      Alike Text Sheet p s s' q → Alike Text Sheet q t t' r → Alike Text Sheet p (s ++ t) (s' ++ t') r

variable {Text Sheet : List Char → Prop} {p q : Place} {s s' : List Char}

theorem Alike.of_after (h : p.after s = q) : Alike Text Sheet p s s q := h ▸ .same p s

/-- The parts that differ have no tags, so the tags are the same. -/
theorem Alike.tags (hText : ∀ s, Text s → '<' ∉ s) (hSheet : ∀ s, Sheet s → '<' ∉ s)
    (h : Alike Text Sheet p s s' q) : (p.after s = q ∧ p.after s' = q) ∧ p.tags s = p.tags s' := by
  induction h with
  | same p s => exact ⟨⟨rfl, rfl⟩, rfl⟩
  | text hs hs' =>
      obtain ⟨hafter, htags⟩ := Place.quiet (.inl rfl) (hText _ hs)
      obtain ⟨hafter', htags'⟩ := Place.quiet (.inl rfl) (hText _ hs')
      exact ⟨⟨hafter, hafter'⟩, htags.trans htags'.symm⟩
  | sheet hs hs' =>
      obtain ⟨hafter, htags⟩ := Place.quiet (.inr rfl) (hSheet _ hs)
      obtain ⟨hafter', htags'⟩ := Place.quiet (.inr rfl) (hSheet _ hs')
      exact ⟨⟨hafter, hafter'⟩, htags.trans htags'.symm⟩
  | append _ _ ih ih' =>
      obtain ⟨⟨hs, hs'⟩, htags⟩ := ih
      obtain ⟨⟨ht, ht'⟩, htags'⟩ := ih'
      rw [Place.after_append, Place.after_append, Place.tags_append, Place.tags_append, hs, hs']
      exact ⟨⟨ht, ht'⟩, by rw [htags, htags']⟩

/-- Rows one after the other, as many as there are. -/
theorem Alike.rows {α : Type} {row : α → List Char} (hrow : ∀ a b, Alike Text Sheet .text (row a) (row b) .text) :
    ∀ {xs ys : List α}, xs.length = ys.length → Alike Text Sheet .text (xs.flatMap row) (ys.flatMap row) .text
  | [], [], _ => .same .text []
  | x :: xs, y :: ys, h => by
      rw [List.flatMap_cons, List.flatMap_cons]
      exact (hrow x y).append (Alike.rows hrow (Nat.succ.inj h))

/-! ## Literals -/

/-- The characters of a literal, which `decide` would compute from its bytes. -/
theorem chars_literal {s : String} {l : List Char} (h : s = String.ofList l) : s.toList = l := by
  rw [h, String.toList_ofList]

theorem chars_append {s t : String} {l m : List Char} (hs : s.toList = l) (ht : t.toList = m) :
    (s ++ t).toList = l ++ m := by
  rw [String.toList_append, hs, ht]

theorem after_chars {s : String} {l : List Char} (hs : s.toList = l) (h : p.after l = q) :
    p.after s.toList = q := hs ▸ h

theorem after_literal {s : String} {l : List Char} (hs : s = String.ofList l) (h : p.after l = q) :
    p.after s.toList = q := after_chars (chars_literal hs) h

/-! ## Strings and values in turn -/

/-- What a template literal stands for: its strings with a value between any two. -/
def weave : List String → List (List Char) → List Char
  | [], _ => []
  | s :: _, [] => s.toList
  | s :: strings, v :: values => s.toList ++ (v ++ weave strings values)

theorem Alike.last {s : String} (h : p.after s.toList = q) : Alike Text Sheet p (weave [s] []) (weave [s] []) q :=
  .of_after h

theorem Alike.step {s : String} {strings : List String} {v v' : List Char} {values values' : List (List Char)}
    {m n : Place} (hs : p.after s.toList = m) (hv : Alike Text Sheet m v v' n)
    (h : Alike Text Sheet n (weave strings values) (weave strings values') q) :
    Alike Text Sheet p (weave (s :: strings) (v :: values)) (weave (s :: strings) (v' :: values')) q :=
  (Alike.of_after hs).append (hv.append h)

end Markup
