import Emis.Common.Json

/-!
# Canonical JSON can be read back

Two values have the same canonical text only if they are the same up to the
order of their keys, and no canonical text has a line break.
-/

namespace Emis

open Printing

/-! ## Reading a string back -/

theorem mem_of_shortEscape {c e : Char} (h : shortEscape c = some e) : (c, e) ∈ SHORT_ESCAPES := by
  obtain ⟨⟨c', e'⟩, hfind, rfl⟩ := Option.map_eq_some_iff.1 h
  obtain rfl : c' = c := by simpa using List.find?_some hfind
  exact List.mem_of_find?_eq_some hfind

theorem shortEscape_inj {c d e : Char} (hc : shortEscape c = some e) (hd : shortEscape d = some e) :
    c = d := by
  have htable : ∀ p ∈ SHORT_ESCAPES, ∀ q ∈ SHORT_ESCAPES, p.2 = q.2 → p.1 = q.1 := by decide
  exact htable _ (mem_of_shortEscape hc) _ (mem_of_shortEscape hd) rfl

theorem shortEscape_ne_u {c : Char} : shortEscape c ≠ some 'u' := by
  intro h
  have htable : ∀ p ∈ SHORT_ESCAPES, p.2 ≠ 'u' := by decide
  exact htable _ (mem_of_shortEscape h) rfl

theorem digitChar_inj {m n : ℕ} (hm : m < 16) (hn : n < 16) (h : Nat.digitChar m = Nat.digitChar n) :
    m = n := by
  have htable : ∀ m < 16, ∀ n < 16, Nat.digitChar m = Nat.digitChar n → m = n := by decide
  exact htable m hm n hn h

/-- The three ways in which a character is written. -/
theorem escapeChar_cases (c : Char) :
    (∃ e, shortEscape c = some e ∧ escapeChar c = ['\\', e]) ∨
    (c.toNat < 32 ∧ escapeChar c =
      ['\\', 'u', '0', '0', Nat.digitChar (c.toNat / 16), Nat.digitChar (c.toNat % 16)]) ∨
    (32 ≤ c.toNat ∧ c ≠ '\\' ∧ c ≠ '\x22' ∧ escapeChar c = [c]) := by
  cases h : shortEscape c with
  | some e => exact .inl ⟨e, rfl, by simp [escapeChar, h]⟩
  | none =>
      by_cases hlow : c.toNat < 32
      · exact .inr (.inl ⟨hlow, by simp [escapeChar, h, hlow]⟩)
      · refine .inr (.inr ⟨by omega, ?_, ?_, by simp [escapeChar, h, hlow]⟩)
        · rintro rfl
          exact absurd h (by decide)
        · rintro rfl
          exact absurd h (by decide)

theorem escapeChar_ne_quote (c : Char) (s t : Str) : escapeChar c ++ s ≠ '\x22' :: t := by
  intro h
  rcases escapeChar_cases c with ⟨e, -, hc⟩ | ⟨-, hc⟩ | ⟨-, -, hquote, hc⟩
  · rw [hc] at h
    exact absurd (List.cons.inj h).1 (by decide)
  · rw [hc] at h
    exact absurd (List.cons.inj h).1 (by decide)
  · rw [hc] at h
    exact hquote (List.cons.inj h).1

/-- One character of a string is read back. -/
theorem escapeChar_readsAt (c : Char) : ReadsAt (fun _ => True) escapeChar c := by
  intro d s t _ _ h
  rcases escapeChar_cases c with ⟨e, hce, hc⟩ | ⟨hlow, hc⟩ | ⟨-, hback, -, hc⟩
  · rcases escapeChar_cases d with ⟨e', hde, hd⟩ | ⟨-, hd⟩ | ⟨-, hback', -, hd⟩
    · simp only [hc, hd, List.cons_append, List.nil_append, List.cons.injEq, true_and] at h
      obtain ⟨rfl, hst⟩ := h
      exact ⟨shortEscape_inj hce hde, hst⟩
    · simp only [hc, hd, List.cons_append, List.nil_append, List.cons.injEq, true_and] at h
      obtain ⟨rfl, -⟩ := h
      exact absurd hce shortEscape_ne_u
    · simp only [hc, hd, List.cons_append, List.nil_append, List.cons.injEq] at h
      exact absurd h.1.symm hback'
  · rcases escapeChar_cases d with ⟨e', hde, hd⟩ | ⟨hlow', hd⟩ | ⟨-, hback', -, hd⟩
    · simp only [hc, hd, List.cons_append, List.nil_append, List.cons.injEq, true_and] at h
      obtain ⟨rfl, -⟩ := h
      exact absurd hde shortEscape_ne_u
    · simp only [hc, hd, List.cons_append, List.nil_append, List.cons.injEq, true_and] at h
      obtain ⟨hhigh, hdigit, hst⟩ := h
      have hdiv := digitChar_inj (by omega) (by omega) hhigh
      have hmod := digitChar_inj (Nat.mod_lt _ (by decide)) (Nat.mod_lt _ (by decide)) hdigit
      refine ⟨Char.toNat_inj.1 ?_, hst⟩
      omega
    · simp only [hc, hd, List.cons_append, List.nil_append, List.cons.injEq] at h
      exact absurd h.1.symm hback'
  · rcases escapeChar_cases d with ⟨e', -, hd⟩ | ⟨-, hd⟩ | ⟨-, -, -, hd⟩
    · simp only [hc, hd, List.cons_append, List.nil_append, List.cons.injEq] at h
      exact absurd h.1 hback
    · simp only [hc, hd, List.cons_append, List.nil_append, List.cons.injEq] at h
      exact absurd h.1 hback
    · simpa [hc, hd] using h

theorem quote_readsAt (s : Str) : ReadsAt (fun _ => True) quote s := by
  intro t r r' _ _ h
  have hchars : ∀ c ∈ s, ReadsAt (fun _ => True) escapeChar c := fun c _ => escapeChar_readsAt c
  exact readsAt_flatMap (fun _ _ => trivial) escapeChar_ne_quote hchars trivial trivial
    (List.cons.inj h).2


/-! ## Reading a value back -/

mutual

/-- JSON with the keys as they stand. -/
def Json.print : Json → Str
  | .null => ['n', 'u', 'l', 'l']
  | .bool true => ['t', 'r', 'u', 'e']
  | .bool false => ['f', 'a', 'l', 's', 'e']
  | .num n => n.text
  | .str s => quote s
  | .arr items => '[' :: ([','].intercalate (printItems items) ++ [']'])
  | .obj fields => '{' :: ([','].intercalate (printFields fields) ++ ['}'])

def printItems : List Json → List Str
  | [] => []
  | v :: items => v.print :: printItems items

def printFields : List (Str × Json) → List Str
  | [] => []
  | (k, v) :: fields => (quote k ++ ':' :: v.print) :: printFields fields

end

def printField (f : Str × Json) : Str := quote f.1 ++ ':' :: f.2.print

theorem printItems_eq (items : List Json) : printItems items = items.map Json.print := by
  induction items with
  | nil => rw [printItems, List.map_nil]
  | cons v items ih => rw [printItems, ih, List.map_cons]

theorem printFields_eq (fields : List (Str × Json)) : printFields fields = fields.map printField := by
  induction fields with
  | nil => rw [printFields, List.map_nil]
  | cons f fields ih => rw [printFields, ih, List.map_cons, printField]

/-- A fact about all values, from the values inside a value. -/
theorem Json.induction {C : Json → Prop} (null : C .null) (bool : ∀ b, C (.bool b))
    (num : ∀ n, C (.num n)) (str : ∀ s, C (.str s))
    (arr : ∀ items, (∀ v ∈ items, C v) → C (.arr items))
    (obj : ∀ fields, (∀ f ∈ fields, C f.2) → C (.obj fields)) (v : Json) : C v := by
  refine @Json.rec C (fun items => ∀ v ∈ items, C v) (fun fields => ∀ f ∈ fields, C f.2)
    (fun f => C f.2) null bool num str arr obj ?_ ?_ ?_ ?_ (fun _ _ h => h) v
  · simp
  · intro v items hv hitems w hw
    rcases List.mem_cons.1 hw with rfl | hw
    · exact hv
    · exact hitems w hw
  · simp
  · intro f fields hf hfields g hg
    rcases List.mem_cons.1 hg with rfl | hg
    · exact hf
    · exact hfields g hg

/-- What may follow a value: nothing, or what ends an item of a list. -/
def AfterValue (s : Str) : Prop := ∀ c ∈ s.head?, isNumberChar c = false

theorem afterValue_nil : AfterValue [] := by simp [AfterValue]

theorem afterValue_cons {c : Char} (hc : isNumberChar c = false) (s : Str) : AfterValue (c :: s) := by
  simpa [AfterValue] using hc

/-- The first character says of which kind a value is. -/
def Json.Starts (v : Json) (c : Char) : Prop :=
  match v with
  | .null => c = 'n'
  | .bool true => c = 't'
  | .bool false => c = 'f'
  | .num _ => isNumberChar c = true
  | .str _ => c = '\x22'
  | .arr _ => c = '['
  | .obj _ => c = '{'

theorem Json.print_starts (v : Json) : ∃ c s, v.print = c :: s ∧ v.Starts c := by
  cases v with
  | null => exact ⟨_, _, rfl, rfl⟩
  | bool b => cases b <;> exact ⟨_, _, rfl, rfl⟩
  | num n =>
      obtain ⟨c, s, htext⟩ := List.exists_cons_of_ne_nil n.nonempty
      exact ⟨c, s, htext, n.chars c (by simp [htext])⟩
  | str s => exact ⟨_, _, rfl, rfl⟩
  | arr items => exact ⟨_, _, by rw [print], rfl⟩
  | obj fields => exact ⟨_, _, by rw [print], rfl⟩

theorem Json.print_ne_cons {c : Char} (hc : ∀ v : Json, ¬ v.Starts c) (v : Json) (s t : Str) :
    v.print ++ s ≠ c :: t := by
  obtain ⟨d, r, hprint, hd⟩ := v.print_starts
  intro h
  rw [hprint] at h
  obtain rfl := (List.cons.inj h).1
  exact hc v hd

/-- `true` and `false` are of different kinds. -/
def Json.kind : Json → ℕ
  | .null => 0
  | .bool true => 1
  | .bool false => 2
  | .num _ => 3
  | .str _ => 4
  | .arr _ => 5
  | .obj _ => 6

def kindOf (c : Char) : ℕ :=
  if isNumberChar c then 3
  else match c with
    | 'n' => 0
    | 't' => 1
    | 'f' => 2
    | '\x22' => 4
    | '[' => 5
    | _ => 6

theorem Json.Starts.kind {v : Json} {c : Char} (h : v.Starts c) : v.kind = kindOf c := by
  cases v with
  | null | str | arr | obj =>
      obtain rfl : c = _ := h
      rfl
  | bool b =>
      cases b
      all_goals
        obtain rfl : c = _ := h
        rfl
  | num n =>
      have hc : isNumberChar c = true := h
      simp [Json.kind, kindOf, hc]

theorem Json.kind_eq {v w : Json} {s t : Str} (h : v.print ++ s = w.print ++ t) : v.kind = w.kind := by
  obtain ⟨c, r, hv, hc⟩ := v.print_starts
  obtain ⟨d, r', hw, hd⟩ := w.print_starts
  rw [hv, hw] at h
  obtain rfl := (List.cons.inj h).1
  rw [hc.kind, hd.kind]

/-- A member of an object is read back if its value is. -/
theorem printField_readsAt {f : Str × Json} (h : ReadsAt AfterValue Json.print f.2) :
    ReadsAt AfterValue printField f := by
  rintro ⟨k, w⟩ s t hs ht heq
  obtain ⟨k', v⟩ := f
  simp only [printField, List.append_assoc, List.cons_append] at heq
  obtain ⟨rfl, hcolon⟩ := quote_readsAt k' trivial trivial heq
  obtain ⟨rfl, hst⟩ := h hs ht (List.cons.inj hcolon).2
  exact ⟨rfl, hst⟩

/-- A printed value says which value it is and where it ends. -/
theorem Json.print_readsAt (v : Json) : ReadsAt AfterValue Json.print v := by
  induction v using Json.induction with
  | null =>
      intro w s t _ _ h
      have hkind := Json.kind_eq h
      cases w with
      | null => simpa [print] using h
      | bool b => cases b <;> exact absurd hkind (by decide)
      | num | str | arr | obj => exact absurd hkind (by simp [kind])
  | bool b =>
      intro w s t _ _ h
      have hkind := Json.kind_eq h
      cases w with
      | bool b' => cases b <;> cases b' <;> simp_all [print, kind]
      | null | num | str | arr | obj => cases b <;> exact absurd hkind (by simp [kind])
  | num n =>
      intro w s t hs ht h
      have hkind := Json.kind_eq h
      cases w with
      | num m =>
          obtain ⟨n, hn, hnchars⟩ := n
          obtain ⟨m, hm, hmchars⟩ := m
          simp only [print] at h
          obtain ⟨rfl, hst⟩ := eq_of_append_eq hnchars hmchars (by simpa [AfterValue] using hs)
            (by simpa [AfterValue] using ht) h
          exact ⟨rfl, hst⟩
      | bool b => cases b <;> exact absurd hkind (by simp [kind])
      | null | str | arr | obj => exact absurd hkind (by simp [kind])
  | str k =>
      intro w s t _ _ h
      have hkind := Json.kind_eq h
      cases w with
      | str k' =>
          simp only [print] at h
          obtain ⟨rfl, hst⟩ := quote_readsAt k trivial trivial h
          exact ⟨rfl, hst⟩
      | bool b => cases b <;> exact absurd hkind (by simp [kind])
      | null | num | arr | obj => exact absurd hkind (by simp [kind])
  | arr items ih =>
      intro w s t _ _ h
      have hkind := Json.kind_eq h
      cases w with
      | arr items' =>
          have hhead : ∀ (v : Json) (s t : Str), v.print ++ s ≠ ']' :: t := by
            refine Json.print_ne_cons fun v hv => ?_
            cases v with
            | bool b => cases b <;> exact absurd hv (by simp [Starts])
            | null | num | str | arr | obj => exact absurd hv (by simp [Starts, isNumberChar])
          have hcomma : ∀ s, AfterValue (',' :: s) := afterValue_cons (by decide)
          have hclose : ∀ s, AfterValue (']' :: s) := afterValue_cons (by decide)
          have hlist := readsAt_closed (by decide) hcomma hclose hhead ih
          simp only [print, printItems_eq, List.cons_append, List.cons.injEq, true_and] at h
          obtain ⟨rfl, hst⟩ := hlist trivial trivial h
          exact ⟨rfl, hst⟩
      | bool b => cases b <;> exact absurd hkind (by simp [kind])
      | null | num | str | obj => exact absurd hkind (by simp [kind])
  | obj fields ih =>
      intro w s t _ _ h
      have hkind := Json.kind_eq h
      cases w with
      | obj fields' =>
          have hhead : ∀ (f : Str × Json) (s t : Str), printField f ++ s ≠ '}' :: t := by
            intro f s t hbrace
            exact absurd (List.cons.inj hbrace).1 (by decide)
          have hcomma : ∀ s, AfterValue (',' :: s) := afterValue_cons (by decide)
          have hclose : ∀ s, AfterValue ('}' :: s) := afterValue_cons (by decide)
          have hlist := readsAt_closed (by decide) hcomma hclose hhead fun f hf =>
            printField_readsAt (ih f hf)
          simp only [print, printFields_eq, List.cons_append, List.cons.injEq, true_and] at h
          obtain ⟨rfl, hst⟩ := hlist trivial trivial h
          exact ⟨rfl, hst⟩
      | bool b => cases b <;> exact absurd hkind (by simp [kind])
      | null | num | str | arr => exact absurd hkind (by simp [kind])

theorem Json.print_injective : Function.Injective Json.print :=
  injective_of_readsAt afterValue_nil Json.print_readsAt

/-! ## The canonical text -/

theorem canonicalItems_eq (items : List Json) : canonicalItems items = items.map canonicalJson := by
  induction items with
  | nil => rw [canonicalItems, List.map_nil]
  | cons v items ih => rw [canonicalItems, ih, List.map_cons]

theorem canonicalFields_eq (fields : List (Str × Json)) :
    canonicalFields fields = fields.map fun f => (f.1, canonicalJson f.2) := by
  induction fields with
  | nil => rw [canonicalFields, List.map_nil]
  | cons f fields ih => rw [canonicalFields, ih, List.map_cons]

theorem canonicalJson_eq (v : Json) : canonicalJson v = v.normal.print := by
  induction v using Json.induction with
  | null | num | str => rfl
  | bool b => cases b <;> rfl
  | arr items ih =>
      have hitems : canonicalItems items = printItems (normalItems items) := by
        rw [canonicalItems_eq, printItems_eq, normalItems_eq, List.map_map]
        exact List.map_congr_left ih
      rw [canonicalJson, Json.normal, Json.print, hitems]
  | obj fields ih =>
      have hfields : canonicalFields fields = (normalFields fields).map fun f => (f.1, f.2.print) := by
        rw [canonicalFields_eq, normalFields_eq, List.map_map]
        exact List.map_congr_left fun f hf => congrArg (Prod.mk f.1) (ih f hf)
      rw [canonicalJson, Json.normal, Json.print, hfields, ← sortKeys_map, List.map_map,
        printFields_eq]
      rfl

/-- The canonical text tells the value up to the order of its keys. -/
theorem canonicalJson_eq_iff {v w : Json} : canonicalJson v = canonicalJson w ↔ v.normal = w.normal := by
  rw [canonicalJson_eq, canonicalJson_eq]
  exact Json.print_injective.eq_iff

/-! ### No control characters -/

/-- No character that would have to be escaped in a JSON string. -/
def Printable (s : Str) : Prop := ∀ c ∈ s, 32 ≤ c.toNat

theorem printable_append {s t : Str} : Printable (s ++ t) ↔ Printable s ∧ Printable t := by
  simp [Printable, or_imp, forall_and]

theorem printable_cons {c : Char} {s : Str} : Printable (c :: s) ↔ 32 ≤ c.toNat ∧ Printable s := by
  simp [Printable]

theorem printable_closed {ts : List Str} (h : ∀ t ∈ ts, Printable t) :
    Printable ([','].intercalate ts) := by
  cases ts with
  | nil => simp [Printable]
  | cons t ts =>
      rw [intercalate_cons, printable_append]
      refine ⟨h t (by simp), fun c hc => ?_⟩
      obtain ⟨t', ht', hc⟩ := List.mem_flatMap.1 hc
      rcases List.mem_cons.1 hc with rfl | hc
      · decide
      · exact h t' (by simp [ht']) c hc

theorem printable_quote (s : Str) : Printable (quote s) := by
  have hdigit : ∀ n < 16, 32 ≤ (Nat.digitChar n).toNat := by decide
  have htable : ∀ p ∈ SHORT_ESCAPES, 32 ≤ p.2.toNat := by decide
  have hchar : ∀ c, Printable (escapeChar c) := by
    intro c
    rcases escapeChar_cases c with ⟨e, he, hc⟩ | ⟨hlow, hc⟩ | ⟨hhigh, -, -, hc⟩
    · simpa [hc, Printable] using htable _ (mem_of_shortEscape he)
    · have hdiv := hdigit (c.toNat / 16) (by omega)
      have hmod := hdigit (c.toNat % 16) (Nat.mod_lt _ (by decide))
      simpa [hc, Printable] using ⟨hdiv, hmod⟩
    · simpa [hc, Printable] using hhigh
  rw [quote, printable_cons, printable_append]
  refine ⟨by decide, fun c hc => ?_, by simp [Printable]⟩
  obtain ⟨d, -, hc⟩ := List.mem_flatMap.1 hc
  exact hchar d c hc

theorem printable_print (v : Json) : Printable v.print := by
  induction v using Json.induction with
  | null => simp [Json.print, Printable]
  | bool b => cases b <;> simp [Json.print, Printable]
  | num n =>
      intro c hc
      have hnumber := n.chars c hc
      simp only [isNumberChar, Char.isDigit, Bool.or_eq_true, Bool.and_eq_true, beq_iff_eq,
        decide_eq_true_eq] at hnumber
      rcases hnumber with (((⟨hdigit, -⟩ | rfl) | rfl) | rfl) | rfl
      · have hdigit : 48 ≤ c.toNat := hdigit
        omega
      all_goals decide
  | str s => exact printable_quote s
  | arr items ih =>
      rw [Json.print, printItems_eq, printable_cons, printable_append]
      refine ⟨by decide, printable_closed fun t ht => ?_, by simp [Printable]⟩
      obtain ⟨v, hv, rfl⟩ := List.mem_map.1 ht
      exact ih v hv
  | obj fields ih =>
      rw [Json.print, printFields_eq, printable_cons, printable_append]
      refine ⟨by decide, printable_closed fun t ht => ?_, by simp [Printable]⟩
      obtain ⟨f, hf, rfl⟩ := List.mem_map.1 ht
      rw [printField, printable_append, printable_cons]
      exact ⟨printable_quote _, by decide, ih f hf⟩

theorem newline_not_mem_canonicalJson (v : Json) : '\n' ∉ canonicalJson v := by
  rw [canonicalJson_eq]
  intro hmem
  exact absurd (printable_print _ _ hmem) (by decide)

end Emis
