import Emis.Common.JsonText
import Mathlib.Data.List.TakeWhile

/-!
# `JSON.parse`

Reads what `JSON.stringify` writes. A number is read as the text it is written with, and
a member that is repeated keeps its first place and its last value.
-/

namespace Emis

/-! ## The parser -/

def isSpace (c : Char) : Bool := c == ' ' || c == '\t' || c == '\n' || c == '\r'

def skipSpace (t : Str) : Str := t.dropWhile isSpace

/-- The rest behind a character that has to come next. -/
def expectChar (c : Char) (t : Str) : Option Str :=
  match skipSpace t with
  | [] => none
  | d :: rest => if d = c then some rest else none

def hexValue (c : Char) : Option ℕ :=
  if c.isDigit then some (c.toNat - 48)
  else if 97 ≤ c.toNat ∧ c.toNat ≤ 102 then some (c.toNat - 87)
  else if 65 ≤ c.toNat ∧ c.toNat ≤ 70 then some (c.toNat - 55)
  else none

/-- The code unit that four hexadecimal digits name. -/
def hexUnit (a b c d : Char) : Option ℕ := do
  let a ← hexValue a
  let b ← hexValue b
  let c ← hexValue c
  let d ← hexValue d
  return ((a * 16 + b) * 16 + c) * 16 + d

/-- The character behind a backslash, but for `u`. -/
def unescape (e : Char) : Option Char :=
  if e = '/' then some '/' else (SHORT_ESCAPES.find? fun p => p.2 == e).map Prod.fst

/-- A surrogate is no character of its own. -/
def charOf (unit : ℕ) : Option Char :=
  if unit < 0xD800 ∨ 0xDFFF < unit ∧ unit < 0x110000 then some (Char.ofNat unit) else none

/-- The two halves of a character outside the basic plane. -/
def pairOf (high low : ℕ) : Option Char :=
  if 0xD800 ≤ high ∧ high < 0xDC00 ∧ 0xDC00 ≤ low ∧ low < 0xE000 then
    charOf (0x10000 + (high - 0xD800) * 0x400 + (low - 0xDC00))
  else none

def push (c : Char) (p : Str × Str) : Str × Str := (c :: p.1, p.2)

/-- The rest of a string, up to its closing quote. -/
def parseString : Str → Option (Str × Str)
  | [] => none
  | c :: rest =>
      if c = '\x22' then some ([], rest)
      else if c = '\\' then
        match rest with
        | [] => none
        | e :: rest =>
            if e = 'u' then
              match rest with
              | a :: b :: c :: d :: rest =>
                  match (hexUnit a b c d).bind charOf with
                  | some c => (parseString rest).map (push c)
                  | none =>
                      match rest with
                      | back :: u :: a' :: b' :: c' :: d' :: rest =>
                          if back = '\\' ∧ u = 'u' then do
                            let high ← hexUnit a b c d
                            let low ← hexUnit a' b' c' d'
                            let c ← pairOf high low
                            (parseString rest).map (push c)
                          else none
                      | _ => none
              | _ => none
            else
              match unescape e with
              | none => none
              | some c => (parseString rest).map (push c)
      else if c.toNat < 32 then none
      else (parseString rest).map (push c)

/-- A member of that name is replaced, or the member is the last one. -/
def setMember (fields : List (Str × Json)) (f : Str × Json) : List (Str × Json) :=
  if fields.any fun g => g.1 == f.1 then fields.map fun g => if g.1 == f.1 then f else g
  else fields ++ [f]

def parseNumber (t : Str) : Option (Json × Str) :=
  if h : t.takeWhile isNumberChar ≠ [] then
    some (.num ⟨t.takeWhile isNumberChar, h, fun _ hc => List.mem_takeWhile_imp hc⟩, t.dropWhile isNumberChar)
  else none

/-- The rest behind a word. -/
def expectWord (w t : Str) : Option Str := if w.isPrefixOf t then some (t.drop w.length) else none

mutual

/-- A value and the rest behind it. The number bounds the nesting. -/
def parseValue : ℕ → Str → Option (Json × Str)
  | 0, _ => none
  | n + 1, t =>
      match skipSpace t with
      | [] => none
      | c :: rest =>
          if c = '\x22' then (parseString rest).map fun p => (.str p.1, p.2)
          else if c = '[' then
            match expectChar ']' rest with
            | some rest => some (.arr [], rest)
            | none => (parseItems n rest).map fun p => (.arr p.1, p.2)
          else if c = '{' then
            match expectChar '}' rest with
            | some rest => some (.obj [], rest)
            | none => (parseFields n rest).map fun p => (.obj (p.1.foldl setMember []), p.2)
          else if c = 'n' then (expectWord ['u', 'l', 'l'] rest).map fun rest => (.null, rest)
          else if c = 't' then (expectWord ['r', 'u', 'e'] rest).map fun rest => (.bool true, rest)
          else if c = 'f' then (expectWord ['a', 'l', 's', 'e'] rest).map fun rest => (.bool false, rest)
          else parseNumber (c :: rest)

def parseItems : ℕ → Str → Option (List Json × Str)
  | 0, _ => none
  | n + 1, t => do
      let (v, t) ← parseValue n t
      match expectChar ',' t with
      | some t =>
          let (items, t) ← parseItems n t
          return (v :: items, t)
      | none =>
          let t ← expectChar ']' t
          return ([v], t)

def parseFields : ℕ → Str → Option (List (Str × Json) × Str)
  | 0, _ => none
  | n + 1, t => do
      let t ← expectChar '\x22' t
      let (k, t) ← parseString t
      let t ← expectChar ':' t
      let (v, t) ← parseValue n t
      match expectChar ',' t with
      | some t =>
          let (fields, t) ← parseFields n t
          return ((k, v) :: fields, t)
      | none =>
          let t ← expectChar '}' t
          return ([(k, v)], t)

end

/-- `JSON.parse`. -/
def Json.parse (t : Str) : Option Json :=
  match parseValue (2 * t.length) t with
  | some (v, rest) => if skipSpace rest = [] then some v else none
  | none => none

/-! ## What is written is read back -/

theorem expectChar_cons {c : Char} (hc : isSpace c = false) (t : Str) : expectChar c (c :: t) = some t := by
  simp [expectChar, skipSpace, hc]

theorem expectChar_ne {c d : Char} (hd : isSpace d = false) (hne : d ≠ c) (t : Str) : expectChar c (d :: t) = none := by
  simp [expectChar, skipSpace, hd, hne]

theorem unescape_shortEscape {c e : Char} (h : shortEscape c = some e) : unescape e = some c ∧ e ≠ 'u' := by
  have htable : ∀ p ∈ SHORT_ESCAPES, unescape p.2 = some p.1 ∧ p.2 ≠ 'u' := by decide
  exact htable _ (mem_of_shortEscape h)

/-- A control character is read from its code. -/
theorem hexUnit_control {c : Char} (hlow : c.toNat < 32) :
    (hexUnit '0' '0' (Nat.digitChar (c.toNat / 16)) (Nat.digitChar (c.toNat % 16))).bind charOf = some c := by
  have htable : ∀ n < 32, hexUnit '0' '0' (Nat.digitChar (n / 16)) (Nat.digitChar (n % 16)) = some n := by decide
  have hchar : charOf c.toNat = some c := by
    rw [charOf, if_pos (.inl (by omega)), Char.ofNat_toNat]
  rw [htable _ hlow, Option.bind_some, hchar]

theorem parseString_escapeChar (c : Char) (t : Str) :
    parseString (escapeChar c ++ t) = (parseString t).map (push c) := by
  rcases escapeChar_cases c with ⟨e, hce, hc⟩ | ⟨hlow, hc⟩ | ⟨hhigh, hback, hquote, hc⟩
  · obtain ⟨hunescape, hu⟩ := unescape_shortEscape hce
    rw [hc, List.cons_append, List.cons_append, List.nil_append, parseString.eq_def]
    simp [hu, hunescape]
  · have hunit := hexUnit_control hlow
    rw [hc]
    simp only [List.cons_append, List.nil_append]
    rw [parseString.eq_def]
    simp [hunit]
  · have hlow : ¬ c.toNat < 32 := by omega
    rw [hc, List.cons_append, List.nil_append, parseString.eq_def]
    simp only [hquote, hback, hlow, if_false]

theorem parseString_quoted (s rest : Str) :
    parseString (s.flatMap escapeChar ++ '\x22' :: rest) = some (s, rest) := by
  induction s with
  | nil => rw [List.flatMap_nil, List.nil_append, parseString.eq_def]; simp
  | cons c s ih => rw [List.flatMap_cons, List.append_assoc, parseString_escapeChar, ih]; rfl

theorem isSpace_of_starts {v : Json} {c : Char} (h : v.Starts c) : isSpace c = false := by
  have hnumber : isNumberChar c = true → isSpace c = false := by
    intro hc
    by_contra hspace
    simp only [isSpace, Bool.not_eq_false, Bool.or_eq_true, beq_iff_eq] at hspace
    rcases hspace with ((rfl | rfl) | rfl) | rfl
    all_goals exact absurd hc (by decide)
  cases v with
  | bool b => cases b <;> (obtain rfl : c = _ := h; rfl)
  | num n => exact hnumber h
  | null | str | arr | obj =>
      obtain rfl : c = _ := h
      rfl

theorem skipSpace_print (v : Json) (rest : Str) : skipSpace (v.print ++ rest) = v.print ++ rest := by
  obtain ⟨c, s, hprint, hstarts⟩ := v.print_starts
  rw [hprint, List.cons_append, skipSpace, List.dropWhile_cons, isSpace_of_starts hstarts]
  rfl

theorem expectWord_append (w rest : Str) : expectWord w (w ++ rest) = some rest := by
  rw [expectWord, if_pos (by simp), List.drop_left]

/-- Members of different names stand as they are set. -/
theorem foldl_setMember (fields done : List (Str × Json)) (h : ((done ++ fields).map Prod.fst).Nodup) :
    fields.foldl setMember done = done ++ fields := by
  induction fields generalizing done with
  | nil => simp
  | cons f fields ih =>
      have hnew : (done.any fun g => g.1 == f.1) = false := by
        rw [List.any_eq_false]
        intro g hg heq
        rw [List.map_append, List.nodup_append] at h
        exact h.2.2 g.1 (List.mem_map_of_mem hg) f.1 (by simp) (by simpa using heq)
      have hset : setMember done f = done ++ [f] := by rw [setMember, hnew]; rfl
      rw [List.foldl_cons, hset, ih _ (by simpa using h), List.append_assoc]
      rfl

theorem distinctItems_iff {items : List Json} : DistinctItems items ↔ ∀ v ∈ items, v.Distinct := by
  induction items with
  | nil => simp [DistinctItems]
  | cons v items ih => simp [DistinctItems, ih]

theorem distinctFields_iff {fields : List (Str × Json)} : DistinctFields fields ↔ ∀ f ∈ fields, f.2.Distinct := by
  induction fields with
  | nil => simp [DistinctFields]
  | cons f fields ih => simp [DistinctFields, ih]

/-- With enough fuel for its text a value is read where it is written. -/
def Json.ReadBack (v : Json) : Prop :=
  v.Distinct → ∀ n rest, 2 * v.print.length ≤ n + 1 → AfterValue rest → parseValue n (v.print ++ rest) = some (v, rest)

theorem print_length_pos (v : Json) : 0 < v.print.length := by
  obtain ⟨c, s, hprint, -⟩ := v.print_starts
  simp [hprint]

theorem intercalate_cons {x y : Str} {xs : List Str} :
    [','].intercalate (x :: y :: xs) = x ++ ',' :: [','].intercalate (y :: xs) := by
  simp [List.intercalate, List.intersperse]

theorem parseItems_print (items : List Json) (hne : items ≠ []) (hitems : ∀ v ∈ items, v.ReadBack)
    (hdistinct : ∀ v ∈ items, v.Distinct) (n : ℕ) (rest : Str)
    (hn : 2 * ([','].intercalate (items.map Json.print)).length ≤ n) :
    parseItems n ([','].intercalate (items.map Json.print) ++ ']' :: rest) = some (items, rest) := by
  induction items generalizing n with
  | nil => exact (hne rfl).elim
  | cons v items ih =>
      have hv := hitems v List.mem_cons_self (hdistinct v List.mem_cons_self)
      have hpos := print_length_pos v
      cases items with
      | nil =>
          simp only [List.map_cons, List.map_nil, List.intercalate_singleton] at hn ⊢
          obtain ⟨m, rfl⟩ : ∃ m, n = m + 1 := ⟨n - 1, by omega⟩
          rw [parseItems, hv m _ (by omega) (afterValue_cons (by decide) _)]
          simp [expectChar_ne, expectChar_cons, isSpace]
      | cons w items =>
          simp only [List.map_cons, intercalate_cons] at hn ⊢
          simp only [List.length_append, List.length_cons] at hn
          obtain ⟨m, rfl⟩ : ∃ m, n = m + 1 := ⟨n - 1, by omega⟩
          have hrest := ih (List.cons_ne_nil _ _) (fun u hu => hitems u (List.mem_cons_of_mem _ hu))
            (fun u hu => hdistinct u (List.mem_cons_of_mem _ hu)) m (by simp only [List.map_cons]; omega)
          simp only [List.map_cons] at hrest
          rw [parseItems, List.append_assoc, List.cons_append, hv m _ (by omega) (afterValue_cons (by decide) _)]
          simp [expectChar_cons, isSpace, hrest]

theorem parseFields_print (fields : List (Str × Json)) (hne : fields ≠ []) (hfields : ∀ f ∈ fields, f.2.ReadBack)
    (hdistinct : ∀ f ∈ fields, f.2.Distinct) (n : ℕ) (rest : Str)
    (hn : 2 * ([','].intercalate (fields.map printField)).length ≤ n) :
    parseFields n ([','].intercalate (fields.map printField) ++ '}' :: rest) = some (fields, rest) := by
  induction fields generalizing n with
  | nil => exact (hne rfl).elim
  | cons f fields ih =>
      obtain ⟨k, v⟩ := f
      have hv : ∀ n rest, 2 * v.print.length ≤ n + 1 → AfterValue rest → parseValue n (v.print ++ rest) = some (v, rest) :=
        hfields (k, v) List.mem_cons_self (hdistinct (k, v) List.mem_cons_self)
      have hmember : ∀ t, printField (k, v) ++ t = '\x22' :: (k.flatMap escapeChar ++ '\x22' :: (':' :: (v.print ++ t))) := by
        intro t
        simp [printField, quote]
      have hlength : (printField (k, v)).length = (k.flatMap escapeChar).length + 3 + v.print.length := by
        simp [printField, quote]
        omega
      cases fields with
      | nil =>
          simp only [List.map_cons, List.map_nil, List.intercalate_singleton] at hn ⊢
          obtain ⟨m, rfl⟩ : ∃ m, n = m + 1 := ⟨n - 1, by omega⟩
          have hvalue := hv m ('}' :: rest) (by omega) (afterValue_cons (by decide) rest)
          rw [parseFields, hmember, expectChar_cons (by decide)]
          simp [parseString_quoted, expectChar_cons, expectChar_ne, isSpace, hvalue]
      | cons g fields =>
          simp only [List.map_cons, intercalate_cons] at hn ⊢
          simp only [List.length_append, List.length_cons] at hn
          obtain ⟨m, rfl⟩ : ∃ m, n = m + 1 := ⟨n - 1, by omega⟩
          have hrest := ih (List.cons_ne_nil _ _) (fun u hu => hfields u (List.mem_cons_of_mem _ hu))
            (fun u hu => hdistinct u (List.mem_cons_of_mem _ hu)) m (by simp only [List.map_cons]; omega)
          simp only [List.map_cons] at hrest
          rw [parseFields, List.append_assoc, List.cons_append, hmember, expectChar_cons (by decide)]
          have hvalue := fun t => hv m (',' :: t) (by omega) (afterValue_cons (by decide) t)
          simp [parseString_quoted, expectChar_cons, isSpace, hvalue, hrest]

theorem intercalate_starts (x : Str) (xs : List Str) : ∃ t, [','].intercalate (x :: xs) = x ++ t := by
  cases xs with
  | nil => exact ⟨[], by simp⟩
  | cons y xs => exact ⟨_, intercalate_cons⟩

/-- A list that is not empty does not close at once. -/
theorem expectChar_items {c d : Char} {s : Str} (hd : isSpace d = false) (hne : d ≠ c) (xs : List Str) (rest : Str) :
    expectChar c ([','].intercalate ((d :: s) :: xs) ++ rest) = none := by
  obtain ⟨t, ht⟩ := intercalate_starts (d :: s) xs
  rw [ht, List.append_assoc, List.cons_append, expectChar_ne hd hne]

theorem parseNumber_text (k : JsonNumber) {rest : Str} (hrest : AfterValue rest) :
    parseNumber (k.text ++ rest) = some (.num k, rest) := by
  have hstop : rest.takeWhile isNumberChar = [] ∧ rest.dropWhile isNumberChar = rest := by
    cases rest with
    | nil => exact ⟨rfl, rfl⟩
    | cons c rest =>
        have hc : isNumberChar c = false := hrest c (by simp)
        simp [hc]
  have htake : (k.text ++ rest).takeWhile isNumberChar = k.text := by
    rw [List.takeWhile_append_of_pos k.chars, hstop.1, List.append_nil]
  have hdrop : (k.text ++ rest).dropWhile isNumberChar = rest := by
    rw [List.dropWhile_append_of_pos k.chars, hstop.2]
  simp only [parseNumber, htake, hdrop, k.nonempty, ne_eq, not_false_eq_true, dite_true]

/-- Every value is read where it is written. -/
theorem Json.readBack (v : Json) : v.ReadBack := by
  have hfuel : ∀ {n} {t : Str}, 0 < t.length → 2 * t.length ≤ n + 1 → ∃ m, n = m + 1 := fun {n} _ hpos hn =>
    ⟨n - 1, by omega⟩
  induction v using Json.induction with
  | null =>
      intro _ n rest hn _
      obtain ⟨m, rfl⟩ := hfuel (by simp [print]) hn
      have hword := expectWord_append ['u', 'l', 'l'] rest
      rw [parseValue, skipSpace_print]
      simpa [print] using hword
  | bool b =>
      intro _ n rest hn _
      obtain ⟨m, rfl⟩ := hfuel (print_length_pos _) hn
      cases b with
      | true =>
          have hword := expectWord_append ['r', 'u', 'e'] rest
          rw [parseValue, skipSpace_print]
          simpa [print] using hword
      | false =>
          have hword := expectWord_append ['a', 'l', 's', 'e'] rest
          rw [parseValue, skipSpace_print]
          simpa [print] using hword
  | num k =>
      intro _ n rest hn hrest
      obtain ⟨m, rfl⟩ := hfuel (print_length_pos _) hn
      have hnumber := parseNumber_text k hrest
      obtain ⟨c, s, hprint, hstarts⟩ := (Json.num k).print_starts
      have hother : ∀ d, isNumberChar d = false → c ≠ d := by
        rintro d hd rfl
        exact absurd hstarts (by simp [Starts, hd])
      have htext : k.text = c :: s := by simpa [print] using hprint
      rw [parseValue, skipSpace_print, hprint]
      rw [htext] at hnumber
      simpa [hother '\x22' (by decide), hother '[' (by decide), hother '{' (by decide), hother 'n' (by decide),
        hother 't' (by decide), hother 'f' (by decide)] using hnumber
  | str s =>
      intro _ n rest hn _
      obtain ⟨m, rfl⟩ := hfuel (print_length_pos _) hn
      rw [parseValue, skipSpace_print]
      simp [print, quote, parseString_quoted]
  | arr items ih =>
      intro hdistinct n rest hn _
      obtain ⟨m, rfl⟩ := hfuel (print_length_pos _) hn
      rw [parseValue, skipSpace_print]
      simp only [print, printItems_eq, List.length_cons, List.length_append] at hn ⊢
      cases items with
      | nil => simp [expectChar_cons, isSpace]
      | cons w items =>
          have hitems := parseItems_print (w :: items) (List.cons_ne_nil _ _) ih
            (distinctItems_iff.1 hdistinct) m rest (by omega)
          have hopen : expectChar ']' ([','].intercalate ((w :: items).map Json.print) ++ ']' :: rest) = none := by
            obtain ⟨c, s, hprint, hstarts⟩ := w.print_starts
            rw [List.map_cons, hprint]
            refine expectChar_items (isSpace_of_starts hstarts) ?_ _ _
            rintro rfl
            cases w with
            | bool b => cases b <;> exact absurd hstarts (by simp [Starts])
            | null | num | str | arr | obj => exact absurd hstarts (by simp [Starts, isNumberChar])
          generalize [','].intercalate ((w :: items).map Json.print) = text at hitems hopen ⊢
          simp [hopen, hitems]
  | obj fields ih =>
      intro hdistinct n rest hn _
      obtain ⟨m, rfl⟩ := hfuel (print_length_pos _) hn
      rw [parseValue, skipSpace_print]
      simp only [print, printFields_eq, List.length_cons, List.length_append] at hn ⊢
      cases fields with
      | nil => simp [expectChar_cons, isSpace]
      | cons f fields =>
          have hfields := parseFields_print (f :: fields) (List.cons_ne_nil _ _) ih
            (distinctFields_iff.1 hdistinct.2) m rest (by omega)
          have hset : (f :: fields).foldl setMember [] = f :: fields := foldl_setMember _ _ hdistinct.1
          have hopen : expectChar '}' ([','].intercalate ((f :: fields).map printField) ++ '}' :: rest) = none := by
            rw [List.map_cons, printField, quote, List.cons_append]
            exact expectChar_items (by decide) (by decide) _ _
          generalize [','].intercalate ((f :: fields).map printField) = text at hfields hopen ⊢
          simp [hopen, hfields, hset]

/-- `JSON.parse` undoes `JSON.stringify`. -/
theorem Json.parse_print {v : Json} (h : v.Distinct) : Json.parse v.print = some v := by
  have hread := v.readBack h (2 * v.print.length) [] (by omega) afterValue_nil
  rw [List.append_nil] at hread
  rw [parse, hread]
  rfl

/-! ## Nothing is read that is not written -/

theorem length_of_push {t rest s : Str} {c : Char} (h : (parseString t).map (push c) = some (s, rest))
    (ih : ∀ s rest, parseString t = some (s, rest) → s.length + rest.length ≤ t.length) :
    s.length + rest.length ≤ t.length + 1 := by
  obtain ⟨⟨s', rest'⟩, hread, hpush⟩ := Option.map_eq_some_iff.1 h
  obtain ⟨rfl, rfl⟩ := Prod.mk.inj hpush
  have hlength := ih s' rest' hread
  simp only [List.length_cons]
  omega

theorem parseString_length (t : Str) :
    ∀ s rest, parseString t = some (s, rest) → s.length + rest.length ≤ t.length := by
  fun_induction parseString t
  all_goals intro s rest h
  case case2 =>
    obtain ⟨rfl, rfl⟩ := Prod.mk.inj (Option.some.inj h)
    simp
  case case4 ih | case10 ih | case12 ih =>
    have hlength := length_of_push h ih
    simp only [List.length_cons]
    omega
  case case5 ih =>
    simp only [Option.bind_eq_bind, Option.bind_eq_some_iff] at h
    obtain ⟨_, -, _, -, _, -, hpush⟩ := h
    have hlength := length_of_push hpush ih
    simp only [List.length_cons]
    omega
  all_goals cases h

theorem expectChar_length {c : Char} {t rest : Str} (h : expectChar c t = some rest) : rest.length < t.length := by
  have hskip : (skipSpace t).length ≤ t.length := (List.dropWhile_sublist _).length_le
  rw [expectChar] at h
  split at h
  · cases h
  · rename_i d s hs
    split at h
    · obtain rfl := Option.some.inj h
      simp only [hs, List.length_cons] at hskip
      omega
    · cases h

theorem expectWord_length {w t rest : Str} (h : expectWord w t = some rest) : rest.length ≤ t.length := by
  rw [expectWord] at h
  split at h
  · obtain rfl := Option.some.inj h
    exact (List.drop_sublist _ _).length_le
  · cases h

theorem allFields_iff {p : Str → Bool} {fields : List (Str × Json)} :
    allFields p fields = true ↔ ∀ f ∈ fields, p f.1 = true ∧ f.2.all p = true := by
  induction fields with
  | nil => simp [allFields]
  | cons f fields ih => simp [allFields, ih]

theorem allFields_foldl {p : Str → Bool} (fields done : List (Str × Json)) (hdone : allFields p done = true)
    (hfields : allFields p fields = true) : allFields p (fields.foldl setMember done) = true := by
  induction fields generalizing done with
  | nil => exact hdone
  | cons f fields ih =>
      rw [allFields_iff] at hfields
      refine ih _ ?_ (allFields_iff.2 fun g hg => hfields g (List.mem_cons_of_mem _ hg))
      rw [allFields_iff] at hdone ⊢
      intro g hg
      have hf := hfields f List.mem_cons_self
      unfold setMember at hg
      split at hg
      · obtain ⟨g', hg', rfl⟩ := List.mem_map.1 hg
        split
        · exact hf
        · exact hdone g' hg'
      · rcases List.mem_append.1 hg with hg | hg
        · exact hdone g hg
        · rwa [List.mem_singleton.1 hg]

/-- No string of what is read is longer than the text. -/
def shortIn (N : ℕ) (s : Str) : Bool := decide (s.length ≤ N)

theorem parse_length (N n : ℕ) :
    (∀ t v rest, t.length ≤ N → parseValue n t = some (v, rest) → v.all (shortIn N) = true ∧ rest.length ≤ N) ∧
    (∀ t items rest, t.length ≤ N → parseItems n t = some (items, rest) →
      allItems (shortIn N) items = true ∧ rest.length ≤ N) ∧
    ∀ t fields rest, t.length ≤ N → parseFields n t = some (fields, rest) →
      allFields (shortIn N) fields = true ∧ rest.length ≤ N := by
  induction n with
  | zero => simp [parseValue, parseItems, parseFields]
  | succ n ih =>
      obtain ⟨hvalue, hitems, hfields⟩ := ih
      refine ⟨fun t v rest ht h => ?_, fun t items rest ht h => ?_, fun t fields rest ht h => ?_⟩
      · have hskip : (skipSpace t).length ≤ N := (List.dropWhile_sublist _).length_le.trans ht
        rw [parseValue] at h
        cases htext : skipSpace t with
        | nil => simp [htext] at h
        | cons c s =>
            rw [htext] at h hskip
            have hs : s.length ≤ N := by simp only [List.length_cons] at hskip; omega
            dsimp only at h
            split at h
            · obtain ⟨⟨k, r⟩, hread, heq⟩ := Option.map_eq_some_iff.1 h
              obtain ⟨rfl, rfl⟩ := Prod.mk.inj heq
              have hlength := parseString_length s k r hread
              have hk : k.length ≤ N := by omega
              have hr : r.length ≤ N := by omega
              exact ⟨decide_eq_true hk, hr⟩
            split at h
            · split at h
              · rename_i r hclose
                obtain ⟨rfl, rfl⟩ := Prod.mk.inj (Option.some.inj h)
                exact ⟨rfl, (expectChar_length hclose).le.trans hs⟩
              · obtain ⟨⟨items, r⟩, hread, heq⟩ := Option.map_eq_some_iff.1 h
                obtain ⟨rfl, rfl⟩ := Prod.mk.inj heq
                exact hitems s items r hs hread
            split at h
            · split at h
              · rename_i r hclose
                obtain ⟨rfl, rfl⟩ := Prod.mk.inj (Option.some.inj h)
                exact ⟨rfl, (expectChar_length hclose).le.trans hs⟩
              · obtain ⟨⟨fields, r⟩, hread, heq⟩ := Option.map_eq_some_iff.1 h
                obtain ⟨rfl, rfl⟩ := Prod.mk.inj heq
                obtain ⟨hall, hr⟩ := hfields s fields r hs hread
                exact ⟨allFields_foldl fields [] rfl hall, hr⟩
            split at h
            · obtain ⟨r, hword, heq⟩ := Option.map_eq_some_iff.1 h
              obtain ⟨rfl, rfl⟩ := Prod.mk.inj heq
              exact ⟨rfl, (expectWord_length hword).trans hs⟩
            split at h
            · obtain ⟨r, hword, heq⟩ := Option.map_eq_some_iff.1 h
              obtain ⟨rfl, rfl⟩ := Prod.mk.inj heq
              exact ⟨rfl, (expectWord_length hword).trans hs⟩
            split at h
            · obtain ⟨r, hword, heq⟩ := Option.map_eq_some_iff.1 h
              obtain ⟨rfl, rfl⟩ := Prod.mk.inj heq
              exact ⟨rfl, (expectWord_length hword).trans hs⟩
            · rw [parseNumber] at h
              split at h
              · obtain ⟨rfl, rfl⟩ := Prod.mk.inj (Option.some.inj h)
                exact ⟨rfl, (List.dropWhile_sublist _).length_le.trans hskip⟩
              · cases h
      · simp only [parseItems, Option.bind_eq_bind, Option.bind_eq_some_iff] at h
        obtain ⟨⟨w, t₁⟩, hw, h⟩ := h
        obtain ⟨hall, ht₁⟩ := hvalue t w t₁ ht hw
        cases hcomma : expectChar ',' t₁ with
        | some t₂ =>
            simp only [hcomma, Option.bind_eq_some_iff] at h
            obtain ⟨⟨items', t₃⟩, hrest, heq⟩ := h
            obtain ⟨hall', ht₃⟩ := hitems t₂ items' t₃ ((expectChar_length hcomma).le.trans ht₁) hrest
            obtain ⟨rfl, rfl⟩ := Prod.mk.inj (Option.some.inj heq)
            exact ⟨by simp [allItems, hall, hall'], ht₃⟩
        | none =>
            simp only [hcomma, Option.bind_eq_some_iff] at h
            obtain ⟨t₂, hclose, heq⟩ := h
            obtain ⟨rfl, rfl⟩ := Prod.mk.inj (Option.some.inj heq)
            exact ⟨by simp [allItems, hall], (expectChar_length hclose).le.trans ht₁⟩
      · simp only [parseFields, Option.bind_eq_bind, Option.bind_eq_some_iff] at h
        obtain ⟨t₁, hopen, ⟨k, t₂⟩, hkey, t₃, hcolon, ⟨w, t₄⟩, hw, h⟩ := h
        have ht₁ := (expectChar_length hopen).le.trans ht
        have ht₂ := parseString_length t₁ k t₂ hkey
        have ht₃ : t₃.length < t₂.length := expectChar_length hcolon
        have hk : shortIn N k = true := decide_eq_true (by omega)
        obtain ⟨hall, ht₄⟩ := hvalue t₃ w t₄ (by omega) hw
        cases hcomma : expectChar ',' t₄ with
        | some t₅ =>
            simp only [hcomma, Option.bind_eq_some_iff] at h
            obtain ⟨⟨fields', t₆⟩, hrest, heq⟩ := h
            obtain ⟨hall', ht₆⟩ := hfields t₅ fields' t₆ ((expectChar_length hcomma).le.trans ht₄) hrest
            obtain ⟨rfl, rfl⟩ := Prod.mk.inj (Option.some.inj heq)
            exact ⟨by simp [allFields, hk, hall, hall'], ht₆⟩
        | none =>
            simp only [hcomma, Option.bind_eq_some_iff] at h
            obtain ⟨t₅, hclose, heq⟩ := h
            obtain ⟨rfl, rfl⟩ := Prod.mk.inj (Option.some.inj heq)
            exact ⟨by simp [allFields, hk, hall], (expectChar_length hclose).le.trans ht₄⟩

theorem Json.parse_short {t : Str} {v : Json} (h : Json.parse t = some v) : v.all (shortIn t.length) = true := by
  rw [parse] at h
  split at h
  · rename_i w rest hread
    split at h
    · obtain rfl := Option.some.inj h
      exact ((parse_length t.length _).1 t w rest le_rfl hread).1
    · cases h
  · cases h

end Emis
