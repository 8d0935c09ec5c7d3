import Emis.Library.Printing
import Emis.Library.Table
import Mathlib.Data.List.Lex

/-!
# Canonical JSON

`common/json/canonical-json.ts`, and the parts of `JSON.stringify` it uses. A
string is the list of its characters; a number is the text that is written for it.
-/

namespace Emis

open Printing Transactions

/-- A JavaScript string without lone surrogates. -/
abbrev Str := List Char

/-- The characters a JSON number is written with. -/
def isNumberChar (c : Char) : Bool := c.isDigit || c == '+' || c == '-' || c == '.' || c == 'e'

/-- A finite number, by the text `JSON.stringify` writes for it. -/
structure JsonNumber where
  text : Str
  nonempty : text ≠ []
  chars : ∀ c ∈ text, isNumberChar c = true

inductive Json where
  | null
  | bool (b : Bool)
  | num (n : JsonNumber)
  | str (s : Str)
  | arr (items : List Json)
  | obj (fields : List (Str × Json))

/-! ## Strings -/

/-- The characters that are written with a backslash and a letter of their own. -/
def SHORT_ESCAPES : List (Char × Char) :=
  [('\x22', '\x22'), ('\\', '\\'), ('\x08', 'b'), ('\x0c', 'f'), ('\n', 'n'), ('\r', 'r'), ('\t', 't')]

def shortEscape (c : Char) : Option Char := (SHORT_ESCAPES.find? fun e => e.1 == c).map Prod.snd

/-- A character inside a JSON string. -/
def escapeChar (c : Char) : Str :=
  match shortEscape c with
  | some e => ['\\', e]
  | none =>
      if c.toNat < 32 then
        ['\\', 'u', '0', '0', Nat.digitChar (c.toNat / 16), Nat.digitChar (c.toNat % 16)]
      else [c]

/-- `JSON.stringify` of a string. -/
def quote (s : Str) : Str := '\x22' :: (s.flatMap escapeChar ++ ['\x22'])

/-- The UTF-16 code units of a character. -/
def codeUnits (c : Char) : List ℕ :=
  if c.toNat < 0x10000 then [c.toNat]
  else [0xD800 + (c.toNat - 0x10000) / 0x400, 0xDC00 + (c.toNat - 0x10000) % 0x400]

/-- What JavaScript compares of a string. -/
def utf16 (s : Str) : List ℕ := s.flatMap codeUnits

/-- The entries of an object in the order of their keys. -/
def sortKeys {α : Type} (entries : List (Str × α)) : List (Str × α) :=
  orderBy (fun f => utf16 f.1) entries

theorem codeUnits_readsAt (c : Char) : ReadsAt (fun _ => True) codeUnits c := by
  intro d s t _ _ h
  have hvalid : ∀ c : Char, c.toNat < 0xD800 ∨ 0xDFFF < c.toNat ∧ c.toNat < 0x110000 := fun c => c.valid
  have hc := hvalid c
  have hd := hvalid d
  unfold codeUnits at h
  split at h
  · split at h
    · simp only [List.cons_append, List.nil_append, List.cons.injEq] at h
      exact ⟨Char.toNat_inj.1 h.1, h.2⟩
    · simp only [List.cons_append, List.nil_append, List.cons.injEq] at h
      omega
  · split at h
    · simp only [List.cons_append, List.nil_append, List.cons.injEq] at h
      omega
    · simp only [List.cons_append, List.nil_append, List.cons.injEq] at h
      refine ⟨Char.toNat_inj.1 ?_, h.2.2⟩
      omega

theorem utf16_injective : Function.Injective utf16 := by
  refine injective_flatMap codeUnits_readsAt fun c => ?_
  unfold codeUnits
  split <;> simp

/-! ## Values -/

mutual

/-- JSON with object keys sorted at every level. -/
def canonicalJson : Json → Str
  | .null => ['n', 'u', 'l', 'l']
  | .bool true => ['t', 'r', 'u', 'e']
  | .bool false => ['f', 'a', 'l', 's', 'e']
  | .num n => n.text
  | .str s => quote s
  | .arr items => '[' :: ([','].intercalate (canonicalItems items) ++ [']'])
  | .obj fields =>
      '{' :: ([','].intercalate
        ((sortKeys (canonicalFields fields)).map fun f => quote f.1 ++ ':' :: f.2) ++ ['}'])

def canonicalItems : List Json → List Str
  | [] => []
  | v :: items => canonicalJson v :: canonicalItems items

def canonicalFields : List (Str × Json) → List (Str × Str)
  | [] => []
  | (k, v) :: fields => (k, canonicalJson v) :: canonicalFields fields

end

mutual

/-- The same value with its keys in order. -/
def Json.normal : Json → Json
  | .arr items => .arr (normalItems items)
  | .obj fields => .obj (sortKeys (normalFields fields))
  | v => v

def normalItems : List Json → List Json
  | [] => []
  | v :: items => v.normal :: normalItems items

def normalFields : List (Str × Json) → List (Str × Json)
  | [] => []
  | (k, v) :: fields => (k, v.normal) :: normalFields fields

end

mutual

/-- The test holds of every string and every key of a value. -/
def Json.all (p : Str → Bool) : Json → Bool
  | .str s => p s
  | .arr items => allItems p items
  | .obj fields => allFields p fields
  | _ => true

def allItems (p : Str → Bool) : List Json → Bool
  | [] => true
  | v :: items => v.all p && allItems p items

def allFields (p : Str → Bool) : List (Str × Json) → Bool
  | [] => true
  | (k, v) :: fields => p k && v.all p && allFields p fields

end

example : canonicalJson (.obj [(['b'], .null), (['a'], .arr [.bool true, .str ['\n']])]) =
    ['{', '\x22', 'a', '\x22', ':', '[', 't', 'r', 'u', 'e', ',', '\x22', '\\', 'n', '\x22', ']', ',',
      '\x22', 'b', '\x22', ':', 'n', 'u', 'l', 'l', '}'] := by decide

/-! ## Keys in any order -/

mutual

/-- No object has a key twice. -/
def Json.Distinct : Json → Prop
  | .arr items => DistinctItems items
  | .obj fields => (fields.map Prod.fst).Nodup ∧ DistinctFields fields
  | _ => True

def DistinctItems : List Json → Prop
  | [] => True
  | v :: items => v.Distinct ∧ DistinctItems items

def DistinctFields : List (Str × Json) → Prop
  | [] => True
  | (_, v) :: fields => v.Distinct ∧ DistinctFields fields

end

/-- The same value with the keys of its objects in another order. -/
inductive Json.Reordered : Json → Json → Prop
  | refl (v) : Reordered v v
  | trans {v w u} : Reordered v w → Reordered w u → Reordered v u
  | item {v w} (items items') : Reordered v w →
      Reordered (.arr (items ++ v :: items')) (.arr (items ++ w :: items'))
  | member {v w} (k fields fields') : Reordered v w →
      Reordered (.obj (fields ++ (k, v) :: fields')) (.obj (fields ++ (k, w) :: fields'))
  | keys {fields fields'} : (fields.map Prod.fst).Nodup → fields.Perm fields' →
      Reordered (.obj fields) (.obj fields')

theorem normalItems_eq (items : List Json) : normalItems items = items.map Json.normal := by
  induction items with
  | nil => rw [normalItems, List.map_nil]
  | cons v items ih => rw [normalItems, ih, List.map_cons]

theorem normalFields_eq (fields : List (Str × Json)) :
    normalFields fields = fields.map fun f => (f.1, f.2.normal) := by
  induction fields with
  | nil => rw [normalFields, List.map_nil]
  | cons f fields ih => rw [normalFields, ih, List.map_cons]

theorem sortKeys_map {α β : Type} (g : α → β) (entries : List (Str × α)) :
    (sortKeys entries).map (fun f => (f.1, g f.2)) = sortKeys (entries.map fun f => (f.1, g f.2)) :=
  List.map_insertionSort _ _ _ _ fun _ _ _ _ => Iff.rfl

theorem sortKeys_eq_of_perm {α : Type} {entries entries' : List (Str × α)}
    (hkeys : (entries.map Prod.fst).Nodup) (h : entries.Perm entries') :
    sortKeys entries = sortKeys entries' := by
  have hkeys' : (entries.map fun f => utf16 f.1).Nodup := by
    simpa [List.map_map, Function.comp_def] using hkeys.map utf16_injective
  have hperm := (orderBy_perm (fun f => utf16 f.1) entries').trans h.symm
  exact orderBy_eq hkeys' hperm (orderBy_sorted _ entries')

theorem Json.Reordered.normal {v w : Json} (h : Reordered v w) : v.normal = w.normal := by
  induction h with
  | refl => rfl
  | trans _ _ ih ih' => exact ih.trans ih'
  | item items items' _ ih => simp only [Json.normal, normalItems_eq, List.map_append, List.map_cons, ih]
  | member k fields fields' _ ih =>
      simp only [Json.normal, normalFields_eq, List.map_append, List.map_cons, ih]
  | keys hkeys hperm =>
      simp only [Json.normal, normalFields_eq]
      rw [sortKeys_eq_of_perm _ (hperm.map _)]
      simpa [List.map_map, Function.comp_def] using hkeys

end Emis
