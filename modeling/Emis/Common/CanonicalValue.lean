import Emis.Common.JsString
import Emis.Common.JsNumber
import Emis.Library.Trees

/-!
# Canonical JSON of any value

`common/json/canonical-json.ts` on values whose strings are any strings of JavaScript and whose
objects may have members that are `undefined`.
-/

namespace Emis

open Printing Transactions

/-- A JSON value; a member without a value is `undefined`. -/
inductive JsonValue where
  | null
  | bool (b : Bool)
  | num (n : JsNumber)
  | str (s : JsString)
  | arr (items : List JsonValue)
  | obj (fields : List (JsString × Option JsonValue))

/-- `entries.sort` by the code units of the keys. -/
def sortEntries {α : Type} (entries : List (JsString × α)) : List (JsString × α) :=
  orderBy (fun f => f.1.map UInt16.toNat) entries

namespace JsonValue

mutual

/-- JSON with the defined members of an object sorted by their keys, at every level. -/
def canonicalJson : JsonValue → Str
  | .null => ['n', 'u', 'l', 'l']
  | .bool true => ['t', 'r', 'u', 'e']
  | .bool false => ['f', 'a', 'l', 's', 'e']
  | .num n => n.text
  | .str s => s.quote
  | .arr items => '[' :: ([','].intercalate (canonicalItems items) ++ [']'])
  | .obj fields =>
      '{' :: ([','].intercalate ((sortEntries (canonicalFields fields)).map fun f => f.1.quote ++ ':' :: f.2) ++ ['}'])

def canonicalItems : List JsonValue → List Str
  | [] => []
  | v :: items => canonicalJson v :: canonicalItems items

def canonicalFields : List (JsString × Option JsonValue) → List (JsString × Str)
  | [] => []
  | (_, none) :: fields => canonicalFields fields
  | (k, some v) :: fields => (k, canonicalJson v) :: canonicalFields fields

end

mutual

/-- No object has a key twice. -/
def Distinct : JsonValue → Prop
  | .arr items => DistinctItems items
  | .obj fields => (fields.map Prod.fst).Nodup ∧ DistinctFields fields
  | _ => True

def DistinctItems : List JsonValue → Prop
  | [] => True
  | v :: items => v.Distinct ∧ DistinctItems items

def DistinctFields : List (JsString × Option JsonValue) → Prop
  | [] => True
  | (_, none) :: fields => DistinctFields fields
  | (_, some v) :: fields => v.Distinct ∧ DistinctFields fields

end

/-- The value of a member, if it is there and defined. -/
def member {α : Type} (fields : List (JsString × Option α)) (key : JsString) : Option α :=
  (fields.find? fun f => f.1 == key).bind Prod.snd

/-- Equal up to the order of the keys, where `undefined` counts as absent. -/
inductive Same : JsonValue → JsonValue → Prop
  | null : Same .null .null
  | bool (b) : Same (.bool b) (.bool b)
  | num (n) : Same (.num n) (.num n)
  | str (s) : Same (.str s) (.str s)
  | arr {items items'} : List.Forall₂ Same items items' → Same (.arr items) (.arr items')
  | obj {fields fields'} : (∀ key, Option.Rel Same (member fields key) (member fields' key)) →
      Same (.obj fields) (.obj fields')

/-- A fact about all values, from the values inside a value. -/
theorem induction {C : JsonValue → Prop} (null : C .null) (bool : ∀ b, C (.bool b)) (num : ∀ n, C (.num n))
    (str : ∀ s, C (.str s)) (arr : ∀ items, (∀ v ∈ items, C v) → C (.arr items))
    (obj : ∀ fields, (∀ f ∈ fields, ∀ v ∈ f.2, C v) → C (.obj fields)) (v : JsonValue) : C v := by
  refine @JsonValue.rec C (fun items => ∀ v ∈ items, C v) (fun fields => ∀ f ∈ fields, ∀ v ∈ f.2, C v)
    (fun f => ∀ v ∈ f.2, C v) (fun o => ∀ v ∈ o, C v) null bool num str arr obj ?_ ?_ ?_ ?_ ?_ ?_ ?_ v
  · simp
  · intro v items hv hitems w hw
    rcases List.mem_cons.1 hw with rfl | hw
    · exact hv
    · exact hitems w hw
  · simp
  · intro f fields hf hfields g hg
    rcases List.mem_cons.1 hg with rfl | hg
    · exact hf
    · exact hfields g hg
  · exact fun _ _ h => h
  · simp
  · intro v hv w hw
    obtain rfl := Option.some.inj hw
    exact hv

/-! ## The tree of a value -/

inductive Leaf where
  | null
  | bool (b : Bool)
  | num (n : JsNumber)
  | str (s : JsString)

def Leaf.text : Leaf → Str
  | .null => ['n', 'u', 'l', 'l']
  | .bool true => ['t', 'r', 'u', 'e']
  | .bool false => ['f', 'a', 'l', 's', 'e']
  | .num n => n.text
  | .str s => s.quote

mutual

/-- The value without what is undefined, with its keys in order. -/
def toTree : JsonValue → Tree Leaf JsString
  | .null => .leaf .null
  | .bool b => .leaf (.bool b)
  | .num n => .leaf (.num n)
  | .str s => .leaf (.str s)
  | .arr items => .arr (treeItems items)
  | .obj fields => .obj (sortEntries (treeFields fields))

def treeItems : List JsonValue → List (Tree Leaf JsString)
  | [] => []
  | v :: items => v.toTree :: treeItems items

def treeFields : List (JsString × Option JsonValue) → List (JsString × Tree Leaf JsString)
  | [] => []
  | (_, none) :: fields => treeFields fields
  | (k, some v) :: fields => (k, v.toTree) :: treeFields fields

end

theorem treeItems_eq (items : List JsonValue) : treeItems items = items.map toTree := by
  induction items with
  | nil => rw [treeItems, List.map_nil]
  | cons v items ih => rw [treeItems, ih, List.map_cons]

theorem canonicalItems_eq (items : List JsonValue) : canonicalItems items = items.map canonicalJson := by
  induction items with
  | nil => rw [canonicalItems, List.map_nil]
  | cons v items ih => rw [canonicalItems, ih, List.map_cons]

/-- The defined members of an object. -/
def defined (fields : List (JsString × Option JsonValue)) : List (JsString × JsonValue) :=
  fields.filterMap fun f => f.2.map (Prod.mk f.1)

theorem treeFields_eq (fields : List (JsString × Option JsonValue)) :
    treeFields fields = (defined fields).map fun f => (f.1, f.2.toTree) := by
  induction fields with
  | nil => rw [treeFields]; rfl
  | cons f fields ih =>
      obtain ⟨k, _ | v⟩ := f
      · rw [treeFields, ih]
        rfl
      · rw [treeFields, ih]
        rfl

theorem canonicalFields_eq (fields : List (JsString × Option JsonValue)) :
    canonicalFields fields = (defined fields).map fun f => (f.1, canonicalJson f.2) := by
  induction fields with
  | nil => rw [canonicalFields]; rfl
  | cons f fields ih =>
      obtain ⟨k, _ | v⟩ := f
      · rw [canonicalFields, ih]
        rfl
      · rw [canonicalFields, ih]
        rfl

theorem sortEntries_map {α β : Type} (g : α → β) (entries : List (JsString × α)) :
    (sortEntries entries).map (fun f => (f.1, g f.2)) = sortEntries (entries.map fun f => (f.1, g f.2)) :=
  List.map_insertionSort _ _ _ _ fun _ _ _ _ => Iff.rfl

theorem mem_defined {fields : List (JsString × Option JsonValue)} {f : JsString × JsonValue} :
    f ∈ defined fields ↔ (f.1, some f.2) ∈ fields := by
  obtain ⟨k, v⟩ := f
  simp [defined]

/-- The canonical text is the text of the tree. -/
theorem canonicalJson_eq_print (v : JsonValue) : v.canonicalJson = v.toTree.print Leaf.text JsString.quote := by
  induction v using JsonValue.induction with
  | null | num | str => rfl
  | bool b => cases b <;> rfl
  | arr items ih =>
      have hitems : canonicalItems items = (treeItems items).map (Tree.print Leaf.text JsString.quote) := by
        rw [canonicalItems_eq, treeItems_eq, List.map_map]
        exact List.map_congr_left ih
      rw [canonicalJson, toTree, Tree.print, hitems, Tree.printItems_eq]
  | obj fields ih =>
      have hfields : canonicalFields fields =
          (treeFields fields).map fun f => (f.1, f.2.print Leaf.text JsString.quote) := by
        rw [canonicalFields_eq, treeFields_eq, List.map_map]
        exact List.map_congr_left fun f hf => congrArg (Prod.mk f.1) (ih _ (mem_defined.1 hf) _ rfl)
      rw [canonicalJson, toTree, Tree.print, hfields, ← sortEntries_map, List.map_map, Tree.printFields_eq]
      rfl

/-! ## Reading the leaves back -/

/-- What a leaf begins with. -/
inductive Kind where
  | null | yes | no | number | string

def Leaf.kind : Leaf → Kind
  | .null => .null
  | .bool true => .yes
  | .bool false => .no
  | .num _ => .number
  | .str _ => .string

def Starts (c : Char) : Kind → Prop
  | .null => c = 'n'
  | .yes => c = 't'
  | .no => c = 'f'
  | .number => isNumberChar c = true
  | .string => c = '\x22'

theorem Leaf.text_starts (a : Leaf) : ∃ c t, a.text = c :: t ∧ Starts c a.kind := by
  cases a with
  | null => exact ⟨_, _, rfl, rfl⟩
  | bool b => cases b <;> exact ⟨_, _, rfl, rfl⟩
  | num n =>
      obtain ⟨c, t, hct⟩ := List.exists_cons_of_ne_nil n.text_ne_nil
      exact ⟨c, t, hct, n.isNumberChar_text c (hct ▸ List.mem_cons_self)⟩
  | str s => exact ⟨_, _, rfl, rfl⟩

theorem Starts.kind_eq {c : Char} {k l : Kind} (hk : Starts c k) (hl : Starts c l) : k = l := by
  cases k <;> cases l <;> first
    | rfl
    | (simp only [Starts] at hk hl; subst hk; exact absurd hl (by decide))
    | (simp only [Starts] at hk hl; subst hl; exact absurd hk (by decide))

theorem Starts.not_opens {c : Char} {k : Kind} (h : Starts c k) : Tree.opens c = false := by
  cases k with
  | null | yes | no | string =>
      simp only [Starts] at h
      subst h
      decide
  | number =>
      by_contra hopen
      have h : isNumberChar c = true := h
      rw [Bool.not_eq_false, Tree.opens, List.contains_iff_mem] at hopen
      simp only [List.mem_cons, List.not_mem_nil, or_false] at hopen
      rcases hopen with rfl | rfl | rfl | rfl <;> exact absurd h (by decide)

theorem Leaf.readsAt (a : Leaf) : ReadsAt Tree.Ended Leaf.text a := by
  intro b s t hs ht heq
  have hended : ∀ r, Tree.Ended r → ∀ c ∈ r.head?, ¬ isNumberChar c = true := by
    intro r hr c hc
    rcases hr c hc with rfl | rfl | rfl <;> decide
  have hkind : a.kind = b.kind := by
    obtain ⟨c, u, hcu, hc⟩ := a.text_starts
    obtain ⟨d, u', hdu, hd⟩ := b.text_starts
    rw [hcu, hdu] at heq
    obtain rfl := (List.cons.inj heq).1
    exact hc.kind_eq hd
  cases a with
  | null =>
      cases b with
      | null => exact ⟨rfl, List.append_cancel_left heq⟩
      | bool b => cases b <;> cases hkind
      | num | str => cases hkind
  | bool b' =>
      cases b with
      | bool b => cases b <;> cases b' <;> first | exact ⟨rfl, List.append_cancel_left heq⟩ | cases hkind
      | null | num | str => cases b' <;> cases hkind
  | num n =>
      cases b with
      | num m =>
          obtain ⟨htext, hst⟩ :=
            eq_of_append_eq n.isNumberChar_text m.isNumberChar_text (hended s hs) (hended t ht) heq
          exact ⟨congrArg Leaf.num (JsNumber.text_injective htext), hst⟩
      | bool b => cases b <;> cases hkind
      | null | str => cases hkind
  | str k =>
      cases b with
      | str k' =>
          obtain ⟨rfl, hst⟩ := JsString.quote_readsAt k trivial trivial heq
          exact ⟨rfl, hst⟩
      | bool b => cases b <;> cases hkind
      | null | num => cases hkind

theorem readable : Tree.Readable Leaf.text JsString.quote where
  leaf := Leaf.readsAt
  key := JsString.quote_readsAt
  leafStart := fun a => by
    obtain ⟨c, t, hct, hc⟩ := a.text_starts
    exact ⟨c, t, hct, hc.not_opens⟩
  keyStart := fun s => ⟨_, _, rfl, by decide⟩

/-! ## Equal trees -/

theorem distinctItems_iff (items : List JsonValue) : DistinctItems items ↔ ∀ v ∈ items, v.Distinct := by
  induction items with
  | nil => simp [DistinctItems]
  | cons v items ih => rw [DistinctItems, ih, List.forall_mem_cons]

theorem distinctFields_iff (fields : List (JsString × Option JsonValue)) :
    DistinctFields fields ↔ ∀ f ∈ fields, ∀ v ∈ f.2, v.Distinct := by
  induction fields with
  | nil => simp [DistinctFields]
  | cons f fields ih =>
      obtain ⟨k, _ | v⟩ := f
      · rw [DistinctFields, ih, List.forall_mem_cons]
        simp
      · rw [DistinctFields, ih, List.forall_mem_cons]
        simp

theorem member_eq_some_iff {α : Type} {fields : List (JsString × Option α)} (hkeys : (fields.map Prod.fst).Nodup)
    {k : JsString} {v : α} : member fields k = some v ↔ (k, some v) ∈ fields := by
  constructor
  · intro h
    obtain ⟨⟨k', o⟩, hfind, ho⟩ := Option.bind_eq_some_iff.1 h
    have hk : k' = k := by simpa using List.find?_some hfind
    obtain rfl : o = some v := ho
    exact hk ▸ List.mem_of_find?_eq_some hfind
  · intro h
    have hfind : fields.find? (fun f => f.1 == k) = some (k, some v) := by
      cases hf : fields.find? (fun f => f.1 == k) with
      | none =>
          rw [List.find?_eq_none] at hf
          exact absurd (beq_self_eq_true k) (hf _ h)
      | some f =>
          have hk : f.1 = k := by simpa using List.find?_some hf
          rw [eq_of_key_eq hkeys (List.mem_of_find?_eq_some hf) h hk]
    rw [member, hfind]
    rfl

theorem sortEntries_eq_iff {α : Type} {entries entries' : List (JsString × α)}
    (hkeys : (entries.map Prod.fst).Nodup) (hkeys' : (entries'.map Prod.fst).Nodup) :
    sortEntries entries = sortEntries entries' ↔ ∀ f, f ∈ entries ↔ f ∈ entries' := by
  have hunits : ∀ {es : List (JsString × α)}, (es.map Prod.fst).Nodup →
      (es.map fun f => f.1.map UInt16.toNat).Nodup := by
    intro es hes
    have hinj : Function.Injective (List.map UInt16.toNat) :=
      List.map_injective_iff.2 fun u v => UInt16.toNat_inj.1
    simpa [List.map_map, Function.comp_def] using hes.map hinj
  constructor
  · intro h f
    rw [← (orderBy_perm (fun f => f.1.map UInt16.toNat) entries).mem_iff,
      ← (orderBy_perm (fun f => f.1.map UInt16.toNat) entries').mem_iff]
    exact iff_of_eq (congrArg (f ∈ ·) h)
  · intro h
    have hperm : entries.Perm entries' := (List.perm_ext_iff_of_nodup hkeys.of_map hkeys'.of_map).2 h
    exact orderBy_eq (hunits hkeys) ((orderBy_perm _ entries').trans hperm.symm) (orderBy_sorted _ entries')

theorem keys_defined {fields : List (JsString × Option JsonValue)} (hkeys : (fields.map Prod.fst).Nodup) :
    ((defined fields).map Prod.fst).Nodup := by
  refine hkeys.sublist ?_
  induction fields with
  | nil => exact List.Sublist.refl _
  | cons f fields ih =>
      obtain ⟨k, _ | v⟩ := f
      · exact (ih (List.nodup_cons.1 hkeys).2).cons _
      · exact (ih (List.nodup_cons.1 hkeys).2).cons_cons _

theorem sortEntries_treeFields_eq_iff {fields fields' : List (JsString × Option JsonValue)}
    (hkeys : (fields.map Prod.fst).Nodup) (hkeys' : (fields'.map Prod.fst).Nodup) :
    sortEntries (treeFields fields) = sortEntries (treeFields fields') ↔
      ∀ k, (member fields k).map toTree = (member fields' k).map toTree := by
  have hnodup : ∀ {fs : List (JsString × Option JsonValue)}, (fs.map Prod.fst).Nodup →
      ((treeFields fs).map Prod.fst).Nodup := by
    intro fs hfs
    rw [treeFields_eq, List.map_map]
    exact keys_defined hfs
  have hmem : ∀ {fs : List (JsString × Option JsonValue)}, (fs.map Prod.fst).Nodup → ∀ k t,
      ((k, t) ∈ treeFields fs ↔ (member fs k).map toTree = some t) := by
    intro fs hfs k t
    rw [treeFields_eq, List.mem_map, Option.map_eq_some_iff]
    constructor
    · rintro ⟨⟨k', v⟩, hf, heq⟩
      obtain ⟨rfl, rfl⟩ := Prod.mk.inj heq
      exact ⟨v, (member_eq_some_iff hfs).2 (mem_defined.1 hf), rfl⟩
    · rintro ⟨v, hv, rfl⟩
      exact ⟨(k, v), mem_defined.2 ((member_eq_some_iff hfs).1 hv), rfl⟩
  rw [sortEntries_eq_iff (hnodup hkeys) (hnodup hkeys')]
  constructor
  · intro h k
    refine Option.ext fun t => ?_
    rw [← hmem hkeys, ← hmem hkeys']
    exact h (k, t)
  · rintro h ⟨k, t⟩
    rw [hmem hkeys, hmem hkeys', h k]

/-- Two distinct values have one tree exactly if they are the same. -/
theorem toTree_eq_iff (v : JsonValue) : ∀ w, v.Distinct → w.Distinct → (v.toTree = w.toTree ↔ Same v w) := by
  induction v using JsonValue.induction with
  | null =>
      intro w _ _
      constructor
      · intro h
        cases w with
        | null => exact .null
        | bool | num | str | arr | obj => cases h
      · rintro ⟨⟩
        rfl
  | bool b =>
      intro w _ _
      constructor
      · intro h
        cases w with
        | bool b' => cases h; exact .bool b
        | null | num | str | arr | obj => cases h
      · rintro ⟨⟩
        rfl
  | num n =>
      intro w _ _
      constructor
      · intro h
        cases w with
        | num n' => cases h; exact .num n
        | null | bool | str | arr | obj => cases h
      · rintro ⟨⟩
        rfl
  | str s =>
      intro w _ _
      constructor
      · intro h
        cases w with
        | str s' => cases h; exact .str s
        | null | bool | num | arr | obj => cases h
      · rintro ⟨⟩
        rfl
  | arr items ih =>
      intro w hv hw
      have hitems : ∀ items', DistinctItems items' →
          (items.map toTree = items'.map toTree ↔ List.Forall₂ Same items items') := by
        rw [Distinct, distinctItems_iff] at hv
        clear hw
        induction items with
        | nil =>
            intro items' _
            cases items' <;> simp
        | cons v items ihitems =>
            intro items' hitems'
            cases items' with
            | nil => simp
            | cons w items' =>
                have hhead := ih v (by simp) w (hv v (by simp)) hitems'.1
                have htail := ihitems (fun u hu => ih u (by simp [hu])) (fun u hu => hv u (by simp [hu])) items' hitems'.2
                rw [List.map_cons, List.map_cons, List.cons.injEq, hhead, htail, List.forall₂_cons]
      constructor
      · intro h
        cases w with
        | arr items' =>
            rw [toTree, toTree, Tree.arr.injEq, treeItems_eq, treeItems_eq, hitems items' hw] at h
            exact .arr h
        | null | bool | num | str | obj => cases h
      · intro h
        cases h with
        | arr h =>
            rw [toTree, toTree, treeItems_eq, treeItems_eq, (hitems _ hw).2 h]
  | obj fields ih =>
      intro w hv hw
      have hmember : ∀ fields', JsonValue.Distinct (.obj fields') → ∀ k,
          ((member fields k).map toTree = (member fields' k).map toTree ↔
            Option.Rel Same (member fields k) (member fields' k)) := by
        intro fields' hfields' k
        cases hm : member fields k with
        | none => cases hm' : member fields' k <;> simp
        | some v =>
            cases hm' : member fields' k with
            | none => simp
            | some w =>
                have hmem := (member_eq_some_iff hv.1).1 hm
                have hmem' := (member_eq_some_iff hfields'.1).1 hm'
                have hvalue := ih _ hmem v rfl w ((distinctFields_iff fields).1 hv.2 _ hmem v rfl)
                  ((distinctFields_iff fields').1 hfields'.2 _ hmem' w rfl)
                rw [Option.map_some, Option.map_some, Option.some.injEq, hvalue, Option.rel_some_some]
      constructor
      · intro h
        cases w with
        | obj fields' =>
            rw [toTree, toTree, Tree.obj.injEq, sortEntries_treeFields_eq_iff hv.1 hw.1] at h
            exact .obj fun k => (hmember fields' hw k).1 (h k)
        | null | bool | num | str | arr => cases h
      · intro h
        cases h with
        | obj h =>
            rw [toTree, toTree, (sortEntries_treeFields_eq_iff hv.1 hw.1).2 fun k => (hmember _ hw k).2 (h k)]

end JsonValue

/-- A value as the program can hold it: an object has one member of each name. -/
structure PlainValue where
  value : JsonValue
  distinct : value.Distinct

/-- Two values have the same canonical text exactly if they are equal up to the order of keys. -/
theorem canonicalJson_eq_iff_same (v w : PlainValue) :
    v.value.canonicalJson = w.value.canonicalJson ↔ JsonValue.Same v.value w.value := by
  rw [JsonValue.canonicalJson_eq_print, JsonValue.canonicalJson_eq_print,
    (Tree.print_injective JsonValue.readable).eq_iff]
  exact JsonValue.toTree_eq_iff v.value w.value v.distinct w.distinct

end Emis
