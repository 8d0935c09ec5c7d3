import Emis.Library.Printing

/-!
# Trees that can be read back

Values in brackets: lists of trees, and lists of trees with keys. If the texts of the leaves and
of the keys can be read back, so can the text of a tree.
-/

namespace Printing

/-- `A` are the leaves, `K` the keys. -/
inductive Tree (A K : Type) : Type where
  | leaf (a : A)
  | arr (items : List (Tree A K))
  | obj (fields : List (K × Tree A K))

namespace Tree

variable {A K : Type}

/-- A fact about all trees, from the trees inside a tree. -/
theorem induction {C : Tree A K → Prop} (leaf : ∀ a, C (.leaf a)) (arr : ∀ items, (∀ t ∈ items, C t) → C (.arr items))
    (obj : ∀ fields, (∀ f ∈ fields, C f.2) → C (.obj fields)) (t : Tree A K) : C t := by
  refine @Tree.rec A K C (fun items => ∀ t ∈ items, C t) (fun fields => ∀ f ∈ fields, C f.2) (fun f => C f.2)
    leaf arr obj ?_ ?_ ?_ ?_ (fun _ _ h => h) t
  · simp
  · intro t items ht hitems u hu
    rcases List.mem_cons.1 hu with rfl | hu
    · exact ht
    · exact hitems u hu
  · simp
  · intro f fields hf hfields g hg
    rcases List.mem_cons.1 hg with rfl | hg
    · exact hf
    · exact hfields g hg

section Print

variable (leafText : A → List Char) (keyText : K → List Char)

mutual

def print : Tree A K → List Char
  | .leaf a => leafText a
  | .arr items => '[' :: ([','].intercalate (printItems items) ++ [']'])
  | .obj fields => '{' :: ([','].intercalate (printFields fields) ++ ['}'])

def printItems : List (Tree A K) → List (List Char)
  | [] => []
  | t :: items => print t :: printItems items

def printFields : List (K × Tree A K) → List (List Char)
  | [] => []
  | (k, t) :: fields => (keyText k ++ ':' :: print t) :: printFields fields

end

def printField (f : K × Tree A K) : List Char := keyText f.1 ++ ':' :: print leafText keyText f.2

theorem printItems_eq (items : List (Tree A K)) :
    printItems leafText keyText items = items.map (print leafText keyText) := by
  induction items with
  | nil => rw [printItems, List.map_nil]
  | cons t items ih => rw [printItems, ih, List.map_cons]

theorem printFields_eq (fields : List (K × Tree A K)) :
    printFields leafText keyText fields = fields.map (printField leafText keyText) := by
  induction fields with
  | nil => rw [printFields, List.map_nil]
  | cons f fields ih => rw [printFields, ih, List.map_cons, printField]

end Print

/-- What may follow a tree: nothing, or what ends an item of a list. -/
def Ended (s : List Char) : Prop := ∀ c ∈ s.head?, c = ',' ∨ c = ']' ∨ c = '}'

theorem ended_nil : Ended [] := by simp [Ended]

theorem ended_cons {c : Char} (hc : c = ',' ∨ c = ']' ∨ c = '}') (s : List Char) : Ended (c :: s) := by
  simpa [Ended] using hc

/-- The characters that no leaf begins with. -/
def opens (c : Char) : Bool := ['[', ']', '{', '}'].contains c

/-- Leaves and keys that can be read back. -/
structure Readable (leafText : A → List Char) (keyText : K → List Char) : Prop where
  leaf : ∀ a, ReadsAt Ended leafText a
  key : ∀ k, ReadsAt (fun _ => True) keyText k
  leafStart : ∀ a, ∃ c s, leafText a = c :: s ∧ opens c = false
  keyStart : ∀ k, ∃ c s, keyText k = c :: s ∧ opens c = false

section Read

variable {leafText : A → List Char} {keyText : K → List Char}

/-- A tree begins with a leaf or an opening bracket. -/
theorem print_ne_close (h : Readable leafText keyText) {c : Char} (hc : c = ']' ∨ c = '}') (t : Tree A K)
    (s r : List Char) : print leafText keyText t ++ s ≠ c :: r := by
  intro heq
  cases t with
  | leaf a =>
      obtain ⟨d, text, htext, hd⟩ := h.leafStart a
      rw [print, htext] at heq
      obtain rfl := (List.cons.inj heq).1
      rcases hc with rfl | rfl <;> exact absurd hd (by decide)
  | arr | obj =>
      rw [print] at heq
      have hopen := (List.cons.inj heq).1
      rcases hc with rfl | rfl <;> exact absurd hopen (by decide)

theorem leaf_ne_open (h : Readable leafText keyText) {c : Char} (hc : opens c = true) (a : A) (s r : List Char) :
    leafText a ++ s ≠ c :: r := by
  obtain ⟨d, text, htext, hd⟩ := h.leafStart a
  intro heq
  rw [htext] at heq
  obtain rfl := (List.cons.inj heq).1
  rw [hc] at hd
  cases hd

theorem printField_readsAt (h : Readable leafText keyText) {f : K × Tree A K}
    (hf : ReadsAt Ended (print leafText keyText) f.2) : ReadsAt Ended (printField leafText keyText) f := by
  rintro ⟨k, u⟩ s r hs hr heq
  obtain ⟨k', t⟩ := f
  simp only [printField, List.append_assoc, List.cons_append] at heq
  obtain ⟨rfl, hcolon⟩ := h.key k' trivial trivial heq
  obtain ⟨rfl, hsr⟩ := hf hs hr (List.cons.inj hcolon).2
  exact ⟨rfl, hsr⟩

/-- A printed tree says which tree it is and where it ends. -/
theorem print_readsAt (h : Readable leafText keyText) (t : Tree A K) : ReadsAt Ended (print leafText keyText) t := by
  have hcomma : ∀ s, Ended (',' :: s) := ended_cons (.inl rfl)
  induction t using Tree.induction with
  | leaf a =>
      intro u s r hs hr heq
      cases u with
      | leaf b =>
          obtain ⟨rfl, hsr⟩ := h.leaf a hs hr heq
          exact ⟨rfl, hsr⟩
      | arr | obj =>
          rw [print, print] at heq
          exact absurd heq (leaf_ne_open h (by decide) a s _)
  | arr items ih =>
      intro u s r _ _ heq
      cases u with
      | leaf b =>
          rw [print, print] at heq
          exact absurd heq.symm (leaf_ne_open h (by decide) b r _)
      | obj fields =>
          rw [print, print] at heq
          exact absurd (List.cons.inj heq).1 (by decide)
      | arr items' =>
          have hclose : ∀ s, Ended (']' :: s) := ended_cons (.inr (.inl rfl))
          have hlist := readsAt_closed (by decide) hcomma hclose (print_ne_close h (.inl rfl)) ih
          simp only [print, printItems_eq, List.cons_append, List.cons.injEq, true_and] at heq
          obtain ⟨rfl, hsr⟩ := hlist trivial trivial heq
          exact ⟨rfl, hsr⟩
  | obj fields ih =>
      intro u s r _ _ heq
      cases u with
      | leaf b =>
          rw [print, print] at heq
          exact absurd heq.symm (leaf_ne_open h (by decide) b r _)
      | arr items =>
          rw [print, print] at heq
          exact absurd (List.cons.inj heq).1 (by decide)
      | obj fields' =>
          have hhead : ∀ (f : K × Tree A K) (s r : List Char), printField leafText keyText f ++ s ≠ '}' :: r := by
            intro f s r heq
            obtain ⟨c, text, htext, hc⟩ := h.keyStart f.1
            rw [printField, htext] at heq
            obtain rfl := (List.cons.inj heq).1
            exact absurd hc (by decide)
          have hclose : ∀ s, Ended ('}' :: s) := ended_cons (.inr (.inr rfl))
          have hlist := readsAt_closed (by decide) hcomma hclose hhead fun f hf => printField_readsAt h (ih f hf)
          simp only [print, printFields_eq, List.cons_append, List.cons.injEq, true_and] at heq
          obtain ⟨rfl, hsr⟩ := hlist trivial trivial heq
          exact ⟨rfl, hsr⟩

theorem print_injective (h : Readable leafText keyText) : Function.Injective (print leafText keyText) :=
  injective_of_readsAt ended_nil (print_readsAt h)

end Read

end Tree

end Printing
