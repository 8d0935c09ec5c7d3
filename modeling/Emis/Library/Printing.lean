import Mathlib.Data.List.Basic

/-!
# Texts that can be read back

A printed value is readable when the text it begins says which value it is and
where it ends. Readable parts, put together with brackets and separators, give
a readable whole, so a printer is injective when its parts are readable.
-/

namespace Printing

variable {χ α β : Type}

/-- Whatever begins with the text of `v` begins with no other text of the
printer, as long as what follows a value is allowed there. -/
def ReadsAt (after : List χ → Prop) (print : α → List χ) (v : α) : Prop :=
  ∀ ⦃w s t⦄, after s → after t → print v ++ s = print w ++ t → v = w ∧ s = t

variable {after : List χ → Prop} {print : α → List χ}

theorem injective_of_readsAt (hafter : after []) (h : ∀ v, ReadsAt after print v) :
    Function.Injective print := by
  intro v w heq
  exact (h v hafter hafter (congrArg (· ++ []) heq)).1

/-- A reader that gives the value and the rest. -/
theorem readsAt_of_reader {read : List χ → Option (α × List χ)}
    (h : ∀ v s, after s → read (print v ++ s) = some (v, s)) (v : α) : ReadsAt after print v := by
  intro w s t hs ht heq
  have hread := h v s hs
  rw [heq, h w t ht] at hread
  simpa [eq_comm] using hread

/-- A part of an alphabet that what follows does not begin with. -/
theorem eq_of_append_eq {p : χ → Prop} {v w s t : List χ} (hv : ∀ c ∈ v, p c) (hw : ∀ c ∈ w, p c)
    (hs : ∀ c ∈ s.head?, ¬ p c) (ht : ∀ c ∈ t.head?, ¬ p c) (h : v ++ s = w ++ t) :
    v = w ∧ s = t := by
  induction v generalizing w with
  | nil =>
      cases w with
      | nil => exact ⟨rfl, h⟩
      | cons c w =>
          rw [List.nil_append] at h
          exact absurd (hw c (by simp)) (hs c (by simp [h]))
  | cons c v ih =>
      cases w with
      | nil =>
          rw [List.nil_append] at h
          exact absurd (hv c (by simp)) (ht c (by simp [← h]))
      | cons d w =>
          simp only [List.cons_append, List.cons.injEq] at h
          obtain ⟨rfl, h⟩ := h
          obtain ⟨rfl, hst⟩ := ih (fun x hx => hv x (by simp [hx])) (fun x hx => hw x (by simp [hx])) h
          exact ⟨rfl, hst⟩

/-- Code words one after the other, up to a mark that begins no code word. -/
theorem readsAt_flatMap {code : α → List χ} {close : χ}
    (hafter : ∀ (vs : List α) s, after (vs.flatMap code ++ close :: s))
    (hclose : ∀ v s t, code v ++ s ≠ close :: t) {vs : List α}
    (hcode : ∀ v ∈ vs, ReadsAt after code v) :
    ReadsAt (fun _ => True) (fun vs : List α => vs.flatMap code ++ [close]) vs := by
  intro ws s t _ _ heq
  simp only [List.append_assoc, List.singleton_append] at heq
  induction vs generalizing ws with
  | nil =>
      cases ws with
      | nil => simpa using heq
      | cons w ws =>
          rw [List.flatMap_nil, List.nil_append, List.flatMap_cons, List.append_assoc] at heq
          exact absurd heq.symm (hclose _ _ _)
  | cons v vs ih =>
      cases ws with
      | nil =>
          rw [List.flatMap_nil, List.nil_append, List.flatMap_cons, List.append_assoc] at heq
          exact absurd heq (hclose _ _ _)
      | cons w ws =>
          simp only [List.flatMap_cons, List.append_assoc] at heq
          obtain ⟨rfl, hrest⟩ := hcode v (by simp) (hafter _ _) (hafter _ _) heq
          obtain ⟨rfl, hst⟩ := ih (fun v' hv' => hcode v' (by simp [hv'])) hrest
          exact ⟨rfl, hst⟩

/-- Code words that are not empty need no mark at the end. -/
theorem injective_flatMap {code : α → List χ} (hcode : ∀ v, ReadsAt (fun _ => True) code v)
    (hne : ∀ v, code v ≠ []) : Function.Injective fun vs : List α => vs.flatMap code := by
  intro vs ws h
  change vs.flatMap code = ws.flatMap code at h
  induction vs generalizing ws with
  | nil =>
      cases ws with
      | nil => rfl
      | cons w ws => simp [hne] at h
  | cons v vs ih =>
      cases ws with
      | nil => simp [hne] at h
      | cons w ws =>
          simp only [List.flatMap_cons] at h
          obtain ⟨rfl, hrest⟩ := hcode v trivial trivial h
          rw [ih hrest]

theorem intercalate_cons (sep : χ) (v : List χ) (vs : List (List χ)) :
    [sep].intercalate (v :: vs) = v ++ vs.flatMap (sep :: ·) := by
  induction vs generalizing v with
  | nil => simp
  | cons w vs ih =>
      rw [List.intercalate_cons_cons, ih w, List.flatMap_cons]
      simp

/-- A list with separators, up to a closing bracket. -/
theorem readsAt_closed {sep close : χ} (hne : sep ≠ close) (hsep : ∀ s, after (sep :: s))
    (hclose : ∀ s, after (close :: s)) (hhead : ∀ v s t, print v ++ s ≠ close :: t) {vs : List α}
    (h : ∀ v ∈ vs, ReadsAt after print v) :
    ReadsAt (fun _ => True) (fun vs : List α => [sep].intercalate (vs.map print) ++ [close]) vs := by
  have hafter : ∀ (vs : List α) s, after (vs.flatMap (fun v => sep :: print v) ++ close :: s) := by
    intro vs s
    cases vs with
    | nil => exact hclose s
    | cons v vs => exact hsep _
  have hword : ∀ v ∈ vs, ReadsAt after (fun v => sep :: print v) v := by
    intro v hv w s t hs ht heq
    exact h v hv hs ht (List.cons.inj heq).2
  have htext : ∀ (v : α) (vs : List α), [sep].intercalate ((v :: vs).map print) =
      print v ++ vs.flatMap fun v => sep :: print v := by
    intro v vs
    rw [List.map_cons, intercalate_cons, List.flatMap_map]
  intro ws s t _ _ heq
  simp only [List.append_assoc, List.singleton_append] at heq
  cases vs with
  | nil =>
      cases ws with
      | nil => simpa using heq
      | cons w ws =>
          rw [htext, List.map_nil, List.intercalate_nil, List.nil_append, List.append_assoc] at heq
          exact absurd heq.symm (hhead _ _ _)
  | cons v vs =>
      cases ws with
      | nil =>
          rw [htext, List.map_nil, List.intercalate_nil, List.nil_append, List.append_assoc] at heq
          exact absurd heq (hhead _ _ _)
      | cons w ws =>
          rw [htext, htext, List.append_assoc, List.append_assoc] at heq
          obtain ⟨rfl, hrest⟩ := h v (by simp) (hafter _ _) (hafter _ _) heq
          have htail : ∀ v' ∈ vs, ReadsAt after (fun v => sep :: print v) v' :=
            fun v' hv' => hword v' (by simp [hv'])
          have hvs := readsAt_flatMap hafter (fun _ _ _ hcons => hne (List.cons.inj hcons).1) htail
          obtain ⟨rfl, hst⟩ := @hvs ws s t trivial trivial (by simpa using hrest)
          exact ⟨rfl, hst⟩

end Printing
