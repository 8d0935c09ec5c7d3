import Mathlib.Data.List.Infix

/-!
# `LIKE`

SQL patterns: `%` stands for any text, `_` for any character, and a backslash takes the
next character as it is.
-/

namespace Like

/-- The text matches the pattern. -/
def like (pattern text : List Char) : Bool :=
  match pattern with
  | [] => text.isEmpty
  | ['\\'] => false
  | '\\' :: c :: pattern => match text with
      | [] => false
      | d :: rest => c == d && like pattern rest
  | '%' :: pattern => text.tails.any (like pattern)
  | '_' :: pattern => match text with
      | [] => false
      | _ :: rest => like pattern rest
  | c :: pattern => match text with
      | [] => false
      | d :: rest => c == d && like pattern rest

/-- The text with a backslash before what is special. -/
def escape (s : List Char) : List Char :=
  s.flatMap fun ch => if ['\\', '%', '_'].contains ch then ['\\', ch] else [ch]

/-- The pattern of every text that the given one is part of. -/
def containing (s : List Char) : List Char := '%' :: (escape s ++ ['%'])

variable {s pattern text : List Char}

theorem escape_eq_self (h : ∀ c ∈ s, ['\\', '%', '_'].contains c = false) : escape s = s := by
  induction s with
  | nil => rfl
  | cons c s ih =>
      have hhead := h c List.mem_cons_self
      have hrest := ih fun d hd => h d (List.mem_cons_of_mem _ hd)
      rw [escape, List.flatMap_cons, hhead, ← escape, hrest]
      rfl

theorem like_percent : like ('%' :: pattern) text = true ↔ ∃ rest, rest <:+ text ∧ like pattern rest = true := by
  rw [like, List.any_eq_true]
  simp only [List.mem_tails]

theorem and_beq_iff {c d : Char} {rest : List Char} : (c == d && like pattern rest) = true ↔
    ∃ tail, d :: rest = c :: tail ∧ like pattern tail = true := by
  rw [Bool.and_eq_true, beq_iff_eq]
  constructor
  · rintro ⟨rfl, h⟩
    exact ⟨rest, rfl, h⟩
  · rintro ⟨tail, htext, h⟩
    obtain ⟨rfl, rfl⟩ := List.cons.inj htext
    exact ⟨rfl, h⟩

theorem like_backslash {c : Char} : like ('\\' :: c :: pattern) text = true ↔
    ∃ rest, text = c :: rest ∧ like pattern rest = true := by
  cases text with
  | nil => simp [like]
  | cons d rest =>
      rw [like]
      exact and_beq_iff

theorem like_plain {c : Char} (hbackslash : c ≠ '\\') (hpercent : c ≠ '%') (hunderscore : c ≠ '_') :
    like (c :: pattern) text = true ↔ ∃ rest, text = c :: rest ∧ like pattern rest = true := by
  cases text with
  | nil => simp [like, hbackslash]
  | cons d rest =>
      have hstep : like (c :: pattern) (d :: rest) = (c == d && like pattern rest) := by
        simp [like, hbackslash]
      rw [hstep]
      exact and_beq_iff

theorem escape_cons (c : Char) (s : List Char) : escape (c :: s) = escape [c] ++ escape s := by
  simp [escape]

/-- A literal character is matched by itself. -/
theorem like_escape_cons (c : Char) : like (escape [c] ++ pattern) text = true ↔
    ∃ rest, text = c :: rest ∧ like pattern rest = true := by
  by_cases hspecial : c = '\\' ∨ c = '%' ∨ c = '_'
  · have hescape : escape [c] = ['\\', c] := by simp [escape, hspecial]
    rw [hescape]
    exact like_backslash
  · have hescape : escape [c] = [c] := by simp [escape, hspecial]
    rw [hescape]
    simp only [not_or] at hspecial
    exact like_plain hspecial.1 hspecial.2.1 hspecial.2.2

theorem like_escape : like (escape s ++ pattern) text = true ↔
    ∃ rest, text = s ++ rest ∧ like pattern rest = true := by
  induction s generalizing text with
  | nil =>
      constructor
      · exact fun h => ⟨text, rfl, h⟩
      · rintro ⟨rest, rfl, h⟩
        exact h
  | cons c s ih =>
      rw [escape_cons, List.append_assoc, like_escape_cons]
      constructor
      · rintro ⟨rest, rfl, hrest⟩
        obtain ⟨tail, rfl, htail⟩ := ih.1 hrest
        exact ⟨tail, rfl, htail⟩
      · rintro ⟨tail, rfl, htail⟩
        exact ⟨s ++ tail, rfl, ih.2 ⟨tail, rfl, htail⟩⟩

theorem like_containing : like (containing s) text = true ↔ s <:+: text := by
  rw [containing, like_percent]
  constructor
  · rintro ⟨rest, ⟨before, rfl⟩, hrest⟩
    obtain ⟨after, rfl, -⟩ := like_escape.1 hrest
    exact ⟨before, after, List.append_assoc _ _ _⟩
  · rintro ⟨before, after, rfl⟩
    refine ⟨s ++ after, ⟨before, (List.append_assoc _ _ _).symm⟩, like_escape.2 ⟨after, rfl, ?_⟩⟩
    exact like_percent.2 ⟨[], List.nil_suffix, rfl⟩

end Like
