import Emis.Admissions.Phone

/-!
# How a phone number is typed
-/

namespace Emis.Admissions

open Emis.Numbering (trim isBlank)

/-- A space, a dot, a hyphen or a closing bracket. -/
def isSeparator (c : Char) : Bool := isBlank c || ['.', '-', ')'].contains c

/-- The text is a number with separators put in after its first character. -/
def Spelled (number text : List Char) : Prop :=
  text.head? = number.head? ∧ (text.tail.filter fun c => !isSeparator c) = number.tail

/-- A national number, and the same with a leading zero or the calling code. -/
def spellings (s : List Char) : List (List Char) :=
  [s, '0' :: s, CALLING_CODE ++ s, '+' :: (CALLING_CODE ++ s), '0' :: '0' :: (CALLING_CODE ++ s)]

/-! ## Trimming -/

theorem trim_cons {a : Char} (ha : isBlank a = false) (rest : List Char) :
    ∃ kept blanks, trim (a :: rest) = a :: kept ∧ rest = kept ++ blanks ∧ ∀ c ∈ blanks, isBlank c = true := by
  refine ⟨(rest.reverse.dropWhile isBlank).reverse, (rest.reverse.takeWhile isBlank).reverse, ?_, ?_, ?_⟩
  · have hdrop : (a :: rest).dropWhile isBlank = a :: rest := by simp [ha]
    have hlast : (rest.reverse ++ [a]).dropWhile isBlank = rest.reverse.dropWhile isBlank ++ [a] := by
      rw [List.dropWhile_append]
      split
      · rename_i hnil
        rw [List.isEmpty_iff.1 hnil]
        simp [ha]
      · rfl
    rw [trim, hdrop, List.reverse_cons, hlast, List.reverse_append]
    rfl
  · rw [← List.reverse_append, List.takeWhile_append_dropWhile, List.reverse_reverse]
  · intro c hc
    exact List.mem_takeWhile_imp (List.mem_reverse.1 hc)

section Spellings

variable {number text : List Char}

theorem not_digit_of_separator {c : Char} (h : isSeparator c = true) : c.isDigit = false := by
  by_contra hdigit
  have hdigit : c.isDigit = true := by simpa using hdigit
  rw [isSeparator, not_blank_of_digit hdigit, Bool.false_or] at h
  simp only [List.contains_eq_mem, List.mem_cons, List.not_mem_nil, or_false, decide_eq_true_eq] at h
  rcases h with rfl | rfl | rfl <;> revert hdigit <;> decide

theorem filter_digits (h : ∀ c ∈ number.tail, c.isDigit = true) (hspelled : Spelled number text) :
    text.tail.filter Char.isDigit = number.tail := by
  have hboth : (text.tail.filter fun c => !isSeparator c).filter Char.isDigit = number.tail := by
    rw [hspelled.2]
    exact List.filter_eq_self.2 h
  rw [List.filter_filter] at hboth
  rw [← hboth]
  apply List.filter_congr
  intro c _
  cases hdigit : c.isDigit with
  | false => rfl
  | true =>
      cases hsep : isSeparator c with
      | false => rfl
      | true =>
          rw [not_digit_of_separator hsep] at hdigit
          cases hdigit

theorem shape_of_spelled {a : Char} {digits : List Char} (hspelled : Spelled (a :: digits) text) :
    ∃ rest, text = a :: rest := by
  cases text with
  | nil => cases hspelled.1
  | cons b rest =>
      obtain rfl : b = a := Option.some.inj hspelled.1
      exact ⟨rest, rfl⟩

theorem not_blank_of_first {a : Char} (ha : a = '+' ∨ a.isDigit = true) : isBlank a = false := by
  rcases ha with rfl | ha
  · decide
  · exact not_blank_of_digit ha

theorem looksLikePhone_first {a : Char} (ha : a = '+' ∨ a.isDigit = true) {rest : List Char}
    (hrest : ∀ c ∈ rest, c.isDigit = true ∨ isSeparator c = true) : looksLikePhone (a :: rest) = true := by
  have hfirst : (a == '+' || a.isDigit || a == '(') = true := by
    rcases ha with rfl | ha
    · decide
    · simp [ha]
  rw [looksLikePhone, hfirst, Bool.true_and, List.all_eq_true]
  intro c hc
  rcases hrest c hc with hdigit | hsep
  · simp [hdigit]
  · rw [isSeparator, Bool.or_eq_true] at hsep
    rcases hsep with hblank | hmem
    · simp [hblank]
    · simp only [List.contains_eq_mem, List.mem_cons, List.not_mem_nil, or_false, decide_eq_true_eq] at hmem
      rcases hmem with rfl | rfl | rfl <;> decide

theorem fullNumber_congr {a : Char} {left right : List Char}
    (h : left.filter Char.isDigit = right.filter Char.isDigit) :
    fullNumber (a :: left) = fullNumber (a :: right) := by
  have hdigits : (a :: left).filter Char.isDigit = (a :: right).filter Char.isDigit := by
    simp only [List.filter_cons, h]
  unfold fullNumber
  rw [hdigits]
  rfl

theorem trim_digits {a : Char} {digits : List Char} (ha : a = '+' ∨ a.isDigit = true)
    (hdigits : ∀ c ∈ digits, c.isDigit = true) : trim (a :: digits) = a :: digits := by
  apply trim_of_forall
  intro c hc
  rcases List.mem_cons.1 hc with rfl | hc
  · exact not_blank_of_first ha
  · exact not_blank_of_digit (hdigits c hc)

/-- Separators change nothing: only the first character and the digits count. -/
theorem normalizePhone_spelled {a : Char} {digits : List Char} (ha : a = '+' ∨ a.isDigit = true)
    (hdigits : ∀ c ∈ digits, c.isDigit = true) (hspelled : Spelled (a :: digits) text) :
    normalizePhone text = normalizePhone (a :: digits) := by
  have hfilter := @filter_digits (a :: digits) text hdigits hspelled
  have hrests : ∀ c ∈ text.tail, c.isDigit = true ∨ isSeparator c = true := by
    intro c hc
    cases hsep : isSeparator c with
    | true => exact .inr rfl
    | false =>
        have hmem : c ∈ text.tail.filter fun c => !isSeparator c := List.mem_filter.2 ⟨hc, by simp [hsep]⟩
        rw [hspelled.2] at hmem
        exact .inl (hdigits c hmem)
  obtain ⟨rest, rfl⟩ := shape_of_spelled hspelled
  rw [List.tail_cons] at hfilter hrests
  obtain ⟨kept, blanks, htrim, rfl, hblanks⟩ := trim_cons (not_blank_of_first ha) rest
  have hnone : blanks.filter Char.isDigit = [] := by
    rw [List.filter_eq_nil_iff]
    intro c hc hdigit
    exact Bool.false_ne_true ((not_blank_of_digit hdigit).symm.trans (hblanks c hc))
  rw [List.filter_append, hnone, List.append_nil, List.tail_cons] at hfilter
  have hfull : fullNumber (a :: kept) = fullNumber (a :: digits) := by
    apply fullNumber_congr
    rw [hfilter, List.filter_eq_self.2 hdigits]
  have hkept : looksLikePhone (a :: kept) = true :=
    looksLikePhone_first ha fun c hc => hrests c (List.mem_append_left _ hc)
  have hlooks : looksLikePhone (a :: digits) = true :=
    looksLikePhone_first ha fun c hc => .inl (hdigits c hc)
  simp only [normalizePhone, htrim, trim_digits ha hdigits, hkept, hlooks, hfull]

theorem normalizePhone_digits {a : Char} {digits full : List Char} (ha : a = '+' ∨ a.isDigit = true)
    (hdigits : ∀ c ∈ digits, c.isDigit = true) (hfull : fullNumber (a :: digits) = full)
    (hlength : MIN_DIGITS ≤ full.length ∧ full.length ≤ MAX_DIGITS) :
    normalizePhone (a :: digits) = some ('+' :: full) := by
  have hlooks : looksLikePhone (a :: digits) = true :=
    looksLikePhone_first ha fun c hc => .inl (hdigits c hc)
  simp [normalizePhone, trim_digits ha hdigits, hlooks, hfull, hlength]

end Spellings

/-! ## The national numbers -/

section National

variable {s : List Char} (hdigits : ∀ c ∈ s, c.isDigit = true) (hlength : s.length = 9)
  (hzero : s.head? ≠ some '0')

include hdigits

theorem digits_code : ∀ c ∈ CALLING_CODE ++ s, c.isDigit = true := by
  have hcode : ∀ c ∈ CALLING_CODE, c.isDigit = true := by decide
  intro c hc
  exact (List.mem_append.1 hc).elim (hcode c) (hdigits c)

theorem spelled_self : Spelled s s := by
  refine ⟨rfl, List.filter_eq_self.2 ?_⟩
  intro c hc
  have hdigit := hdigits c (List.mem_of_mem_tail hc)
  cases hsep : isSeparator c with
  | false => rfl
  | true => exact absurd hdigit (by rw [not_digit_of_separator hsep]; exact Bool.false_ne_true)

theorem fullNumber_plus : fullNumber ('+' :: (CALLING_CODE ++ s)) = CALLING_CODE ++ s := by
  have hplus : Char.isDigit '+' = false := by decide
  simp [fullNumber, hplus, List.filter_eq_self.2 (digits_code hdigits)]

theorem fullNumber_doubleZero :
    fullNumber ('0' :: '0' :: (CALLING_CODE ++ s)) = CALLING_CODE ++ s := by
  have hdigit : Char.isDigit '0' = true := by decide
  simp [fullNumber, hdigit, List.filter_eq_self.2 (digits_code hdigits), List.isPrefixOf]

theorem fullNumber_code : fullNumber (CALLING_CODE ++ s) = CALLING_CODE ++ s := by
  have hfilter : (CALLING_CODE ++ s).filter Char.isDigit = CALLING_CODE ++ s :=
    List.filter_eq_self.2 (digits_code hdigits)
  unfold fullNumber
  rw [hfilter]
  simp [CALLING_CODE, List.isPrefixOf]

include hzero

theorem fullNumber_zero : fullNumber ('0' :: s) = CALLING_CODE ++ s := by
  have hdigit : Char.isDigit '0' = true := by decide
  cases s with
  | nil => rfl
  | cons d rest =>
      have hne : '0' ≠ d := fun h => hzero (by rw [List.head?_cons, ← h])
      simp [fullNumber, hdigit, List.filter_eq_self.2 hdigits, List.isPrefixOf, hne]

theorem fullNumber_bare (hs : s ≠ []) :
    fullNumber s = if CALLING_CODE.isPrefixOf s then s else CALLING_CODE ++ s := by
  cases s with
  | nil => exact absurd rfl hs
  | cons d rest =>
      have hne : '0' ≠ d := fun h => hzero (by rw [List.head?_cons, ← h])
      have hplus : d ≠ '+' := by
        rintro rfl
        exact absurd (hdigits _ List.mem_cons_self) (by decide)
      unfold fullNumber
      rw [List.filter_eq_self.2 hdigits]
      simp [List.isPrefixOf, hne, hplus]

include hlength

theorem normalizePhone_bare :
    normalizePhone s = some ('+' :: if CALLING_CODE.isPrefixOf s then s else CALLING_CODE ++ s) := by
  have hs : s ≠ [] := by
    rintro rfl
    cases hlength
  have hfull := fullNumber_bare hdigits hzero hs
  cases s with
  | nil => exact absurd rfl hs
  | cons d rest =>
      apply normalizePhone_digits (.inr (hdigits d List.mem_cons_self))
        (fun c hc => hdigits c (List.mem_cons_of_mem _ hc)) hfull
      split <;> simp only [List.length_append, hlength] <;> decide

/-- Every longer spelling names the number. -/
theorem normalizePhone_longer {form : List Char} (h : form ∈ spellings s) (hform : form ≠ s) :
    normalizePhone form = some ('+' :: (CALLING_CODE ++ s)) := by
  have hcode := digits_code hdigits
  have hsize : MIN_DIGITS ≤ (CALLING_CODE ++ s).length ∧ (CALLING_CODE ++ s).length ≤ MAX_DIGITS := by
    rw [List.length_append, hlength]
    decide
  simp only [spellings, List.mem_cons, List.not_mem_nil, or_false] at h
  rcases h with rfl | rfl | rfl | rfl | rfl
  · exact absurd rfl hform
  · exact normalizePhone_digits (.inr (by decide)) hdigits (fullNumber_zero hdigits hzero) hsize
  · exact normalizePhone_digits (.inr (by decide)) (fun c hc => hcode c (List.mem_cons_of_mem _ hc))
      (fullNumber_code hdigits) hsize
  · exact normalizePhone_digits (.inl rfl) hcode (fullNumber_plus hdigits) hsize
  · apply normalizePhone_digits (.inr (by decide)) _ (fullNumber_doubleZero hdigits) hsize
    intro c hc
    rcases List.mem_cons.1 hc with rfl | hc
    · decide
    · exact hcode c hc

theorem normalizePhone_form {form text : List Char} (h : form ∈ spellings s) (hspelled : Spelled form text) :
    normalizePhone text = normalizePhone form := by
  have hcode := digits_code hdigits
  simp only [spellings, List.mem_cons, List.not_mem_nil, or_false] at h
  rcases h with rfl | rfl | rfl | rfl | rfl
  · cases form with
    | nil => cases hlength
    | cons d rest =>
        exact normalizePhone_spelled (.inr (hdigits d List.mem_cons_self))
          (fun c hc => hdigits c (List.mem_cons_of_mem _ hc)) hspelled
  · exact normalizePhone_spelled (.inr (by decide)) hdigits hspelled
  · exact normalizePhone_spelled (.inr (by decide)) (fun c hc => hcode c (List.mem_cons_of_mem _ hc)) hspelled
  · exact normalizePhone_spelled (.inl rfl) hcode hspelled
  · apply normalizePhone_spelled (.inr (by decide)) _ hspelled
    intro c hc
    rcases List.mem_cons.1 hc with rfl | hc
    · decide
    · exact hcode c hc

end National

/-- The five spellings of a national number are one number unless it starts with the calling code. -/
theorem normalizePhone_same_iff {s : List Char} (hdigits : ∀ c ∈ s, c.isDigit = true)
    (hlength : s.length = 9) (hzero : s.head? ≠ some '0') :
    ((∀ form ∈ spellings s, ∀ text, Spelled form text →
        normalizePhone text = some ('+' :: (CALLING_CODE ++ s))) ∧
      ∀ input phone, normalizePhone input = some phone → normalizePhone phone = some phone) ↔
      CALLING_CODE.isPrefixOf s = false := by
  have hbare := normalizePhone_bare hdigits hlength hzero
  constructor
  · rintro ⟨hall, -⟩
    have hsame := hall s List.mem_cons_self s (spelled_self hdigits)
    cases hprefix : CALLING_CODE.isPrefixOf s with
    | false => rfl
    | true =>
        rw [hbare, hprefix, if_pos rfl] at hsame
        have hshort := congrArg List.length (List.cons.inj (Option.some.inj hsame)).2
        rw [List.length_append] at hshort
        have hthree : CALLING_CODE.length = 3 := rfl
        omega
  · intro hprefix
    refine ⟨?_, fun _ _ h => normalizePhone_idem h⟩
    intro form hform text hspelled
    rw [normalizePhone_form hdigits hlength hzero hform hspelled]
    by_cases hself : form = s
    · rw [hself, hbare, hprefix]
      rfl
    · exact normalizePhone_longer hdigits hlength hzero hform hself

/-- A mobile number. -/
theorem normalizePhone_same_iff_mobile :
    ((∀ form ∈ spellings "911223344".toList, ∀ text, Spelled form text →
        normalizePhone text = some ('+' :: (CALLING_CODE ++ "911223344".toList))) ∧
      ∀ input phone, normalizePhone input = some phone → normalizePhone phone = some phone) ↔
      CALLING_CODE.isPrefixOf "911223344".toList = false :=
  normalizePhone_same_iff (by decide) (by decide) (by decide)

/-- A national number that begins like the calling code: with its leading zero it is read right, bare it is not. -/
theorem bare_misread :
    let s := "251112345".toList
    (∀ c ∈ s, c.isDigit = true) ∧ s.length = 9 ∧ s.head? ≠ some '0' ∧ s ∈ spellings s ∧ Spelled s s ∧
      normalizePhone ('0' :: s) = some ('+' :: (CALLING_CODE ++ s)) ∧
      normalizePhone s = some "+251112345".toList ∧ normalizePhone s ≠ some ('+' :: (CALLING_CODE ++ s)) := by
  unfold Spelled
  decide +kernel

end Emis.Admissions
