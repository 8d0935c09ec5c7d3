import Emis.Numbering.Pattern
import Mathlib.Tactic.IntervalCases

/-!
# Phone numbers

`packages/contracts/src/phone.ts`: one spelling for each number, however it is typed.
-/

namespace Emis.Admissions

open Emis.Numbering (trim isBlank)

def MIN_DIGITS : ℕ := 8

def MAX_DIGITS : ℕ := 15

/-- `CALLING_CODES.ET`. -/
def CALLING_CODE : List Char := ['2', '5', '1']

/-- `/^[+\d(][\d\s().-]*$/`. -/
def looksLikePhone : List Char → Bool
  | [] => false
  | c :: rest => (c == '+' || c.isDigit || c == '(') &&
      rest.all fun c => c.isDigit || isBlank c || ['(', ')', '.', '-'].contains c

/-- The digits with the calling code in front. -/
def fullNumber (trimmed : List Char) : List Char :=
  let digits := trimmed.filter Char.isDigit
  if trimmed.head? = some '+' then digits
  else if ['0', '0'].isPrefixOf digits then digits.drop 2
  else if ['0'].isPrefixOf digits then CALLING_CODE ++ digits.drop 1
  else if CALLING_CODE.isPrefixOf digits then digits
  else CALLING_CODE ++ digits

/-- A phone number as "+<digits>", or none when it can't be one. -/
def normalizePhone (input : List Char) : Option (List Char) :=
  let trimmed := trim input
  if looksLikePhone trimmed && MIN_DIGITS ≤ (fullNumber trimmed).length &&
      (fullNumber trimmed).length ≤ MAX_DIGITS then
    some ('+' :: fullNumber trimmed)
  else none

def phoneSchema (value : String) : Option String :=
  let trimmed := trim value.toList
  if trimmed.length ≤ 30 then (normalizePhone trimmed).map String.ofList else none

/-! ## One spelling -/

theorem digits_fullNumber (trimmed : List Char) : ∀ c ∈ fullNumber trimmed, c.isDigit = true := by
  have hdigits : ∀ c ∈ trimmed.filter Char.isDigit, c.isDigit = true := fun c hc => (List.mem_filter.1 hc).2
  have hcode : ∀ c ∈ CALLING_CODE, c.isDigit = true := by decide
  have hdrop : ∀ n, ∀ c ∈ (trimmed.filter Char.isDigit).drop n, c.isDigit = true :=
    fun n c hc => hdigits c (List.mem_of_mem_drop hc)
  unfold fullNumber
  intro c hc
  dsimp only at hc
  split at hc
  · exact hdigits c hc
  · split at hc
    · exact hdrop 2 c hc
    · split at hc
      · exact (List.mem_append.1 hc).elim (hcode c) (hdrop 1 c)
      · split at hc
        · exact hdigits c hc
        · exact (List.mem_append.1 hc).elim (hcode c) (hdigits c)

theorem not_blank_of_digit {c : Char} (h : c.isDigit = true) : isBlank c = false := by
  have hrange : 48 ≤ c.toNat ∧ c.toNat ≤ 57 := by
    simpa [Char.isDigit, Char.le_def, UInt32.le_iff_toNat_le] using h
  obtain ⟨hlow, hhigh⟩ := hrange
  rw [← Char.ofNat_toNat c]
  generalize c.toNat = n at hlow hhigh
  interval_cases n <;> decide

/-- Only capital letters have another lower case. -/
theorem range_of_toLower {c : Char} (h : c.toLower ≠ c) : 65 ≤ c.toNat ∧ c.toNat ≤ 90 := by
  by_contra hout
  apply h
  delta Char.toLower
  rw [dif_neg]
  simpa [UInt32.le_iff_toNat_le] using hout

theorem dropWhile_of_forall {s : List Char} (h : ∀ c ∈ s, isBlank c = false) :
    s.dropWhile isBlank = s := by
  cases s with
  | nil => rfl
  | cons c rest => simp [h c List.mem_cons_self]

theorem trim_of_forall {s : List Char} (h : ∀ c ∈ s, isBlank c = false) : trim s = s := by
  have hreverse : ∀ c ∈ s.reverse, isBlank c = false := fun c hc => h c (List.mem_reverse.1 hc)
  rw [trim, dropWhile_of_forall h, dropWhile_of_forall hreverse, List.reverse_reverse]

/-- What a normalized number looks like. -/
theorem normalizePhone_eq_some {input phone : List Char} (h : normalizePhone input = some phone) :
    ∃ full : List Char, (∀ c ∈ full, c.isDigit = true) ∧ phone = '+' :: full ∧
      MIN_DIGITS ≤ full.length ∧ full.length ≤ MAX_DIGITS := by
  rw [normalizePhone] at h
  split at h
  · rename_i hshape
    simp only [Bool.and_eq_true, decide_eq_true_eq] at hshape
    exact ⟨_, digits_fullNumber _, (Option.some.inj h).symm, hshape.1.2, hshape.2⟩
  · simp at h

theorem trim_plus {full : List Char} (hdigits : ∀ c ∈ full, c.isDigit = true) :
    trim ('+' :: full) = '+' :: full := by
  apply trim_of_forall
  intro c hc
  rcases List.mem_cons.1 hc with rfl | hc
  · decide
  · exact not_blank_of_digit (hdigits c hc)

/-- A normalized number is its own normal form. -/
theorem normalizePhone_idem {input phone : List Char} (h : normalizePhone input = some phone) :
    normalizePhone phone = some phone := by
  obtain ⟨full, hdigits, rfl, hlength⟩ := normalizePhone_eq_some h
  have hlooks : looksLikePhone ('+' :: full) = true := by
    simp only [looksLikePhone, beq_self_eq_true, Bool.true_or, Bool.true_and, List.all_eq_true]
    intro c hc
    simp [hdigits c hc]
  have hfull : fullNumber ('+' :: full) = full := by
    have hfilter : full.filter Char.isDigit = full := List.filter_eq_self.2 hdigits
    have hplus : Char.isDigit '+' = false := by decide
    simp [fullNumber, hplus, hfilter]
  simp [normalizePhone, trim_plus hdigits, hlooks, hfull, hlength]

/-- What the schema gives, it accepts and gives back. -/
theorem phoneSchema_idem {value phone : String} (h : phoneSchema value = some phone) :
    phoneSchema phone = some phone := by
  rw [phoneSchema] at h
  split at h
  · obtain ⟨normal, hnormal, rfl⟩ := Option.map_eq_some_iff.1 h
    obtain ⟨full, hdigits, rfl, -, hmax⟩ := normalizePhone_eq_some hnormal
    have hlength : ('+' :: full).length ≤ 30 := by
      simp only [MAX_DIGITS, List.length_cons] at hmax ⊢
      omega
    simp only [phoneSchema, String.toList_ofList, trim_plus hdigits, if_pos hlength,
      normalizePhone_idem hnormal, Option.map_some]
  · simp at h

end Emis.Admissions
