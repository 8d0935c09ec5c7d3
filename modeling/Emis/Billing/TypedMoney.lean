import Emis.Admissions.Phone
import Emis.Billing.PaymentsService
import Emis.Reports.Csv
import Mathlib.Algebra.Order.Field.Rat
import Mathlib.Tactic.FieldSimp
import Mathlib.Tactic.NormNum
import Mathlib.Tactic.Ring

/-!
# Amounts as a person types them

`parseMoney` of `contracts/money.ts`, on what the reports write and on everything else.
-/

namespace Emis.Billing

open Emis.Numbering (trim isBlank)
open Numerals Reports

/-- `/[,\s]/`. -/
def isSeparator (c : Char) : Bool := c == ',' || isBlank c

def cleaned (input : Str) : Str := (trim input).filter fun c => !isSeparator c

/-- `/^(\d{1,12})(?:\.(\d{1,2}))?$/`. -/
def matchMoney (text : Str) : Option (Str × Option Str) :=
  let whole := text.takeWhile Char.isDigit
  if 1 ≤ whole.length ∧ whole.length ≤ 12 then
    match text.dropWhile Char.isDigit with
    | [] => some (whole, none)
    | '.' :: cents =>
        if cents.all Char.isDigit ∧ 1 ≤ cents.length ∧ cents.length ≤ 2 then some (whole, some cents) else none
    | _ => none
  else none

/-- `Number` of a text of digits. -/
def number (digits : Str) : ℕ := Nat.ofDigitChars 10 digits 0

def padEnd (width : ℕ) (s : Str) : Str := List.rightpad width '0' s

def parseMoney (input : Str) : Option ℤ :=
  match matchMoney (cleaned input) with
  | none => none
  | some (whole, cents) =>
      let total : ℤ := number whole * 100 + number (padEnd 2 (cents.getD []))
      if total ≤ MAX_MINOR_UNITS then some total else none

example : ["1,500.50", " 12 000.00 ", "0.5", "1.234", "12.", ".5"].map (fun s => parseMoney s.toList) =
    [some 150050, some 1200000, some 50, none, none, none] := by decide +kernel

/-- The same digits with a separator between groups of three. -/
def grouped (sep : Char) : Str → Str
  | [] => []
  | c :: s => if s ≠ [] ∧ s.length % 3 = 0 then c :: sep :: grouped sep s else c :: grouped sep s

/-- What `decimalMoney` writes of an amount, with its whole units grouped. -/
def groupedMoney (sep : Char) (n : ℤ) : Str :=
  grouped sep ((decimalMoney n).takeWhile (· ≠ '.')) ++ (decimalMoney n).dropWhile (· ≠ '.')

/-- A comma has a digit on both sides, and behind it the whole units end after some groups of three. -/
def CommasBetweenGroups (s : Str) : Prop :=
  ∀ before after, s = before ++ ',' :: after →
    '.' ∉ before ∧ (∃ c ∈ before.getLast?, c.isDigit = true) ∧ (∃ c ∈ after.head?, c.isDigit = true) ∧
      3 ∣ ((after.takeWhile (· ≠ '.')).filter Char.isDigit).length

def wholeDigits (s : Str) : Str := (s.takeWhile (· ≠ '.')).filter Char.isDigit

def fractionDigits (s : Str) : Str := (s.dropWhile (· ≠ '.')).filter Char.isDigit

/-- The number that the digits of a text write, whatever stands between them. -/
def decimalValue (s : Str) : ℚ :=
  number (wholeDigits s) + number (fractionDigits s) / 10 ^ (fractionDigits s).length

/-! ## Separators -/

theorem not_isSeparator_of_isDigit {c : Char} (h : c.isDigit = true) : isSeparator c = false := by
  have hcomma : (c == ',') = false := by
    by_contra heq
    rw [beq_iff_eq.1 (Bool.eq_true_of_not_eq_false heq)] at h
    cases h
  rw [isSeparator, hcomma, Admissions.not_blank_of_digit h, Bool.or_false]

theorem not_isSeparator_dot : isSeparator '.' = false := by decide

theorem filter_dropWhile_blank (s : Str) :
    (s.dropWhile isBlank).filter (fun c => !isSeparator c) = s.filter fun c => !isSeparator c := by
  induction s with
  | nil => rfl
  | cons c s ih =>
      rw [List.dropWhile_cons]
      split
      · rename_i hblank
        have hsep : isSeparator c = true := by rw [isSeparator, hblank, Bool.or_true]
        rw [ih, List.filter_cons_of_neg (by simp [hsep])]
      · rfl

/-- What `trim` takes off is a separator too. -/
theorem cleaned_eq (input : Str) : cleaned input = input.filter fun c => !isSeparator c := by
  rw [cleaned, trim, List.filter_reverse, filter_dropWhile_blank, List.filter_reverse, List.reverse_reverse,
    filter_dropWhile_blank]

theorem wholeDigits_cleaned (s : Str) : wholeDigits (cleaned s) = wholeDigits s := by
  rw [cleaned_eq, wholeDigits, wholeDigits]
  induction s with
  | nil => rfl
  | cons c s ih =>
      by_cases hsep : isSeparator c = true
      · have hdot : c ≠ '.' := fun heq => by simp [heq, not_isSeparator_dot] at hsep
        have hdigit : ¬ c.isDigit = true := fun h => by simp [not_isSeparator_of_isDigit h] at hsep
        rw [List.filter_cons_of_neg (by simp [hsep]), ih, List.takeWhile_cons_of_pos (by simpa using hdot),
          List.filter_cons_of_neg hdigit]
      · rw [List.filter_cons_of_pos (by simpa using hsep), List.takeWhile_cons, List.takeWhile_cons]
        split
        · rw [List.filter_cons, List.filter_cons, ih]
        · rfl

theorem fractionDigits_cleaned (s : Str) : fractionDigits (cleaned s) = fractionDigits s := by
  rw [cleaned_eq, fractionDigits, fractionDigits]
  induction s with
  | nil => rfl
  | cons c s ih =>
      by_cases hdot : c = '.'
      · subst hdot
        have hkept : ∀ t : Str, (t.filter fun c => !isSeparator c).filter Char.isDigit = t.filter Char.isDigit := by
          intro t
          rw [List.filter_filter]
          refine List.filter_congr fun c _ => ?_
          by_cases hc : c.isDigit = true
          · rw [hc, not_isSeparator_of_isDigit hc]; rfl
          · simp [hc]
        simp [hkept, not_isSeparator_dot]
      · rw [List.dropWhile_cons_of_pos (by simpa using hdot), List.filter_cons]
        split
        · rw [List.dropWhile_cons_of_pos (by simpa using hdot), ih]
        · exact ih

theorem decimalValue_cleaned (s : Str) : decimalValue (cleaned s) = decimalValue s := by
  rw [decimalValue, wholeDigits_cleaned, fractionDigits_cleaned, decimalValue]

/-! ## The pattern -/

/-- The decimals of a match, with the point before them. -/
def afterWhole : Option Str → Str
  | none => []
  | some cents => '.' :: cents

structure IsMatch (text whole : Str) (cents : Option Str) : Prop where
  text_eq : text = whole ++ afterWhole cents
  digits : Digits whole
  some_whole : 1 ≤ whole.length
  short_whole : whole.length ≤ 12
  cents_digits : ∀ f ∈ cents, Digits f ∧ 1 ≤ f.length ∧ f.length ≤ 2

theorem takeWhile_digits {whole : Str} (h : Digits whole) (cents : Option Str) :
    (whole ++ afterWhole cents).takeWhile Char.isDigit = whole ∧
      (whole ++ afterWhole cents).dropWhile Char.isDigit = afterWhole cents := by
  rw [List.takeWhile_append_of_pos h, List.dropWhile_append_of_pos h]
  cases cents <;> simp [afterWhole]

theorem matchMoney_iff {text whole : Str} {cents : Option Str} :
    matchMoney text = some (whole, cents) ↔ IsMatch text whole cents := by
  constructor
  · intro h
    unfold matchMoney at h
    dsimp only at h
    have htext := List.takeWhile_append_dropWhile (p := Char.isDigit) (l := text)
    have hdigits : Digits (text.takeWhile Char.isDigit) := fun c hc => List.mem_takeWhile_imp hc
    split at h
    · rename_i hlength
      split at h
      · rename_i hrest
        cases h
        rw [hrest] at htext
        exact ⟨htext.symm, hdigits, hlength.1, hlength.2, by simp⟩
      · rename_i f hrest
        split at h
        · rename_i hcents
          cases h
          rw [hrest] at htext
          refine ⟨htext.symm, hdigits, hlength.1, hlength.2, ?_⟩
          rintro _ ⟨⟩
          exact ⟨List.all_eq_true.1 hcents.1, hcents.2⟩
        · cases h
      · cases h
    · cases h
  · rintro ⟨rfl, hwhole, hsome, hshort, hcents⟩
    obtain ⟨htake, hdrop⟩ := takeWhile_digits hwhole cents
    rw [matchMoney, htake, hdrop, if_pos ⟨hsome, hshort⟩]
    cases cents with
    | none => rfl
    | some f =>
        obtain ⟨hdigits, hlength⟩ := hcents f rfl
        exact if_pos ⟨List.all_eq_true.2 hdigits, hlength⟩

theorem parseMoney_iff {input : Str} {n : ℤ} : parseMoney input = some n ↔ ∃ whole cents,
    IsMatch (cleaned input) whole cents ∧ (number whole * 100 + number (padEnd 2 (cents.getD [])) : ℤ) = n ∧
      n ≤ MAX_MINOR_UNITS := by
  constructor
  · intro h
    unfold parseMoney at h
    split at h
    · cases h
    · rename_i whole cents hmatch
      dsimp only at h
      split at h
      · rename_i hmax
        exact ⟨whole, cents, matchMoney_iff.1 hmatch, Option.some.inj h, Option.some.inj h ▸ hmax⟩
      · cases h
  · rintro ⟨whole, cents, hmatch, rfl, hmax⟩
    rw [parseMoney, matchMoney_iff.2 hmatch]
    exact if_pos hmax

/-! ## Reading back -/

theorem number_toDigits (n : ℕ) : number (Nat.toDigits 10 n) = n := Nat.ofDigitChars_ten_toDigits

theorem length_numeral_two {n : ℕ} (hn : n < 100) : (numeral 2 n).length = 2 := by
  have hdigits : (Nat.toDigits 10 n).length ≤ 2 := (Nat.length_toDigits_le_iff (by decide) (by decide)).2 hn
  rw [numeral, List.length_leftpad]
  omega

theorem isMatch_decimalMoney {n : ℤ} (h0 : 0 ≤ n) (hn : n ≤ MAX_MINOR_UNITS) :
    IsMatch (decimalMoney n) (Nat.toDigits 10 (n.natAbs / 100)) (some (numeral 2 (n.natAbs % 100))) := by
  have hmod : n.natAbs % 100 < 100 := Nat.mod_lt _ (by decide)
  rw [MAX_MINOR_UNITS] at hn
  refine ⟨?_, digits_toDigits _, Nat.length_toDigits_pos, ?_, ?_⟩
  · rw [decimalMoney, if_neg (by omega), List.nil_append]
    rfl
  · exact (Nat.length_toDigits_le_iff (by decide) (by decide)).2 (by omega)
  · rintro _ ⟨⟩
    rw [length_numeral_two hmod]
    refine ⟨fun c hc => ?_, by decide, by decide⟩
    obtain ⟨k, hk⟩ := numeral_eq 2 (n.natAbs % 100)
    rw [hk, List.mem_append, List.mem_replicate] at hc
    rcases hc with ⟨-, rfl⟩ | hc
    · rfl
    · exact digits_toDigits _ c hc

/-- Any text with these digits and this point is read as the amount. -/
theorem parseMoney_of_cleaned {n : ℤ} (h0 : 0 ≤ n) (hn : n ≤ MAX_MINOR_UNITS) {s : Str}
    (hs : cleaned s = decimalMoney n) : parseMoney s = some n := by
  have hmod : n.natAbs % 100 < 100 := Nat.mod_lt _ (by decide)
  have hpad : number (padEnd 2 (numeral 2 (n.natAbs % 100))) = n.natAbs % 100 := by
    rw [padEnd, List.rightpad, length_numeral_two hmod, Nat.sub_self, List.replicate_zero, List.append_nil]
    exact ofDigitChars_numeral 2 _
  refine parseMoney_iff.2 ⟨_, _, hs ▸ isMatch_decimalMoney h0 hn, ?_, hn⟩
  rw [number_toDigits, Option.getD_some, hpad]
  omega

theorem filter_grouped {sep : Char} (hsep : isSeparator sep = true) (s : Str) :
    (grouped sep s).filter (fun c => !isSeparator c) = s.filter fun c => !isSeparator c := by
  induction s with
  | nil => rfl
  | cons c s ih =>
      rw [grouped]
      split
      · rw [List.filter_cons, List.filter_cons_of_neg (by simp [hsep]), ih, List.filter_cons]
      · rw [List.filter_cons, ih, List.filter_cons]

theorem cleaned_groupedMoney {sep : Char} (hsep : isSeparator sep = true) (n : ℤ) :
    cleaned (groupedMoney sep n) = cleaned (decimalMoney n) := by
  rw [cleaned_eq, groupedMoney, List.filter_append, filter_grouped hsep, ← List.filter_append,
    List.takeWhile_append_dropWhile, ← cleaned_eq]

theorem cleaned_of_isMatch {s whole : Str} {cents : Option Str} (h : IsMatch s whole cents) : cleaned s = s := by
  rw [cleaned_eq]
  refine List.filter_eq_self.2 fun c hc => ?_
  rw [h.text_eq, List.mem_append] at hc
  rcases hc with hc | hc
  · rw [not_isSeparator_of_isDigit (h.digits c hc), Bool.not_false]
  · cases cents with
    | none => cases hc
    | some f =>
        rcases List.mem_cons.1 hc with rfl | hc
        · rfl
        · rw [not_isSeparator_of_isDigit ((h.cents_digits f rfl).1 c hc), Bool.not_false]

/-! ## The value of a text -/

theorem number_padEnd {f : Str} (hsome : 1 ≤ f.length) (hshort : f.length ≤ 2) :
    (number (padEnd 2 f) : ℚ) = 100 * (number f / 10 ^ f.length) := by
  have hnumber : number (padEnd 2 f) = 10 ^ (2 - f.length) * number f := by
    rw [padEnd, List.rightpad, number, Nat.ofDigitChars_append, Nat.ofDigitChars_replicate_zero]
    rfl
  rw [hnumber]
  obtain hlength | hlength : f.length = 1 ∨ f.length = 2 := by omega
  · rw [hlength]
    push_cast
    ring
  · rw [hlength]
    push_cast
    ring

theorem digits_of_isMatch {s whole : Str} {cents : Option Str} (h : IsMatch s whole cents) :
    wholeDigits s = whole ∧ fractionDigits s = cents.getD [] := by
  have hdots : ∀ c ∈ whole, decide (c ≠ '.') = true := by
    intro c hc
    have hdigit := h.digits c hc
    refine decide_eq_true fun heq => ?_
    rw [heq] at hdigit
    cases hdigit
  rw [wholeDigits, fractionDigits, h.text_eq, List.takeWhile_append_of_pos hdots, List.dropWhile_append_of_pos hdots]
  have hwhole : whole.filter Char.isDigit = whole := List.filter_eq_self.2 h.digits
  cases cents with
  | none => exact ⟨by simpa [afterWhole] using hwhole, rfl⟩
  | some f =>
      have hfraction : f.filter Char.isDigit = f := List.filter_eq_self.2 (h.cents_digits f rfl).1
      exact ⟨by simpa [afterWhole] using hwhole, by simpa [afterWhole] using hfraction⟩

/-- Decimals that are left out count as zeros. -/
theorem decimalValue_of_isMatch {s whole : Str} {cents : Option Str} (h : IsMatch s whole cents) :
    ((number whole * 100 + number (padEnd 2 (cents.getD [])) : ℤ) : ℚ) = 100 * decimalValue s := by
  have hcents : (number (padEnd 2 (cents.getD [])) : ℚ) =
      100 * (number (cents.getD []) / 10 ^ (cents.getD []).length) := by
    cases cents with
    | none =>
        have hnone : number (padEnd 2 []) = 0 ∧ number [] = 0 := by decide
        simp only [Option.getD_none, hnone.1, hnone.2]
        norm_num
    | some f =>
        obtain ⟨-, hsome, hshort⟩ := h.cents_digits f rfl
        exact number_padEnd hsome hshort
  obtain ⟨hwhole, hfraction⟩ := digits_of_isMatch h
  rw [decimalValue, hwhole, hfraction]
  push_cast
  rw [hcents]
  ring

/-- What is read is what is written. -/
theorem parseMoney_exact {s : Str} {n : ℤ} (h : parseMoney s = some n) : (n : ℚ) = 100 * decimalValue s := by
  obtain ⟨whole, cents, hmatch, rfl, -⟩ := parseMoney_iff.1 h
  rw [decimalValue_of_isMatch hmatch, decimalValue_cleaned]

/-- A text is accepted if without its separators it is an amount within the limit. -/
theorem parseMoney_isSome_iff {s : Str} : (parseMoney s).isSome = true ↔
    (matchMoney (cleaned s)).isSome = true ∧ 100 * decimalValue s ≤ MAX_MINOR_UNITS := by
  rw [Option.isSome_iff_exists, Option.isSome_iff_exists]
  constructor
  · rintro ⟨n, hn⟩
    obtain ⟨whole, cents, hmatch, -, hmax⟩ := parseMoney_iff.1 hn
    refine ⟨⟨_, matchMoney_iff.2 hmatch⟩, ?_⟩
    rw [← parseMoney_exact hn]
    exact_mod_cast hmax
  · rintro ⟨⟨⟨whole, cents⟩, hmatch⟩, hmax⟩
    have hmatch' := matchMoney_iff.1 hmatch
    refine ⟨_, parseMoney_iff.2 ⟨whole, cents, hmatch', rfl, ?_⟩⟩
    rw [← decimalValue_cleaned, ← decimalValue_of_isMatch hmatch'] at hmax
    exact_mod_cast hmax

theorem parseMoney_written {n : ℤ} (h0 : 0 ≤ n) (hn : n ≤ MAX_MINOR_UNITS) {s : Str}
    (hs : cleaned s = cleaned (decimalMoney n)) : parseMoney s = some n :=
  parseMoney_of_cleaned h0 hn (hs.trans (cleaned_of_isMatch (isMatch_decimalMoney h0 hn)))

/-- Every amount that is written is read back, with its thousands apart or not. The other way a text
is read as what its digits and its point say; it goes wrong only where a comma that stands elsewhere
than between groups of three digits is all that keeps it from being an amount. -/
theorem parseMoney_iff_written (s : Str) :
    (∀ n, 0 ≤ n → n ≤ MAX_MINOR_UNITS → parseMoney (decimalMoney n) = some n ∧
      ∀ sep, sep = ',' ∨ sep = ' ' → parseMoney (groupedMoney sep n) = some n) ∧
    ((∀ n, parseMoney s = some n → CommasBetweenGroups s ∧ (n : ℚ) = 100 * decimalValue s) ↔
      CommasBetweenGroups s ∨ ¬ ((matchMoney (cleaned s)).isSome = true ∧ 100 * decimalValue s ≤ MAX_MINOR_UNITS)) := by
  refine ⟨fun n h0 hn => ⟨parseMoney_written h0 hn rfl, fun sep hsep => ?_⟩, ?_⟩
  · have hseparator : isSeparator sep = true := by rcases hsep with rfl | rfl <;> decide
    exact parseMoney_written h0 hn (cleaned_groupedMoney hseparator n)
  · rw [← parseMoney_isSome_iff, Option.isSome_iff_exists]
    constructor
    · intro h
      by_cases haccepted : ∃ n, parseMoney s = some n
      · obtain ⟨n, hn⟩ := haccepted
        exact .inl (h n hn).1
      · exact .inr haccepted
    · rintro (hcommas | hrefused) n hn
      · exact ⟨hcommas, parseMoney_exact hn⟩
      · exact absurd ⟨n, hn⟩ hrefused

/-- "12,50" is read as twelve hundred and fifty. -/
theorem parseMoney_misplaced_comma : parseMoney "12,50".toList = some 125000 ∧
    ¬ ∀ s n, parseMoney s = some n → CommasBetweenGroups s ∧ (n : ℚ) = 100 * decimalValue s := by
  have hparse : parseMoney "12,50".toList = some 125000 := by decide +kernel
  refine ⟨hparse, fun h => ?_⟩
  obtain ⟨-, -, -, hthree⟩ := (h _ _ hparse).1 "12".toList "50".toList rfl
  revert hthree
  decide

end Emis.Billing
