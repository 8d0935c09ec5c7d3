import Emis.Common.Dates
import Emis.Library.NumeralOrder
import Mathlib.Algebra.Order.Group.Int
import Mathlib.Data.Char
import Mathlib.Data.List.Lex
import Mathlib.Data.Nat.Cast.Basic

/-!
# The calendar

`civilOf` counts as the calendar does, and the texts of the dates of four-digit
years are in the order of the days.
-/

namespace Emis

open Numerals

/-! ## Years from March -/

/-- Where the years of an era start, by its centuries and its cycles of four years. -/
theorem yoe_spec {doe y : ℕ} (h : doe ≤ 146096)
    (hy : (doe - doe / 1460 + doe / 36524 - doe / 146096) / 365 = y) :
    y ≤ 399 ∧ 365 * y + y / 4 - y / 100 ≤ doe ∧
      doe < 365 * (y + 1) + (y + 1) / 4 - (y + 1) / 100 + (y + 1) / 400 := by
  obtain ⟨t, ht⟩ : ∃ t, doe / 1460 = t := ⟨_, rfl⟩
  obtain ⟨c, hc⟩ : ∃ c, doe / 36524 = c := ⟨_, rfl⟩
  have hlast : doe / 146096 = 0 ∨ doe = 146096 := by omega
  rcases hlast with hlast | rfl
  · rw [hlast, ht, hc] at hy
    have hcycle : y + 1 = 4 * t ∨ y + 1 = 4 * t + 1 ∨ y + 1 = 4 * t + 2 ∨ y + 1 = 4 * t + 3 ∨
        y + 1 = 4 * t + 4 := by omega
    have hcentury : (y + 1) / 100 = c ∨ (y + 1) / 100 = c + 1 ∧ (y + 1) % 100 = 0 := by omega
    refine ⟨by omega, ?_⟩
    rcases hcentury with hcentury | hcentury <;> rcases hcycle with hk | hk | hk | hk | hk <;> omega
  · subst hy
    decide

/-- The days before the year that starts in March. -/
def marches (y : ℤ) : ℤ := 365 * y + y / 4 - y / 100 + y / 400

theorem marches_lt {a b : ℤ} (h : a < b) : marches a + 365 ≤ marches b := by
  unfold marches
  omega

theorem marches_succ (y : ℤ) : marches (y + 1) ≤ marches y + 366 := by
  unfold marches
  omega

theorem marches_add (y era : ℤ) : marches (y + era * 400) = marches y + era * 146097 := by
  have h4 : (y + era * 400) / 4 = y / 4 + era * 100 := by omega
  have h100 : (y + era * 400) / 100 = y / 100 + era * 4 := by omega
  have h400 : (y + era * 400) / 400 = y / 400 + era := by omega
  rw [marches, marches, h4, h100, h400]
  omega

theorem marches_natCast (y : ℕ) : marches y = (365 * y + y / 4 - y / 100 + y / 400 : ℕ) := by
  unfold marches
  omega

/-- A date by its year and its day of the year, both counted from March. -/
theorem civilOf_eq (date : Day) : ∃ (y : ℤ) (doy : ℕ), date + 719468 = marches y + doy ∧
    marches y + doy < marches (y + 1) ∧
    civilOf date =
      { year := y + if (5 * doy + 2) / 153 < 10 then 0 else 1
        month := if (5 * doy + 2) / 153 < 10 then (5 * doy + 2) / 153 + 3 else (5 * doy + 2) / 153 - 9
        day := doy - (153 * ((5 * doy + 2) / 153) + 2) / 5 + 1 } := by
  obtain ⟨era, hera⟩ : ∃ era : ℤ, (date + 719468) / 146097 = era := ⟨_, rfl⟩
  obtain ⟨doe, hdoe⟩ : ∃ doe, (date + 719468 - era * 146097).toNat = doe := ⟨_, rfl⟩
  obtain ⟨yoe, hyoe⟩ : ∃ yoe, (doe - doe / 1460 + doe / 36524 - doe / 146096) / 365 = yoe := ⟨_, rfl⟩
  have hday : (doe : ℤ) = date + 719468 - era * 146097 ∧ doe ≤ 146096 := by
    simp only [Day] at *
    omega
  obtain ⟨hlast, hlow, hhigh⟩ := yoe_spec hday.2 hyoe
  obtain ⟨doy, hdoy⟩ := Nat.exists_eq_add_of_le hlow
  have hstart : marches yoe = (365 * yoe + yoe / 4 - yoe / 100 : ℕ) := by
    rw [marches_natCast, Nat.div_eq_of_lt (show yoe < 400 by omega), Nat.add_zero]
  have hnext := marches_natCast (yoe + 1)
  have hinside : marches yoe + doy < marches (yoe + 1) := by
    rw [hstart, ← Int.natCast_succ, hnext]
    rw [hdoy] at hhigh
    exact_mod_cast hhigh
  refine ⟨yoe + era * 400, doy, ?_, ?_, ?_⟩
  · rw [marches_add, hstart]
    simp only [Day] at *
    omega
  · have hmore : (yoe : ℤ) + era * 400 + 1 = (yoe + 1) + era * 400 := by omega
    rw [hmore, marches_add, marches_add]
    omega
  · have hmonth : doy ≤ 365 := by
      have hsucc := marches_succ yoe
      omega
    simp only [civilOf]
    rw [hera, hdoe, hyoe, show doe - (365 * yoe + yoe / 4 - yoe / 100) = doy by omega]
    obtain ⟨mp, hmp⟩ : ∃ mp, (5 * doy + 2) / 153 = mp := ⟨_, rfl⟩
    rw [hmp]
    by_cases hten : mp < 10
    · rw [if_pos hten, if_pos hten, if_neg (by omega)]
    · rw [if_neg hten, if_neg hten, if_pos (by omega)]

/-- Years, months and days in the order of the calendar. -/
def CalendarParts.Before (a b : CalendarParts) : Prop :=
  a.year < b.year ∨ a.year = b.year ∧ (a.month < b.month ∨ a.month = b.month ∧ a.day < b.day)

theorem month_lt {doy doy' : ℕ} (h : doy < doy') :
    (5 * doy + 2) / 153 < (5 * doy' + 2) / 153 ∨ (5 * doy + 2) / 153 = (5 * doy' + 2) / 153 ∧
      doy - (153 * ((5 * doy + 2) / 153) + 2) / 5 < doy' - (153 * ((5 * doy' + 2) / 153) + 2) / 5 := by
  have hle : (5 * doy + 2) / 153 ≤ (5 * doy' + 2) / 153 := by omega
  rcases Nat.lt_or_eq_of_le hle with hlt | heq
  · exact Or.inl hlt
  · refine Or.inr ⟨heq, ?_⟩
    rw [← heq]
    omega

theorem civilOf_before {a b : Day} (h : a < b) : (civilOf a).Before (civilOf b) := by
  obtain ⟨y, doy, hday, hyear, hparts⟩ := civilOf_eq a
  obtain ⟨y', doy', hday', hyear', hparts'⟩ := civilOf_eq b
  have hsucc := marches_succ y
  have hsucc' := marches_succ y'
  rw [hparts, hparts', CalendarParts.Before]
  simp only [Day] at *
  have hmonth : (5 * doy + 2) / 153 ≤ 11 := by omega
  have hmonth' : (5 * doy' + 2) / 153 ≤ 11 := by omega
  rcases lt_trichotomy y y' with hlt | rfl | hgt
  · generalize (5 * doy + 2) / 153 = mp at *
    generalize (5 * doy' + 2) / 153 = mp' at *
    by_cases hten : mp < 10 <;> by_cases hten' : mp' < 10 <;> simp only [hten, hten', if_true, if_false] <;> omega
  · rcases month_lt (show doy < doy' by omega) with hmp | ⟨hmp, hdom⟩
    · generalize (5 * doy + 2) / 153 = mp at *
      generalize (5 * doy' + 2) / 153 = mp' at *
      clear hday hday' hyear hyear' hsucc hsucc' hparts hparts'
      by_cases hten : mp < 10 <;> by_cases hten' : mp' < 10 <;> simp only [hten, hten', if_true, if_false, true_and] <;> omega
    · rw [hmp] at hdom ⊢
      exact Or.inr ⟨rfl, Or.inr ⟨rfl, by simpa using hdom⟩⟩
  · have hback : marches (y' + 1) ≤ marches y := by
      rcases eq_or_lt_of_le (show y' + 1 ≤ y by omega) with heq | hlt
      · rw [heq]
      · have hfar := marches_lt hlt
        omega
    omega

/-- Years, months and days of a date are its own. -/
theorem dayOf_civilOf {date : Day} {year : ℕ} (hyear : (civilOf date).year = year) :
    dayOf year (civilOf date).month (civilOf date).day = date := by
  obtain ⟨y, doy, hday, hnext, hparts⟩ := civilOf_eq date
  have hsucc := marches_succ y
  rw [hparts] at hyear ⊢
  dsimp only at hyear ⊢
  have hera := marches_add (y - y / 400 * 400) (y / 400)
  have hrest : marches (y - y / 400 * 400) = (y - y / 400 * 400) * 365 + (y - y / 400 * 400) / 4 - (y - y / 400 * 400) / 100 := by
    unfold marches
    omega
  rw [sub_add_cancel, hrest] at hera
  have hmonth : (5 * doy + 2) / 153 ≤ 11 := by
    simp only [Day] at *
    omega
  have hfirst : (153 * ((5 * doy + 2) / 153) + 2) / 5 ≤ doy := by omega
  generalize (5 * doy + 2) / 153 = mp at *
  rw [dayOf]
  by_cases hten : mp < 10
  · rw [if_pos hten, add_zero] at hyear
    subst hyear
    have hdoy : (153 * ((mp + 3 : ℕ) - 3 : ℤ) + 2) / 5 + ((doy - (153 * mp + 2) / 5 + 1 : ℕ) : ℤ) - 1 = doy := by
      omega
    simp only [if_pos hten, if_neg (show ¬ mp + 3 ≤ 2 by omega)]
    rw [hdoy]
    simp only [Day] at *
    omega
  · rw [if_neg hten] at hyear
    have hyear : (year : ℤ) - 1 = y := by omega
    subst hyear
    have hdoy : (153 * ((mp - 9 : ℕ) + 9 : ℤ) + 2) / 5 + ((doy - (153 * mp + 2) / 5 + 1 : ℕ) : ℤ) - 1 = doy := by
      omega
    simp only [if_neg hten, if_pos (show mp - 9 ≤ 2 by omega)]
    rw [hdoy]
    simp only [Day] at *
    omega

/-! ## Texts -/

/-- `toISOString().slice(0, 10)` of the midnight that a date starts with. -/
def dateText (date : Day) : List Char := (toISOString (date * 86400000)).take 10

/-- The days of the years 0000 to 9999. -/
def FourDigits (date : Day) : Prop := -719528 ≤ date ∧ date ≤ 2932896

section Texts

variable {a b date : Day}

theorem civilOf_range (date : Day) : (civilOf date).month ≤ 12 ∧ (civilOf date).day ≤ 31 := by
  obtain ⟨y, doy, hday, hnext, hparts⟩ := civilOf_eq date
  have hsucc := marches_succ y
  have hmonth : (5 * doy + 2) / 153 ≤ 11 := by
    simp only [Day] at *
    omega
  rw [hparts]
  dsimp only
  split <;> omega

theorem year_mono (h : a ≤ b) : (civilOf a).year ≤ (civilOf b).year := by
  rcases eq_or_lt_of_le h with rfl | hlt
  · exact le_rfl
  · rcases civilOf_before hlt with hyear | ⟨hyear, -⟩
    · exact hyear.le
    · exact hyear.le

theorem fourDigits_iff : FourDigits date ↔ 0 ≤ (civilOf date).year ∧ (civilOf date).year ≤ 9999 := by
  have hfirst : (civilOf (-719529)).year = -1 ∧ (civilOf (-719528)).year = 0 := by decide
  have hlast : (civilOf 2932896).year = 9999 ∧ (civilOf 2932897).year = 10000 := by decide
  constructor
  · rintro ⟨hlow, hhigh⟩
    have hlow := year_mono hlow
    have hhigh := year_mono hhigh
    omega
  · rintro ⟨hlow, hhigh⟩
    constructor
    · by_contra hless
      have hyear : (civilOf date).year ≤ (civilOf (-719529)).year := by
        apply year_mono
        simp only [Day] at *
        omega
      omega
    · by_contra hmore
      have hyear : (civilOf 2932897).year ≤ (civilOf date).year := by
        apply year_mono
        simp only [Day] at *
        omega
      omega

theorem FourDigits.between (ha : FourDigits a) (hb : FourDigits b) (hle : a ≤ date) (hle' : date ≤ b) :
    FourDigits date :=
  ⟨ha.1.trans hle, hle'.trans hb.2⟩

/-- YYYY-MM-DD. -/
theorem dateText_eq (h : FourDigits date) :
    dateText date = numeral 4 (civilOf date).year.toNat ++ '-' :: numeral 2 (civilOf date).month ++
      '-' :: numeral 2 (civilOf date).day := by
  have hyear := fourDigits_iff.1 h
  obtain ⟨hmonth, hday⟩ := civilOf_range date
  have hexact : date * 86400000 / 86400000 = date := by
    simp only [Day]
    omega
  have hlen : (numeral 4 (civilOf date).year.toNat ++ '-' :: numeral 2 (civilOf date).month ++
      '-' :: numeral 2 (civilOf date).day).length = 10 := by
    simp only [List.length_append, List.length_cons]
    rw [length_numeral (by decide) (by omega), length_numeral (by decide) (by omega),
      length_numeral (by decide) (by omega)]
  rw [dateText, toISOString, hexact, isoYear, if_pos hyear]
  simp only [List.append_assoc (_ ++ _ ++ _)]
  exact List.take_left' hlen

theorem length_parts (h : FourDigits date) : (numeral 4 (civilOf date).year.toNat).length = 4 ∧
    (numeral 2 (civilOf date).month).length = 2 ∧ (numeral 2 (civilOf date).day).length = 2 := by
  have hyear := fourDigits_iff.1 h
  obtain ⟨hmonth, hday⟩ := civilOf_range date
  exact ⟨length_numeral (by decide) (by omega), length_numeral (by decide) (by omega),
    length_numeral (by decide) (by omega)⟩

/-- The texts are in the order of the days. -/
theorem dateText_lt (ha : FourDigits a) (hb : FourDigits b) (h : a < b) : dateText a < dateText b := by
  obtain ⟨hyearLen, hmonthLen, -⟩ := length_parts ha
  obtain ⟨hyearLen', hmonthLen', -⟩ := length_parts hb
  have hyear := fourDigits_iff.1 ha
  have hyear' := fourDigits_iff.1 hb
  obtain ⟨hmonth', hday'⟩ := civilOf_range b
  rw [dateText_eq ha, dateText_eq hb, List.append_assoc, List.append_assoc, List.cons_append,
    List.cons_append]
  rcases civilOf_before h with hlt | ⟨heq, hlt | ⟨hmonth, hlt⟩⟩
  · apply append_lt_append _ (hyearLen.trans hyearLen'.symm)
    exact numeral_lt (by decide) (by omega) (by omega)
  · rw [heq]
    apply List.append_left_lt
    apply List.cons_lt_cons_iff.2
    refine Or.inr ⟨rfl, ?_⟩
    apply append_lt_append _ (hmonthLen.trans hmonthLen'.symm)
    exact numeral_lt (by decide) (by omega) hlt
  · rw [heq, hmonth]
    apply List.append_left_lt
    apply List.cons_lt_cons_iff.2
    refine Or.inr ⟨rfl, ?_⟩
    apply List.append_left_lt
    apply List.cons_lt_cons_iff.2
    exact Or.inr ⟨rfl, numeral_lt (by decide) (by omega) hlt⟩

theorem dateText_le_iff (ha : FourDigits a) (hb : FourDigits b) : dateText a ≤ dateText b ↔ a ≤ b := by
  constructor
  · intro h
    by_contra hlt
    exact not_lt_of_ge h (dateText_lt hb ha (not_le.1 hlt))
  · intro h
    rcases eq_or_lt_of_le h with rfl | hless
    · exact le_refl _
    · exact le_of_lt (dateText_lt ha hb hless)

theorem dateText_injective (ha : FourDigits a) (hb : FourDigits b) (h : dateText a = dateText b) : a = b := by
  have hle : dateText a ≤ dateText b ∧ dateText b ≤ dateText a := by
    rw [h]
    exact ⟨le_refl _, le_refl _⟩
  exact le_antisymm ((dateText_le_iff ha hb).1 hle.1) ((dateText_le_iff hb ha).1 hle.2)

theorem drop_dateText (h : FourDigits date) :
    (dateText date).drop 5 = numeral 2 (civilOf date).month ++ '-' :: numeral 2 (civilOf date).day := by
  obtain ⟨hyearLen, -⟩ := length_parts h
  rw [dateText_eq h, List.append_assoc, List.cons_append, List.drop_append, hyearLen,
    List.drop_of_length_le (by omega)]
  rfl

/-- `slice(5)` is the month and the day. -/
theorem drop_dateText_eq_iff (ha : FourDigits a) (hb : FourDigits b) :
    (dateText a).drop 5 = (dateText b).drop 5 ↔
      (civilOf a).month = (civilOf b).month ∧ (civilOf a).day = (civilOf b).day := by
  obtain ⟨-, hmonthLen, -⟩ := length_parts ha
  obtain ⟨-, hmonthLen', -⟩ := length_parts hb
  rw [drop_dateText ha, drop_dateText hb]
  constructor
  · intro h
    obtain ⟨hmonth, hday⟩ := List.append_inj h (hmonthLen.trans hmonthLen'.symm)
    exact ⟨numeral_injective hmonth, numeral_injective (List.cons.inj hday).2⟩
  · rintro ⟨hmonth, hday⟩
    rw [hmonth, hday]

theorem digitsValue_eq (s : List Char) : digitsValue s = value s := by
  rw [digitsValue, value, Nat.ofDigitChars_eq_foldl]
  congr 1
  funext n c
  rw [Nat.mul_comm]

theorem isoDate_dateText (h : FourDigits date) : isoDate (dateText date) = some date := by
  obtain ⟨hyearLen, hmonthLen, hdayLen⟩ := length_parts h
  have hyear := fourDigits_iff.1 h
  have hy := digits_numeral 4 (civilOf date).year.toNat
  have hm := digits_numeral 2 (civilOf date).month
  have hd := digits_numeral 2 (civilOf date).day
  have hyv := value_numeral 4 (civilOf date).year.toNat
  have hmv := value_numeral 2 (civilOf date).month
  have hdv := value_numeral 2 (civilOf date).day
  rw [dateText_eq h]
  obtain ⟨y₁, y₂, y₃, y₄, hys⟩ : ∃ y₁ y₂ y₃ y₄, numeral 4 (civilOf date).year.toNat = [y₁, y₂, y₃, y₄] := by
    match hs : numeral 4 (civilOf date).year.toNat, hyearLen with
    | [y₁, y₂, y₃, y₄], _ => exact ⟨y₁, y₂, y₃, y₄, rfl⟩
  obtain ⟨m₁, m₂, hms⟩ := List.length_eq_two.1 hmonthLen
  obtain ⟨d₁, d₂, hds⟩ := List.length_eq_two.1 hdayLen
  have hall := digits_append.2 ⟨hy, digits_append.2 ⟨hm, hd⟩⟩
  rw [hys, hms, hds] at hall
  rw [hys] at hyv ⊢
  rw [hms] at hmv ⊢
  rw [hds] at hdv ⊢
  have hdigits : [y₁, y₂, y₃, y₄, m₁, m₂, d₁, d₂].all Char.isDigit = true := List.all_eq_true.2 hall
  simp only [List.cons_append, List.nil_append, isoDate]
  rw [if_pos hdigits, digitsValue_eq, digitsValue_eq, digitsValue_eq, hyv, hmv, hdv]
  have hself : dayOf (civilOf date).year.toNat (civilOf date).month (civilOf date).day = date :=
    dayOf_civilOf (by omega)
  have hparts : civilOf date =
      ⟨((civilOf date).year.toNat : ℕ), (civilOf date).month, (civilOf date).day⟩ := by
    rw [Int.toNat_of_nonneg hyear.1]
  rw [hself, if_pos hparts]

/-- What `slice(0, 10)` leaves of an instant depends on its day alone. -/
theorem take_toISOString (date : Instant) : (toISOString date).take 10 = dateText (date / 86400000) := by
  have hexact : date / 86400000 * 86400000 / 86400000 = date / 86400000 := by
    simp only [Instant] at *
    omega
  have hwidth : ∀ w n, w ≤ (numeral w n).length := by
    intro w n
    rw [numeral, List.length_leftpad]
    exact Nat.le_max_left _ _
  have hyear : ∀ year, 4 ≤ (isoYear year).length := by
    intro year
    have hfour := hwidth 4 year.toNat
    have hsix := hwidth 6 year.natAbs
    unfold isoYear
    split
    · exact hfour
    · rw [List.length_cons]
      omega
  have hlong : ∀ parts : CalendarParts,
      10 ≤ (isoYear parts.year ++ '-' :: numeral 2 parts.month ++ '-' :: numeral 2 parts.day).length := by
    intro parts
    have hyear := hyear parts.year
    have hmonth := hwidth 2 parts.month
    have hday := hwidth 2 parts.day
    simp only [List.length_append, List.length_cons]
    omega
  rw [dateText, toISOString, toISOString, hexact]
  simp only [List.append_assoc (_ ++ _ ++ _)]
  rw [List.take_append_of_le_length (hlong _), List.take_append_of_le_length (hlong _)]

/-- A text that `z.iso.date()` takes is that of its day. -/
theorem dateText_of_isoDate {s : List Char} (h : isoDate s = some date) :
    FourDigits date ∧ dateText date = s := by
  unfold isoDate at h
  split at h
  · rename_i y₁ y₂ y₃ y₄ m₁ m₂ d₁ d₂
    split at h
    · rename_i hall
      dsimp only at h
      split at h
      · rename_i hparts
        obtain rfl := Option.some.inj h
        set year := digitsValue [y₁, y₂, y₃, y₄] with hyear
        set month := digitsValue [m₁, m₂] with hmonth
        set day := digitsValue [d₁, d₂] with hday
        have hdigits : Digits ([y₁, y₂, y₃, y₄] ++ ([m₁, m₂] ++ [d₁, d₂])) := List.all_eq_true.1 hall
        obtain ⟨hy, hrest⟩ := digits_append.1 hdigits
        obtain ⟨hm, hd⟩ := digits_append.1 hrest
        rw [digitsValue_eq] at hyear hmonth hday
        have hbound : year < 10 ^ 4 := by
          rw [hyear]
          exact value_lt hy
        have hfour : FourDigits (dayOf year month day) := by
          rw [fourDigits_iff, hparts]
          dsimp only
          omega
        obtain ⟨hyearLen, hmonthLen, hdayLen⟩ := length_parts hfour
        refine ⟨hfour, ?_⟩
        rw [dateText_eq hfour]
        rw [hparts] at hyearLen hmonthLen hdayLen ⊢
        simp only [Int.toNat_natCast] at hyearLen ⊢
        rw [value_injective (digits_numeral 4 year) hy hyearLen (by rw [value_numeral, hyear]),
          value_injective (digits_numeral 2 month) hm hmonthLen (by rw [value_numeral, hmonth]),
          value_injective (digits_numeral 2 day) hd hdayLen (by rw [value_numeral, hday])]
        rfl
      · cases h
    · cases h
  · cases h

theorem fourDigits_of_isoDate {day : Day} (h : isoDate (dateText date) = some day) : FourDigits date := by
  by_contra hlong
  obtain ⟨hday, htext⟩ := dateText_of_isoDate h
  have hfirst : ∀ c ∈ (dateText day).head?, c.isDigit = true := by
    obtain ⟨hyearLen, -, -⟩ := length_parts hday
    intro c hc
    rw [dateText_eq hday, List.append_assoc, List.head?_append_of_ne_nil _ (List.ne_nil_of_length_pos (by omega))] at hc
    exact digits_numeral 4 _ c (List.mem_of_head? hc)
  have hsign : (dateText date).head? = some '+' ∨ (dateText date).head? = some '-' := by
    rw [fourDigits_iff] at hlong
    have hexact : date * 86400000 / 86400000 = date := by
      simp only [Day]
      omega
    rw [dateText, toISOString, hexact, isoYear, if_neg hlong]
    split
    · exact .inl rfl
    · exact .inr rfl
  rw [htext] at hfirst
  rcases hsign with hsign | hsign
  · exact absurd (hfirst _ hsign) (by decide)
  · exact absurd (hfirst _ hsign) (by decide)

/-- A date is read back from its text exactly if its year has four digits. -/
theorem isoDate_dateText_iff {day : Day} : isoDate (dateText date) = some day ↔ FourDigits date ∧ date = day := by
  constructor
  · intro h
    have hfour := fourDigits_of_isoDate h
    rw [isoDate_dateText hfour] at h
    exact ⟨hfour, Option.some.inj h⟩
  · rintro ⟨hfour, rfl⟩
    exact isoDate_dateText hfour

theorem isoDate_eq_some_iff {s : List Char} :
    isoDate s = some date ↔ FourDigits date ∧ dateText date = s := by
  constructor
  · exact dateText_of_isoDate
  · rintro ⟨hfour, rfl⟩
    exact isoDate_dateText hfour

end Texts

end Emis
