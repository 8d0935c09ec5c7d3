import Emis.Common.Json
import Emis.Library.Numerals

/-!
# Numbers of JavaScript as texts

`Number::toString`, which is what `JSON.stringify` writes for a finite number. It starts from the
shortest decimal that tells the number from all others, so numbers are given by these decimals.
-/

namespace Emis

open Printing Numerals

/-- Decimal digits with no zero at either end. -/
structure Significand where
  digits : Str
  nonempty : digits ≠ []
  decimal : Digits digits
  first : digits.head? ≠ some '0'
  last : digits.getLast? ≠ some '0'

/-- Zero of either sign, or the digits with the point after the first `n`. -/
inductive JsNumber where
  | zero
  | decimal (negative : Bool) (s : Significand) (n : ℤ)

/-- The digits before and after the point, and a power of ten. -/
structure Layout where
  whole : Str
  fraction : Str
  power : ℤ

def layout (s : Str) (n : ℤ) : Layout :=
  if s.length ≤ n ∧ n ≤ 21 then ⟨s ++ List.replicate (n.toNat - s.length) '0', [], 0⟩
  else if 0 < n ∧ n ≤ 21 then ⟨s.take n.toNat, s.drop n.toNat, 0⟩
  else if -6 < n ∧ n ≤ 0 then ⟨['0'], List.replicate (-n).toNat '0' ++ s, 0⟩
  else ⟨s.take 1, s.drop 1, n - 1⟩

def Layout.fractionText (l : Layout) : Str := if l.fraction = [] then [] else '.' :: l.fraction

def Layout.powerText (l : Layout) : Str :=
  if l.power = 0 then []
  else 'e' :: (if l.power < 0 then '-' else '+') :: Nat.toDigits 10 l.power.natAbs

def Layout.text (l : Layout) : Str := l.whole ++ (l.fractionText ++ l.powerText)

def JsNumber.text : JsNumber → Str
  | .zero => ['0']
  | .decimal negative s n => (if negative then ['-'] else []) ++ (layout s.digits n).text

example : (layout ['1', '5'] 22).text = ['1', '.', '5', 'e', '+', '2', '1'] := by decide

/-! ## Reading the layout back -/

structure Layout.Decimal (l : Layout) : Prop where
  whole : Digits l.whole
  fraction : Digits l.fraction

theorem head?_powerText (l : Layout) : ∀ c ∈ l.powerText.head?, c = 'e' := by
  unfold Layout.powerText
  split <;> simp

theorem head?_afterWhole (l : Layout) : ∀ c ∈ (l.fractionText ++ l.powerText).head?, c = '.' ∨ c = 'e' := by
  unfold Layout.fractionText
  split
  · exact fun c hc => .inr (head?_powerText l c hc)
  · simp

theorem powerText_of_ne_zero {l : Layout} (h : l.power ≠ 0) :
    l.powerText = 'e' :: (if l.power < 0 then '-' else '+') :: Nat.toDigits 10 l.power.natAbs := if_neg h

theorem powerText_injective {l l' : Layout} (h : l.powerText = l'.powerText) : l.power = l'.power := by
  by_cases hzero : l.power = 0
  · by_cases hzero' : l'.power = 0
    · rw [hzero, hzero']
    · rw [powerText_of_ne_zero hzero', Layout.powerText, if_pos hzero] at h
      cases h
  · by_cases hzero' : l'.power = 0
    · rw [powerText_of_ne_zero hzero, Layout.powerText, if_pos hzero'] at h
      cases h
    · simp only [powerText_of_ne_zero hzero, powerText_of_ne_zero hzero', List.cons.injEq, true_and] at h
      obtain ⟨hsign, hdigits⟩ := h
      have habs := congrArg (fun t => Nat.ofDigitChars 10 t 0) hdigits
      simp only [Nat.ofDigitChars_ten_toDigits] at habs
      by_cases hneg : l.power < 0 <;> by_cases hneg' : l'.power < 0
      · omega
      · rw [if_pos hneg, if_neg hneg'] at hsign
        exact absurd hsign (by decide)
      · rw [if_neg hneg, if_pos hneg'] at hsign
        exact absurd hsign (by decide)
      · omega

theorem fractionText_injective {l l' : Layout} (hl : l.Decimal) (hl' : l'.Decimal)
    (h : l.fractionText ++ l.powerText = l'.fractionText ++ l'.powerText) :
    l.fraction = l'.fraction ∧ l.powerText = l'.powerText := by
  have hdigit : ∀ (l : Layout), ∀ c ∈ l.powerText.head?, ¬ c.isDigit = true := by
    intro l c hc
    rw [head?_powerText l c hc]
    decide
  have hpoint : ∀ (l l' : Layout) (t : Str), l.powerText = '.' :: t ++ l'.powerText → False := by
    intro l l' t heq
    have hhead := head?_powerText l '.' (by simp [heq])
    exact absurd hhead (by decide)
  unfold Layout.fractionText at h
  split at h <;> split at h
  · rename_i hnil hnil'
    exact ⟨hnil.trans hnil'.symm, h⟩
  · exact (hpoint l l' _ h).elim
  · exact (hpoint l' l _ h.symm).elim
  · exact eq_of_append_eq hl.fraction hl'.fraction (hdigit l) (hdigit l') (List.cons.inj h).2

theorem Layout.text_injective {l l' : Layout} (hl : l.Decimal) (hl' : l'.Decimal) (h : l.text = l'.text) : l = l' := by
  have hdigit : ∀ (l : Layout), ∀ c ∈ (l.fractionText ++ l.powerText).head?, ¬ c.isDigit = true := by
    intro l c hc
    rcases head?_afterWhole l c hc with rfl | rfl <;> decide
  obtain ⟨hwhole, hrest⟩ := eq_of_append_eq hl.whole hl'.whole (hdigit l) (hdigit l') h
  obtain ⟨hfraction, hpower⟩ := fractionText_injective hl hl' hrest
  have hpower := powerText_injective hpower
  cases l
  cases l'
  simp_all

/-! ## Reading the number back -/

theorem digits_replicate (k : ℕ) : Digits (List.replicate k '0') := by
  intro c hc
  rw [List.eq_of_mem_replicate hc]
  decide

theorem layout_decimal {s : Str} (hs : Digits s) (n : ℤ) : (layout s n).Decimal := by
  unfold layout
  split
  · exact ⟨digits_append.2 ⟨hs, digits_replicate _⟩, by simp [Digits]⟩
  split
  · exact ⟨fun c hc => hs c (List.mem_of_mem_take hc), fun c hc => hs c (List.mem_of_mem_drop hc)⟩
  split
  · refine ⟨fun c hc => ?_, digits_append.2 ⟨digits_replicate _, hs⟩⟩
    rw [List.mem_singleton.1 hc]
    decide
  · exact ⟨fun c hc => hs c (List.mem_of_mem_take hc), fun c hc => hs c (List.mem_of_mem_drop hc)⟩

/-- The digits stand between zeros, and the point stands where it should. -/
theorem layout_spec {s : Str} (hs : s ≠ []) (n : ℤ) : ∃ i j,
    (layout s n).whole ++ (layout s n).fraction = List.replicate i '0' ++ (s ++ List.replicate j '0') ∧
    ((layout s n).whole.length : ℤ) - i + (layout s n).power = n := by
  have hlength : 1 ≤ s.length := List.length_pos_iff.2 hs
  unfold layout
  split
  · rename_i h
    refine ⟨0, n.toNat - s.length, by simp, ?_⟩
    simp only [List.length_append, List.length_replicate]
    omega
  split
  · rename_i hlong h
    refine ⟨0, 0, by simp, ?_⟩
    simp only [List.length_take]
    omega
  split
  · rename_i h
    refine ⟨(-n).toNat + 1, 0, by simp [List.replicate_succ], ?_⟩
    simp only [List.length_singleton]
    omega
  · refine ⟨0, 0, ?_, ?_⟩
    · simp only [List.take_append_drop, List.replicate_zero, List.nil_append, List.append_nil]
    · simp only [List.length_take]
      omega

theorem significand_injective {s s' : Significand} {i j i' j' : ℕ}
    (h : List.replicate i '0' ++ (s.digits ++ List.replicate j '0') =
      List.replicate i' '0' ++ (s'.digits ++ List.replicate j' '0')) : i = i' ∧ s = s' := by
  have hzeros : ∀ k, ∀ c ∈ List.replicate k '0', c = '0' := fun k c hc => List.eq_of_mem_replicate hc
  have hfirst : ∀ (s : Significand) (t : Str), ∀ c ∈ (s.digits ++ t).head?, ¬ c = '0' := by
    rintro s t c hc rfl
    rw [head?_append_of_ne_nil s.nonempty] at hc
    exact s.first hc
  have hlast : ∀ s : Significand, ∀ c ∈ s.digits.reverse.head?, ¬ c = '0' := by
    rintro s c hc rfl
    rw [List.head?_reverse] at hc
    exact s.last hc
  obtain ⟨hi, hrest⟩ := eq_of_append_eq (hzeros i) (hzeros i') (hfirst s _) (hfirst s' _) h
  have hreverse := congrArg List.reverse hrest
  simp only [List.reverse_append, List.reverse_replicate] at hreverse
  obtain ⟨-, hdigits⟩ := eq_of_append_eq (hzeros j) (hzeros j') (hlast s) (hlast s') hreverse
  have hdigits : s.digits = s'.digits := List.reverse_injective hdigits
  refine ⟨by simpa using congrArg List.length hi, ?_⟩
  cases s
  cases s'
  simpa using hdigits

theorem layout_injective {s s' : Significand} {n n' : ℤ} (h : layout s.digits n = layout s'.digits n') :
    s = s' ∧ n = n' := by
  obtain ⟨i, j, hdigits, hpoint⟩ := layout_spec s.nonempty n
  obtain ⟨i', j', hdigits', hpoint'⟩ := layout_spec s'.nonempty n'
  obtain ⟨rfl, hs⟩ := significand_injective (hdigits.symm.trans ((by rw [h]) : _ = _) |>.trans hdigits')
  rw [h] at hpoint
  exact ⟨hs, hpoint.symm.trans hpoint'⟩

theorem exists_text_layout (s : Significand) (n : ℤ) :
    ∃ c t, (layout s.digits n).text = c :: t ∧ c.isDigit = true := by
  have hne : (layout s.digits n).whole ≠ [] := by
    intro hnil
    unfold layout at hnil
    split at hnil
    · exact s.nonempty (List.append_eq_nil_iff.1 hnil).1
    split at hnil
    · rcases List.take_eq_nil_iff.1 hnil with hzero | hempty
      · omega
      · exact s.nonempty hempty
    split at hnil
    · cases hnil
    · rcases List.take_eq_nil_iff.1 hnil with hzero | hempty
      · omega
      · exact s.nonempty hempty
  have hwhole := (layout_decimal s.decimal n).whole
  obtain ⟨c, t, hct⟩ := List.exists_cons_of_ne_nil hne
  refine ⟨c, t ++ _, by rw [Layout.text, hct, List.cons_append], hwhole c ?_⟩
  rw [hct]
  exact List.mem_cons_self

theorem JsNumber.text_injective : Function.Injective JsNumber.text := by
  have hzero : ∀ (negative : Bool) (s : Significand) (n : ℤ), ['0'] ≠ (decimal negative s n).text := by
    intro negative s n h
    cases negative with
    | true => exact absurd (List.cons.inj h).1 (by decide)
    | false =>
        obtain ⟨i, j, hdigits, -⟩ := layout_spec s.nonempty n
        have hzero : Layout.Decimal ⟨['0'], [], 0⟩ := ⟨digits_replicate 1, digits_replicate 0⟩
        have hlayout : ⟨['0'], [], 0⟩ = layout s.digits n :=
          Layout.text_injective hzero (layout_decimal s.decimal n) h
        rw [← hlayout] at hdigits
        obtain ⟨c, t, hct⟩ := List.exists_cons_of_ne_nil s.nonempty
        have hc : c = '0' := by
          have hmem : c ∈ ['0'] ++ [] := by
            rw [hdigits, hct]
            simp
          simpa using hmem
        exact s.first (by rw [hct, hc]; rfl)
  have hsign : ∀ (s s' : Significand) (n n' : ℤ), (decimal true s n).text ≠ (decimal false s' n').text := by
    intro s s' n n' h
    obtain ⟨c, t, hct, hc⟩ := exists_text_layout s' n'
    have h : '-' :: (layout s.digits n).text = c :: t := by simpa [JsNumber.text, hct] using h
    obtain rfl := (List.cons.inj h).1
    exact absurd hc (by decide)
  have hlayout : ∀ (s s' : Significand) (n n' : ℤ), (layout s.digits n).text = (layout s'.digits n').text →
      s = s' ∧ n = n' := fun s s' n n' h =>
    layout_injective (Layout.text_injective (layout_decimal s.decimal n) (layout_decimal s'.decimal n') h)
  intro x y h
  cases x with
  | zero =>
      cases y with
      | zero => rfl
      | decimal negative s n => exact absurd h (hzero negative s n)
  | decimal negative s n =>
      cases y with
      | zero => exact absurd h.symm (hzero negative s n)
      | decimal negative' s' n' =>
          cases negative <;> cases negative'
          · obtain ⟨rfl, rfl⟩ := hlayout s s' n n' h
            rfl
          · exact absurd h.symm (hsign s' s n' n)
          · exact absurd h (hsign s s' n n')
          · obtain ⟨rfl, rfl⟩ := hlayout s s' n n' (List.cons.inj h).2
            rfl

/-! ## Its characters -/

theorem isNumberChar_of_isDigit {c : Char} (h : c.isDigit = true) : isNumberChar c = true := by
  simp [isNumberChar, h]

theorem isNumberChar_layout {s : Str} (hs : Digits s) (n : ℤ) : ∀ c ∈ (layout s n).text, isNumberChar c = true := by
  obtain ⟨hwhole, hfraction⟩ := layout_decimal hs n
  intro c hc
  rcases List.mem_append.1 hc with hc | hc
  · exact isNumberChar_of_isDigit (hwhole c hc)
  rcases List.mem_append.1 hc with hc | hc
  · unfold Layout.fractionText at hc
    split at hc
    · cases hc
    · rcases List.mem_cons.1 hc with rfl | hc
      · decide
      · exact isNumberChar_of_isDigit (hfraction c hc)
  · unfold Layout.powerText at hc
    split at hc
    · cases hc
    · rcases List.mem_cons.1 hc with rfl | hc
      · decide
      rcases List.mem_cons.1 hc with rfl | hc
      · split <;> decide
      · exact isNumberChar_of_isDigit (digits_toDigits _ c hc)

theorem JsNumber.isNumberChar_text (x : JsNumber) : ∀ c ∈ x.text, isNumberChar c = true := by
  intro c hc
  cases x with
  | zero =>
      rw [List.mem_singleton.1 hc]
      decide
  | decimal negative s n =>
      rcases List.mem_append.1 hc with hc | hc
      · cases negative with
        | true =>
            rw [List.mem_singleton.1 hc]
            decide
        | false => cases hc
      · exact isNumberChar_layout s.decimal n c hc

theorem JsNumber.text_ne_nil (x : JsNumber) : x.text ≠ [] := by
  cases x with
  | zero => exact List.cons_ne_nil _ _
  | decimal negative s n =>
      obtain ⟨c, t, hct, -⟩ := exists_text_layout s n
      rw [JsNumber.text, hct]
      exact List.append_ne_nil_of_right_ne_nil _ (List.cons_ne_nil c t)

end Emis
