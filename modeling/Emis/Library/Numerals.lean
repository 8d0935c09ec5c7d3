import Mathlib.Algebra.Group.Nat.Defs
import Mathlib.Data.List.Induction
import Mathlib.Data.List.TakeWhile

/-!
# Numerals inside a text

Decimal numerals padded with zeros to a width, and when two texts around such
numerals can come out the same. The second question is about the texts alone:
it is answered by `Frame.Meets`, which mentions no number.
-/

-- A statement about the characters of a text is decided along the text, not over all characters.
attribute [instance(high)] List.decidableBAll

namespace Numerals

/-- The decimal digits of `n`, padded on the left to the width `w`. -/
def numeral (w n : ℕ) : List Char := List.leftpad w '0' (Nat.toDigits 10 n)

def Digits (s : List Char) : Prop := ∀ c ∈ s, c.isDigit = true

def LeadingZero (s : List Char) : Prop := s.head? = some '0'

/-- The texts that numerals of positive numbers have. -/
structure IsNumeral (w : ℕ) (s : List Char) : Prop where
  digits : Digits s
  pos : ∃ c ∈ s, c ≠ '0'
  width : w ≤ s.length
  /-- Only padding puts a zero in front. -/
  exact : LeadingZero s → s.length = w

section Digits

theorem digits_append {s t : List Char} : Digits (s ++ t) ↔ Digits s ∧ Digits t := by
  simp [Digits, or_imp, forall_and]

theorem digits_toDigits (n : ℕ) : Digits (Nat.toDigits 10 n) :=
  fun _ hc => Nat.isDigit_of_mem_toDigits (by decide) (by decide) hc

theorem numeral_eq (w n : ℕ) :
    ∃ k, numeral w n = List.replicate k '0' ++ Nat.toDigits 10 n :=
  ⟨_, rfl⟩

theorem ofDigitChars_numeral (w n : ℕ) : Nat.ofDigitChars 10 (numeral w n) 0 = n := by
  obtain ⟨k, hk⟩ := numeral_eq w n
  rw [hk, Nat.ofDigitChars_append, Nat.ofDigitChars_replicate_zero, Nat.mul_zero]
  exact Nat.ofDigitChars_ten_toDigits

/-- A numeral tells its number, whatever its width. -/
theorem numeral_injective {w w' n n' : ℕ} (h : numeral w n = numeral w' n') : n = n' := by
  rw [← ofDigitChars_numeral w n, h, ofDigitChars_numeral]

end Digits

section IsNumeral

theorem head?_append_of_ne_nil {s : List Char} (hs : s ≠ []) (t : List Char) :
    (s ++ t).head? = s.head? := by
  obtain ⟨c, s, rfl⟩ := List.exists_cons_of_ne_nil hs
  rfl

theorem not_leadingZero_toDigits {n : ℕ} (hn : 0 < n) : ¬ LeadingZero (Nat.toDigits 10 n) := by
  induction n using Nat.strong_induction_on with
  | _ n ih =>
      rw [LeadingZero, Nat.toDigits_eq_if (by decide)]
      split
      · simp [hn.ne']
      · have hdiv : 0 < n / 10 := by omega
        have hhead := ih (n / 10) (by omega) hdiv
        rw [head?_append_of_ne_nil Nat.toDigits_ne_nil]
        exact hhead

/-- Digits without a leading zero are how their number is written. -/
theorem exists_toDigits {s : List Char} (hs : s ≠ []) (hdigits : Digits s)
    (hzero : ¬ LeadingZero s) : ∃ n, 0 < n ∧ Nat.toDigits 10 n = s := by
  induction s using List.reverseRecOn with
  | nil => exact absurd rfl hs
  | append_singleton s c ih =>
      obtain ⟨hdigits, hc⟩ := digits_append.1 hdigits
      have hc : c.isDigit = true := hc c (List.mem_singleton_self c)
      have hval : 48 ≤ c.toNat ∧ c.toNat ≤ 57 := by
        simpa [Char.isDigit, UInt32.le_iff_toNat_le] using hc
      have hdigit : Nat.digitChar (c.toNat - 48) = c := by
        apply Char.toNat_inj.1
        rw [Nat.toNat_digitChar_of_lt_ten (by omega)]
        omega
      have hone : Nat.toDigits 10 (c.toNat - 48) = [c] := by
        rw [Nat.toDigits_of_lt_base (by omega), hdigit]
      by_cases hnil : s = []
      · subst hnil
        refine ⟨c.toNat - 48, ?_, by simpa using hone⟩
        by_contra hle
        refine hzero ?_
        have hcz : c = '0' := by
          rw [← hdigit, Nat.eq_zero_of_not_pos hle]
          rfl
        simp [LeadingZero, hcz]
      · have hzero' : ¬ LeadingZero s := by
          rw [LeadingZero, head?_append_of_ne_nil hnil] at hzero
          exact hzero
        obtain ⟨n, hn, hs'⟩ := ih hnil hdigits hzero'
        refine ⟨10 * n + (c.toNat - 48), by omega, ?_⟩
        rw [← Nat.toDigits_append_toDigits (by decide) hn (by omega), hs', hone]

theorem isNumeral_numeral (w : ℕ) {n : ℕ} (hn : 0 < n) : IsNumeral w (numeral w n) := by
  have hne : Nat.toDigits 10 n ≠ [] := Nat.toDigits_ne_nil
  have hhead := not_leadingZero_toDigits hn
  refine ⟨?_, ?_, ?_, fun hzero => ?_⟩
  · refine digits_append.2 ⟨fun c hc => ?_, digits_toDigits n⟩
    rw [List.eq_of_mem_replicate hc]
    rfl
  · obtain ⟨c, s, hcs⟩ := List.exists_cons_of_ne_nil hne
    refine ⟨c, ?_, fun hc => hhead ?_⟩
    · simp [numeral, List.leftpad, hcs]
    · simp [LeadingZero, hcs, hc]
  · rw [numeral, List.length_leftpad]
    exact Nat.le_max_left _ _
  · rw [numeral, List.length_leftpad]
    refine Nat.max_eq_left (Nat.le_of_not_lt fun hlt => hhead ?_)
    have hsub : w - (Nat.toDigits 10 n).length = 0 := by omega
    simpa [numeral, List.leftpad, hsub] using hzero

/-- Every text of that form is the numeral of a positive number. -/
theorem IsNumeral.exists_numeral {w : ℕ} {s : List Char} (hs : IsNumeral w s) :
    ∃ n, 0 < n ∧ numeral w n = s := by
  set zeros := s.takeWhile (· == '0') with hzeros
  set rest := s.dropWhile (· == '0') with hrest
  have hsplit : zeros ++ rest = s := List.takeWhile_append_dropWhile
  have hrep : zeros = List.replicate zeros.length '0' := by
    refine List.eq_replicate_of_mem fun c hc => ?_
    simpa using List.mem_takeWhile_imp hc
  have hne : rest ≠ [] := by
    intro hnil
    obtain ⟨c, hc, hpos⟩ := hs.pos
    rw [← hsplit, hnil, List.append_nil, hrep] at hc
    exact hpos (List.eq_of_mem_replicate hc)
  have hhead : ¬ LeadingZero rest := by
    intro hzero
    have hnot := List.head_dropWhile_not (· == '0') hne
    rw [LeadingZero, List.head?_eq_some_head hne] at hzero
    rw [Option.some_inj.1 hzero] at hnot
    exact absurd hnot (by decide)
  have hdigits : Digits rest := (digits_append.1 (hsplit ▸ hs.digits)).2
  obtain ⟨n, hn, htoDigits⟩ := exists_toDigits hne hdigits hhead
  refine ⟨n, hn, ?_⟩
  have hlen : zeros.length + rest.length = s.length := by rw [← hsplit, List.length_append]
  have hk : w - rest.length = zeros.length := by
    have hwidth := hs.width
    by_cases hnil : zeros = []
    · rw [hnil, List.length_nil] at hlen ⊢
      omega
    · have hzero : LeadingZero s := by
        rw [LeadingZero, ← hsplit, head?_append_of_ne_nil hnil, hrep]
        have hpos := List.length_pos_iff.2 hnil
        simp [List.head?_replicate, hpos.ne']
      have hexact := hs.exact hzero
      omega
  rw [numeral, List.leftpad, htoDigits, hk, ← hrep, hsplit]

/-- A one and zeros, of length `k`. -/
def lead (k : ℕ) : List Char := '1' :: List.replicate (k - 1) '0'

theorem length_lead {k : ℕ} (hk : 0 < k) : (lead k).length = k := by
  simp only [lead, List.length_cons, List.length_replicate]
  omega

theorem digits_lead (k : ℕ) : Digits (lead k) := by
  intro c hc
  rcases List.mem_cons.1 hc with rfl | hc
  · rfl
  · rw [List.eq_of_mem_replicate hc]
    rfl

/-- A one and zeros between digits are a numeral. -/
theorem isNumeral_lead {w k : ℕ} {x y : List Char} (hx : Digits x) (hy : Digits y) (hk : 0 < k)
    (hw : w ≤ x.length + k + y.length) (hexact : LeadingZero x → x.length + k + y.length = w) :
    IsNumeral w (x ++ lead k ++ y) := by
  have hlen : (x ++ lead k ++ y).length = x.length + k + y.length := by
    simp only [List.length_append, length_lead hk]
  refine ⟨digits_append.2 ⟨digits_append.2 ⟨hx, digits_lead k⟩, hy⟩,
    ⟨'1', by simp [lead], by decide⟩, hlen ▸ hw, fun hzero => hlen ▸ hexact ?_⟩
  cases x with
  | nil => simp [LeadingZero, lead] at hzero
  | cons c x => simpa [LeadingZero] using hzero

theorem leadingZero_append {s : List Char} (h : LeadingZero s) (t : List Char) :
    LeadingZero (s ++ t) := by
  cases s with
  | nil => simp [LeadingZero] at h
  | cons c s => exact h

end IsNumeral

/-! ## Texts around a numeral -/

/-- A text with a place for a numeral of a minimal width. -/
structure Frame where
  before : List Char
  width : ℕ
  after : List Char
  width_pos : 0 < width

namespace Frame

def fill (F : Frame) (s : List Char) : List Char := F.before ++ s ++ F.after

def render (F : Frame) (n : ℕ) : List Char := F.fill (numeral F.width n)

/-- The text of `G` before its numeral is that of `F` and `x` after it, and some
numeral of `F` can be read as `x` and a numeral of `G`. -/
inductive Covers (F G : Frame) : Prop
  /-- The numeral of `G` lies inside that of `F`. -/
  | inside (x y : List Char) : G.before = F.before ++ x → G.after = y ++ F.after →
      Digits x → Digits y → (LeadingZero x → x.length + G.width + y.length ≤ F.width) → Covers F G
  /-- The numeral of `F` ends inside that of `G`. -/
  | across (x y : List Char) : G.before = F.before ++ x → F.after = y ++ G.after →
      Digits x → Digits y →
      (LeadingZero x → x.length < F.width ∧ x.length + G.width ≤ F.width + y.length) → Covers F G
  /-- Each numeral is written out in the text of the other. -/
  | beside (s t u : List Char) : G.before = F.before ++ s ++ t → F.after = t ++ u ++ G.after →
      IsNumeral F.width s → IsNumeral G.width u → Covers F G

/-- The two texts come out the same for some of their numbers. -/
def Meets (F G : Frame) : Prop := Covers F G ∨ Covers G F

theorem covers_of_fill {F G : Frame} {s s' x : List Char} (hs : IsNumeral F.width s)
    (hs' : IsNumeral G.width s') (hx : G.before = F.before ++ x)
    (h : s ++ F.after = x ++ (s' ++ G.after)) : Covers F G := by
  have hwidth := hs'.width
  rcases List.append_eq_append_iff.1 h with ⟨t, rfl, hafter⟩ | ⟨t, rfl, hafter⟩
  · refine .beside s t s' (by rw [hx, List.append_assoc]) ?_ hs hs'
    rw [hafter, List.append_assoc]
  obtain ⟨hdx, hdt⟩ := digits_append.1 hs.digits
  rcases List.append_eq_append_iff.1 hafter with ⟨y, rfl, hy⟩ | ⟨y, rfl, hy⟩
  rotate_left
  · by_cases ht : t = []
    · subst ht
      exact .beside x [] y (by simpa using hx) (by simpa using hy) (by simpa using hs) hs'
    · refine .across x y hx hy hdx (digits_append.1 hs'.digits).2 fun hzero => ?_
      have hexact := hs.exact (leadingZero_append hzero t)
      have hpos := List.length_pos_iff.2 ht
      rw [List.length_append] at hexact hwidth
      omega
  · refine .inside x y hx hy hdx (digits_append.1 hdt).2 fun hzero => ?_
    have hexact := hs.exact (leadingZero_append hzero _)
    rw [List.length_append, List.length_append] at hexact
    omega

/-- Equal texts are covered one way or the other: what stands before the one
numeral is a part of what stands before the other. -/
theorem meets_of_fill {F G : Frame} {s s' : List Char} (hs : IsNumeral F.width s)
    (hs' : IsNumeral G.width s') (h : F.fill s = G.fill s') : Meets F G := by
  rw [fill, fill, List.append_assoc, List.append_assoc] at h
  rcases List.append_eq_append_iff.1 h with ⟨x, hx, hrest⟩ | ⟨x, hx, hrest⟩
  · exact .inl (covers_of_fill hs hs' hx hrest)
  · exact .inr (covers_of_fill hs' hs hx hrest)

theorem Covers.exists_fill {F G : Frame} (h : Covers F G) :
    ∃ s s', IsNumeral F.width s ∧ IsNumeral G.width s' ∧ F.fill s = G.fill s' := by
  have hnil : Digits [] := by simp [Digits]
  have hF := F.width_pos
  have hG := G.width_pos
  cases h with
  | inside x y hbefore hafter hx hy hzero =>
      -- the numeral of `F` has to be exactly as wide as its padding if `x` starts with a zero
      obtain ⟨k, hk, hkG, hkF⟩ : ∃ k, 0 < k ∧ G.width ≤ k ∧ F.width ≤ x.length + k + y.length ∧
          (LeadingZero x → x.length + k + y.length = F.width) := by
        by_cases hlead : LeadingZero x
        · exact ⟨F.width - x.length - y.length, by grind⟩
        · exact ⟨F.width + G.width, by grind⟩
      refine ⟨x ++ lead k ++ y, lead k, isNumeral_lead hx hy hk hkF.1 hkF.2, ?_, ?_⟩
      · have hnum := isNumeral_lead hnil hnil hk (by simpa using hkG) (by simp [LeadingZero])
        simpa using hnum
      · simp [fill, hbefore, hafter]
  | across x y hbefore hafter hx hy hzero =>
      obtain ⟨k, hk, hkG, hkF⟩ : ∃ k, 0 < k ∧ G.width ≤ k + y.length ∧ F.width ≤ x.length + k ∧
          (LeadingZero x → x.length + k = F.width) := by
        by_cases hlead : LeadingZero x
        · exact ⟨F.width - x.length, by grind⟩
        · exact ⟨F.width + G.width, by grind⟩
      refine ⟨x ++ lead k, lead k ++ y, ?_, ?_, ?_⟩
      · have hnum := isNumeral_lead hx hnil hk hkF.1 hkF.2
        simpa using hnum
      · have hnum := isNumeral_lead hnil hy hk (by simpa using hkG) (by simp [LeadingZero])
        simpa using hnum
      · simp [fill, hbefore, hafter]
  | beside s t u hbefore hafter hs hu =>
      exact ⟨s, u, hs, hu, by simp [fill, hbefore, hafter]⟩

theorem Meets.exists_fill {F G : Frame} (h : Meets F G) :
    ∃ s s', IsNumeral F.width s ∧ IsNumeral G.width s' ∧ F.fill s = G.fill s' := by
  rcases h with h | h
  · exact h.exists_fill
  · obtain ⟨s, s', hs, hs', heq⟩ := h.exists_fill
    exact ⟨s', s, hs', hs, heq.symm⟩

/-- Two frames give the same text for some of their numbers exactly if they meet. -/
theorem exists_render_eq_iff {F G : Frame} :
    (∃ m n, 0 < m ∧ 0 < n ∧ F.render m = G.render n) ↔ Meets F G := by
  constructor
  · rintro ⟨m, n, hm, hn, h⟩
    exact meets_of_fill (isNumeral_numeral _ hm) (isNumeral_numeral _ hn) h
  · intro h
    obtain ⟨s, s', hs, hs', heq⟩ := h.exists_fill
    obtain ⟨m, hm, rfl⟩ := hs.exists_numeral
    obtain ⟨n, hn, rfl⟩ := hs'.exists_numeral
    exact ⟨m, n, hm, hn, heq⟩

end Frame

end Numerals
