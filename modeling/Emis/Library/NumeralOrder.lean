import Emis.Library.Numerals
import Mathlib.Data.List.Lex

/-!
# Numerals of one width, in the order of their texts
-/

namespace Numerals

/-- Texts of one length are compared before what follows them. -/
theorem append_lt_append {s t : List Char} (h : s < t) (hlen : s.length = t.length) (u v : List Char) :
    s ++ u < t ++ v := by
  induction s generalizing t with
  | nil =>
      obtain rfl : t = [] := List.length_eq_zero_iff.1 hlen.symm
      exact absurd h (List.lt_irrefl [])
  | cons a s ih =>
      obtain ⟨b, t, rfl⟩ := List.exists_cons_of_length_pos (by rw [← hlen]; simp)
      rw [List.cons_append, List.cons_append]
      rcases List.cons_lt_cons_iff.1 h with hab | ⟨rfl, hst⟩
      · exact List.cons_lt_cons_iff.2 (Or.inl hab)
      · exact List.cons_lt_cons_iff.2 (Or.inr ⟨rfl, ih hst (by simpa using hlen)⟩)

/-- The number that digits spell. -/
def value (s : List Char) : ℕ := Nat.ofDigitChars 10 s 0

theorem value_cons (c : Char) (s : List Char) :
    value (c :: s) = 10 ^ s.length * (c.toNat - '0'.toNat) + value s := by
  rw [value, Nat.ofDigitChars_cons, Nat.mul_zero, Nat.zero_add, Nat.ofDigitChars_eq_ofDigitChars_zero]
  rfl

theorem digit_range {c : Char} (hc : c.isDigit = true) : '0'.toNat ≤ c.toNat ∧ c.toNat ≤ '9'.toNat := by
  simp only [Char.isDigit, Bool.and_eq_true, decide_eq_true_eq] at hc
  exact hc

theorem value_lt {s : List Char} (hs : Digits s) : value s < 10 ^ s.length := by
  induction s with
  | nil => decide
  | cons c s ih =>
      have hrest : value s < 10 ^ s.length := ih fun d hd => hs d (List.mem_cons_of_mem _ hd)
      have hc := digit_range (hs c List.mem_cons_self)
      have hdigit : c.toNat - '0'.toNat ≤ 9 := by
        have hnine : '9'.toNat - '0'.toNat = 9 := rfl
        omega
      have hmul := Nat.mul_le_mul_left (10 ^ s.length) hdigit
      rw [value_cons, List.length_cons, Nat.pow_succ]
      omega

theorem Digits.tail {c : Char} {s : List Char} (h : Digits (c :: s)) : Digits s :=
  fun d hd => h d (List.mem_cons_of_mem _ hd)

/-- The first digit counts for more than all that follow. -/
theorem head_le {a b : Char} {s t : List Char} (hs : Digits (a :: s)) (ht : Digits (b :: t))
    (hlen : s.length = t.length) (h : value (a :: s) ≤ value (b :: t)) : a.toNat ≤ b.toNat := by
  by_contra hab
  have ha := digit_range (hs a List.mem_cons_self)
  have hb := digit_range (ht b List.mem_cons_self)
  have hmore : b.toNat - '0'.toNat + 1 ≤ a.toNat - '0'.toNat := by omega
  have hmul := Nat.mul_le_mul_left (10 ^ t.length) hmore
  have hbound := value_lt ht.tail
  rw [value_cons, value_cons, hlen] at h
  rw [Nat.mul_add, Nat.mul_one] at hmul
  omega

/-- Digits of one length are in the order of what they spell. -/
theorem lt_of_value_lt {s t : List Char} (hs : Digits s) (ht : Digits t) (hlen : s.length = t.length)
    (h : value s < value t) : s < t := by
  induction s generalizing t with
  | nil =>
      obtain rfl : t = [] := List.length_eq_zero_iff.1 hlen.symm
      exact absurd h (Nat.lt_irrefl _)
  | cons a s ih =>
      obtain ⟨b, t, rfl⟩ := List.exists_cons_of_length_pos (by rw [← hlen]; simp)
      have hrest : s.length = t.length := by simpa using hlen
      rcases Nat.lt_or_eq_of_le (head_le hs ht hrest h.le) with hab | hab
      · exact List.cons_lt_cons_iff.2 (Or.inl hab)
      · obtain rfl : a = b := Char.toNat_inj.1 hab
        rw [value_cons, value_cons, hrest] at h
        exact List.cons_lt_cons_iff.2 (Or.inr ⟨rfl, ih hs.tail ht.tail hrest (by omega)⟩)

theorem value_injective {s t : List Char} (hs : Digits s) (ht : Digits t) (hlen : s.length = t.length)
    (h : value s = value t) : s = t := by
  induction s generalizing t with
  | nil => exact (List.length_eq_zero_iff.1 hlen.symm).symm
  | cons a s ih =>
      obtain ⟨b, t, rfl⟩ := List.exists_cons_of_length_pos (by rw [← hlen]; simp)
      have hrest : s.length = t.length := by simpa using hlen
      obtain rfl : a = b := Char.toNat_inj.1
        (Nat.le_antisymm (head_le hs ht hrest h.le) (head_le ht hs hrest.symm h.ge))
      rw [value_cons, value_cons, hrest] at h
      rw [ih hs.tail ht.tail hrest (by omega)]

theorem digits_numeral (w n : ℕ) : Digits (numeral w n) := by
  obtain ⟨k, hk⟩ := numeral_eq w n
  rw [hk, digits_append]
  refine ⟨fun c hc => ?_, digits_toDigits n⟩
  rw [List.eq_of_mem_replicate hc]
  rfl

theorem value_numeral (w n : ℕ) : value (numeral w n) = n := ofDigitChars_numeral w n

theorem length_numeral {w n : ℕ} (hw : 0 < w) (hn : n < 10 ^ w) : (numeral w n).length = w := by
  have hle : (Nat.toDigits 10 n).length ≤ w := (Nat.length_toDigits_le_iff (by decide) hw).2 hn
  rw [numeral, List.length_leftpad]
  omega

theorem numeral_lt {w m n : ℕ} (hw : 0 < w) (hn : n < 10 ^ w) (h : m < n) : numeral w m < numeral w n := by
  apply lt_of_value_lt (digits_numeral w m) (digits_numeral w n)
  · rw [length_numeral hw hn, length_numeral hw (h.trans hn)]
  · rwa [value_numeral, value_numeral]

end Numerals
