import Emis.Common.JsonText

/-!
# Strings of JavaScript

A string is the list of its UTF-16 code units, of which two may be one character and one may be
none: a surrogate without its other half.
-/

namespace Emis

open Printing

abbrev JsString := List UInt16

def isHighSurrogate (u : UInt16) : Bool := 0xD800 ≤ u.toNat && u.toNat ≤ 0xDBFF

def isLowSurrogate (u : UInt16) : Bool := 0xDC00 ≤ u.toNat && u.toNat ≤ 0xDFFF

/-- A character, or a surrogate that stands alone. -/
inductive CodePoint where
  | scalar (c : Char)
  | lone (u : UInt16) (surrogate : 0xD800 ≤ u.toNat ∧ u.toNat ≤ 0xDFFF)

namespace JsString

/-- A code unit by itself. -/
def single (u : UInt16) : CodePoint :=
  if h : 0xD800 ≤ u.toNat ∧ u.toNat ≤ 0xDFFF then .lone u h else .scalar (Char.ofNat u.toNat)

/-- `StringToCodePoints`. -/
def codePoints : JsString → List CodePoint
  | [] => []
  | [u] => [single u]
  | u :: v :: rest =>
      if isHighSurrogate u && isLowSurrogate v then
        .scalar (Char.ofNat (0x10000 + (u.toNat - 0xD800) * 0x400 + (v.toNat - 0xDC00))) :: codePoints rest
      else single u :: codePoints (v :: rest)

/-- The string with these characters. -/
def ofChars (s : Str) : JsString := (utf16 s).map UInt16.ofNat

end JsString

namespace CodePoint

def units : CodePoint → List ℕ
  | scalar c => codeUnits c
  | lone u _ => [u.toNat]

end CodePoint

namespace JsString

theorem toNat_ofNat {n : ℕ} (h : n.isValidChar) : (Char.ofNat n).toNat = n := by
  rw [Char.ofNat, dif_pos h]
  rfl

theorem units_single (u : UInt16) : (single u).units = [u.toNat] := by
  have hu : u.toNat < 65536 := u.toNat_lt
  unfold single
  split
  · rfl
  · rename_i hscalar
    have hvalid : u.toNat.isValidChar := by
      rcases not_and_or.1 hscalar with hlow | hhigh
      · exact .inl (by omega)
      · exact .inr ⟨by omega, by omega⟩
    have hchar : (Char.ofNat u.toNat).toNat = u.toNat := toNat_ofNat hvalid
    rw [CodePoint.units, codeUnits, hchar, if_pos hu]

theorem units_pair {u v : UInt16} (hu : isHighSurrogate u = true) (hv : isLowSurrogate v = true) :
    (CodePoint.scalar (Char.ofNat (0x10000 + (u.toNat - 0xD800) * 0x400 + (v.toNat - 0xDC00)))).units =
      [u.toNat, v.toNat] := by
  simp only [isHighSurrogate, isLowSurrogate, Bool.and_eq_true, decide_eq_true_eq] at hu hv
  have hvalid : (0x10000 + (u.toNat - 0xD800) * 0x400 + (v.toNat - 0xDC00)).isValidChar := .inr ⟨by omega, by omega⟩
  rw [CodePoint.units, codeUnits, toNat_ofNat hvalid, if_neg (by omega)]
  have hhigh : 0xD800 + (0x10000 + (u.toNat - 0xD800) * 0x400 + (v.toNat - 0xDC00) - 0x10000) / 0x400 = u.toNat := by
    omega
  have hlow : 0xDC00 + (0x10000 + (u.toNat - 0xD800) * 0x400 + (v.toNat - 0xDC00) - 0x10000) % 0x400 = v.toNat := by
    omega
  rw [hhigh, hlow]

/-- The code points have the string's code units. -/
theorem units_codePoints (s : JsString) : (codePoints s).flatMap CodePoint.units = s.map UInt16.toNat := by
  induction s using codePoints.induct with
  | case1 => rfl
  | case2 u => simp [codePoints, units_single]
  | case3 u v rest h ih =>
      obtain ⟨hu, hv⟩ := Bool.and_eq_true_iff.1 h
      rw [codePoints, if_pos h, List.flatMap_cons, ih, units_pair hu hv]
      rfl
  | case4 u v rest h ih =>
      rw [codePoints, if_neg h, List.flatMap_cons, ih, units_single]
      rfl

theorem codePoints_injective : Function.Injective codePoints := by
  intro s t h
  have hunits := congrArg (fun ps => ps.flatMap CodePoint.units) h
  rw [units_codePoints, units_codePoints] at hunits
  exact List.map_injective_iff.2 (fun u v => UInt16.toNat_inj.1) hunits

end JsString

/-! ## Strings without lone surrogates -/

namespace CodePoint

def isScalar : CodePoint → Bool
  | scalar _ => true
  | lone _ _ => false

/-- A surrogate that stands alone is replaced. -/
def toScalar : CodePoint → Char
  | scalar c => c
  | lone _ _ => '\uFFFD'

end CodePoint

namespace JsString

def isWellFormed (s : JsString) : Bool := (codePoints s).all CodePoint.isScalar

def toWellFormed (s : JsString) : Str := (codePoints s).map CodePoint.toScalar

theorem codePoints_codeUnits (c : Char) (s : JsString) :
    codePoints ((codeUnits c).map UInt16.ofNat ++ s) = .scalar c :: codePoints s := by
  have hvalid : c.toNat < 0xD800 ∨ 0xDFFF < c.toNat ∧ c.toNat < 0x110000 := c.valid
  unfold codeUnits
  split
  · rename_i hsmall
    have hunit : (UInt16.ofNat c.toNat).toNat = c.toNat := UInt16.toNat_ofNat_of_lt' hsmall
    have hhigh : isHighSurrogate (UInt16.ofNat c.toNat) = false := by
      rw [isHighSurrogate, hunit, Bool.and_eq_false_iff, decide_eq_false_iff_not, decide_eq_false_iff_not]
      omega
    have hsingle : single (UInt16.ofNat c.toNat) = .scalar c := by
      rw [single, dif_neg (by omega), hunit, Char.ofNat_toNat]
    cases s with
    | nil => simp only [List.map_singleton, List.append_nil, codePoints, hsingle]
    | cons v s =>
        rw [List.map_singleton, List.singleton_append, codePoints, hhigh, Bool.false_and, if_neg Bool.false_ne_true,
          hsingle]
  · have hu : (UInt16.ofNat (0xD800 + (c.toNat - 0x10000) / 0x400)).toNat = 0xD800 + (c.toNat - 0x10000) / 0x400 :=
      UInt16.toNat_ofNat_of_lt' (Nat.lt_of_le_of_lt (m := 0xDFFF) (by omega) (by decide))
    have hv : (UInt16.ofNat (0xDC00 + (c.toNat - 0x10000) % 0x400)).toNat = 0xDC00 + (c.toNat - 0x10000) % 0x400 :=
      UInt16.toNat_ofNat_of_lt' (Nat.lt_of_le_of_lt (m := 0xDFFF) (by omega) (by decide))
    have hpair : (isHighSurrogate (UInt16.ofNat (0xD800 + (c.toNat - 0x10000) / 0x400)) &&
        isLowSurrogate (UInt16.ofNat (0xDC00 + (c.toNat - 0x10000) % 0x400))) = true := by
      simp only [isHighSurrogate, isLowSurrogate, hu, hv, Bool.and_eq_true, decide_eq_true_eq]
      omega
    have hcode : 0x10000 + (0xD800 + (c.toNat - 0x10000) / 0x400 - 0xD800) * 0x400 +
        (0xDC00 + (c.toNat - 0x10000) % 0x400 - 0xDC00) = c.toNat := by omega
    rw [List.map_cons, List.map_singleton, List.cons_append, List.singleton_append, codePoints, if_pos hpair, hu, hv,
      hcode, Char.ofNat_toNat]

theorem ofChars_cons (c : Char) (t : Str) : ofChars (c :: t) = (codeUnits c).map UInt16.ofNat ++ ofChars t := by
  rw [ofChars, utf16, List.flatMap_cons, List.map_append]
  rfl

theorem ofChars_append (t u : Str) : ofChars (t ++ u) = ofChars t ++ ofChars u := by
  rw [ofChars, utf16, List.flatMap_append, List.map_append]
  rfl

theorem codePoints_ofChars_append (t : Str) (s : JsString) :
    codePoints (ofChars t ++ s) = t.map .scalar ++ codePoints s := by
  induction t with
  | nil => rfl
  | cons c t ih => rw [ofChars_cons, List.append_assoc, codePoints_codeUnits, ih, List.map_cons, List.cons_append]

theorem codePoints_ofChars (t : Str) : codePoints (ofChars t) = t.map .scalar := by
  have h := codePoints_ofChars_append t []
  rwa [List.append_nil, codePoints, List.append_nil] at h

theorem codePoints_cons {u : UInt16} {s : JsString}
    (h : ∀ v ∈ s.head?, (isHighSurrogate u && isLowSurrogate v) = false) :
    codePoints (u :: s) = single u :: codePoints s := by
  cases s with
  | nil => rfl
  | cons v s => rw [codePoints, h v rfl, if_neg Bool.false_ne_true]

/-- Two strings side by side, of which the second does not begin with the second half of a character. -/
theorem codePoints_append (s : JsString) {t : JsString} (ht : ∀ v ∈ t.head?, isLowSurrogate v = false) :
    codePoints (s ++ t) = codePoints s ++ codePoints t := by
  induction s using codePoints.induct with
  | case1 => rfl
  | case2 u => exact codePoints_cons fun v hv => by rw [ht v hv, Bool.and_false]
  | case3 u v rest h ih =>
      rw [List.cons_append, List.cons_append, codePoints, if_pos h, ih, codePoints, if_pos h, List.cons_append]
  | case4 u v rest h ih =>
      rw [List.cons_append] at ih
      rw [List.cons_append, List.cons_append, codePoints, if_neg h, ih, codePoints, if_neg h, List.cons_append]

theorem toWellFormed_ofChars (t : Str) : toWellFormed (ofChars t) = t := by
  rw [toWellFormed, codePoints_ofChars, List.map_map]
  exact List.map_id t

theorem ofChars_toWellFormed {s : JsString} (h : isWellFormed s = true) : ofChars (toWellFormed s) = s := by
  refine codePoints_injective ?_
  rw [codePoints_ofChars, toWellFormed, List.map_map]
  refine (List.map_congr_left fun p hp => ?_).trans (List.map_id _)
  cases p with
  | scalar c => rfl
  | lone u hu => exact absurd (List.all_eq_true.1 h _ hp) Bool.false_ne_true

end JsString

/-! ## `JSON.stringify` of a string -/

/-- `\u` with four digits for a surrogate that stands alone. -/
def CodePoint.escape : CodePoint → Str
  | .scalar c => escapeChar c
  | .lone u _ =>
      ['\\', 'u', Nat.digitChar (u.toNat / 0x1000), Nat.digitChar (u.toNat / 0x100 % 16),
        Nat.digitChar (u.toNat / 16 % 16), Nat.digitChar (u.toNat % 16)]

def JsString.quote (s : JsString) : Str := '\x22' :: ((JsString.codePoints s).flatMap CodePoint.escape ++ ['\x22'])

theorem escapeChar_ne_lone {c : Char} {u : UInt16} {h : 0xD800 ≤ u.toNat ∧ u.toNat ≤ 0xDFFF} (s t : Str) :
    escapeChar c ++ s ≠ (CodePoint.lone u h).escape ++ t := by
  intro heq
  rcases escapeChar_cases c with ⟨e, he, hc⟩ | ⟨-, hc⟩ | ⟨-, hback, -, hc⟩
  · simp only [hc, CodePoint.escape, List.cons_append, List.nil_append, List.cons.injEq, true_and] at heq
    obtain ⟨rfl, -⟩ := heq
    exact shortEscape_ne_u he
  · simp only [hc, CodePoint.escape, List.cons_append, List.nil_append, List.cons.injEq, true_and] at heq
    have hzero := digitChar_inj (m := 0) (by decide) (by omega) heq.1
    omega
  · simp only [hc, CodePoint.escape, List.cons_append, List.nil_append, List.cons.injEq] at heq
    exact hback heq.1

theorem CodePoint.escape_readsAt (p : CodePoint) : ReadsAt (fun _ => True) CodePoint.escape p := by
  intro q s t _ _ heq
  cases p with
  | scalar c =>
      cases q with
      | scalar d =>
          obtain ⟨rfl, hst⟩ := escapeChar_readsAt c trivial trivial heq
          exact ⟨rfl, hst⟩
      | lone u h => exact absurd heq (escapeChar_ne_lone s t)
  | lone u h =>
      cases q with
      | scalar d => exact absurd heq.symm (escapeChar_ne_lone t s)
      | lone v h' =>
          simp only [escape, List.cons_append, List.nil_append, List.cons.injEq, true_and] at heq
          obtain ⟨h₁, h₂, h₃, h₄, hst⟩ := heq
          have hd₁ := digitChar_inj (by omega) (by omega) h₁
          have hd₂ := digitChar_inj (Nat.mod_lt _ (by decide)) (Nat.mod_lt _ (by decide)) h₂
          have hd₃ := digitChar_inj (Nat.mod_lt _ (by decide)) (Nat.mod_lt _ (by decide)) h₃
          have hd₄ := digitChar_inj (Nat.mod_lt _ (by decide)) (Nat.mod_lt _ (by decide)) h₄
          obtain rfl : u = v := UInt16.toNat_inj.1 (by omega)
          exact ⟨rfl, hst⟩

theorem CodePoint.escape_ne_quote (p : CodePoint) (s t : Str) : p.escape ++ s ≠ '\x22' :: t := by
  cases p with
  | scalar c => exact escapeChar_ne_quote c s t
  | lone u h =>
      intro heq
      exact absurd (List.cons.inj heq).1 (by decide)

theorem JsString.quote_readsAt (s : JsString) : ReadsAt (fun _ => True) JsString.quote s := by
  intro t r r' _ _ heq
  have hpoints : ∀ p ∈ codePoints s, ReadsAt (fun _ => True) CodePoint.escape p := fun p _ => p.escape_readsAt
  obtain ⟨hsame, hrest⟩ := readsAt_flatMap (fun _ _ => trivial) CodePoint.escape_ne_quote hpoints trivial trivial
    (List.cons.inj heq).2
  exact ⟨codePoints_injective hsame, hrest⟩

end Emis
