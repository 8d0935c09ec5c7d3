import Emis.Library.NumeralOrder
import Emis.Numbering.Frames

/-!
# Numbers in order

What an accepted pattern makes of its contexts and sequences.
-/

namespace Emis.Numbering

open Numerals

section Accepted

variable {pattern : Text}

/-- The one `{SEQ:n}` of a usable pattern. -/
theorem Usable.declared (h : Usable pattern) :
    ∃ digits, (matchAll pattern).filter (fun t => t.name == SEQ) = [⟨SEQ, some digits⟩] ∧
      seqWidth pattern = Nat.ofDigitChars 10 digits 0 ∧ 0 < seqWidth pattern := by
  obtain ⟨t, hname, hwidth, hsplit, -, -⟩ := h.split
  obtain ⟨name, width⟩ := t
  obtain rfl : name = SEQ := hname
  cases width with
  | none => cases hwidth
  | some digits =>
      have hmem : ⟨SEQ, some digits⟩ ∈ matchAll pattern := by
        rw [mem_matchAll, hsplit]
        exact List.mem_append_right _ List.mem_cons_self
      have hfilter : (matchAll pattern).filter (fun t => t.name == SEQ) = [⟨SEQ, some digits⟩] := by
        have hone := h.one
        rw [List.countP_eq_length_filter] at hone
        obtain ⟨t, ht⟩ := List.length_eq_one_iff.1 hone
        have hin : ⟨SEQ, some digits⟩ ∈ (matchAll pattern).filter fun t => t.name == SEQ :=
          List.mem_filter.2 ⟨hmem, by simp⟩
        rw [ht] at hin ⊢
        rw [List.mem_singleton.1 hin]
      have hseq : seqWidth pattern = Nat.ofDigitChars 10 digits 0 := by
        rw [seqWidth]
        cases hfind : (matchAll pattern).find? fun t => t.name == SEQ && t.width.isSome with
        | none => exact absurd (List.find?_eq_none.1 hfind _ hmem) (by simp)
        | some t =>
            have hsome := List.find?_some hfind
            rw [Bool.and_eq_true] at hsome
            have hin : t ∈ (matchAll pattern).filter fun t => t.name == SEQ :=
              List.mem_filter.2 ⟨List.mem_of_find?_eq_some hfind, hsome.1⟩
            rw [hfilter] at hin
            rw [List.mem_singleton.1 hin]
      refine ⟨digits, hfilter, hseq, ?_⟩
      rw [widthOk, Bool.and_eq_true, decide_eq_true_eq] at hwidth
      rw [hseq]
      exact hwidth.1

theorem formatNumber_around (h : Usable pattern) (ctx : NumberContext) (n : ℕ) :
    formatNumber pattern ctx n = (around pattern ctx).map fun a => a.1 ++ numeral (seqWidth pattern) n ++ a.2 :=
  fill_around h ctx _

/-- The scope tells what stands around the sequence, and nothing else. -/
theorem numberScope_iff (hcheck : checkNumberPattern pattern = none) {ctx ctx' : NumberContext} :
    numberScope pattern ctx = numberScope pattern ctx' ↔ around pattern ctx = around pattern ctx' := by
  have hscope : ∀ ctx, numberScope pattern ctx =
      (around pattern ctx).map fun a => a.1 ++ Token.text ⟨SEQ, none⟩ ++ a.2 :=
    fun ctx => fill_around (usable_of_check hcheck) ctx _
  rw [hscope, hscope]
  constructor
  · intro h
    cases ha : around pattern ctx with
    | error e =>
        cases hb : around pattern ctx' with
        | error e' =>
            rw [ha, hb] at h
            exact congrArg _ (Except.error.inj h)
        | ok b =>
            rw [ha, hb] at h
            cases h
    | ok a =>
        cases hb : around pattern ctx' with
        | error e' =>
            rw [ha, hb] at h
            cases h
        | ok b =>
            rw [ha, hb] at h
            have hsame := around_of_scope (literal_around hcheck ha).1 (literal_around hcheck hb).1
              (Except.ok.inj h)
            exact congrArg _ (Prod.ext hsame.1 hsame.2)
  · intro h
    rw [h]

theorem not_brace_of_literal {c : Char} (h : isLiteral c = true) : c ≠ '{' ∧ c ≠ '}' := by
  constructor
  · rintro rfl
    exact absurd h (by decide)
  · rintro rfl
    exact absurd h (by decide)

theorem formatNumber_wellFormed (hcheck : checkNumberPattern pattern = none) {ctx : NumberContext}
    (hcode : patternUsesBranch pattern = true → ctx.branchCode ≠ none) (n : ℕ) :
    ∃ a s, around pattern ctx = .ok a ∧ s = padStart (seqWidth pattern) (Nat.toDigits 10 n) ∧
      formatNumber pattern ctx n = .ok (a.1 ++ s ++ a.2) ∧ seqWidth pattern ≤ s.length ∧
      ∀ c ∈ a.1 ++ s ++ a.2, isLiteral c = true ∧ c ≠ '{' ∧ c ≠ '}' := by
  have husable := usable_of_check hcheck
  obtain ⟨a, ha⟩ := around_ok husable hcode
  obtain ⟨hbefore, hafter⟩ := literal_around hcheck ha
  refine ⟨a, _, ha, rfl, by rw [formatNumber_around husable, ha]; rfl, ?_, ?_⟩
  · rw [padStart, List.length_leftpad]
    exact Nat.le_max_left _ _
  · intro c hc
    have hliteral : isLiteral c = true := by
      rcases List.mem_append.1 hc with hc | hc
      · rcases List.mem_append.1 hc with hc | hc
        · exact hbefore c hc
        · exact literal_padStart (digits_toDigits n) c hc
      · exact hafter c hc
    exact ⟨hliteral, not_brace_of_literal hliteral⟩

theorem formatNumber_lt (hcheck : checkNumberPattern pattern = none) {ctx ctx' : NumberContext} {m n : ℕ}
    {x y : Text} (hscope : numberScope pattern ctx = numberScope pattern ctx') (hmn : m < n)
    (hfits : n < 10 ^ seqWidth pattern) (hx : formatNumber pattern ctx m = .ok x)
    (hy : formatNumber pattern ctx' n = .ok y) : x < y := by
  have husable := usable_of_check hcheck
  obtain ⟨-, -, -, hpos⟩ := husable.declared
  rw [formatNumber_around husable] at hx hy
  rw [← (numberScope_iff hcheck).1 hscope] at hy
  cases ha : around pattern ctx with
  | error e =>
      rw [ha] at hx
      cases hx
  | ok a =>
      rw [ha] at hx hy
      obtain rfl := Except.ok.inj hx
      obtain rfl := Except.ok.inj hy
      have hlen : (numeral (seqWidth pattern) m).length = (numeral (seqWidth pattern) n).length := by
        rw [length_numeral hpos hfits, length_numeral hpos (hmn.trans hfits)]
      have hlt := append_lt_append (numeral_lt hpos hfits hmn) hlen a.2 a.2
      change a.1 ++ numeral _ m ++ a.2 < a.1 ++ numeral _ n ++ a.2
      rw [List.append_assoc, List.append_assoc]
      exact List.append_left_lt hlt

end Accepted

/-- An accepted pattern has one `{SEQ:n}`; its numbers are the filled texts around it with the
padded sequence between them, its scopes tell these texts apart, and within a scope
numbers of the declared width are in order. -/
theorem accepted_pattern_numbers {pattern : Text} (hcheck : checkNumberPattern pattern = none) :
    ∃ digits width, (matchAll pattern).filter (fun t => t.name == SEQ) = [⟨SEQ, some digits⟩] ∧
      width = Nat.ofDigitChars 10 digits 0 ∧
      (∀ ctx n, (patternUsesBranch pattern = true → ctx.branchCode ≠ none) → 1 ≤ n →
        ∃ a s, around pattern ctx = .ok a ∧ s = padStart width (Nat.toDigits 10 n) ∧
          formatNumber pattern ctx n = .ok (a.1 ++ s ++ a.2) ∧ width ≤ s.length ∧
          ∀ c ∈ a.1 ++ s ++ a.2, isLiteral c = true ∧ c ≠ '{' ∧ c ≠ '}') ∧
      (∀ ctx ctx', numberScope pattern ctx = numberScope pattern ctx' ↔
        around pattern ctx = around pattern ctx') ∧
      ∀ ctx ctx' m n x y, numberScope pattern ctx = numberScope pattern ctx' → 1 ≤ m → m < n →
        n < 10 ^ width → formatNumber pattern ctx m = .ok x → formatNumber pattern ctx' n = .ok y → x < y := by
  obtain ⟨digits, hone, hwidth, -⟩ := (usable_of_check hcheck).declared
  refine ⟨digits, seqWidth pattern, hone, hwidth, ?_, ?_, ?_⟩
  · exact fun ctx n hcode _ => formatNumber_wellFormed hcheck hcode n
  · exact fun ctx ctx' => numberScope_iff hcheck
  · exact fun ctx ctx' m n x y hscope _ hmn hfits hx hy => formatNumber_lt hcheck hscope hmn hfits hx hy

/-- `RCP-{BRANCH}-{YYYY}-{SEQ:6}`. -/
def receiptPattern : Text :=
  "RCP-".toList ++ Token.text ⟨BRANCH, none⟩ ++ "-".toList ++ Token.text ⟨YYYY, none⟩ ++ "-".toList ++
    Token.text ⟨SEQ, some ['6']⟩

theorem accepted_pattern_numbers_receipt :
    ∃ digits width, (matchAll receiptPattern).filter (fun t => t.name == SEQ) = [⟨SEQ, some digits⟩] ∧
      width = Nat.ofDigitChars 10 digits 0 ∧
      (∀ ctx n, (patternUsesBranch receiptPattern = true → ctx.branchCode ≠ none) → 1 ≤ n →
        ∃ a s, around receiptPattern ctx = .ok a ∧ s = padStart width (Nat.toDigits 10 n) ∧
          formatNumber receiptPattern ctx n = .ok (a.1 ++ s ++ a.2) ∧ width ≤ s.length ∧
          ∀ c ∈ a.1 ++ s ++ a.2, isLiteral c = true ∧ c ≠ '{' ∧ c ≠ '}') ∧
      (∀ ctx ctx', numberScope receiptPattern ctx = numberScope receiptPattern ctx' ↔
        around receiptPattern ctx = around receiptPattern ctx') ∧
      ∀ ctx ctx' m n x y, numberScope receiptPattern ctx = numberScope receiptPattern ctx' → 1 ≤ m → m < n →
        n < 10 ^ width → formatNumber receiptPattern ctx m = .ok x → formatNumber receiptPattern ctx' n = .ok y →
        x < y :=
  accepted_pattern_numbers (by decide +kernel)

end Emis.Numbering
