import Emis.Documents.Templates

/-!
# Data and markup stay apart

Two documents of one kind and state are the same but for escaped strings between tags
and the brand colour in the style sheet.
-/

namespace Emis.Documents

open Markup

/-! ## Escaping -/

theorem escapeChar_cases (ch : Char) :
    (∃ e ∈ ESCAPES, ch = e.1 ∧ escapeChar ch = e.2.toList) ∨ ch ∉ ESCAPES.map Prod.fst ∧ escapeChar ch = [ch] := by
  by_cases hch : ch ∈ ESCAPES.map Prod.fst
  · left
    simp only [ESCAPES, List.map_cons, List.map_nil, List.mem_cons, List.not_mem_nil, or_false] at hch
    rcases hch with rfl | rfl | rfl | rfl | rfl
    · exact ⟨('&', "&amp;"), by simp [ESCAPES], rfl, rfl⟩
    · exact ⟨('<', "&lt;"), by simp [ESCAPES], rfl, rfl⟩
    · exact ⟨('>', "&gt;"), by simp [ESCAPES], rfl, rfl⟩
    · exact ⟨('\x22', "&quot;"), by simp [ESCAPES], rfl, rfl⟩
    · exact ⟨('\'', "&#39;"), by simp [ESCAPES], rfl, rfl⟩
  · right
    refine ⟨hch, ?_⟩
    have hnone : ESCAPES.lookup ch = none := by
      simpa [List.lookup_eq_none_iff, ESCAPES] using hch
    rw [escapeChar, hnone]
    rfl

theorem escapes_ampersand : ∀ e ∈ ESCAPES, ∃ rest, e.2.toList = '&' :: rest ∧ '&' ∉ rest ∧
    ∀ ch ∈ rest, ch ∉ ['<', '>', '\x22', '\''] := by
  simp [ESCAPES]

/-- A text without brackets and quotes, in which every ampersand begins an escape. -/
structure Inert (s : Str) : Prop where
  plain : ∀ ch ∈ s, ch ∉ ['<', '>', '\x22', '\'']
  ampersand : ∀ pre post, s = pre ++ '&' :: post → ∃ e ∈ ESCAPES, e.2.toList <+: '&' :: post

theorem inert_escapeHtml (value : Str) : Inert (escapeHtml value) where
  plain ch hch := by
    obtain ⟨c, -, hch⟩ := List.mem_flatMap.1 hch
    rcases escapeChar_cases c with ⟨e, he, -, hescape⟩ | ⟨hc, hescape⟩
    · obtain ⟨rest, hrest, -, hplain⟩ := escapes_ampersand e he
      rw [hescape, hrest] at hch
      rcases List.mem_cons.1 hch with rfl | hch
      · decide
      · exact hplain ch hch
    · rw [hescape, List.mem_singleton] at hch
      subst hch
      simp only [ESCAPES, List.map_cons, List.map_nil, List.mem_cons, List.not_mem_nil, or_false, not_or] at hc ⊢
      exact hc.2
  ampersand := by
    induction value with
    | nil =>
        intro pre post h
        simp [escapeHtml] at h
    | cons c value ih =>
        intro pre post h
        rw [escapeHtml, List.flatMap_cons, List.append_eq_append_iff] at h
        rcases h with ⟨pre', rfl, h⟩ | ⟨inside, hinside, h⟩
        · exact ih pre' post h
        · cases inside with
          | nil => exact ih [] post h.symm
          | cons a inside =>
              obtain ⟨rfl, rfl⟩ : '&' = a ∧ post = inside ++ value.flatMap escapeChar := by simpa using h
              rcases escapeChar_cases c with ⟨e, he, -, hescape⟩ | ⟨hc, hescape⟩
              · obtain ⟨rest, hrest, hno, -⟩ := escapes_ampersand e he
                have hsplit : '&' :: rest = pre ++ '&' :: inside := hrest.symm.trans (hescape.symm.trans hinside)
                cases pre with
                | nil =>
                    obtain rfl : rest = inside := by simpa using hsplit
                    exact ⟨e, he, by rw [hrest]; exact List.prefix_append _ _⟩
                | cons b pre =>
                    obtain ⟨-, rfl⟩ : '&' = b ∧ rest = pre ++ '&' :: inside := by simpa using hsplit
                    simp at hno
              · rw [hescape, List.singleton_eq_append_iff] at hinside
                simp only [List.cons.injEq, reduceCtorEq, and_false, or_false] at hinside
                obtain ⟨-, rfl, -⟩ := hinside
                simp [ESCAPES] at hc

/-- The characters that the escapes stand for, skipping the first `n`. -/
def unescapeFrom : ℕ → Str → Str
  | _, [] => []
  | n + 1, _ :: rest => unescapeFrom n rest
  | 0, ch :: rest =>
      match ESCAPES.find? fun e => e.2.toList.isPrefixOf (ch :: rest) with
      | some e => e.1 :: unescapeFrom (e.2.length - 1) rest
      | none => ch :: unescapeFrom 0 rest

def unescapeHtml (text : Str) : Str := unescapeFrom 0 text

theorem unescapeFrom_append (s t : Str) : unescapeFrom s.length (s ++ t) = unescapeFrom 0 t := by
  induction s with
  | nil => rfl
  | cons ch s ih => simpa [unescapeFrom] using ih

theorem find_escape : ∀ e ∈ ESCAPES, ∀ t : Str, (ESCAPES.find? fun e' => e'.2.toList.isPrefixOf (e.2.toList ++ t)) = some e := by
  simp [ESCAPES, List.isPrefixOf_cons_cons]

theorem unescape_escapeHtml (value : Str) : unescapeHtml (escapeHtml value) = value := by
  induction value with
  | nil => rfl
  | cons c value ih =>
      rw [escapeHtml, List.flatMap_cons]
      rcases escapeChar_cases c with ⟨e, he, rfl, hescape⟩ | ⟨hc, hescape⟩
      · obtain ⟨rest, hrest, -⟩ := escapes_ampersand e he
        have hfind := find_escape e he (value.flatMap escapeChar)
        have hlength : e.2.length - 1 = rest.length := by
          rw [← String.length_toList, hrest]
          rfl
        rw [hescape]
        rw [hrest] at hfind ⊢
        rw [List.cons_append] at hfind ⊢
        rw [unescapeHtml, unescapeFrom, hfind]
        simp only [hlength]
        exact congrArg _ ((unescapeFrom_append rest _).trans ih)
      · have hfind : (ESCAPES.find? fun e => e.2.toList.isPrefixOf (c :: value.flatMap escapeChar)) = none := by
          rw [List.find?_eq_none]
          intro e he hprefix
          obtain ⟨rest, hrest, -⟩ := escapes_ampersand e he
          rw [hrest, List.isPrefixOf_cons_cons] at hprefix
          obtain ⟨rfl, -⟩ : '&' = c ∧ _ := by simpa using hprefix
          simp [ESCAPES] at hc
        rw [hescape, List.singleton_append, unescapeHtml, unescapeFrom, hfind]
        exact congrArg _ ih

/-! ## What may differ -/

/-- A string that has been escaped. -/
def Escaped (s : Str) : Prop := ∃ value, s = escapeHtml value

/-- `#` and six hexadecimal digits. -/
def Color (s : Str) : Prop := isColor s = true

theorem color_safeColor (value : Str) : Color (safeColor value) := by
  unfold Color safeColor
  by_cases hvalue : isColor value = true
  · rwa [if_pos hvalue]
  · rw [if_neg hvalue]
    decide

theorem not_mem_color {s : Str} (h : Color s) : '<' ∉ s := by
  cases s with
  | nil => simp
  | cons ch digits =>
      intro hmem
      simp only [Color, isColor, Bool.and_eq_true, beq_iff_eq, List.all_eq_true] at h
      obtain ⟨⟨rfl, -⟩, hdigits⟩ := h
      rcases List.mem_cons.1 hmem with hmem | hmem
      · exact absurd hmem (by decide)
      · exact absurd (hdigits _ hmem) (by decide)

abbrev SameMarkup : Place → Str → Str → Place → Prop := Alike Escaped Color

theorem SameMarkup.tags {p q : Place} {s s' : Str} (h : SameMarkup p s s' q) : p.tags s = p.tags s' := by
  refine (Alike.tags (fun s hs => ?_) (fun _ => not_mem_color) h).2
  obtain ⟨value, rfl⟩ := hs
  exact fun hmem => (inert_escapeHtml value).plain _ hmem (by simp)

theorem alike_string (a b : Str) :
    SameMarkup .text (Interpolation.string a).piece (Interpolation.string b).piece .text :=
  .text ⟨a, rfl⟩ ⟨b, rfl⟩

/-! ## The templates -/

theorem alike_page (title title' : Str) {size : String} {css css' : Str} {body body' : Raw}
    (hsize : (Place.style none).after size.toList = .style none)
    (hcss : SameMarkup (.style none) css css' (.style none)) (hbody : ∃ q, SameMarkup .text body.value body'.value q) :
    ∃ q, SameMarkup .text (page title size css body) (page title' size css' body') q := by
  obtain ⟨q, hbody⟩ := hbody
  have hstyle : (Place.style none).after ("; margin: 0 \x7d\n" ++ "* \x7b box-sizing: border-box \x7d\n" ++
      "html, body \x7b margin: 0; padding: 0; font-family: ").toList = .style none :=
    after_chars (chars_append (chars_append (chars_literal rfl) (chars_literal rfl)) (chars_literal rfl))
      rfl
  refine ⟨q.after "</body></html>".toList, ?_⟩
  refine .step (m := .text) (after_literal rfl rfl) (alike_string title title') ?_
  refine .step (m := .style none) (after_literal rfl rfl) (.of_after hsize) ?_
  refine .step (m := .style none) hstyle (.of_after (q := .style none) (after_literal rfl rfl)) ?_
  refine .step (m := .style none) (after_literal rfl rfl) hcss ?_
  exact .step (m := .text) (after_literal rfl rfl) hbody (.last rfl)

/-- Style sheets of one brand colour or another. -/
theorem alike_cssA5 {color color' : Str} (h : Color color) (h' : Color color') :
    SameMarkup (.style none) (cssA5 color) (cssA5 color') (.style none) := by
  refine .step (m := .style none) ?_ (.sheet h h') (.last ?_)
  all_goals
    apply after_chars
    · repeat first | exact chars_literal rfl | apply chars_append
    · decide +kernel

theorem same_cssThermal : SameMarkup (.style none) cssThermal cssThermal (.style none) := by
  rw [cssThermal]
  apply Alike.last
  apply after_chars
  · repeat first | exact chars_literal rfl | apply chars_append
  · decide +kernel

theorem alike_cssCard {color color' : Str} (h : Color color) (h' : Color color') :
    SameMarkup (.style none) (cssCard color) (cssCard color') (.style none) := by
  refine .step (m := .style none) ?_ (.sheet h h') <| .step (m := .style none) ?_ (.sheet h h') <|
    .step (m := .style none) ?_ (.sheet h h') <| .step (m := .style none) ?_ (.sheet h h') (.last ?_)
  all_goals
    apply after_chars
    · repeat first | exact chars_literal rfl | apply chars_append
    · decide +kernel

theorem alike_cssCertificate {color color' : Str} (h : Color color) (h' : Color color') :
    SameMarkup (.style none) (cssCertificate color) (cssCertificate color') (.style none) := by
  refine .step (m := .style none) ?_ (.sheet h h') <| .step (m := .style none) ?_ (.sheet h h') <|
    .step (m := .style none) ?_ (.sheet h h') <| .step (m := .style none) ?_ (.sheet h h') (.last ?_)
  all_goals
    apply after_chars
    · repeat first | exact chars_literal rfl | apply chars_append
    · decide +kernel

theorem alike_markup_rows {α : Type} {row : α → Raw}
    (hrow : ∀ a b, SameMarkup .text (row a).value (row b).value .text) {xs ys : List α} (h : xs.length = ys.length) :
    SameMarkup .text (rawRows row xs).value (rawRows row ys).value .text :=
  Alike.rows hrow h

/-- Two strings between three pieces of markup. -/
theorem alike_two {s₁ s₂ s₃ : String} (h₁ : Place.text.after s₁.toList = .text) (h₂ : Place.text.after s₂.toList = .text)
    (h₃ : Place.text.after s₃.toList = .text) (a b a' b' : Str) :
    SameMarkup .text (markup [s₁, s₂, s₃] [.string a, .string b]).value (markup [s₁, s₂, s₃] [.string a', .string b']).value
      .text :=
  .step h₁ (alike_string a a') (.step h₂ (alike_string b b') (.last h₃))

theorem alike_receiptRow (r r' : String × Str) : SameMarkup .text (receiptRow r).value (receiptRow r').value .text :=
  alike_two (after_literal rfl rfl) (after_literal rfl rfl)
    (after_literal rfl rfl) _ _ _ _

theorem alike_allocationA5 (a b : AllocationData) :
    SameMarkup .text (allocationA5 a).value (allocationA5 b).value .text :=
  alike_two (after_literal rfl rfl) (after_literal rfl rfl)
    (after_literal rfl rfl) _ _ _ _

theorem alike_lineThermal (label label' value value' : Str) :
    SameMarkup .text (lineThermal label value).value (lineThermal label' value').value .text :=
  alike_two (after_literal rfl rfl) (after_literal rfl rfl)
    (after_literal rfl rfl) _ _ _ _

/-- The stamp and the note of a voided receipt. -/
theorem alike_void {b : Prop} [Decidable b] {r r' : Raw} (h : SameMarkup .text r.value r'.value .text) :
    SameMarkup .text (if b then Interpolation.raw r else .string []).piece
      (if b then Interpolation.raw r' else .string []).piece .text := by
  by_cases hb : b
  · rw [if_pos hb, if_pos hb]
    exact h
  · rw [if_neg hb, if_neg hb]
    exact alike_string [] []

theorem alike_receiptA5 (d d' : ReceiptData) (hstatus : d.status = d'.status)
    (hcount : d.allocations.length = d'.allocations.length) :
    ∃ q, SameMarkup .text (receiptA5 d) (receiptA5 d') q := by
  have hstamp : SameMarkup .text (markup ["<div class=\"void\">VOID</div>"] []).value
      (markup ["<div class=\"void\">VOID</div>"] []).value .text := .last (after_literal rfl rfl)
  have hnote : ∀ note note' : Str, SameMarkup .text
      (markup ["<p class=\"note\">This receipt was voided", " and is no longer valid proof of payment.</p>"]
        [.string note]).value
      (markup ["<p class=\"note\">This receipt was voided", " and is no longer valid proof of payment.</p>"]
        [.string note']).value .text := fun note note' =>
    .step (after_literal rfl rfl) (alike_string note note') (.last (after_literal rfl rfl))
  rw [receiptA5, receiptA5, hstatus]
  refine alike_page _ _ (after_literal rfl rfl) (alike_cssA5 (color_safeColor _) (color_safeColor _)) ?_
  refine ⟨.text, ?_⟩
  refine .step (m := .text) (after_literal rfl rfl) (alike_void hstamp) ?_
  refine .step (m := .text) (after_literal rfl rfl) (alike_string _ _) ?_
  refine .step (m := .text) (after_literal rfl rfl) (alike_string _ _) ?_
  refine .step (m := .text) (after_literal rfl rfl) (alike_markup_rows alike_receiptRow rfl) ?_
  refine .step (m := .text) (after_literal rfl rfl) (alike_string _ _) ?_
  refine .step (m := .text) (after_literal rfl rfl) (alike_markup_rows alike_allocationA5 hcount) ?_
  refine .step (m := .text) (after_literal rfl rfl) (alike_void (hnote _ _)) ?_
  exact .last (after_literal rfl rfl)

theorem alike_receiptThermal (d d' : ReceiptData) (hcount : d.allocations.length = d'.allocations.length) :
    ∃ q, SameMarkup .text (receiptThermal d) (receiptThermal d') q := by
  refine alike_page _ _ (after_literal rfl rfl) same_cssThermal ?_
  refine ⟨.text, ?_⟩
  refine .step (m := .text) (after_literal rfl rfl) (alike_string _ _) ?_
  refine .step (m := .text) (after_literal rfl rfl) (alike_string _ _) ?_
  refine .step (m := .text) (after_literal rfl rfl) (alike_string _ _) ?_
  refine .step (m := .text) (after_literal rfl rfl)
    (alike_markup_rows (fun _ _ => alike_lineThermal _ _ _ _) rfl) ?_
  refine .step (m := .text) (after_literal rfl rfl) (alike_string _ _) ?_
  refine .step (m := .text) (after_literal rfl rfl)
    (alike_markup_rows (fun _ _ => alike_lineThermal _ _ _ _) hcount) ?_
  refine .step (m := .text) (after_literal rfl rfl) (alike_string _ _) ?_
  exact .last (after_literal rfl rfl)

theorem alike_studentCard (upper : Str → Str) (d d' : StudentCardData) (hstatus : d.status = d'.status)
    (hqr : d.qr = d'.qr) : ∃ q, SameMarkup .text (studentCard upper d) (studentCard upper d') q := by
  have hstamp : ∀ stamp : Str, SameMarkup .text (markup ["<div class=\"stamp\">", "</div>"] [.string stamp]).value
      (markup ["<div class=\"stamp\">", "</div>"] [.string stamp]).value .text := fun stamp =>
    .step (after_literal rfl rfl) (alike_string stamp stamp) (.last (after_literal rfl rfl))
  have hstamped : ∀ (b : Prop) [Decidable b] (stamp : Str), SameMarkup .text
      (if b then Interpolation.string [] else .raw (markup ["<div class=\"stamp\">", "</div>"] [.string stamp])).piece
      (if b then Interpolation.string [] else .raw (markup ["<div class=\"stamp\">", "</div>"] [.string stamp])).piece
      .text := by
    intro b _ stamp
    by_cases hb : b
    · rw [if_pos hb]
      exact alike_string [] []
    · rw [if_neg hb]
      exact hstamp stamp
  rw [studentCard, studentCard, hstatus, hqr]
  refine alike_page _ _ (after_literal rfl rfl) (alike_cssCard (color_safeColor _) (color_safeColor _)) ?_
  refine ⟨(Place.text.after d'.qr.value).after "</div>\n</div>".toList, ?_⟩
  refine .step (m := .text) (after_literal rfl rfl) (alike_string _ _) ?_
  refine .step (m := .text) (after_literal rfl rfl) (alike_string _ _) ?_
  refine .step (m := .text) (after_literal rfl rfl) (alike_string _ _) ?_
  refine .step (m := .text) (after_literal rfl rfl) (alike_string _ _) ?_
  refine .step (m := .text) (after_literal rfl rfl) (hstamped _ _) ?_
  refine .step (m := .text) (after_literal rfl rfl) (alike_string _ _) ?_
  -- after the code nothing differs any more, whatever the code is
  exact .step (after_literal rfl rfl) (.same .text _) (.last rfl)

theorem alike_certificate (d d' : CertificateData) (hstatus : d.status = d'.status) (hqr : d.qr = d'.qr) :
    ∃ q, SameMarkup .text (certificate d) (certificate d') q := by
  have hstamp : SameMarkup .text (markup ["<div class=\"revoked\">REVOKED</div>"] []).value
      (markup ["<div class=\"revoked\">REVOKED</div>"] []).value .text := .last (after_literal rfl rfl)
  rw [certificate, certificate, hstatus, hqr]
  refine alike_page _ _ (after_literal rfl rfl)
    (alike_cssCertificate (color_safeColor _) (color_safeColor _)) ?_
  refine ⟨(Place.text.after d'.qr.value).after "</div>\n</div>\n</div></div>".toList, ?_⟩
  have hcertifies : Place.text.after ("</div>\n" ++ "<div class=\"kicker\">Certificate of Completion</div>\n" ++
      "<div class=\"line\">This certifies that</div>\n" ++ "<div class=\"name\">").toList = .text := by
    apply after_chars
    · repeat first | exact chars_literal rfl | apply chars_append
    · decide +kernel
  refine .step (m := .text) (after_literal rfl rfl) (alike_void hstamp) ?_
  refine .step (m := .text) (after_literal rfl rfl) (alike_string _ _) ?_
  refine .step (m := .text) (after_literal rfl rfl) (alike_string _ _) ?_
  refine .step (m := .text) hcertifies (alike_string _ _) ?_
  refine .step (m := .text) (after_literal rfl rfl) (alike_string _ _) ?_
  refine .step (m := .text) (after_literal rfl rfl) (alike_string _ _) ?_
  refine .step (m := .text) (after_literal rfl rfl) (alike_string _ _) ?_
  refine .step (m := .text) (after_literal rfl rfl) (alike_string _ _) ?_
  exact .step (after_literal rfl rfl) (.same .text _) (.last rfl)

/-- Two documents that are the same but for escaped strings and colours have the same tags. -/
def Separated (doc doc' : Str) : Prop :=
  (∃ q, SameMarkup .text doc doc' q) ∧ Place.text.tags doc = Place.text.tags doc'

theorem separated_of_same {doc doc' : Str} (h : ∃ q, SameMarkup .text doc doc' q) : Separated doc doc' := by
  obtain ⟨q, hq⟩ := h
  exact ⟨⟨q, hq⟩, hq.tags⟩

def bole : Letterhead := ⟨"Bole".toList, none, some "+251".toList, "#0f766e".toList⟩

def hostile : Str := "<img src='x'>&\x22".toList

def paidBy (name : Str) (brand : Letterhead) : ReceiptData where
  letterhead := brand
  receiptNumber := "R-1".toList
  date := "12 Sep".toList
  studentName := name
  invoiceNumber := "I-1".toList
  method := "cash".toList
  reference := some name
  amountText := "1.00".toList
  allocations := [⟨name, "1.00".toList⟩]
  status := .void
  voidedOn := some name

def cardOf (name : Str) (brand : Letterhead) : StudentCardData :=
  ⟨brand, name, name, name, .revoked, raw "<svg/>".toList, name⟩

def earnedBy (name : Str) (brand : Letterhead) : CertificateData :=
  ⟨brand, name, name, name, name, .revoked, raw "<svg/>".toList, name⟩

end Emis.Documents
