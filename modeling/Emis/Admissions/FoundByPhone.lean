import Emis.Admissions.StudentSearch

/-!
# Finding a student by phone

Each word of the search is looked up on its own, so that grouping the digits of a number
matters: a word that keeps fewer than three of them is not taken for a part of a phone.
-/

namespace Emis.Admissions

open Emis.Numbering (isBlank trim)
open StudentsService DuplicatesService

/-- Blanks, and of ASCII all but the letters. -/
def Plain (c : Char) : Prop := isBlank c = true ∨ c.toNat < 128 ∧ c.isAlpha = false

/-- Lower-casing leaves digits, punctuation and blanks alone. -/
def KeepsPlain (env : Env) : Prop := ∀ s : Str, (∀ c ∈ s, Plain c) → lowerCase env s = s

/-! ## Words -/

theorem splitOnP_within (p : Char → Bool) (s : Str) :
    ∃ first rest, s.splitOnP p = first :: rest ∧ first <+: s ∧ ∀ w ∈ rest, w <:+: s := by
  induction s with
  | nil => exact ⟨[], [], rfl, List.nil_prefix, by simp⟩
  | cons c s ih =>
      obtain ⟨first, rest, hsplit, hfirst, hrest⟩ := ih
      rw [List.splitOnP_cons_eq_if_modifyHead, hsplit]
      have hlater : ∀ w ∈ rest, w <:+: c :: s := fun w hw => List.infix_cons (hrest w hw)
      split
      · refine ⟨[], first :: rest, rfl, List.nil_prefix, ?_⟩
        intro w hw
        rcases List.mem_cons.1 hw with rfl | hw
        · exact List.infix_cons hfirst.isInfix
        · exact hlater w hw
      · exact ⟨c :: first, rest, rfl, List.cons_prefix_cons.2 ⟨rfl, hfirst⟩, hlater⟩

theorem words_within {word text : Str} (h : word ∈ words text) : word <:+: text := by
  obtain ⟨first, rest, hsplit, hfirst, hrest⟩ := splitOnP_within isBlank text
  have hmem := (List.mem_filter.1 h).1
  rw [hsplit] at hmem
  rcases List.mem_cons.1 hmem with rfl | hmem
  · exact hfirst.isInfix
  · exact hrest word hmem

/-! ## Digits -/

/-- Zeros in front of the whole do not count where the leading zeros of a part are dropped. -/
theorem dropZeros_within {part digits : Str} (k : ℕ) (hzeros : ∀ c ∈ digits.take k, c = '0')
    (h : part <:+: digits) : part.dropWhile (· == '0') <:+: digits.drop k := by
  induction k generalizing part digits with
  | zero => exact (List.dropWhile_suffix _).isInfix.trans h
  | succ k ih =>
      cases digits with
      | nil =>
          rw [List.eq_nil_of_infix_nil h]
          exact List.nil_infix
      | cons d digits =>
          obtain rfl : d = '0' := hzeros d (by simp)
          have hrest : ∀ c ∈ digits.take k, c = '0' := fun c hc => hzeros c (by simp [hc])
          rw [List.drop_succ_cons]
          rcases List.infix_cons_iff.1 h with hprefix | hwithin
          · cases part with
            | nil => exact List.nil_infix
            | cons a part =>
                obtain ⟨rfl, hpart⟩ := List.cons_prefix_cons.1 hprefix
                have hdrop : ('0' :: part).dropWhile (· == '0') = part.dropWhile (· == '0') := by simp
                rw [hdrop]
                exact ih hrest hpart.isInfix
          · exact ih hrest hwithin

theorem filter_digits_blank {s : Str} (h : ∀ c ∈ s, isBlank c = true) : s.filter Char.isDigit = [] := by
  rw [List.filter_eq_nil_iff]
  intro c hc hdigit
  exact Bool.false_ne_true ((not_blank_of_digit hdigit).symm.trans (h c hc))

theorem trim_split (s : Str) : ∃ before after, s = before ++ trim s ++ after ∧
    (∀ c ∈ before, isBlank c = true) ∧ ∀ c ∈ after, isBlank c = true := by
  let kept := s.dropWhile isBlank
  refine ⟨s.takeWhile isBlank, (kept.reverse.takeWhile isBlank).reverse, ?_,
    fun c hc => List.mem_takeWhile_imp hc, fun c hc => List.mem_takeWhile_imp (List.mem_reverse.1 hc)⟩
  have hkept : trim s ++ (kept.reverse.takeWhile isBlank).reverse = kept := by
    rw [trim, ← List.reverse_append, List.takeWhile_append_dropWhile, List.reverse_reverse]
  rw [List.append_assoc, hkept, List.takeWhile_append_dropWhile]

theorem filter_trim (s : Str) : (trim s).filter Char.isDigit = s.filter Char.isDigit := by
  obtain ⟨before, after, hs, hbefore, hafter⟩ := trim_split s
  conv_rhs => rw [hs]
  rw [List.filter_append, List.filter_append, filter_digits_blank hbefore, filter_digits_blank hafter,
    List.nil_append, List.append_nil]

/-- What a word keeps of its digits is part of the number that the words spell. -/
theorem localDigits_within {typed word full : Str} (hphone : normalizePhone typed = some ('+' :: full))
    (hword : word <:+: typed) : localDigits word <:+: full := by
  have hdigits : word.filter Char.isDigit <:+: (trim typed).filter Char.isDigit := by
    rw [filter_trim]
    exact hword.filter _
  have hfull : fullNumber (trim typed) = full := by
    rw [normalizePhone] at hphone
    split at hphone
    · exact (List.cons.inj (Option.some.inj hphone)).2
    · cases hphone
  rw [← hfull, localDigits]
  generalize hall : (trim typed).filter Char.isDigit = digits at hdigits
  have hwhole : (word.filter Char.isDigit).dropWhile (· == '0') <:+: digits :=
    dropZeros_within 0 (by simp) hdigits
  unfold fullNumber
  rw [hall]
  dsimp only
  split
  · exact hwhole
  · split
    · rename_i hzeros
      obtain ⟨rest, rfl⟩ := List.isPrefixOf_iff_prefix.1 hzeros
      exact dropZeros_within 2 (by simp) hdigits
    · split
      · rename_i hzero
        obtain ⟨rest, rfl⟩ := List.isPrefixOf_iff_prefix.1 hzero
        exact (dropZeros_within 1 (by simp) hdigits).trans (List.suffix_append _ _).isInfix
      · split
        · exact hwhole
        · exact hwhole.trans (List.suffix_append _ _).isInfix

/-! ## The text of a number -/

theorem plain_of_digit {c : Char} (h : c.isDigit = true) : Plain c := by
  have hrange : 48 ≤ c.toNat ∧ c.toNat ≤ 57 := by
    simpa [Char.isDigit, Char.le_def, UInt32.le_iff_toNat_le] using h
  obtain ⟨hlow, hhigh⟩ := hrange
  refine .inr ⟨by omega, ?_⟩
  rw [← Char.ofNat_toNat c]
  generalize c.toNat = n at hlow hhigh
  interval_cases n <;> decide

theorem plain_of_looks {s : Str} (h : looksLikePhone s = true) : ∀ c ∈ s, Plain c := by
  cases s with
  | nil => simp
  | cons a rest =>
      rw [looksLikePhone, Bool.and_eq_true, List.all_eq_true] at h
      obtain ⟨hfirst, hrest⟩ := h
      have hmark : ∀ c ∈ ['+', '(', ')', '.', '-'], Plain c := by
        intro c hc
        have hascii : ∀ c ∈ ['+', '(', ')', '.', '-'], c.toNat < 128 ∧ c.isAlpha = false := by decide
        exact .inr (hascii c hc)
      intro c hc
      rcases List.mem_cons.1 hc with rfl | hc
      · simp only [Bool.or_eq_true, beq_iff_eq] at hfirst
        rcases hfirst with (rfl | hdigit) | rfl
        · exact hmark _ (by decide)
        · exact plain_of_digit hdigit
        · exact hmark _ (by decide)
      · have hkind := hrest c hc
        rw [Bool.or_eq_true, Bool.or_eq_true] at hkind
        rcases hkind with (hdigit | hblank) | hpunct
        · exact plain_of_digit hdigit
        · exact .inl hblank
        · exact hmark c (List.mem_cons_of_mem _ (by simpa using hpunct))

theorem plain_of_phone {typed phone : Str} (h : normalizePhone typed = some phone) : ∀ c ∈ typed, Plain c := by
  have hlooks : looksLikePhone (trim typed) = true := by
    rw [normalizePhone] at h
    split at h
    · rename_i hshape
      simp only [Bool.and_eq_true] at hshape
      exact hshape.1.1
    · cases h
  obtain ⟨before, after, hs, hbefore, hafter⟩ := trim_split typed
  intro c hc
  rw [hs] at hc
  rcases List.mem_append.1 hc with hc | hc
  · rcases List.mem_append.1 hc with hc | hc
    · exact .inl (hbefore c hc)
    · exact plain_of_looks hlooks c hc
  · exact .inl (hafter c hc)

/-! ## Looking words up -/

section Lookup

variable {env : Env} (hlower : KeepsPlain env)

include hlower

/-- A word without letters is looked up as it is. -/
theorem ilike_containing {word text : Str} (hword : ∀ c ∈ word, Plain c) :
    ilike env text ('%' :: (escapeLike word ++ ['%'])) = true ↔ word <:+: lowerCase env text := by
  have hmark : ∀ c ∈ ['%', '\\'], Plain c := by
    intro c hc
    have hascii : ∀ c ∈ ['%', '\\'], c.toNat < 128 ∧ c.isAlpha = false := by decide
    exact .inr (hascii c hc)
  have hescaped : ∀ c ∈ escapeLike word, Plain c := by
    intro c hc
    obtain ⟨ch, hch, hc⟩ := List.mem_flatMap.1 hc
    split at hc
    · rcases List.mem_cons.1 hc with rfl | hc
      · exact hmark _ (by decide)
      · exact List.mem_singleton.1 hc ▸ hword ch hch
    · exact List.mem_singleton.1 hc ▸ hword ch hch
  have hpattern : ∀ c ∈ '%' :: (escapeLike word ++ ['%']), Plain c := by
    intro c hc
    rcases List.mem_cons.1 hc with rfl | hc
    · exact hmark _ (by decide)
    · rcases List.mem_append.1 hc with hc | hc
      · exact hescaped c hc
      · exact hmark c (List.mem_cons.2 (.inl (List.mem_singleton.1 hc)))
  rw [ilike, hlower _ hpattern]
  exact Like.like_containing

theorem matchesToken_iff {r : StudentRow} {full word : Str} (hrow : r.person.phone.toList = '+' :: full)
    (hfull : ∀ c ∈ full, c.isDigit = true) (hword : ∀ c ∈ word, Plain c) (hpart : localDigits word <:+: full) :
    matchesToken env r word = true ↔ 3 ≤ (localDigits word).length ∨
      word <:+: lowerCase env (searchName env r.person).toList ∨ word <:+: lowerCase env r.studentNumber := by
  have hdigit : ∀ c ∈ localDigits word, c.isDigit = true := fun c hc => hfull c (hpart.subset hc)
  have hescape : escapeLike (localDigits word) = localDigits word := by
    apply Like.escape_eq_self
    intro c hc
    rw [List.contains_eq_mem, decide_eq_false_iff_not]
    intro hmark
    have hdigits := hdigit c hc
    simp only [List.mem_cons, List.not_mem_nil, or_false] at hmark
    rcases hmark with rfl | rfl | rfl <;> revert hdigits <;> decide
  have hphone : lowerCase env r.person.phone.toList = r.person.phone.toList := by
    apply hlower
    rw [hrow]
    intro c hc
    rcases List.mem_cons.1 hc with rfl | hc
    · exact .inr (by decide)
    · exact plain_of_digit (hfull c hc)
  have hplus : localDigits word <:+: '+' :: full := List.infix_cons hpart
  have hnumber : (phonePattern word).any (ilike env r.person.phone.toList) = true ↔
      3 ≤ (localDigits word).length := by
    rw [phonePattern]
    split
    · rename_i hlong
      have hfound := (ilike_containing hlower 
        fun c hc => plain_of_digit (hdigit c hc)).2 (by rw [hphone, hrow]; exact hplus)
      rw [hescape] at hfound
      simp only [Option.any_some, hfound, hlong]
    · rename_i hshort
      simp only [Option.any_none, Bool.false_eq_true, hshort]
  rw [matchesToken, Bool.or_eq_true, Bool.or_eq_true, ilike_containing hlower hword,
    ilike_containing hlower hword, hnumber]
  tauto

theorem searchTokens_phone {typed phone : Str} (hphone : normalizePhone typed = some phone)
    (hwords : (words typed).length ≤ 5) : searchTokens env typed = words typed := by
  rw [searchTokens, hlower typed (plain_of_phone hphone)]
  exact List.take_of_length_le hwords

end Lookup

theorem mem_found {env : Env} {query : StudentListQuery} {grants : List Grant} {d : Db} {r : StudentRow} :
    r ∈ found env query grants d ↔ r ∈ d.students ∧ listed env query grants r = true := by
  rw [found, (newest_perm sortKey _).mem_iff, List.mem_filter]

/-- A page holds the rows of the list up to its limit. -/
theorem listPage_found {env : Env} {query : StudentListQuery} {grants : List Grant} {d : Db} :
    (listPage sortKey (listed env query grants) d.students query.limit none).items =
      (found env query grants d).take query.limit := by
  have hcut := congrArg Prod.fst (@toPage_take _ sortKey query.limit (found env query grants d))
  have hpage : listPage sortKey (listed env query grants) d.students query.limit none =
      toPage sortKey ((found env query grants d).take (query.limit + 1)) query.limit := by
    simp [listPage, found]
  rw [hpage]
  refine hcut.trans ?_
  rw [Keyset.cut]
  split
  · rfl
  · rename_i hshort
    exact (List.take_of_length_le (Nat.le_of_not_lt hshort)).symm

/-- A search without other filters is decided by the words. -/
theorem listed_iff {env : Env} {typed : Str} {grants : List Grant} {r : StudentRow}
    (hreads : (branchReach grants .studentsRead).all (·.contains r.branchId) = true) :
    listed env { q := some typed } grants r = true ↔
      ∀ token ∈ searchTokens env typed, matchesToken env r token = true := by
  have hreach : (branchReach grants .studentsRead).all
      (fun reach => (if reach.isEmpty then [NO_BRANCH] else reach).contains r.branchId) = true := by
    cases hbranches : branchReach grants .studentsRead with
    | none => rfl
    | some reach =>
        rw [hbranches] at hreads
        cases reach with
        | nil => cases hreads
        | cons b reach => exact hreads
  simp only [listed, Option.all_none, Bool.true_and, hreach, Option.getD_some, List.all_eq_true]

/-- A typed number finds its student when each word of it keeps three digits or stands in
the student's name or number. -/
theorem found_by_phone_iff {env : Env} (hlower : KeepsPlain env) {d : Db} {r : StudentRow}
    (hr : r ∈ d.students) {grants : List Grant}
    (hreads : (branchReach grants .studentsRead).all (·.contains r.branchId) = true) {typed : Str}
    (hphone : normalizePhone typed = some r.person.phone.toList) (hwords : (words typed).length ≤ 5) :
    r ∈ found env { q := some typed } grants d ↔
      ∀ word ∈ words typed, 3 ≤ (localDigits word).length ∨
        word <:+: lowerCase env (searchName env r.person).toList ∨
        word <:+: lowerCase env r.studentNumber := by
  obtain ⟨full, hfull, hrow, -⟩ := normalizePhone_eq_some hphone
  rw [hrow] at hphone
  have hword : ∀ word ∈ words typed, matchesToken env r word = true ↔
      3 ≤ (localDigits word).length ∨ word <:+: lowerCase env (searchName env r.person).toList ∨
        word <:+: lowerCase env r.studentNumber := by
    intro word hmem
    have hwithin := words_within hmem
    exact matchesToken_iff hlower hrow hfull
      (fun c hc => plain_of_phone hphone c (hwithin.subset hc)) (localDigits_within hphone hwithin)
  rw [mem_found, listed_iff hreads, searchTokens_phone hlower hphone hwords]
  exact ⟨fun h word hmem => (hword word hmem).1 (h.2 word hmem),
    fun h => ⟨hr, fun word hmem => (hword word hmem).2 (h word hmem)⟩⟩

/-! ## A student -/

def office : Env := { lower := fun s => String.ofList (s.toList.map Char.toLower) }

theorem office_keepsPlain : KeepsPlain office := by
  have hplain : ∀ c : Char, Plain c → c.toLower = c := by
    intro c hc
    by_contra hupper
    obtain ⟨hlow, hhigh⟩ := range_of_toLower hupper
    rw [← Char.ofNat_toNat c] at hc
    generalize c.toNat = n at hlow hhigh hc
    revert hc
    unfold Plain
    interval_cases n <;> decide
  intro s hs
  rw [lowerCase, office, String.toList_ofList, String.toList_ofList]
  conv_rhs => rw [← List.map_id s]
  exact List.map_congr_left fun c hc => hplain c (hs c hc)

def hana : StudentRow where
  id := 1
  studentNumber := "STU-2026-00001".toList
  person := { givenName := "Hana", fatherName := "Bekele", gender := .female, phone := "+251911223344" }
  branchId := 1

def registrar : List Grant := [⟨.studentsRead, .global⟩]

theorem found_by_phone_iff_grouped :
    hana ∈ found office { q := some "0911 223 344".toList } registrar { students := [hana] } ↔
      ∀ word ∈ words "0911 223 344".toList, 3 ≤ (localDigits word).length ∨
        word <:+: lowerCase office (searchName office hana.person).toList ∨
        word <:+: lowerCase office hana.studentNumber :=
  found_by_phone_iff office_keepsPlain List.mem_cons_self (by decide) (by decide +kernel) (by decide +kernel)

/-- The number as the form shows it, with its last four digits in pairs. -/
theorem not_found_in_pairs :
    let typed := "0911 22 33 44".toList
    normalizePhone typed = some hana.person.phone.toList ∧ (words typed).length ≤ 5 ∧
      hana ∉ found office { q := some typed } registrar { students := [hana] } := by
  refine ⟨by decide +kernel, by decide +kernel, ?_⟩
  rw [mem_found]
  have hlisted : listed office { q := some "0911 22 33 44".toList } registrar hana = false := by decide +kernel
  exact fun h => Bool.false_ne_true (hlisted.symm.trans h.2)

end Emis.Admissions
