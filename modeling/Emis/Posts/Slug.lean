import Emis.Common.JsString
import Emis.Library.Numerals
import Mathlib.Data.List.DropRight
import Mathlib.Data.List.Chain
import Mathlib.Data.List.Nodup

/-!
# Slugs

`posts/domain/slug.ts`, and the form in which slugs are stored and looked up. Unicode is not
modelled: NFKD and lower-casing are parameters.
-/

namespace Emis.Posts

open Printing

structure Unicode where
  nfkd : JsString → JsString
  toLowerCase : JsString → JsString

/-- `[a-z0-9]`. -/
def isSlugChar (c : Char) : Bool := ('a' ≤ c && c ≤ 'z') || ('0' ≤ c && c ≤ '9')

/-- `[\u0300-\u036f]`. -/
def isMark (u : UInt16) : Bool := 0x300 ≤ u.toNat && u.toNat ≤ 0x36F

/-- `.replace(/[^a-z0-9]+/g, '-')`; half a character is no letter. -/
def hyphenate (inRun : Bool) : JsString → Str
  | [] => []
  | u :: s =>
      let c := Char.ofNat u.toNat
      if isSlugChar c then c :: hyphenate false s
      else if inRun then hyphenate true s
      else '-' :: hyphenate true s

def stripRight (s : Str) : Str := s.rdropWhile (· == '-')

def strip (s : Str) : Str := stripRight (s.dropWhile (· == '-'))

def MAX_LENGTH : ℕ := 60

def slugify (unicode : Unicode) (title : JsString) : Str :=
  let text := unicode.toLowerCase ((unicode.nfkd title).filter fun u => !isMark u)
  let slug := stripRight ((strip (hyphenate false text)).take MAX_LENGTH)
  if slug = [] then ['p', 'o', 's', 't'] else slug

def candidate (base : Str) (n : ℕ) : Str := base ++ '-' :: Nat.toDigits 10 n

/-- At most `rounds` rounds of the loop, from `n` on. -/
def firstFree (base : Str) (taken : List Str) : ℕ → ℕ → Option Str
  | 0, _ => none
  | rounds + 1, n =>
      if candidate base n ∈ taken then firstFree base taken rounds (n + 1) else some (candidate base n)

/-- `none` if the loop is still running after the rounds. -/
def uniqueSlugIn (rounds : ℕ) (base : Str) (taken : List Str) : Option Str :=
  if base ∈ taken then firstFree base taken rounds 2 else some base

/-- The loop has no bound; it ends after at most as many rounds as there are slugs taken. -/
def uniqueSlug (base : Str) (taken : List Str) : Str := (uniqueSlugIn (taken.length + 1) base taken).getD []

/-- `^[a-z0-9]+(-[a-z0-9]+)*$`, from a place where a group begins or goes on. -/
def matchesFrom (begins : Bool) : Str → Bool
  | [] => !begins
  | c :: s => if isSlugChar c then matchesFrom false s else c == '-' && !begins && matchesFrom true s

def matchesSlug (s : Str) : Bool := matchesFrom true s

/-- Groups of lower-case letters and digits, joined by single hyphens. -/
def IsSlug (s : Str) : Prop :=
  ∃ groups : List Str, groups ≠ [] ∧ (∀ g ∈ groups, g ≠ [] ∧ ∀ c ∈ g, isSlugChar c = true) ∧
    s = ['-'].intercalate groups

/-! ## The form -/

def Groups (gs : List Str) : Prop := ∀ g ∈ gs, g ≠ [] ∧ ∀ c ∈ g, isSlugChar c = true

theorem not_isSlugChar_hyphen : isSlugChar '-' = false := by decide

theorem matchesFrom_append {w : Str} (hw : ∀ c ∈ w, isSlugChar c = true) (s : Str) :
    matchesFrom false (w ++ s) = matchesFrom false s := by
  induction w with
  | nil => rfl
  | cons c w ih =>
      rw [List.cons_append, matchesFrom, if_pos (hw c (by simp)), ih fun c hc => hw c (by simp [hc])]

theorem matchesFrom_group {w : Str} (hne : w ≠ []) (hw : ∀ c ∈ w, isSlugChar c = true) (s : Str) :
    matchesFrom true (w ++ s) = matchesFrom false s := by
  obtain ⟨c, w, rfl⟩ := List.exists_cons_of_ne_nil hne
  rw [List.cons_append, matchesFrom, if_pos (hw c (by simp)), matchesFrom_append fun c hc => hw c (by simp [hc])]

theorem matchesFrom_groups {gs : List Str} (h : Groups gs) : matchesFrom false (gs.flatMap ('-' :: ·)) = true := by
  induction gs with
  | nil => rfl
  | cons g gs ih =>
      obtain ⟨hne, hg⟩ := h g (by simp)
      rw [List.flatMap_cons, List.cons_append, matchesFrom, not_isSlugChar_hyphen, if_neg Bool.false_ne_true,
        matchesFrom_group hne hg, ih fun g' hg' => h g' (by simp [hg'])]
      rfl

theorem groups_of_matchesFrom {begins : Bool} {s : Str} (h : matchesFrom begins s = true) :
    ∃ w gs, (begins = true → w ≠ []) ∧ (∀ c ∈ w, isSlugChar c = true) ∧ Groups gs ∧
      s = w ++ gs.flatMap ('-' :: ·) := by
  induction s generalizing begins with
  | nil =>
      refine ⟨[], [], fun hbegins => ?_, by simp, by simp [Groups], rfl⟩
      rw [hbegins] at h
      cases h
  | cons c s ih =>
      rw [matchesFrom] at h
      split at h
      · rename_i hc
        obtain ⟨w, gs, -, hw, hgs, rfl⟩ := ih h
        exact ⟨c :: w, gs, fun _ => List.cons_ne_nil c w, List.forall_mem_cons.2 ⟨hc, hw⟩, hgs, rfl⟩
      · simp only [Bool.and_eq_true, beq_iff_eq, Bool.not_eq_true'] at h
        obtain ⟨⟨rfl, hbegins⟩, hs⟩ := h
        obtain ⟨w, gs, hne, hw, hgs, rfl⟩ := ih hs
        refine ⟨[], w :: gs, fun htrue => ?_, by simp, List.forall_mem_cons.2 ⟨⟨hne rfl, hw⟩, hgs⟩, by simp⟩
        rw [hbegins] at htrue
        cases htrue

theorem matchesSlug_iff {s : Str} : matchesSlug s = true ↔ IsSlug s := by
  constructor
  · intro h
    obtain ⟨w, gs, hne, hw, hgs, rfl⟩ := groups_of_matchesFrom h
    exact ⟨w :: gs, List.cons_ne_nil w gs, List.forall_mem_cons.2 ⟨⟨hne rfl, hw⟩, hgs⟩,
      (Printing.intercalate_cons '-' w gs).symm⟩
  · rintro ⟨groups, hne, hgroups, rfl⟩
    obtain ⟨g, gs, rfl⟩ := List.exists_cons_of_ne_nil hne
    obtain ⟨hg, hgs⟩ := List.forall_mem_cons.1 hgroups
    rw [matchesSlug, Printing.intercalate_cons, matchesFrom_group hg.1 hg.2, matchesFrom_groups hgs]

/-- No two hyphens in a row, and nothing else between letters and digits. -/
structure Joined (s : Str) : Prop where
  chars : ∀ c ∈ s, isSlugChar c = true ∨ c = '-'
  single : s.IsChain fun c d => isSlugChar c = true ∨ isSlugChar d = true

/-- The slugs among them. -/
structure Shaped (s : Str) : Prop extends Joined s where
  first : ∃ c ∈ s.head?, isSlugChar c = true
  last : ∃ c ∈ s.getLast?, isSlugChar c = true

theorem matchesFrom_of_joined {begins : Bool} {s : Str} (h : Joined s) (hlast : ∀ c ∈ s.getLast?, isSlugChar c = true)
    (hfirst : begins = true → ∃ c ∈ s.head?, isSlugChar c = true) : matchesFrom begins s = true := by
  induction s generalizing begins with
  | nil =>
      cases begins with
      | false => rfl
      | true => simp at hfirst
  | cons c s ih =>
      obtain ⟨hc, hs⟩ := List.forall_mem_cons.1 h.chars
      have htail : Joined s := ⟨hs, h.single.tail⟩
      have hlast' : ∀ d ∈ s.getLast?, isSlugChar d = true := by
        intro d hd
        cases s with
        | nil => cases hd
        | cons e s => exact hlast d (by rwa [List.getLast?_cons_cons])
      rw [matchesFrom]
      split
      · exact ih htail hlast' (by simp)
      · rename_i hslug
        obtain rfl := hc.resolve_left hslug
        cases begins with
        | true =>
            obtain ⟨d, hd, hslug'⟩ := hfirst rfl
            obtain rfl : '-' = d := by simpa using hd
            exact absurd hslug' hslug
        | false =>
            refine ih htail hlast' fun _ => ?_
            cases s with
            | nil => exact absurd (hlast '-' rfl) hslug
            | cons d s => exact ⟨d, rfl, (List.isChain_cons_cons.1 h.single).1.resolve_left hslug⟩

theorem Shaped.isSlug {s : Str} (h : Shaped s) : IsSlug s := by
  refine matchesSlug_iff.1 (matchesFrom_of_joined h.toJoined (fun c hc => ?_) fun _ => h.first)
  obtain ⟨d, hd, hslug⟩ := h.last
  rwa [Option.mem_unique hc hd]

/-! ## `slugify` -/

theorem joined_hyphenate (inRun : Bool) (s : JsString) :
    Joined (hyphenate inRun s) ∧ (inRun = true → ∀ c ∈ (hyphenate inRun s).head?, isSlugChar c = true) := by
  induction s generalizing inRun with
  | nil => exact ⟨⟨by simp [hyphenate], by simp [hyphenate]⟩, by simp [hyphenate]⟩
  | cons u s ih =>
      unfold hyphenate
      dsimp only
      split
      · rename_i hc
        obtain ⟨hchars, hsingle⟩ := (ih false).1
        refine ⟨⟨List.forall_mem_cons.2 ⟨.inl hc, hchars⟩, List.isChain_cons.2 ⟨fun _ _ => .inl hc, hsingle⟩⟩, ?_⟩
        rintro - c ⟨⟩
        exact hc
      split
      · obtain ⟨hjoined, hhead⟩ := ih true
        exact ⟨hjoined, fun _ => hhead rfl⟩
      · rename_i hrun
        obtain ⟨⟨hchars, hsingle⟩, hhead⟩ := ih true
        refine ⟨⟨List.forall_mem_cons.2 ⟨.inr rfl, hchars⟩, List.isChain_cons.2 ⟨?_, hsingle⟩⟩, fun h => absurd h hrun⟩
        exact fun c hc => .inr (hhead rfl c hc)

theorem Joined.part {s t : Str} (h : Joined s) (ht : t <:+: s) : Joined t :=
  ⟨fun c hc => h.chars c (ht.subset hc), List.IsChain.infix h.single ht⟩

theorem Joined.isSlugChar {s : Str} (h : Joined s) {c : Char} (hc : c ∈ s) (hne : (c == '-') = false) :
    isSlugChar c = true := by
  rcases h.chars c hc with hslug | rfl
  · exact hslug
  · cases hne

/-- What is left of a text that has been stripped and cut. -/
theorem shaped_stripRight {s : Str} (h : Joined s) (n : ℕ) (hne : stripRight ((strip s).take n) ≠ []) :
    Shaped (stripRight ((strip s).take n)) ∧ (stripRight ((strip s).take n)).length ≤ n := by
  have hstart : stripRight ((strip s).take n) <+: s.dropWhile (· == '-') :=
    (List.rdropWhile_prefix _ _).trans ((List.take_prefix _ _).trans (List.rdropWhile_prefix _ _))
  have hjoined : Joined (stripRight ((strip s).take n)) :=
    h.part (hstart.isInfix.trans (List.dropWhile_suffix _).isInfix)
  refine ⟨⟨hjoined, ?_, ?_⟩, ?_⟩
  · have hdrop : s.dropWhile (· == '-') ≠ [] := fun hnil => hne (List.prefix_nil.1 (hnil ▸ hstart))
    have hhead := List.head_dropWhile_not (· == '-') hdrop
    have hsame : (stripRight ((strip s).take n)).head hne = (s.dropWhile (· == '-')).head hdrop := hstart.head hne
    exact ⟨_, List.head?_eq_some_head hne, hjoined.isSlugChar (List.head_mem hne) (by rw [hsame, hhead])⟩
  · have hlast := List.rdropWhile_last_not (· == '-') ((strip s).take n) hne
    exact ⟨_, List.getLast?_eq_some_getLast hne, hjoined.isSlugChar (List.getLast_mem hne) (Bool.not_eq_true _ ▸ hlast)⟩
  · exact ((List.rdropWhile_prefix _ _).length_le).trans (List.length_take_le _ _)

theorem slugify_shaped (unicode : Unicode) (title : JsString) :
    Shaped (slugify unicode title) ∧ (slugify unicode title).length ≤ MAX_LENGTH := by
  unfold slugify
  dsimp only
  split
  · exact ⟨⟨⟨by decide, by simp [isSlugChar]⟩, ⟨'p', rfl, by decide⟩, ⟨'t', rfl, by decide⟩⟩, by decide⟩
  · rename_i hne
    exact shaped_stripRight (joined_hyphenate false _).1 MAX_LENGTH hne

/-- Lower-case letters, digits and hyphens are neither decomposed nor changed in case. -/
structure Unicode.Plain (unicode : Unicode) : Prop where
  nfkd : ∀ s : Str, (∀ c ∈ s, isSlugChar c = true ∨ c = '-') → unicode.nfkd (JsString.ofChars s) = JsString.ofChars s
  toLowerCase : ∀ s : Str, (∀ c ∈ s, isSlugChar c = true ∨ c = '-') →
    unicode.toLowerCase (JsString.ofChars s) = JsString.ofChars s

theorem toNat_le_of_isSlugChar {c : Char} (h : isSlugChar c = true ∨ c = '-') : c.toNat ≤ 122 := by
  rcases h with h | rfl
  · simp only [isSlugChar, Bool.or_eq_true, Bool.and_eq_true, decide_eq_true_eq, Char.le_def,
      UInt32.le_iff_toNat_le] at h
    have hval : c.val.toNat = c.toNat := rfl
    have hcodes : 'z'.val.toNat = 122 ∧ '9'.val.toNat = 57 := by decide
    omega
  · decide

theorem ofChars_cons {c : Char} (h : c.toNat ≤ 122) (s : Str) :
    JsString.ofChars (c :: s) = UInt16.ofNat c.toNat :: JsString.ofChars s := by
  rw [JsString.ofChars_cons, codeUnits, if_pos (by omega), List.map_singleton, List.singleton_append]

theorem toNat_unit {c : Char} (h : c.toNat ≤ 122) : (UInt16.ofNat c.toNat).toNat = c.toNat :=
  UInt16.toNat_ofNat_of_lt' (Nat.lt_of_le_of_lt h (by decide))

theorem mem_ofChars {s : Str} (h : ∀ c ∈ s, c.toNat ≤ 122) {u : UInt16} (hu : u ∈ JsString.ofChars s) :
    ∃ c ∈ s, u.toNat = c.toNat := by
  induction s with
  | nil => cases hu
  | cons c s ih =>
      obtain ⟨hc, hs⟩ := List.forall_mem_cons.1 h
      rw [ofChars_cons hc, List.mem_cons] at hu
      rcases hu with rfl | hu
      · exact ⟨c, by simp, toNat_unit hc⟩
      · obtain ⟨d, hd, hu⟩ := ih hs hu
        exact ⟨d, by simp [hd], hu⟩

theorem hyphenate_ofChars {s : Str} (h : Joined s) (inRun : Bool)
    (hrun : inRun = true → ∀ c ∈ s.head?, isSlugChar c = true) : hyphenate inRun (JsString.ofChars s) = s := by
  induction s generalizing inRun with
  | nil => rfl
  | cons c s ih =>
      obtain ⟨hc, hs⟩ := List.forall_mem_cons.1 h.chars
      obtain ⟨hnext, hsingle⟩ := List.isChain_cons.1 h.single
      have hle := toNat_le_of_isSlugChar hc
      rw [ofChars_cons hle, hyphenate, toNat_unit hle, Char.ofNat_toNat]
      split
      · rw [ih ⟨hs, hsingle⟩ false (by simp)]
      · rename_i hslug
        obtain rfl := hc.resolve_left hslug
        rw [if_neg fun hin => hslug (hrun hin '-' rfl)]
        rw [ih ⟨hs, hsingle⟩ true fun _ d hd => (hnext d hd).resolve_left hslug]

theorem strip_of_shaped {s : Str} (h : Shaped s) : strip s = s ∧ stripRight s = s := by
  have hhyphen : ∀ {c : Char}, isSlugChar c = true → ¬ (c == '-') = true := by
    intro c hc heq
    rw [beq_iff_eq.1 heq] at hc
    exact absurd hc (by decide)
  have hright : stripRight s = s := by
    refine List.rdropWhile_eq_self_iff.2 fun hne => ?_
    obtain ⟨c, hc, hslug⟩ := h.last
    obtain rfl : s.getLast hne = c := by simpa [List.getLast?_eq_some_getLast hne] using hc
    exact hhyphen hslug
  have hleft : s.dropWhile (· == '-') = s := by
    obtain ⟨c, hc, hslug⟩ := h.first
    cases s with
    | nil => cases hc
    | cons d s =>
        obtain rfl : d = c := by simpa using hc
        exact List.dropWhile_cons_of_neg (hhyphen hslug)
  exact ⟨by rw [strip, hleft, hright], hright⟩

/-- A short slug is its own slug. -/
theorem slugify_of_shaped {unicode : Unicode} (hplain : unicode.Plain) {s : Str} (h : Shaped s)
    (hlength : s.length ≤ MAX_LENGTH) : slugify unicode (JsString.ofChars s) = s := by
  have hne : s ≠ [] := by
    rintro rfl
    obtain ⟨c, hc, -⟩ := h.first
    cases hc
  have hmarks : (JsString.ofChars s).filter (fun u => !isMark u) = JsString.ofChars s := by
    refine List.filter_eq_self.2 fun u hu => ?_
    obtain ⟨c, hc, hu⟩ := mem_ofChars (fun c hc => toNat_le_of_isSlugChar (h.chars c hc)) hu
    have hle := toNat_le_of_isSlugChar (h.chars c hc)
    rw [isMark, decide_eq_false (by omega), Bool.false_and, Bool.not_false]
  have hslug : stripRight ((strip (hyphenate false (JsString.ofChars s))).take MAX_LENGTH) = s := by
    rw [hyphenate_ofChars h.toJoined false (by simp), (strip_of_shaped h).1, List.take_of_length_le hlength,
      (strip_of_shaped h).2]
  unfold slugify
  dsimp only
  rw [hplain.nfkd s h.chars, hmarks, hplain.toLowerCase s h.chars, hslug, if_neg hne]

/-! ## `uniqueSlug` -/

/-- The first of `base`, `base-2`, `base-3`, … that is not taken. -/
def IsFirstFree (base : Str) (taken : List Str) (slug : Str) : Prop :=
  slug ∉ taken ∧ (slug = base ∨ base ∈ taken ∧ ∃ n, 2 ≤ n ∧ n ≤ taken.length + 2 ∧ slug = candidate base n ∧
    ∀ m, 2 ≤ m → m < n → candidate base m ∈ taken)

theorem candidate_injective (base : Str) : Function.Injective (candidate base) := by
  intro m n h
  have hdigits := (List.cons.inj (List.append_cancel_left h)).2
  have hvalues := congrArg (fun t => Nat.ofDigitChars 10 t 0) hdigits
  simpa only [Nat.ofDigitChars_ten_toDigits] using hvalues

/-- A loop that is still running has seen as many taken slugs as it has made rounds. -/
theorem firstFree_eq_none {base : Str} {taken : List Str} {rounds n : ℕ} (h : firstFree base taken rounds n = none) :
    (List.range' n rounds).map (candidate base) ⊆ taken := by
  induction rounds generalizing n with
  | zero => exact List.nil_subset _
  | succ rounds ih =>
      rw [firstFree] at h
      split at h
      · rename_i htaken
        rw [List.range'_succ, List.map_cons]
        exact List.cons_subset.2 ⟨htaken, ih h⟩
      · cases h

theorem firstFree_ends {base : Str} {taken : List Str} {rounds : ℕ} (hrounds : taken.length < rounds) (n : ℕ) :
    (firstFree base taken rounds n).isSome = true := by
  by_contra hnone
  rw [Bool.not_eq_true, Option.isSome_eq_false_iff, Option.isNone_iff_eq_none] at hnone
  have hnodup : ((List.range' n rounds).map (candidate base)).Nodup :=
    (List.nodup_range' (s := n)).map (candidate_injective base)
  have hle := List.Nodup.length_le_of_subset hnodup (firstFree_eq_none hnone)
  rw [List.length_map, List.length_range'] at hle
  omega

theorem firstFree_spec {base : Str} {taken : List Str} {rounds n : ℕ} {slug : Str}
    (h : firstFree base taken rounds n = some slug) :
    slug ∉ taken ∧ ∃ k, n ≤ k ∧ k < n + rounds ∧ slug = candidate base k ∧
      ∀ m, n ≤ m → m < k → candidate base m ∈ taken := by
  induction rounds generalizing n with
  | zero => cases h
  | succ rounds ih =>
      rw [firstFree] at h
      split at h
      · rename_i htaken
        obtain ⟨hfree, k, hnk, hk, hslug, hbelow⟩ := ih h
        refine ⟨hfree, k, by omega, by omega, hslug, fun m hm hmk => ?_⟩
        rcases Nat.eq_or_lt_of_le hm with rfl | hm
        · exact htaken
        · exact hbelow m hm hmk
      · rename_i hfree
        obtain rfl := Option.some.inj h
        exact ⟨hfree, n, Nat.le_refl n, by omega, rfl, fun m hm hmn => by omega⟩

theorem firstFree_more {base : Str} {taken : List Str} {rounds n : ℕ} {slug : Str}
    (h : firstFree base taken rounds n = some slug) (k : ℕ) : firstFree base taken (rounds + k) n = some slug := by
  induction rounds generalizing n with
  | zero => cases h
  | succ rounds ih =>
      rw [Nat.succ_add, firstFree]
      rw [firstFree] at h
      split
      · rename_i htaken
        rw [if_pos htaken] at h
        exact ih h
      · rename_i hfree
        rwa [if_neg hfree] at h

/-- The loop ends with the first slug that is free. -/
theorem uniqueSlug_spec (base : Str) (taken : List Str) :
    IsFirstFree base taken (uniqueSlug base taken) ∧
      ∀ rounds, taken.length < rounds → uniqueSlugIn rounds base taken = some (uniqueSlug base taken) := by
  unfold uniqueSlug uniqueSlugIn
  split
  · rename_i hbase
    have hends : (firstFree base taken (taken.length + 1) 2).isSome = true := firstFree_ends (Nat.lt_succ_self _) 2
    obtain ⟨slug, hslug⟩ := Option.isSome_iff_exists.1 hends
    obtain ⟨hfree, k, hk, hbound, hcandidate, hbelow⟩ := firstFree_spec hslug
    rw [hslug, Option.getD_some]
    refine ⟨⟨hfree, .inr ⟨hbase, k, hk, by omega, hcandidate, hbelow⟩⟩, fun rounds hrounds => ?_⟩
    obtain ⟨extra, rfl⟩ := Nat.exists_eq_add_of_le (Nat.succ_le_of_lt hrounds)
    exact firstFree_more hslug extra
  · rename_i hbase
    exact ⟨⟨hbase, .inl rfl⟩, fun _ _ => rfl⟩

/-- One more group after a slug. -/
theorem Shaped.append {s w : Str} (h : Shaped s) (hne : w ≠ []) (hw : ∀ c ∈ w, isSlugChar c = true) :
    Shaped (s ++ '-' :: w) := by
  have hchain : w.IsChain fun c d => isSlugChar c = true ∨ isSlugChar d = true :=
    (List.pairwise_of_forall_mem_list fun c hc _ _ => .inl (hw c hc)).isChain
  refine ⟨⟨fun c hc => ?_, List.isChain_append.2 ⟨h.single, List.isChain_cons.2 ⟨?_, hchain⟩, ?_⟩⟩, ?_, ?_⟩
  · rcases List.mem_append.1 hc with hc | hc
    · exact h.chars c hc
    · exact (List.mem_cons.1 hc).symm.imp_left (hw c)
  · exact fun d hd => .inr (hw d (List.mem_of_head? hd))
  · intro c hc d _
    obtain ⟨e, he, hslug⟩ := h.last
    exact .inl (Option.mem_unique hc he ▸ hslug)
  · obtain ⟨c, hc, hslug⟩ := h.first
    exact ⟨c, by rw [List.head?_append, hc]; rfl, hslug⟩
  · refine ⟨_, List.getLast?_eq_some_getLast (by simp), hw _ ?_⟩
    rw [List.getLast_append_of_ne_nil (by simp) (by simp), List.getLast_cons hne]
    exact List.getLast_mem hne

theorem candidate_shaped {base : Str} (h : Shaped base) (n : ℕ) : Shaped (candidate base n) := by
  refine h.append Nat.toDigits_ne_nil fun c hc => ?_
  have hdecimal := Nat.isDigit_of_mem_toDigits (by decide) (by decide) hc
  simp only [Char.isDigit, Bool.and_eq_true, decide_eq_true_eq] at hdecimal
  simp only [isSlugChar, Bool.or_eq_true, Bool.and_eq_true, decide_eq_true_eq, Char.le_def]
  exact .inr hdecimal

theorem length_candidate {base : Str} {n k : ℕ} (hk : 0 < k) (hn : n < 10 ^ k) :
    (candidate base n).length ≤ base.length + 1 + k := by
  have hdigits : (Nat.toDigits 10 n).length ≤ k := (Nat.length_toDigits_le_iff (by decide) hk).2 hn
  rw [candidate, List.length_append, List.length_cons]
  omega

/-- A free slug is longer than its base by a hyphen and a number at most. -/
theorem IsFirstFree.shaped {base slug : Str} {taken : List Str} (h : IsFirstFree base taken slug) (hbase : Shaped base)
    {k : ℕ} (hk : 0 < k) (htaken : taken.length + 2 < 10 ^ k) : Shaped slug ∧ slug.length ≤ base.length + 1 + k := by
  rcases h.2 with rfl | ⟨-, n, -, hn, rfl, -⟩
  · exact ⟨hbase, by omega⟩
  · exact ⟨candidate_shaped hbase n, length_candidate hk (by omega)⟩

end Emis.Posts
