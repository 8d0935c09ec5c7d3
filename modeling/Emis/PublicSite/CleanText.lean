import Emis.PublicSite.WellFormedFeed

/-!
# Strings that the feed repeats as they are
-/

namespace Emis.PublicSite

open Xml

/-- What `ILLEGAL` leaves of a code point. -/
def keptUnits (p : CodePoint) : List ℕ := p.units.filter fun n => !isIllegal (UInt16.ofNat n)

/-- What XML leaves of it. -/
def allowedUnits : CodePoint → List ℕ
  | .scalar c => if isChar c then codeUnits c else []
  | .lone _ _ => []

/-- A character that is no noncharacter of the first plane. -/
def Whole (p : CodePoint) : Prop := ∃ c, p = .scalar c ∧ c ≠ '\uFFFE' ∧ c ≠ '\uFFFF'

theorem toNat_kept (s : JsString) : (kept s).map UInt16.toNat = s.codePoints.flatMap keptUnits := by
  have hunits : s.codePoints.flatMap keptUnits =
      (s.map UInt16.toNat).filter fun n => !isIllegal (UInt16.ofNat n) := by
    rw [← JsString.units_codePoints, List.filter_flatMap]
    rfl
  rw [hunits, List.filter_map, kept]
  simp [Function.comp_def]

theorem toNat_allowed (s : JsString) :
    (JsString.ofChars (allowed s)).map UInt16.toNat = s.codePoints.flatMap allowedUnits := by
  rw [← JsString.units_codePoints, JsString.codePoints_ofChars, allowed]
  induction s.codePoints with
  | nil => rfl
  | cons p ps ih =>
      cases p with
      | scalar c =>
          by_cases hc : isChar c = true
          · simp [hc, allowedUnits, CodePoint.units, ih]
          · simp [hc, allowedUnits, ih]
      | lone u h => simp [allowedUnits, ih]

theorem isChar_iff (c : Char) : isChar c = true ↔
    c.toNat = 9 ∨ c.toNat = 10 ∨ c.toNat = 13 ∨ 0x20 ≤ c.toNat ∧ c.toNat ≠ 0xFFFE ∧ c.toNat ≠ 0xFFFF := by
  have hvalid : c.toNat < 0xD800 ∨ 0xDFFF < c.toNat ∧ c.toNat < 0x110000 := c.valid
  simp only [isChar, Bool.or_eq_true, Bool.and_eq_true, decide_eq_true_eq, beq_iff_eq, ← Char.toNat_inj]
  have htab : '\t'.toNat = 9 ∧ '\n'.toNat = 10 ∧ '\r'.toNat = 13 := by decide
  omega

theorem isIllegal_iff (u : UInt16) :
    isIllegal u = true ↔ u.toNat < 0x20 ∧ u.toNat ≠ 9 ∧ u.toNat ≠ 10 ∧ u.toNat ≠ 13 := by
  simp only [isIllegal, Bool.or_eq_true, Bool.and_eq_true, decide_eq_true_eq, List.contains_iff_mem, List.mem_cons,
    List.not_mem_nil, or_false]
  omega

theorem keptUnits_singleton {p : CodePoint} {n : ℕ} (hp : p.units = [n]) (hn : n < 0x10000)
    (hlegal : n < 0x20 → n = 9 ∨ n = 10 ∨ n = 13) : keptUnits p = [n] := by
  have hunit : (UInt16.ofNat n).toNat = n := UInt16.toNat_ofNat_of_lt' hn
  have hfalse : isIllegal (UInt16.ofNat n) = false := by
    rw [← Bool.not_eq_true, isIllegal_iff, hunit]
    omega
  rw [keptUnits, hp, List.filter_singleton, hfalse]
  rfl

theorem keptUnits_scalar {c : Char} (hne : c ≠ '\uFFFE' ∧ c ≠ '\uFFFF') :
    keptUnits (.scalar c) = allowedUnits (.scalar c) := by
  have hnat : c.toNat ≠ 0xFFFE ∧ c.toNat ≠ 0xFFFF := by
    rw [ne_eq, ne_eq, ← Char.toNat_inj, ← Char.toNat_inj] at hne
    exact hne
  have hunits : (CodePoint.scalar c).units = codeUnits c := rfl
  rw [allowedUnits]
  by_cases hsmall : c.toNat < 0x10000
  · rw [codeUnits, if_pos hsmall] at hunits ⊢
    split
    · rename_i hchar
      rw [isChar_iff] at hchar
      exact keptUnits_singleton hunits hsmall (by omega)
    · rename_i hchar
      rw [isChar_iff] at hchar
      have hillegal : isIllegal (UInt16.ofNat c.toNat) = true := by
        rw [isIllegal_iff, UInt16.toNat_ofNat_of_lt' hsmall]
        omega
      rw [keptUnits, hunits, List.filter_singleton, hillegal]
      rfl
  · have hvalid : c.toNat < 0x110000 := by
      have hc : c.toNat < 0xD800 ∨ 0xDFFF < c.toNat ∧ c.toNat < 0x110000 := c.valid
      omega
    rw [if_pos ((isChar_iff c).2 (by omega)), keptUnits, hunits, List.filter_eq_self]
    intro n hn
    rw [codeUnits, if_neg hsmall] at hn
    simp only [List.mem_cons, List.not_mem_nil, or_false] at hn
    rw [Bool.not_eq_true', ← Bool.not_eq_true, isIllegal_iff, UInt16.toNat_ofNat_of_lt']
    · omega
    · change n < 65536
      omega

/-- The one keeps more than the other where a code point is not whole. -/
theorem units_cases (p : CodePoint) :
    Whole p ∧ keptUnits p = allowedUnits p ∨ ¬ Whole p ∧ (keptUnits p).length = 1 ∧ allowedUnits p = [] := by
  cases p with
  | scalar c =>
      by_cases hne : c ≠ '\uFFFE' ∧ c ≠ '\uFFFF'
      · exact .inl ⟨⟨c, rfl, hne⟩, keptUnits_scalar hne⟩
      · refine .inr ⟨?_, ?_⟩
        · rintro ⟨d, hd, hwhole⟩
          obtain rfl := CodePoint.scalar.inj hd
          exact hne hwhole
        · rcases not_and_or.1 hne with hc | hc <;> rw [not_not.1 hc] <;> decide
  | lone u h =>
      refine .inr ⟨?_, ?_, rfl⟩
      · rintro ⟨c, hc, -⟩
        cases hc
      · rw [keptUnits_singleton (p := .lone u h) rfl u.toNat_lt (by omega)]
        rfl

theorem length_eq_of_flatMap {α β : Type} {f g : α → List β} {l : List α} (hle : ∀ a ∈ l, (f a).length ≤ (g a).length)
    (heq : (l.flatMap f).length = (l.flatMap g).length) : ∀ a ∈ l, (f a).length = (g a).length := by
  have hsum : ∀ {l : List α}, (∀ a ∈ l, (f a).length ≤ (g a).length) → (l.flatMap f).length ≤ (l.flatMap g).length := by
    intro l hle
    induction l with
    | nil => exact le_rfl
    | cons a l ih =>
        obtain ⟨ha, hl⟩ := List.forall_mem_cons.1 hle
        simp only [List.flatMap_cons, List.length_append]
        exact Nat.add_le_add ha (ih hl)
  induction l with
  | nil => exact fun a ha => absurd ha List.not_mem_nil
  | cons a l ih =>
      obtain ⟨ha, hl⟩ := List.forall_mem_cons.1 hle
      simp only [List.flatMap_cons, List.length_append] at heq
      have hrest := hsum hl
      exact List.forall_mem_cons.2 ⟨by omega, ih hl (by omega)⟩

/-- `xmlEscape` keeps the characters that XML allows, and no others, of a string of whole characters only. -/
theorem kept_eq_allowed_iff (s : JsString) :
    kept s = JsString.ofChars (allowed s) ↔ ∀ p ∈ s.codePoints, Whole p := by
  have hnat : kept s = JsString.ofChars (allowed s) ↔
      s.codePoints.flatMap allowedUnits = s.codePoints.flatMap keptUnits := by
    rw [← toNat_kept, ← toNat_allowed]
    exact ⟨fun h => by rw [h], fun h => (List.map_injective_iff.2 (fun u v => UInt16.toNat_inj.1) h).symm⟩
  rw [hnat]
  constructor
  · intro heq p hp
    have hlength := length_eq_of_flatMap (fun q _ => ?_) (congrArg List.length heq) p hp
    · rcases units_cases p with ⟨hwhole, -⟩ | ⟨-, hone, hnil⟩
      · exact hwhole
      · rw [hone, hnil] at hlength
        cases hlength
    · rcases units_cases q with ⟨-, heq⟩ | ⟨-, -, hnil⟩
      · rw [heq]
      · rw [hnil]
        exact Nat.zero_le _
  · intro hwhole
    refine List.flatMap_congr fun p hp => ?_
    rcases units_cases p with ⟨-, heq⟩ | ⟨hnot, -⟩
    · exact heq.symm
    · exact absurd (hwhole p hp) hnot

/-! ## What a reader is told of a string -/

/-- The characters in the feed, if there are no halves. -/
def told (s : JsString) : Str := (kept s).toWellFormed

theorem mem_allowed {c : Char} {s : JsString} : c ∈ allowed s ↔ .scalar c ∈ s.codePoints ∧ isChar c = true := by
  rw [allowed, List.mem_filterMap]
  constructor
  · rintro ⟨p, hp, heq⟩
    cases p with
    | scalar d =>
        simp only [Option.ite_none_right_eq_some, Option.some.injEq] at heq
        obtain ⟨hchar, rfl⟩ := heq
        exact ⟨hp, hchar⟩
    | lone u h => cases heq
  · rintro ⟨hp, hchar⟩
    exact ⟨_, hp, by simp [hchar]⟩

/-- A carriage return stays where it is. -/
theorem cr_mem_of_told {s : JsString} (h : '\r' ∈ told s) : .scalar '\r' ∈ s.codePoints := by
  have hunit : ∀ {t : JsString}, .scalar '\r' ∈ t.codePoints ↔ (13 : UInt16) ∈ t := by
    intro t
    have hnat : (13 : UInt16) ∈ t ↔ 13 ∈ t.codePoints.flatMap CodePoint.units := by
      rw [JsString.units_codePoints, List.mem_map]
      constructor
      · exact fun hmem => ⟨13, hmem, rfl⟩
      · rintro ⟨u, hu, heq⟩
        rwa [← show u = 13 from UInt16.toNat_inj.1 heq]
    rw [hnat, List.mem_flatMap]
    constructor
    · exact fun hmem => ⟨_, hmem, by decide⟩
    · rintro ⟨p, hp, hmem⟩
      cases p with
      | scalar c =>
          obtain rfl : c = '\r' := by
            rw [CodePoint.units, codeUnits] at hmem
            rw [← Char.toNat_inj]
            split at hmem
            · exact (List.mem_singleton.1 hmem).symm
            · simp only [List.mem_cons, List.not_mem_nil, or_false] at hmem
              omega
          exact hp
      | lone u h =>
          have hu := List.mem_singleton.1 hmem
          omega
  rw [told, JsString.toWellFormed, List.mem_map] at h
  obtain ⟨p, hp, heq⟩ := h
  cases p with
  | scalar c =>
      obtain rfl : c = '\r' := heq
      exact hunit.2 (List.mem_of_mem_filter (hunit.1 hp))
  | lone u h =>
      have hne : '\uFFFD' ≠ '\r' := by decide
      exact absurd heq hne

theorem Clean.kept_eq {s : JsString} (h : Clean s) : kept s = JsString.ofChars (allowed s) := by
  refine (kept_eq_allowed_iff s).2 fun p hp => ?_
  obtain ⟨c, rfl, hfffe, hffff, -⟩ := h p hp
  exact ⟨c, rfl, hfffe, hffff⟩

theorem Clean.told_eq {s : JsString} (h : Clean s) : told s = allowed s := by
  rw [told, h.kept_eq, JsString.toWellFormed_ofChars]

/-- A reader is told all that XML allows of a string if and only if the string is clean. -/
theorem clean_iff (s : JsString) : ((kept s).isWellFormed = true ∧ normalize (told s) = allowed s) ↔ Clean s := by
  constructor
  · rintro ⟨hformed, hsame⟩
    have hcr : .scalar '\r' ∉ s.codePoints := by
      intro hmem
      have hallowed : '\r' ∈ allowed s := mem_allowed.2 ⟨hmem, by decide⟩
      rw [← hsame] at hallowed
      exact notMem_normalizeFrom _ _ hallowed
    rw [normalize_of_notMem fun hmem => hcr (cr_mem_of_told hmem)] at hsame
    have hkept : kept s = JsString.ofChars (allowed s) := by
      rw [← hsame, told, JsString.ofChars_toWellFormed hformed]
    intro p hp
    obtain ⟨c, rfl, hfffe, hffff⟩ := (kept_eq_allowed_iff s).1 hkept p hp
    refine ⟨c, rfl, hfffe, hffff, ?_⟩
    rintro rfl
    exact hcr hp
  · intro hclean
    have hcr : '\r' ∉ allowed s := by
      intro hmem
      obtain ⟨c, hc, -, -, hne⟩ := hclean _ (mem_allowed.1 hmem).1
      exact hne (CodePoint.scalar.inj hc).symm
    refine ⟨?_, by rw [hclean.told_eq, normalize_of_notMem hcr]⟩
    rw [JsString.isWellFormed, hclean.kept_eq, JsString.codePoints_ofChars, List.all_map, List.all_eq_true]
    exact fun _ _ => rfl

end Emis.PublicSite
