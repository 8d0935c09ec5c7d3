import Emis.PublicSite.FeedText

/-!
# Which feeds can be read

A reader of the feed sees what is written if no string has a character that `ILLEGAL` forgets,
nor a carriage return, which readers of XML take for the end of a line.
-/

namespace Emis.PublicSite

open Xml

/-! ## `xmlEscape` -/

def SPECIAL : Str := ['&', '<', '>', '\x22', '\'']

/-- What is left of a code unit. -/
def escapeUnit (u : UInt16) : JsString :=
  if (SPECIAL.map Char.toNat).contains u.toNat then JsString.ofChars (charText (Char.ofNat u.toNat)) else [u]

def kept (value : JsString) : JsString := value.filter fun u => !isIllegal u

theorem replaceAll_append (c : Char) (entity : Str) (s t : JsString) :
    replaceAll c entity (s ++ t) = replaceAll c entity s ++ replaceAll c entity t := List.flatMap_append

/-- The replacements, one after the other. -/
def replaced (s : JsString) : JsString :=
  replaceAll '\'' ['&', 'a', 'p', 'o', 's', ';'] (replaceAll '\x22' ['&', 'q', 'u', 'o', 't', ';']
    (replaceAll '>' ['&', 'g', 't', ';'] (replaceAll '<' ['&', 'l', 't', ';']
      (replaceAll '&' ['&', 'a', 'm', 'p', ';'] s))))

theorem replaced_append (s t : JsString) : replaced (s ++ t) = replaced s ++ replaced t := by
  simp only [replaced, replaceAll_append]

theorem replaceAll_singleton {c : Char} {u : UInt16} (h : u.toNat ≠ c.toNat) (entity : Str) :
    replaceAll c entity [u] = [u] := by
  rw [replaceAll, List.flatMap_singleton, if_neg h]

/-- None of them touches what another one has written. -/
theorem replaced_singleton (u : UInt16) : replaced [u] = escapeUnit u := by
  by_cases hspecial : (SPECIAL.map Char.toNat).contains u.toNat = true
  · have hlist : ∀ n ∈ SPECIAL.map Char.toNat, replaced [UInt16.ofNat n] = escapeUnit (UInt16.ofNat n) := by decide
    have hu := hlist u.toNat (List.contains_iff_mem.1 hspecial)
    rwa [UInt16.ofNat_toNat] at hu
  · have hne : ∀ c ∈ SPECIAL, u.toNat ≠ c.toNat := by
      intro c hc heq
      exact hspecial (List.contains_iff_mem.2 (List.mem_map.2 ⟨c, hc, heq.symm⟩))
    rw [escapeUnit, if_neg hspecial, replaced, replaceAll_singleton (hne '&' (by decide)),
      replaceAll_singleton (hne '<' (by decide)), replaceAll_singleton (hne '>' (by decide)),
      replaceAll_singleton (hne '\x22' (by decide)), replaceAll_singleton (hne '\'' (by decide))]

theorem xmlEscape_eq (value : JsString) : xmlEscape value = (kept value).flatMap escapeUnit := by
  have hreplaced : ∀ s : JsString, replaced s = s.flatMap escapeUnit := by
    intro s
    induction s with
    | nil => rfl
    | cons u s ih =>
        have hsplit := replaced_append [u] s
        rw [List.singleton_append, replaced_singleton, ih] at hsplit
        rw [hsplit, List.flatMap_cons]
  exact hreplaced (kept value)

/-! ## Characters and halves of characters -/

def escapePoint : CodePoint → List CodePoint
  | .scalar c => (charText c).map .scalar
  | .lone u h => [.lone u h]

theorem charText_of_notMem {c : Char} (h : c ∉ SPECIAL) : charText c = [c] := by
  have hlist : ∀ e ∈ entities, e.2 ∈ SPECIAL := by decide
  have hnone : (entities.find? fun e => e.2 == c) = none := by
    refine List.find?_eq_none.2 fun e he heq => h ?_
    rw [← beq_iff_eq.1 heq]
    exact hlist e he
  rw [charText, hnone]

theorem toNat_lt_of_mem {c : Char} (h : c ∈ SPECIAL) : c.toNat < 0x80 := by
  revert c
  decide

/-- A code unit by itself. -/
theorem escapePoint_single (u : UInt16) :
    escapeUnit u = [u] ∧ escapePoint (JsString.single u) = [JsString.single u] ∨
      u.toNat < 0x80 ∧ ∃ c ∈ SPECIAL, JsString.single u = .scalar c ∧ escapeUnit u = JsString.ofChars (charText c) := by
  by_cases hspecial : (SPECIAL.map Char.toNat).contains u.toNat = true
  · right
    obtain ⟨c, hc, hu⟩ := List.mem_map.1 (List.contains_iff_mem.1 hspecial)
    have hlt := toNat_lt_of_mem hc
    refine ⟨by omega, c, hc, ?_, ?_⟩
    · rw [JsString.single, dif_neg (by omega), ← hu, Char.ofNat_toNat]
    · rw [escapeUnit, if_pos hspecial, ← hu, Char.ofNat_toNat]
  · left
    refine ⟨by rw [escapeUnit, if_neg hspecial], ?_⟩
    unfold JsString.single
    split
    · rfl
    · rename_i hscalar
      have hvalid : u.toNat.isValidChar := by
        have hu := u.toNat_lt
        rcases not_and_or.1 hscalar with hlow | hhigh
        · exact .inl (by omega)
        · exact .inr ⟨by omega, by omega⟩
      have hnot : Char.ofNat u.toNat ∉ SPECIAL := fun hmem => by
        refine hspecial (List.contains_iff_mem.2 (List.mem_map.2 ⟨_, hmem, ?_⟩))
        exact JsString.toNat_ofNat hvalid
      rw [escapePoint, charText_of_notMem hnot]
      rfl

theorem head_escapeUnit (u : UInt16) (s : JsString) :
    ∀ v ∈ (escapeUnit u ++ s).head?, v = u ∨ v = 0x26 := by
  intro v hv
  rcases escapePoint_single u with ⟨hunit, -⟩ | ⟨-, c, hc, -, hunit⟩
  · rw [hunit] at hv
    exact .inl (by simpa using hv.symm)
  · have hlist : ∀ c ∈ SPECIAL, (JsString.ofChars (charText c)).head? = some 0x26 := by decide
    rw [hunit, List.head?_append, hlist c hc] at hv
    exact .inr (by simpa using hv.symm)

/-- Escaping is done character by character. -/
theorem codePoints_escape (s : JsString) :
    JsString.codePoints (s.flatMap escapeUnit) = s.codePoints.flatMap escapePoint := by
  induction s using JsString.codePoints.induct with
  | case1 => rfl
  | case2 u =>
      rw [List.flatMap_singleton, JsString.codePoints, List.flatMap_singleton]
      rcases escapePoint_single u with ⟨hunit, hpoint⟩ | ⟨-, c, -, hsingle, hunit⟩
      · rw [hunit, hpoint]
        rfl
      · rw [hunit, hsingle, JsString.codePoints_ofChars]
        rfl
  | case3 u v rest h ih =>
      obtain ⟨hu, hv⟩ := Bool.and_eq_true_iff.1 h
      have hlarge : ∀ w : UInt16, 0xD800 ≤ w.toNat → escapeUnit w = [w] := by
        intro w hw
        rcases escapePoint_single w with ⟨hunit, -⟩ | ⟨hlt, -⟩
        · exact hunit
        · omega
      simp only [isHighSurrogate, isLowSurrogate, Bool.and_eq_true, decide_eq_true_eq] at hu hv
      rw [List.flatMap_cons, List.flatMap_cons, hlarge u hu.1, hlarge v (by omega), List.singleton_append,
        List.singleton_append, JsString.codePoints, if_pos h, ih, JsString.codePoints, if_pos h, List.flatMap_cons,
        escapePoint, charText_of_notMem]
      · rfl
      · intro hmem
        have hlt := toNat_lt_of_mem hmem
        rw [JsString.toNat_ofNat (.inr ⟨by omega, by omega⟩)] at hlt
        omega
  | case4 u v rest h ih =>
      have hunits : (u :: v :: rest).flatMap escapeUnit = escapeUnit u ++ (v :: rest).flatMap escapeUnit :=
        List.flatMap_cons
      have hpoints : JsString.codePoints (u :: v :: rest) = JsString.single u :: JsString.codePoints (v :: rest) := by
        rw [JsString.codePoints, if_neg h]
      have hescape : (JsString.single u :: JsString.codePoints (v :: rest)).flatMap escapePoint =
          escapePoint (JsString.single u) ++ (JsString.codePoints (v :: rest)).flatMap escapePoint := List.flatMap_cons
      rw [hunits, hpoints, hescape, ← ih]
      rcases escapePoint_single u with ⟨hunit, hpoint⟩ | ⟨-, c, -, hsingle, hunit⟩
      · rw [hunit, hpoint, List.singleton_append, List.singleton_append]
        refine JsString.codePoints_cons fun w hw => ?_
        rw [List.flatMap_cons] at hw
        rcases head_escapeUnit v _ w hw with rfl | rfl
        · exact Bool.not_eq_true _ ▸ h
        · exact Bool.and_false _
      · rw [hunit, hsingle, JsString.codePoints_ofChars_append]
        rfl

end Emis.PublicSite
