import Emis.Common.CodedTable

/-!
# The history of a row

Requests that edit a row each name its version. The edits that go through name one
version after another, and the row is what they make of it: none is lost.
-/

namespace Emis

open Transactions

/-- An edit of the row `id`, which the client has seen at `version`. -/
structure Edit (ρ : Type) where
  id : Uuid
  version : ℕ
  values : ρ → ρ

variable {Q σ L ρ κ ε α : Type} (t : CodedTable σ L ρ κ) (edit? : Q → Option (Edit ρ))

/-- The edits of one row, in the order of the answers. -/
def editsOf (id : Uuid) (done : List (Q × α)) : List (Edit ρ) :=
  (done.filterMap fun p => edit? p.1).filter fun e => e.id == id

/-- A row after some edits. -/
def CodedTable.after (r : ρ) (edits : List (Edit ρ)) : ρ := edits.foldl (fun r e => t.edited e.values r) r

/-- The edits name the versions from the row's on, and the row is what they make of it. -/
structure InOrder (r : ρ) (edits : List (Edit ρ)) (d : σ) : Prop where
  versions : edits.map Edit.version = List.range' (t.version r) edits.length
  row : t.after r edits ∈ t.rows d

/-- Alone, an edit changes the row it names and another request changes none. -/
def EditsOnly (code : Q → Prog σ L ε α) (I : σ → Prop) : Prop :=
  ∀ q a d d', I d → (code q).alone d = (.ok a, d') → I d' ∧
    match edit? q with
    | some e => t.Edits e.values ∧ (∃ r ∈ t.rows d, t.id r = e.id ∧ t.version r = e.version) ∧
        t.rows d' = changeWhere (fun r => t.id r == e.id) (t.edited e.values) (t.rows d)
    | none => ∀ r ∈ t.rows d, r ∈ t.rows d'

section History

variable {t edit?} {r : ρ} {edits : List (Edit ρ)}

theorem after_snoc (e : Edit ρ) : t.after r (edits ++ [e]) = t.edited e.values (t.after r edits) := by
  simp [CodedTable.after]

theorem version_after (r : ρ) (edits : List (Edit ρ)) : t.version (t.after r edits) = t.version r + edits.length := by
  induction edits generalizing r with
  | nil => rfl
  | cons e edits ih =>
      rw [CodedTable.after, List.foldl_cons, ← CodedTable.after, ih, CodedTable.edited_version, List.length_cons]
      omega

theorem id_after (r : ρ) (h : ∀ e ∈ edits, t.Edits e.values) : t.id (t.after r edits) = t.id r := by
  induction edits generalizing r with
  | nil => rfl
  | cons e edits ih =>
      obtain ⟨he, hrest⟩ := List.forall_mem_cons.1 h
      rw [CodedTable.after, List.foldl_cons, ← CodedTable.after, ih _ hrest, he.edited_id]

theorem editsOf_snoc (id : Uuid) (done : List (Q × α)) (p : Q × α) : editsOf edit? id (done ++ [p]) =
    editsOf edit? id done ++ ((edit? p.1).toList.filter fun e => e.id == id) := by
  rw [editsOf, editsOf, List.filterMap_append, List.filter_append]
  cases hedit : edit? p.1 <;> simp [hedit]

variable {code : Q → Prog σ L ε α} {I : σ → Prop} {start d : σ} {done : List (Q × α)}

/-- No edit of a row is lost. -/
theorem edits_inOrder (hcode : EditsOnly t edit? code I) (hkept : ∀ d, I d → t.WellKept d) (hstart : I start)
    (h : Replay code start done d) (hr : r ∈ t.rows start) : InOrder t r (editsOf edit? (t.id r) done) d := by
  have hall : I d ∧ (∀ e ∈ editsOf edit? (t.id r) done, t.Edits e.values) ∧
      InOrder t r (editsOf edit? (t.id r) done) d := by
    refine h.history (G := fun done d => I d ∧ (∀ e ∈ editsOf edit? (t.id r) done, t.Edits e.values) ∧
      InOrder t r (editsOf edit? (t.id r) done) d) ?_ ⟨hstart, by simp [editsOf], by simp [editsOf], hr⟩
    rintro done q a d d' ⟨hd, hedits, hversions, hrow⟩ halone
    obtain ⟨hd', heffect⟩ := hcode q a d d' hd halone
    rw [editsOf_snoc]
    cases hedit : edit? q with
    | none =>
        rw [hedit] at heffect
        simpa using ⟨hd', hedits, hversions, heffect _ hrow⟩
    | some e =>
        rw [hedit] at heffect
        obtain ⟨he, ⟨s, hs, hsid, hsversion⟩, hrows⟩ := heffect
        have hid := id_after r hedits
        by_cases hown : e.id = t.id r
        · obtain rfl : s = t.after r (editsOf edit? (t.id r) done) :=
            eq_of_key_eq (hkept d hd).ids hs hrow (hsid.trans (hown.trans hid.symm))
          rw [version_after] at hsversion
          have hone : ((some e).toList.filter fun e => e.id == t.id r) = [e] := by simp [hown]
          rw [hone]
          refine ⟨hd', ?_, ?_, ?_⟩
          · intro e' he'
            rcases List.mem_append.1 he' with he' | he'
            · exact hedits e' he'
            · exact List.mem_singleton.1 he' ▸ he
          · rw [List.map_append, hversions, List.length_append, List.length_singleton, List.range'_concat]
            simp [hsversion]
          · rw [after_snoc, hrows, mem_changeWhere]
            exact ⟨_, hs, by simp [hsid]⟩
        · have hnone : ((some e).toList.filter fun e => e.id == t.id r) = [] := by simp [hown]
          rw [hnone, List.append_nil]
          refine ⟨hd', hedits, hversions, ?_⟩
          rw [hrows, mem_changeWhere]
          exact ⟨_, hrow, by simp [hid, Ne.symm hown]⟩
  exact hall.2.2

end History

end Emis
