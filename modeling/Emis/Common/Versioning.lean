import Emis.Common.Errors
import Emis.Library.Rules
import Emis.Library.Table

/-!
# Optimistic locking

`packages/db/src/versioning.ts` and `versionedRow` of
`common/http/versioning.ts`. A table with versioned rows is given by how its
rows are read from the store and put back.
-/

namespace Emis

open Transactions

/-- A table of the store `σ` whose rows `ρ` have an `id` and a `version`. -/
structure VersionedTable (σ L ρ : Type) where
  rows : σ → List ρ
  put : List ρ → σ → σ
  id : ρ → Uuid
  version : ρ → ℕ
  withVersion : ℕ → ρ → ρ
  rowLock : Uuid → L

namespace VersionedTable

variable {σ L ρ : Type} (t : VersionedTable σ L ρ)

def row? (d : σ) (id : Uuid) : Option ρ := (t.rows d).find? fun r => t.id r == id

/-- Change the rows with this id, in place. -/
def updateRow (id : Uuid) (f : ρ → ρ) (d : σ) : σ :=
  t.put (changeWhere (fun r => t.id r == id) f (t.rows d)) d

/-- Is there a row with this id at this version? -/
def isAt (d : σ) (id : Uuid) (version : ℕ) : Bool :=
  (t.rows d).any fun r => t.id r == id && t.version r == version

/-- `SET …values, version = version + 1`. -/
def bump (id : Uuid) (values : ρ → ρ) : σ → σ :=
  t.updateRow id fun r => t.withVersion (t.version r + 1) (values r)

end VersionedTable

inductive VersionedUpdateResult (ρ : Type) where
  | updated (row : ρ)
  | conflict (currentVersion : ℕ)
  | notFound

variable {σ L ρ ε : Type}

/-- Update the row if it is still at `expectedVersion`, and bump its version in
the same statement. -/
def updateWithVersion (t : VersionedTable σ L ρ) (id : Uuid) (expectedVersion : ℕ)
    (values : ρ → ρ) : Prog σ L ε (VersionedUpdateResult ρ) := do
  let updated ← Prog.updateWhere (t.rowLock id) (t.isAt · id expectedVersion) (t.bump id values)
  let d ← Prog.get
  match updated, t.row? d id with
  | true, some row => return .updated row
  | false, some found => return .conflict (t.version found)
  | _, none => return .notFound

/-- The updated row, or 404 or 412. -/
def versionedRow (result : VersionedUpdateResult ρ) (notFound : Error) : Prog σ L Error ρ :=
  match result with
  | .updated row => return row
  | .conflict _ => Prog.throw versionConflict
  | .notFound => Prog.throw notFound

/-! ## Rules -/

section Rules

variable (t : VersionedTable σ L ρ) {id : Uuid} {expectedVersion : ℕ} {values : ρ → ρ}
  {notFound : Error}

/-- A versioned update that does not throw has changed a row of that version. -/
theorem wlp_versioned {Φ : ρ → σ → Prop} {E : Error → Prop} {v : σ}
    (hok : ∀ row, t.isAt v id expectedVersion = true → t.row? (t.bump id values v) id = some row →
      Φ row (t.bump id values v))
    (hconflict : E versionConflict) (hnone : E notFound) :
    (updateWithVersion t id expectedVersion values).wlp
      (fun r => (versionedRow r notFound : Prog σ L Error ρ).wlp Φ E) E v := by
  simp only [updateWithVersion, Prog.wlp_bind, Prog.wlp_updateWhere, Prog.wlp_get]
  refine ⟨fun hhit => ?_, fun _ => ?_⟩
  · cases hrow : t.row? (t.bump id values v) id with
    | none => exact hnone
    | some row => exact hok row hhit hrow
  · cases t.row? v id with
    | none => exact hnone
    | some row => exact hconflict

/-- A versioned update commits if the row is at its version, and throws otherwise. -/
theorem wlp_versioned_exact {Φ : ρ → σ → Prop} {E : Error → Prop} {v : σ}
    (hok : t.isAt v id expectedVersion = true →
      ∃ row, t.row? (t.bump id values v) id = some row ∧ Φ row (t.bump id values v))
    (hrefused : t.isAt v id expectedVersion = false → E versionConflict ∧ E notFound) :
    (updateWithVersion t id expectedVersion values).wlp
      (fun r => (versionedRow r notFound : Prog σ L Error ρ).wlp Φ E) E v := by
  simp only [updateWithVersion, Prog.wlp_bind, Prog.wlp_updateWhere, Prog.wlp_get]
  refine ⟨fun hhit => ?_, fun hmiss => ?_⟩
  · obtain ⟨row, hrow, hΦ⟩ := hok hhit
    rw [hrow]
    exact hΦ
  · obtain ⟨hconflict, hnone⟩ := hrefused hmiss
    cases t.row? v id with
    | none => exact hnone
    | some row => exact hconflict

theorem keeps_versioned {τ : Type} {φ : σ → τ} (hφ : ∀ d, φ (t.bump id values d) = φ d) :
    (updateWithVersion t id expectedVersion values >>= fun r =>
      (versionedRow r notFound : Prog σ L Error ρ)).Keeps φ := by
  apply Prog.Keeps.bind
  · apply Prog.Keeps.bind (.updateWhere _ _ hφ)
    intro updated
    apply Prog.Keeps.bind .get
    intro d
    cases updated <;> cases t.row? d id <;> exact .pure _
  · intro r
    cases r with
    | updated row => exact .pure _
    | conflict | notFound => exact .throw _

theorem wp_versioned {P : Protocol σ L} {S : Set L} {f : σ → σ} {d : σ}
    {K : ρ → Set L → (σ → σ) → σ → Prop} {X : Error → Set L → σ → Prop}
    (hok : ∀ d' d'' row, P.Rely S d d' → P.Inv d' → t.isAt (f d') id expectedVersion = true →
      P.Rely (insert (t.rowLock id) S) d' d'' → P.Inv d'' →
      t.row? (t.bump id values (f d'')) id = some row →
      K row (insert (t.rowLock id) S) (t.bump id values ∘ f) d'')
    (hX : ∀ e S' d', e = versionConflict ∨ e = notFound → S ⊆ S' → P.Rely S d d' → P.Inv d' →
      X e S' d' := by exact fun _ _ _ _ _ _ _ => trivial) :
    P.wp (fun r => P.wp K X (versionedRow r notFound : Prog σ L Error ρ)) X
      (updateWithVersion t id expectedVersion values : Prog σ L Error _) S f d := by
  rw [updateWithVersion, Protocol.wp_bind]
  refine Protocol.wp_updateWhere (fun S' d' hS hr _ => ?_) fun d' hr hi hhit => ?_
  · rw [Protocol.wp_bind, Protocol.wp_get]
    intro d₂ hr₂ hi₂
    have hblame := fun e he => hX e S' d₂ he hS (hr.trans (hr₂.anti hS)) hi₂
    cases t.row? (f d₂) id with
    | none => exact hblame _ (.inr rfl)
    | some row => exact hblame _ (.inl rfl)
  · rw [Protocol.wp_bind, Protocol.wp_get]
    intro d₂ hr₂ hi₂
    simp only [Function.comp_apply]
    have hsub : S ⊆ insert (t.rowLock id) S := Set.subset_insert _ _
    have hblame := fun e he => hX e _ d₂ he hsub (hr.trans (hr₂.anti hsub)) hi₂
    cases hrow : t.row? (t.bump id values (f d₂)) id with
    | none => exact hblame _ (.inr rfl)
    | some row => exact hok d' d₂ row hr hi hhit hr₂ hi₂ hrow

end Rules

/-! ## Rows and their versions among other clients -/

section Advances

variable (t : VersionedTable σ L ρ) (P : Protocol σ L)

/-- Whatever the others do, a row stays what it is or has a higher version. -/
def VersionedTable.Advances : Prop :=
  ∀ S d d', P.Other S d d' → ∀ r ∈ t.rows d, ∃ r' ∈ t.rows d', t.id r' = t.id r ∧
    (r' = r ∨ t.version r < t.version r')

variable {t P} {S : Set L} {d d' : σ}

theorem VersionedTable.Advances.row (hadv : t.Advances P) (h : P.Rely S d d') {r : ρ}
    (hr : r ∈ t.rows d) :
    ∃ r' ∈ t.rows d', t.id r' = t.id r ∧ (r' = r ∨ t.version r < t.version r') := by
  refine h.stable (φ := fun d => ∃ r' ∈ t.rows d, t.id r' = t.id r ∧
    (r' = r ∨ t.version r < t.version r')) ?_ ⟨r, hr, rfl, .inl rfl⟩
  rintro d₁ d₂ hother ⟨r₁, hr₁, hid, hversion⟩
  obtain ⟨r₂, hr₂, hid₂, hversion₂⟩ := hadv S d₁ d₂ hother r₁ hr₁
  refine ⟨r₂, hr₂, hid₂.trans hid, ?_⟩
  rcases hversion₂ with rfl | hlt
  · exact hversion
  · right
    rcases hversion with rfl | hlt'
    · exact hlt
    · exact Nat.lt_trans hlt' hlt

/-- A row that was at least at this version and now is at it has not changed. -/
theorem VersionedTable.Advances.seen (hadv : t.Advances P) (h : P.Rely S d d')
    (hids : ((t.rows d').map t.id).Nodup) {found : ρ} {version : ℕ} (hfound : found ∈ t.rows d)
    (hle : version ≤ t.version found) (hat : t.isAt d' (t.id found) version = true) :
    found ∈ t.rows d' := by
  obtain ⟨r, hr, hid, hversion⟩ := hadv.row h hfound
  obtain ⟨r', hr', hboth⟩ := List.any_eq_true.1 hat
  obtain ⟨hid', hversion'⟩ : t.id r' = t.id found ∧ t.version r' = version := by
    simpa using hboth
  obtain rfl : r' = r := eq_of_key_eq hids hr' hr (hid'.trans hid.symm)
  rcases hversion with rfl | hlt
  · exact hr
  · omega

end Advances

end Emis
