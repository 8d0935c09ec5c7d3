import Emis.Common.Versioning
import Emis.Library.Serial

/-!
# Tables of rows with a code

Branches, departments, list values and custom fields: versioned rows that are never
deleted, each with a code under a unique index that is fixed once the row is created.
-/

namespace Emis

open Transactions

structure CodedTable (σ L ρ κ : Type) extends VersionedTable σ L ρ where
  code : ρ → κ
  codeLock : κ → L
  rows_put : ∀ rs d, rows (put rs d) = rs
  put_rows : ∀ d, put (rows d) d = d
  put_put : ∀ rs rs' d, put rs (put rs' d) = put rs d
  id_withVersion : ∀ n r, id (withVersion n r) = id r
  code_withVersion : ∀ n r, code (withVersion n r) = code r
  version_withVersion : ∀ n r, version (withVersion n r) = n

namespace CodedTable

variable {σ L ρ κ ε : Type} (t : CodedTable σ L ρ κ)

section Statements

variable [DecidableEq κ]

/-- Do the rows have one entry in the primary key or in the index of the codes? -/
def clash (row r : ρ) : Bool := t.id r == t.id row || t.code r == t.code row

def taken (row : ρ) (d : σ) : Bool := (t.rows d).any (t.clash row)

def add (row : ρ) (d : σ) : σ := t.put (t.rows d ++ [row]) d

/-- The entries of a new row in the two indexes: is one of them taken? -/
def enter (row : ρ) : Prog σ L ε Bool := do
  Prog.acquire (t.rowLock (t.id row))
  Prog.acquire (t.codeLock (t.code row))
  let d ← Prog.get
  return t.taken row d

/-- `INSERT`, with what `isUniqueViolation` makes of a conflict. -/
def insert (row : ρ) (codeTaken : ε) : Prog σ L ε Unit := do
  let taken ← t.enter row
  Prog.require (!taken) codeTaken
  Prog.modify (t.add row)

/-- `INSERT … ON CONFLICT DO NOTHING`, of one row. -/
def insertNew (row : ρ) : Prog σ L ε Unit := do
  let taken ← t.enter row
  Prog.when (!taken) (Prog.modify (t.add row))

/-- What `insertNew` leaves. -/
def addNew (d : σ) (row : ρ) : σ := if t.taken row d then d else t.add row d

/-- The same for the rows of the table. -/
def addRow (rows : List ρ) (row : ρ) : List ρ := if rows.any (t.clash row) then rows else rows ++ [row]

end Statements

/-! ## The table over time -/

structure RowsKept (rows : List ρ) : Prop where
  ids : (rows.map t.id).Nodup
  codes : (rows.map t.code).Nodup
  versions : ∀ r ∈ rows, 1 ≤ t.version r

abbrev WellKept (d : σ) : Prop := t.RowsKept (t.rows d)

theorem rowsKept_nil : t.RowsKept [] := ⟨.nil, .nil, fun _ hr => (List.not_mem_nil hr).elim⟩

/-- What may become of a row: nothing, or another version of it under its lock. -/
structure RowStep (S : Set L) (r r' : ρ) : Prop where
  id : t.id r' = t.id r
  code : t.code r' = t.code r
  change : r' = r ∨ t.version r < t.version r' ∧ t.rowLock (t.id r) ∈ S

/-- New rows have their entries in the indexes locked. -/
structure NewRow (S : Set L) (r : ρ) : Prop where
  id : t.rowLock (t.id r) ∈ S
  code : t.codeLock (t.code r) ∈ S

def Moves (S : Set L) (d d' : σ) : Prop := Evolves (t.RowStep S) (t.NewRow S) (t.rows d) (t.rows d')

/-- A protocol under which the table is well kept and only moves so. -/
structure KeptBy (P : Protocol σ L) : Prop where
  inv : ∀ d, P.Inv d → t.WellKept d
  moves : ∀ S d d', P.Intf S d d' → t.Moves S d d'

variable {t} {S T : Set L} {r r' r'' row : ρ} {d d' d'' : σ}

theorem RowStep.refl (r : ρ) : t.RowStep S r r := ⟨rfl, rfl, .inl rfl⟩

theorem RowStep.trans (h : t.RowStep S r r') (h' : t.RowStep S r' r'') : t.RowStep S r r'' := by
  refine ⟨h'.id.trans h.id, h'.code.trans h.code, ?_⟩
  rcases h.change with rfl | ⟨hversion, hlock⟩
  · exact h'.change
  · rcases h'.change with rfl | ⟨hversion', -⟩
    · exact .inr ⟨hversion, hlock⟩
    · exact .inr ⟨hversion.trans hversion', hlock⟩

theorem NewRow.step (h : t.NewRow S r) (h' : t.RowStep S r r') : t.NewRow S r' := by
  constructor
  · rw [h'.id]
    exact h.id
  · rw [h'.code]
    exact h.code

theorem moves_of_rows (h : t.rows d' = t.rows d) : t.Moves S d d' := by
  rw [Moves, h]
  exact .refl RowStep.refl

@[simp] theorem rows_add : t.rows (t.add row d) = t.rows d ++ [row] := t.rows_put _ _

theorem moves_add (h : t.NewRow S row) : t.Moves S d (t.add row d) := by
  rw [Moves, rows_add]
  exact .snoc RowStep.refl h

/-! ### Under the locks held -/

section Rely

variable {P : Protocol σ L} (hP : t.KeptBy P) (h : P.Rely S d d')

include hP h

/-- A locked row stays as it is. -/
theorem row_stays (hlock : t.rowLock (t.id r) ∈ S) (hr : r ∈ t.rows d) : r ∈ t.rows d' := by
  refine h.stable (φ := fun d => r ∈ t.rows d) ?_ hr
  rintro d₁ d₂ ⟨-, T, hdisj, hintf⟩ hr₁
  obtain ⟨r₂, hr₂, hstep⟩ := (hP.moves _ _ _ hintf).kept r hr₁
  rcases hstep.change with rfl | ⟨-, hheld⟩
  · exact hr₂
  · exact (Set.disjoint_left.1 hdisj hlock hheld).elim

theorem id_stays {id : Uuid} (hd : ∃ r ∈ t.rows d, t.id r = id) : ∃ r ∈ t.rows d', t.id r = id := by
  refine h.stable (φ := fun d => ∃ r ∈ t.rows d, t.id r = id) ?_ hd
  rintro d₁ d₂ ⟨-, T, -, hintf⟩ ⟨r₁, hr₁, hid⟩
  obtain ⟨r₂, hr₂, hstep⟩ := (hP.moves _ _ _ hintf).kept r₁ hr₁
  exact ⟨r₂, hr₂, hstep.id.trans hid⟩

theorem code_stays {code : κ} (hd : ∃ r ∈ t.rows d, t.code r = code) : ∃ r ∈ t.rows d', t.code r = code := by
  refine h.stable (φ := fun d => ∃ r ∈ t.rows d, t.code r = code) ?_ hd
  rintro d₁ d₂ ⟨-, T, -, hintf⟩ ⟨r₁, hr₁, hcode⟩
  obtain ⟨r₂, hr₂, hstep⟩ := (hP.moves _ _ _ hintf).kept r₁ hr₁
  exact ⟨r₂, hr₂, hstep.code.trans hcode⟩

/-- Nobody else takes an entry that is locked. -/
theorem id_absent {id : Uuid} (hlock : t.rowLock id ∈ S) (hd : ∀ r ∈ t.rows d, t.id r ≠ id) :
    ∀ r ∈ t.rows d', t.id r ≠ id := by
  refine h.stable (φ := fun d => ∀ r ∈ t.rows d, t.id r ≠ id) ?_ hd
  rintro d₁ d₂ ⟨-, T, hdisj, hintf⟩ hd₁ r₂ hr₂ rfl
  rcases (hP.moves _ _ _ hintf).made r₂ hr₂ with ⟨r₁, hr₁, hstep⟩ | hnew
  · exact hd₁ r₁ hr₁ hstep.id.symm
  · exact Set.disjoint_left.1 hdisj hlock hnew.id

theorem code_absent {code : κ} (hlock : t.codeLock code ∈ S) (hd : ∀ r ∈ t.rows d, t.code r ≠ code) :
    ∀ r ∈ t.rows d', t.code r ≠ code := by
  refine h.stable (φ := fun d => ∀ r ∈ t.rows d, t.code r ≠ code) ?_ hd
  rintro d₁ d₂ ⟨-, T, hdisj, hintf⟩ hd₁ r₂ hr₂ rfl
  rcases (hP.moves _ _ _ hintf).made r₂ hr₂ with ⟨r₁, hr₁, hstep⟩ | hnew
  · exact hd₁ r₁ hr₁ hstep.code.symm
  · exact Set.disjoint_left.1 hdisj hlock hnew.code

omit h in
/-- Rows keep their ids, and get higher versions. -/
theorem advances_of_kept : t.Advances P := by
  rintro S d d' ⟨-, T, -, hintf⟩ r hr
  obtain ⟨r', hr', hstep⟩ := (hP.moves _ _ _ hintf).kept r hr
  exact ⟨r', hr', hstep.id, hstep.change.imp_right And.left⟩

end Rely

/-! ## What each statement does alone -/

section Alone

variable [DecidableEq κ] {Φ : Unit → σ → Prop} {E : ε → Prop} {rows : List ρ}

theorem wlp_insert {codeTaken : ε} :
    (t.insert row codeTaken).wlp Φ E d ↔
      (t.taken row d = false → Φ () (t.add row d)) ∧ (t.taken row d = true → E codeTaken) := by
  simp [insert, enter]

theorem wlp_insertNew : (t.insertNew row : Prog σ L ε Unit).wlp Φ E d ↔ Φ () (t.addNew d row) := by
  cases htaken : t.taken row d <;> simp [insertNew, enter, addNew, htaken]

theorem wlp_insertAll :
    (rows.forM t.insertNew : Prog σ L ε PUnit).wlp Φ E d ↔ Φ () (rows.foldl t.addNew d) := by
  induction rows generalizing d with
  | nil => exact Iff.rfl
  | cons row rows ih =>
      refine (Prog.wlp_forM_cons row rows t.insertNew).trans ?_
      rw [wlp_insertNew]
      exact ih

end Alone

/-! ## What each statement does among others -/

section Among

variable [DecidableEq κ] {P : Protocol σ L}

theorem taken_iff : t.taken row d = true ↔
    (∃ r ∈ t.rows d, t.id r = t.id row) ∨ ∃ r ∈ t.rows d, t.code r = t.code row := by
  simp [taken, clash, and_or_left, exists_or]

theorem taken_eq_false : t.taken row d = false ↔
    (∀ r ∈ t.rows d, t.id r ≠ t.id row) ∧ ∀ r ∈ t.rows d, t.code r ≠ t.code row := by
  simp [taken, clash, forall_and]

theorem taken_addNew (row' : ρ) :
    t.taken row' (t.addNew d row) = (t.taken row' d || (!t.taken row d && t.clash row' row)) := by
  cases htaken : t.taken row d with
  | true => simp [addNew, htaken]
  | false =>
      simp only [addNew, htaken, Bool.false_eq_true, if_false, Bool.not_false, Bool.true_and]
      simp [taken]

theorem rowsKept_snoc {old : List ρ} (hd : t.RowsKept old) (hfree : ∀ r ∈ old, t.clash row r = false)
    (hversion : 1 ≤ t.version row) : t.RowsKept (old ++ [row]) := by
  have hboth : ∀ r ∈ old, t.id r ≠ t.id row ∧ t.code r ≠ t.code row := fun r hr => by simpa [clash] using hfree r hr
  constructor
  · exact nodup_snoc hd.ids fun r hr => (hboth r hr).1
  · exact nodup_snoc hd.codes fun r hr => (hboth r hr).2
  · intro r hr
    rcases List.mem_append.1 hr with hr | hr
    · exact hd.versions r hr
    · obtain rfl := List.mem_singleton.1 hr
      exact hversion

theorem wellKept_add (hd : t.WellKept d) (hfree : t.taken row d = false) (hversion : 1 ≤ t.version row) :
    t.WellKept (t.add row d) := by
  rw [WellKept, rows_add]
  exact rowsKept_snoc hd (by simpa [taken] using hfree) hversion

theorem addAll_eq (rows : List ρ) : rows.foldl t.addNew d = t.put (rows.foldl t.addRow (t.rows d)) d := by
  induction rows generalizing d with
  | nil => exact (t.put_rows d).symm
  | cons row rows ih =>
      rw [List.foldl_cons, ih, List.foldl_cons, addNew, addRow, taken]
      split
      · rfl
      · rw [rows_add, add, t.put_put]

theorem mem_addRows {old rows : List ρ} (hr : r ∈ old) : r ∈ rows.foldl t.addRow old := by
  induction rows generalizing old with
  | nil => exact hr
  | cons row rows ih =>
      refine ih ?_
      rw [addRow]
      split
      · exact hr
      · exact List.mem_append_left _ hr

/-- Rows with new ids take the codes that are free, each code the first row that has it. -/
theorem find?_addRows {old rows : List ρ} (hids : (rows.map t.id).Nodup)
    (hnew : ∀ row ∈ rows, ∀ r ∈ old, t.id r ≠ t.id row) (code : κ) :
    (rows.foldl t.addRow old).find? (fun r => t.code r == code) =
      (old ++ rows).find? (fun r => t.code r == code) := by
  induction rows generalizing old with
  | nil => rw [List.foldl_nil, List.append_nil]
  | cons row rows ih =>
      obtain ⟨hfirst, hrest⟩ := List.nodup_cons.1 hids
      obtain ⟨hrow, hothers⟩ := List.forall_mem_cons.1 hnew
      rw [List.foldl_cons, addRow]
      split
      · rename_i hclash
        obtain ⟨r, hr, hboth⟩ := List.any_eq_true.1 hclash
        have hcode : t.code r = t.code row := by simpa [clash, hrow r hr] using hboth
        rw [ih hrest hothers, List.find?_append, List.find?_append]
        cases hfound : old.find? (fun r => t.code r == code) with
        | some s => rfl
        | none =>
            have hother : t.code row ≠ code := by simpa [hcode] using List.find?_eq_none.1 hfound r hr
            simp [hother]
      · rw [ih hrest ?_, List.append_assoc, List.singleton_append]
        intro row' hrow' r hr
        rcases List.mem_append.1 hr with hr | hr
        · exact hothers row' hrow' r hr
        · obtain rfl := List.mem_singleton.1 hr
          exact fun hsame => hfirst (List.mem_map.2 ⟨row', hrow', hsame.symm⟩)

theorem evolves_addRows {old rows : List ρ} (hrows : ∀ row ∈ rows, t.NewRow S row ∧ 1 ≤ t.version row)
    (hd : t.RowsKept old) :
    Evolves (t.RowStep S) (t.NewRow S) old (rows.foldl t.addRow old) ∧ t.RowsKept (rows.foldl t.addRow old) := by
  induction rows generalizing old with
  | nil => exact ⟨.refl RowStep.refl, hd⟩
  | cons row rows ih =>
      obtain ⟨⟨hnew, hversion⟩, hrest⟩ := List.forall_mem_cons.1 hrows
      have hone : Evolves (t.RowStep S) (t.NewRow S) old (t.addRow old row) ∧ t.RowsKept (t.addRow old row) := by
        rw [addRow]
        split
        · exact ⟨.refl RowStep.refl, hd⟩
        · rename_i hfree
          exact ⟨.snoc RowStep.refl hnew, rowsKept_snoc hd (by simpa using hfree) hversion⟩
      obtain ⟨hmoves, hkept⟩ := ih hrest hone.2
      exact ⟨hone.1.trans RowStep.trans NewRow.step hmoves, hkept⟩

/-- Stores that have the same entries taken have so after the same insertions. -/
theorem taken_addAll {X rows : List ρ} (hsub : ∀ row ∈ rows, row ∈ X) (h : ∀ row ∈ X, t.taken row d' = t.taken row d) :
    ∀ row ∈ X, t.taken row (rows.foldl t.addNew d') = t.taken row (rows.foldl t.addNew d) := by
  induction rows generalizing d d' with
  | nil => exact h
  | cons row rows ih =>
      obtain ⟨hrow, hrest⟩ := List.forall_mem_cons.1 hsub
      exact ih hrest fun row' hrow' => by rw [taken_addNew, taken_addNew, h row' hrow', h row hrow]

theorem taken_of_rows (h : t.rows d' = t.rows d) : t.taken row d' = t.taken row d := by
  rw [taken, taken, h]

/-- A locked entry is taken later if it is taken now. -/
theorem taken_stays (hP : t.KeptBy P) (h : P.Rely S d d') (hlock : t.NewRow S row) :
    t.taken row d' = t.taken row d := by
  cases htaken : t.taken row d with
  | true =>
      rw [taken_iff] at htaken ⊢
      exact htaken.imp (id_stays hP h) (code_stays hP h)
  | false =>
      rw [taken_eq_false] at htaken ⊢
      exact ⟨id_absent hP h hlock.id htaken.1, code_absent hP h hlock.code htaken.2⟩

variable {K : Unit → Set L → (σ → σ) → σ → Prop} {X : ε → Set L → σ → Prop} {f : σ → σ}

theorem wp_enter {K : Bool → Set L → (σ → σ) → σ → Prop}
    (hK : ∀ S' d', S ⊆ S' → t.NewRow S' row → P.Rely S d d' → P.Inv d' → K (t.taken row (f d')) S' f d') :
    P.wp K X (t.enter row : Prog σ L ε Bool) S f d := by
  simp only [enter, Protocol.wp_bind, Protocol.wp_acquire, Protocol.wp_get, Protocol.wp_pure]
  intro d₁ hr₁ _ d₂ hr₂ _ d₃ hr₃ hi₃
  have hsub : S ⊆ Insert.insert (t.rowLock (t.id row)) S := Set.subset_insert _ _
  have hsub' := hsub.trans (Set.subset_insert (t.codeLock (t.code row)) _)
  refine hK _ d₃ hsub' ⟨.inr (Set.mem_insert _ _), Set.mem_insert _ _⟩ ?_ hi₃
  exact hr₁.trans ((hr₂.anti hsub).trans (hr₃.anti hsub'))

/-- A row is inserted where nothing is in its way until the end. -/
theorem wp_insert (hP : t.KeptBy P) {codeTaken : ε}
    (hK : ∀ S' d', S ⊆ S' → t.NewRow S' row → P.Rely S d d' → P.Inv d' →
      (∀ d'', P.Rely S' d' d'' → t.taken row d'' = false) → K () S' (t.add row) d')
    (hX : ∀ S' d', X codeTaken S' d' := by exact fun _ _ => trivial) :
    P.wp K X (t.insert row codeTaken) S id d := by
  rw [insert, Protocol.wp_bind]
  refine wp_enter fun S' d' hS hlock hr hi => ?_
  rw [Protocol.wp_bind, Protocol.wp_require]
  refine ⟨fun hfree => ?_, fun _ => hX S' d'⟩
  have hfree' : t.taken row d' = false := by simpa using hfree
  exact hK S' d' hS hlock hr hi fun d'' hr' => (taken_stays hP hr' hlock).trans hfree'

/-- Rows are inserted as they would be all at once at the end. -/
theorem wp_insertAll (hP : t.KeptBy P) (f₀ : σ → σ) (before rows : List ρ) (hf₀ : ∀ d, t.rows (f₀ d) = t.rows d)
    (hlocks : ∀ row ∈ before, t.NewRow S row)
    (hf : ∀ d', P.Rely S d d' → f d' = before.foldl t.addNew (f₀ d')) (hd : P.Inv d)
    (hK : ∀ S' f' d', S ⊆ S' → (∀ row ∈ before ++ rows, t.NewRow S' row) → P.Rely S d d' → P.Inv d' →
      (∀ d'', P.Rely S' d' d'' → f' d'' = (before ++ rows).foldl t.addNew (f₀ d'')) → K () S' f' d') :
    P.wp K X (rows.forM t.insertNew : Prog σ L ε PUnit) S f d := by
  induction rows generalizing before S f d with
  | nil => exact hK S f d subset_rfl (by simpa using hlocks) .refl hd (by simpa using hf)
  | cons row rows ih =>
      change P.wp K X (t.insertNew row >>= fun _ => rows.forM t.insertNew) S f d
      rw [Protocol.wp_bind, insertNew, Protocol.wp_bind]
      refine wp_enter fun S' d' hS hlock hr hi => ?_
      have hlocks' : ∀ row' ∈ before ++ [row], t.NewRow S' row' := by
        intro row' hrow'
        rcases List.mem_append.1 hrow' with hrow' | hrow'
        · exact ⟨hS (hlocks row' hrow').id, hS (hlocks row' hrow').code⟩
        · exact List.mem_singleton.1 hrow' ▸ hlock
      have hsame : ∀ d'', P.Rely S' d' d'' → t.taken row (f d'') = t.taken row (f d') := by
        intro d'' hr'
        rw [hf d'' (hr.trans (hr'.anti hS)), hf d' hr]
        refine taken_addAll (X := before ++ [row]) (fun r hr => List.mem_append_left _ hr) (fun row' hrow' => ?_) row (by simp)
        rw [taken_of_rows (hf₀ d''), taken_of_rows (hf₀ d')]
        exact taken_stays hP hr' (hlocks' row' hrow')
      have hlater : ∀ f' : σ → σ, (∀ d'', P.Rely S' d' d'' → f' d'' = t.addNew (f d'') row) →
          P.wp K X (rows.forM t.insertNew : Prog σ L ε PUnit) S' f' d' := by
        intro f' hf'
        refine ih (before ++ [row]) hlocks' (fun d'' hr' => ?_) hi fun S'' f'' d'' hS' hall hr' hi' hend => ?_
        · rw [hf' d'' hr', hf d'' (hr.trans (hr'.anti hS)), List.foldl_append]
          rfl
        · rw [List.append_assoc] at hall hend
          exact hK S'' f'' d'' (hS.trans hS') hall (hr.trans (hr'.anti hS)) hi' hend
      rw [Protocol.wp_when]
      refine ⟨fun hfree => ?_, fun hhit => ?_⟩
      · rw [Protocol.wp_modify]
        refine hlater _ fun d'' hr' => ?_
        have hfree'' : t.taken row (f d'') = false := (hsame d'' hr').trans (by simpa using hfree)
        simp [addNew, hfree'']
      · refine hlater _ fun d'' hr' => ?_
        have hhit'' : t.taken row (f d'') = true := (hsame d'' hr').trans (by simpa using hhit)
        simp [addNew, hhit'']

end Among

/-! ## Versioned updates -/

section Update

variable (t) in
/-- An edit that leaves the id and the code. -/
structure Edits (values : ρ → ρ) : Prop where
  id : ∀ r, t.id (values r) = t.id r
  code : ∀ r, t.code (values r) = t.code r

variable (t) in
/-- The row that an update leaves. -/
def edited (values : ρ → ρ) (r : ρ) : ρ := t.withVersion (t.version r + 1) (values r)

variable {P : Protocol σ L} {rowId : Uuid} {version : ℕ} {values : ρ → ρ}

theorem Edits.edited_id (he : t.Edits values) (r : ρ) : t.id (t.edited values r) = t.id r :=
  (t.id_withVersion _ _).trans (he.id r)

theorem Edits.edited_code (he : t.Edits values) (r : ρ) : t.code (t.edited values r) = t.code r :=
  (t.code_withVersion _ _).trans (he.code r)

@[simp] theorem edited_version (r : ρ) : t.version (t.edited values r) = t.version r + 1 := t.version_withVersion _ _

theorem rows_bump : t.rows (t.bump rowId values d) = changeWhere (fun r => t.id r == rowId) (t.edited values) (t.rows d) :=
  t.rows_put _ _

theorem moves_bump (he : t.Edits values) (hlock : t.rowLock rowId ∈ S) (hd : t.WellKept d) :
    t.Moves S d (t.bump rowId values d) ∧ t.WellKept (t.bump rowId values d) := by
  constructor
  · rw [Moves, rows_bump]
    refine .changeWhere RowStep.refl fun r _ hhit => ?_
    obtain rfl : t.id r = rowId := by simpa using hhit
    exact ⟨he.edited_id r, he.edited_code r, .inr ⟨by simp, hlock⟩⟩
  · constructor
    · rw [rows_bump, map_changeWhere he.edited_id]
      exact hd.ids
    · rw [rows_bump, map_changeWhere he.edited_code]
      exact hd.codes
    · intro r' hr'
      obtain ⟨r, hr, rfl⟩ := mem_changeWhere.1 (rows_bump (t := t) ▸ hr')
      split
      · simp
      · exact hd.versions r hr

theorem isAt_iff : t.isAt d rowId version = true ↔ ∃ r ∈ t.rows d, t.id r = rowId ∧ t.version r = version := by
  simp [VersionedTable.isAt]

/-- The row that an update finds is the one it has changed. -/
theorem row?_bump (he : t.Edits values) (hd : t.WellKept d) (hr : r ∈ t.rows d) :
    t.row? (t.bump (t.id r) values d) (t.id r) = some (t.edited values r) := by
  have hwell : t.WellKept (t.bump (t.id r) values d) :=
    (moves_bump (S := Set.univ) he (Set.mem_univ _) hd).2
  have hmem : t.edited values r ∈ t.rows (t.bump (t.id r) values d) := by
    rw [rows_bump, mem_changeWhere]
    exact ⟨r, hr, by simp⟩
  cases hfound : t.row? (t.bump (t.id r) values d) (t.id r) with
  | none =>
      have hnone := List.find?_eq_none.1 hfound _ hmem
      simp [he.edited_id] at hnone
  | some r' =>
      have hid : t.id r' = t.id r := by simpa using List.find?_some hfound
      rw [eq_of_key_eq hwell.ids (List.mem_of_find?_eq_some hfound) hmem (hid.trans (he.edited_id r).symm)]

/-- Alone, an update of a row at its version goes through. -/
theorem wlp_update {Φ : ρ → σ → Prop} {E : Error → Prop} {notFound : Error} (he : t.Edits values)
    (hd : t.WellKept d) (hr : r ∈ t.rows d)
    (hΦ : Φ (t.edited values r) (t.bump (t.id r) values d)) :
    (updateWithVersion t.toVersionedTable (t.id r) (t.version r) values).wlp
      (fun result => (versionedRow result notFound : Prog σ L Error ρ).wlp Φ E) E d := by
  refine wlp_versioned_exact _ (fun _ => ⟨_, row?_bump he hd hr, hΦ⟩) fun hmiss => ?_
  rw [isAt_iff.2 ⟨r, hr, rfl, rfl⟩] at hmiss
  cases hmiss

/-- An update that goes through has changed a row that stays as it was until the end. -/
theorem wp_update (hP : t.KeptBy P) (he : t.Edits values) {notFound : Error}
    {K : ρ → Set L → (σ → σ) → σ → Prop} {X : Error → Set L → σ → Prop}
    (hK : ∀ S' d' r, S ⊆ S' → t.rowLock rowId ∈ S' → P.Rely S d d' → P.Inv d' → t.id r = rowId → t.version r = version →
      (∀ d'', P.Rely S' d' d'' → r ∈ t.rows d'') → K (t.edited values r) S' (t.bump rowId values) d')
    (hX : ∀ e S' d', X e S' d' := by exact fun _ _ _ => trivial) :
    P.wp (fun result => P.wp K X (versionedRow result notFound : Prog σ L Error ρ)) X
      (updateWithVersion t.toVersionedTable rowId version values : Prog σ L Error _) S id d := by
  refine wp_versioned t.toVersionedTable (fun d₁ d₂ row hr₁ hi₁ hat hr₂ hi₂ hrow => ?_) fun e S' d' _ _ _ _ => hX e S' d'
  obtain ⟨r, hr, rfl, rfl⟩ := isAt_iff.1 hat
  have hlock : t.rowLock (t.id r) ∈ Insert.insert (t.rowLock (t.id r)) S := Set.mem_insert _ _
  have hstays : ∀ {d''}, P.Rely (Insert.insert (t.rowLock (t.id r)) S) d₂ d'' → r ∈ t.rows d'' := fun hr' =>
    row_stays hP (hr₂.trans hr') hlock hr
  have hfound := row?_bump he (hP.inv _ hi₂) (hstays .refl)
  obtain rfl : t.edited values r = row := Option.some.inj (hfound.symm.trans hrow)
  have hsub : S ⊆ Insert.insert (t.rowLock (t.id r)) S := Set.subset_insert _ _
  exact hK _ d₂ r hsub hlock (hr₁.trans (hr₂.anti hsub)) hi₂ rfl rfl fun d'' hr' => hstays hr'

end Update

/-! ## Requests -/

section Requests

variable {P : Protocol σ L} {values : ρ → ρ}

theorem acts_create [DecidableEq κ] (hP : t.KeptBy P) {codeTaken : ε}
    (hadd : ∀ S d, P.Inv d → t.NewRow S row → t.taken row d = false →
      P.Guar S d (t.add row d) ∧ P.Inv (t.add row d)) :
    P.Acts (do t.insert row codeTaken; return row) d := by
  rw [Protocol.Acts, Protocol.wp_bind]
  refine wp_insert hP fun S d₁ _ hlock _ _ hfree d' hr hi => ?_
  obtain ⟨hguar, hinv⟩ := hadd S d' hi hlock (hfree d' hr)
  refine ⟨hguar, hinv, ?_⟩
  simp only [Prog.Performs, Prog.wlp_bind, wlp_insert]
  exact ⟨fun _ => ⟨rfl, rfl⟩, fun htaken => by simp [hfree d' hr] at htaken⟩

/-- An edit of a row that passes a check, at a version. -/
theorem acts_update (rowId : Uuid) (version : ℕ) (notFound : Error) (check : ρ → Prog σ L Error Unit)
    (Pass : ρ → Set L → σ → Prop) (hP : t.KeptBy P) (he : t.Edits values)
    (hcheck : ∀ before d₁, P.Rely ∅ d d₁ → P.Inv d₁ → t.row? d₁ rowId = some before →
      P.wp (fun _ S f d₂ => f = id ∧ P.Rely ∅ d₁ d₂ ∧ Pass before S d₂) Protocol.Anyway (check before) ∅ id d₁)
    (hend : ∀ before r S S' d₁ d₂ d₃, P.Rely ∅ d d₁ → P.Inv d₁ → t.row? d₁ rowId = some before →
      P.Rely ∅ d₁ d₃ → Pass before S d₂ → S ⊆ S' → P.Rely S d₂ d₃ → P.Inv d₃ → t.rowLock rowId ∈ S' →
      r ∈ t.rows d₃ → t.id r = rowId → t.version r = version →
      (check r).Performs d₃ () d₃ ∧ P.Guar S' d₃ (t.bump rowId values d₃) ∧ P.Inv (t.bump rowId values d₃)) :
    P.Acts (do
      let d ← Prog.get
      let before ← Prog.expect (t.row? d rowId) notFound
      check before
      let result ← updateWithVersion t.toVersionedTable rowId version values
      versionedRow result notFound) d := by
  rw [Protocol.Acts, Protocol.wp_bind, Protocol.wp_get]
  intro d₁ hr₁ hi₁
  rw [Protocol.wp_bind, Protocol.wp_expect]
  refine ⟨fun before hbefore => ?_, fun _ => trivial⟩
  rw [Protocol.wp_bind]
  refine Protocol.wp_mono (X := Protocol.Anyway) ?_ (fun _ _ _ h => h) (hcheck before d₁ hr₁ hi₁ hbefore)
  rintro _ S f d₂ ⟨rfl, hr₂, hpass⟩
  rw [Protocol.wp_bind]
  refine wp_update hP he fun S' d₃ r hS hlock hr₃ _ hid hversion hstays d' hr' hi' => ?_
  have hr : P.Rely S d₂ d' := hr₃.trans (hr'.anti hS)
  have hmem : r ∈ t.rows d' := hstays d' hr'
  obtain ⟨hperforms, hguar, hinv⟩ := hend before r S S' d₁ d₂ d' hr₁ hi₁ hbefore
    (hr₂.trans (hr.anti (Set.empty_subset _))) hpass hS hr hi' hlock hmem hid hversion
  refine ⟨hguar, hinv, ?_⟩
  have hrow : t.row? d' rowId = some r := by
    cases hfound : t.row? d' rowId with
    | none =>
        have hnone := List.find?_eq_none.1 hfound r hmem
        simp [hid] at hnone
    | some r' =>
        have hid' : t.id r' = rowId := by simpa using List.find?_some hfound
        rw [eq_of_key_eq (hP.inv _ hi').ids (List.mem_of_find?_eq_some hfound) hmem (hid'.trans hid.symm)]
  simp only [Prog.Performs, Prog.wlp_bind, Prog.wlp_get, Prog.wlp_expect, hrow, Option.some.injEq, forall_eq',
    reduceCtorEq, false_implies, and_true]
  refine Prog.wlp_mono (fun _ v hv => ?_) (fun _ hfalse => hfalse) hperforms
  obtain ⟨-, rfl⟩ := hv
  subst hid hversion
  exact wlp_update he (hP.inv _ hi') hmem ⟨rfl, rfl⟩

theorem acts_edit (rowId : Uuid) (version : ℕ) (notFound : Error) (hP : t.KeptBy P) (he : t.Edits values)
    (hbump : ∀ S d, P.Inv d → t.rowLock rowId ∈ S →
      P.Guar S d (t.bump rowId values d) ∧ P.Inv (t.bump rowId values d)) :
    P.Acts (do
      let d ← Prog.get
      let _ ← Prog.expect (t.row? d rowId) notFound
      let result ← updateWithVersion t.toVersionedTable rowId version values
      versionedRow result notFound) d := by
  refine acts_update rowId version notFound (fun _ => pure ()) (fun _ _ _ => True) hP he
    (fun _ _ _ _ _ => ⟨rfl, .refl, trivial⟩) fun _ _ _ S' _ _ d₃ _ _ _ _ _ _ _ hi hlock _ _ _ => ?_
  exact ⟨⟨rfl, rfl⟩, hbump S' d₃ hi hlock⟩

end Requests

end CodedTable

end Emis
