import Emis.Imports.Registrations

/-!
# The branch of a row

Codes and names of the branches share one table.
-/

namespace Emis.Imports

open Transactions Admissions
open Emis.Numbering (BranchRow OrgCode)
open StudentImportService (lookup branchByKey)

/-- The active branches in the order of their names. -/
def activeBranches (d : Db) : List BranchRow :=
  (orderBy (fun b => b.name) d.numbering.branches).filter fun b => b.isActive

/-- The entries of one branch. -/
def entries (env : ImportEnv) (b : BranchRow) : List (Str × Uuid) :=
  [(lowered env.toEnv b.code.text, b.id), (lowered env.toEnv b.name.toList, b.id)]

theorem branchByKey_eq (env : ImportEnv) (d : Db) :
    branchByKey env d = (activeBranches d).flatMap (entries env) := rfl

/-- The branch that the text of a cell stands for. -/
def branchFor (env : ImportEnv) (d : Db) (cell : Str) : Option Uuid :=
  lookup (branchByKey env d) (lowered env.toEnv cell)

/-- `toLowerCase` on ASCII. -/
def LowersAscii (env : ImportEnv) : Prop :=
  ∀ s : String, (∀ c ∈ s.toList, c.toNat < 128) → env.lower s = s.toLower

/-! ## Codes -/

section Codes

open Emis.Numbering (isUpper)

theorem toUpper_toLower {c : Char} (h : isUpper c = true ∨ c.isDigit = true) : c.toNat < 128 ∧ c.toLower.toUpper = c := by
  have hsmall : c.toNat < 128 := by
    simp only [isUpper, Char.isDigit, Bool.and_eq_true, decide_eq_true_eq] at h
    rcases h with ⟨-, hhigh⟩ | ⟨-, hhigh⟩
    · exact lt_of_le_of_lt hhigh (by decide)
    · exact lt_of_le_of_lt hhigh (by decide)
  have hall : ∀ n < 128, isUpper (Char.ofNat n) = true ∨ (Char.ofNat n).isDigit = true →
      (Char.ofNat n).toLower.toUpper = Char.ofNat n := by decide +kernel
  have hc := hall c.toNat hsmall
  rw [Char.ofNat_toNat] at hc
  exact ⟨hsmall, hc h⟩

/-- Codes that are alike but for the case are the same. -/
theorem code_of_lowered {env : ImportEnv} (hlower : LowersAscii env) {a b : OrgCode}
    (h : lowered env.toEnv a.text = lowered env.toEnv b.text) : a = b := by
  have hmap : ∀ code : OrgCode, (lowered env.toEnv code.text).map Char.toUpper = code.text := by
    intro code
    have hascii : env.lower (String.ofList code.text) = (String.ofList code.text).toLower := by
      apply hlower
      intro c hc
      rw [String.toList_ofList] at hc
      exact (toUpper_toLower (code.chars c hc)).1
    rw [lowered, hascii]
    delta String.toLower
    rw [String.toList_map, String.toList_ofList, List.map_map]
    conv_rhs => rw [← List.map_id code.text]
    exact List.map_congr_left fun c hc => (toUpper_toLower (code.chars c hc)).2
  have htext : a.text = b.text := by
    rw [← hmap a, h, hmap b]
  cases a
  cases b
  cases htext
  rfl

end Codes

/-! ## The table -/

section Table

variable {table more : List (Str × Uuid)} {key : Str} {x : Uuid}

theorem lookup_append : lookup (table ++ more) key = (lookup more key).or (lookup table key) := by
  rw [lookup, lookup, lookup, List.reverse_append, List.find?_append]
  cases more.reverse.find? fun e => e.1 == key <;> rfl

theorem mem_of_lookup (h : lookup table key = some x) : (key, x) ∈ table := by
  rw [lookup, Option.map_eq_some_iff] at h
  obtain ⟨e, hfind, rfl⟩ := h
  have hmem := List.mem_reverse.1 (List.mem_of_find?_eq_some hfind)
  have hkey : e.1 = key := by simpa using List.find?_some hfind
  rw [← hkey]
  exact hmem

theorem lookup_eq_none (h : ∀ e ∈ table, e.1 ≠ key) : lookup table key = none := by
  cases hfind : lookup table key with
  | none => rfl
  | some x => exact absurd rfl (h _ (mem_of_lookup hfind))

theorem exists_lookup (h : (key, x) ∈ table) : ∃ y, lookup table key = some y := by
  cases hfind : lookup table key with
  | some y => exact ⟨y, rfl⟩
  | none =>
      rw [lookup, Option.map_eq_none_iff, List.find?_eq_none] at hfind
      exact absurd (by simp) (hfind _ (List.mem_reverse.2 h))

end Table

section Lookups

variable {env : ImportEnv} {branches : List BranchRow}

theorem mem_entries {e : Str × Uuid} (h : e ∈ branches.flatMap (entries env)) :
    ∃ b ∈ branches, e.2 = b.id ∧
      (e.1 = lowered env.toEnv b.code.text ∨ e.1 = lowered env.toEnv b.name.toList) := by
  obtain ⟨b, hb, he⟩ := List.mem_flatMap.1 h
  simp only [entries, List.mem_cons, List.not_mem_nil, or_false] at he
  rcases he with rfl | rfl
  · exact ⟨b, hb, rfl, Or.inl rfl⟩
  · exact ⟨b, hb, rfl, Or.inr rfl⟩

/-- A branch whose key no later one has is found by it. -/
theorem lookup_last {pre post : List BranchRow} {b : BranchRow} {key : Str}
    (hkey : key = lowered env.toEnv b.code.text ∨ key = lowered env.toEnv b.name.toList)
    (hpost : ∀ c ∈ post, lowered env.toEnv c.code.text ≠ key ∧ lowered env.toEnv c.name.toList ≠ key) :
    lookup ((pre ++ b :: post).flatMap (entries env)) key = some b.id := by
  have hnone : lookup (post.flatMap (entries env)) key = none := by
    apply lookup_eq_none
    intro e he
    obtain ⟨c, hc, -, hcode | hname⟩ := mem_entries he
    · rw [hcode]
      exact (hpost c hc).1
    · rw [hname]
      exact (hpost c hc).2
  have hself : lookup (entries env b) key = some b.id := by
    have hmem : (key, b.id) ∈ entries env b := by
      rcases hkey with rfl | rfl <;> simp [entries]
    obtain ⟨y, hy⟩ := exists_lookup hmem
    have hentry := mem_of_lookup hy
    simp only [entries, List.mem_cons, List.not_mem_nil, or_false, Prod.mk.injEq] at hentry
    rcases hentry with ⟨-, rfl⟩ | ⟨-, rfl⟩ <;> exact hy
  rw [List.flatMap_append, List.flatMap_cons, lookup_append, lookup_append, hnone, Option.none_or, hself,
    Option.some_or]

/-- No branch has a name that is the code of one before it. -/
def Apart (env : ImportEnv) (branches : List BranchRow) : Prop :=
  branches.Pairwise fun a b => lowered env.toEnv b.name.toList ≠ lowered env.toEnv a.code.text

theorem lookup_code (hlower : LowersAscii env) (hcodes : (branches.map BranchRow.code).Nodup)
    (hapart : Apart env branches) {b : BranchRow} (hb : b ∈ branches) :
    lookup (branches.flatMap (entries env)) (lowered env.toEnv b.code.text) = some b.id := by
  obtain ⟨pre, post, rfl⟩ := List.append_of_mem hb
  apply lookup_last (Or.inl rfl)
  intro c hc
  rw [List.map_append, List.map_cons] at hcodes
  have hnew := (List.nodup_cons.1 hcodes.of_append_right).1
  refine ⟨fun hsame => hnew ?_, ?_⟩
  · rw [← code_of_lowered hlower hsame]
    exact List.mem_map_of_mem hc
  · exact (List.pairwise_cons.1 (List.pairwise_append.1 hapart).2.1).1 c hc

theorem lookup_name (hids : (branches.map BranchRow.id).Nodup) {b : BranchRow} (hb : b ∈ branches) {key : Str}
    (hcodes : ∀ c ∈ branches, key ≠ lowered env.toEnv c.code.text)
    (hname : key = lowered env.toEnv b.name.toList)
    (honly : ∀ c ∈ branches, lowered env.toEnv c.name.toList = key → c = b) :
    lookup (branches.flatMap (entries env)) key = some b.id := by
  obtain ⟨pre, post, rfl⟩ := List.append_of_mem hb
  apply lookup_last (Or.inr hname)
  intro c hc
  have hmem : c ∈ pre ++ b :: post := List.mem_append_right _ (List.mem_cons_of_mem _ hc)
  refine ⟨(hcodes c hmem).symm, fun hsame => ?_⟩
  obtain rfl := honly c hmem hsame
  rw [List.map_append, List.map_cons] at hids
  exact (List.nodup_cons.1 hids.of_append_right).1 (List.mem_map_of_mem hc)

theorem apart_of_lookup (pre : List BranchRow) (hids : ((pre ++ branches).map BranchRow.id).Nodup)
    (h : ∀ b ∈ branches,
      lookup ((pre ++ branches).flatMap (entries env)) (lowered env.toEnv b.code.text) = some b.id) :
    Apart env branches := by
  induction branches generalizing pre with
  | nil => exact List.Pairwise.nil
  | cons a branches ih =>
      apply List.Pairwise.cons
      · intro b hb hsame
        have hmem : (lowered env.toEnv a.code.text, b.id) ∈ branches.flatMap (entries env) := by
          apply List.mem_flatMap.2
          exact ⟨b, hb, by simp [entries, hsame]⟩
        obtain ⟨y, hy⟩ := exists_lookup hmem
        obtain ⟨c, hc, hid, -⟩ := mem_entries (mem_of_lookup hy)
        have hfound := h a List.mem_cons_self
        rw [List.flatMap_append, List.flatMap_cons, lookup_append, lookup_append, hy, Option.some_or,
          Option.some_or] at hfound
        have haid : a.id = c.id := (Option.some.inj hfound).symm.trans hid
        rw [List.map_append, List.map_cons] at hids
        apply (List.nodup_cons.1 hids.of_append_right).1
        rw [haid]
        exact List.mem_map_of_mem hc
      · apply ih (pre ++ [a])
        · rw [List.append_assoc]
          exact hids
        · intro b hb
          rw [List.append_assoc]
          exact h b (List.mem_cons_of_mem _ hb)

end Lookups

/-! ## What a row adds -/

section Rows

variable {env : ImportEnv} {d : Db} {grants : List Grant}

theorem branch_of_validate {map : HeaderMap} {cells : List Str} {categories : List String}
    {student : CreateStudentValues}
    (h : (StudentImportService.validate env map cells (branchByKey env d) categories grants).student =
      some student) : branchFor env d (cellOf map cells .branch) = some student.branchId := by
  unfold StudentImportService.validate at h
  dsimp only at h
  split at h
  · rename_i hbranch _
    obtain rfl := Option.some.inj h
    exact hbranch
  · cases h

/-- A registration adds one student. -/
theorem wlp_create_student (env : Admissions.Env) (input : CreateStudentValues) (d : Db) :
    (StudentsService.create env input grants).wlp
      (fun _ d' => ∃ s, s.person = input.person ∧ s.branchId = input.branchId ∧ d'.students = d.students ++ [s])
      (fun _ => True) d := by
  unfold StudentsService.create
  rw [Prog.wlp_bind]
  refine (keeps_assertScope (φ := Db.records) _ _ _).wlp (fun _ v₁ h₁ => ?_) fun _ => trivial
  rw [Prog.wlp_bind]
  refine (keeps_isActiveBranch (φ := Db.records) _).wlp (fun _ v₂ h₂ => ?_) fun _ => trivial
  rw [Prog.wlp_bind, Prog.wlp_require]
  refine ⟨fun _ => ?_, fun _ => trivial⟩
  rw [Prog.wlp_bind]
  refine (keeps_assertActiveCode (φ := Db.records) _ _).wlp (fun _ v₃ h₃ => ?_) fun _ => trivial
  rw [Prog.wlp_bind]
  refine (keeps_validateValues (φ := Db.records) _ _ _).wlp (fun _ v₄ h₄ => ?_) fun _ => trivial
  rw [Prog.wlp_bind]
  refine (Prog.Keeps.when (φ := Db.records) _ (.bind (keeps_find _ _) fun _ => .require _ _)).wlp
    (fun _ v₅ h₅ => ?_) fun _ => trivial
  rw [Prog.wlp_bind]
  refine (keeps_nextNumber _ _ _).wlp (fun issued v₆ h₆ => ?_) fun _ => trivial
  have hstudents : v₆.students = d.students :=
    congrArg Prod.snd (h₆.trans (h₅.trans (h₄.trans (h₃.trans (h₂.trans h₁)))))
  simp only [StudentsService.insertStudent, Prog.wlp_bind, Prog.wlp_acquire, Prog.wlp_get, Prog.wlp_require,
    Prog.wlp_modify]
  refine ⟨fun _ => ⟨fun _ => ?_, fun _ => trivial⟩, fun _ => trivial⟩
  refine (keeps_insertGuardians _ _ _).wlp (fun _ v₇ h₇ => ?_) fun _ => trivial
  have hadded : v₇.students = _ := congrArg Prod.snd h₇
  rw [hstudents] at hadded
  exact ⟨_, rfl, rfl, hadded⟩

/-- A row adds students to the branch that its cell stands for. -/
theorem wlp_runRow_branch (input : StudentImportValues) (map : HeaderMap) (categories : List String)
    (block : Option String) (row : CsvRow × ℕ) (tally : Tally) (d₀ : Db) :
    (StudentImportService.runRow env input grants ⟨map, branchByKey env d, categories, block⟩ row tally).wlp
      (fun _ d' => ∀ s ∈ d'.students, s ∈ d₀.students ∨
        branchFor env d (cellOf map row.1.cells .branch) = some s.branchId) (fun _ => True) d₀ := by
  rw [StudentImportService.runRow]
  split
  · rename_i student _ hstudent
    rw [Prog.wlp_bind]
    refine (keeps_find (φ := Db.records) _ _).wlp (fun candidates v h => ?_) fun _ => trivial
    have hsame : v.students = d₀.students := congrArg Prod.snd h
    rw [Prog.wlp_ite]
    refine ⟨fun _ => ?_, fun _ => ?_⟩
    · rw [Prog.wlp_pure, hsame]
      exact fun s hs => Or.inl hs
    · rw [Prog.wlp_bind]
      refine Prog.wlp_mono ?_ (fun _ he => he) (wlp_create_student _ _ v)
      rintro - d' ⟨added, -, hbranch, hd'⟩
      rw [Prog.wlp_pure, hd', hsame]
      intro s hs
      rcases List.mem_append.1 hs with hs | hs
      · exact Or.inl hs
      · right
        rw [branch_of_validate hstudent, List.mem_singleton.1 hs]
        exact congrArg some hbranch.symm
  · rw [Prog.wlp_pure]
    exact fun s hs => Or.inl hs

end Rows

/-! ## Codes and names -/

section Right

variable (env : ImportEnv) (d : Db)

/-- The cells that are a code, but for the case, go to the branch with the code, and
those that are no code but the name of one branch only to that one. -/
def CodesRight : Prop :=
  (∀ b ∈ activeBranches d, ∀ cell, lowered env.toEnv cell = lowered env.toEnv b.code.text →
    branchFor env d cell = some b.id) ∧
  ∀ b ∈ activeBranches d, ∀ cell,
    (∀ c ∈ activeBranches d, lowered env.toEnv cell ≠ lowered env.toEnv c.code.text) →
    lowered env.toEnv cell = lowered env.toEnv b.name.toList →
    (∀ c ∈ activeBranches d, lowered env.toEnv c.name.toList = lowered env.toEnv cell → c = b) →
    branchFor env d cell = some b.id

variable {env d}

/-- A row is imported into the branch of its cell, and that is the right one for all
cells if and only if no active branch has a name that is the code of one listed
before it. -/
theorem codes_right_iff (hlower : LowersAscii env) (hids : (d.numbering.branches.map BranchRow.id).Nodup)
    (hcodes : (d.numbering.branches.map BranchRow.code).Nodup) :
    (∀ input grants map categories block row tally d₀,
      (StudentImportService.runRow env input grants ⟨map, branchByKey env d, categories, block⟩ row tally).wlp
        (fun _ d' => ∀ s ∈ d'.students, s ∈ d₀.students ∨
          branchFor env d (cellOf map row.1.cells .branch) = some s.branchId) (fun _ => True) d₀) ∧
      (CodesRight env d ↔ Apart env (activeBranches d)) := by
  have hperm := orderBy_perm (fun b : BranchRow => b.name) d.numbering.branches
  have hids' : ((activeBranches d).map BranchRow.id).Nodup :=
    ((List.filter_sublist).map _).nodup ((hperm.map _).nodup_iff.2 hids)
  have hcodes' : ((activeBranches d).map BranchRow.code).Nodup :=
    ((List.filter_sublist).map _).nodup ((hperm.map _).nodup_iff.2 hcodes)
  refine ⟨fun input grants map categories block row tally d₀ =>
    wlp_runRow_branch input map categories block row tally d₀, ?_, ?_⟩
  · rintro ⟨hright, -⟩
    exact apart_of_lookup [] hids' fun b hb => hright b hb b.code.text rfl
  · intro hapart
    constructor
    · intro b hb cell hcell
      rw [branchFor, branchByKey_eq, hcell]
      exact lookup_code hlower hcodes' hapart hb
    · intro b hb cell hnone hname honly
      rw [branchFor, branchByKey_eq]
      exact lookup_name hids' hb hnone hname honly

end Right

def BOLE : OrgCode := ⟨"BOLE".toList, by decide, by decide⟩

/-- The branches BOLE, named `second`, and PIAZ, named `first`. -/
def twoBranches (first second : String) : Db where
  numbering :=
    { branches := [⟨1, BOLE, second, true⟩,
        ⟨2, ⟨"PIAZ".toList, by decide, by decide⟩, first, true⟩] }

theorem codes_right_iff_twoBranches :
    CodesRight {} (twoBranches "Piassa" "Bole Campus") ∧
      branchFor {} (twoBranches "Piassa" "Bole Campus") "bole".toList = some 1 := by
  have hlower : LowersAscii {} := fun _ _ => rfl
  have hright := (@codes_right_iff {} (twoBranches "Piassa" "Bole Campus") hlower (by decide) (by decide)).2
  exact ⟨hright.2 (by unfold Apart; decide +kernel), by decide +kernel⟩

/-- The branch PIAZ is named Bole, and comes behind Addis Bole: rows for BOLE go to it. -/
theorem code_taken_over :
    ¬ CodesRight {} (twoBranches "Bole" "Addis Bole") ∧
      branchFor {} (twoBranches "Bole" "Addis Bole") "BOLE".toList = some 2 := by
  have hother : branchFor {} (twoBranches "Bole" "Addis Bole") "BOLE".toList = some 2 := by decide +kernel
  refine ⟨fun hright => ?_, hother⟩
  have hbole : (⟨1, BOLE, "Addis Bole", true⟩ : BranchRow) ∈
      activeBranches (twoBranches "Bole" "Addis Bole") := by decide +kernel
  have hfound := hright.1 _ hbole "BOLE".toList rfl
  rw [hother] at hfound
  cases hfound

end Emis.Imports
