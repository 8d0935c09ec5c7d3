import Emis.Audit.AuditService

/-!
# What `verify` answers

`verify` reads the table in batches, in the order of `seq`. Its answer is the one
of a single pass over all rows: intact exactly if each row names the hash of the
row before it and has the hash of what it says.
-/

namespace Emis.Audit

open Transactions

variable {sha256 : Str → Str}

/-! ## One pass -/

/-- Each row names the hash before it, `prevHash` at the start, and has its own. -/
def Chained (sha256 : Str → Str) : Option Str → List AuditRow → Prop
  | _, [] => True
  | prevHash, row :: rows => row.prevHash = prevHash ∧
      chainHash sha256 (contentOf row) row.prevHash = row.hash ∧ Chained sha256 (some row.hash) rows

/-- The hash that the row after these has to name. -/
def lastHash (rows : List AuditRow) : Option Str := rows.getLast?.map AuditRow.hash

theorem lastHash_snoc (rows : List AuditRow) (row : AuditRow) :
    lastHash (rows ++ [row]) = some row.hash := by
  simp [lastHash]

theorem chained_append {prevHash : Option Str} {rows rows' : List AuditRow} :
    Chained sha256 prevHash (rows ++ rows') ↔ Chained sha256 prevHash rows ∧
      Chained sha256 ((lastHash rows).or prevHash) rows' := by
  induction rows generalizing prevHash with
  | nil => simp [Chained, lastHash]
  | cons row rows ih =>
      have hlast : (lastHash (row :: rows)).or prevHash = (lastHash rows).or (some row.hash) := by
        cases h : rows.getLast? <;> simp [lastHash, List.getLast?_cons, h]
      rw [List.cons_append, Chained, Chained, ih, hlast, and_assoc, and_assoc]

namespace AuditService

/-- What a pass ends with. -/
def verdict : Except AuditVerifyResponse Progress → AuditVerifyResponse
  | .error broken => broken
  | .ok p => { intact := true, checked := p.checked, brokenAtSeq := none }

theorem checkRows_append (p : Progress) (rows rows' : List AuditRow) :
    checkRows sha256 p (rows ++ rows') =
      (checkRows sha256 p rows).bind fun p => checkRows sha256 p rows' := by
  induction rows generalizing p with
  | nil => rfl
  | cons row rows ih =>
      rw [List.cons_append, checkRows, checkRows]
      split
      · rfl
      · exact ih _

theorem checkRows_snoc {p p' : Progress} {rows : List AuditRow} {row : AuditRow}
    (h : checkRows sha256 p (rows ++ [row]) = .ok p') : p'.afterSeq = row.seq := by
  rw [checkRows_append] at h
  cases hrows : checkRows sha256 p rows with
  | error broken => simp [hrows, Except.bind] at h
  | ok p₁ =>
      simp only [hrows, Except.bind, checkRows] at h
      split at h
      · simp at h
      · obtain rfl := Except.ok.inj h
        rfl

/-- A pass without complaint has seen a chain and counted its rows. -/
theorem checkRows_chained {p : Progress} {rows : List AuditRow}
    (h : Chained sha256 p.prevHash rows) :
    (verdict (checkRows sha256 p rows)) =
      { intact := true, checked := p.checked + rows.length, brokenAtSeq := none } := by
  induction rows generalizing p with
  | nil => rfl
  | cons row rows ih =>
      obtain ⟨hprev, hhash, hrest⟩ := h
      have hrow : ¬ (row.prevHash ≠ p.prevHash ∨
          chainHash sha256 (contentOf row) row.prevHash ≠ row.hash) := by
        simp [hprev, ← hhash]
      rw [checkRows, if_neg hrow, ih hrest, List.length_cons, Nat.add_right_comm, Nat.add_assoc]

theorem intact_checkRows {p : Progress} {rows : List AuditRow} :
    (verdict (checkRows sha256 p rows)).intact = true ↔ Chained sha256 p.prevHash rows := by
  constructor
  · intro h
    induction rows generalizing p with
    | nil => trivial
    | cons row rows ih =>
        rw [checkRows] at h
        split at h
        · simp [verdict] at h
        · rename_i hrow
          obtain ⟨hprev, hhash⟩ := not_or.1 hrow
          exact ⟨not_not.1 hprev, not_not.1 hhash, ih h⟩
  · intro h
    rw [checkRows_chained h]

/-! ## The batches -/

theorem alone_get_bind {α : Type} (k : Db → Tx α) (d : Db) : (Prog.get >>= k).alone d = (k d).alone d :=
  rfl

/-- The batches make one pass. -/
theorem alone_verifyFrom {d : Db} (hkeys : (d.auditLog.map AuditRow.seq).Nodup) {fuel : ℕ}
    {p : Progress} (hfuel : (behind AuditRow.seq p.afterSeq d.auditLog).length < fuel) :
    (verifyFrom sha256 fuel p).alone d =
      (.ok (some (verdict (checkRows sha256 p (behind AuditRow.seq p.afterSeq d.auditLog)))), d) := by
  induction fuel generalizing p with
  | zero => omega
  | succ fuel ih =>
      rw [verifyFrom, alone_get_bind]
      set rows := behind AuditRow.seq p.afterSeq d.auditLog with hrows
      by_cases hempty : rows.take VERIFY_BATCH = []
      · have hnone : rows = [] := by simpa [VERIFY_BATCH] using hempty
        rw [hnone]
        rfl
      · have hsplit : rows = rows.take VERIFY_BATCH ++ rows.drop VERIFY_BATCH :=
          (List.take_append_drop _ _).symm
        rw [if_neg (by simpa using hempty), hsplit, checkRows_append]
        simp only [List.take_append_drop]
        cases hbatch : checkRows sha256 p (rows.take VERIFY_BATCH) with
        | error broken => rfl
        | ok p' =>
            obtain ⟨before, last, hlast⟩ := (List.eq_nil_or_concat (rows.take VERIFY_BATCH)).resolve_left hempty
            rw [List.concat_eq_append] at hlast
            have hseq : p'.afterSeq = last.seq := by
              rw [hlast] at hbatch
              exact checkRows_snoc hbatch
            have hwhole : rows = before ++ last :: rows.drop VERIFY_BATCH := by
              rw [hlast, List.append_assoc, List.singleton_append] at hsplit
              exact hsplit
            have hrest : behind AuditRow.seq p'.afterSeq d.auditLog = rows.drop VERIFY_BATCH := by
              rw [hseq]
              exact behind_of_append hkeys (hrows.symm.trans hwhole)
            have hlength := congrArg List.length hwhole
            rw [List.length_append, List.length_cons] at hlength
            have hnext := @ih p' (by rw [hrest]; omega)
            rw [hrest] at hnext
            exact hnext

end AuditService

/-- `verify`, with nobody else around, ends with the answer. -/
def Answers (sha256 : Str → Str) (d : Db) (r : AuditVerifyResponse) : Prop :=
  ∃ n, ∀ fuel, n ≤ fuel → (AuditService.verify sha256 fuel).alone d = (.ok (some r), d)

/-- The rows in the order in which `verify` sees them. -/
def Db.chain (d : Db) : List AuditRow := behind AuditRow.seq 0 d.auditLog

theorem answers_iff {d : Db} (hkeys : (d.auditLog.map AuditRow.seq).Nodup) {r : AuditVerifyResponse} :
    Answers sha256 d r ↔ r = AuditService.verdict (AuditService.checkRows sha256 {} d.chain) := by
  have halone : ∀ fuel, d.chain.length < fuel → (AuditService.verify sha256 fuel).alone d =
      (.ok (some (AuditService.verdict (AuditService.checkRows sha256 {} d.chain))), d) :=
    fun fuel hfuel => AuditService.alone_verifyFrom hkeys hfuel
  constructor
  · rintro ⟨n, h⟩
    have hanswer := h (n + d.chain.length + 1) (by omega)
    rw [halone _ (by omega)] at hanswer
    simpa [eq_comm] using hanswer
  · rintro rfl
    exact ⟨d.chain.length + 1, fun fuel hfuel => halone fuel hfuel⟩

/-- `verify` answers that the chain is intact. -/
def Intact (sha256 : Str → Str) (d : Db) : Prop := ∃ r, Answers sha256 d r ∧ r.intact = true

theorem intact_iff {d : Db} (hkeys : (d.auditLog.map AuditRow.seq).Nodup) :
    Intact sha256 d ↔ Chained sha256 none d.chain := by
  simp only [Intact, answers_iff hkeys, exists_eq_left]
  exact AuditService.intact_checkRows

end Emis.Audit
