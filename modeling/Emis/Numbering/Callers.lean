import Emis.Numbering.Distinct

/-!
# Who asks for numbers

The six callers of `next`, each with what it passes, and when a pattern that the
settings accept stops one of them.
-/

namespace Emis.Numbering

open Transactions

/-- `StudentsService.create`, `ApplicationsService.create` and `submitFromWebsite`,
`InvoicesService.create`, `PaymentsService.record` and `CertificatesService.issue`. -/
inductive Caller where
  | student
  | desk
  | website
  | invoice
  | receipt
  | certificate
  deriving DecidableEq, Repr

namespace Caller

def series : Caller → NumberSeriesKey
  | .student => .student
  | .desk | .website => .application
  | .invoice => .invoice
  | .receipt => .receipt
  | .certificate => .certificate

/-- What the caller makes of the branch of its record. -/
def options (branchId : Uuid) : Caller → Option Uuid
  | .student | .desk | .certificate => none
  | .website | .invoice | .receipt => some branchId

def next (caller : Caller) (env : Env) (branchId : Uuid) : Tx IssuedNumber :=
  NumberingService.next env caller.series (caller.options branchId) none

/-- Does the caller name its branch? -/
def namesBranch (caller : Caller) : Bool := [.website, .invoice, .receipt].contains caller

theorem options_eq (caller : Caller) (branchId : Uuid) :
    caller.options branchId = if caller.namesBranch then some branchId else none := by
  cases caller <;> rfl

end Caller

theorem numberFrame_ok (p : NumberPattern) {ctx : NumberContext}
    (hcode : patternUsesBranch p.text = true → ctx.branchCode ≠ none) :
    ∃ F, numberFrame p ctx = .ok F := by
  obtain ⟨a, ha⟩ := around_ok p.shape hcode
  exact ⟨_, by rw [numberFrame_eq, ha]; rfl⟩

/-- `next` gives a number exactly where the branch code is found or not needed. -/
theorem next_ok_iff (env : Env) (key : NumberSeriesKey) (branchId : Option Uuid)
    (date : Option Instant) {d : Db} (hinst : d.institution ≠ none) :
    (∃ r d', (NumberingService.next env key branchId date).alone d = (.ok r, d')) ↔
      d.codeFor (d.patternOf key) branchId ≠ none := by
  obtain ⟨inst, hinst⟩ := Option.ne_none_iff_exists'.1 hinst
  set u : Draw := ⟨d.patternOf key, branchId, env.zone (date.getD env.now) inst.timezone⟩ with hu
  have hdraw : (Call.next env key branchId date).draw key d = some u := by simp [Call.draw, hinst, hu]
  have hframe : d.frameOf u ≠ none ↔ d.codeFor (d.patternOf key) branchId ≠ none := by
    cases hcode : d.codeFor (d.patternOf key) branchId with
    | none => simp [Db.frameOf, hu, hcode]
    | some code =>
        have hcontext : patternUsesBranch (d.patternOf key).text = true →
            (numberContextAt u.date inst code).branchCode ≠ none := by
          intro huses
          simp only [Db.codeFor, huses, if_true, Option.map_eq_some_iff] at hcode
          obtain ⟨b, -, rfl⟩ := hcode
          simp [numberContextAt]
        obtain ⟨F, hF⟩ := numberFrame_ok (d.patternOf key) hcontext
        simp only [hu] at hF
        simp [Db.frameOf, hinst, hu, hcode, hF, Except.toOption]
  rw [← hframe]
  rcases Prog.alone_cases (wlp_next env key branchId date d) with
    ⟨r, d', hrun, v, F, hv, hF, -⟩ | ⟨e, hrun, hnone⟩
  · obtain rfl := Option.some_inj.1 (hdraw.symm.trans hv)
    simp [hrun, hF]
  · simp [hrun, hnone u hdraw]

/-- Where the settings have just accepted a pattern, a caller whose branch exists
gets a number exactly if the pattern has no `{BRANCH}` or the caller names it. -/
theorem accepted_pattern_issues_iff (caller : Caller) (pattern : NumberPattern) (env env' : Env)
    (d d' : Db) (series : List NumberSeries)
    (hset : (NumberingService.setPattern env caller.series.text pattern).alone d = (.ok series, d'))
    (branchId : Uuid) (hbranch : ∃ b ∈ d'.branches, b.id = branchId) :
    (∃ r d'', (caller.next env' branchId).alone d' = (.ok r, d'')) ↔
      patternUsesBranch pattern.text = false ∨ caller.namesBranch = true := by
  rcases Prog.alone_cases (wlp_setPattern env caller.series.text pattern d) with
    ⟨_, d₁, hrun, k, hk, hpattern, hinst, -, -, hset'⟩ | ⟨e, hrun, -⟩
  · obtain rfl : d₁ = d' := congrArg Prod.snd (hrun.symm.trans hset)
    obtain rfl : k = caller.series := by
      revert hk
      cases k <;> cases caller <;> decide
    rw [Caller.next, next_ok_iff _ _ _ _ (hinst ▸ hset'), hpattern, caller.options_eq, Db.codeFor]
    have hfind : (d₁.branches.find? fun b => b.id == branchId) ≠ none := by
      obtain ⟨b, hb, hid⟩ := hbranch
      simp only [ne_eq, List.find?_eq_none, not_forall]
      exact ⟨b, hb, by simp [hid]⟩
    cases huses : patternUsesBranch pattern.text <;> cases hnames : caller.namesBranch <;> simp [hfind]
  · simp [hrun] at hset

/-- `{BRANCH}{SEQ:1}` is fine for receipts. -/
theorem accepted_pattern_issues_iff_receipt :
    ∃ r d'', (Caller.receipt.next {} 1).alone
      ((NumberingService.setPattern {} "receipt" branchAndSequence).alone twoBranches).2 =
        (.ok r, d'') := by
  have hset : ∃ series d', (NumberingService.setPattern {} "receipt" branchAndSequence).alone
      twoBranches = (.ok series, d') ∧ d'.branches = twoBranches.branches := by
    rcases Prog.alone_cases (wlp_setPattern {} "receipt" branchAndSequence twoBranches) with
      ⟨series, d', hrun, _, -, -, -, hbranches, -⟩ | ⟨e, -, hnone | hkey⟩
    · exact ⟨series, d', hrun, hbranches⟩
    · exact absurd hnone (by decide)
    · exact absurd rfl (hkey .receipt)
  obtain ⟨series, d', hrun, hbranches⟩ := hset
  rw [hrun]
  refine (accepted_pattern_issues_iff .receipt branchAndSequence {} {} twoBranches d' series hrun 1
    ?_).2 (.inr rfl)
  rw [hbranches]
  exact ⟨_, List.mem_cons_self, rfl⟩

/-- The settings accept the same pattern for students, and then nobody can be
registered. -/
theorem student_number_refused :
    ((NumberingService.setPattern {} "student" branchAndSequence).alone twoBranches).1.isOk = true ∧
      ((Caller.student.next {} 1).alone
        ((NumberingService.setPattern {} "student" branchAndSequence).alone twoBranches).2).1 =
          .error (.internal "Number series \"student\" needs a branch") := by
  decide +kernel

end Emis.Numbering
