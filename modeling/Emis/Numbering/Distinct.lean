import Emis.Numbering.NumberingService

/-!
# When numbers repeat

A run serves calls one after the other. What a number is made from is the
pattern stored at that moment, the branch and the date; together they give the
text around the sequence and the counter. One counter never gives a number
twice; two counters do exactly if their texts meet.
-/

namespace Emis.Numbering

open Numerals Transactions

inductive Call where
  | setPattern (env : Env) (key : String) (pattern : NumberPattern)
  | next (env : Env) (key : NumberSeriesKey) (branchId : Option Uuid) (date : Option Instant)

inductive Reply where
  | series (r : List NumberSeries)
  | issued (r : IssuedNumber)

def Call.code : Call → Tx Reply
  | .setPattern env key pattern => .series <$> NumberingService.setPattern env key pattern
  | .next env key branchId date => .issued <$> NumberingService.next env key branchId date

/-- The store after one call. -/
def Call.after (call : Call) (d : Db) : Db := (call.code.alone d).2

/-- The number a call issues in the series `key`. -/
def Call.number (key : NumberSeriesKey) (call : Call) (d : Db) : Option Text :=
  match call, (call.code.alone d).1 with
  | .next _ key' _ _, .ok (.issued r) => if key' = key then some r.number else none
  | _, _ => none

/-- The numbers a run issues in one series. -/
def numbers (key : NumberSeriesKey) : List Call → Db → List Text
  | [], _ => []
  | call :: calls, d => (call.number key d).toList ++ numbers key calls (call.after d)

def afterAll : List Call → Db → Db
  | [], d => d
  | call :: calls, d => afterAll calls (call.after d)

/-- What a number is made from. -/
structure Draw where
  pattern : NumberPattern
  branchId : Option Uuid
  date : Day

def Call.draw (key : NumberSeriesKey) (call : Call) (d : Db) : Option Draw :=
  match call, d.institution with
  | .next env key' branchId date, some inst =>
      if key' = key then
        some ⟨d.patternOf key, branchId, env.zone (date.getD env.now) inst.timezone⟩
      else none
  | _, _ => none

/-- What the calls of a run draw from in one series. -/
def draws (key : NumberSeriesKey) : List Call → Db → List Draw
  | [], _ => []
  | call :: calls, d => (call.draw key d).toList ++ draws key calls (call.after d)

/-- The code of a branch, where the pattern uses one. -/
def Db.codeFor (d : Db) (pattern : NumberPattern) (branchId : Option Uuid) :
    Option (Option OrgCode) :=
  if patternUsesBranch pattern.text then
    (branchId.bind fun id => d.branches.find? fun b => b.id == id).map fun b => some b.code
  else some none

/-- The text around the sequence, if the institution has the branch. -/
def Db.frameOf (d : Db) (u : Draw) : Option Frame :=
  d.institution.bind fun inst => (d.codeFor u.pattern u.branchId).bind fun branchCode =>
    (numberFrame u.pattern (numberContextAt u.date inst branchCode)).toOption

/-- The counter key of a text. -/
def scopeOf (F : Frame) : Text := F.fill (Token.text ⟨SEQ, none⟩)

def Db.counter (d : Db) (key : NumberSeriesKey) (scope : Text) : ℕ :=
  (d.numberCounters key scope).getD 0

/-! ## One call -/

theorem counter_count (d : Db) (key : NumberSeriesKey) (scope : Text) :
    (d.count key scope).numberCounters key scope = some (d.counter key scope + 1) := by
  simp only [Db.count, Db.counter, Function.update_self]
  cases d.numberCounters key scope <;> rfl

theorem counter_count_of_ne {d : Db} {key key' : NumberSeriesKey} {scope scope' : Text}
    (h : key' ≠ key ∨ scope' ≠ scope) :
    (d.count key scope).counter key' scope' = d.counter key' scope' := by
  by_cases hkey : key' = key
  · subst hkey
    simp [Db.count, Db.counter, h.resolve_left (by simp)]
  · simp [Db.count, Db.counter, hkey]

theorem wlp_branchCodeFor {key : NumberSeriesKey} {pattern : NumberPattern}
    {branchId : Option Uuid} {Φ : Option OrgCode → Db → Prop} {E : Error → Prop} {d : Db}
    (hok : ∀ code, d.codeFor pattern branchId = some code → Φ code d)
    (herr : ∀ e, d.codeFor pattern branchId = none → E e) :
    (NumberingService.branchCodeFor key pattern branchId).wlp Φ E d := by
  unfold NumberingService.branchCodeFor
  unfold Db.codeFor at hok herr
  by_cases huses : patternUsesBranch pattern.text
  · simp only [if_pos huses, Prog.wlp_bind, Prog.wlp_expect, Prog.wlp_get, Prog.wlp_pure]
    refine ⟨fun id hid => ⟨fun b hb => hok _ ?_, fun hnone => herr _ ?_⟩, fun hnone => herr _ ?_⟩
    · simp [huses, hid, hb]
    · simp [huses, hid, hnone]
    · simp [huses, hnone]
  · rw [if_neg huses]
    exact hok none (if_neg huses)

/-- `next` counts up in the scope of its frame, or throws where there is none. -/
theorem wlp_next (env : Env) (key : NumberSeriesKey) (branchId : Option Uuid)
    (date : Option Instant) (d : Db) :
    (NumberingService.next env key branchId date).wlp
      (fun r d' => ∃ u F, (Call.next env key branchId date).draw key d = some u ∧
        d.frameOf u = some F ∧ d' = d.count key (scopeOf F) ∧
        r.number = F.render (d.counter key (scopeOf F) + 1))
      (fun _ => ∀ u, (Call.next env key branchId date).draw key d = some u → d.frameOf u = none)
      d := by
  simp only [NumberingService.next, institutionRow, Prog.wlp_bind, Prog.wlp_get, Prog.wlp_expect,
    Prog.wlp_pure, Prog.wlp_ofExcept, Prog.wlp_acquire, Prog.wlp_modify, numberScope_eq,
    formatNumber_eq]
  refine ⟨fun inst hinst => ?_, fun hnone u hu => by simp [Call.draw, hnone] at hu⟩
  have hdraw : (Call.next env key branchId date).draw key d =
      some ⟨d.patternOf key, branchId, env.zone (date.getD env.now) inst.timezone⟩ := by
    simp [Call.draw, hinst]
  refine wlp_branchCodeFor (fun code hcode => ?_) fun e hcode u hu => ?_
  · set ctx := numberContextAt (env.zone (date.getD env.now) inst.timezone) inst code with hctx
    have hframe : d.frameOf ⟨d.patternOf key, branchId, env.zone (date.getD env.now) inst.timezone⟩ =
        (numberFrame (d.patternOf key) ctx).toOption := by
      simp [Db.frameOf, hinst, hcode, ← hctx]
    cases hF : numberFrame (d.patternOf key) ctx with
    | error e =>
        refine ⟨fun scope h => by simp [Except.map] at h, fun e' _ u hu => ?_⟩
        obtain rfl := Option.some_inj.1 (hdraw.symm.trans hu)
        simp [hframe, hF, Except.toOption]
    | ok F =>
        refine ⟨fun scope hscope => ?_, fun e h => by simp [Except.map] at h⟩
        obtain rfl : scopeOf F = scope := Except.ok.inj hscope
        refine ⟨fun lastValue hlast => ⟨fun number hnumber => ?_, fun e h => ?_⟩, fun h => ?_⟩
        · obtain rfl : F.render lastValue = number := Except.ok.inj hnumber
          rw [counter_count] at hlast
          refine ⟨_, F, hdraw, by simp [hframe, hF, Except.toOption], rfl, ?_⟩
          rw [Option.some_inj.1 hlast]
        · simp [Except.map] at h
        · simp [counter_count] at h
  · obtain rfl := Option.some_inj.1 (hdraw.symm.trans hu)
    simp [Db.frameOf, hcode]

theorem wlp_list (env : Env) {d : Db} (hinst : d.institution ≠ none) :
    (NumberingService.list env).wlp (fun _ d' => d' = d) (fun _ => False) d := by
  simp only [NumberingService.list, institutionRow, Prog.wlp_bind, Prog.wlp_get, Prog.wlp_expect]
  refine ⟨fun inst _ => ?_, fun hnone => hinst hnone⟩
  have hfill (date : Day) (code : OrgCode) (pattern : Text) (e : Error) :
      formatNumber pattern (numberContextAt date inst (some code)) 1 ≠ .error e := by
    have hcode : (numberContextAt date inst (some code)).branchCode ≠ none := by simp [numberContextAt]
    obtain ⟨s, hs⟩ := fillPieces_ok (padStart (seqWidth pattern) (Nat.toDigits 10 1))
      (pieces pattern) fun _ _ _ => hcode
    simp [formatNumber, fill, hs]
  simp [NUMBER_SERIES_KEYS, List.mapM_cons, hfill]

/-- `setPattern` stores the pattern and touches nothing else. -/
theorem wlp_setPattern (env : Env) (key : String) (pattern : NumberPattern) (d : Db) :
    (NumberingService.setPattern env key pattern).wlp
      (fun _ d' => ∃ k : NumberSeriesKey, k.text = key ∧
        d'.patternOf k = pattern ∧ d'.institution = d.institution ∧ d'.branches = d.branches ∧
        d'.numberCounters = d.numberCounters ∧ d.institution ≠ none)
      (fun _ => d.institution = none ∨ ∀ k : NumberSeriesKey, k.text ≠ key) d := by
  simp only [NumberingService.setPattern, Prog.wlp_bind, Prog.wlp_expect, Prog.wlp_get,
    Prog.wlp_when, Prog.wlp_acquire, Prog.wlp_modify]
  refine ⟨fun k hk => ?_, fun hnone => .inr fun k hk => ?_⟩
  · have htext : k.text = key := by simpa using List.find?_some hk
    by_cases hinst : d.institution = none
    · have hkeep : ∀ (Φ : List NumberSeries → Db → Prop) d', d'.institution = none →
          (NumberingService.list env).wlp Φ
            (fun _ => d.institution = none ∨ ∀ k : NumberSeriesKey, k.text ≠ key) d' := by
        intro Φ d' hd'
        simp only [NumberingService.list, institutionRow, Prog.wlp_bind, Prog.wlp_get,
          Prog.wlp_expect, hd']
        exact ⟨fun inst h => by simp at h, fun _ => .inl hinst⟩
      exact ⟨fun _ => hkeep _ _ hinst, fun _ => hkeep _ _ hinst⟩
    · refine ⟨fun _ => ?_, fun hsame => ?_⟩
      · refine Prog.wlp_mono ?_ (fun e h => h.elim) (wlp_list env hinst)
        rintro _ d' rfl
        exact ⟨k, htext, by simp [Db.patternOf, Db.setSeries], rfl, rfl, rfl, hinst⟩
      · refine Prog.wlp_mono ?_ (fun e h => h.elim) (wlp_list env hinst)
        rintro _ d' rfl
        exact ⟨k, htext, by simpa using hsame, rfl, rfl, rfl, hinst⟩
  · have hmem : k ∈ NUMBER_SERIES_KEYS := by cases k <;> decide
    have hne := List.find?_eq_none.1 hnone k hmem
    simp [hk] at hne

/-- A call that issues a number counts its scope up; any other call leaves the
counters of the series alone. -/
theorem Call.step_cases (key : NumberSeriesKey) (call : Call) (d : Db) :
    (∃ u F, call.draw key d = some u ∧ d.frameOf u = some F ∧
      call.after d = d.count key (scopeOf F) ∧
      call.number key d = some (F.render (d.counter key (scopeOf F) + 1))) ∨
    (call.number key d = none ∧ (call.after d).institution = d.institution ∧
      (call.after d).branches = d.branches ∧
      (call.after d).numberCounters key = d.numberCounters key) := by
  cases call with
  | setPattern env k pattern =>
      refine .inr ⟨by simp [Call.number], ?_⟩
      rcases Prog.alone_map_cases Reply.series (wlp_setPattern env k pattern d) with
        ⟨_, d', hrun, _, -, -, hinst, hbranches, hcounters, -⟩ | ⟨e, hrun, -⟩
      · have hafter : (Call.setPattern env k pattern).after d = d' := congrArg Prod.snd hrun
        rw [hafter, hcounters]
        exact ⟨hinst, hbranches, rfl⟩
      · have hafter : (Call.setPattern env k pattern).after d = d := congrArg Prod.snd hrun
        rw [hafter]
        exact ⟨rfl, rfl, rfl⟩
  | next env k branchId date =>
      rcases Prog.alone_map_cases Reply.issued (wlp_next env k branchId date d) with
        ⟨r, d', hrun, u, F, hdraw, hframe, rfl, hnumber⟩ | ⟨e, hrun, -⟩
      · have hafter : (Call.next env k branchId date).after d = d.count k (scopeOf F) :=
          congrArg Prod.snd hrun
        have hreply : ((Call.next env k branchId date).code.alone d).1 = .ok (.issued r) :=
          congrArg Prod.fst hrun
        by_cases hk : k = key
        · subst hk
          exact .inl ⟨u, F, hdraw, hframe, hafter, by simp [Call.number, hreply, hnumber]⟩
        · refine .inr ⟨by simp [Call.number, hreply, hk], ?_⟩
          rw [hafter]
          refine ⟨rfl, rfl, ?_⟩
          simp [Db.count, Ne.symm hk]
      · have hafter : (Call.next env k branchId date).after d = d := congrArg Prod.snd hrun
        have hreply : ((Call.next env k branchId date).code.alone d).1 = .error e :=
          congrArg Prod.fst hrun
        rw [hafter]
        exact .inr ⟨by simp [Call.number, hreply], rfl, rfl, rfl⟩

/-- Where the number of `u` can be made, a call that draws from `u` makes it. -/
theorem next_issues {env : Env} {key : NumberSeriesKey} {branchId : Option Uuid}
    {date : Option Instant} {d : Db} {u : Draw} {F : Frame}
    (hdraw : (Call.next env key branchId date).draw key d = some u) (hframe : d.frameOf u = some F) :
    (Call.next env key branchId date).after d = d.count key (scopeOf F) ∧
      (Call.next env key branchId date).number key d =
        some (F.render (d.counter key (scopeOf F) + 1)) := by
  rcases Prog.alone_map_cases Reply.issued (wlp_next env key branchId date d) with
    ⟨r, d', hrun, u', F', hdraw', hframe', rfl, hnumber⟩ | ⟨e, hrun, hnone⟩
  · obtain rfl := Option.some_inj.1 (hdraw.symm.trans hdraw')
    obtain rfl := Option.some_inj.1 (hframe.symm.trans hframe')
    have hreply : ((Call.next env key branchId date).code.alone d).1 = .ok (.issued r) :=
      congrArg Prod.fst hrun
    exact ⟨congrArg Prod.snd hrun, by simp [Call.number, hreply, hnumber]⟩
  · simp [hnone u hdraw] at hframe

/-! ## Runs -/

theorem frameOf_congr {d d' : Db} (hinst : d'.institution = d.institution)
    (hbranches : d'.branches = d.branches) (u : Draw) : d'.frameOf u = d.frameOf u := by
  simp only [Db.frameOf, Db.codeFor, hinst, hbranches]

/-- No two of the draws have texts that meet, but for those on one counter. -/
def Apart (d : Db) (U : Set Draw) : Prop :=
  ∀ u ∈ U, ∀ v ∈ U, ∀ F G, d.frameOf u = some F → d.frameOf v = some G →
    scopeOf F ≠ scopeOf G → ¬ F.Meets G

theorem numberFrame_of_frameOf {d : Db} {u : Draw} {F : Frame} (h : d.frameOf u = some F) :
    ∃ ctx, numberFrame u.pattern ctx = .ok F := by
  obtain ⟨inst, -, h⟩ := Option.bind_eq_some_iff.1 h
  obtain ⟨code, -, h⟩ := Option.bind_eq_some_iff.1 h
  refine ⟨numberContextAt u.date inst code, ?_⟩
  cases hframe : numberFrame u.pattern (numberContextAt u.date inst code) with
  | error e => simp [hframe, Except.toOption] at h
  | ok G => simpa [hframe, Except.toOption] using h

/-- On one counter, equal numbers have equal sequences. -/
theorem sequence_of_render {d d' : Db} {u v : Draw} {F G : Frame} {m n : ℕ}
    (hF : d.frameOf u = some F) (hG : d'.frameOf v = some G) (hscope : scopeOf F = scopeOf G)
    (h : F.render m = G.render n) : m = n := by
  obtain ⟨ctx, hF⟩ := numberFrame_of_frameOf hF
  obtain ⟨ctx', hG⟩ := numberFrame_of_frameOf hG
  obtain ⟨hbefore, hafter⟩ := frame_of_scope hF hG hscope
  rw [Frame.render, Frame.render, Frame.fill, Frame.fill, hbefore, hafter] at h
  exact numeral_injective (List.append_cancel_left (List.append_cancel_right h))

/-- The numbers of a run are distinct, and beyond those counted before it. -/
theorem numbers_of_apart {key : NumberSeriesKey} {U : Set Draw} (calls : List Call) (d : Db)
    (hU : Apart d U) (hdraws : ∀ u ∈ draws key calls d, u ∈ U) :
    (numbers key calls d).Nodup ∧ ∀ x ∈ numbers key calls d, ∃ u ∈ U, ∃ F,
      d.frameOf u = some F ∧ ∃ n, d.counter key (scopeOf F) < n ∧ x = F.render n := by
  induction calls generalizing d with
  | nil => simp [numbers]
  | cons call calls ih =>
      simp only [draws, List.mem_append, Option.mem_toList] at hdraws
      have hrest := ih (call.after d)
      rcases call.step_cases key d with
        ⟨u₀, F₀, hdraw, hframe, hafter, hnumber⟩ | ⟨hnumber, hinst, hbranches, hcounters⟩
      · have hsame : ∀ u, (call.after d).frameOf u = d.frameOf u := fun u => by
          rw [hafter]
          exact frameOf_congr rfl rfl u
        obtain ⟨hnodup, hall⟩ := hrest (by simpa only [Apart, hsame] using hU)
          fun u hu => hdraws u (.inr hu)
        simp only [hsame] at hall
        simp only [numbers, hnumber, Option.toList_some, List.singleton_append, List.nodup_cons,
          List.mem_cons, forall_eq_or_imp]
        refine ⟨⟨fun hmem => ?_, hnodup⟩, ⟨u₀, hdraws u₀ (.inl hdraw), F₀, hframe, _,
          Nat.lt_succ_self _, rfl⟩, fun x hx => ?_⟩
        · -- a number made later is beyond this one on its counter, or on another counter
          obtain ⟨u, hu, F, hF, n, hn, heq⟩ := hall _ hmem
          by_cases hscope : scopeOf F₀ = scopeOf F
          · have hsequence := sequence_of_render hframe hF hscope heq
            rw [hafter, ← hscope, Db.counter, counter_count, Option.getD_some] at hn
            omega
          · refine hU u₀ (hdraws u₀ (.inl hdraw)) u hu F₀ F hframe hF hscope ?_
            exact Frame.exists_render_eq_iff.1 ⟨_, n, Nat.succ_pos _, by omega, heq⟩
        · obtain ⟨u, hu, F, hF, n, hn, heq⟩ := hall x hx
          refine ⟨u, hu, F, hF, n, Nat.lt_of_le_of_lt ?_ hn, heq⟩
          rw [hafter]
          by_cases hscope : scopeOf F = scopeOf F₀
          · rw [hscope, Db.counter, Db.counter, counter_count]
            exact Nat.le_succ _
          · rw [counter_count_of_ne (.inr hscope)]
      · have hsame : ∀ u, (call.after d).frameOf u = d.frameOf u := frameOf_congr hinst hbranches
        have hcounter : ∀ scope, (call.after d).counter key scope = d.counter key scope := by
          simp only [Db.counter, hcounters, implies_true]
        obtain ⟨hnodup, hall⟩ := hrest (by simpa only [Apart, hsame] using hU)
          fun u hu => hdraws u (.inr hu)
        simp only [hsame, hcounter] at hall
        simp only [numbers, hnumber, Option.toList_none, List.nil_append]
        exact ⟨hnodup, hall⟩

/-! ## A run that repeats a number -/

theorem numbers_append (key : NumberSeriesKey) (calls calls' : List Call) (d : Db) :
    numbers key (calls ++ calls') d = numbers key calls d ++ numbers key calls' (afterAll calls d) := by
  induction calls generalizing d with
  | nil => rfl
  | cons call calls ih => simp only [List.cons_append, numbers, afterAll, ih, List.append_assoc]

theorem draws_append (key : NumberSeriesKey) (calls calls' : List Call) (d : Db) :
    draws key (calls ++ calls') d = draws key calls d ++ draws key calls' (afterAll calls d) := by
  induction calls generalizing d with
  | nil => rfl
  | cons call calls ih => simp only [List.cons_append, draws, afterAll, ih, List.append_assoc]

/-- The calls that store the pattern of `u` and then draw from it `n` times. -/
def drawing (key : NumberSeriesKey) (u : Draw) (n : ℕ) : List Call :=
  .setPattern {} key.text u.pattern ::
    List.replicate n (.next { zone := fun _ _ => u.date } key u.branchId none)

/-- The calls draw from `u` alone, the `n`-th number on its counter is among
theirs, and the rest of the store is as before. -/
structure Draws (key : NumberSeriesKey) (u : Draw) (F : Frame) (n : ℕ) (calls : List Call)
    (d : Db) : Prop where
  draws : ∀ v ∈ draws key calls d, v = u
  number : 0 < n → F.render (d.counter key (scopeOf F) + n) ∈ numbers key calls d
  institution : (afterAll calls d).institution = d.institution
  branches : (afterAll calls d).branches = d.branches
  counters : ∀ scope ≠ scopeOf F, (afterAll calls d).counter key scope = d.counter key scope

theorem replicate_draws {key : NumberSeriesKey} {u : Draw} {F : Frame} (n : ℕ) (d : Db)
    (hpattern : d.patternOf key = u.pattern) (hframe : d.frameOf u = some F) :
    Draws key u F n
      (List.replicate n (.next { zone := fun _ _ => u.date } key u.branchId none)) d := by
  induction n generalizing d with
  | zero => constructor <;> simp [draws, afterAll]
  | succ n ih =>
      set call := Call.next { zone := fun _ _ => u.date } key u.branchId none with hcall
      have hdraw : call.draw key d = some u := by
        obtain ⟨inst, hinst, -⟩ := Option.bind_eq_some_iff.1 hframe
        simp [hcall, Call.draw, hinst, hpattern]
      obtain ⟨hafter, hnumber⟩ : call.after d = d.count key (scopeOf F) ∧
          call.number key d = some (F.render (d.counter key (scopeOf F) + 1)) :=
        next_issues hdraw hframe
      have hrest : Draws key u F n (List.replicate n call) (call.after d) := by
        rw [hafter]
        exact ih _ hpattern hframe
      have hcount : (call.after d).counter key (scopeOf F) = d.counter key (scopeOf F) + 1 := by
        rw [hafter, Db.counter, counter_count, Option.getD_some]
      constructor
      · simpa [List.replicate_succ, draws, hdraw] using hrest.draws
      · intro _
        rcases Nat.eq_zero_or_pos n with rfl | hn
        · simp [List.replicate_succ, numbers, hnumber]
        · have hmem := hrest.number hn
          rw [hcount, Nat.add_assoc, Nat.add_comm 1 n] at hmem
          simp [List.replicate_succ, numbers, hmem]
      · exact hrest.institution.trans (by rw [hafter]; rfl)
      · exact hrest.branches.trans (by rw [hafter]; rfl)
      · intro scope hscope
        refine (hrest.counters scope hscope).trans ?_
        rw [hafter, counter_count_of_ne (.inr hscope)]

theorem drawing_draws {key : NumberSeriesKey} {u : Draw} {F : Frame} (n : ℕ) (d : Db)
    (hframe : d.frameOf u = some F) : Draws key u F n (drawing key u n) d := by
  set call := Call.setPattern {} key.text u.pattern with hcall
  obtain ⟨hpattern, hinst, hbranches, hcounters⟩ : (call.after d).patternOf key = u.pattern ∧
      (call.after d).institution = d.institution ∧ (call.after d).branches = d.branches ∧
      (call.after d).numberCounters = d.numberCounters := by
    rcases Prog.alone_map_cases Reply.series (wlp_setPattern {} key.text u.pattern d) with
      ⟨_, d', hrun, k, hk, hpattern, hinst, hbranches, hcounters, -⟩ | ⟨e, -, hnone | hkey⟩
    · obtain rfl : k = key := by
        revert hk
        cases k <;> cases key <;> decide
      have hafter : call.after d = d' := congrArg Prod.snd hrun
      rw [hafter]
      exact ⟨hpattern, hinst, hbranches, hcounters⟩
    · simp [Db.frameOf, hnone] at hframe
    · exact absurd rfl (hkey key)
  have hrest := replicate_draws n (call.after d) hpattern
    ((frameOf_congr hinst hbranches u).trans hframe)
  have hcounter : ∀ scope, (call.after d).counter key scope = d.counter key scope := by
    simp only [Db.counter, hcounters, implies_true]
  have hdraw : call.draw key d = none := rfl
  have hnumber : call.number key d = none := by simp [hcall, Call.number]
  constructor
  · simpa [drawing, draws, ← hcall, hdraw] using hrest.draws
  · intro hn
    have hmem := hrest.number hn
    rw [hcounter] at hmem
    simpa [drawing, numbers, ← hcall, hnumber] using hmem
  · exact hrest.institution.trans hinst
  · exact hrest.branches.trans hbranches
  · exact fun scope hscope => (hrest.counters scope hscope).trans (hcounter scope)

/-- From fresh counters, no run over these draws repeats a number exactly if the
texts on different counters never meet. -/
theorem numbers_distinct_iff (key : NumberSeriesKey) (d : Db)
    (hfresh : ∀ scope, d.numberCounters key scope = none) (U : Set Draw) :
    (∀ calls, (∀ u ∈ draws key calls d, u ∈ U) → (numbers key calls d).Nodup) ↔ Apart d U := by
  refine ⟨fun h u hu v hv F G hF hG hscope hmeets => ?_,
    fun hU calls hdraws => (numbers_of_apart calls d hU hdraws).1⟩
  obtain ⟨m, n, hm, hn, heq⟩ := Frame.exists_render_eq_iff.2 hmeets
  have hfirst : Draws key u F m (drawing key u m) d := drawing_draws m d hF
  set d' := afterAll (drawing key u m) d with hd'
  have hsecond : Draws key v G n (drawing key v n) d' :=
    drawing_draws n d' ((frameOf_congr hfirst.institution hfirst.branches v).trans hG)
  have hzero : ∀ scope, d.counter key scope = 0 := fun scope => by
    rw [Db.counter, hfresh, Option.getD_none]
  have hnodup := h (drawing key u m ++ drawing key v n) fun w hw => by
    rw [draws_append, List.mem_append] at hw
    rcases hw with hw | hw
    · exact hfirst.draws w hw ▸ hu
    · exact hsecond.draws w hw ▸ hv
  rw [numbers_append] at hnodup
  have hmemF := hfirst.number hm
  have hmemG := hsecond.number hn
  rw [hzero, Nat.zero_add, heq] at hmemF
  rw [hfirst.counters _ (Ne.symm hscope), hzero, Nat.zero_add] at hmemG
  exact List.disjoint_of_nodup_append hnodup hmemF hmemG

/-- Two branches whose codes are told apart by a digit at the end. -/
def twoBranches : Db where
  institution := some ⟨"Africa/Addis_Ababa", ⟨7, 8⟩⟩
  branches :=
    [⟨1, AB, "Bole", true⟩,
      ⟨2, ⟨['A', 'B', '1'], by decide, by decide⟩, "Piassa", true⟩]

/-- `{BRANCH}{SEQ:1}`. -/
def branchAndSequence : NumberPattern :=
  ⟨Token.text ⟨BRANCH, none⟩ ++ Token.text ⟨SEQ, some ['1']⟩, by decide, by decide⟩

/-- A single draw never meets another counter. -/
theorem numbers_distinct_iff_oneDraw :
    Apart twoBranches {u | u = ⟨branchAndSequence, some 1, 0⟩} ∧
      ∀ calls, (∀ u ∈ draws .receipt calls twoBranches, u ∈ {u | u = ⟨branchAndSequence, some 1, 0⟩}) →
        (numbers .receipt calls twoBranches).Nodup := by
  have hapart : Apart twoBranches {u | u = ⟨branchAndSequence, some 1, 0⟩} := by
    rintro u rfl v rfl F G hF hG hscope
    exact absurd (congrArg scopeOf (Option.some_inj.1 (hF.symm.trans hG))) hscope
  exact ⟨hapart, (numbers_distinct_iff .receipt twoBranches (fun _ => rfl) _).2 hapart⟩

/-- The eleventh receipt of branch `AB` is the first of branch `AB1`. -/
theorem receipt_repeated :
    (twoBranches.branches.map fun b => b.code.text).Nodup ∧
      ¬ (numbers .receipt
        (.setPattern {} "receipt" branchAndSequence ::
          List.replicate 11 (.next {} .receipt (some 1) none) ++ [.next {} .receipt (some 2) none])
        twoBranches).Nodup := by
  decide +kernel

end Emis.Numbering
