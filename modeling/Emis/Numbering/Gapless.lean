import Emis.Library.Rules
import Emis.Numbering.Distinct

/-!
# Gapless counters

Any number of transactions issue numbers side by side. The row of a counter stays
locked from the upsert until the transaction ends, so the transactions that
commit have used `1, 2, …` on each counter in the order in which they commit, and
a rollback hands its numbers back.
-/

namespace Emis.Numbering

open Transactions Protocol

/-! ## Transactions that issue numbers -/

/-- One number with the counter it was drawn from. -/
structure Issue where
  key : NumberSeriesKey
  scope : Text
  issued : IssuedNumber
  deriving DecidableEq

/-- The part of `next` before the upsert: the pattern, its context and its counter. -/
def locate (env : Env) (key : NumberSeriesKey) (branchId : Option Uuid) (date : Option Instant) :
    Tx (NumberPattern × NumberContext × Text) := do
  let d ← Prog.get
  let pattern := d.patternOf key
  let inst ← institutionRow
  let branchCode ← NumberingService.branchCodeFor key pattern branchId
  let ctx := numberContextAt (env.zone (date.getD env.now) inst.timezone) inst branchCode
  let scope ← Prog.ofExcept (numberScope pattern.text ctx)
  return (pattern, ctx, scope)

/-- `next`, with the counter it draws from. -/
def issue (env : Env) (key : NumberSeriesKey) (branchId : Option Uuid) (date : Option Instant) :
    Tx Issue := do
  let (pattern, ctx, scope) ← locate env key branchId date
  Prog.acquire (.counter key scope)
  Prog.modify (Db.count key scope)
  let d ← Prog.get
  let lastValue ← Prog.expect (d.numberCounters key scope)
    (.internal "Counter upsert returned nothing")
  let number ← Prog.ofExcept (formatNumber pattern.text ctx lastValue)
  return { key := key, scope := scope, issued := { number := number, sequence := lastValue } }

theorem next_eq_issue (env : Env) (key : NumberSeriesKey) (branchId : Option Uuid)
    (date : Option Instant) :
    NumberingService.next env key branchId date = Issue.issued <$> issue env key branchId date := by
  simp only [NumberingService.next, issue, locate, map_bind, bind_assoc, pure_bind, map_pure]

/-- Where the numbering tables are in a larger store. -/
structure Place (σ M : Type) where
  view : σ → Db
  put : Db → σ → σ
  name : Lock → M
  view_put : ∀ n d, view (put n d) = n

namespace Place

variable {σ M α : Type} (place : Place σ M)

/-- The counters of the larger store. -/
def counters (d : σ) : NumberSeriesKey → Text → Option ℕ := (place.view d).numberCounters

/-- A transaction that issues any numbers and does anything else in between, but
for touching a counter; it answers what it has issued. -/
inductive Issuing : Prog σ M Error (List Issue) → Prop
  | done : Issuing (pure [])
  | rollback (e) : Issuing (Prog.throw e)
  | next (env key branchId date) (k : IssuedNumber → Prog σ M Error (List Issue)) :
      (∀ r, Issuing (k r)) →
      Issuing ((issue env key branchId date).zoom place.view place.put place.name >>= fun i =>
        (i :: ·) <$> k i.issued)
  | other {β : Type} (p : Prog σ M Error β) (k : β → Prog σ M Error (List Issue)) :
      p.Keeps place.counters → (∀ b, Issuing (k b)) → Issuing (p >>= k)

/-- The last number of a counter, `0` before its first. -/
def counter (d : σ) (key : NumberSeriesKey) (scope : Text) : ℕ :=
  (place.counters d key scope).getD 0

theorem counter_congr {d d' : σ} (h : place.counters d' = place.counters d)
    (key : NumberSeriesKey) (scope : Text) : place.counter d' key scope = place.counter d key scope := by
  rw [counter, counter, h]

end Place

/-- The numbers of one counter among those issued. -/
def used (key : NumberSeriesKey) (scope : Text) (issues : List Issue) : List ℕ :=
  (issues.filter fun i => i.key = key ∧ i.scope = scope).map fun i => i.issued.sequence

theorem used_append (key : NumberSeriesKey) (scope : Text) (issues issues' : List Issue) :
    used key scope (issues ++ issues') = used key scope issues ++ used key scope issues' := by
  rw [used, List.filter_append, List.map_append, used, used]

/-! ## One transaction among others -/

section Protocol

variable {σ M : Type} (place : Place σ M)

/-- Only who holds the row of a counter moves it. -/
def counterProtocol : Protocol σ M where
  Inv _ := True
  Guar T d d' := ∀ key scope, place.name (.counter key scope) ∉ T →
    place.counter d' key scope = place.counter d key scope

/-- What a transaction has issued so far are the next numbers of the counters it
has locked. -/
structure Accounted (S : Set M) (f : σ → σ) (d : σ) (issues : List Issue) : Prop where
  locked : ∀ i ∈ issues, place.name (.counter i.key i.scope) ∈ S
  counted : ∀ d key scope,
    place.counter (f d) key scope = place.counter d key scope + (used key scope issues).length
  next : ∀ key scope, used key scope issues =
    List.range' (place.counter d key scope + 1) (used key scope issues).length

variable {place} {S S' : Set M} {f g : σ → σ} {d d' : σ} {issues : List Issue}

theorem rely_counter {key : NumberSeriesKey} {scope : Text}
    (hlock : place.name (.counter key scope) ∈ S) (h : (counterProtocol place).Rely S d d') :
    place.counter d' key scope = place.counter d key scope := by
  apply Rely.same (χ := fun d => place.counter d key scope) _ h
  rintro d d' ⟨-, T, hdisj, hguar⟩
  exact hguar key scope (Set.disjoint_left.1 hdisj hlock)

theorem Accounted.mem_lock (h : Accounted place S f d issues) {key : NumberSeriesKey} {scope : Text}
    (hused : used key scope issues ≠ []) : place.name (.counter key scope) ∈ S := by
  obtain ⟨n, hn⟩ := List.exists_mem_of_ne_nil _ hused
  obtain ⟨i, hi, -⟩ := List.mem_map.1 hn
  obtain ⟨hmem, hcounter⟩ := List.mem_filter.1 hi
  obtain ⟨rfl, rfl⟩ := of_decide_eq_true hcounter
  exact h.locked i hmem

theorem Accounted.rely (h : Accounted place S f d issues)
    (hr : (counterProtocol place).Rely S d d') : Accounted place S f d' issues := by
  refine ⟨h.locked, h.counted, fun key scope => ?_⟩
  by_cases hused : used key scope issues = []
  · simp [hused]
  · rw [rely_counter (h.mem_lock hused) hr]
    exact h.next key scope

theorem Accounted.mono (h : Accounted place S f d issues) (hS : S ⊆ S')
    (hg : ∀ d, place.counters (g d) = place.counters d) : Accounted place S' (g ∘ f) d issues := by
  refine ⟨fun i hi => hS (h.locked i hi), fun d key scope => ?_, h.next⟩
  exact (place.counter_congr (hg (f d)) key scope).trans (h.counted d key scope)

theorem counter_put_count (key : NumberSeriesKey) (scope : Text) (d : σ)
    (key' : NumberSeriesKey) (scope' : Text) :
    place.counter (place.put ((place.view d).count key scope) d) key' scope' =
      place.counter d key' scope' + if key = key' ∧ scope = scope' then 1 else 0 := by
  rw [Place.counter, Place.counters, place.view_put, Place.counter, Place.counters]
  by_cases hkey : key = key'
  · subst hkey
    by_cases hscope : scope = scope'
    · subst hscope
      cases h : (place.view d).numberCounters key scope <;> simp [Db.count, h]
    · simp [Db.count, hscope, Ne.symm hscope]
  · simp [Db.count, hkey, Ne.symm hkey]

/-- The next number of a counter that is now locked. -/
theorem Accounted.snoc (h : Accounted place S f d issues) {i : Issue}
    (hlock : place.name (.counter i.key i.scope) ∈ S)
    (hnumber : i.issued.sequence = place.counter (f d) i.key i.scope + 1) :
    Accounted place S ((fun d => place.put ((place.view d).count i.key i.scope) d) ∘ f) d
      (issues ++ [i]) := by
  have hsingle : ∀ key scope, used key scope [i] =
      if i.key = key ∧ i.scope = scope then [i.issued.sequence] else [] := by
    intro key scope
    by_cases hi : i.key = key ∧ i.scope = scope <;> simp [used, hi]
  constructor
  · intro j hj
    rcases List.mem_append.1 hj with hj | hj
    · exact h.locked j hj
    · obtain rfl : j = i := by simpa using hj
      exact hlock
  · intro d key scope
    rw [Function.comp_apply, counter_put_count, h.counted, used_append, List.length_append, hsingle]
    split <;> simp_all [Nat.add_assoc]
  · intro key scope
    rw [used_append, hsingle]
    split
    · rename_i hi
      obtain ⟨rfl, rfl⟩ := hi
      rw [List.length_append, List.length_singleton, List.range'_concat, ← h.next, hnumber,
        h.counted]
      congr 2
      omega
    · simpa using h.next key scope

theorem keeps_locate (env : Env) (key : NumberSeriesKey) (branchId : Option Uuid)
    (date : Option Instant) : (locate env key branchId date).Keeps Db.numberCounters := by
  unfold locate institutionRow NumberingService.branchCodeFor
  refine .bind .get fun d => .bind (.bind .get fun _ => .expect _ _) fun inst => .bind ?_ fun _ =>
    .bind (.ofExcept _) fun _ => .pure _
  exact .ite (.bind (.expect _ _) fun _ => .bind .get fun _ => .bind (.expect _ _) fun _ => .pure _)
    (.pure _)

theorem wp_issue {env : Env} {key : NumberSeriesKey} {branchId : Option Uuid}
    {date : Option Instant} {K : Issue → Set M → (σ → σ) → σ → Prop}
    (h : Accounted place S f d issues)
    (hK : ∀ i S' f' d', Accounted place S' f' d' (issues ++ [i]) → K i S' f' d') :
    (counterProtocol place).wp K Anyway
      ((issue env key branchId date).zoom place.view place.put place.name) S f d := by
  have hlocate : ((locate env key branchId date).zoom place.view place.put place.name).Keeps
      place.counters := by
    apply (keeps_locate env key branchId date).zoom
    intro n t hn
    rw [Place.counters, place.view_put]
    exact hn
  rw [issue, Prog.zoom_bind, wp_bind]
  refine wp_of_keeps hlocate trivial fun found S₁ g d₁ hS₁ hg hr₁ _ => ?_
  obtain ⟨pattern, ctx, scope⟩ := found
  have h₁ : Accounted place S₁ (g ∘ f) d₁ issues := (h.rely hr₁).mono hS₁ hg
  simp only [Prog.zoom_bind, Prog.zoom_acquire, Prog.zoom_modify, Prog.zoom_get, Prog.zoom_expect,
    Prog.zoom_ofExcept, Prog.zoom_pure, wp_bind, wp_acquire, wp_modify, wp_map, wp_get, wp_expect,
    wp_ofExcept, wp_pure, implies_true, and_true]
  -- the upsert waits for the row, counts, and is read back
  intro d₂ hr₂ _ d₃ hr₃ _ lastValue hlast number _
  set S₂ : Set M := insert (place.name (.counter key scope)) S₁ with hS₂
  have h₃ : Accounted place S₂ (g ∘ f) d₃ issues :=
    ((h₁.rely hr₂).mono (Set.subset_insert _ _) fun _ => rfl).rely hr₃
  apply hK
  apply h₃.snoc (i := { key := key, scope := scope, issued := { number := number, sequence := lastValue } })
    (Set.mem_insert _ _)
  have hvalue := @counter_put_count σ M place key scope ((g ∘ f) d₃) key scope
  rw [if_pos ⟨rfl, rfl⟩] at hvalue
  rw [← hvalue, Place.counter, Place.counters]
  exact (Option.getD_eq_iff.2 (.inl hlast)).symm

/-- The whole of a transaction is accounted for when it commits. -/
theorem issuing_accounted {p : Prog σ M Error (List Issue)} (hp : place.Issuing p)
    (h : Accounted place S f d issues) :
    (counterProtocol place).wp (fun answer S f d => Accounted place S f d (issues ++ answer)) Anyway
      p S f d := by
  induction hp generalizing S f d issues with
  | done => simpa using h
  | rollback e => trivial
  | next env key branchId date k _ ih =>
      rw [wp_bind]
      refine wp_issue h fun i S₁ f₁ d₁ h₁ => ?_
      rw [wp_map]
      refine wp_mono (fun answer S₂ f₂ d₂ h₂ => ?_) (fun _ _ _ _ => trivial) (ih i.issued h₁)
      simpa using h₂
  | other p k hp _ ih =>
      rw [wp_bind]
      refine wp_of_keeps hp trivial fun b S₁ g d₁ hS₁ hg hr _ => ?_
      exact ih b ((h.rely hr).mono hS₁ hg)

theorem keeps_issuing {p : Prog σ M Error (List Issue)} (hp : place.Issuing p) :
    p.Keeps fun _ => () := by
  induction hp with
  | done => exact .pure _
  | rollback e => exact .throw _
  | next env key branchId date k _ ih =>
      have hissue : (issue env key branchId date).Keeps fun _ => () := by
        unfold issue
        refine .bind ((keeps_locate env key branchId date).comp fun _ => ()) fun _ => ?_
        refine .bind (.acquire _) fun _ => .bind (.modify fun _ => rfl) fun _ => .bind .get fun _ => ?_
        exact .bind (.expect _ _) fun _ => .bind (.ofExcept _) fun _ => .pure _
      exact .bind (hissue.zoom fun _ _ _ => rfl) fun i => (ih i.issued).map _
  | other p k hp _ ih => exact .bind (hp.comp fun _ => ()) ih

end Protocol

/-! ## Every interleaving -/

section Run

variable {σ M ι : Type} [DecidableEq ι] {place : Place σ M}

/-- A request is any transaction that issues numbers. -/
abbrev IssueCall (place : Place σ M) := { p : Prog σ M Error (List Issue) // place.Issuing p }

def IssueCall.code (call : IssueCall place) : Prog σ M Error (List Issue) := call.1

/-- What a transaction that commits has issued, between the stores before and after. -/
def Issued (place : Place σ M) (issues : List Issue) (d d' : σ) : Prop :=
  ∀ key scope, used key scope issues =
      List.range' (place.counter d key scope + 1) (used key scope issues).length ∧
    place.counter d' key scope = place.counter d key scope + (used key scope issues).length

theorem issueCall_safe (call : IssueCall place) (d : σ) :
    (counterProtocol place).wp ((counterProtocol place).Done (Issued place))
      ((counterProtocol place).Failed fun _ _ => True) call.code ∅ id d := by
  have hnothing : Accounted place ∅ id d [] := ⟨by simp, by simp [used], by simp [used]⟩
  refine wp_mono (fun answer S f d₁ h d' hr _ => ?_) (fun _ _ _ _ _ _ _ => trivial)
    (issuing_accounted call.2 hnothing)
  rw [List.nil_append] at h
  have h' := h.rely hr
  refine ⟨fun key scope hlock => ?_, trivial, fun key scope => ⟨h'.next key scope, h'.counted d' key scope⟩⟩
  have hunused : used key scope answer = [] := by
    by_contra hused
    exact hlock (h.mem_lock hused)
  simp [h'.counted, hunused]

/-- What has been used on a counter by the transactions that committed is
`1, …, lastValue`, in the order in which they did. -/
theorem counters_gapless {start w : World ι (IssueCall place) σ M Error (List Issue)}
    {labels : List (Label ι (IssueCall place) Error (List Issue))} (hidle : start.Idle)
    (hfresh : ∀ key scope, place.counters start.db key scope = none)
    (hrun : Run IssueCall.code start labels w) (key : NumberSeriesKey) (scope : Text) :
    used key scope (committed labels).flatten =
      List.range' 1 ((place.counters w.db key scope).getD 0) := by
  have hstart : ∀ key scope, used key scope ([] : List (List Issue)).flatten =
      List.range' 1 (place.counter start.db key scope) := by
    intro key scope
    simp [Place.counter, hfresh, used]
  have hsafe := fun (call : IssueCall place) (d : σ) (_ : (counterProtocol place).Inv d) =>
    issueCall_safe call d
  have hwhole : ∀ call : IssueCall place, call.code.Whole id := fun call => (keeps_issuing call.2).whole
  refine Sound.history (G := fun given d => ∀ key scope,
      used key scope given.flatten = List.range' 1 (place.counter d key scope)) hsafe hwhole hidle
    trivial hstart (fun given _ issues d d' _ hgiven hissued key scope => ?_) hrun (fun _ _ _ h => h) key scope
  obtain ⟨hnext, hcounter⟩ := hissued key scope
  rw [id_eq] at hgiven
  rw [id_eq, List.flatten_append, List.flatten_singleton, used_append, hgiven key scope, hnext, hcounter,
    Nat.add_comm (place.counter d key scope) 1]
  exact List.range'_append_1

end Run

/-- The numbering tables on their own. -/
def settings : Place Db Lock where
  view := id
  put n _ := n
  name := id
  view_put _ _ := rfl

/-- One receipt of the first branch, kept or handed back. -/
def oneReceipt (keep : Bool) : IssueCall settings :=
  ⟨(issue {} .receipt (some 1) none).zoom settings.view settings.put settings.name >>= fun i =>
      (i :: ·) <$> if keep then pure [] else Prog.throw settingsErrors.unknownSeries,
    .next {} .receipt (some 1) none (fun _ => _) fun _ => by
      cases keep
      · exact .rollback _
      · exact .done⟩

/-- The rollback in the middle leaves no hole. -/
theorem counters_gapless_threeReceipts :
    ∃ labels w, Run IssueCall.code (⟨twoBranches, fun _ => none⟩ :
      World ℕ (IssueCall settings) Db Lock Error (List Issue)) labels w ∧
      used .receipt "RCP-AB-1969-\x7bSEQ\x7d".toList (committed labels).flatten = [1, 2] := by
  have hwlp : ∀ (call : IssueCall settings) d, call.code.wlp (fun _ _ => True) (fun _ => True) d :=
    fun call _ => (keeps_issuing call.2).wlp (fun _ _ _ => trivial) fun _ => trivial
  have hfirst : Reachable IssueCall.code ⟨twoBranches, fun _ => none⟩ _ :=
    Reachable.serve IssueCall.code .start 1 (oneReceipt true) (hwlp _ _)
  have hsecond := Reachable.serve IssueCall.code hfirst 2 (oneReceipt false) (hwlp _ _)
  have hthird := Reachable.serve IssueCall.code hsecond 3 (oneReceipt true) (hwlp _ _)
  obtain ⟨labels, hrun⟩ := hthird.run
  refine ⟨labels, _, hrun, ?_⟩
  rw [counters_gapless (fun _ => rfl) (fun _ _ => rfl) hrun]
  decide +kernel

end Emis.Numbering
