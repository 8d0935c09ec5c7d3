import Emis.Common.Idempotency
import Emis.Library.Script
import Emis.Library.Table

/-!
# Requests executed once

While a response is stored no other handler of its key commits, and every answer is the one
that has been stored.
-/

namespace Emis.Idempotency

open Transactions Protocol

variable {σ L ε : Type}

/-- What the clients ask for. A request notes when it begins. -/
inductive Call (σ L ε : Type) where
  | request (began : Instant) (r : Request σ L ε)
  | purge
  | tick (n : ℕ)

inductive Answer where
  | reply (reply : Reply)
  | done

def Call.code (env : Env) : Call σ L ε → Tx σ L ε Answer
  | .request _ r => Answer.reply <$> intercept env r
  | .purge => (fun _ => Answer.done) <$> Idempotency.purge
  | .tick n => (fun _ => Answer.done) <$> Idempotency.tick n

/-- A request begins now. -/
def Call.Timely : Call σ L ε → Store σ → Prop
  | .request began _, s => began = s.clock
  | _, _ => True

/-! ## Executions and rows -/

namespace Store

variable (s : Store σ) (slot : Slot)

def executionsOf : List Execution := s.executions.filter fun e => e.slot == slot

/-- The execution that has stored its response last. -/
def last? : Option Execution := (s.executionsOf slot).getLast?

end Store

namespace Execution

def requestHash (env : Env) (e : Execution) : Str :=
  env.sha256 (canonicalJson (.obj [("body".toList, e.body), ("query".toList, e.query)]))

/-- What is stored of an execution. -/
def row (env : Env) (e : Execution) : IdempotencyRow :=
  ⟨e.slot, e.method, e.path, e.requestHash env, e.responseStatus, e.responseBody, e.expiresAt⟩

/-- The same method, path, body and query; two JSON values are the same whatever the order of
their keys. -/
def Of (e : Execution) (r : Request σ L ε) : Prop :=
  e.method = r.method ∧ e.path = r.path ∧ e.body.normal = r.bodyJson.normal ∧ e.query.normal = r.queryJson.normal

end Execution

theorem normal_pair (body query : Json) :
    (Json.obj [("body".toList, body), ("query".toList, query)]).normal =
      .obj [("body".toList, body.normal), ("query".toList, query.normal)] := by
  rw [Json.normal, normalFields_eq]
  rfl

/-- Where the hash does not collide, a stored row tells another request. -/
theorem reused_iff {env : Env} (hhash : Function.Injective env.sha256) {e : Execution} {r : Request σ L ε} :
    reused env r (e.row env) = false ↔ e.Of r := by
  have hsame : (e.row env).requestHash = r.requestHash env ↔
      e.body.normal = r.bodyJson.normal ∧ e.query.normal = r.queryJson.normal := by
    change env.sha256 _ = env.sha256 _ ↔ _
    rw [hhash.eq_iff, canonicalJson_eq_iff, normal_pair, normal_pair]
    simp
  simp only [reused, Bool.or_eq_false_iff, bne_eq_false_iff_eq, hsame, and_assoc]
  exact Iff.rfl

section Rows

variable {s : Store σ} {slot : Slot}

theorem row?_withResponse {row : IdempotencyRow} (hrow : row.slot = slot) (slot' : Slot) :
    (withResponse row slot s).row? slot' =
      if slot' = slot then (s.row? slot').map fun _ => row else s.row? slot' := by
  have hfind : (withResponse row slot s).row? slot' =
      (s.row? slot').map fun k => if k.slot == slot then row else k := by
    rw [Store.row?, withResponse, changeWhere, List.find?_map, Store.row?]
    refine congrArg (fun q => (s.keys.find? q).map _) (funext fun k => ?_)
    by_cases hk : k.slot = slot <;> simp [hk, hrow]
  rw [hfind]
  cases hfound : s.row? slot' with
  | none => simp
  | some k =>
      have hk : k.slot = slot' := by simpa using List.find?_some hfound
      by_cases hslot : slot' = slot <;> simp [hk, hslot]

theorem row?_addResponse {row : IdempotencyRow} (hrow : row.slot = slot) (hnone : s.row? slot = none) (slot' : Slot) :
    (addResponse row s).row? slot' = if slot' = slot then some row else s.row? slot' := by
  have hfind : (addResponse row s).row? slot' = (s.row? slot').or (if row.slot = slot' then some row else none) := by
    rw [Store.row?, addResponse, List.find?_append, List.find?_singleton, Store.row?]
    simp only [beq_iff_eq]
  rw [hfind, hrow]
  by_cases hslot : slot' = slot
  · subst hslot
    simp [hnone]
  · simp [hslot, Ne.symm hslot]

theorem row?_purged (hkeys : (s.keys.map IdempotencyRow.slot).Nodup) (now : Instant) (slots : List Slot)
    (slot : Slot) :
    (purged now slots s).row? slot = (s.row? slot).filter fun k => !(slots.contains slot && k.expiresAt < now) := by
  rw [Store.row?, purged, find?_filter_key hkeys, Store.row?]
  cases hfound : s.keys.find? fun k => k.slot == slot with
  | none => rfl
  | some k =>
      have hk : k.slot = slot := by simpa using List.find?_some hfound
      simp [Option.filter, hk]

theorem last?_eq_of_executions {s' : Store σ} (h : s'.executionsOf slot = s.executionsOf slot) :
    s'.last? slot = s.last? slot := by rw [Store.last?, h, Store.last?]

theorem executionsOf_append {s' : Store σ} {e : Execution} (h : s'.executions = s.executions ++ [e]) :
    s'.executionsOf slot = s.executionsOf slot ++ if e.slot = slot then [e] else [] := by
  rw [Store.executionsOf, h, List.filter_append, Store.executionsOf]
  by_cases hslot : e.slot = slot <;> simp [hslot]

theorem mem_of_last? {e : Execution} (h : s.last? slot = some e) : e ∈ s.executions ∧ e.slot = slot := by
  have hmem : e ∈ s.executionsOf slot := List.mem_of_getLast? h
  simpa [Store.executionsOf] using hmem

end Rows

/-! ## The protocol -/

/-- What the table says of the executions. -/
structure Recorded (env : Env) (s : Store σ) : Prop where
  keys : (s.keys.map IdempotencyRow.slot).Nodup
  stored : ∀ slot, s.row? slot = (s.last? slot).map (Execution.row env) ∨
    s.row? slot = none ∧ ∀ e, s.last? slot = some e → e.expiresAt < s.clock
  valid : ∀ e ∈ s.executions, e.checkedAt ≤ e.expiresAt
  apart : s.executions.Pairwise fun e e' => e.slot = e'.slot → e.expiresAt ≤ e'.checkedAt

/-- Who holds the lock of a row may change it; who holds the lock of a key may execute. -/
structure Guarantee (env : Env) (S : Set (Lock L)) (s s' : Store σ) : Prop where
  clock : s.clock ≤ s'.clock
  rows : ∀ slot, .row slot ∉ S → s'.row? slot = s.row? slot
  executions : ∀ slot, .advisory (env.hashtext slot.1) (env.hashtext slot.2) ∉ S →
    s'.executionsOf slot = s.executionsOf slot

def onceProtocol (env : Env) : Protocol (Store σ) (Lock L) where
  Inv := Recorded env
  Guar := Guarantee env

/-- What an answer says. -/
def Request.Answered (env : Env) (began : Instant) (r : Request σ L ε) : Reply → Store σ → Store σ → Prop
  | .plain _, s, s' => s'.keys = s.keys ∧ s'.executions = s.executions
  | .executed status result, s, s' =>
      ∃ key, r.idempotencyKey = some key ∧ ∃ e : Execution, e.slot = (r.principal, key) ∧ e.Of r ∧
        began ≤ e.checkedAt ∧ e.responseStatus = status ∧ e.responseBody = result.getD .null ∧
        s'.executions = s.executions ++ [e] ∧ s'.row? e.slot = some (e.row env)
  | .replayed status body, s, s' =>
      s' = s ∧ ∃ key, r.idempotencyKey = some key ∧ ∃ e, s.last? (r.principal, key) = some e ∧ e.Of r ∧
        began < e.expiresAt ∧ e.responseStatus = status ∧ e.responseBody = body

def Call.Answered (env : Env) : Call σ L ε → Answer → Store σ → Store σ → Prop
  | .request began r, .reply reply, s, s' => r.Answered env began reply s s'
  | _, _, s, s' => s'.data = s.data ∧ s'.executions = s.executions

/-- A key is refused as used where its last execution is that of another request. -/
def Call.Refused : Call σ L ε → Refusal ⊕ ε → Store σ → Prop
  | .request began r, .inl .keyReused, s =>
      ∃ key, r.idempotencyKey = some key ∧ ∃ e, s.last? (r.principal, key) = some e ∧ ¬ e.Of r ∧ began < e.expiresAt
  | _, _, _ => True

section Steps

variable {env : Env} {S : Set (Lock L)} {f : Store σ → Store σ} {s s' : Store σ} {slot : Slot}

theorem clock_grows (h : (onceProtocol env).Rely S s s') : s.clock ≤ s'.clock := by
  refine h.stable (φ := fun x => s.clock ≤ x.clock) ?_ le_rfl
  rintro s₁ s₂ ⟨-, T, -, hguar⟩ hle
  exact hle.trans hguar.clock

theorem row_stays (hlock : .row slot ∈ S) (h : (onceProtocol env).Rely S s s') : s'.row? slot = s.row? slot := by
  refine h.same (χ := fun x => x.row? slot) ?_
  rintro s₁ s₂ ⟨-, T, hdisj, hguar⟩
  exact hguar.rows slot (Set.disjoint_left.1 hdisj hlock)

theorem executions_stay (hlock : .advisory (env.hashtext slot.1) (env.hashtext slot.2) ∈ S)
    (h : (onceProtocol env).Rely S s s') : s'.last? slot = s.last? slot := by
  refine last?_eq_of_executions (h.same (χ := fun x => x.executionsOf slot) ?_)
  rintro s₁ s₂ ⟨-, T, hdisj, hguar⟩
  exact hguar.executions slot (Set.disjoint_left.1 hdisj hlock)

/-- What the interceptor's own part of the store is. -/
def Store.own (s : Store σ) : List IdempotencyRow × Instant × List Execution := (s.keys, s.clock, s.executions)

theorem recorded_of_own (h : s'.own = s.own) (hs : Recorded env s) : Recorded env s' := by
  obtain ⟨data, keys, clock, executions⟩ := s
  obtain ⟨data', keys', clock', executions'⟩ := s'
  obtain ⟨rfl, rfl, rfl⟩ : keys' = keys ∧ clock' = clock ∧ executions' = executions := by
    simpa [Store.own] using h
  exact ⟨hs.keys, hs.stored, hs.valid, hs.apart⟩

theorem guarantee_of_own (h : s'.own = s.own) : Guarantee env S s s' := by
  obtain ⟨data, keys, clock, executions⟩ := s
  obtain ⟨data', keys', clock', executions'⟩ := s'
  obtain ⟨rfl, rfl, rfl⟩ : keys' = keys ∧ clock' = clock ∧ executions' = executions := by
    simpa [Store.own] using h
  exact ⟨le_rfl, fun _ _ => rfl, fun _ _ => rfl⟩

theorem handle_keeps (h : Handler σ L ε) : (handle h).Keeps (Store.own (σ := σ)) := by
  have hkeeps := h.joins.mapError (Sum.inr : ε → Refusal ⊕ ε)
  rw [handle]
  generalize h.run.mapError (Sum.inr : ε → Refusal ⊕ ε) = p at hkeeps
  induction p with
  | ret | fail => trivial
  | read k ih => exact fun s => ih _ (hkeeps _)
  | write f k ih => exact ⟨fun _ => rfl, ih hkeeps.2⟩
  | lock l k ih => exact ih hkeeps
  | tryLock l k ih => exact fun b => ih b (hkeeps b)
  | commit | outside => exact hkeeps.elim

theorem handle_throws (h : Handler σ L ε) : (handle h).Throws fun e => ∃ e', e = Sum.inr e' :=
  (Prog.throws_mapError Sum.inr h.run).zoom

end Steps

/-! ## Storing a response -/

/-- No execution of the key is alive. -/
def Store.Expired (s : Store σ) (slot : Slot) (now : Instant) : Prop :=
  ∀ e, s.last? slot = some e → e.expiresAt ≤ now

/-- An execution and its response are stored together. -/
structure Stores (env : Env) (e : Execution) (s s' : Store σ) : Prop where
  data : s'.data = s.data
  clock : s'.clock = s.clock
  keys : (s'.keys.map IdempotencyRow.slot).Nodup
  rows : ∀ slot, s'.row? slot = if slot = e.slot then some (e.row env) else s.row? slot
  executions : s'.executions = s.executions ++ [e]

section Storing

variable {env : Env} {S : Set (Lock L)} {s s' : Store σ} {e : Execution}

theorem stores_withResponse (hkeys : (s.keys.map IdempotencyRow.slot).Nodup) (hsome : (s.row? e.slot).isSome) :
    Stores env e s ((withResponse (e.row env) e.slot s).executed e) where
  data := rfl
  clock := rfl
  keys := by
    have hslots : ((withResponse (e.row env) e.slot s).keys.map IdempotencyRow.slot) =
        s.keys.map IdempotencyRow.slot := by
      rw [withResponse, changeWhere, List.map_map]
      refine List.map_congr_left fun k _ => ?_
      by_cases hk : k.slot = e.slot <;> simp [hk, Execution.row]
    exact hslots ▸ hkeys
  rows slot := by
    obtain ⟨k, hk⟩ := Option.isSome_iff_exists.1 hsome
    refine (@row?_withResponse _ s e.slot (e.row env) rfl slot).trans ?_
    by_cases hslot : slot = e.slot
    · subst hslot
      simp [hk]
    · simp [hslot]
  executions := rfl

theorem stores_addResponse (hkeys : (s.keys.map IdempotencyRow.slot).Nodup) (hnone : s.row? e.slot = none) :
    Stores env e s ((addResponse (e.row env) s).executed e) where
  data := rfl
  clock := rfl
  keys := by
    refine nodup_snoc hkeys fun k hk hsame => ?_
    have hmiss := List.find?_eq_none.1 hnone k hk
    have hslot : k.slot = e.slot := hsame
    simp [hslot] at hmiss
  rows slot := @row?_addResponse _ s e.slot (e.row env) rfl hnone slot
  executions := rfl

theorem last?_of_stores (h : Stores env e s s') (slot : Slot) :
    s'.last? slot = if slot = e.slot then some e else s.last? slot := by
  rw [Store.last?, executionsOf_append h.executions]
  by_cases hslot : slot = e.slot
  · simp [hslot]
  · simp [hslot, Ne.symm hslot, Store.last?]

theorem Stores.guarantee (h : Stores env e s s') (hrow : .row e.slot ∈ S)
    (hkey : .advisory (env.hashtext e.slot.1) (env.hashtext e.slot.2) ∈ S) : Guarantee env S s s' where
  clock := h.clock.ge
  rows slot hfree := by
    have hslot : slot ≠ e.slot := by
      rintro rfl
      exact hfree hrow
    rw [h.rows, if_neg hslot]
  executions slot hfree := by
    have hslot : e.slot ≠ slot := by
      rintro rfl
      exact hfree hkey
    rw [executionsOf_append h.executions, if_neg hslot, List.append_nil]

/-- Where the last execution of a key has expired, so have the others. -/
theorem Recorded.expired (hs : Recorded env s) {slot : Slot} {now : Instant} (hexpired : s.Expired slot now)
    {e : Execution} (he : e ∈ s.executions) (hslot : e.slot = slot) : e.expiresAt ≤ now := by
  have hmem : e ∈ s.executionsOf slot := List.mem_filter.2 ⟨he, by simpa using hslot⟩
  obtain ⟨before, last, hsplit⟩ := List.eq_nil_or_concat _ |>.resolve_left (List.ne_nil_of_mem hmem)
  have hlast : s.last? slot = some last := by rw [Store.last?, hsplit]; simp
  rw [hsplit, List.concat_eq_append] at hmem
  rcases List.mem_append.1 hmem with hbefore | heq
  · have hapart : (s.executionsOf slot).Pairwise fun e e' => e.slot = e'.slot → e.expiresAt ≤ e'.checkedAt :=
      hs.apart.sublist List.filter_sublist
    rw [hsplit, List.concat_eq_append] at hapart
    have horder := (List.pairwise_append.1 hapart).2.2 e hbefore last (by simp)
    calc e.expiresAt ≤ last.checkedAt := horder (hslot.trans (mem_of_last? hlast).2.symm)
      _ ≤ last.expiresAt := hs.valid last (mem_of_last? hlast).1
      _ ≤ now := hexpired last hlast
  · rw [List.mem_singleton.1 heq]
    exact hexpired last hlast

/-- An execution that comes after all the others of its key is recorded. -/
theorem Stores.recorded (h : Stores env e s s') (hs : Recorded env s) (hexpired : s.Expired e.slot e.checkedAt)
    (hvalid : e.checkedAt ≤ e.expiresAt) : Recorded env s' where
  keys := h.keys
  stored slot := by
    rw [h.rows, last?_of_stores h, h.clock]
    by_cases hslot : slot = e.slot
    · simp [hslot]
    · simpa [hslot] using hs.stored slot
  valid := by
    rw [h.executions]
    intro e' he'
    rcases List.mem_append.1 he' with hold | hnew
    · exact hs.valid e' hold
    · obtain rfl := List.mem_singleton.1 hnew
      exact hvalid
  apart := by
    rw [h.executions]
    refine List.pairwise_append.2 ⟨hs.apart, List.pairwise_singleton _ _, fun e' he' e'' he'' hslot => ?_⟩
    obtain rfl := List.mem_singleton.1 he''
    exact hs.expired hexpired he' hslot

end Storing

/-! ## The requests -/

section Requests

variable {env : Env} {S : Set (Lock L)} {f : Store σ → Store σ} {s : Store σ} {slot : Slot} {began now : Instant}
  {r : Request σ L ε}

/-- What the interceptor does with the store is safe, and its answer is true. -/
abbrev Call.Safe (env : Env) (q : Call σ L ε) (S : Set (Lock L)) (s : Store σ) (p : Tx σ L ε Answer) : Prop :=
  (onceProtocol env).wp ((onceProtocol env).Done (q.Answered env)) ((onceProtocol env).Failed q.Refused) p S id s

/-- A handler that is called without a key. -/
theorem plain_safe (hs : Recorded env s) :
    Call.Safe env (.request began r) S s (Answer.reply <$> (Reply.plain <$> handle r.handler)) := by
  rw [Call.Safe, wp_map, wp_map]
  refine wp_of_throws (handle_throws r.handler) (wp_of_keeps (handle_keeps r.handler) hs ?_ ?_)
  · intro result S' g s₁ _ hg _ _ s' _ hs'
    have hown : (g s').own = s'.own := hg s'
    refine ⟨guarantee_of_own hown, recorded_of_own hown hs', ?_⟩
    exact ⟨congrArg Prod.fst hown, congrArg (fun x => x.2.2) hown⟩
  · rintro e S' s₁ _ _ _ ⟨e', rfl⟩ s' _ _
    trivial

/-- The last write: the response is stored, whichever branch is taken. -/
theorem done_of_stores {g u : Store σ → Store σ} {e : Execution} {result : Option Json} {key : Str}
    (hkey : r.idempotencyKey = some key) (hslot : e.slot = (r.principal, key)) (hof : e.Of r)
    (hstatus : e.responseStatus = r.status) (hbody : e.responseBody = result.getD .null)
    (hbegan : began ≤ e.checkedAt) (hvalid : e.checkedAt ≤ e.expiresAt) (hexpired : s.Expired e.slot e.checkedAt)
    (hrow : .row e.slot ∈ S) (hlock : .advisory (env.hashtext e.slot.1) (env.hashtext e.slot.2) ∈ S)
    (hg : ∀ s, (g s).own = s.own)
    (hu : ∀ s', Recorded env s' → s'.row? e.slot = s.row? e.slot → Stores env e s' (u s')) :
    (onceProtocol env).Done ((Call.request began r).Answered env) (.reply (.executed r.status result)) S (u ∘ g) s := by
  intro s' hrely hs'
  have hrecorded : Recorded env (g s') := recorded_of_own (hg s') hs'
  have hrow' : (g s').row? e.slot = s.row? e.slot := by
    have hkeys : (g s').keys = s'.keys := congrArg Prod.fst (hg s')
    rw [Store.row?, hkeys]
    exact row_stays hrow hrely
  have hstores := hu (g s') hrecorded hrow'
  have hexecutions : (g s').executions = s'.executions := congrArg (fun x => x.2.2) (hg s')
  have hexpired' : (g s').Expired e.slot e.checkedAt := by
    intro e' he'
    refine hexpired e' ?_
    rw [← executions_stay hlock hrely, ← he', Store.last?, Store.executionsOf, ← hexecutions]
    rfl
  refine ⟨?_, hstores.recorded hrecorded hexpired' hvalid, ?_⟩
  · have hkept : Guarantee env S s' (g s') := guarantee_of_own (hg s')
    have hnew := hstores.guarantee (S := S) hrow hlock
    exact ⟨hkept.clock.trans hnew.clock, fun slot h => (hnew.rows slot h).trans (hkept.rows slot h),
      fun slot h => (hnew.executions slot h).trans (hkept.executions slot h)⟩
  · refine ⟨key, hkey, e, hslot, hof, hbegan, hstatus, hbody, ?_, ?_⟩
    · exact hexecutions ▸ hstores.executions
    · simpa using hstores.rows e.slot

/-- The execution of a request. -/
def Request.execution (r : Request σ L ε) (slot : Slot) (result : Option Json) (checkedAt expiresAt : Instant) :
    Execution :=
  ⟨slot, r.method, r.path, r.bodyJson, r.queryJson, r.status, result.getD .null, checkedAt, expiresAt⟩

theorem Request.execution_of (slot : Slot) (result : Option Json) (checkedAt expiresAt : Instant) :
    (r.execution slot result checkedAt expiresAt).Of r := ⟨rfl, rfl, rfl, rfl⟩

theorem execute_safe {key : Str} (hkey : r.idempotencyKey = some key)
    (hlock : .advisory (env.hashtext r.principal) (env.hashtext key) ∈ S) (hbegan : began ≤ now)
    (hnow : now ≤ s.clock) (hexpired : s.Expired (r.principal, key) now) (hs : Recorded env s) :
    Call.Safe env (.request began r) S s (Answer.reply <$> execute env (r.principal, key) r now) := by
  rw [Call.Safe, wp_map, execute, wp_bind]
  refine wp_of_throws (handle_throws r.handler) (wp_of_keeps (handle_keeps r.handler) hs ?_ ?_)
  · intro result S' g s₁ hS hg hrely₁ hs₁
    simp only [storeResponse, clock, wp_bind, wp_map, wp_get, wp_acquire, wp_ite, wp_modify, wp_pure]
    intro s₂ hrely₂ _ s₃ hrely₃ _ s₄ hrely₄ _ s₅ hrely₅ hs₅
    have hlock' : Lock.advisory (env.hashtext r.principal) (env.hashtext key) ∈ insert (Lock.row (r.principal, key)) S' :=
      .inr (hS hlock)
    have hown : ∀ s : Store σ, (g s).own = s.own := hg
    have hclock : ∀ s : Store σ, (g s).clock = s.clock := fun s => congrArg (fun x => x.2.1) (hown s)
    have hrows : ∀ s : Store σ, (g s).row? (r.principal, key) = s.row? (r.principal, key) := fun s => by
      have hkeys : (g s).keys = s.keys := congrArg Prod.fst (hown s)
      rw [Store.row?, hkeys, Store.row?]
    have hgrown : now ≤ s₂.clock := hnow.trans ((clock_grows hrely₁).trans (clock_grows hrely₂))
    have hgrown' : now ≤ s₃.clock := hgrown.trans (clock_grows hrely₃)
    have hpositive : (0 : Instant) ≤ TTL_MS := by decide
    have hexpired₅ : s₅.Expired (r.principal, key) now := by
      have hsame : s₅.last? (r.principal, key) = s.last? (r.principal, key) :=
        executions_stay hlock ((hrely₁.trans (hrely₂.anti hS)).trans
          ((hrely₃.anti hS).trans ((hrely₄.anti hS).trans (hrely₅.anti (hS.trans (Set.subset_insert _ _))))))
      intro e he
      exact hexpired e (hsame ▸ he)
    constructor
    · intro hsome
      refine done_of_stores (g := g) (e := r.execution (r.principal, key) result now ((g s₃).clock + TTL_MS)) hkey rfl
        (r.execution_of _ _ _ _) rfl rfl hbegan ?_ hexpired₅ (.inl rfl) hlock' hown fun s' hs' hrow => ?_
      · change now ≤ (g s₃).clock + TTL_MS
        rw [hclock]
        simp only [Instant] at *
        omega
      · refine stores_withResponse hs'.keys ?_
        rw [hrow]
        exact hrows s₅ ▸ hsome
    · intro hnone
      refine done_of_stores (g := g) (e := r.execution (r.principal, key) result now ((g s₂).clock + TTL_MS)) hkey rfl
        (r.execution_of _ _ _ _) rfl rfl hbegan ?_ hexpired₅ (.inl rfl) hlock' hown fun s' hs' hrow => ?_
      · change now ≤ (g s₂).clock + TTL_MS
        rw [hclock]
        simp only [Instant] at *
        omega
      · refine stores_addResponse hs'.keys ?_
        rw [hrow]
        exact (hrows s₅).symm.trans (by simpa using hnone)
  · rintro e S' s₁ _ _ _ ⟨e', rfl⟩ s' _ _
    trivial

/-- What a look at the row of a key says of its last execution. -/
theorem lookup_cases (hs : Recorded env s) (hnow : s.clock ≤ now) (slot : Slot) :
    (∃ e, s.last? slot = some e ∧ (s.row? slot).filter (fun stored => now < stored.expiresAt) = some (e.row env) ∧
        now < e.expiresAt) ∨
      (s.row? slot).filter (fun stored => now < stored.expiresAt) = none ∧ s.Expired slot now := by
  rcases hs.stored slot with hrow | ⟨hrow, hexpired⟩
  · rw [hrow]
    cases hlast : s.last? slot with
    | none => exact .inr ⟨rfl, fun e he => by rw [hlast] at he; cases he⟩
    | some e =>
        by_cases hlive : now < e.expiresAt
        · refine .inl ⟨e, rfl, ?_, hlive⟩
          simp [Option.filter, Execution.row, hlive]
        · refine .inr ⟨?_, fun e' he' => ?_⟩
          · simp [Option.filter, Execution.row, hlive]
          · rw [hlast] at he'
            obtain rfl := Option.some.inj he'
            exact not_lt.1 hlive
  · refine .inr ⟨by rw [hrow]; rfl, fun e he => ?_⟩
    exact (hexpired e he).le.trans hnow

theorem once_safe (hhash : Function.Injective env.sha256) {key : Str} (hkey : r.idempotencyKey = some key)
    (hbegan : began ≤ s.clock) :
    Call.Safe env (.request began r) S s (Answer.reply <$> once env (r.principal, key) r) := by
  rw [Call.Safe, wp_map]
  simp only [once, clock, wp_bind, wp_map, wp_acquire, wp_get]
  intro s₁ hrely₁ _ s₂ hrely₂ hs₂ s₃ hrely₃ hs₃
  have hlock : Lock.advisory (env.hashtext r.principal) (env.hashtext key) ∈
      insert (Lock.advisory (L := L) (env.hashtext r.principal) (env.hashtext key)) S := Set.mem_insert _ _
  have hstays : s₃.last? (r.principal, key) = s₂.last? (r.principal, key) := executions_stay hlock hrely₃
  have hbegan₃ : began ≤ s₃.clock :=
    hbegan.trans ((clock_grows hrely₁).trans ((clock_grows hrely₂).trans (clock_grows hrely₃)))
  rcases lookup_cases hs₂ (clock_grows hrely₃) (r.principal, key) with
    ⟨e, hlast, hrow, hlive⟩ | ⟨hrow, hexpired⟩
  · rw [id_eq, id_eq, hrow]
    have hlast' : ∀ s', (onceProtocol env).Rely (insert (Lock.advisory (env.hashtext r.principal) (env.hashtext key)) S)
        s₃ s' → s'.last? (r.principal, key) = some e :=
      fun s' hrely => (executions_stay hlock hrely).trans (hstays.trans hlast)
    simp only [wp_bind, wp_require, wp_pure]
    refine ⟨fun hsame s' hrely hs' => ?_, fun hother s' hrely _ => ?_⟩
    · have hof : e.Of r := (reused_iff hhash).1 (by simpa using hsame)
      exact ⟨guarantee_of_own rfl, hs', rfl, key, hkey, e, hlast' s' hrely, hof, hbegan₃.trans_lt hlive, rfl, rfl⟩
    · have hof : ¬ e.Of r := fun hof => by
        rw [(reused_iff hhash).2 hof] at hother
        cases hother
      exact ⟨key, hkey, e, hlast' s' hrely, hof, hbegan₃.trans_lt hlive⟩
  · rw [id_eq, id_eq, hrow]
    have hexpired₃ : s₃.Expired (r.principal, key) s₃.clock := fun e he => hexpired e (hstays ▸ he)
    exact (wp_map Answer.reply _) ▸ execute_safe hkey hlock hbegan₃ le_rfl hexpired₃ hs₃

theorem intercept_safe (hhash : Function.Injective env.sha256) (hs : Recorded env s) (hbegan : began ≤ s.clock) :
    Call.Safe env (.request began r) S s (Answer.reply <$> intercept env r) := by
  have hrefused : ∀ e : Refusal, e ≠ .keyReused → ∀ s' : Store σ, (Call.request began r).Refused (.inl e) s' := by
    intro e he s'
    cases e with
    | keyReused => exact absurd rfl he
    | keyRequired | invalidKey => trivial
  have hplain : Call.Safe env (.request began r) S s (Answer.reply <$> (Reply.plain <$> handle r.handler)) :=
    plain_safe hs
  have hrequired : ∀ options : IdempotentOptions, Call.Safe env (.request began r) S s (Answer.reply <$>
      (if options.required then Prog.throw (.inl .keyRequired) else Reply.plain <$> handle r.handler)) := by
    intro options
    split
    · exact fun s' _ _ => hrefused _ (by decide) s'
    · exact hplain
  rw [intercept]
  cases r.options with
  | none => exact hplain
  | some options =>
      cases hkey : r.idempotencyKey with
      | none => exact hrequired options
      | some key =>
          cases key with
          | nil => exact hrequired options
          | cons c key =>
              dsimp only
              split
              · exact fun s' _ _ => hrefused _ (by decide) s'
              · exact once_safe hhash hkey hbegan

/-- The rows removed so far are those of keys whose locks are held. -/
def Purging (now : Instant) (S : Set (Lock L)) (f : Store σ → Store σ) (s : Store σ) : Prop :=
  now ≤ s.clock ∧ ∃ gone : List Slot, (∀ slot ∈ gone, .row slot ∈ S) ∧ f = purged now gone

theorem purged_purged (slots : List Slot) (slot : Slot) :
    purged (σ := σ) now [slot] ∘ purged now slots = purged now (slot :: slots) := by
  funext s
  simp only [Function.comp_apply, purged, List.filter_filter, Store.mk.injEq, true_and, and_true]
  refine List.filter_congr fun k _ => ?_
  by_cases hslot : k.slot = slot <;> by_cases hexpired : k.expiresAt < now <;> simp [hslot, hexpired]

theorem Purging.step (h : Purging now S f s) {s' : Store σ} (hrely : (onceProtocol env).Rely S s s') :
    Purging now (insert (.row slot) S) (purged now [slot] ∘ f) s' := by
  obtain ⟨hnow, gone, hlocks, rfl⟩ := h
  refine ⟨hnow.trans (clock_grows hrely), slot :: gone, fun slot' hslot' => ?_, purged_purged gone slot⟩
  rcases List.mem_cons.1 hslot' with rfl | hgone
  · exact Set.mem_insert _ _
  · exact .inr (hlocks slot' hgone)

/-- Only rows of expired executions are removed. -/
theorem Purging.done (h : Purging now S f s) (hs : Recorded env s) :
    Guarantee env S s (f s) ∧ Recorded env (f s) := by
  obtain ⟨hnow, gone, hlocks, rfl⟩ := h
  have hrow := row?_purged hs.keys now gone
  refine ⟨⟨le_rfl, fun slot hfree => ?_, fun _ _ => rfl⟩, ⟨?_, fun slot => ?_, hs.valid, hs.apart⟩⟩
  · have hkept : slot ∉ gone := fun hgone => hfree (hlocks slot hgone)
    rw [hrow]
    cases s.row? slot <;> simp [Option.filter, hkept]
  · exact hs.keys.sublist (List.filter_sublist.map _)
  · change (purged now gone s).row? slot = (s.last? slot).map _ ∨
      (purged now gone s).row? slot = none ∧ ∀ e, s.last? slot = some e → e.expiresAt < s.clock
    rw [hrow]
    rcases hs.stored slot with hstored | ⟨hnone, hexpired⟩
    · rw [hstored]
      cases s.last? slot with
      | none => exact .inl rfl
      | some e =>
          by_cases hgone : gone.contains slot = true ∧ e.expiresAt < now
          · refine .inr ⟨?_, fun e' he' => ?_⟩
            · simp only [Option.map_some, Option.filter, Execution.row, hgone.1, hgone.2]
              rfl
            · obtain rfl := Option.some.inj he'
              exact hgone.2.trans_le hnow
          · refine .inl ?_
            have hstays : (gone.contains slot && decide (e.expiresAt < now)) = false := by
              simpa [Bool.and_eq_false_iff] using hgone
            simp only [Option.map_some, Option.filter, Execution.row, hstays]
            rfl
    · exact .inr ⟨by rw [hnone]; rfl, hexpired⟩

theorem purge_safe : Call.Safe env (.purge : Call σ L ε) S s ((fun _ => Answer.done) <$> purge) := by
  rw [Call.Safe, wp_map]
  simp only [purge, clock, wp_bind, wp_map, wp_get]
  intro s₁ _ _ s₂ hrely₂ _
  have hstart : Purging (L := L) s₁.clock S id s₂ := by
    refine ⟨clock_grows hrely₂, [], by simp, ?_⟩
    funext s
    simp [purged]
  have hloop : ∀ (slot : Slot) (S : Set (Lock L)) f s, Purging s₁.clock S f s →
      (onceProtocol env).wp (fun _ => Purging s₁.clock) Anyway
        (do Prog.acquire (.row slot); Prog.modify (purged s₁.clock [slot]) : Tx σ L ε Unit) S f s := by
    intro slot S f s h
    simp only [wp_bind, wp_acquire, wp_modify]
    exact fun s' hrely _ => h.step hrely
  refine wp_mono (X := Anyway) (fun _ S f s h => ?_) (fun e S s _ => ?_) (wp_forM _ hloop hstart)
  · intro s' hrely hs'
    have hlater : Purging s₁.clock S f s' := ⟨h.1.trans (clock_grows hrely), h.2⟩
    obtain ⟨hguar, hrecorded⟩ := @Purging.done _ _ env _ _ _ _ hlater hs'
    obtain ⟨-, gone, -, rfl⟩ := h
    exact ⟨hguar, hrecorded, rfl, rfl⟩
  · exact fun s' _ _ => trivial

theorem tick_safe (n : ℕ) : Call.Safe env (.tick n : Call σ L ε) S s ((fun _ => Answer.done) <$> tick n) := by
  rw [Call.Safe, wp_map, tick, wp_atOnce]
  intro s₁ _ hs₁
  have hgrown : s₁.clock ≤ s₁.clock + (n : Instant) := by
    simp only [Instant] at *
    omega
  refine ⟨⟨hgrown, fun _ _ => rfl, fun _ _ => rfl⟩, ⟨hs₁.keys, fun slot => ?_, hs₁.valid, hs₁.apart⟩, ?_⟩
  · rcases hs₁.stored slot with hrow | ⟨hrow, hexpired⟩
    · exact .inl hrow
    · exact .inr ⟨hrow, fun e he => (hexpired e he).trans_le hgrown⟩
  · exact fun s' _ hs' => ⟨⟨le_rfl, fun _ _ => rfl, fun _ _ => rfl⟩, hs', rfl, rfl⟩

theorem code_safe (hhash : Function.Injective env.sha256) (q : Call σ L ε) (hs : Recorded env s) (hq : q.Timely s) :
    q.Safe env S s (q.code env) := by
  cases q with
  | request began r => exact intercept_safe hhash hs (le_of_eq hq)
  | purge => exact purge_safe
  | tick n => exact tick_safe n

end Requests

/-! ## An expired key -/

section Fresh

variable {env : Env} {s : Store σ} {slot : Slot} {r : Request σ L ε}

/-- What a request whose key is not alive does. -/
structure Fresh (env : Env) (slot : Slot) (r : Request σ L ε) (s : Store σ) : Prop where
  fails : ∀ e d, r.handler.run.alone s.data = (.error e, d) → (once env slot r).alone s = (.error (.inr e), s)
  executes : ∀ result d, r.handler.run.alone s.data = (.ok result, d) →
    ∃ s', (once env slot r).alone s = (.ok (.executed r.status result), s') ∧
      Stores env (r.execution slot result s.clock (s.clock + TTL_MS)) { s with data := d } s'

theorem wlp_handle (h : Handler σ L ε) :
    (handle h).wlp
      (fun result s' => ∃ d, h.run.alone s.data = (.ok result, d) ∧ s' = { s with data := d })
      (fun e => ∃ e' d, e = .inr e' ∧ h.run.alone s.data = (.error e', d)) s := by
  rw [handle]
  refine (Prog.wlp_zoom ?view ?put ?same _).2 ((Prog.wlp_mapError _ _).2 ?run)
  case view => exact fun _ _ => rfl
  case put => exact fun _ _ _ => rfl
  case same => exact fun _ => rfl
  case run =>
    refine Prog.wlp_mono (fun result d hrun => ?_) (fun e hrun => ?_) (Prog.wlp_run h.joins s.data s.data)
    · exact ⟨d, Prog.alone_of_ok hrun, rfl⟩
    · exact ⟨e, s.data, rfl, Prog.alone_of_error hrun⟩

/-- Whether the row of an expired key is still there or not, the handler is run. -/
theorem once_fresh (hs : Recorded env s) (hexpired : s.Expired slot s.clock) : Fresh env slot r s := by
  have hlookup : (s.row? slot).filter (fun stored => s.clock < stored.expiresAt) = none := by
    rcases lookup_cases hs le_rfl slot with ⟨e, hlast, -, hlive⟩ | ⟨hnone, -⟩
    · exact absurd (hexpired e hlast) (not_le.2 hlive)
    · exact hnone
  have hwlp : (once env slot r).wlp
      (fun reply s' => ∃ result d, r.handler.run.alone s.data = (.ok result, d) ∧
        reply = .executed r.status result ∧
        Stores env (r.execution slot result s.clock (s.clock + TTL_MS)) { s with data := d } s')
      (fun e => ∃ e' d, e = .inr e' ∧ r.handler.run.alone s.data = (.error e', d)) s := by
    simp only [once, clock, Prog.wlp_bind, Prog.wlp_acquire, Prog.wlp_get, Prog.wlp_map]
    rw [hlookup]
    simp only [execute, Prog.wlp_bind]
    refine Prog.wlp_mono ?_ (fun _ he => he) (wlp_handle r.handler)
    rintro result _ ⟨d, hrun, rfl⟩
    simp only [storeResponse, clock, Prog.wlp_bind, Prog.wlp_map, Prog.wlp_get, Prog.wlp_acquire, Prog.wlp_ite,
      Prog.wlp_modify, Prog.wlp_pure]
    refine ⟨fun hsome => ⟨result, d, hrun, rfl, ?_⟩, fun hnone => ⟨result, d, hrun, rfl, ?_⟩⟩
    · exact stores_withResponse (e := r.execution slot result s.clock (s.clock + TTL_MS)) hs.keys hsome
    · exact stores_addResponse (e := r.execution slot result s.clock (s.clock + TTL_MS)) hs.keys
        (Option.not_isSome_iff_eq_none.1 hnone)
  constructor
  · intro e d hrun
    rcases Prog.alone_cases hwlp with ⟨reply, s', -, result, d', hrun', -⟩ | ⟨e', halone, e'', d', rfl, hrun'⟩
    · rw [hrun] at hrun'
      cases hrun'
    · rw [hrun] at hrun'
      cases hrun'
      exact halone
  · intro result d hrun
    rcases Prog.alone_cases hwlp with ⟨reply, s', halone, result', d', hrun', rfl, hstores⟩ | ⟨e', -, e'', d', -, hrun'⟩
    · rw [hrun] at hrun'
      cases hrun'
      exact ⟨s', halone, hstores⟩
    · rw [hrun] at hrun'
      cases hrun'

end Fresh

/-! ## Every run -/

/-- Among any requests, a key executes once while it is alive. Whoever is answered has been
executed alone or gets the response of the last execution of its key, for the same request;
who is refused has changed nothing. A key that has expired executes as if it had never been
used. -/
theorem executed_once {ι : Type} [DecidableEq ι] {env : Env} (hhash : Function.Injective env.sha256)
    {start w : World ι (Call σ L ε) (Store σ) (Lock L) (Refusal ⊕ ε) Answer} (hidle : start.Idle)
    (hkeys : start.db.keys = []) (hexecutions : start.db.executions = [])
    (hw : Admitted (Call.code env) Call.Timely start w) :
    w.db.executions.Pairwise (fun e e' => e.slot = e'.slot → e.expiresAt ≤ e'.checkedAt) ∧
      (∀ i q a w', Step (Call.code env) w (.answers i q (.ok a)) w' → q.Answered env a w.db w'.db) ∧
      (∀ i q e w', Step (Call.code env) w (.answers i q (.error e)) w' → w'.db = w.db ∧ q.Refused e w.db) ∧
      ∀ slot (r : Request σ L ε), w.db.Expired slot w.db.clock → Fresh env slot r w.db := by
  have hstart : Recorded env start.db := by
    refine ⟨by simp [hkeys], fun slot => .inl ?_, by simp [hexecutions], by simp [hexecutions]⟩
    simp [Store.row?, hkeys, Store.last?, Store.executionsOf, hexecutions]
  have hsound : (onceProtocol env).Sound (Call.Answered env) Call.Refused w :=
    Sound.admitted (.of_idle hidle hstart) (fun q s hs hq => code_safe hhash q hs hq) hw
  exact ⟨hsound.inv.apart, fun i q a w' hstep => hsound.answer hstep, fun i q e w' hstep => hsound.error hstep,
    fun slot r hexpired => once_fresh hsound.inv hexpired⟩

/-! ## Two clients with one key -/

/-- A handler that counts its runs. -/
def counting : Handler ℕ Unit Unit where
  run := do
    Prog.modify Nat.succ
    let n ← Prog.get
    return some (.bool (n == 1))
  joins := ⟨fun _ => rfl, fun _ => trivial⟩

def collidingEnv : Env := ⟨id, fun _ => 0⟩

def pay (amount : String) : Call ℕ Unit Unit :=
  .request 0 {
    userId := some "u1".toList, idempotencyKey := some "k-000001".toList, method := "POST".toList,
    path := "/payments".toList, body := some (.obj [("amount".toList, .str amount.toList)]), handler := counting }

abbrev Server := Duo (Call ℕ Unit Unit) (Store ℕ) (Lock Unit) (Refusal ⊕ Unit) Answer

def server : Server := Duo.idle { data := 0 }

/-- The duplicate waits for the lock; afterwards another amount is refused. -/
def duplicates : List (Move (Call ℕ Unit Unit)) := [
  .begins true (pay "5"), .turns true 3, .begins false (pay "5"), .turns false 9, .turns true 9, .turns false 9,
  .begins true (pay "6"), .turns true 9]

def Call.isTimely : Call ℕ Unit Unit → Store ℕ → Bool
  | .request began _, s => began == s.clock
  | _, _ => true

theorem timely_of_isTimely (q : Call ℕ Unit Unit) (s : Store ℕ) (h : q.isTimely s = true) : q.Timely s := by
  cases q with
  | request began r => exact beq_iff_eq.1 h
  | purge | tick => trivial

theorem executed_once_twice :
    ((server.play (Call.code collidingEnv) duplicates).db.executions.length,
      (server.play (Call.code collidingEnv) duplicates).db.data) = (1, 1) ∧
      (server.play (Call.code collidingEnv) duplicates).db.executions.Pairwise
        fun e e' => e.slot = e'.slot → e.expiresAt ≤ e'.checkedAt := by
  have hplayed : Admitted (Call.code collidingEnv) Call.Timely server.world
      (server.play (Call.code collidingEnv) duplicates).world :=
    Duo.play_admitted_of_ok (Call.code collidingEnv) timely_of_isTimely server duplicates (by decide +kernel)
  have hhash : Function.Injective collidingEnv.sha256 := Function.injective_id
  exact ⟨by decide +kernel, (executed_once hhash (fun _ => rfl) rfl rfl hplayed).1⟩

end Emis.Idempotency
