import Emis.Library.Script
import Emis.Messaging.Delivery

/-!
# Exactly once

However publishers, relays, deliveries and purges are interleaved, a handler's effects for an
event are committed once, if the event is delivered while the inbox remembers it.
-/

namespace Emis.Messaging

open Transactions Protocol

variable {σ L Key : Type}

inductive Call (σ L Key : Type) where
  /-- Any transaction of a module. -/
  | transact (work : Work σ L Key Unit)
  | relayBatch (now publishedAt : Instant)
  | removeJob (id : Uuid)
  | dispatch (env : Env Key) (stored : StoredEvent) (processedAt : Str → Instant)
  | purgeDelivered (now : Instant)

inductive Reply where
  | done
  | relayed (n : ℕ)
  | dispatched (result : Dispatched)
  | purged (n : ℕ)

def Call.code (handlers : List (EventHandler σ L Key)) : Call σ L Key → Tx σ L Key Reply
  | .transact work => (fun _ => Reply.done) <$> work.code
  | .relayBatch now publishedAt => Reply.relayed <$> Messaging.relayBatch now publishedAt
  | .removeJob id => (fun _ => Reply.done) <$> Messaging.removeJob id
  | .dispatch env stored processedAt => Reply.dispatched <$> Messaging.dispatch handlers env stored processedAt
  | .purgeDelivered now => Reply.purged <$> Messaging.purgeDelivered now

/-! ## The assumptions on deliveries -/

/-- The inbox has a row for every handler that has handled the event. -/
def Remembered (id : Uuid) (s : Store σ L Key) : Prop :=
  ∀ e ∈ s.effects, e.event.id = id → s.hasProcessed e.handler.name id = true

/-- What is delivered is a job of the queue whose event the inbox still remembers. -/
def Call.Delivers : Call σ L Key → Store σ L Key → Prop
  | .dispatch _ stored _, s => stored ∈ s.jobs ∧ Remembered stored.id s
  | _, _ => True

/-- While an event is delivered the retention period of its inbox rows does not end. -/
def Retained (s : Store σ L Key) : Call σ L Key → Call σ L Key → Prop
  | .dispatch _ stored _, .purgeDelivered now => ∀ r ∈ s.processed, r.eventId = stored.id → forgotten now r = false
  | _, _ => True

/-! ## The protocol -/

def Effect.key (e : Effect σ L Key) : Str × Uuid := (e.handler.name, e.event.id)

structure Consistent (handlers : List (EventHandler σ L Key)) (s : Store σ L Key) : Prop where
  rows : ∀ r ∈ s.outbox, storedEvent r ∈ s.committed
  jobs : s.jobs ⊆ s.added
  added : s.added ⊆ s.committed
  marked : ∀ r ∈ s.outbox, r.publishedAt.isSome = true → ∃ e ∈ s.added, e.id = r.id
  claimed : ∀ r ∈ s.processed, ∃ e ∈ s.effects, e.key = r.key
  known : ∀ e ∈ s.effects, e.handler ∈ handlers ∧ e.event ∈ s.committed
  once : (s.effects.map Effect.key).Nodup

/-- Nothing that has happened is undone, and only who holds the lock of an inbox row claims it or
removes it. -/
structure Grows (S : Set (Lock L)) (s s' : Store σ L Key) : Prop where
  committed : s.committed ⊆ s'.committed
  added : s.added ⊆ s'.added
  effects : s.effects <+: s'.effects
  claims : ∀ consumer id, .inbox consumer id ∉ S → s'.hasProcessed consumer id = s.hasProcessed consumer id ∧
    ∀ e ∈ s'.effects, e.key = (consumer, id) → e ∈ s.effects

/-- What a request does to the inbox. -/
def Call.Remembers : Call σ L Key → Store σ L Key → Store σ L Key → Prop
  | .purgeDelivered now, s, s' => s'.effects = s.effects ∧ ∀ r ∈ s.processed, forgotten now r = false → r ∈ s'.processed
  | _, s, s' => ∀ id, Remembered id s → Remembered id s'

/-- What a delivery expects of the others. -/
def Call.Expects : Call σ L Key → Store σ L Key → Store σ L Key → Prop
  | .dispatch _ stored _, s, s' => Remembered stored.id s → Remembered stored.id s'
  | _, _, _ => True

def deliveryProtocol (handlers : List (EventHandler σ L Key)) (q : Call σ L Key) : Protocol (Store σ L Key) (Lock L) where
  Inv := Consistent handlers
  Guar S s s' := Grows S s s' ∧ q.Remembers s s'
  Intf S s s' := Grows S s s' ∧ q.Expects s s'

variable {handlers : List (EventHandler σ L Key)}

theorem hasProcessed_iff {s : Store σ L Key} {consumer : Str} {id : Uuid} :
    s.hasProcessed consumer id = true ↔ ∃ r ∈ s.processed, r.key = (consumer, id) := by
  simp [Store.hasProcessed, ProcessedRow.key]

/-- A purge leaves alone what is being delivered. -/
theorem agree : Agree (Consistent handlers) (deliveryProtocol handlers) Retained where
  inv _ _ := Iff.rfl
  expects {q q' S s s'} hclear hguar := by
    refine ⟨hguar.1, ?_⟩
    cases q with
    | transact | relayBatch | removeJob | purgeDelivered => trivial
    | dispatch env stored processedAt =>
        cases q' with
        | transact | relayBatch | removeJob | dispatch => exact hguar.2 stored.id
        | purgeDelivered now =>
            intro hremembered e he hid
            obtain ⟨heffects, hkept⟩ := hguar.2
            obtain ⟨r, hr, hkey⟩ := hasProcessed_iff.1 (hremembered e (heffects ▸ he) hid)
            have hretained : forgotten now r = false := hclear r hr (congrArg Prod.snd hkey)
            exact hasProcessed_iff.2 ⟨r, hkept r hr hretained, hkey⟩

section Steps

variable {q : Call σ L Key} {S : Set (Lock L)} {s s' s'' : Store σ L Key}

theorem Grows.refl : Grows S s s := ⟨List.Subset.refl _, List.Subset.refl _, List.prefix_rfl, fun _ _ _ => ⟨rfl, fun _ he _ => he⟩⟩

theorem Grows.trans (h : Grows S s s') (h' : Grows S s' s'') : Grows S s s'' where
  committed := List.Subset.trans h.committed h'.committed
  added := List.Subset.trans h.added h'.added
  effects := h.effects.trans h'.effects
  claims consumer id hfree := by
    obtain ⟨hsame, hold⟩ := h.claims consumer id hfree
    obtain ⟨hsame', hold'⟩ := h'.claims consumer id hfree
    exact ⟨hsame'.trans hsame, fun e he hkey => hold e (hold' e he hkey) hkey⟩

/-- A store with the same inbox and the same effects. -/
theorem Grows.of_same (hcommitted : s.committed ⊆ s'.committed) (hadded : s.added ⊆ s'.added)
    (hprocessed : s'.processed = s.processed) (heffects : s'.effects = s.effects) : Grows S s s' where
  committed := hcommitted
  added := hadded
  effects := heffects ▸ List.prefix_rfl
  claims consumer id _ := by
    refine ⟨?_, fun e he _ => heffects ▸ he⟩
    rw [Store.hasProcessed, hprocessed, Store.hasProcessed]

theorem remembered_of_same (hprocessed : s'.processed = s.processed) (heffects : s'.effects = s.effects) (id : Uuid)
    (h : Remembered id s) : Remembered id s' := by
  intro e he hid
  rw [Store.hasProcessed, hprocessed]
  exact h e (heffects ▸ he) hid

theorem remembers_of_same (hprocessed : s'.processed = s.processed) (heffects : s'.effects = s.effects) :
    q.Remembers s s' := by
  cases q with
  | transact | relayBatch | removeJob | dispatch => exact remembered_of_same hprocessed heffects
  | purgeDelivered now => exact ⟨heffects, fun r hr _ => hprocessed ▸ hr⟩

theorem committed_grows (h : (deliveryProtocol handlers q).Rely S s s') : s.committed ⊆ s'.committed := by
  refine h.stable (φ := fun x => s.committed ⊆ x.committed) ?_ (List.Subset.refl _)
  rintro s₁ s₂ ⟨-, T, -, hgrows, -⟩ hsub
  exact List.Subset.trans hsub hgrows.committed

theorem added_grows (h : (deliveryProtocol handlers q).Rely S s s') : s.added ⊆ s'.added := by
  refine h.stable (φ := fun x => s.added ⊆ x.added) ?_ (List.Subset.refl _)
  rintro s₁ s₂ ⟨-, T, -, hgrows, -⟩ hsub
  exact List.Subset.trans hsub hgrows.added

theorem effects_grow (h : (deliveryProtocol handlers q).Rely S s s') : s.effects ⊆ s'.effects := by
  refine h.stable (φ := fun x => s.effects ⊆ x.effects) ?_ (List.Subset.refl _)
  rintro s₁ s₂ ⟨-, T, -, hgrows, -⟩ hsub
  exact List.Subset.trans hsub hgrows.effects.subset

/-- The holder of the lock of an inbox row sees no new claim. -/
theorem claim_stays {consumer : Str} {id : Uuid} (hlock : .inbox consumer id ∈ S)
    (h : (deliveryProtocol handlers q).Rely S s s') :
    s'.hasProcessed consumer id = s.hasProcessed consumer id ∧
      ∀ e ∈ s'.effects, e.key = (consumer, id) → e ∈ s.effects := by
  refine h.stable (φ := fun x => x.hasProcessed consumer id = s.hasProcessed consumer id ∧
    ∀ e ∈ x.effects, e.key = (consumer, id) → e ∈ s.effects) ?_ ⟨rfl, fun _ he _ => he⟩
  rintro s₁ s₂ ⟨-, T, hdisj, hgrows, -⟩ ⟨hsame, hold⟩
  obtain ⟨hsame', hold'⟩ := hgrows.claims consumer id (Set.disjoint_left.1 hdisj hlock)
  exact ⟨hsame'.trans hsame, fun e he hkey => hold e (hold' e he hkey) hkey⟩

/-- What is being delivered stays remembered. -/
theorem remembered_stays {env : Env Key} {stored : StoredEvent} {processedAt : Str → Instant}
    (h : (deliveryProtocol handlers (.dispatch env stored processedAt)).Rely S s s')
    (hs : Remembered stored.id s) : Remembered stored.id s' := by
  refine h.stable (φ := Remembered stored.id) ?_ hs
  rintro s₁ s₂ ⟨-, T, -, -, hexpects⟩ hremembered
  exact hexpects hremembered

end Steps

/-! ## A module's transaction -/

/-- What a module writes: its own tables, and unpublished rows of the outbox. -/
structure Publishes (g : Store σ L Key → Store σ L Key) : Prop where
  processed : ∀ s, (g s).processed = s.processed
  effects : ∀ s, (g s).effects = s.effects
  jobs : ∀ s, (g s).jobs = s.jobs
  added : ∀ s, (g s).added = s.added
  committed : ∀ s, s.committed ⊆ (g s).committed
  rows : ∀ s, ∀ r ∈ (g s).outbox, r ∈ s.outbox ∨ r.publishedAt = none ∧ storedEvent r ∈ (g s).committed

namespace Publishes

variable {g h : Store σ L Key → Store σ L Key} {s : Store σ L Key}

theorem refl : Publishes (id : Store σ L Key → Store σ L Key) where
  processed _ := rfl
  effects _ := rfl
  jobs _ := rfl
  added _ := rfl
  committed _ := List.Subset.refl _
  rows _ _ hr := .inl hr

theorem comp (hh : Publishes h) (hg : Publishes g) : Publishes (h ∘ g) where
  processed s := (hh.processed _).trans (hg.processed s)
  effects s := (hh.effects _).trans (hg.effects s)
  jobs s := (hh.jobs _).trans (hg.jobs s)
  added s := (hh.added _).trans (hg.added s)
  committed s := List.Subset.trans (hg.committed s) (hh.committed _)
  rows s r hr := by
    rcases hh.rows (g s) r hr with hold | hnew
    · rcases hg.rows s r hold with hold | ⟨hnone, hmem⟩
      · exact .inl hold
      · exact .inr ⟨hnone, hh.committed _ hmem⟩
    · exact .inr hnew

theorem onData (f : σ → σ) : Publishes (Messaging.onData f : Store σ L Key → Store σ L Key) where
  processed _ := rfl
  effects _ := rfl
  jobs _ := rfl
  added _ := rfl
  committed _ := List.Subset.refl _
  rows _ _ hr := .inl hr

theorem addRow {row : OutboxRow} (hrow : row.publishedAt = none) :
    Publishes (Messaging.addRow row : Store σ L Key → Store σ L Key) where
  processed _ := rfl
  effects _ := rfl
  jobs _ := rfl
  added _ := rfl
  committed _ := List.subset_append_left _ _
  rows s r hr := by
    rcases List.mem_append.1 hr with hold | hnew
    · exact .inl hold
    · obtain rfl := List.mem_singleton.1 hnew
      exact .inr ⟨hrow, List.mem_append_right _ (List.mem_singleton_self _)⟩

theorem consistent (hg : Publishes g) (hs : Consistent handlers s) : Consistent handlers (g s) where
  rows r hr := by
    rcases hg.rows s r hr with hold | ⟨-, hnew⟩
    · exact hg.committed s (hs.rows r hold)
    · exact hnew
  jobs := by
    rw [hg.jobs, hg.added]
    exact hs.jobs
  added := by
    rw [hg.added]
    exact List.Subset.trans hs.added (hg.committed s)
  marked r hr hpublished := by
    rw [hg.added]
    rcases hg.rows s r hr with hold | ⟨hnone, -⟩
    · exact hs.marked r hold hpublished
    · simp [hnone] at hpublished
  claimed := by
    rw [hg.processed, hg.effects]
    exact hs.claimed
  known e he := by
    rw [hg.effects] at he
    exact ⟨(hs.known e he).1, hg.committed s (hs.known e he).2⟩
  once := by
    rw [hg.effects]
    exact hs.once

theorem grows {S : Set (Lock L)} (hg : Publishes g) : Grows S s (g s) :=
  .of_same (hg.committed s) (hg.added s ▸ List.Subset.refl _) (hg.processed s) (hg.effects s)

theorem remembers {q : Call σ L Key} (hg : Publishes g) : q.Remembers s (g s) :=
  remembers_of_same (hg.processed s) (hg.effects s)

end Publishes

theorem publishedAt_of_outboxRow {env : Env Key} {type : Str} {payload : Payload} {options : PublishOptions}
    {row : OutboxRow} (h : outboxRow env type payload options = .ok row) : row.publishedAt = none := by
  rw [outboxRow] at h
  cases hseal : sealPayload env type payload options.sensitive with
  | error e =>
      rw [hseal] at h
      cases h
  | ok stored =>
      rw [hseal] at h
      cases h
      rfl

section Requests

variable {α : Type} {P : Protocol (Store σ L Key) (Lock L)} {q : Call σ L Key} {S : Set (Lock L)}
  {f : Store σ L Key → Store σ L Key} {s : Store σ L Key}

theorem wp_work {K : α → Set (Lock L) → (Store σ L Key → Store σ L Key) → Store σ L Key → Prop}
    (work : Work σ L Key α) (hs : P.Inv s)
    (hK : ∀ a S' g s', S ⊆ S' → Publishes g → P.Rely S s s' → P.Inv s' → K a S' (g ∘ f) s') :
    P.wp K Anyway work.code S f s := by
  induction work generalizing S f s with
  | ret a => exact hK a S id s subset_rfl .refl .refl hs
  | fail e => trivial
  | read k ih =>
      intro s₁ hr₁ hs₁
      exact ih _ hs₁ fun a S' g s' hS hg hr hs' => hK a S' g s' hS hg (hr₁.trans hr) hs'
  | write h k ih =>
      refine ih hs fun a S' g s' hS hg hr hs' => ?_
      exact hK a S' (g ∘ onData h) s' hS (hg.comp (.onData h)) hr hs'
  | lock l k ih =>
      intro s₁ hr₁ hs₁
      have hsub : S ⊆ insert (Lock.own l) S := Set.subset_insert _ S
      exact ih hs₁ fun a S' g s' hS hg hr hs' => hK a S' g s' (hsub.trans hS) hg (hr₁.trans (hr.anti hsub)) hs'
  | tryLock l k ih =>
      intro s₁ hr₁ hs₁
      have hsub : S ⊆ insert (Lock.own l) S := Set.subset_insert _ S
      constructor
      · exact ih true hs₁ fun a S' g s' hS hg hr hs' => hK a S' g s' (hsub.trans hS) hg (hr₁.trans (hr.anti hsub)) hs'
      · exact ih false hs₁ fun a S' g s' hS hg hr hs' => hK a S' g s' hS hg (hr₁.trans hr) hs'
  | publish env type payload options k ih =>
      simp only [Work.code, publish, wp_bind, wp_ofExcept, wp_acquire, wp_get, wp_require, wp_modify]
      refine ⟨fun row hrow s₁ hr₁ _ s₂ hr₂ hs₂ => ⟨fun _ => ?_, fun _ => trivial⟩, fun _ _ => trivial⟩
      have hnone : row.publishedAt = none := publishedAt_of_outboxRow hrow
      have hsub : S ⊆ insert (Lock.outbox row.id) S := Set.subset_insert _ S
      refine ih hs₂ fun a S' g s' hS hg hr hs' => ?_
      exact hK a S' (g ∘ addRow row) s' (hsub.trans hS) (hg.comp (.addRow hnone))
        ((hr₁.trans (hr₂.anti hsub)).trans (hr.anti hsub)) hs'

/-- Where a request leads. -/
abbrev Call.Safe (handlers : List (EventHandler σ L Key)) (q : Call σ L Key) (Post : Reply → Store σ L Key → Prop)
    (s : Store σ L Key) : Prop :=
  (deliveryProtocol handlers q).wp ((deliveryProtocol handlers q).Done fun a _ s' => Post a s') Anyway
    (q.code handlers) ∅ id s

theorem transact_safe (work : Work σ L Key Unit) (hs : Consistent handlers s) :
    (Call.transact work).Safe handlers (fun _ _ => True) s := by
  rw [Call.Safe, Call.code, wp_map]
  refine wp_work work hs fun _ S' g s₁ _ hg _ _ => ?_
  exact fun s' _ hs' => ⟨⟨hg.grows, hg.remembers⟩, hg.consistent hs', trivial⟩

theorem removeJob_safe (id : Uuid) : (Call.removeJob id : Call σ L Key).Safe handlers (fun _ _ => True) s := by
  rw [Call.Safe, Call.code, wp_map, removeJob, wp_atOnce]
  intro s₁ _ hs₁
  have hsub : s₁.jobs.filter (fun e => e.id != id) ⊆ s₁.jobs := List.filter_subset_self _
  refine ⟨⟨.of_same (List.Subset.refl _) (List.Subset.refl _) rfl rfl, remembers_of_same rfl rfl⟩,
    ⟨hs₁.rows, List.Subset.trans hsub hs₁.jobs, hs₁.added, hs₁.marked, hs₁.claimed, hs₁.known, hs₁.once⟩, ?_⟩
  exact fun s' _ hs' => ⟨⟨.refl, remembers_of_same rfl rfl⟩, hs', trivial⟩

/-! ## The dispatcher -/

section Dispatch

variable {env : Env Key} {stored : StoredEvent} {processedAt : Str → Instant} {handler : EventHandler σ L Key}
  {g : Store σ L Key → Store σ L Key}

/-- A claim, the handler's writes and its effect, committed together. -/
def handledBy (handler : EventHandler σ L Key) (stored : StoredEvent) (at' : Instant)
    (g : Store σ L Key → Store σ L Key) : Store σ L Key → Store σ L Key :=
  addEffect ⟨handler, stored⟩ ∘ g ∘ addProcessed ⟨handler.name, stored.id, at'⟩

theorem hasProcessed_handledBy {at' : Instant} (hg : Publishes g) (consumer : Str) (id : Uuid) :
    (handledBy handler stored at' g s).hasProcessed consumer id =
      (s.hasProcessed consumer id || (handler.name == consumer && stored.id == id)) := by
  change (g (addProcessed ⟨handler.name, stored.id, at'⟩ s)).processed.any _ = _
  rw [hg.processed, addProcessed, List.any_append, List.any_cons, List.any_nil, Bool.or_false, Store.hasProcessed]

theorem effects_handledBy {at' : Instant} (hg : Publishes g) :
    (handledBy handler stored at' g s).effects = s.effects ++ [⟨handler, stored⟩] := by
  change (g (addProcessed ⟨handler.name, stored.id, at'⟩ s)).effects ++ _ = _
  rw [hg.effects, addProcessed]

theorem handledBy_grows {at' : Instant} (hg : Publishes g) (hlock : .inbox handler.name stored.id ∈ S) :
    Grows S s (handledBy handler stored at' g s) where
  committed := hg.committed (addProcessed ⟨handler.name, stored.id, at'⟩ s)
  added := by
    change s.added ⊆ (g (addProcessed ⟨handler.name, stored.id, at'⟩ s)).added
    rw [hg.added, addProcessed]
    exact List.Subset.refl _
  effects := effects_handledBy hg ▸ List.prefix_append _ _
  claims consumer id hfree := by
    have hother : ¬ (handler.name = consumer ∧ stored.id = id) := by
      rintro ⟨rfl, rfl⟩
      exact hfree hlock
    rw [hasProcessed_handledBy hg, effects_handledBy hg]
    refine ⟨?_, fun e he hkey => ?_⟩
    · have hmiss : (handler.name == consumer && stored.id == id) = false := by
        simpa [Bool.and_eq_false_iff, not_and_or] using hother
      rw [hmiss, Bool.or_false]
    · rcases List.mem_append.1 he with hold | hnew
      · exact hold
      · obtain rfl := List.mem_singleton.1 hnew
        exact absurd (Prod.mk.inj hkey) hother

theorem handledBy_remembers {at' : Instant} (hg : Publishes g) (id : Uuid) (hs : Remembered id s) :
    Remembered id (handledBy handler stored at' g s) := by
  intro e he hid
  rw [hasProcessed_handledBy hg]
  rw [effects_handledBy hg] at he
  rcases List.mem_append.1 he with hold | hnew
  · rw [hs e hold hid, Bool.true_or]
  · obtain rfl := List.mem_singleton.1 hnew
    simp only [] at hid
    simp [hid]

/-- An effect that is not there yet. -/
theorem handledBy_consistent {at' : Instant} (hg : Publishes g) (hs : Consistent handlers s)
    (hhandler : handler ∈ handlers) (hstored : stored ∈ s.committed)
    (hnew : ∀ e ∈ s.effects, e.key ≠ (handler.name, stored.id)) :
    Consistent handlers (handledBy handler stored at' g s) where
  rows r hr := by
    rcases hg.rows _ r hr with hold | ⟨-, hmem⟩
    · exact hg.committed _ (hs.rows r hold)
    · exact hmem
  jobs := by
    change (g (addProcessed ⟨handler.name, stored.id, at'⟩ s)).jobs ⊆ (g (addProcessed ⟨_, _, at'⟩ s)).added
    rw [hg.jobs, hg.added]
    exact hs.jobs
  added := by
    change (g (addProcessed ⟨handler.name, stored.id, at'⟩ s)).added ⊆ _
    rw [hg.added]
    exact List.Subset.trans hs.added (hg.committed (addProcessed ⟨handler.name, stored.id, at'⟩ s))
  marked r hr hpublished := by
    change ∃ e ∈ (g (addProcessed ⟨handler.name, stored.id, at'⟩ s)).added, e.id = r.id
    rw [hg.added]
    rcases hg.rows _ r hr with hold | ⟨hnone, -⟩
    · exact hs.marked r hold hpublished
    · simp [hnone] at hpublished
  claimed r hr := by
    change r ∈ (g (addProcessed ⟨handler.name, stored.id, at'⟩ s)).processed at hr
    rw [hg.processed] at hr
    rw [effects_handledBy hg]
    rcases List.mem_append.1 hr with hold | hclaim
    · obtain ⟨e, he, hkey⟩ := hs.claimed r hold
      exact ⟨e, List.mem_append_left _ he, hkey⟩
    · obtain rfl := List.mem_singleton.1 hclaim
      exact ⟨_, List.mem_append_right _ (List.mem_singleton_self _), rfl⟩
  known e he := by
    rw [effects_handledBy hg] at he
    rcases List.mem_append.1 he with hold | heffect
    · exact ⟨(hs.known e hold).1, hg.committed _ (hs.known e hold).2⟩
    · obtain rfl := List.mem_singleton.1 heffect
      exact ⟨hhandler, hg.committed _ hstored⟩
  once := by
    rw [effects_handledBy hg]
    exact nodup_snoc hs.once hnew

/-- What is known while an event is delivered. -/
structure Delivering (handlers : List (EventHandler σ L Key)) (stored : StoredEvent) (s : Store σ L Key) : Prop where
  consistent : Consistent handlers s
  published : stored ∈ s.committed
  remembered : Remembered stored.id s

theorem Delivering.later {s' : Store σ L Key} (h : Delivering handlers stored s)
    (hr : (deliveryProtocol handlers (.dispatch env stored processedAt)).Rely S s s') :
    Delivering handlers stored s' where
  consistent := hr.inv h.consistent
  published := committed_grows hr h.published
  remembered := remembered_stays hr h.remembered

/-- A handler has handled the event. -/
def Handled (handler : EventHandler σ L Key) (stored : StoredEvent) (s : Store σ L Key) : Prop :=
  ∃ e ∈ s.effects, e.key = (handler.name, stored.id)

theorem handleOnce_safe {event : DomainEvent} {startedAt : Instant} (hevent : event.id = stored.id)
    (hhandler : handler ∈ handlers) (hs : Delivering handlers stored s)
    {K : Bool → Set (Lock L) → (Store σ L Key → Store σ L Key) → Store σ L Key → Prop}
    (hK : ∀ ran s', s.effects ⊆ s'.effects → Delivering handlers stored s' → Handled handler stored s' → K ran ∅ id s') :
    (deliveryProtocol handlers (.dispatch env stored processedAt)).wp K Anyway
      (handleOnce handler stored event startedAt) ∅ id s := by
  simp only [handleOnce, wp_bind, wp_acquire, wp_get, wp_ite, wp_commits, wp_modify, wp_pure, hevent]
  intro s₁ hr₁ _ s₂ hr₂ hs₂
  have hdelivering₂ : Delivering handlers stored s₂ := (hs.later hr₁).later hr₂
  have heffects₂ : s.effects ⊆ s₂.effects := List.Subset.trans (effects_grow hr₁) (effects_grow hr₂)
  constructor
  · intro hprocessed s₃ hr₃ hs₃
    refine ⟨⟨.refl, remembers_of_same rfl rfl⟩, hs₃, hK _ _ (List.Subset.trans heffects₂ (effects_grow hr₃))
      (hdelivering₂.later hr₃) ?_⟩
    obtain ⟨r, hr, hkey⟩ := hasProcessed_iff.1 hprocessed
    obtain ⟨e, he, hekey⟩ := hs₂.claimed r hr
    exact ⟨e, effects_grow hr₃ he, hekey.trans hkey⟩
  · intro hfree
    refine wp_work _ hs₂ fun _ S' g s₃ hS hg hr₃ _ => ?_
    intro s₄ hr₄ hs₄
    have hlock₂ : Lock.inbox handler.name stored.id ∈ insert (Lock.inbox (L := L) handler.name stored.id) ∅ :=
      Set.mem_insert _ _
    have hr : (deliveryProtocol handlers (.dispatch env stored processedAt)).Rely _ s₂ s₄ := hr₃.trans (hr₄.anti hS)
    have hdelivering₄ : Delivering handlers stored s₄ := hdelivering₂.later hr
    have hnew : ∀ e ∈ s₄.effects, e.key ≠ (handler.name, stored.id) := by
      intro e he hkey
      have hold : e ∈ s₂.effects := (claim_stays hlock₂ hr).2 e he hkey
      obtain ⟨hname, hid⟩ := Prod.mk.inj hkey
      exact hfree (hname ▸ hdelivering₂.remembered e hold hid)
    have hconsistent : Consistent handlers (handledBy handler stored startedAt g s₄) :=
      handledBy_consistent hg hs₄ hhandler hdelivering₄.published hnew
    have hgrows : Grows S' s₄ (handledBy handler stored startedAt g s₄) := handledBy_grows hg (hS hlock₂)
    refine ⟨⟨hgrows, fun id => handledBy_remembers hg id⟩, hconsistent, hK _ _ ?_ ⟨hconsistent, ?_, ?_⟩ ?_⟩
    · exact List.Subset.trans heffects₂ (List.Subset.trans (effects_grow hr) hgrows.effects.subset)
    · exact hgrows.committed hdelivering₄.published
    · exact handledBy_remembers hg _ hdelivering₄.remembered
    · refine ⟨⟨handler, stored⟩, ?_, rfl⟩
      change _ ∈ (handledBy handler stored startedAt g s₄).effects
      rw [effects_handledBy hg]
      exact List.mem_append_right _ (List.mem_singleton_self _)

theorem runHandlers_safe {event : DomainEvent} (hevent : event.id = stored.id) (hs : Delivering handlers stored s)
    {K : Dispatched → Set (Lock L) → (Store σ L Key → Store σ L Key) → Store σ L Key → Prop}
    (hs' : List (EventHandler σ L Key)) (result : Dispatched) (hsub : hs' ⊆ handlers)
    (hK : ∀ r s', s.effects ⊆ s'.effects → Delivering handlers stored s' → (∀ h ∈ hs', Handled h stored s') →
      r.handled + r.skipped = result.handled + result.skipped + hs'.length → K r ∅ id s') :
    (deliveryProtocol handlers (.dispatch env stored processedAt)).wp K Anyway
      (runHandlers stored event processedAt hs' result) ∅ id s := by
  induction hs' generalizing s result with
  | nil => exact hK result s (List.Subset.refl _) hs (by simp) rfl
  | cons handler hs' ih =>
      obtain ⟨hhandler, hrest⟩ := List.cons_subset.1 hsub
      rw [runHandlers, wp_bind]
      refine handleOnce_safe hevent hhandler hs fun ran s₁ heffects₁ hs₁ hhandled => ?_
      have hnext : ∀ next : Dispatched, next.handled + next.skipped = result.handled + result.skipped + 1 →
          (deliveryProtocol handlers (.dispatch env stored processedAt)).wp K Anyway
            (runHandlers stored event processedAt hs' next) ∅ id s₁ := by
        intro next hcount
        refine ih hs₁ next hrest fun r s' heffects hs' hall hsum => ?_
        refine hK r s' (List.Subset.trans heffects₁ heffects) hs' (fun h hh => ?_) ?_
        · rcases List.mem_cons.1 hh with rfl | hh
          · obtain ⟨e, he, hkey⟩ := hhandled
            exact ⟨e, heffects he, hkey⟩
          · exact hall h hh
        · rw [hsum, hcount, List.length_cons]
          omega
      cases ran with
      | true => exact hnext _ (by dsimp only; omega)
      | false => exact hnext _ (by dsimp only; omega)

theorem id_of_domainEvent {event : DomainEvent} (h : domainEvent env stored = .ok event) :
    event.id = stored.id ∧ event.type = stored.type := by
  rw [domainEvent] at h
  cases hpayload : unsealed env stored with
  | error e =>
      rw [hpayload] at h
      cases h
  | ok payload =>
      rw [hpayload] at h
      cases h
      exact ⟨rfl, rfl⟩

/-- Every handler of the event's type has handled it. -/
def HandledByAll (handlers : List (EventHandler σ L Key)) (stored : StoredEvent) (s : Store σ L Key) : Prop :=
  ∀ h ∈ handlers, h.eventType = stored.type → ∃ e ∈ s.effects, e.handler = h ∧ e.event.id = stored.id

theorem handledByAll (hnames : (handlers.map EventHandler.name).Nodup) (hs : Consistent handlers s)
    (hall : ∀ h ∈ handlers.filter fun h => h.eventType == stored.type, Handled h stored s) :
    HandledByAll handlers stored s := by
  intro h hh htype
  obtain ⟨e, he, hkey⟩ := hall h (List.mem_filter.2 ⟨hh, beq_iff_eq.2 htype⟩)
  obtain ⟨hname, hid⟩ := Prod.mk.inj hkey
  exact ⟨e, he, eq_of_key_eq hnames (hs.known e he).1 hh hname, hid⟩

theorem dispatch_safe (hnames : (handlers.map EventHandler.name).Nodup) (hs : Delivering handlers stored s) :
    (Call.dispatch env stored processedAt).Safe handlers (fun _ s' => HandledByAll handlers stored s') s := by
  rw [Call.Safe, Call.code, wp_map, dispatch]
  simp only [wp_bind, wp_ofExcept]
  refine ⟨fun event hevent => ?_, fun _ _ => trivial⟩
  obtain ⟨hid, htype⟩ := id_of_domainEvent hevent
  rw [htype]
  refine runHandlers_safe hid hs _ _ (List.filter_subset_self _) fun r s₁ _ hs₁ hall _ => ?_
  intro s' hr hs'
  refine ⟨⟨.refl, remembers_of_same rfl rfl⟩, hs', handledByAll hnames hs' fun h hh => ?_⟩
  obtain ⟨e, he, hkey⟩ := hall h hh
  exact ⟨e, effects_grow hr he, hkey⟩

end Dispatch

/-! ## The relay -/

section Relay

variable {now publishedAt : Instant}

theorem claim_safe {K : List OutboxRow → Set (Lock L) → (Store σ L Key → Store σ L Key) → Store σ L Key → Prop}
    (rows : List OutboxRow) (n : ℕ) (hs : Consistent handlers s)
    (hK : ∀ claimed S' s', Consistent handlers s' → s.committed ⊆ s'.committed →
      (∀ r ∈ claimed, storedEvent r ∈ s'.committed) → K claimed S' id s') :
    (deliveryProtocol handlers q).wp K Anyway (claim now n rows) S id s := by
  induction rows generalizing n S s K with
  | nil =>
      have hnone : K [] S id s := hK [] S s hs (List.Subset.refl _) (by simp)
      cases n <;> exact hnone
  | cons row rows ih =>
      cases n with
      | zero => exact hK [] S s hs (List.Subset.refl _) (by simp)
      | succ n =>
          rw [claim, wp_bind, wp_tryAcquire]
          intro s₁ hr₁ hs₁
          have hskip : ∀ S' s₂, Consistent handlers s₂ → s₁.committed ⊆ s₂.committed →
              (deliveryProtocol handlers q).wp K Anyway (claim now (n + 1) rows) S' id s₂ := by
            intro S' s₂ hs₂ hsub₂
            refine ih (n + 1) hs₂ fun claimed S'' s' hs' hsub hclaimed => hK claimed S'' s' hs' ?_ hclaimed
            exact List.Subset.trans (committed_grows hr₁) (List.Subset.trans hsub₂ hsub)
          refine ⟨?_, hskip S s₁ hs₁ (List.Subset.refl _)⟩
          rw [if_pos rfl, wp_bind, wp_get]
          intro s₂ hr₂ hs₂
          cases hlatest : (id s₂ : Store σ L Key).outbox.find? fun r => r.id == row.id && due now r with
          | none => exact hskip _ s₂ hs₂ (committed_grows hr₂)
          | some latest =>
              have hmem : storedEvent latest ∈ s₂.committed := hs₂.rows latest (List.mem_of_find?_eq_some hlatest)
              dsimp only
              rw [wp_map]
              refine ih n hs₂ fun claimed S' s' hs' hsub hclaimed => hK _ S' s' hs' ?_ fun r hr => ?_
              · exact List.Subset.trans (committed_grows hr₁) (List.Subset.trans (committed_grows hr₂) hsub)
              · rcases List.mem_cons.1 hr with rfl | hr
                · exact hsub hmem
                · exact hclaimed r hr

theorem addJob_consistent {event : StoredEvent} (hs : Consistent handlers s) (hevent : event ∈ s.committed) :
    Consistent handlers (addJob event s) where
  rows := hs.rows
  jobs := by
    change (if s.jobs.any (fun e => e.id == event.id) then s.jobs else s.jobs ++ [event]) ⊆ s.added ++ [event]
    split
    · exact List.Subset.trans hs.jobs (List.subset_append_left _ _)
    · exact List.append_subset.2 ⟨List.Subset.trans hs.jobs (List.subset_append_left _ _), List.subset_append_right _ _⟩
  added := List.append_subset.2 ⟨hs.added, List.cons_subset.2 ⟨hevent, List.nil_subset _⟩⟩
  marked r hr hpublished := by
    obtain ⟨e, he, hid⟩ := hs.marked r hr hpublished
    exact ⟨e, List.mem_append_left _ he, hid⟩
  claimed := hs.claimed
  known := hs.known
  once := hs.once

/-- What is handed to the queue stays there, whatever becomes of the transaction. -/
theorem addBulk_safe {K : Unit → Set (Lock L) → (Store σ L Key → Store σ L Key) → Store σ L Key → Prop}
    (events : List StoredEvent) (hs : Consistent handlers s) (hevents : events ⊆ s.committed)
    (hK : ∀ s', Consistent handlers s' → s.added ⊆ s'.added → events ⊆ s'.added → K () S id s') :
    (deliveryProtocol handlers q).wp K Anyway (addBulk events) S id s := by
  induction events generalizing s K with
  | nil => exact hK s hs (List.Subset.refl _) (List.nil_subset _)
  | cons event events ih =>
      obtain ⟨hevent, hrest⟩ := List.cons_subset.1 hevents
      change (deliveryProtocol handlers q).wp K Anyway (Prog.atOnce (addJob event) >>= fun _ => addBulk events) S id s
      rw [wp_bind, wp_atOnce]
      intro s₁ hr₁ hs₁
      have hsub : s.committed ⊆ s₁.committed := committed_grows hr₁
      have hadded : s₁.added ⊆ (addJob event s₁).added := List.subset_append_left _ _
      have hconsistent : Consistent handlers (addJob event s₁) := addJob_consistent hs₁ (hsub hevent)
      refine ⟨⟨.of_same (List.Subset.refl _) hadded rfl rfl, remembers_of_same rfl rfl⟩, hconsistent, ?_⟩
      refine ih hconsistent (List.Subset.trans hrest hsub) fun s' hs' hsub' hevents' => hK s' hs' ?_ ?_
      · exact List.Subset.trans (added_grows hr₁) (List.Subset.trans hadded hsub')
      · exact List.cons_subset.2 ⟨hsub' (List.mem_append_right _ (List.mem_singleton_self _)), hevents'⟩

theorem markPublished_consistent {ids : List Uuid} (hs : Consistent handlers s)
    (hids : ∀ id ∈ ids, ∃ e ∈ s.added, e.id = id) : Consistent handlers (markPublished publishedAt ids s) where
  rows r hr := by
    obtain ⟨r', hr', rfl⟩ := mem_changeWhere.1 hr
    have hsame : storedEvent (if ids.contains r'.id then { r' with publishedAt := some publishedAt } else r') =
        storedEvent r' := by split <;> rfl
    rw [hsame]
    exact hs.rows r' hr'
  jobs := hs.jobs
  added := hs.added
  marked r hr hpublished := by
    obtain ⟨r', hr', rfl⟩ := mem_changeWhere.1 hr
    by_cases hid : r'.id ∈ ids
    · have hsame : (if ids.contains r'.id then { r' with publishedAt := some publishedAt } else r').id = r'.id := by
        split <;> rfl
      rw [hsame]
      exact hids _ hid
    · rw [if_neg (by simpa using hid)] at hpublished ⊢
      exact hs.marked r' hr' hpublished
  claimed := hs.claimed
  known := hs.known
  once := hs.once

theorem relayBatch_safe :
    (Call.relayBatch now publishedAt : Call σ L Key).Safe handlers (fun _ _ => True) s := by
  rw [Call.Safe, Call.code, wp_map]
  simp only [relayBatch, wp_bind, wp_get]
  intro s₁ _ hs₁
  refine claim_safe _ _ hs₁ fun claimed S' s₂ hs₂ _ hclaimed => ?_
  simp only [wp_ite, wp_bind, wp_pure]
  constructor
  · exact fun _ s' _ hs' => ⟨⟨.refl, remembers_of_same rfl rfl⟩, hs', trivial⟩
  · intro _
    have hevents : claimed.map storedEvent ⊆ s₂.committed := by
      intro e he
      obtain ⟨r, hr, rfl⟩ := List.mem_map.1 he
      exact hclaimed r hr
    refine addBulk_safe _ hs₂ hevents fun s₃ _ _ hadded => ?_
    intro s' hr hs'
    refine ⟨⟨.of_same (List.Subset.refl _) (List.Subset.refl _) rfl rfl, remembers_of_same rfl rfl⟩, ?_, trivial⟩
    refine markPublished_consistent hs' fun id hid => ?_
    obtain ⟨r, hmem, rfl⟩ := List.mem_map.1 hid
    exact ⟨storedEvent r, added_grows hr (hadded (List.mem_map_of_mem hmem)), rfl⟩

end Relay

/-! ## The purge -/

section Purge

variable {now : Instant}

/-- What a purge has removed so far, and whose locks it holds. -/
structure Purging (now : Instant) (S : Set (Lock L)) (f : Store σ L Key → Store σ L Key) : Prop where
  outbox : ∀ s, (f s).outbox ⊆ s.outbox
  processed : ∀ s, (f s).processed ⊆ s.processed
  kept : ∀ s, ∀ r ∈ s.processed, r ∈ (f s).processed ∨ forgotten now r = true ∧ .inbox r.consumer r.eventId ∈ S
  rest : ∀ s, ((f s).jobs, (f s).committed, (f s).added, (f s).effects) = (s.jobs, s.committed, s.added, s.effects)

theorem Purging.refl : Purging now S (id : Store σ L Key → Store σ L Key) where
  outbox _ := List.Subset.refl _
  processed _ := List.Subset.refl _
  kept _ _ hr := .inl hr
  rest _ := rfl

theorem Purging.removeDelivered {S' : Set (Lock L)} (h : Purging now S f) (hS : S ⊆ S') (id : Uuid) :
    Purging now S' (Messaging.removeDelivered now id ∘ f) where
  outbox s := List.Subset.trans (List.filter_subset_self _) (h.outbox s)
  processed := h.processed
  kept s r hr := (h.kept s r hr).imp_right fun hforgotten => ⟨hforgotten.1, hS hforgotten.2⟩
  rest := h.rest

theorem Purging.removeForgotten {key : Str × Uuid} (h : Purging now S f) :
    Purging now (insert (.inbox key.1 key.2) S) (Messaging.removeForgotten now key ∘ f) where
  outbox := h.outbox
  processed s := List.Subset.trans (List.filter_subset_self _) (h.processed s)
  kept s r hr := by
    rcases h.kept s r hr with hkept | ⟨hforgotten, hlock⟩
    · by_cases hgone : r.key = key ∧ forgotten now r = true
      · refine .inr ⟨hgone.2, ?_⟩
        rw [← hgone.1]
        exact Set.mem_insert _ _
      · refine .inl (List.mem_filter.2 ⟨hkept, ?_⟩)
        simpa [or_iff_not_imp_left] using hgone
    · exact .inr ⟨hforgotten, .inr hlock⟩
  rest := h.rest

theorem Purging.done (h : Purging now S f) (hs : Consistent handlers s) :
    (Grows S s (f s) ∧ (Call.purgeDelivered now : Call σ L Key).Remembers s (f s)) ∧ Consistent handlers (f s) := by
  obtain ⟨hjobs, hcommitted, hadded, heffects⟩ : (f s).jobs = s.jobs ∧ (f s).committed = s.committed ∧
      (f s).added = s.added ∧ (f s).effects = s.effects := by simpa using h.rest s
  refine ⟨⟨⟨?_, ?_, ?_, fun consumer id hfree => ⟨?_, fun e he _ => heffects ▸ he⟩⟩, heffects, ?_⟩,
    ⟨?_, ?_, ?_, ?_, ?_, ?_, ?_⟩⟩
  · exact hcommitted ▸ List.Subset.refl _
  · exact hadded ▸ List.Subset.refl _
  · exact heffects ▸ List.prefix_rfl
  · rw [Bool.eq_iff_iff, hasProcessed_iff, hasProcessed_iff]
    constructor
    · rintro ⟨r, hr, hkey⟩
      exact ⟨r, h.processed s hr, hkey⟩
    · rintro ⟨r, hr, hkey⟩
      rcases h.kept s r hr with hkept | ⟨-, hlock⟩
      · exact ⟨r, hkept, hkey⟩
      · obtain ⟨rfl, rfl⟩ := Prod.mk.inj hkey
        exact absurd hlock hfree
  · intro r hr hretained
    rcases h.kept s r hr with hkept | ⟨hforgotten, -⟩
    · exact hkept
    · rw [hforgotten] at hretained
      cases hretained
  · intro r hr
    rw [hcommitted]
    exact hs.rows r (h.outbox s hr)
  · rw [hjobs, hadded]
    exact hs.jobs
  · rw [hadded, hcommitted]
    exact hs.added
  · intro r hr hpublished
    rw [hadded]
    exact hs.marked r (h.outbox s hr) hpublished
  · intro r hr
    rw [heffects]
    exact hs.claimed r (h.processed s hr)
  · rw [heffects, hcommitted]
    exact hs.known
  · rw [heffects]
    exact hs.once

theorem purgeDelivered_safe :
    (Call.purgeDelivered now : Call σ L Key).Safe handlers (fun _ _ => True) s := by
  have hfirst : ∀ (id : Uuid) (S : Set (Lock L)) (f : Store σ L Key → Store σ L Key) (s : Store σ L Key),
      Purging now S f → (deliveryProtocol handlers (.purgeDelivered now)).wp (fun _ S f _ => Purging now S f) Anyway
        (do Prog.acquire (.outbox id); Prog.modify (removeDelivered now id) : Tx σ L Key Unit) S f s := by
    intro id S f s h
    simp only [wp_bind, wp_acquire, wp_modify]
    exact fun _ _ _ => h.removeDelivered (Set.subset_insert _ _) id
  have hsecond : ∀ (key : Str × Uuid) (S : Set (Lock L)) (f : Store σ L Key → Store σ L Key) (s : Store σ L Key),
      Purging now S f → (deliveryProtocol handlers (.purgeDelivered now)).wp (fun _ S f _ => Purging now S f) Anyway
        (do Prog.acquire (.inbox key.1 key.2); Prog.modify (removeForgotten now key) : Tx σ L Key Unit) S f s := by
    intro key S f s h
    simp only [wp_bind, wp_acquire, wp_modify]
    exact fun _ _ _ => h.removeForgotten
  rw [Call.Safe, Call.code, wp_map, purgeDelivered, wp_bind, wp_get]
  intro s₁ _ _
  rw [wp_bind]
  refine wp_mono (X := Anyway) (fun _ S f s h => ?_) (fun _ _ _ h => h) (wp_forM _ hfirst .refl)
  rw [wp_bind, wp_get]
  intro s₂ _ _
  rw [wp_bind]
  refine wp_mono (X := Anyway) (fun _ S f s h => ?_) (fun _ _ _ h => h) (wp_forM _ hsecond h)
  intro s' _ hs'
  obtain ⟨hguar, hconsistent⟩ := h.done hs'
  exact ⟨hguar, hconsistent, trivial⟩

end Purge

end Requests

/-! ## Every run -/

/-- What the answer to a delivery says. -/
def Call.Answered (handlers : List (EventHandler σ L Key)) : Call σ L Key → Reply → Store σ L Key → Store σ L Key → Prop
  | .dispatch _ stored _, _, _, s' => HandledByAll handlers stored s'
  | _, _, _, _ => True

theorem code_safe (hnames : (handlers.map EventHandler.name).Nodup) (q : Call σ L Key) {s : Store σ L Key}
    (hs : Consistent handlers s) (hq : q.Delivers s) :
    Safe (deliveryProtocol handlers) (fun _ _ _ => True) (Call.Answered handlers) (fun _ _ _ => True) q
      ⟨q.code handlers, ∅, id⟩ s := by
  have hsafe : q.Safe handlers (fun a s' => q.Answered handlers a s s') s := by
    cases q with
    | transact work => exact transact_safe work hs
    | relayBatch now publishedAt => exact relayBatch_safe
    | removeJob id => exact removeJob_safe id
    | purgeDelivered now => exact purgeDelivered_safe
    | dispatch env stored processedAt =>
        exact dispatch_safe hnames ⟨hs, hs.added (hs.jobs hq.1), hq.2⟩
  refine wp_mono (fun a S f s₁ hdone s' hr hs' _ => ?_) (fun _ _ _ _ _ _ _ => trivial) hsafe
  obtain ⟨hguar, hconsistent, hpost⟩ := hdone s' hr hs'
  refine ⟨hguar, hconsistent, ?_⟩
  cases q with
  | transact | relayBatch | removeJob | purgeDelivered => trivial
  | dispatch => exact hpost

section Runs

variable {ι : Type} [DecidableEq ι] {start w : World ι (Call σ L Key) (Store σ L Key) (Lock L) Error Reply}

theorem sound (hnames : (handlers.map EventHandler.name).Nodup) (hidle : start.Idle)
    (hempty : start.db = { data := start.db.data })
    (hw : Supervised (Call.code handlers) Call.Delivers Retained start w) :
    SoundAmong (Consistent handlers) (deliveryProtocol handlers) (fun _ _ _ => True) (Call.Answered handlers)
      (fun _ _ _ => True) w := by
  have hstart : Consistent handlers start.db := by
    rw [hempty]
    exact ⟨by simp, by simp, by simp, by simp, by simp, by simp, by simp⟩
  exact (SoundAmong.of_idle hidle hstart).supervised agree (fun q s hs hq => code_safe hnames q hs hq) hw

theorem step_grows (h : SoundAmong (Consistent handlers) (deliveryProtocol handlers) (fun _ _ _ => True)
    (Call.Answered handlers) (fun _ _ _ => True) w) {lab : Label ι (Call σ L Key) Error Reply}
    {w' : World ι (Call σ L Key) (Store σ L Key) (Lock L) Error Reply} (hstep : Step (Call.code handlers) w lab w') :
    ∃ S, Grows S w.db w'.db := by
  rcases h.change agree (fun _ _ _ _ _ _ => trivial) hstep with hsame | ⟨i, q, S, -, hgrows, -⟩
  · exact ⟨∅, hsame ▸ .refl⟩
  · exact ⟨S, hgrows⟩

/-- What is being delivered has been published by a transaction that committed. -/
theorem delivered_committed (hnames : (handlers.map EventHandler.name).Nodup) (hidle : start.Idle)
    (hempty : start.db = { data := start.db.data })
    (hw : Supervised (Call.code handlers) Call.Delivers Retained start w) {i : ι} {env : Env Key}
    {stored : StoredEvent} {processedAt : Str → Instant} {t : Session (Store σ L Key) (Lock L) Error Reply}
    (hi : w.sessions i = some (.dispatch env stored processedAt, t)) : stored ∈ w.db.committed := by
  induction hw generalizing t with
  | start =>
      rw [hidle i] at hi
      cases hi
  | step hw hbegin _ hstep ih =>
      have hsound := sound hnames hidle hempty hw
      obtain ⟨S, hgrows⟩ := step_grows hsound hstep
      refine hgrows.committed ?_
      rcases hstep.request _ hi with ⟨t', ht'⟩ | rfl
      · exact ih ht'
      · exact hsound.inv.added (hsound.inv.jobs (hbegin _ _ rfl).1)

/-- Nothing is delivered that has not been committed, only what has been put into the queue is
marked as published, no handler's effects for an event are committed twice or undone, and a
delivery that is answered has been handled by all handlers. -/
theorem exactly_once (hnames : (handlers.map EventHandler.name).Nodup) (hidle : start.Idle)
    (hempty : start.db = { data := start.db.data })
    (hw : Supervised (Call.code handlers) Call.Delivers Retained start w) :
    (∀ i env stored processedAt t, w.sessions i = some (.dispatch env stored processedAt, t) → stored ∈ w.db.committed) ∧
      (∀ e ∈ w.db.effects, e.event ∈ w.db.committed) ∧
      (∀ r ∈ w.db.outbox, r.publishedAt.isSome = true → ∃ e ∈ w.db.added, e.id = r.id) ∧
      (w.db.effects.map Effect.key).Nodup ∧
      (∀ lab w', Step (Call.code handlers) w lab w' → w.db.effects <+: w'.db.effects) ∧
      (∀ i q e w', Step (Call.code handlers) w (.answers i q (.error e)) w' → w'.db = w.db) ∧
      ∀ i env stored processedAt a w',
        Step (Call.code handlers) w (.answers i (.dispatch env stored processedAt) (.ok a)) w' →
          HandledByAll handlers stored w'.db := by
  have hsound := sound hnames hidle hempty hw
  refine ⟨fun i env stored processedAt t hi => delivered_committed hnames hidle hempty hw hi,
    fun e he => (hsound.inv.known e he).2, hsound.inv.marked, hsound.inv.once, fun lab w' hstep => ?_,
    fun i q e w' hstep => (Step.db_of_undone _).1 e hstep, fun i env stored processedAt a w' hstep => ?_⟩
  · obtain ⟨S, hgrows⟩ := step_grows hsound hstep
    exact hgrows.effects
  · exact hsound.answer agree (fun _ _ => trivial) hstep

end Runs

/-! ## A handler that fails at first -/

/-- How often the first handler has run, and whether the second one fails. -/
structure Counters where
  runs : ℕ := 0
  broken : Bool := true

def counter : EventHandler Counters Unit Empty where
  name := "counter".toList
  eventType := "t".toList
  handle _ := .write (fun c => { c with runs := c.runs + 1 }) (.ret ())

def fragile : EventHandler Counters Unit Empty where
  name := "fragile".toList
  eventType := "t".toList
  handle _ := .read fun c => if c.broken then .fail (.internal "broken") else .ret ()

def plainEnv : Env Empty where
  crypto := ⟨Empty.elim, fun key => key.elim, fun key => key.elim⟩
  box := ⟨[], []⟩
  iv := ⟨[], by decide⟩
  now := 0
  newId := 7
  requestId := none
  actorUserId := none
  jsonb := .ok

def published : StoredEvent := ⟨7, "t".toList, [], 0, none, none⟩

abbrev Workers := Duo (Call Counters Unit Empty) (Store Counters Unit Empty) (Lock Unit) Error Reply

def workers : Workers := Duo.idle { data := {} }

/-- The event is delivered twice, and the fragile handler is mended in between. -/
def redelivery : List (Move (Call Counters Unit Empty)) := [
  .begins true (.transact (.publish plainEnv "t".toList [] {} (.ret ()))), .turns true 9,
  .begins true (.relayBatch 0 0), .turns true 9,
  .begins true (.dispatch plainEnv published fun _ => 0), .turns true 20,
  .begins false (.transact (.write (fun c => { c with broken := false }) (.ret ()))), .turns false 9,
  .begins false (.purgeDelivered 1000), .turns false 9,
  .begins true (.dispatch plainEnv published fun _ => 0), .turns true 20]

/-- The same event without a payload. -/
def sameEvent (e e' : StoredEvent) : Bool :=
  e.id == e'.id && e.type == e'.type && e.payload.isEmpty && e'.payload.isEmpty && e.occurredAt == e'.occurredAt &&
    e.correlationId == e'.correlationId && e.actorUserId == e'.actorUserId

theorem eq_of_sameEvent {e e' : StoredEvent} (h : sameEvent e e' = true) : e = e' := by
  obtain ⟨id, type, payload, occurredAt, correlationId, actorUserId⟩ := e
  obtain ⟨id', type', payload', occurredAt', correlationId', actorUserId'⟩ := e'
  simp only [sameEvent, Bool.and_eq_true, beq_iff_eq, List.isEmpty_iff] at h
  obtain ⟨⟨⟨⟨⟨⟨rfl, rfl⟩, rfl⟩, rfl⟩, rfl⟩, rfl⟩, rfl⟩ := h
  rfl

def Call.delivers : Call σ L Key → Store σ L Key → Bool
  | .dispatch _ stored _, s =>
      s.jobs.any (sameEvent stored) &&
        s.effects.all fun e => e.event.id != stored.id || s.hasProcessed e.handler.name stored.id
  | _, _ => true

theorem delivers_of_check (q : Call σ L Key) (s : Store σ L Key) (h : q.delivers s = true) : q.Delivers s := by
  cases q with
  | transact | relayBatch | removeJob | purgeDelivered => trivial
  | dispatch env stored processedAt =>
      obtain ⟨hjob, hremembered⟩ := Bool.and_eq_true_iff.1 h
      obtain ⟨job, hmem, hsame⟩ := List.any_eq_true.1 hjob
      refine ⟨eq_of_sameEvent hsame ▸ hmem, fun e he hid => ?_⟩
      have hrow := List.all_eq_true.1 hremembered e he
      simpa [hid] using hrow

def retained (s : Store σ L Key) : Call σ L Key → Call σ L Key → Bool
  | .dispatch _ stored _, .purgeDelivered now => s.processed.all fun r => r.eventId != stored.id || !forgotten now r
  | _, _ => true

theorem retained_of_check (s : Store σ L Key) (q q' : Call σ L Key) (h : retained s q q' = true) : Retained s q q' := by
  cases q with
  | transact | relayBatch | removeJob | purgeDelivered => trivial
  | dispatch env stored processedAt =>
      cases q' with
      | transact | relayBatch | removeJob | dispatch => trivial
      | purgeDelivered now =>
          intro r hr hid
          have hrow := List.all_eq_true.1 h r hr
          simpa [hid] using hrow

theorem exactly_once_redelivery :
    (workers.play (Call.code [counter, fragile]) redelivery).db.effects.length = 2 ∧
      (workers.play (Call.code [counter, fragile]) redelivery).db.data.runs = 1 ∧
      ((workers.play (Call.code [counter, fragile]) redelivery).db.effects.map Effect.key).Nodup := by
  have hplayed : Supervised (Call.code [counter, fragile]) Call.Delivers Retained workers.world
      (workers.play (Call.code [counter, fragile]) redelivery).world :=
    Duo.play_supervised (Call.code [counter, fragile]) retained_of_check delivers_of_check workers redelivery (by decide +kernel)
  have hnames : ([counter, fragile].map EventHandler.name).Nodup := by decide +kernel
  have honce := @exactly_once _ _ _ [counter, fragile] Bool _ _ _ hnames (fun _ => rfl) rfl hplayed
  refine ⟨by decide +kernel, by decide +kernel, ?_⟩
  rw [← Duo.world_db]
  exact honce.2.2.2.1

end Emis.Messaging
