import Emis.PublicSite.TtlCache

/-!
# One load for each key

Until `.finally` has run the promise of a key is the one in flight, so nobody else touches the
entry of that key.
-/

namespace Emis.PublicSite

open Machines

namespace TtlCache

variable {ε α : Type} {c c' : TtlCache ε α} {key : String} {i j : ℕ} {r r' : Request ε α}

theorem fresh?_iff {entry : Entry α} :
    c.fresh? key = some entry ↔ c.entries key = some entry ∧ c.now < entry.expiresAt := by
  simp [fresh?, Option.filter_eq_some_iff]

theorem fresh?_eq_none_iff : c.fresh? key = none ↔ ∀ entry, c.entries key = some entry → entry.expiresAt ≤ c.now := by
  simp [fresh?, Option.filter_eq_none_iff]

theorem fallback?_iff {entry : Entry α} :
    c.fallback? r = some entry ↔ r.entry = some entry ∧ c.now - entry.fetchedAt < c.staleFor := by
  simp [fallback?, Option.filter_eq_some_iff]

theorem running?_iff : c.running? i = some r ↔ c.requests[i]? = some r ∧ r.outcome = none := by
  simp [running?, Option.filter_eq_some_iff]

theorem passing?_iff {outcome : Except ε α} : c.passing? i = some (r, outcome) ↔
    c.requests[i]? = some r ∧ r.outcome = some outcome ∧ r.done = false := by
  simp only [passing?, Option.bind_eq_bind, Option.bind_eq_some_iff]
  constructor
  · rintro ⟨r', hr', o, ho, hdone⟩
    split at hdone
    · cases hdone
    · rename_i hnot
      cases hdone
      exact ⟨hr', ho, by simpa using hnot⟩
  · rintro ⟨hr, ho, hdone⟩
    exact ⟨r, hr, outcome, ho, by simp [hdone]⟩

/-- A call gets a fresh value, joins the promise in flight, or starts a load. -/
theorem get_cases (c : TtlCache ε α) (key : String) (ttlMs : ℤ) :
    (∃ entry, c.fresh? key = some entry ∧
      c.get key ttlMs = { c with handed := c.handed ++ [⟨key, .ok entry.value, c.now⟩] }) ∨
    c.fresh? key = none ∧ ((∃ i, c.inflight key = some i ∧ c.get key ttlMs =
        { c with requests := c.requests.modify i fun r => { r with callers := r.callers ++ [c.now] } }) ∨
      c.inflight key = none ∧ c.get key ttlMs = { c with
        requests := c.requests ++ [{ key := key, ttlMs := ttlMs, entry := c.entries key, callers := [c.now] }]
        inflight := Function.update c.inflight key (some c.requests.length) }) := by
  unfold get
  cases hfresh : c.fresh? key with
  | some entry => exact .inl ⟨entry, rfl, rfl⟩
  | none =>
      refine .inr ⟨rfl, ?_⟩
      cases hinflight : c.inflight key with
      | some i => exact .inl ⟨i, rfl, rfl⟩
      | none => exact .inr ⟨rfl, rfl⟩

/-- `.catch` keeps the value or throws. -/
theorem onError_cases (c : TtlCache ε α) (i : ℕ) (r : Request ε α) (error : ε) (ms : ℕ) :
    (∃ entry, c.fallback? r = some entry ∧ c.onError i r error ms = { c with
      now := c.now + ms
      entries := Function.update c.entries r.key (some { entry with expiresAt := c.now + ms + 5000 })
      requests := c.requests.set i { r with outcome := some (.ok entry.value) } }) ∨
    c.fallback? r = none ∧
      c.onError i r error ms = { c with requests := c.requests.set i { r with outcome := some (.error error) } } := by
  unfold onError
  cases hfallback : c.fallback? r with
  | some entry => exact .inl ⟨entry, rfl, rfl⟩
  | none => exact .inr ⟨rfl, rfl⟩

theorem of_set {requests : List (Request ε α)} (h : (requests.set i r)[j]? = some r') :
    j = i ∧ r' = r ∨ j ≠ i ∧ requests[j]? = some r' := by
  rw [List.getElem?_set] at h
  split at h
  · rename_i hij
    split at h
    · exact .inl ⟨hij.symm, (Option.some.inj h).symm⟩
    · cases h
  · rename_i hij
    exact .inr ⟨Ne.symm hij, h⟩

theorem of_modify {requests : List (Request ε α)} {f : Request ε α → Request ε α}
    (h : (requests.modify i f)[j]? = some r') : ∃ r, requests[j]? = some r ∧ (r' = r ∨ j = i ∧ r' = f r) := by
  rw [List.getElem?_modify] at h
  obtain ⟨r, hr, hr'⟩ := Option.map_eq_some_iff.1 h
  refine ⟨r, hr, ?_⟩
  split at hr'
  · rename_i hij
    exact .inr ⟨hij.symm, hr'.symm⟩
  · exact .inl hr'.symm

theorem of_concat {requests : List (Request ε α)} (h : (requests ++ [r])[j]? = some r') :
    requests[j]? = some r' ∨ j = requests.length ∧ r' = r := by
  rw [List.getElem?_append] at h
  split at h
  · exact .inl h
  · rename_i hlength
    obtain ⟨hj, heq⟩ := List.getElem?_eq_some_iff.1 h
    rw [List.length_singleton] at hj
    exact .inr ⟨by omega, by simpa using heq.symm⟩

/-- The promises whose `.finally` has not run are those in flight, and those whose loads run have
seen the entry as it still is. -/
structure Tidy (c : TtlCache ε α) : Prop where
  inflight : ∀ (i : ℕ) (r : Request ε α), c.requests[i]? = some r → r.done = false → c.inflight r.key = some i
  pending : ∀ key i, c.inflight key = some i → ∃ r, c.requests[i]? = some r ∧ r.key = key ∧ r.done = false
  entry : ∀ (i : ℕ) (r : Request ε α), c.requests[i]? = some r → r.outcome = none →
    r.done = false ∧ r.entry = c.entries r.key ∧ c.fresh? r.key = none
  callers : ∀ (i : ℕ) (r : Request ε α), c.requests[i]? = some r → ∀ t ∈ r.callers, t ≤ c.now

theorem Tidy.unique (h : c.Tidy) (hi : c.requests[i]? = some r) (hj : c.requests[j]? = some r')
    (hdone : r.done = false) (hdone' : r'.done = false) (hkey : r.key = r'.key) : i = j := by
  have hflight := h.inflight i r hi hdone
  rw [hkey, h.inflight j r' hj hdone'] at hflight
  exact (Option.some.inj hflight).symm

theorem stale_later (hentry : c'.entries key = c.entries key) (hnow : c.now ≤ c'.now) (h : c.fresh? key = none) :
    c'.fresh? key = none := by
  rw [fresh?_eq_none_iff] at h ⊢
  exact fun entry he => Int.le_trans (h entry (hentry ▸ he)) hnow

theorem later {now : Instant} (ms : ℕ) : now ≤ now + ms := Int.le_add_of_nonneg_right (Int.natCast_nonneg ms)

/-- Time passes. -/
theorem Tidy.wait (h : c.Tidy) (ms : ℕ) : ({ c with now := c.now + ms } : TtlCache ε α).Tidy where
  inflight := h.inflight
  pending := h.pending
  entry i r hr hrunning := by
    obtain ⟨hdone, hentry, hstale⟩ := h.entry i r hr hrunning
    exact ⟨hdone, hentry, stale_later (c := c) rfl (later ms) hstale⟩
  callers i r hr t ht := Int.le_trans (h.callers i r hr t ht) (later ms)

/-- A load ends: its promise has an outcome, and the entry of its key may be another. -/
theorem Tidy.pass (h : c.Tidy) (hr : c.requests[i]? = some r) (hrunning : r.outcome = none) {o : Except ε α}
    (hrequests : c'.requests = c.requests.set i { r with outcome := some o }) (hinflight : c'.inflight = c.inflight)
    (hentries : ∀ key, key ≠ r.key → c'.entries key = c.entries key) (hnow : c.now ≤ c'.now) : c'.Tidy := by
  obtain ⟨hdone, -, -⟩ := h.entry i r hr hrunning
  refine ⟨fun j r' hj hdone' => ?_, fun key j hj => ?_, fun j r' hj hrunning' => ?_, fun j r' hj t ht => ?_⟩
  · rw [hinflight]
    rw [hrequests] at hj
    rcases of_set hj with ⟨rfl, rfl⟩ | ⟨-, hj⟩
    · exact h.inflight j r hr hdone
    · exact h.inflight j r' hj hdone'
  · rw [hinflight] at hj
    obtain ⟨r', hr', hkey, hdone'⟩ := h.pending key j hj
    rw [hrequests, List.getElem?_set]
    split
    · rename_i hij
      obtain rfl : r' = r := by rw [← hij, hr] at hr'; exact (Option.some.inj hr').symm
      exact ⟨_, if_pos (hij ▸ (List.getElem?_eq_some_iff.1 hr).1), hkey, hdone⟩
    · exact ⟨r', hr', hkey, hdone'⟩
  · rw [hrequests] at hj
    rcases of_set hj with ⟨rfl, rfl⟩ | ⟨hne, hj⟩
    · cases hrunning'
    · obtain ⟨hdone', hentry, hstale⟩ := h.entry j r' hj hrunning'
      have hkey : r'.key ≠ r.key := fun heq => hne (h.unique hj hr hdone' hdone heq)
      exact ⟨hdone', hentry.trans (hentries _ hkey).symm, stale_later (hentries _ hkey) hnow hstale⟩
  · rw [hrequests] at hj
    rcases of_set hj with ⟨rfl, rfl⟩ | ⟨-, hj⟩
    · exact Int.le_trans (h.callers j r hr t ht) hnow
    · exact Int.le_trans (h.callers j r' hj t ht) hnow

theorem Tidy.onFinally (h : c.Tidy) (hr : c.requests[i]? = some r) {o : Except ε α} (ho : r.outcome = some o)
    (hdone : r.done = false) : (c.onFinally i r o).Tidy := by
  refine ⟨fun j r' hj hdone' => ?_, fun key j hj => ?_, fun j r' hj hrunning' => ?_, fun j r' hj t ht => ?_⟩
  · rcases of_set hj with ⟨rfl, rfl⟩ | ⟨hne, hj⟩
    · cases hdone'
    · have hkey : r'.key ≠ r.key := fun heq => hne (h.unique hj hr hdone' hdone heq)
      exact (Function.update_of_ne hkey _ _).trans (h.inflight j r' hj hdone')
  · by_cases hkey : key = r.key
    · subst hkey
      exact absurd hj (by simp [TtlCache.onFinally])
    · have hj' : c.inflight key = some j := (Function.update_of_ne hkey _ _).symm.trans hj
      obtain ⟨r', hr', hkey', hdone'⟩ := h.pending key j hj'
      have hij : i ≠ j := by
        rintro rfl
        rw [hr] at hr'
        exact hkey (hkey'.symm.trans (congrArg Request.key (Option.some.inj hr').symm))
      exact ⟨r', (List.getElem?_set_ne hij).trans hr', hkey', hdone'⟩
  · rcases of_set hj with ⟨rfl, rfl⟩ | ⟨-, hj⟩
    · exact absurd (hrunning'.symm.trans ho) (by simp)
    · exact h.entry j r' hj hrunning'
  · rcases of_set hj with ⟨rfl, rfl⟩ | ⟨-, hj⟩
    · exact h.callers j r hr t ht
    · exact h.callers j r' hj t ht

theorem Tidy.get (h : c.Tidy) (key : String) (ttlMs : ℤ) : (c.get key ttlMs).Tidy := by
  rcases get_cases c key ttlMs with ⟨entry, -, hget⟩ | ⟨hstale, ⟨i, hi, hget⟩ | ⟨hnone, hget⟩⟩
  · rw [hget]
    exact ⟨h.inflight, h.pending, h.entry, h.callers⟩
  · rw [hget]
    refine ⟨fun j r' hj hdone' => ?_, fun key' j hj => ?_, fun j r' hj hrunning' => ?_, fun j r' hj t ht => ?_⟩
    · obtain ⟨r, hr, rfl | ⟨rfl, rfl⟩⟩ := of_modify hj
      · exact h.inflight j _ hr hdone'
      · exact h.inflight j r hr hdone'
    · obtain ⟨r, hr, hkey, hdone⟩ := h.pending key' j hj
      simp only [List.getElem?_modify, hr]
      split
      · exact ⟨_, rfl, hkey, hdone⟩
      · exact ⟨_, rfl, hkey, hdone⟩
    · obtain ⟨r, hr, rfl | ⟨rfl, rfl⟩⟩ := of_modify hj
      · exact h.entry j _ hr hrunning'
      · exact h.entry j r hr hrunning'
    · obtain ⟨r, hr, rfl | ⟨rfl, rfl⟩⟩ := of_modify hj
      · exact h.callers j _ hr t ht
      · rcases List.mem_append.1 ht with ht | ht
        · exact h.callers j r hr t ht
        · rw [List.mem_singleton] at ht
          exact Int.le_of_eq ht
  · rw [hget]
    have hold : ∀ (j : ℕ) (r' : Request ε α), c.requests[j]? = some r' → r'.done = false → r'.key ≠ key := by
      rintro j r' hj hdone' rfl
      rw [h.inflight j r' hj hdone'] at hnone
      cases hnone
    refine ⟨fun j r' hj hdone' => ?_, fun key' j hj => ?_, fun j r' hj hrunning' => ?_, fun j r' hj t ht => ?_⟩
    · rcases of_concat hj with hj | ⟨rfl, rfl⟩
      · exact (Function.update_of_ne (hold j r' hj hdone') _ _).trans (h.inflight j r' hj hdone')
      · exact Function.update_self ..
    · by_cases hkey : key' = key
      · subst hkey
        obtain rfl : c.requests.length = j := by simpa using hj
        exact ⟨_, List.getElem?_concat_length, rfl, rfl⟩
      · have hj' : c.inflight key' = some j := (Function.update_of_ne hkey _ _).symm.trans hj
        obtain ⟨r', hr', hkey', hdone'⟩ := h.pending key' j hj'
        exact ⟨r', (List.getElem?_append_left (List.getElem?_eq_some_iff.1 hr').1).trans hr', hkey', hdone'⟩
    · rcases of_concat hj with hj | ⟨rfl, rfl⟩
      · exact h.entry j r' hj hrunning'
      · exact ⟨rfl, rfl, hstale⟩
    · rcases of_concat hj with hj | ⟨rfl, rfl⟩
      · exact h.callers j r' hj t ht
      · rw [List.mem_singleton] at ht
        exact Int.le_of_eq ht

theorem tidy_next {e : CacheEvent ε α} (h : c.Tidy) (hnext : c.next e = some c') : c'.Tidy := by
  cases e with
  | waits ms =>
      obtain rfl := Option.some.inj hnext
      exact h.wait ms
  | get key ttlMs =>
      obtain rfl := Option.some.inj hnext
      exact h.get key ttlMs
  | resolves i value =>
      obtain ⟨r, hr, rfl⟩ := Option.map_eq_some_iff.1 hnext
      obtain ⟨hr, hrunning⟩ := running?_iff.1 hr
      exact h.pass hr hrunning rfl rfl (fun key hne => Function.update_of_ne hne _ _) (Int.le_refl _)
  | rejects i error ms =>
      obtain ⟨r, hr, rfl⟩ := Option.map_eq_some_iff.1 hnext
      obtain ⟨hr, hrunning⟩ := running?_iff.1 hr
      rcases onError_cases c i r error ms with ⟨entry, -, herror⟩ | ⟨-, herror⟩
      · rw [herror]
        exact h.pass hr hrunning rfl rfl (fun key hne => Function.update_of_ne hne _ _) (later ms)
      · rw [herror]
        exact h.pass hr hrunning rfl rfl (fun _ _ => rfl) (Int.le_refl _)
  | settles i =>
      obtain ⟨⟨r, o⟩, hr, rfl⟩ := Option.map_eq_some_iff.1 hnext
      obtain ⟨hr, ho, hdone⟩ := passing?_iff.1 hr
      exact h.onFinally hr ho hdone

end TtlCache

end Emis.PublicSite
