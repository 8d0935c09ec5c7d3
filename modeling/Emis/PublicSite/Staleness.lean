import Emis.PublicSite.SingleFlight

/-!
# How old a value can be

Every value that is handed out comes from the latest load of its key that had succeeded. What
that says about its age depends on when calls and failures come: `Judged` is what is asked of
the steps so that a value is near its load.
-/

namespace Emis.PublicSite

open Machines

namespace TtlCache

variable {ε α : Type} {c c' : TtlCache ε α} {key : String} {i j : ℕ} {r r' : Request ε α}
  {Near : Instant → Loaded α → Prop} {Ok : TtlCache ε α → CacheEvent ε α → Prop}

/-- What the steps have to meet for values to be handed out near their loads. -/
structure Judged (Near : Instant → Loaded α → Prop) (Ok : TtlCache ε α → CacheEvent ε α → Prop) : Prop where
  before : ∀ t (l : Loaded α), t ≤ l.finishedAt → Near t l
  fresh : ∀ t (l : Loaded α), t < l.finishedAt + l.ttlMs → Near t l
  /-- A call that joins a promise which has its value already. -/
  joins : ∀ (c : TtlCache ε α) key ttlMs i r v l, Ok c (.get key ttlMs) → c.fresh? key = none →
    c.inflight key = some i → c.requests[i]? = some r → r.outcome = some (.ok v) → r.done = false →
      c.lastLoad key = some l → Near c.now l
  /-- A failed load that falls back on an entry. -/
  fallback : ∀ (c : TtlCache ε α) i e ms r entry l, Ok c (.rejects i e ms) → c.running? i = some r →
    c.fallback? r = some entry → l.finishedAt = entry.fetchedAt →
      (∀ t, t ≤ c.now → Near t l) ∧ ∀ t, t < c.now + ms + 5000 → Near t l

/-- Entries, promises with a value and what was handed out, each with its load. -/
structure Sourced (Near : Instant → Loaded α → Prop) (c : TtlCache ε α) : Prop where
  entry : ∀ key entry, c.entries key = some entry → ∃ l, c.lastLoad key = some l ∧ l.value = entry.value ∧
    l.finishedAt = entry.fetchedAt ∧ ∀ t, t < entry.expiresAt → Near t l
  passing : ∀ (i : ℕ) (r : Request ε α) v, c.requests[i]? = some r → r.done = false → r.outcome = some (.ok v) →
    ∃ l, c.lastLoad r.key = some l ∧ l.value = v ∧ ∀ t ∈ r.callers, Near t l
  handed : ∀ h ∈ c.handed, ∀ v, h.result = .ok v → ∃ l ∈ c.loads, l.key = h.key ∧ l.value = v ∧ Near h.calledAt l

theorem mem_of_lastLoad {l : Loaded α} (h : c.lastLoad key = some l) : l ∈ c.loads ∧ l.key = key :=
  ⟨List.mem_of_find?_eq_some h, by simpa using List.find?_some h⟩

theorem Sourced.wait (h : c.Sourced Near) (ms : ℕ) : ({ c with now := c.now + ms } : TtlCache ε α).Sourced Near :=
  ⟨h.entry, h.passing, h.handed⟩

theorem Sourced.get (h : c.Sourced Near) (hjudged : Judged Near Ok) (htidy : c.Tidy) {ttlMs : ℤ}
    (hok : Ok c (.get key ttlMs)) : (c.get key ttlMs).Sourced Near := by
  rcases get_cases c key ttlMs with ⟨entry, hfresh, hget⟩ | ⟨hstale, ⟨i, hi, hget⟩ | ⟨hnone, hget⟩⟩
  · rw [hget]
    refine ⟨h.entry, h.passing, fun handed hmem v hv => ?_⟩
    rcases List.mem_append.1 hmem with hmem | hmem
    · exact h.handed handed hmem v hv
    · rw [List.mem_singleton] at hmem
      subst hmem
      obtain ⟨hentry, hnow⟩ := fresh?_iff.1 hfresh
      obtain ⟨l, hl, hvalue, -, hnear⟩ := h.entry key entry hentry
      obtain ⟨hmem, hkey⟩ := mem_of_lastLoad hl
      exact ⟨l, hmem, hkey, hvalue.trans (Except.ok.inj hv), hnear _ hnow⟩
  · rw [hget]
    refine ⟨h.entry, fun j r' v hj hdone hv => ?_, h.handed⟩
    obtain ⟨r, hr, rfl | ⟨rfl, rfl⟩⟩ := of_modify hj
    · exact h.passing j _ v hr hdone hv
    · obtain ⟨l, hl, hvalue, hnear⟩ := h.passing j r v hr hdone hv
      have hkey : r.key = key := by
        obtain ⟨r', hr', hkey, -⟩ := htidy.pending key j hi
        rw [hr] at hr'
        exact Option.some.inj hr' ▸ hkey
      refine ⟨l, hl, hvalue, fun t ht => ?_⟩
      rcases List.mem_append.1 ht with ht | ht
      · exact hnear t ht
      · rw [List.mem_singleton] at ht
        rw [ht]
        exact hjudged.joins c key ttlMs j r v l hok hstale hi hr hv hdone (hkey ▸ hl)
  · rw [hget]
    refine ⟨h.entry, fun j r' v hj hdone hv => ?_, h.handed⟩
    rcases of_concat hj with hj | ⟨-, rfl⟩
    · exact h.passing j r' v hj hdone hv
    · cases hv

theorem Sourced.onValue (h : c.Sourced Near) (hjudged : Judged Near Ok) (htidy : c.Tidy) (hr : c.requests[i]? = some r)
    (hrunning : r.outcome = none) (value : α) : (c.onValue i r value).Sourced Near := by
  obtain ⟨hdone, -, -⟩ := htidy.entry i r hr hrunning
  have hlast : ∀ key, key ≠ r.key → (c.onValue i r value).lastLoad key = c.lastLoad key := fun key hne =>
    List.find?_cons_of_neg (by simpa using Ne.symm hne)
  have hown : (c.onValue i r value).lastLoad r.key = some ⟨r.key, r.ttlMs, value, c.now⟩ :=
    List.find?_cons_of_pos (by simp)
  refine ⟨fun key entry hentry => ?_, fun j r' v hj hdone' hv => ?_, fun handed hmem v hv => ?_⟩
  · by_cases hkey : key = r.key
    · subst hkey
      obtain rfl : (⟨value, c.now, c.now + r.ttlMs⟩ : Entry α) = entry := by
        simpa [TtlCache.onValue] using hentry
      exact ⟨_, hown, rfl, rfl, fun t ht => hjudged.fresh t _ ht⟩
    · rw [hlast key hkey]
      exact h.entry key entry ((Function.update_of_ne hkey _ _).symm.trans hentry)
  · rcases of_set hj with ⟨rfl, rfl⟩ | ⟨hne, hj⟩
    · obtain rfl : value = v := by simpa using hv
      exact ⟨_, hown, rfl, fun t ht => hjudged.before t _ (htidy.callers j r hr t ht)⟩
    · have hkey : r'.key ≠ r.key := fun heq => hne (htidy.unique hj hr hdone' hdone heq)
      rw [hlast _ hkey]
      exact h.passing j r' v hj hdone' hv
  · obtain ⟨l, hl, hrest⟩ := h.handed handed hmem v hv
    exact ⟨l, List.mem_cons_of_mem _ hl, hrest⟩

theorem Sourced.onError (h : c.Sourced Near) (hjudged : Judged Near Ok) (htidy : c.Tidy) (hr : c.requests[i]? = some r)
    (hrunning : r.outcome = none) {e : ε} {ms : ℕ} (hok : Ok c (.rejects i e ms)) :
    (c.onError i r e ms).Sourced Near := by
  obtain ⟨hdone, hcaptured, -⟩ := htidy.entry i r hr hrunning
  rcases onError_cases c i r e ms with ⟨entry, hfallback, herror⟩ | ⟨-, herror⟩
  · have hentry : c.entries r.key = some entry := hcaptured ▸ (fallback?_iff.1 hfallback).1
    obtain ⟨l, hl, hvalue, hfetched, -⟩ := h.entry r.key entry hentry
    obtain ⟨hbefore, hextended⟩ :=
      hjudged.fallback c i e ms r entry l hok (running?_iff.2 ⟨hr, hrunning⟩) hfallback hfetched
    rw [herror]
    refine ⟨fun key entry' hentry' => ?_, fun j r' v hj hdone' hv => ?_, h.handed⟩
    · by_cases hkey : key = r.key
      · subst hkey
        obtain rfl : ({ entry with expiresAt := c.now + ms + 5000 } : Entry α) = entry' := by simpa using hentry'
        exact ⟨l, hl, hvalue, hfetched, hextended⟩
      · exact h.entry key entry' ((Function.update_of_ne hkey _ _).symm.trans hentry')
    · rcases of_set hj with ⟨rfl, rfl⟩ | ⟨-, hj⟩
      · obtain rfl : entry.value = v := by simpa using hv
        exact ⟨l, hl, hvalue, fun t ht => hbefore t (htidy.callers j r hr t ht)⟩
      · exact h.passing j r' v hj hdone' hv
  · rw [herror]
    refine ⟨h.entry, fun j r' v hj hdone' hv => ?_, h.handed⟩
    rcases of_set hj with ⟨rfl, rfl⟩ | ⟨-, hj⟩
    · cases hv
    · exact h.passing j r' v hj hdone' hv

theorem Sourced.onFinally (h : c.Sourced Near) (hr : c.requests[i]? = some r) {o : Except ε α}
    (ho : r.outcome = some o) (hdone : r.done = false) : (c.onFinally i r o).Sourced Near := by
  refine ⟨h.entry, fun j r' v hj hdone' hv => ?_, fun handed hmem v hv => ?_⟩
  · rcases of_set hj with ⟨rfl, rfl⟩ | ⟨-, hj⟩
    · cases hdone'
    · exact h.passing j r' v hj hdone' hv
  · rcases List.mem_append.1 hmem with hmem | hmem
    · exact h.handed handed hmem v hv
    · obtain ⟨t, ht, rfl⟩ := List.mem_map.1 hmem
      obtain rfl : o = .ok v := hv
      obtain ⟨l, hl, hvalue, hnear⟩ := h.passing i r v hr hdone ho
      obtain ⟨hmem, hkey⟩ := mem_of_lastLoad hl
      exact ⟨l, hmem, hkey, hvalue, hnear t ht⟩

theorem sourced_next {e : CacheEvent ε α} (h : c.Sourced Near) (hjudged : Judged Near Ok) (htidy : c.Tidy)
    (hok : Ok c e) (hnext : c.next e = some c') : c'.Sourced Near := by
  cases e with
  | waits ms =>
      obtain rfl := Option.some.inj hnext
      exact h.wait ms
  | get key ttlMs =>
      obtain rfl := Option.some.inj hnext
      exact h.get hjudged htidy hok
  | resolves i value =>
      obtain ⟨r, hr, rfl⟩ := Option.map_eq_some_iff.1 hnext
      obtain ⟨hr, hrunning⟩ := running?_iff.1 hr
      exact h.onValue hjudged htidy hr hrunning value
  | rejects i error ms =>
      obtain ⟨r, hr, rfl⟩ := Option.map_eq_some_iff.1 hnext
      obtain ⟨hr, hrunning⟩ := running?_iff.1 hr
      exact h.onError hjudged htidy hr hrunning hok
  | settles i =>
      obtain ⟨⟨r, o⟩, hr, rfl⟩ := Option.map_eq_some_iff.1 hnext
      obtain ⟨hr, ho, hdone⟩ := passing?_iff.1 hr
      exact h.onFinally hr ho hdone

/-! ## Runs -/

/-- What a caller of a promise can be sure of. -/
def Promised (i : ℕ) (key : String) (t : Instant) (c : TtlCache ε α) : Prop :=
  ∃ r, c.requests[i]? = some r ∧ r.key = key ∧ t ∈ r.callers ∧
    (r.done = true → ∃ o, r.outcome = some o ∧ ⟨key, o, t⟩ ∈ c.handed)

theorem getElem?_set_cases {requests : List (Request ε α)} {r₀ : Request ε α} (hj : requests[j]? = some r)
    (hi : requests[i]? = some r₀) :
    (requests.set i r')[j]? = some r ∧ i ≠ j ∨ (requests.set i r')[j]? = some r' ∧ r = r₀ ∧ i = j := by
  by_cases hij : i = j
  · subst hij
    rw [hi] at hj
    exact .inr ⟨List.getElem?_set_self (List.getElem?_eq_some_iff.1 hi).1, (Option.some.inj hj).symm, rfl⟩
  · exact .inl ⟨(List.getElem?_set_ne hij).trans hj, hij⟩

theorem promised_next {t : Instant} {e : CacheEvent ε α} (h : Promised j key t c) (hnext : c.next e = some c') :
    Promised j key t c' := by
  obtain ⟨r, hr, hkey, ht, hdone⟩ := h
  -- a promise whose load runs is not settled, so its outcome is still open
  have hpass : ∀ i r₀ o (d : TtlCache ε α), c.running? i = some r₀ →
      d.requests = c.requests.set i { r₀ with outcome := some o } → d.handed = c.handed → Promised j key t d := by
    intro i r₀ o d hrunning hrequests hhanded
    obtain ⟨hi, hopen⟩ := running?_iff.1 hrunning
    rw [Promised, hrequests, hhanded]
    rcases getElem?_set_cases hr hi with ⟨hj, -⟩ | ⟨hj, rfl, -⟩
    · exact ⟨r, hj, hkey, ht, hdone⟩
    · refine ⟨_, hj, hkey, ht, fun hsettled => ?_⟩
      obtain ⟨o', ho', -⟩ := hdone hsettled
      rw [hopen] at ho'
      cases ho'
  cases e with
  | waits ms =>
      obtain rfl := Option.some.inj hnext
      exact ⟨r, hr, hkey, ht, hdone⟩
  | get key' ttlMs =>
      obtain rfl := Option.some.inj hnext
      rcases get_cases c key' ttlMs with ⟨entry, -, hget⟩ | ⟨-, ⟨i, -, hget⟩ | ⟨-, hget⟩⟩
      · rw [hget]
        refine ⟨r, hr, hkey, ht, fun hsettled => ?_⟩
        obtain ⟨o, ho, hhanded⟩ := hdone hsettled
        exact ⟨o, ho, List.mem_append_left _ hhanded⟩
      · rw [hget, Promised]
        simp only [List.getElem?_modify, hr]
        split
        · exact ⟨_, rfl, hkey, List.mem_append_left _ ht, hdone⟩
        · exact ⟨_, rfl, hkey, ht, hdone⟩
      · rw [hget]
        exact ⟨r, (List.getElem?_append_left (List.getElem?_eq_some_iff.1 hr).1).trans hr, hkey, ht, hdone⟩
  | resolves i value =>
      obtain ⟨r₀, hrunning, rfl⟩ := Option.map_eq_some_iff.1 hnext
      exact hpass i r₀ (.ok value) _ hrunning rfl rfl
  | rejects i error ms =>
      obtain ⟨r₀, hrunning, rfl⟩ := Option.map_eq_some_iff.1 hnext
      rcases onError_cases c i r₀ error ms with ⟨entry, -, herror⟩ | ⟨-, herror⟩
      · rw [herror]
        exact hpass i r₀ (.ok entry.value) _ hrunning rfl rfl
      · rw [herror]
        exact hpass i r₀ (.error error) _ hrunning rfl rfl
  | settles i =>
      obtain ⟨⟨r₀, o⟩, hpassing, rfl⟩ := Option.map_eq_some_iff.1 hnext
      obtain ⟨hi, ho, -⟩ := passing?_iff.1 hpassing
      rcases getElem?_set_cases hr hi with ⟨hj, -⟩ | ⟨hj, rfl, -⟩
      · refine ⟨r, hj, hkey, ht, fun hsettled => ?_⟩
        obtain ⟨o', ho', hhanded⟩ := hdone hsettled
        exact ⟨o', ho', List.mem_append_left _ hhanded⟩
      · refine ⟨_, hj, hkey, ht, fun _ => ⟨o, ho, List.mem_append_right _ ?_⟩⟩
        exact List.mem_map.2 ⟨t, ht, by rw [hkey]⟩

/-- One load for each key, for everybody who asks while it runs; values of successful loads only, which
failures keep; and no load where there is a fresh value. -/
structure Sound (c : TtlCache ε α) : Prop where
  single : ∀ (i j : ℕ) (r r' : Request ε α), c.requests[i]? = some r → c.requests[j]? = some r' → r.outcome = none →
    r'.outcome = none → r.key = r'.key → i = j
  shared : ∀ (i : ℕ) (r : Request ε α) ttlMs c', c.requests[i]? = some r → r.outcome = none →
    Run next (fun _ _ => True) (c.get r.key ttlMs) c' →
      (c.get r.key ttlMs).requests.length = c.requests.length ∧ Promised i r.key c.now c'
  source : ∀ h ∈ c.handed, ∀ v, h.result = .ok v → ∃ l ∈ c.loads, l.key = h.key ∧ l.value = v
  kept : ∀ (i : ℕ) (r : Request ε α) e ms key, c.requests[i]? = some r → r.outcome = none →
    ((c.onError i r e ms).entries key).map (fun e => (e.value, e.fetchedAt)) =
      (c.entries key).map fun e => (e.value, e.fetchedAt)
  quiet : ∀ key ttlMs entry, c.fresh? key = some entry → (c.get key ttlMs).requests = c.requests

/-- No value is handed out to a call made too long after its load. -/
def Bounded (c : TtlCache ε α) : Prop :=
  ∀ h ∈ c.handed, ∀ v, h.result = .ok v → ∃ l ∈ c.loads, l.key = h.key ∧ l.value = v ∧
    h.calledAt ≤ l.finishedAt + max l.ttlMs c.staleFor

/-- A failed load falls back on a value only if the five seconds that this adds are within its time, and
nobody joins a promise whose value is too old when `.finally` has not run. -/
def timely (c : TtlCache ε α) : CacheEvent ε α → Bool
  | .get key _ =>
      match c.fresh? key, (c.inflight key).bind c.passing?, c.lastLoad key with
      | none, some (_, .ok _), some l => c.now ≤ l.finishedAt + max l.ttlMs c.staleFor
      | _, _, _ => true
  | .rejects i _ ms =>
      match (c.running? i).bind c.fallback? with
      | some entry => c.now + ms + 5000 ≤ entry.fetchedAt + c.staleFor
      | none => true
  | .waits _ | .resolves _ _ | .settles _ => true

theorem sound_of_sourced (htidy : c.Tidy) (hsourced : c.Sourced fun _ _ => True) : c.Sound where
  single i j r r' hi hj hrunning hrunning' hkey :=
    htidy.unique hi hj (htidy.entry i r hi hrunning).1 (htidy.entry j r' hj hrunning').1 hkey
  shared i r ttlMs c' hr hrunning hrun := by
    obtain ⟨hdone, -, hstale⟩ := htidy.entry i r hr hrunning
    have hflight := htidy.inflight i r hr hdone
    have hget : c.get r.key ttlMs =
        { c with requests := c.requests.modify i fun r => { r with callers := r.callers ++ [c.now] } } := by
      rw [TtlCache.get, hstale, hflight]
    have hjoined : Promised i r.key c.now (c.get r.key ttlMs) := by
      rw [hget, Promised]
      simp only [List.getElem?_modify, hr]
      exact ⟨_, rfl, by simp, by simp, fun hsettled => by simp [hdone] at hsettled⟩
    refine ⟨?_, hrun.invariant (Promised i r.key c.now) hjoined fun _ _ _ h _ hnext => promised_next h hnext⟩
    rw [hget]
    exact List.length_modify ..
  source handed hmem v hv := by
    obtain ⟨l, hl, hkey, hvalue, -⟩ := hsourced.handed handed hmem v hv
    exact ⟨l, hl, hkey, hvalue⟩
  kept i r e ms key hr hrunning := by
    obtain ⟨-, hcaptured, -⟩ := htidy.entry i r hr hrunning
    rcases onError_cases c i r e ms with ⟨entry, hfallback, herror⟩ | ⟨-, herror⟩
    · have hentry : c.entries r.key = some entry := hcaptured ▸ (fallback?_iff.1 hfallback).1
      rw [herror]
      by_cases hkey : key = r.key
      · subst hkey
        simp [hentry]
      · exact congrArg _ (Function.update_of_ne hkey _ _)
    · rw [herror]
  quiet key ttlMs entry hfresh := by
    rw [TtlCache.get, hfresh]

theorem staleFor_next {e : CacheEvent ε α} (hnext : c.next e = some c') : c'.staleFor = c.staleFor := by
  cases e with
  | waits ms => exact Option.some.inj hnext ▸ rfl
  | get key ttlMs =>
      rcases get_cases c key ttlMs with ⟨entry, -, hget⟩ | ⟨-, ⟨i, -, hget⟩ | ⟨-, hget⟩⟩ <;>
        exact Option.some.inj hnext ▸ hget ▸ rfl
  | resolves i value =>
      obtain ⟨r, -, rfl⟩ := Option.map_eq_some_iff.1 hnext
      rfl
  | rejects i error ms =>
      obtain ⟨r, -, rfl⟩ := Option.map_eq_some_iff.1 hnext
      rcases onError_cases c i r error ms with ⟨entry, -, herror⟩ | ⟨-, herror⟩ <;> rw [herror]
  | settles i =>
      obtain ⟨p, -, rfl⟩ := Option.map_eq_some_iff.1 hnext
      rfl

theorem judged_always : Judged (fun _ _ => True) (fun (_ : TtlCache ε α) _ => True) :=
  ⟨fun _ _ _ => trivial, fun _ _ _ => trivial, fun _ _ _ _ _ _ _ _ _ _ _ _ _ _ => trivial,
    fun _ _ _ _ _ _ _ _ _ _ _ => ⟨fun _ _ => trivial, fun _ _ => trivial⟩⟩

theorem judged_timely (staleFor : ℕ) : Judged (fun t l => t ≤ l.finishedAt + max l.ttlMs staleFor)
    (fun (c : TtlCache ε α) e => timely c e = true ∧ c.staleFor = staleFor) where
  before t l ht := by
    simp only [Instant] at *
    omega
  fresh t l ht := by
    simp only [Instant] at *
    omega
  joins c key ttlMs i r v l hok hstale hi hr hv hdone hl := by
    obtain ⟨htimely, rfl⟩ := hok
    have hpassing : (c.inflight key).bind c.passing? = some (r, .ok v) := by
      rw [hi]
      exact passing?_iff.2 ⟨hr, hv, hdone⟩
    simp only [timely, hstale, hpassing, hl] at htimely
    exact of_decide_eq_true htimely
  fallback c i e ms r entry l hok hrunning hfallback hfetched := by
    obtain ⟨htimely, rfl⟩ := hok
    have hfalls : (c.running? i).bind c.fallback? = some entry := by
      rw [hrunning]
      exact hfallback
    simp only [timely, hfalls] at htimely
    have hextended := of_decide_eq_true htimely
    have hyoung := (fallback?_iff.1 hfallback).2
    constructor
    · intro t ht
      simp only [Instant] at *
      omega
    · intro t ht
      simp only [Instant] at *
      omega

/-- Everything but the age holds in every run, and the age is bounded in those that are timely. -/
theorem ttlCache_sound (staleFor : ℕ) (now : Instant) :
    (∀ c : TtlCache ε α, Run next (fun _ _ => True) { now := now, staleFor := staleFor } c → c.Sound) ∧
    ∀ c : TtlCache ε α, Run next (fun c e => timely c e = true) { now := now, staleFor := staleFor } c → c.Bounded := by
  have htidy : ({ now := now, staleFor := staleFor } : TtlCache ε α).Tidy :=
    ⟨by simp, by simp, by simp, by simp⟩
  have hsourced : ∀ Near, ({ now := now, staleFor := staleFor } : TtlCache ε α).Sourced Near := fun Near =>
    ⟨by simp, by simp, by simp⟩
  constructor
  · intro c hrun
    obtain ⟨htidy, hsourced⟩ : c.Tidy ∧ c.Sourced fun _ _ => True :=
      hrun.invariant (fun c => c.Tidy ∧ c.Sourced fun _ _ => True) ⟨htidy, hsourced _⟩ fun _ _ _ h hok hnext =>
        ⟨tidy_next h.1 hnext, sourced_next h.2 judged_always h.1 hok hnext⟩
    exact sound_of_sourced htidy hsourced
  · intro c hrun
    let Near := fun t (l : Loaded α) => t ≤ l.finishedAt + max l.ttlMs staleFor
    obtain ⟨-, hsourced, hstale⟩ : c.Tidy ∧ c.Sourced Near ∧ c.staleFor = staleFor :=
      hrun.invariant (fun c => c.Tidy ∧ c.Sourced Near ∧ c.staleFor = staleFor) ⟨htidy, hsourced _, rfl⟩
        fun _ _ _ h hok hnext => ⟨tidy_next h.1 hnext,
          sourced_next h.2.1 (judged_timely staleFor) h.1 ⟨hok, h.2.2⟩ hnext, (staleFor_next hnext).trans h.2.2⟩
    rw [Bounded, hstale]
    exact hsourced.handed

/-! ## The API is down -/

/-- A page is loaded, the API goes down, and a visitor comes so much later. -/
def outage (ms : ℕ) : List (CacheEvent Unit String) :=
  [.get "/public/catalog" 1000, .resolves 0 "courses", .settles 0, .waits ms, .get "/public/catalog" 1000,
    .rejects 1 () 0, .settles 1, .waits 4999, .get "/public/catalog" 1000]

/-- For a while the last answer is served. -/
theorem ttlCache_sound_outage :
    ∃ c : TtlCache Unit String, c.Bounded ∧ c.handed.map Handed.calledAt = [0, 2000, 6999] := by
  have hplay : Machines.play next timely { now := 0 } (outage 2000) = some _ := rfl
  exact ⟨_, (ttlCache_sound _ 0).2 _ (play_run hplay), rfl⟩

/-- A failure in the last five seconds of that while makes it longer. -/
theorem ttlCache_stale :
    ∃ c : TtlCache Unit String, Run next (fun _ _ => True) { now := 0 } c ∧ ¬ c.Bounded := by
  have hplay : Machines.play next (fun _ _ => true) { now := 0 } (outage 599999) = some _ := rfl
  refine ⟨_, (play_run hplay).mono fun _ _ _ => trivial, fun hbounded => ?_⟩
  obtain ⟨l, hl, -, -, hage⟩ :=
    hbounded ⟨"/public/catalog", .ok "courses", 604998⟩ (.tail _ (.tail _ (.head _))) "courses" rfl
  obtain rfl := List.mem_singleton.1 hl
  exact absurd hage (by decide)

end TtlCache

end Emis.PublicSite
